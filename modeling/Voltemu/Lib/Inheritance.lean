import Mathlib.Tactic

/-!
# Priority inheritance along a chain of owners

Every node has a base value and may wait for one other node, its owner.  A node is *settled* when
its value is the least of its base value and the values of the nodes that wait for it.  A change to
one node is repaired by a walk: set the node to the least value, go to its owner, and stop as soon as
a node is settled.  The owners may form cycles.

* `settled_of_walk_end` — a walk that ends leaves every node settled;
* `Pending` — the invariant of a walk, with a bound on its length;
* `pending_start`, `Pending.step` — it holds at the start with a bound of the number of nodes, and
  every step uses up one.

A walk that lowers values hands one value on, so it ends at the first node that has it.  A walk that
raises values only goes through nodes that have the value of the first one, and cannot come back to
a node it has raised.
-/

namespace Inheritance

open Function

variable {ι α : Type*}

/-- The values a node takes its own from. -/
def sources (base : ι → α) (owner : ι → Option ι) (p : ι → α) (x : ι) : Set α :=
  {a | a = base x ∨ ∃ t, owner t = some x ∧ a = p t}

variable {base : ι → α} {owner : ι → Option ι} {p : ι → α} {x y : ι} {c : α}

/-- Only the nodes that wait for a node matter to it. -/
lemma sources_congr {base' : ι → α} {owner' : ι → Option ι} {p' : ι → α} (hbase : base' x = base x)
    (howner : ∀ t, owner' t = some x ↔ owner t = some x)
    (hp : ∀ t, owner t = some x → p' t = p t) :
    sources base' owner' p' x = sources base owner p x := by
  ext a
  simp only [sources, Set.mem_ofPred_eq, hbase, howner]
  constructor
  · rintro (h | ⟨t, ht, h⟩)
    · exact Or.inl h
    · exact Or.inr ⟨t, ht, h.trans (hp t ht)⟩
  · rintro (h | ⟨t, ht, h⟩)
    · exact Or.inl h
    · exact Or.inr ⟨t, ht, h.trans (hp t ht).symm⟩

section Walk

variable [DecidableEq ι]

lemma sources_update (hy : owner x ≠ some y) (c : α) : sources base owner (update p x c) y = sources base owner p y := by
  refine sources_congr rfl (fun _ => Iff.rfl) ?_
  intro t ht
  refine update_of_ne ?_ _ _
  rintro rfl
  exact hy ht

private lemma mem_sources_update (hy : owner x = some y) {a : α} (ha : a ∈ sources base owner (update p x c) y) :
    a = c ∨ a ∈ sources base owner p y := by
  rcases ha with ha | ⟨t, ht, ha⟩
  · exact Or.inr (Or.inl ha)
  · by_cases htx : t = x
    · subst htx
      rw [update_self] at ha
      exact Or.inl ha
    · rw [update_of_ne htx] at ha
      exact Or.inr (Or.inr ⟨t, ht, ha⟩)

/-- A value that does not come from the changed node stays. -/
private lemma mem_sources_of_ne {a : α} (ha : a ∈ sources base owner p y) (hne : a ≠ p x) :
    a ∈ sources base owner (update p x c) y := by
  rcases ha with ha | ⟨t, ht, ha⟩
  · exact Or.inl ha
  · refine Or.inr ⟨t, ht, ?_⟩
    rw [update_of_ne ?_]
    · exact ha
    · rintro rfl
      exact hne ha

variable [LinearOrder α]

/-- The value of the node is the one it should have. -/
def Settled (base : ι → α) (owner : ι → Option ι) (p : ι → α) (x : ι) : Prop :=
  IsLeast (sources base owner p x) (p x)

section

variable (hsettled : ∀ t, t ≠ x → Settled base owner p t) (hc : IsLeast (sources base owner p x) c)
include hsettled hc

/-- The node the walk leaves is settled, unless it waits for itself, and so are the others. -/
lemma settled_update (hy : owner x ≠ some y) : Settled base owner (update p x c) y := by
  rw [Settled, sources_update hy]
  by_cases hyx : y = x
  · subst hyx
    rwa [update_self]
  · rw [update_of_ne hyx]
    exact hsettled y hyx

lemma settled_of_walk_end (hx : owner x = none) (t : ι) : Settled base owner (update p x c) t :=
  settled_update hsettled hc (by simp [hx])

/-- The walk lowers values: the owner has a smaller value already, or takes the new one over. -/
private lemma next_of_lt (hlt : c < p x) (hy : owner x = some y) {c' : α}
    (hc' : IsLeast (sources base owner (update p x c) y) c') :
    c' = update p x c y ∨ (c' = c ∧ c < update p x c y) := by
  have hcmem : c ∈ sources base owner (update p x c) y :=
    Or.inr ⟨x, hy, by rw [update_self]⟩
  have hle : c' ≤ c := hc'.2 hcmem
  by_cases hyx : y = x
  · subst hyx
    left
    rw [update_self]
    refine le_antisymm hle ?_
    rcases mem_sources_update hy hc'.1 with h | h
    · exact h.ge
    · exact hc.2 h
  · rw [update_of_ne hyx]
    have hpy := hsettled y hyx
    have hmin : c' = c ∨ p y ≤ c' := by
      rcases mem_sources_update hy hc'.1 with h | h
      · exact Or.inl h
      · exact Or.inr (hpy.2 h)
    rcases le_or_gt (p y) c with hpc | hpc
    · left
      have hmem : p y ∈ sources base owner (update p x c) y :=
        mem_sources_of_ne hpy.1 (hpc.trans_lt hlt).ne
      refine le_antisymm (hc'.2 hmem) ?_
      rcases hmin with rfl | hmin
      · exact hpc
      · exact hmin
    · right
      refine ⟨?_, hpc⟩
      rcases hmin with hmin | hmin
      · exact hmin
      · exact absurd (hmin.trans hle) (not_le.2 hpc)

/-- The walk raises values: the owner has another reason for its value, or has the value of the
changed node. -/
private lemma next_of_gt (hlt : p x < c) (hy : owner x = some y) {c' : α}
    (hc' : IsLeast (sources base owner (update p x c) y) c') :
    c' = update p x c y ∨ (update p x c y = p x ∧ p x < c') := by
  have hyx : y ≠ x := by
    rintro rfl
    exact absurd (hc.2 (Or.inr ⟨y, hy, rfl⟩)) (not_le.2 hlt)
  rw [update_of_ne hyx]
  have hpy := hsettled y hyx
  have hle : p y ≤ p x := hpy.2 (Or.inr ⟨x, hy, rfl⟩)
  have hge : p y ≤ c' := by
    rcases mem_sources_update hy hc'.1 with rfl | h
    · exact hle.trans hlt.le
    · exact hpy.2 h
  by_cases heq : p y = p x
  · rcases hge.eq_or_lt with h | h
    · exact Or.inl h.symm
    · exact Or.inr ⟨heq, heq ▸ h⟩
  · left
    exact le_antisymm (hc'.2 (mem_sources_of_ne hpy.1 heq)) hge

end

variable [Fintype ι]

/-- The invariant of a walk that has arrived at `x`: the other nodes are settled, and `x` either is
settled too, or takes the value `v` the walk hands on, or has the value `v` the walk removes.  There
are at most `k` nodes left to change. -/
structure Pending (base : ι → α) (owner : ι → Option ι) (p : ι → α) (x : ι) (k : ℕ) : Prop where
  settled : ∀ t, t ≠ x → Settled base owner p t
  direction : ∃ v,
    ((∀ c, IsLeast (sources base owner p x) c → c = p x ∨ (c = v ∧ v < p x)) ∧
      (Finset.univ.filter fun t => v < p t).card ≤ k) ∨
    ((∀ c, IsLeast (sources base owner p x) c → c = p x ∨ (p x = v ∧ v < c)) ∧
      (Finset.univ.filter fun t => p t = v).card ≤ k)

variable {k : ℕ}

lemma Pending.allSettled (h : Pending base owner p x k)
    (hc : IsLeast (sources base owner p x) c) (heq : c = p x) (t : ι) :
    Settled base owner p t := by
  by_cases ht : t = x
  · rwa [ht, Settled, ← heq]
  · exact h.settled t ht

omit [DecidableEq ι] in
lemma pending_start (hsettled : ∀ t, t ≠ x → Settled base owner p t) (hc : IsLeast (sources base owner p x) c) :
    Pending base owner p x (Fintype.card ι) := by
  refine ⟨hsettled, ?_⟩
  rcases lt_or_ge c (p x) with hlt | hge
  · refine ⟨c, Or.inl ⟨?_, Finset.card_le_univ _⟩⟩
    intro c' hc'
    exact Or.inr ⟨hc'.unique hc, hlt⟩
  · refine ⟨p x, Or.inr ⟨?_, Finset.card_le_univ _⟩⟩
    intro c' hc'
    obtain rfl := hc'.unique hc
    rcases hge.eq_or_lt with heq | hlt
    · exact Or.inl heq.symm
    · exact Or.inr ⟨rfl, hlt⟩

omit [DecidableEq ι] in
/-- One more node has changed. -/
private lemma card_filter_lt {P Q : ι → Prop} [DecidablePred P] [DecidablePred Q]
    (hk : (Finset.univ.filter P).card ≤ k + 1) (hsub : ∀ t, Q t → P t) (hx : P x) (hx' : ¬ Q x) :
    (Finset.univ.filter Q).card ≤ k := by
  have hlt : (Finset.univ.filter Q).card < (Finset.univ.filter P).card := by
    refine Finset.card_lt_card ⟨?_, ?_⟩
    · intro t ht
      simp only [Finset.mem_filter, Finset.mem_univ, true_and] at ht ⊢
      exact hsub t ht
    · intro hsub'
      have hmem := hsub' (Finset.mem_filter.2 ⟨Finset.mem_univ x, hx⟩)
      exact hx' (Finset.mem_filter.1 hmem).2
  omega

/-- **A step of the walk uses up one node.** -/
theorem Pending.step (h : Pending base owner p x (k + 1))
    (hc : IsLeast (sources base owner p x) c) (hne : c ≠ p x) (hy : owner x = some y) :
    Pending base owner (update p x c) y k := by
  refine ⟨?_, ?_⟩
  · intro t ht
    exact settled_update h.settled hc fun h' => ht (Option.some.inj (h'.symm.trans hy))
  · obtain ⟨v, ⟨hdir, hcard⟩ | ⟨hdir, hcard⟩⟩ := h.direction
    · obtain ⟨rfl, hlt⟩ := (hdir c hc).resolve_left hne
      refine ⟨c, Or.inl ⟨fun c' hc' => next_of_lt h.settled hc hlt hy hc', ?_⟩⟩
      refine card_filter_lt hcard ?_ hlt (by simp)
      intro t ht
      by_cases htx : t = x
      · exact htx ▸ hlt
      · rwa [update_of_ne htx] at ht
    · obtain ⟨rfl, hlt⟩ := (hdir c hc).resolve_left hne
      refine ⟨p x, Or.inr ⟨fun c' hc' => next_of_gt h.settled hc hlt hy hc', ?_⟩⟩
      refine card_filter_lt hcard ?_ rfl (by simpa using hlt.ne')
      intro t ht
      by_cases htx : t = x
      · rw [htx]
      · rwa [update_of_ne htx] at ht

omit [DecidableEq ι] in
/-- A walk that has no node left to change is at its end. -/
lemma Pending.settled_of_zero (h : Pending base owner p x 0) (hc : IsLeast (sources base owner p x) c) : c = p x := by
  have hempty : ∀ {P : ι → Prop} [DecidablePred P], (Finset.univ.filter P).card ≤ 0 → ¬ P x := by
    intro P _ hcard hx
    have hmem : x ∈ Finset.univ.filter P := Finset.mem_filter.2 ⟨Finset.mem_univ x, hx⟩
    rw [Finset.card_eq_zero.1 (Nat.le_zero.1 hcard)] at hmem
    simp at hmem
  obtain ⟨v, ⟨hdir, hcard⟩ | ⟨hdir, hcard⟩⟩ := h.direction
  · rcases hdir c hc with heq | ⟨-, hlt⟩
    · exact heq
    · exact absurd hlt (hempty hcard)
  · rcases hdir c hc with heq | ⟨heq, -⟩
    · exact heq
    · exact absurd heq (hempty hcard)

end Walk

end Inheritance
