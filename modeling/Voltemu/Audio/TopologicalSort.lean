import Voltemu.Audio.NodeStates
import Mathlib.Data.Nat.Choose.Sum

/-!
# What the sort of the mixes gives

* `Round` is one round of the inner loop of `DepthFirstSearch`; `loop_rule` turns what a round preserves into what
  holds at every moment of the loop, and `search_rule` does so for the outer loop.
* `Sorting` is the invariant: what is complete has been pushed as a result behind everything it has an edge to, and
  what is found has its edges above it on the stack.
* Every node that is found makes one node fewer that can be pushed, so the stack grows by `n (n - 1) / 2` at most,
  and by one root.  This is over what was on it: a sort that fails does not empty it.
-/

namespace Voltemu.Audio

open Function List Nat

namespace NodeStates

/-! ## The moments of a sort -/

/-- The states that the inner loop passes through.  Within a round the position of the stack only grows. -/
def loopStates (e : EdgeMatrix) : ℕ → NodeStates → List NodeStates
  | 0, ns => [ns]
  | fuel + 1, ns =>
      ns :: match ns.stack with
        | [] => []
        | current :: rest =>
            match ns.state current with
            | .unknown =>
                let state := update ns.state current .found
                let q := pushEdges (e.connected current) state (List.range e.count) ns.stack
                if q.2 then loopStates e fuel { ns with state := state, stack := q.1 }
                else [{ ns with state := state, stack := q.1 }]
            | .found => loopStates e fuel
                { ns with
                  state := update ns.state current .complete
                  results := ns.results ++ [current]
                  stack := rest }
            | .complete => loopStates e fuel { ns with stack := rest }

/-- The states that the outer loop passes through. -/
def searchStates (e : EdgeMatrix) (fuel : ℕ) : List ℕ → NodeStates → List NodeStates
  | [], ns => [ns]
  | id :: ids, ns =>
      let ns := if ns.state id = .unknown then { ns with stack := id :: ns.stack } else ns
      loopStates e fuel ns ++
        match searchLoop e fuel ns with
        | some (ns, true) => searchStates e fuel ids ns
        | some (ns, false) => [ns.resetState]
        | none => []

/-- The states that `Tsort` passes through. -/
def tsortStates (ns : NodeStates) (e : EdgeMatrix) : List NodeStates :=
  searchStates e (ns.nodeCount * (ns.nodeCount + 2) + ns.stack.length + 1) (List.range ns.nodeCount) ns.resetState

/-- The buffer of `results`: what has not been written is `-1`. -/
def resultsBuffer (ns : NodeStates) : List ℕ :=
  ns.results ++ replicate (ns.nodeCount - ns.results.length) (2 ^ 32 - 1)

/-- `GetSortedResuls`: from the end of the buffer, and as many as there are results. -/
def getSortedResults (ns : NodeStates) : List ℕ := ns.resultsBuffer.reverse.take ns.results.length

/-! ## One round -/

/-- **A round of the inner loop**, and whether it found no cycle. -/
inductive Round (e : EdgeMatrix) (ns : NodeStates) : NodeStates → Bool → Prop
  | expand {current : ℕ} {rest : List ℕ} (q : List ℕ × Bool) (hstack : ns.stack = current :: rest)
      (hstate : ns.state current = .unknown)
      (hq : pushEdges (e.connected current) (update ns.state current .found) (List.range e.count) (current :: rest) = q) :
      Round e ns { ns with state := update ns.state current .found, stack := q.1 } q.2
  | complete {current : ℕ} {rest : List ℕ} (hstack : ns.stack = current :: rest) (hstate : ns.state current = .found) :
      Round e ns
        { ns with
          state := update ns.state current .complete
          results := ns.results ++ [current]
          stack := rest } true
  | pop {current : ℕ} {rest : List ℕ} (hstack : ns.stack = current :: rest) (hstate : ns.state current = .complete) :
      Round e ns { ns with stack := rest } true

section Rules

variable {e : EdgeMatrix} {ns : NodeStates} {I J : NodeStates → Prop}

lemma loop_rule (hJ : ∀ a, I a → J a)
    (hround : ∀ a b ok, I a → Round e a b ok → (ok = true → I b) ∧ J b) (fuel : ℕ) (h : I ns) :
    (∀ s ∈ loopStates e fuel ns, J s) ∧
      ∀ r, searchLoop e fuel ns = some r → J r.1 ∧ (r.2 = true → I r.1 ∧ r.1.stack = []) := by
  induction fuel generalizing ns with
  | zero =>
    refine ⟨by simpa [loopStates] using hJ ns h, fun r hr => ?_⟩
    unfold searchLoop at hr
    split_ifs at hr with hstack
    obtain rfl := Option.some.inj hr
    exact ⟨hJ ns h, fun _ => ⟨h, hstack⟩⟩
  | succ fuel ih =>
    unfold loopStates searchLoop
    simp only [forall_mem_cons, hJ ns h, true_and]
    cases hstack : ns.stack with
    | nil =>
      refine ⟨by simp, fun r hr => ?_⟩
      obtain rfl := Option.some.inj hr
      exact ⟨hJ ns h, fun _ => ⟨h, hstack⟩⟩
    | cons current rest =>
      cases hstate : ns.state current with
      | unknown =>
        generalize hq : pushEdges (e.connected current) (update ns.state current .found)
          (List.range e.count) (current :: rest) = q
        obtain ⟨hok, hfails⟩ := hround ns _ _ h (.expand q hstack hstate hq)
        simp only [hstate, hq]
        by_cases hq2 : q.2 = true
        · rw [if_pos hq2, if_pos hq2]
          exact ih (hok hq2)
        · rw [if_neg hq2, if_neg hq2]
          refine ⟨by simpa using hfails, fun r hr => ?_⟩
          obtain rfl := Option.some.inj hr
          exact ⟨hfails, fun hr => by simp at hr⟩
      | found =>
        simp only [hstate]
        exact ih ((hround ns _ _ h (.complete hstack hstate)).1 rfl)
      | complete =>
        simp only [hstate]
        exact ih ((hround ns _ _ h (.pop hstack hstate)).1 rfl)

/-- **The rule of the outer loop**: `K` is what holds between the searches from two roots, and `I` what holds in a
search; both know the roots that are left. -/
lemma search_rule {I K : List ℕ → NodeStates → Prop} (hJ : ∀ ids a, I ids a → J a)
    (hround : ∀ ids a b ok, I ids a → Round e a b ok → (ok = true → I ids b) ∧ J b)
    (hroot : ∀ id ids a, K (id :: ids) a → I ids (if a.state id = .unknown then { a with stack := id :: a.stack } else a))
    (hnext : ∀ ids a, I ids a → a.stack = [] → K ids a)
    (hdone : ∀ a, K [] a → J a) (hreset : ∀ a, J a → J a.resetState)
    (fuel : ℕ) {ids : List ℕ} (h : K ids ns) :
    (∀ s ∈ searchStates e fuel ids ns, J s) ∧
      ∀ r, searchFrom e fuel ids ns = some r → J r.1 ∧ (r.2 = true → K [] r.1) := by
  induction ids generalizing ns with
  | nil =>
    refine ⟨by simpa [searchStates] using hdone ns h, fun r hr => ?_⟩
    obtain rfl := Option.some.inj hr
    exact ⟨hdone ns h, fun _ => h⟩
  | cons id ids ih =>
    obtain ⟨hstates, hresult⟩ := loop_rule (hJ ids) (hround ids) fuel (hroot id ids ns h)
    unfold searchStates searchFrom
    dsimp only
    cases hloop : searchLoop e fuel
        (if ns.state id = .unknown then { ns with stack := id :: ns.stack } else ns) with
    | none => exact ⟨by simpa using hstates, fun r hr => by simp at hr⟩
    | some r =>
      obtain ⟨b, ok⟩ := r
      obtain ⟨hb, hok⟩ := hresult _ hloop
      simp only [mem_append, Option.bind_some]
      cases ok with
      | true =>
        obtain ⟨hI, hstack⟩ := hok rfl
        obtain ⟨hrest, hfinal⟩ := ih (hnext ids b hI hstack)
        exact ⟨fun s hs => hs.elim (hstates s) (hrest s), hfinal⟩
      | false =>
        refine ⟨fun s hs => hs.elim (hstates s) fun hs => ?_, fun r hr => ?_⟩
        · obtain rfl := mem_singleton.1 hs
          exact hreset b hb
        · obtain rfl := Option.some.inj hr
          exact ⟨hreset b hb, fun hr => by simp at hr⟩

end Rules

/-! ## The invariant -/

def unknownCount (n : ℕ) (state : ℕ → SearchState) : ℕ := (List.range n).countP (state · = .unknown)

/-- The bound on the stack when `left` entries were left on it. -/
def stackBound (n left : ℕ) : ℕ := left + n.choose 2 + min 1 n

/-- **What holds in a sort.**  The stack has room for what the unknown nodes can still push. -/
structure Sorting (e : EdgeMatrix) (bound : ℕ) (ns : NodeStates) : Prop where
  searching : ∃ way, Searching e ns way
  complete : ∀ y, ns.state y = .complete ↔ y ∈ ns.results
  nodup : ns.results.Nodup
  range : ∀ y ∈ ns.results, y < ns.nodeCount
  closed : ∀ x ∈ ns.results, ∀ y, e.Edge x y → y ∈ ns.results
  order : ns.results.Pairwise fun x y => ¬e.Edge x y
  loopless : ∀ x ∈ ns.results, ¬e.Edge x x
  /-- The edges of a node that is found are complete or above it on the stack. -/
  pending : ∀ f, ns.state f = .found → ∀ y, e.Edge f y → ns.state y = .complete ∨ y ∈ ns.stack.takeWhile (· ≠ f)
  room : ns.stack.length + (unknownCount ns.nodeCount ns.state).choose 2 ≤ bound

/-- The roots that have been passed are complete or on the stack. -/
def Passed (ids : List ℕ) (ns : NodeStates) : Prop :=
  ∀ y < ns.nodeCount, y ∉ ids → ns.state y = .complete ∨ y ∈ ns.stack

/-- What holds at every moment of a sort, also when it has failed. -/
structure Held (n bound : ℕ) (ns : NodeStates) : Prop where
  count : ns.nodeCount = n
  stack : ∀ x ∈ ns.stack, x < n
  length : ns.stack.length ≤ bound
  results : ns.results.length ≤ n

section Invariant

variable {e : EdgeMatrix} {ns : NodeStates} {bound : ℕ}

lemma choose_two_succ (u : ℕ) : (u + 1).choose 2 = u + u.choose 2 := by
  rw [choose_succ_succ' u 1, choose_one_right]

variable {l : List ℕ} {n : ℕ}

lemma length_le_of_nodup (hnodup : l.Nodup) (hrange : ∀ y ∈ l, y < n) : l.length ≤ n := by
  have hsub : l ⊆ List.range n := fun y hy => mem_range.2 (hrange y hy)
  simpa using (hnodup.subperm hsub).length_le

lemma Sorting.held (h : Sorting e bound ns) : Held ns.nodeCount bound ns := by
  obtain ⟨way, hsearching⟩ := h.searching
  exact ⟨rfl, hsearching.range, (le_add_right _ _).trans h.room, length_le_of_nodup h.nodup h.range⟩

variable {current : ℕ} {rest : List ℕ}

variable {state : ℕ → SearchState}

lemma countP_update (hstate : state current = .unknown) (hnodup : l.Nodup) (hmem : current ∈ l) :
    l.countP (state · = .unknown) = l.countP (update state current .found · = .unknown) + 1 := by
  induction l with
  | nil => simp at hmem
  | cons x l ih =>
    obtain ⟨hx, hnodup⟩ := nodup_cons.1 hnodup
    rw [countP_cons, countP_cons]
    rcases mem_cons.1 hmem with rfl | hmem
    · have hsame : l.countP (update state current .found · = .unknown) = l.countP (state · = .unknown) := by
        refine countP_congr fun y hy => ?_
        have hne : y ≠ current := fun hyx => hx (hyx ▸ hy)
        rw [update_of_ne hne]
      simp [hstate, hsame]
    · have hne : x ≠ current := fun hxc => hx (hxc ▸ hmem)
      rw [ih hnodup hmem, update_of_ne hne]
      omega

lemma pushEdges_room (connected : ℕ → Bool) (state : ℕ → SearchState) (edges stack : List ℕ) :
    (pushEdges connected state edges stack).1.length ≤ stack.length + edges.countP (state · = .unknown) := by
  induction edges generalizing stack with
  | nil => simp [pushEdges]
  | cons y edges ih =>
    have hpush := ih (y :: stack)
    have hsame := ih stack
    rw [length_cons] at hpush
    unfold pushEdges
    rw [countP_cons]
    by_cases hconnected : connected y = true
    · simp only [hconnected, Bool.not_true, Bool.false_eq_true, if_false]
      cases hstate : state y with
      | unknown =>
        simp only [decide_true, if_true]
        omega
      | found => exact le_add_right _ _
      | complete => exact hsame.trans (by omega)
    · simp only [hconnected, Bool.not_false, if_true]
      omega

/-- What is pushed lies above the stack and is unknown; without a cycle every edge is there or complete. -/
lemma pushEdges_above (connected : ℕ → Bool) (state : ℕ → SearchState) (edges stack : List ℕ) :
    ∃ above, (pushEdges connected state edges stack).1 = above ++ stack ∧ (∀ x ∈ above, state x = .unknown) ∧
      ((pushEdges connected state edges stack).2 = true → ∀ y ∈ edges, connected y = true →
        state y = .complete ∨ y ∈ above) := by
  induction edges generalizing stack with
  | nil => exact ⟨[], rfl, by simp, by simp⟩
  | cons y edges ih =>
    unfold pushEdges
    by_cases hconnected : connected y = true
    · simp only [hconnected, Bool.not_true, Bool.false_eq_true, if_false]
      cases hstate : state y with
      | unknown =>
        obtain ⟨above, hstack, hunknown, hedges⟩ := ih (y :: stack)
        refine ⟨above ++ [y], by simpa using hstack, fun x hx => ?_, fun hok z hz hconn => ?_⟩
        · rcases mem_append.1 hx with hx | hx
          · exact hunknown x hx
          · rwa [mem_singleton.1 hx]
        · rcases mem_cons.1 hz with rfl | hz
          · simp
          · exact (hedges hok z hz hconn).imp_right (mem_append_left _)
      | found => exact ⟨[], rfl, by simp, fun hok => by simp at hok⟩
      | complete =>
        obtain ⟨above, hstack, hunknown, hedges⟩ := ih stack
        refine ⟨above, hstack, hunknown, fun hok z hz hconn => ?_⟩
        rcases mem_cons.1 hz with rfl | hz
        · exact .inl hstate
        · exact hedges hok z hz hconn
    · simp only [hconnected, Bool.not_false, if_true]
      obtain ⟨above, hstack, hunknown, hedges⟩ := ih stack
      refine ⟨above, hstack, hunknown, fun hok z hz hconn => ?_⟩
      rcases mem_cons.1 hz with rfl | hz
      · exact absurd hconn hconnected
      · exact hedges hok z hz hconn

lemma update_found (hstate : state current = .unknown) (y : ℕ) :
    update state current .found y = .complete ↔ state y = .complete := by
  by_cases hy : y = current
  · subst hy
    simp [hstate]
  · rw [update_of_ne hy]

section

variable (h : Sorting e bound ns) (hstack : ns.stack = current :: rest)
include h hstack

/-- A round that finds a node keeps the invariant, or fails. -/
lemma Sorting.expand (hstate : ns.state current = .unknown) {q : List ℕ × Bool}
    (hq : pushEdges (e.connected current) (update ns.state current .found) (List.range e.count) (current :: rest) = q) :
    (q.2 = true → Sorting e bound
      { ns with state := update ns.state current .found, stack := q.1 }) ∧
    Held ns.nodeCount bound { ns with state := update ns.state current .found, stack := q.1 } := by
  obtain ⟨way, hsearching⟩ := h.searching
  obtain ⟨hrange, hok, -⟩ := hsearching.expand hstack hstate hq
  have hcurrent : current < ns.nodeCount := hsearching.range current (by simp [hstack])
  have hcount : unknownCount ns.nodeCount ns.state = unknownCount ns.nodeCount (update ns.state current .found) + 1 :=
    countP_update hstate nodup_range (mem_range.2 hcurrent)
  have hlength := pushEdges_room (e.connected current) (update ns.state current .found)
    (List.range e.count) (current :: rest)
  obtain ⟨above, hq1, hunknown, hedges⟩ := pushEdges_above (e.connected current)
    (update ns.state current .found) (List.range e.count) (current :: rest)
  rw [hq] at hlength hq1 hedges
  rw [hsearching.count] at hlength
  change q.1.length ≤ _ + unknownCount ns.nodeCount (update ns.state current .found) at hlength
  have hroom := h.room
  rw [hcount, hstack, choose_two_succ] at hroom
  have hlengthBound : q.1.length ≤ bound := by omega
  have hresults : ns.results.length ≤ ns.nodeCount := length_le_of_nodup h.nodup h.range
  -- nothing that is found has been pushed
  have hnew (f : ℕ) (hf : update ns.state current .found f = .found) : ∀ x ∈ above, decide (x ≠ f) = true := by
    refine fun x hx => decide_eq_true fun hxf => ?_
    have := hunknown x hx
    rw [hxf, hf] at this
    simp at this
  refine ⟨fun hq2 => ⟨⟨_, hok hq2⟩, fun y => ?_, h.nodup, h.range, h.closed, h.order, h.loopless, ?_, ?_⟩,
    rfl, hrange, hlengthBound, hresults⟩
  · exact (update_found hstate y).trans (h.complete y)
  · intro f hfound y hedge
    dsimp only at hfound ⊢
    rw [hq1, takeWhile_append_of_pos (hnew f hfound)]
    by_cases hf : f = current
    · -- its edges have just been pushed
      subst hf
      exact (hedges hq2 y (mem_range.2 hedge.2.1) hedge.2.2).imp_right (mem_append_left _)
    · rw [update_of_ne hf] at hfound
      rw [update_found hstate, ← hstack]
      exact (h.pending f hfound y hedge).imp_right (mem_append_right _)
  · rw [length_cons] at hroom hlength
    dsimp only
    omega

lemma Sorting.pending_pop {f y : ℕ} (hf : f ≠ current) (hfound : ns.state f = .found) (hedge : e.Edge f y) :
    ns.state y = .complete ∨ y = current ∨ y ∈ rest.takeWhile (· ≠ f) := by
  have hpending := h.pending f hfound y hedge
  rwa [hstack, takeWhile_cons, if_pos (decide_eq_true (Ne.symm hf)), mem_cons] at hpending

lemma Sorting.completed (hstate : ns.state current = .found) : Sorting e bound { ns with
        state := update ns.state current .complete
        results := ns.results ++ [current]
        stack := rest } := by
  obtain ⟨way, hsearching⟩ := h.searching
  have hcurrent : current < ns.nodeCount := hsearching.range current (by simp [hstack])
  have hnew : current ∉ ns.results := fun hmem => by
    rw [(h.complete current).2 hmem] at hstate
    simp at hstate
  have hedges : ∀ y, e.Edge current y → y ∈ ns.results := by
    intro y hedge
    have hpending := h.pending current hstate y hedge
    rw [hstack, takeWhile_cons_of_neg (by simp)] at hpending
    exact (h.complete y).1 (hpending.resolve_right not_mem_nil)
  have hcomplete (y : ℕ) : update ns.state current .complete y = .complete ↔ ns.state y = .complete ∨ y = current := by
    by_cases hy : y = current
    · subst hy
      simp
    · simp [hy]
  refine ⟨hsearching.complete hstack hstate, fun y => ?_, ?_, ?_, ?_, ?_, ?_, ?_, ?_⟩
  · rw [hcomplete, h.complete, mem_append, mem_singleton]
  · exact nodup_append.2 ⟨h.nodup, nodup_singleton _, fun x hx y hy hxy =>
      hnew (by rwa [← mem_singleton.1 hy, ← hxy])⟩
  · intro y hy
    rcases mem_append.1 hy with hy | hy
    · exact h.range y hy
    · rwa [mem_singleton.1 hy]
  · intro x hx y hedge
    rcases mem_append.1 hx with hx | hx
    · exact mem_append_left _ (h.closed x hx y hedge)
    · rw [mem_singleton.1 hx] at hedge
      exact mem_append_left _ (hedges y hedge)
  · -- what is complete has no edge to what was not
    refine pairwise_append.2 ⟨h.order, pairwise_singleton _ _, fun x hx y hy hedge => ?_⟩
    rw [mem_singleton.1 hy] at hedge
    exact hnew (h.closed x hx current hedge)
  · intro x hx hedge
    rcases mem_append.1 hx with hx | hx
    · exact h.loopless x hx hedge
    · rw [mem_singleton.1 hx] at hedge
      exact hnew (hedges current hedge)
  · intro f hfound y hedge
    have hf : f ≠ current := fun hf => by
      subst hf
      simp at hfound
    dsimp only at hfound ⊢
    rw [update_of_ne hf] at hfound
    rw [hcomplete, or_assoc]
    exact h.pending_pop hstack hf hfound hedge
  · have hroom := h.room
    have hle : unknownCount ns.nodeCount (update ns.state current .complete) ≤
        unknownCount ns.nodeCount ns.state := by
      refine countP_mono_left fun y _ hy => ?_
      by_cases hyc : y = current
      · subst hyc
        simp at hy
      · rwa [update_of_ne hyc] at hy
    have := choose_le_choose 2 hle
    rw [hstack, length_cons] at hroom
    dsimp only
    omega

/-- A round that takes a node from the stack that was complete before keeps the invariant. -/
lemma Sorting.popped (hstate : ns.state current = .complete) : Sorting e bound { ns with stack := rest } := by
  obtain ⟨way, hsearching⟩ := h.searching
  refine ⟨⟨way, hsearching.pop hstack hstate⟩, h.complete, h.nodup, h.range, h.closed, h.order, h.loopless, ?_, ?_⟩
  · intro f hfound y hedge
    have hf : f ≠ current := fun hf => by
      rw [hf] at hfound
      simp [hstate] at hfound
    rcases h.pending_pop hstack hf hfound hedge with hy | rfl | hy
    · exact .inl hy
    · exact .inl hstate
    · exact .inr hy
  · have hroom := h.room
    rw [hstack, length_cons] at hroom
    dsimp only
    omega

end

variable {ns' : NodeStates} {ok : Bool}

lemma Sorting.round (h : Sorting e bound ns) (hround : Round e ns ns' ok) :
    (ok = true → Sorting e bound ns') ∧ Held ns.nodeCount bound ns' := by
  cases hround with
  | expand q hstack hstate hq => exact h.expand hstack hstate hq
  | complete hstack hstate => exact ⟨fun _ => h.completed hstack hstate, (h.completed hstack hstate).held⟩
  | pop hstack hstate => exact ⟨fun _ => h.popped hstack hstate, (h.popped hstack hstate).held⟩

lemma Held.reset (h : Held n bound ns) : Held n bound ns.resetState :=
  ⟨h.count, h.stack, h.length, zero_le _⟩

lemma sorting_reset (hcount : e.count = ns.nodeCount) (hstack : ∀ x ∈ ns.stack, x < ns.nodeCount)
    (hroom : ns.stack.length + ns.nodeCount.choose 2 ≤ bound) : Sorting e bound ns.resetState := by
  refine ⟨⟨[], searching_reset hcount hstack⟩, fun y => by simp [resetState], .nil, by simp [resetState],
    by simp [resetState], .nil, by simp [resetState], fun f hfound => by simp [resetState] at hfound, ?_⟩
  have hall : unknownCount ns.nodeCount ns.resetState.state = ns.nodeCount := by
    simp [unknownCount, resetState]
  change ns.stack.length + (unknownCount ns.nodeCount ns.resetState.state).choose 2 ≤ bound
  rwa [hall]

lemma Sorting.push (h : Sorting e bound ns) (hnone : ∀ f, ns.state f ≠ .found) {id : ℕ} (hid : id < ns.nodeCount)
    (hroom : ns.stack.length + 1 + (unknownCount ns.nodeCount ns.state).choose 2 ≤ bound) :
    Sorting e bound { ns with stack := id :: ns.stack } := by
  obtain ⟨way, hsearching⟩ := h.searching
  have hempty : way = [] := eq_nil_iff_forall_not_mem.2 fun y hy =>
    hnone y ((hsearching.found y).2 hy)
  subst hempty
  exact ⟨⟨[], hsearching.push hid⟩, h.complete, h.nodup, h.range, h.closed, h.order, h.loopless,
    fun f hfound => absurd hfound (hnone f), hroom⟩

lemma Passed.round {ids : List ℕ} (h : Passed ids ns) (hround : Round e ns ns' ok) : Passed ids ns' := by
  intro y hy hids
  cases hround with
  | @expand current rest q hstack hstate hq =>
    obtain ⟨above, hq1, -, -⟩ := pushEdges_above (e.connected current)
      (update ns.state current .found) (List.range e.count) (current :: rest)
    rw [hq, ← hstack] at hq1
    refine (h y hy hids).imp (update_found hstate y).2 fun hmem => ?_
    rw [hq1]
    exact mem_append_right _ hmem
  | @complete current rest hstack hstate =>
    dsimp only
    by_cases hyc : y = current
    · subst hyc
      exact .inl (update_self _ _ _)
    · rw [update_of_ne hyc]
      have hpassed := h y hy hids
      rw [hstack, mem_cons] at hpassed
      exact hpassed.imp_right (·.resolve_left hyc)
  | @pop current rest hstack hstate =>
    have hpassed := h y hy hids
    rw [hstack, mem_cons] at hpassed
    rcases hpassed with hcomplete | rfl | hmem
    · exact .inl hcomplete
    · exact .inl hstate
    · exact .inr hmem

/-- **The whole sort**: what holds at every moment, and what holds of the results when it has found no cycle. -/
lemma tsort_rule (hcount : e.count = ns.nodeCount) (hstack : ∀ x ∈ ns.stack, x < ns.nodeCount) :
    (∀ s ∈ ns.tsortStates e, Held ns.nodeCount (stackBound ns.nodeCount ns.stack.length) s) ∧
      ∀ r, ns.tsort e = some r → Held ns.nodeCount (stackBound ns.nodeCount ns.stack.length) r.1 ∧
        (r.2 = true → r.1.stack = [] ∧ (∀ y, y ∈ r.1.results ↔ y < ns.nodeCount) ∧ r.1.results.Nodup ∧
          r.1.results.Pairwise (fun x y => ¬e.Edge x y) ∧ ∀ x ∈ r.1.results, ¬e.Edge x x) := by
  set n := ns.nodeCount
  set bound := stackBound n ns.stack.length
  let I (ids : List ℕ) (a : NodeStates) : Prop :=
    a.nodeCount = n ∧ Sorting e bound a ∧ Passed ids a ∧ ∀ id ∈ ids, id < n
  let K (ids : List ℕ) (a : NodeStates) : Prop :=
    I ids a ∧ (∀ f, a.state f ≠ .found) ∧ a.stack.length ≤ ns.stack.length ∧ (a.stack = [] ∨ ids = List.range n)
  have hJ (ids : List ℕ) (a : NodeStates) (ha : I ids a) : Held n bound a := by
    have := ha.2.1.held
    rwa [ha.1] at this
  have hround (ids : List ℕ) (a b : NodeStates) (ok : Bool) (ha : I ids a) (hab : Round e a b ok) :
      (ok = true → I ids b) ∧ Held n bound b := by
    obtain ⟨han, hsorting, hpassed, hids⟩ := ha
    obtain ⟨hok, hheld⟩ := hsorting.round hab
    rw [han] at hheld
    exact ⟨fun h => ⟨hheld.count, hok h, hpassed.round hab, hids⟩, hheld⟩
  have hroot (id : ℕ) (ids : List ℕ) (a : NodeStates) (ha : K (id :: ids) a) :
      I ids (if a.state id = .unknown then { a with stack := id :: a.stack } else a) := by
    obtain ⟨⟨han, hsorting, hpassed, hids⟩, hnone, hleft, -⟩ := ha
    have hid : id < n := hids id mem_cons_self
    have hrest : ∀ j ∈ ids, j < n := fun j hj => hids j (mem_cons_of_mem _ hj)
    split_ifs with hunknown
    · have hle : unknownCount a.nodeCount a.state ≤ n := by
        rw [← han]
        exact countP_le_length.trans_eq length_range
      have hchoose := choose_le_choose 2 hle
      have hbound : bound = ns.stack.length + n.choose 2 + 1 := by
        change ns.stack.length + n.choose 2 + min 1 n = _
        rw [min_eq_left (by omega)]
      refine ⟨han, hsorting.push hnone (han ▸ hid) (by omega), fun y hy hyids => ?_, hrest⟩
      by_cases hyid : y = id
      · exact .inr (by simp [hyid])
      · exact (hpassed y hy (by simp [hyid, hyids])).imp_right (mem_cons_of_mem _)
    · refine ⟨han, hsorting, fun y hy hyids => ?_, hrest⟩
      by_cases hyid : y = id
      · subst hyid
        cases hstate : a.state y with
        | unknown => exact absurd hstate hunknown
        | found => exact absurd hstate (hnone y)
        | complete => exact .inl rfl
      · exact hpassed y hy (by simp [hyid, hyids])
  have hnext (ids : List ℕ) (a : NodeStates) (ha : I ids a) (hempty : a.stack = []) : K ids a := by
    obtain ⟨way, hsearching⟩ := ha.2.1.searching
    have hnone := (hsearching.of_empty hempty).found
    exact ⟨ha, fun f hf => by simpa using (hnone f).1 hf, by simp [hempty], .inl hempty⟩
  have hfirst : K (List.range n) ns.resetState := by
    refine ⟨⟨rfl, sorting_reset hcount hstack (le_add_right _ _), fun y hy hids => ?_,
      fun id hid => mem_range.1 hid⟩, fun f => by simp [resetState], le_refl _, .inr rfl⟩
    exact absurd (mem_range.2 hy) hids
  obtain ⟨hstates, hfinal⟩ := search_rule hJ hround hroot hnext (fun a ha => hJ [] a ha.1)
    (fun a => Held.reset) (n * (n + 2) + ns.stack.length + 1) hfirst
  refine ⟨hstates, fun r hr => ?_⟩
  obtain ⟨hheld, hok⟩ := hfinal r hr
  refine ⟨hheld, fun htrue => ?_⟩
  obtain ⟨⟨hcount', hsorting, hpassed, -⟩, -, -, hlast⟩ := hok htrue
  have hempty : r.1.stack = [] := by
    rcases hlast with hempty | hnil
    · exact hempty
    · -- there was no root
      have hn : n = 0 := by simpa using congrArg length hnil.symm
      exact eq_nil_iff_forall_not_mem.2 fun x hx => by
        have := hheld.stack x hx
        omega
  refine ⟨hempty, fun y => ⟨fun hy => hcount' ▸ hsorting.range y hy, fun hy => ?_⟩, hsorting.nodup,
    hsorting.order, hsorting.loopless⟩
  have hy' := hpassed y (hcount'.symm ▸ hy) not_mem_nil
  rw [hempty] at hy'
  exact (hsorting.complete y).1 (hy'.resolve_right not_mem_nil)

end Invariant

/-! ## The results -/

section Results

variable {e : EdgeMatrix} {ns : NodeStates}

lemma getSortedResults_eq (ns : NodeStates) (h : ns.results.length = ns.nodeCount) :
    ns.getSortedResults = ns.results.reverse := by
  rw [getSortedResults, resultsBuffer, h, Nat.sub_self, replicate_zero, append_nil, take_of_length_le (by simp [h])]

variable {l : List ℕ}

/-- In a list with a relation between what comes earlier and what comes later. -/
lemma idxOf_lt_of_pairwise {R : ℕ → ℕ → Prop} (h : l.Pairwise R) {x y : ℕ} (hx : x ∈ l)
    (hy : y ∈ l) (hne : x ≠ y) (hnot : ¬R y x) : l.idxOf x < l.idxOf y := by
  by_contra hle
  rcases (not_lt.1 hle).lt_or_eq with hlt | heq
  · have hR := pairwise_iff_getElem.1 h _ _ (idxOf_lt_length_iff.2 hy) (idxOf_lt_length_iff.2 hx) hlt
    rw [getElem_idxOf, getElem_idxOf] at hR
    exact hnot hR
  · rw [idxOf_inj hy] at heq
    exact hne heq.symm

/-- The results read backwards have the source of every edge before its target. -/
lemma reverse_sorted (hmem : ∀ y, y ∈ l ↔ y < e.count)
    (horder : l.Pairwise fun x y => ¬e.Edge x y) (hself : ∀ x ∈ l, ¬e.Edge x x)
    {x y : ℕ} (hedge : e.Edge x y) : l.reverse.idxOf x < l.reverse.idxOf y := by
  have hx : x ∈ l := (hmem x).2 hedge.1
  have hy : y ∈ l := (hmem y).2 hedge.2.1
  have hne : x ≠ y := fun hxy => hself x hx (hxy ▸ hedge)
  have hreverse : l.reverse.Pairwise fun x y => ¬e.Edge y x := pairwise_reverse.2 horder
  exact idxOf_lt_of_pairwise hreverse (mem_reverse.2 hx) (mem_reverse.2 hy) hne (not_not.2 hedge)

lemma acyclic_of_sorted (hsorted : ∀ x y, e.Edge x y → l.idxOf x < l.idxOf y) : ¬∃ x, Relation.TransGen e.Edge x x := by
  rintro ⟨x, hcycle⟩
  have hlt : Relation.TransGen (· < ·) (l.idxOf x) (l.idxOf x) := hcycle.lift _ hsorted
  rw [Relation.transGen_eq_self] at hlt
  exact lt_irrefl _ hlt

lemma stackBound_le {n left : ℕ} (h : left ≤ n * (n + 1) / 2 - 1) : stackBound n left ≤ n * n := by
  have hhalf : n.choose 2 * 2 = n * (n - 1) := by
    rw [Nat.choose_two_right, Nat.div_mul_cancel (Nat.even_mul_pred_self n).two_dvd]
  rw [stackBound]
  cases n with
  | zero => simpa using h
  | succ n =>
    have hsucc : (n + 1) * (n + 1 + 1) = (n + 1) * n + 2 * (n + 1) := by ring
    have hsquare : (n + 1) * (n + 1) = (n + 1) * n + (n + 1) := mul_succ _ _
    rw [Nat.add_sub_cancel] at hhalf
    rw [hsucc] at h
    rw [hsquare, min_eq_left (by omega)]
    omega

/-- **The sort of the mixes.**  Started with an empty stack it comes to its end without the stack exceeding its `n * n`
entries; it succeeds exactly if the graph has no cycle, and then its results are the nodes, each once, with the source of
every edge before its target. -/
theorem tsort_correct (hcount : e.count = ns.nodeCount) (hstack : ns.stack = []) :
    (∀ s ∈ ns.tsortStates e, s.stack.length ≤ ns.nodeCount * ns.nodeCount) ∧
      ∃ ns' ok, ns.tsort e = some (ns', ok) ∧ (ok = true ↔ ¬∃ x, Relation.TransGen e.Edge x x) ∧
        (ok = true → (∀ y, y ∈ ns'.getSortedResults ↔ y < ns.nodeCount) ∧ ns'.getSortedResults.Nodup ∧
          ∀ x y, e.Edge x y → ns'.getSortedResults.idxOf x < ns'.getSortedResults.idxOf y) := by
  have hrange : ∀ x ∈ ns.stack, x < ns.nodeCount := by simp [hstack]
  obtain ⟨hstates, hresult⟩ := tsort_rule hcount hrange
  rw [hstack, length_nil] at hstates hresult
  obtain ⟨⟨ns', ok⟩, hsort⟩ := Option.isSome_iff_exists.1 (tsort_isSome hcount hrange)
  obtain ⟨hheld, hok⟩ := hresult _ hsort
  have hsorted (htrue : ok = true) : (∀ y, y ∈ ns'.getSortedResults ↔ y < ns.nodeCount) ∧ ns'.getSortedResults.Nodup ∧
      ∀ x y, e.Edge x y → ns'.getSortedResults.idxOf x < ns'.getSortedResults.idxOf y := by
    obtain ⟨-, hmem, hnodup, horder, hself⟩ := hok htrue
    have hlength : ns'.results.length = ns'.nodeCount := by
      have hperm := (perm_ext_iff_of_nodup hnodup (nodup_range (n := ns.nodeCount))).2
        fun y => (hmem y).trans mem_range.symm
      rw [hperm.length_eq, length_range, hheld.count]
    rw [getSortedResults_eq ns' hlength]
    refine ⟨fun y => mem_reverse.trans (hmem y), nodup_reverse.2 hnodup, fun x y hedge => ?_⟩
    exact reverse_sorted (fun y => hcount ▸ hmem y) horder hself hedge
  refine ⟨fun s hs => (hstates s hs).length.trans (stackBound_le (zero_le _)), ns', ok, hsort, ⟨fun htrue => ?_,
    fun hacyclic => ?_⟩, hsorted⟩
  · exact acyclic_of_sorted (hsorted htrue).2.2
  · by_contra hfalse
    exact hacyclic ((tsort_false hcount hrange hsort).2.2 (by simpa using hfalse))

def fresh (n : ℕ) : NodeStates := ⟨n, fun _ => .unknown, [], []⟩

/-- Mix 2 sends to mix 1, and mix 1 to the final mix. -/
def chain : EdgeMatrix :=
  ((⟨3, fun _ => false⟩ : EdgeMatrix).setEdge 2 1 true).setEdge 1 0 true

theorem tsort_chain : (∀ s ∈ (fresh 3).tsortStates chain, s.stack.length ≤ 3 * 3) ∧
    ∃ ns', (fresh 3).tsort chain = some (ns', true) ∧ ns'.getSortedResults = [2, 1, 0] := by
  obtain ⟨hstates, ns', ok, hsort, -, -⟩ := @tsort_correct chain (fresh 3) rfl rfl
  have hresult : ((fresh 3).tsort chain).map (fun r => (r.2, r.1.getSortedResults)) = some (true, [2, 1, 0]) := by decide
  rw [hsort, Option.map_some, Option.some.injEq, Prod.mk.injEq] at hresult
  obtain ⟨rfl, hsorted⟩ := hresult
  exact ⟨hstates, ns', hsort, hsorted⟩

end Results

/-! ## One object, sorted again and again -/

/-- What is done with the graph and the object that sorts it. -/
inductive SortAction
  | connect (id destination : ℕ)
  | disconnect (id destination : ℕ)
  | removeEdges (id : ℕ)
  | tsort

def SortAction.edges (e : EdgeMatrix) : SortAction → EdgeMatrix
  | .connect id destination => e.setEdge id destination true
  | .disconnect id destination => e.setEdge id destination false
  | .removeEdges id => e.removeEdges id
  | .tsort => e

/-- A run, as the states that the object passes through; `none` if a sort does not come to its end. -/
def sortRun : List SortAction → NodeStates → EdgeMatrix → Option (List NodeStates)
  | [], ns, _ => some [ns]
  | .tsort :: actions, ns, e =>
      (ns.tsort e).bind fun (ns', _) =>
        (sortRun actions ns' e).map fun states => ns :: ns.tsortStates e ++ states
  | a :: actions, ns, e => sortRun actions ns (a.edges e)

/-- What failed sorts have left on the stack leaves room for another sort. -/
def HasRoom (ns : NodeStates) : Prop := ns.stack.length ≤ ns.nodeCount * (ns.nodeCount + 1) / 2 - 1

def SortsHaveRoom : List SortAction → NodeStates → EdgeMatrix → Prop
  | [], _, _ => True
  | .tsort :: actions, ns, e =>
      ns.HasRoom ∧ ∀ r, ns.tsort e = some r → SortsHaveRoom actions r.1 e
  | a :: actions, ns, e => SortsHaveRoom actions ns (a.edges e)

section Runs

variable {e : EdgeMatrix} {ns : NodeStates}

lemma count_removeEdges (e : EdgeMatrix) (id : ℕ) : (e.removeEdges id).count = e.count := by
  suffices h : ∀ (l : List ℕ) (e : EdgeMatrix),
      (l.foldl (fun e destination => e.setEdge id destination false) e).count = e.count from h _ e
  intro l
  induction l with
  | nil => exact fun _ => rfl
  | cons d l ih => exact fun e => ih (e.setEdge id d false)

lemma count_edges (e : EdgeMatrix) (a : SortAction) : (a.edges e).count = e.count := by
  cases a with
  | removeEdges id => exact count_removeEdges e id
  | _ => rfl

lemma sortRun_held (actions : List SortAction) (hcount : e.count = ns.nodeCount)
    (hstack : ∀ x ∈ ns.stack, x < ns.nodeCount) (hresults : ns.results.length ≤ ns.nodeCount) :
    ∃ states, sortRun actions ns e = some states ∧ (∀ s ∈ states, s.results.length ≤ ns.nodeCount) ∧
      (ns.stack.length ≤ ns.nodeCount * ns.nodeCount → SortsHaveRoom actions ns e →
        ∀ s ∈ states, s.stack.length ≤ ns.nodeCount * ns.nodeCount) := by
  induction actions generalizing ns e with
  | nil => exact ⟨[ns], rfl, by simpa using hresults, fun hlength _ => by simpa using hlength⟩
  | cons a actions ih =>
    cases a with
    | tsort =>
      obtain ⟨hstates, hresult⟩ := tsort_rule hcount hstack
      obtain ⟨r, hsort⟩ := Option.isSome_iff_exists.1 (tsort_isSome hcount hstack)
      obtain ⟨hheld, -⟩ := hresult r hsort
      obtain ⟨states, hrun, hrest, hbound⟩ := @ih e r.1 (hcount.trans hheld.count.symm)
        (fun x hx => hheld.count.symm ▸ hheld.stack x hx) (hheld.count.symm ▸ hheld.results)
      rw [hheld.count] at hrest hbound
      refine ⟨ns :: ns.tsortStates e ++ states, by simp [sortRun, hsort, hrun], fun s hs => ?_,
        fun hlength hroom s hs => ?_⟩
      · rcases mem_append.1 hs with hs | hs
        · rcases mem_cons.1 hs with rfl | hs
          · exact hresults
          · exact (hstates s hs).results
        · exact hrest s hs
      · have hsquare := stackBound_le hroom.1
        rcases mem_append.1 hs with hs | hs
        · rcases mem_cons.1 hs with rfl | hs
          · exact hlength
          · exact (hstates s hs).length.trans hsquare
        · exact hbound (hheld.length.trans hsquare) (hroom.2 r hsort) s hs
    | connect id destination => exact ih hcount hstack hresults
    | disconnect id destination => exact ih hcount hstack hresults
    | removeEdges id => exact ih ((count_edges e (.removeEdges id)).trans hcount) hstack hresults

/-- **Sorting again and again stays in the work buffer while there is room.**  The results always fit; the stack fits in
every state of a run each of whose sorts has room when it begins. -/
theorem sorts_in_buffer (n : ℕ) (actions : List SortAction) :
    ∃ states, sortRun actions (fresh n) ⟨n, fun _ => false⟩ = some states ∧ (∀ s ∈ states, s.results.length ≤ n) ∧
      (SortsHaveRoom actions (fresh n) ⟨n, fun _ => false⟩ → ∀ s ∈ states, s.stack.length ≤ n * n) := by
  obtain ⟨states, hrun, hresults, hbound⟩ :=
    @sortRun_held ⟨n, fun _ => false⟩ (fresh n) actions rfl (by simp [fresh]) (by simp [fresh])
  exact ⟨states, hrun, hresults, hbound (by simp [fresh])⟩

theorem sorts_in_buffer_cycle :
    ∃ states, sortRun [.connect 0 1, .connect 1 0, .tsort] (fresh 2) ⟨2, fun _ => false⟩ = some states ∧
      ∀ s ∈ states, s.stack.length ≤ 2 * 2 := by
  obtain ⟨states, hrun, -, hbound⟩ := sorts_in_buffer 2 [.connect 0 1, .connect 1 0, .tsort]
  refine ⟨states, hrun, hbound ⟨?_, fun _ _ => trivial⟩⟩
  simp [HasRoom, fresh]

/-- Two mixes that send to each other, sorted three times. -/
def cyclicSorts : List SortAction := [.connect 0 1, .connect 1 0, .tsort, .tsort, .tsort]

/-- **The stack grows with every sort that fails.** -/
theorem sorts_overflow : ¬∃ states, sortRun cyclicSorts (fresh 2) ⟨2, fun _ => false⟩ = some states ∧
    (∀ s ∈ states, s.stack.length ≤ 2 * 2) := by
  rintro ⟨states, hrun, hstates⟩
  have hlast : (sortRun cyclicSorts (fresh 2) ⟨2, fun _ => false⟩).map
      (fun states => states.any (4 < ·.stack.length)) = some true := by decide
  rw [hrun, Option.map_some, Option.some.injEq, any_eq_true] at hlast
  obtain ⟨s, hs, hlt⟩ := hlast
  have hle := hstates s hs
  simp only [decide_eq_true_eq] at hlt
  omega

end Runs

end NodeStates

end Voltemu.Audio
