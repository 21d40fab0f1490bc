import Voltemu.Audio.SplitterLists

/-!
# The walks over the splitters

`UpdateInternalState` follows the links of the pool from every splitter, and the guest's lists decide where they lead:
a list may repeat a destination, or share some with other splitters.

* `Ending` — every walk over the pool ends.  Taking links out keeps this (`Ending.cut`).
* `Apart` — the new list is not on the way from its own last destination; then linking it keeps this (`Ending.link`).
* `walks_end` — in runs with such lists only, every update comes back and every walk ends.
-/

namespace Voltemu.Audio

open Linked Function SplitterContext

namespace SplitterContext

/-- `SplitterInfo::UpdateInternalState`: the destinations that it updates. -/
def updateInternalState (d : ℕ → SplitterDestinationData) : ℕ → Option ℕ → Option (List ℕ)
  | _, none => some []
  | 0, some _ => none
  | fuel + 1, some x => (updateInternalState d fuel (d x).next).map (x :: ·)

def WalkEnds (c : SplitterContext) (s : ℕ) : Prop :=
  ∃ fuel l, updateInternalState c.splitterDestinations fuel (c.splitterInfos s).destinations = some l

/-- The destinations that `RecomposeDestination` links. -/
def givenIds (c : SplitterContext) (info : InfoParameter) : List ℕ :=
  if c.splitterBugFixed then info.destinationIds
  else info.destinationIds.take (min info.destinationIds.length c.getDestCountPerInfoForCompat)

/-- The links without those of some destinations. -/
def cut (next : ℕ → Option ℕ) (old : List ℕ) : ℕ → Option ℕ := fun x => if x ∈ old then none else next x

/-- **The condition at an info**: without the links of the splitter's old list, the way from the last destination of
the new list leads to no destination before it. -/
def Apart (c : SplitterContext) (info : InfoParameter) : Prop :=
  ∀ old l last, Chain (links c.splitterDestinations) (c.splitterInfos info.id.toNat).destinations old →
    (c.givenIds info).getLast? = some last → Chain (cut (links c.splitterDestinations) old) (some last) l →
    ∀ x ∈ (c.givenIds info).dropLast, x ∉ l

/-- The infos of an update name destinations that exist, and the condition holds at each of them. -/
def InfosApart (input : ℕ → BitVec 32) : ℕ → SplitterContext → ℕ → Prop
  | 0, _, _ => True
  | count + 1, c, offset =>
      let info := InfoParameter.read input offset
      if info.magic ≠ splitterInfoMagic then InfosApart input count c offset
      else if info.id < 0 ∨ (c.infoCount : ℤ) < info.id then True
      else (∀ x ∈ info.destinationIds, x < c.destinationsCount) ∧ c.Apart info ∧
        ∀ c', c.recomposeDestination info.id.toNat info = some c' →
          InfosApart input count (c'.updateSplitterInfo info.id.toNat info).1 (offset + (7 + info.destinationIds.length))

def RunApart (c : SplitterContext) : List (ℕ → BitVec 32) → Prop
  | [] => True
  | input :: inputs =>
      (input 0 = splitterInParamHeaderMagic → InfosApart input (input 1).toNat c.clearNewConnectionFlags 8) ∧
        ∀ q, c.update input = some q → q.1.RunApart inputs

end SplitterContext

/-! ## Walks that end -/

/-- From every destination the links lead to an end. -/
def Ending (next : ℕ → Option ℕ) : Prop := ∀ x, ∃ l, Chain next (some x) l

section Ending

variable {next next' : ℕ → Option ℕ} {head : Option ℕ} {l old : List ℕ} {d : ℕ → SplitterDestinationData}

lemma Ending.exists_chain (h : Ending next) (head : Option ℕ) : ∃ l, Chain next head l := by
  cases head with
  | none => exact ⟨[], rfl⟩
  | some x => exact h x

/-- A walk that ends comes to no destination twice. -/
lemma chain_nodup (h : Chain next head l) : l.Nodup := by
  induction l generalizing head with
  | nil => exact List.nodup_nil
  | cons x l ih =>
    refine List.nodup_cons.2 ⟨fun hx => ?_, ih h.2⟩
    obtain ⟨l₁, l₂, rfl⟩ := List.append_of_mem hx
    have hself : Chain next (some x) (x :: (l₁ ++ x :: l₂)) := ⟨rfl, h.2⟩
    have := congrArg List.length (hself.unique h.2.from_cell)
    simp at this
    omega

lemma chain_lt {bound : ℕ} (h : Chain next head l) (hhead : ∀ x, head = some x → x < bound)
    (hnext : ∀ x y, next x = some y → y < bound) : ∀ x ∈ l, x < bound := by
  induction l generalizing head with
  | nil => simp
  | cons x l ih => exact List.forall_mem_cons.2 ⟨hhead x h.1, ih h.2 (hnext x)⟩

lemma Ending.cut (h : Ending next) (old : List ℕ) : Ending (SplitterContext.cut next old) := by
  intro x
  obtain ⟨l, hl⟩ := h x
  induction l generalizing x with
  | nil => cases hl
  | cons y l ih =>
    obtain rfl := Option.some.inj hl.1
    cases hnext : SplitterContext.cut next old x with
    | none => exact ⟨[x], rfl, hnext⟩
    | some y =>
      have hsame : next x = some y := by
        unfold SplitterContext.cut at hnext
        split_ifs at hnext
        exact hnext
      obtain ⟨l', hl'⟩ := ih y (hsame ▸ hl.2)
      exact ⟨x :: l', rfl, by rwa [hnext]⟩

variable {current : ℕ} {ids : List ℕ}

/-- From the destinations of a new list the links lead along the list, and on from its last one. -/
lemma link_ends {last : ℕ} (hlast : (current :: ids).getLast? = some last)
    (hl : Chain (links d) (some last) l) (hapart : ∀ x ∈ (current :: ids).dropLast, x ∉ l) :
    ∀ x ∈ current :: ids, ∃ l', Chain (links (SplitterContext.link d current ids)) (some x) l' := by
  induction ids generalizing d current with
  | nil =>
    intro x hx
    obtain rfl := List.mem_singleton.1 hx
    obtain rfl : x = last := Option.some.inj hlast
    exact ⟨l, hl⟩
  | cons i ids ih =>
    rw [List.dropLast_cons_cons, List.forall_mem_cons] at hapart
    have hchain : Chain (links (setNext d current (some i))) (some last) l := by
      refine hl.congr fun x hx => ?_
      rw [links_setNext, update_of_ne (fun heq : x = current => hapart.1 (heq ▸ hx))]
    have hrest := ih (by rwa [List.getLast?_cons_cons] at hlast) hchain hapart.2
    refine List.forall_mem_cons.2 ⟨?_, hrest⟩
    by_cases hmem : current ∈ i :: ids
    · exact hrest current hmem
    · obtain ⟨l', hl'⟩ := hrest i List.mem_cons_self
      refine ⟨current :: l', rfl, ?_⟩
      rw [SplitterContext.link, links, link_of_notMem fun h => hmem (List.dropLast_subset _ h)]
      simpa [setNext] using hl'

lemma Ending.link (h : Ending (links d)) (hapart : ∀ l last,
      (current :: ids).getLast? = some last → Chain (links d) (some last) l →
      ∀ x ∈ (current :: ids).dropLast, x ∉ l) : Ending (links (SplitterContext.link d current ids)) := by
  obtain ⟨last, hlast⟩ := Option.isSome_iff_exists.1 (List.getLast?_isSome.2 (List.cons_ne_nil current ids))
  obtain ⟨tail, htail⟩ := h last
  have hids := link_ends hlast htail (hapart tail last hlast htail)
  intro x
  obtain ⟨l, hl⟩ := h x
  induction l generalizing x with
  | nil => cases hl
  | cons y l ih =>
    obtain rfl := Option.some.inj hl.1
    by_cases hx : x ∈ current :: ids
    · exact hids x hx
    · have hsame : links (SplitterContext.link d current ids) x = links d x :=
        congrArg SplitterDestinationData.next (link_of_notMem fun h => hx (List.dropLast_subset _ h))
      cases hnext : links d x with
      | none => exact ⟨[x], rfl, hsame.trans hnext⟩
      | some y =>
        obtain ⟨l', hl'⟩ := ih y (hnext ▸ hl.2)
        exact ⟨x :: l', rfl, by rwa [hsame, hnext]⟩

lemma exists_updateInternalState : (∃ fuel l, updateInternalState d fuel head = some l) ↔
    ∃ l, Chain (links d) head l := by
  constructor
  · rintro ⟨fuel, l, h⟩
    refine ⟨l, ?_⟩
    induction fuel generalizing head l with
    | zero =>
      cases head with
      | none => exact Option.some.inj h ▸ rfl
      | some x => cases h
    | succ fuel ih =>
      cases head with
      | none => exact Option.some.inj h ▸ rfl
      | some x =>
        obtain ⟨l', hl', rfl⟩ := Option.map_eq_some_iff.1 h
        exact ⟨rfl, ih l' hl'⟩
  · rintro ⟨l, h⟩
    refine ⟨l.length, l, ?_⟩
    induction l generalizing head with
    | nil => rw [chain_nil.1 h]; rfl
    | cons x l ih =>
      rw [h.1, List.length_cons, updateInternalState, show (d x).next = links d x from rfl, ih h.2, Option.map_some]

end Ending

lemma link_some {current x y : ℕ} {ids : List ℕ} (h : links (SplitterContext.link d current ids) x = some y) :
    y ∈ ids ∨ links d x = some y := by
  induction ids generalizing d current with
  | nil => exact .inr h
  | cons i ids ih =>
    rcases ih h with hy | hy
    · exact .inl (List.mem_cons_of_mem _ hy)
    · rw [links_setNext, update_apply] at hy
      split_ifs at hy
      · exact .inl (List.mem_cons.2 (.inl (Option.some.inj hy).symm))
      · exact .inr hy

/-! ## Updates -/

/-- **The pool of a context**: every walk ends, and what is linked exists. -/
structure Walkable (c : SplitterContext) : Prop where
  ending : Ending (links c.splitterDestinations)
  range : ∀ x y, links c.splitterDestinations x = some y → y < c.destinationsCount
  heads : ∀ s x, (c.splitterInfos s).destinations = some x → x < c.destinationsCount

namespace Walkable

variable {c : SplitterContext} {info : InfoParameter}

lemma recomposeDestination_eq {d : ℕ → SplitterDestinationData}
    (hd : unlink (c.destinationsCount + 1) c.splitterDestinations (c.splitterInfos info.id.toNat).destinations = some d) :
    c.recomposeDestination info.id.toNat info = some (match c.givenIds info with
      | [] => { c with
          splitterInfos := update c.splitterInfos info.id.toNat
            { c.splitterInfos info.id.toNat with destinations := none }
          splitterDestinations := d }
      | head :: rest => { c with
          splitterInfos := update c.splitterInfos info.id.toNat
            { c.splitterInfos info.id.toNat with
              destinations := some head
              destinationCount := (c.givenIds info).length }
          splitterDestinations := SplitterContext.link d head rest }) := by
  rw [SplitterContext.recomposeDestination, hd]
  rfl

section

variable (h : Walkable c)
include h

lemma recomposeDestination (hids : ∀ x ∈ info.destinationIds, x < c.destinationsCount)
    (hapart : c.Apart info) : ∃ c', c.recomposeDestination info.id.toNat info = some c' ∧ Walkable c' := by
  obtain ⟨old, hold⟩ := h.ending.exists_chain (c.splitterInfos info.id.toNat).destinations
  have hlength : old.length ≤ c.destinationsCount := by
    have hlt := chain_lt hold (h.heads _) h.range
    have := (List.subperm_of_subset (chain_nodup hold) fun x hx => List.mem_range.2 (hlt x hx)).length_le
    rwa [List.length_range] at this
  obtain ⟨d, hd, hspec⟩ := unlink_chain hold (chain_nodup hold) (Nat.le_succ_of_le hlength)
  have hlinks : links d = SplitterContext.cut (links c.splitterDestinations) old := by
    funext x
    simp only [links, hspec x, SplitterContext.cut]
    split_ifs <;> rfl
  have hending : Ending (links d) := hlinks ▸ h.ending.cut old
  have hrange : ∀ x y, links d x = some y → y < c.destinationsCount := by
    intro x y hxy
    rw [hlinks, SplitterContext.cut] at hxy
    split_ifs at hxy
    exact h.range x y hxy
  have hsub : ∀ x ∈ c.givenIds info, x < c.destinationsCount := by
    intro x hx
    unfold givenIds at hx
    split_ifs at hx
    · exact hids x hx
    · exact hids x (List.mem_of_mem_take hx)
  have hheads : ∀ (new : SplitterInfo) s x, (∀ y, new.destinations = some y → y < c.destinationsCount) →
      (update c.splitterInfos info.id.toNat new s).destinations = some x → x < c.destinationsCount := by
    intro new s x hnew hx
    by_cases hs : s = info.id.toNat
    · rw [hs, update_self] at hx
      exact hnew x hx
    · rw [update_of_ne hs] at hx
      exact h.heads s x hx
  refine ⟨_, recomposeDestination_eq hd, ?_⟩
  cases hgiven : c.givenIds info with
  | nil => exact ⟨hending, hrange, fun s x => hheads _ s x (by simp)⟩
  | cons head rest =>
    rw [hgiven, List.forall_mem_cons] at hsub
    refine ⟨hending.link fun l last hlast hl => ?_, fun x y hxy => ?_, fun s x => hheads _ s x ?_⟩
    · rw [← hgiven] at hlast ⊢
      exact hapart old l last hold hlast (hlinks ▸ hl)
    · exact (link_some hxy).elim (hsub.2 y) (hrange x y)
    · rintro y ⟨⟩
      exact hsub.1

lemma updateSplitterInfo (s : ℕ) (info : InfoParameter) : Walkable (c.updateSplitterInfo s info).1 := by
  refine ⟨h.ending, h.range, fun t x hx => h.heads t x ?_⟩
  by_cases ht : t = s <;> simpa [SplitterContext.updateSplitterInfo, update_apply, ht] using hx

variable {input : ℕ → BitVec 32}

lemma updateInfo {count offset : ℕ} (hapart : c.InfosApart input count offset) :
    ∃ q, updateInfo input count c offset = some q ∧ Walkable q.1 := by
  induction count generalizing c offset with
  | zero => exact ⟨_, rfl, h⟩
  | succ count ih =>
    unfold SplitterContext.InfosApart at hapart
    unfold updateInfo
    dsimp only at hapart ⊢
    split_ifs at hapart ⊢
    · exact ih h hapart
    · exact ⟨_, rfl, h⟩
    · obtain ⟨hids, hone, hrest⟩ := hapart
      obtain ⟨c1, hc1, h1⟩ := h.recomposeDestination hids hone
      rw [hc1]
      exact ih (h1.updateSplitterInfo _ _) (hrest c1 hc1)

lemma update (hapart : input 0 = splitterInParamHeaderMagic →
      c.clearNewConnectionFlags.InfosApart input (input 1).toNat 8) :
    ∃ q, c.update input = some q ∧ Walkable q.1 := by
  unfold SplitterContext.update
  split_ifs with hunused hmagic
  · exact ⟨_, rfl, h⟩
  · exact ⟨_, rfl, h⟩
  · have hcleared : Walkable c.clearNewConnectionFlags := ⟨h.ending, h.range, h.heads⟩
    obtain ⟨q, hq, h1⟩ := hcleared.updateInfo (hapart (not_not.1 hmagic))
    rw [hq]
    refine ⟨_, rfl, ?_⟩
    obtain ⟨hinfos, hlinks, -, hcount, -⟩ := updateData_same input (input 2).toNat q.1 q.2
    exact ⟨hlinks ▸ h1.ending, fun x y hxy => hcount ▸ h1.range x y (hlinks ▸ hxy),
      fun s x hx => hcount ▸ h1.heads s x (hinfos ▸ hx)⟩

lemma walkEnds (s : ℕ) : c.WalkEnds s :=
  exists_updateInternalState.2 (h.ending.exists_chain _)

end

lemma init {infoCount destinationsCount : ℕ} {bugFixed biquad float : Bool} :
    Walkable (init infoCount destinationsCount bugFixed biquad float) :=
  ⟨fun x => ⟨[x], rfl, rfl⟩, nofun, nofun⟩

end Walkable

end Voltemu.Audio
