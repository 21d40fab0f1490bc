import Voltemu.Audio.SplitterContext
import Voltemu.Lib.Linked

/-!
# The lists of the splitters

What a splitter's list should be is the last list that the guest gave for it.

* `Given` — the last given list of every splitter;
* `Given.Admits` — the lists can be recomposed one after the other: links of two lists do not meet;
* `Threaded` — the links of the pool follow the given lists, and there are no others;
* `Threaded.recomposeDestination` — one info; `lists_of_run` — every run.
-/

namespace Voltemu.Audio

open Linked Function List SplitterContext

def links (d : ℕ → SplitterDestinationData) : ℕ → Option ℕ := fun i => (d i).next

/-- The next entry of the list is the successor. -/
def Follows (next : ℕ → Option ℕ) (l : List ℕ) : Prop :=
  ∀ l₁ x y l₂, l = l₁ ++ x :: y :: l₂ → next x = some y

section Follows

variable {next next' : ℕ → Option ℕ} {l : List ℕ} {x : ℕ}

lemma mem_dropLast_of_eq {y : ℕ} {l₁ l₂ : List ℕ} (h : l = l₁ ++ x :: y :: l₂) : x ∈ l.dropLast := by
  subst h
  rw [dropLast_append_of_ne_nil (by simp), dropLast_cons_cons]
  simp

lemma Follows.congr (h : Follows next l) (hnext : ∀ x ∈ l.dropLast, next' x = next x) :
    Follows next' l := by
  intro l₁ x y l₂ hl
  rw [hnext x (mem_dropLast_of_eq hl)]
  exact h l₁ x y l₂ hl

lemma Follows.tail (h : Follows next (x :: l)) : Follows next l :=
  fun l₁ y z l₂ hl => h (x :: l₁) y z l₂ (by rw [hl]; rfl)

lemma Follows.chain (h : Follows next l) (hlast : ∀ x, l.getLast? = some x → next x = none) : Chain next l.head? l := by
  induction l with
  | nil => rfl
  | cons x l ih =>
    refine ⟨rfl, ?_⟩
    cases l with
    | nil => exact hlast x rfl
    | cons y l =>
      have hnext : next x = some y := h [] x y l rfl
      rw [hnext]
      exact ih h.tail fun z hz => hlast z (by rw [getLast?_cons_cons]; exact hz)

/-- A duplicate-free list does not have its last entry anywhere else. -/
lemma notMem_dropLast_of_getLast? (hl : l.Nodup) (hx : l.getLast? = some x) : x ∉ l.dropLast := by
  have happend : l.dropLast ++ [x] = l := dropLast_append_getLast? x hx
  rw [← happend] at hl
  exact fun hmem => (disjoint_of_nodup_append hl) hmem (mem_singleton_self x)

lemma mem_dropLast_or_getLast? (hx : x ∈ l) : x ∈ l.dropLast ∨ l.getLast? = some x := by
  cases hlast : l.getLast? with
  | none => simp [getLast?_eq_none_iff.1 hlast] at hx
  | some y =>
    rw [← dropLast_append_getLast? y hlast, mem_append] at hx
    exact hx.imp id fun hx => by rw [mem_singleton.1 hx]

end Follows

/-! ## The two loops -/

section Loops

variable {d : ℕ → SplitterDestinationData} {l ids : List ℕ}

lemma links_setNext (i : ℕ) (next : Option ℕ) : links (setNext d i next) = update (links d) i next := by
  funext j
  by_cases hj : j = i
  · subst hj
    simp [links, setNext]
  · simp [links, setNext, update_of_ne hj]

/-- **The first loop** clears the links of a chain. -/
lemma unlink_chain {fuel : ℕ} {head : Option ℕ} (h : Chain (links d) head l) (hl : l.Nodup) (hfuel : l.length ≤ fuel) :
    ∃ d', unlink fuel d head = some d' ∧ ∀ x, d' x = if x ∈ l then { d x with next := none } else d x := by
  induction l generalizing d fuel head with
  | nil =>
    obtain rfl : head = none := h
    exact ⟨d, by unfold unlink; rfl, by simp⟩
  | cons x l ih =>
    obtain ⟨rfl, hchain⟩ := h
    obtain ⟨hx, hl⟩ := nodup_cons.1 hl
    cases fuel with
    | zero => simp at hfuel
    | succ fuel =>
      have hchain' : Chain (links (setNext d x none)) (links d x) l := by
        refine hchain.congr fun y hy => ?_
        rw [links_setNext, update_of_ne (fun heq : y = x => hx (heq ▸ hy))]
      obtain ⟨d', hd', hspec⟩ := ih hchain' hl (by simpa using hfuel)
      refine ⟨d', hd', fun y => ?_⟩
      rw [hspec y]
      by_cases hyx : y = x
      · subst hyx
        simp [hx, setNext]
      · simp [hyx, setNext]

/-- The second loop touches no destination but those before the last of the list. -/
lemma link_of_notMem {current x : ℕ} (hx : x ∉ (current :: ids).dropLast) : link d current ids x = d x := by
  induction ids generalizing d current with
  | nil => rfl
  | cons i ids ih =>
    rw [dropLast_cons_cons, mem_cons, not_or] at hx
    rw [link, ih hx.2]
    simp [setNext, update_of_ne hx.1]

/-- **The second loop** links a list. -/
lemma link_spec {current : ℕ} (hl : (current :: ids).Nodup) :
    Follows (links (link d current ids)) (current :: ids) ∧
      ∀ x, ∃ next, link d current ids x = { d x with next := next } := by
  induction ids generalizing d current with
  | nil =>
    refine ⟨fun l₁ x y l₂ h => ?_, fun x => ⟨_, rfl⟩⟩
    exact absurd (mem_dropLast_of_eq h) (by simp)
  | cons i ids ih =>
    obtain ⟨hcurrent, hl⟩ := nodup_cons.1 hl
    have hnotMem : current ∉ (i :: ids).dropLast := fun h => hcurrent (dropLast_subset _ h)
    obtain ⟨hfollows, hfields⟩ := @ih (setNext d current (some i)) i hl
    refine ⟨fun l₁ x y l₂ h => ?_, fun x => ?_⟩
    · cases l₁ with
      | nil =>
        obtain ⟨rfl, hrest⟩ := cons.inj h
        obtain ⟨rfl, -⟩ := cons.inj hrest
        simp only [links, link]
        rw [link_of_notMem hnotMem]
        simp [setNext]
      | cons z l₁ => exact hfollows l₁ x y l₂ (cons.inj h).2
    · obtain ⟨next, hnext⟩ := hfields x
      rw [link, hnext]
      by_cases hx : x = current
      · subst hx
        exact ⟨next, by simp [setNext]⟩
      · exact ⟨next, by simp [setNext, update_of_ne hx]⟩

end Loops

/-! ## Given lists -/

/-- The last list that the guest gave for each splitter. -/
abbrev Given := ℕ → List ℕ

namespace Given

def none : Given := fun _ => []

def give (g : Given) (info : InfoParameter) : Given :=
  update g info.id.toNat info.destinationIds

/-- **The condition at an info**, on the lists so far: the new list has no duplicates; none of its destinations,
the last apart, is in the list of another splitter; the last destination of the old list is in no other list; and
an empty list replaces an empty one. -/
structure Admits (g : Given) (info : InfoParameter) : Prop where
  nodup : info.destinationIds.Nodup
  fresh : ∀ x ∈ info.destinationIds.dropLast, ∀ s, s ≠ info.id.toNat → x ∉ g s
  last : ∀ x, (g info.id.toNat).getLast? = some x → ∀ s, s ≠ info.id.toNat → x ∉ g s
  empty : info.destinationIds = [] → g info.id.toNat = []

def AdmitsAll (g : Given) : List InfoParameter → Prop
  | [] => True
  | info :: infos => g.Admits info ∧ (g.give info).AdmitsAll infos

lemma AdmitsAll.foldl_give {g : Given} {infos : List InfoParameter} (h : g.AdmitsAll infos)
    (hempty : ∀ info ∈ infos, info.destinationIds = []) : infos.foldl give g = g := by
  induction infos with
  | nil => rfl
  | cons info infos ih =>
    obtain ⟨hinfo, hrest⟩ := h
    have hids := hempty info mem_cons_self
    have hsame : g.give info = g := by
      rw [give, hids, ← hinfo.empty hids, update_eq_self]
    rw [hsame] at hrest
    rw [foldl_cons, hsame]
    exact ih hrest fun j hj => hempty j (mem_cons_of_mem _ hj)

/-- No destination is in two lists. -/
def Separate (g : Given) : Prop := ∀ s t, s ≠ t → ∀ x ∈ g s, x ∉ g t

end Given

/-- **The links of the pool follow the given lists**, and there are no others. -/
structure Threaded (c : SplitterContext) (g : Given) : Prop where
  bugFixed : c.splitterBugFixed = true
  head : ∀ s, (c.splitterInfos s).destinations = (g s).head?
  count : ∀ s, (c.splitterInfos s).destinationCount = (g s).length
  follows : ∀ s, Follows (links c.splitterDestinations) (g s)
  nodup : ∀ s, (g s).Nodup
  owner : ∀ x y, links c.splitterDestinations x = some y → ∃ s, x ∈ (g s).dropLast
  unique : ∀ s t, s ≠ t → ∀ x ∈ (g s).dropLast, x ∉ (g t).dropLast
  range : ∀ s, ∀ x ∈ g s, x < c.destinationsCount

/-- The info is for a splitter that exists and names destinations that exist. -/
structure InfoParameter.Valid (info : InfoParameter) (infoCount destinationsCount : ℕ) : Prop where
  magic : info.magic = splitterInfoMagic
  nonneg : 0 ≤ info.id
  lt : info.id.toNat < infoCount
  ids : ∀ x ∈ info.destinationIds, x < destinationsCount

namespace Threaded

variable {c : SplitterContext} {g : Given} {info : InfoParameter} {s : ℕ}

section

variable (h : Threaded c g)
include h

/-- A list whose last destination is in no other list is what a walk from its splitter visits. -/
lemma chain (hlast : ∀ x, (g s).getLast? = some x → ∀ t, t ≠ s → x ∉ g t) :
    Chain (links c.splitterDestinations) (c.splitterInfos s).destinations (g s) := by
  rw [h.head]
  refine (h.follows s).chain fun x hx => ?_
  by_contra hnext
  obtain ⟨y, hy⟩ := Option.ne_none_iff_exists'.1 hnext
  obtain ⟨t, ht⟩ := h.owner x y hy
  by_cases hts : t = s
  · subst hts
    exact notMem_dropLast_of_getLast? (h.nodup t) hx ht
  · exact hlast x hx t hts (dropLast_subset _ ht)

lemma length_le : (g s).length ≤ c.destinationsCount := by
  have hsub : g s ⊆ List.range c.destinationsCount := fun x hx => List.mem_range.2 (h.range s x hx)
  have hle := (List.subperm_of_subset (h.nodup s) hsub).length_le
  rwa [length_range] at hle

lemma exists_recomposeDestination (hadmits : g.Admits info) :
    ∃ d, c.recomposeDestination info.id.toNat info = some
        { c with
          splitterInfos := update c.splitterInfos info.id.toNat
            { c.splitterInfos info.id.toNat with
              destinations := info.destinationIds.head?
              destinationCount := info.destinationIds.length }
          splitterDestinations := d } ∧
      Follows (links d) info.destinationIds ∧
      (∀ x ∉ info.destinationIds.dropLast, links d x =
        if x ∈ g info.id.toNat then none else links c.splitterDestinations x) ∧
      ∀ x, ∃ next, d x = { c.splitterDestinations x with next := next } := by
  obtain ⟨d1, hunlink, hd1⟩ := unlink_chain (h.chain hadmits.last) (h.nodup _) (Nat.le_succ_of_le h.length_le)
  have hlinks (x : ℕ) : links d1 x =
      if x ∈ g info.id.toNat then none else links c.splitterDestinations x := by
    simp only [links, hd1 x]
    split_ifs <;> rfl
  have hfields (x : ℕ) : ∃ next, d1 x = { c.splitterDestinations x with next := next } := by
    rw [hd1 x]
    split_ifs
    · exact ⟨_, rfl⟩
    · exact ⟨_, rfl⟩
  unfold recomposeDestination
  rw [hunlink, h.bugFixed]
  cases hids : info.destinationIds with
  | nil =>
    refine ⟨d1, ?_, fun l₁ x y l₂ hl => by simp at hl, fun x _ => hlinks x, hfields⟩
    have hcount : (c.splitterInfos info.id.toNat).destinationCount = 0 := by
      rw [h.count, hadmits.empty hids]
      rfl
    simp [hcount]
  | cons i ids =>
    obtain ⟨hfollows, hnext⟩ := @link_spec d1 ids i (hids ▸ hadmits.nodup)
    refine ⟨link d1 i ids, rfl, hfollows, fun x hx => ?_, fun x => ?_⟩
    · simp only [links]
      rw [link_of_notMem hx]
      exact hlinks x
    · obtain ⟨next, hx⟩ := hnext x
      obtain ⟨next', hx'⟩ := hfields x
      exact ⟨next, by rw [hx, hx']⟩

lemma recomposeDestination (hadmits : g.Admits info) (hids : ∀ x ∈ info.destinationIds, x < c.destinationsCount) :
    ∃ c', c.recomposeDestination info.id.toNat info = some c' ∧ Threaded c' (g.give info) ∧
      c'.infoCount = c.infoCount ∧ c'.destinationsCount = c.destinationsCount := by
  obtain ⟨d, hd, hfollows, hsame, -⟩ := h.exists_recomposeDestination hadmits
  set A := info.id.toNat
  refine ⟨_, hd, ?_, rfl, rfl⟩
  have hother {t : ℕ} (ht : t ≠ A) : g.give info t = g t := update_of_ne ht _ _
  have hself : g.give info A = info.destinationIds := update_self _ _ _
  -- the links of another list stay
  have hkeep {t x : ℕ} (ht : t ≠ A) (hx : x ∈ (g t).dropLast) : links d x = links c.splitterDestinations x := by
    have hxt : x ∈ g t := dropLast_subset _ hx
    have hnotMem : x ∉ info.destinationIds.dropLast := fun hmem => hadmits.fresh x hmem t ht hxt
    rw [hsame x hnotMem, if_neg]
    intro hxA
    rcases mem_dropLast_or_getLast? hxA with hxA | hxA
    · exact h.unique A t ht.symm x hxA hx
    · exact hadmits.last x hxA t ht hxt
  refine ⟨h.bugFixed, fun t => ?_, fun t => ?_, fun t => ?_, fun t => ?_, fun x y hxy => ?_,
    fun t u htu x hx hxu => ?_, fun t x hx => ?_⟩
  · by_cases ht : t = A
    · subst ht
      rw [hself]
      simp
    · rw [hother ht]
      simpa [update_of_ne ht] using h.head t
  · by_cases ht : t = A
    · subst ht
      rw [hself]
      simp
    · rw [hother ht]
      simpa [update_of_ne ht] using h.count t
  · by_cases ht : t = A
    · subst ht
      rw [hself]
      exact hfollows
    · rw [hother ht]
      exact (h.follows t).congr fun x hx => hkeep ht hx
  · by_cases ht : t = A
    · subst ht
      rw [hself]
      exact hadmits.nodup
    · rw [hother ht]
      exact h.nodup t
  · by_cases hx : x ∈ info.destinationIds.dropLast
    · exact ⟨A, by rwa [hself]⟩
    · change links d x = some y at hxy
      rw [hsame x hx] at hxy
      split_ifs at hxy with hxA
      obtain ⟨t, ht⟩ := h.owner x y hxy
      have htA : t ≠ A := fun heq => hxA (heq ▸ dropLast_subset _ ht)
      exact ⟨t, by rwa [hother htA]⟩
  · by_cases ht : t = A
    · subst ht
      rw [hself] at hx
      rw [hother htu.symm] at hxu
      exact hadmits.fresh x hx u htu.symm (dropLast_subset _ hxu)
    · rw [hother ht] at hx
      by_cases hu : u = A
      · subst hu
        rw [hself] at hxu
        exact hadmits.fresh x hxu t ht (dropLast_subset _ hx)
      · rw [hother hu] at hxu
        exact h.unique t u htu x hx hxu
  · by_cases ht : t = A
    · subst ht
      rw [hself] at hx
      exact hids x hx
    · rw [hother ht] at hx
      exact h.range t x hx

lemma of_same {c' : SplitterContext} (hfixed : c'.splitterBugFixed = c.splitterBugFixed)
    (hdestinations : ∀ s, (c'.splitterInfos s).destinations = (c.splitterInfos s).destinations)
    (hcounts : ∀ s, (c'.splitterInfos s).destinationCount = (c.splitterInfos s).destinationCount)
    (hlinks : links c'.splitterDestinations = links c.splitterDestinations)
    (hcount : c'.destinationsCount = c.destinationsCount) : Threaded c' g where
  bugFixed := hfixed.trans h.bugFixed
  head s := (hdestinations s).trans (h.head s)
  count s := (hcounts s).trans (h.count s)
  follows s := hlinks ▸ h.follows s
  nodup := h.nodup
  owner x y hxy := h.owner x y (hlinks ▸ hxy)
  unique := h.unique
  range s x hx := hcount ▸ h.range s x hx

lemma updateSplitterInfo (s : ℕ) (info : InfoParameter) : Threaded (c.updateSplitterInfo s info).1 g := by
  refine h.of_same rfl (fun t => ?_) (fun t => ?_) rfl rfl
  · by_cases ht : t = s
    · subst ht
      simp [SplitterContext.updateSplitterInfo]
    · simp [SplitterContext.updateSplitterInfo, update_of_ne ht]
  · by_cases ht : t = s
    · subst ht
      simp [SplitterContext.updateSplitterInfo]
    · simp [SplitterContext.updateSplitterInfo, update_of_ne ht]

end

end Threaded

/-! ## Updates -/

def infosFrom (input : ℕ → BitVec 32) : ℕ → ℕ → List InfoParameter
  | 0, _ => []
  | count + 1, offset =>
      let info := InfoParameter.read input offset
      info :: infosFrom input count (offset + (7 + info.destinationIds.length))

def infos (input : ℕ → BitVec 32) : List InfoParameter := infosFrom input (input 1).toNat 8

structure ValidInput (infoCount destinationsCount : ℕ) (input : ℕ → BitVec 32) : Prop where
  magic : input 0 = splitterInParamHeaderMagic
  infos : ∀ info ∈ infos input, info.Valid infoCount destinationsCount

lemma updateData_same (input : ℕ → BitVec 32) (count : ℕ) (c : SplitterContext) (offset : ℕ) :
    (updateData input count c offset).1.splitterInfos = c.splitterInfos ∧
      links (updateData input count c offset).1.splitterDestinations = links c.splitterDestinations ∧
      (updateData input count c offset).1.infoCount = c.infoCount ∧
      (updateData input count c offset).1.destinationsCount = c.destinationsCount ∧
      (updateData input count c offset).1.splitterBugFixed = c.splitterBugFixed := by
  induction count generalizing c offset with
  | zero => exact ⟨rfl, rfl, rfl, rfl, rfl⟩
  | succ count ih =>
    unfold updateData
    generalize c.readData input offset = q
    obtain ⟨data, size⟩ := q
    dsimp only
    split_ifs
    · exact ih c offset
    · exact ih c offset
    · obtain ⟨hinfos, hlinks, hrest⟩ := ih
        { c with
          splitterDestinations := update c.splitterDestinations data.id.toNat
            (updateDestination (c.splitterDestinations data.id.toNat) data) }
        (offset + size)
      refine ⟨hinfos, hlinks.trans (funext fun x => ?_), hrest⟩
      by_cases hx : x = data.id.toNat
      · subst hx
        simp [links, updateDestination]
      · simp [links, update_of_ne hx]

namespace Threaded

variable {c : SplitterContext} {g : Given} {input : ℕ → BitVec 32}

variable {count offset : ℕ}

lemma updateInfo (h : Threaded c g)
    (hvalid : ∀ info ∈ infosFrom input count offset, info.Valid c.infoCount c.destinationsCount)
    (hadmits : g.AdmitsAll (infosFrom input count offset)) :
    ∃ c' offset', updateInfo input count c offset = some (c', offset') ∧
      Threaded c' ((infosFrom input count offset).foldl Given.give g) ∧
      c'.infoCount = c.infoCount ∧ c'.destinationsCount = c.destinationsCount := by
  induction count generalizing c g offset with
  | zero => exact ⟨c, offset, rfl, h, rfl, rfl⟩
  | succ count ih =>
    unfold infosFrom at hvalid hadmits ⊢
    unfold updateInfo
    dsimp only at hvalid hadmits ⊢
    generalize InfoParameter.read input offset = info at hvalid hadmits ⊢
    obtain ⟨hinfo, hrest⟩ := hadmits
    have hok := hvalid info mem_cons_self
    obtain ⟨c1, hc1, hthreaded, hcount, hdestinations⟩ := h.recomposeDestination hinfo hok.ids
    have hrange : ¬ (info.id < 0 ∨ (c.infoCount : ℤ) < info.id) := by
      have := hok.nonneg
      have := hok.lt
      omega
    rw [if_neg (not_not.2 hok.magic), if_neg hrange, hc1, Option.bind_some]
    obtain ⟨c2, offset2, hc2, hthreaded2, hcount2, hdestinations2⟩ :=
      ih (hthreaded.updateSplitterInfo info.id.toNat info) (fun j hj => by
        have := hvalid j (mem_cons_of_mem _ hj)
        rw [← hcount, ← hdestinations] at this
        exact this) hrest
    exact ⟨c2, offset2, hc2, hthreaded2, hcount2.trans hcount, hdestinations2.trans hdestinations⟩

lemma updateData (h : Threaded c g) : Threaded (updateData input count c offset).1 g := by
  obtain ⟨hinfos, hlinks, -, hcount, hfixed⟩ := updateData_same input count c offset
  exact h.of_same hfixed (fun s => by rw [hinfos]) (fun s => by rw [hinfos]) hlinks hcount

lemma update (h : Threaded c g) (hvalid : ValidInput c.infoCount c.destinationsCount input)
    (hadmits : g.AdmitsAll (infos input)) :
    ∃ c', c.update input = some (c', true) ∧ Threaded c' ((infos input).foldl Given.give g) ∧
      c'.infoCount = c.infoCount ∧ c'.destinationsCount = c.destinationsCount := by
  unfold SplitterContext.update
  by_cases hunused : c.destinationsCount = 0 ∨ c.infoCount = 0
  · rw [if_pos hunused]
    have hempty : ∀ info ∈ infos input, info.destinationIds = [] := by
      intro info hinfo
      have hok := hvalid.infos info hinfo
      refine eq_nil_iff_forall_not_mem.2 fun x hx => ?_
      have := hok.ids x hx
      have := hok.lt
      omega
    exact ⟨c, rfl, by rwa [hadmits.foldl_give hempty], rfl, rfl⟩
  · rw [if_neg hunused, if_neg (not_not.2 hvalid.magic)]
    have hcleared : Threaded c.clearNewConnectionFlags g :=
      h.of_same rfl (fun _ => rfl) (fun _ => rfl) rfl rfl
    obtain ⟨c1, offset, hc1, h1, hinfo, hdestinations⟩ := hcleared.updateInfo hvalid.infos hadmits
    obtain ⟨-, -, hinfo2, hdestinations2, -⟩ := updateData_same input (input 2).toNat c1 offset
    rw [hc1, Option.map_some]
    exact ⟨_, rfl, h1.updateData, hinfo2.trans hinfo, hdestinations2.trans hdestinations⟩

end Threaded

/-! ## Runs -/

/-- A run of updates; `none` if one of them does not come back. -/
def SplitterContext.run (c : SplitterContext) : List (ℕ → BitVec 32) → Option SplitterContext
  | [] => some c
  | input :: inputs => (c.update input).bind fun q => q.1.run inputs

def Given.run (g : Given) : List (ℕ → BitVec 32) → Given
  | [] => g
  | input :: inputs => ((infos input).foldl give g).run inputs

def Given.AdmitsRun (g : Given) : List (ℕ → BitVec 32) → Prop
  | [] => True
  | input :: inputs => g.AdmitsAll (infos input) ∧ ((infos input).foldl give g).AdmitsRun inputs

namespace Threaded

variable {c : SplitterContext} {g : Given}

lemma init {infoCount destinationsCount : ℕ} {biquad float : Bool} :
    Threaded (SplitterContext.init infoCount destinationsCount true biquad float) Given.none where
  bugFixed := rfl
  head _ := rfl
  count _ := rfl
  follows s l₁ x y l₂ h := by simp [Given.none] at h
  nodup _ := nodup_nil
  owner x y h := by simp [links, SplitterContext.init] at h
  unique s t _ x hx := by simp [Given.none] at hx
  range s x hx := by simp [Given.none] at hx

lemma run {inputs : List (ℕ → BitVec 32)} (h : Threaded c g)
    (hvalid : ∀ input ∈ inputs, ValidInput c.infoCount c.destinationsCount input)
    (hadmits : g.AdmitsRun inputs) : ∃ c', c.run inputs = some c' ∧ Threaded c' (g.run inputs) := by
  induction inputs generalizing c g with
  | nil => exact ⟨c, rfl, h⟩
  | cons input inputs ih =>
    obtain ⟨c1, hc1, h1, hinfo, hdestinations⟩ := h.update (hvalid input mem_cons_self) hadmits.1
    obtain ⟨c2, hc2, h2⟩ := ih h1 (fun input' hmem => by
      rw [hinfo, hdestinations]
      exact hvalid input' (mem_cons_of_mem _ hmem)) hadmits.2
    exact ⟨c2, by rw [SplitterContext.run, hc1]; exact hc2, h2⟩

end Threaded

lemma getData_of_chain {d : ℕ → SplitterDestinationData} {head : Option ℕ} {l : List ℕ}
    (h : Chain (links d) head l) (k : ℕ) : SplitterContext.getData d head k = l[k]? := by
  induction k with
  | zero => rw [SplitterContext.getData, h.head_eq, head?_eq_getElem?]
  | succ k ih =>
    rw [SplitterContext.getData, ih]
    cases hk : l[k]? with
    | none =>
      have hlen : l.length ≤ k := getElem?_eq_none_iff.1 hk
      rw [getElem?_eq_none (by omega)]
      rfl
    | some x =>
      obtain ⟨hlt, hx⟩ := List.getElem?_eq_some_iff.1 hk
      have hsplit : l = l.take k ++ x :: l.drop (k + 1) := by
        rw [← hx, cons_getElem_drop_succ, take_append_drop]
      have hnext : links d x = (l.drop (k + 1)).head? := by
        rw [hsplit] at h
        exact h.next_eq
      simpa [links, head?_drop] using hnext

/-- **The lists of the splitters are the lists last given for them**, after every run whose infos meet the
condition and that ends with separate lists: a walk visits the list, `GetData` finds its entries and the count is
its length. -/
theorem lists_of_run {infoCount destinationsCount : ℕ} {biquad float : Bool} (inputs : List (ℕ → BitVec 32))
    (hvalid : ∀ input ∈ inputs, ValidInput infoCount destinationsCount input)
    (hadmits : Given.none.AdmitsRun inputs) (hseparate : (Given.none.run inputs).Separate) :
    ∃ c, (SplitterContext.init infoCount destinationsCount true biquad float).run inputs = some c ∧
      ∀ s, Chain (links c.splitterDestinations) (c.splitterInfos s).destinations (Given.none.run inputs s) ∧
        (∀ k, SplitterContext.getData c.splitterDestinations (c.splitterInfos s).destinations k =
          (Given.none.run inputs s)[k]?) ∧
        (c.splitterInfos s).destinationCount = (Given.none.run inputs s).length := by
  have hinit : Threaded (SplitterContext.init infoCount destinationsCount true biquad float) Given.none :=
    Threaded.init
  obtain ⟨c, hc, h⟩ := hinit.run hvalid hadmits
  refine ⟨c, hc, fun s => ?_⟩
  have hchain := h.chain fun x hx t ht hxt =>
    hseparate t s ht x hxt (mem_of_getLast? hx)
  exact ⟨hchain, getData_of_chain hchain, h.count s⟩

/-! ## Three runs -/

def updateWords (lists : List (ℕ × List ℕ)) : ℕ → BitVec 32 :=
  let words := [splitterInParamHeaderMagic, BitVec.ofNat 32 lists.length, 0, 0, 0, 0, 0, 0] ++
    lists.flatMap fun (s, ids) =>
      [splitterInfoMagic, BitVec.ofNat 32 s, 48000, BitVec.ofNat 32 ids.length] ++ ids.map (BitVec.ofNat 32) ++ [0, 0, 0]
  fun i => words.getD i 0

def twoLists (a b : List ℕ) : Given
  | 0 => a
  | 1 => b
  | _ => []

section TwoLists

variable {a b l : List ℕ} {magic rate : BitVec 32}

lemma twoLists_give_zero : (twoLists a b).give ⟨magic, 0, rate, l⟩ = twoLists l b := by
  funext s
  match s with
  | 0 => rfl
  | 1 => rfl
  | s + 2 => rfl

lemma twoLists_give_one : (twoLists a b).give ⟨magic, 1, rate, l⟩ = twoLists a l := by
  funext s
  match s with
  | 0 => rfl
  | 1 => rfl
  | s + 2 => rfl

lemma twoLists_admits_zero (hl : l.Nodup) (hfresh : ∀ x ∈ l.dropLast, x ∉ b)
    (hlast : ∀ x ∈ a.getLast?, x ∉ b) (hempty : l = [] → a = []) :
    (twoLists a b).Admits ⟨magic, 0, rate, l⟩ := by
  refine ⟨hl, fun x hx s hs => ?_, fun x hx s hs => ?_, hempty⟩ <;> match s with
  | 0 => exact absurd rfl hs
  | 1 => first | exact hfresh x hx | exact hlast x hx
  | s + 2 => exact not_mem_nil

lemma twoLists_admits_one (hl : l.Nodup) (hfresh : ∀ x ∈ l.dropLast, x ∉ a)
    (hlast : ∀ x ∈ b.getLast?, x ∉ a) (hempty : l = [] → b = []) :
    (twoLists a b).Admits ⟨magic, 1, rate, l⟩ := by
  refine ⟨hl, fun x hx s hs => ?_, fun x hx s hs => ?_, hempty⟩ <;> match s with
  | 0 => first | exact hfresh x hx | exact hlast x hx
  | 1 => exact absurd rfl hs
  | s + 2 => exact not_mem_nil

lemma twoLists_separate (h : ∀ x ∈ a, x ∉ b) : (twoLists a b).Separate := by
  intro s t hst x hs ht
  match s, t with
  | 0, 0 | 1, 1 => exact hst rfl
  | 0, 1 => exact h x hs ht
  | 1, 0 => exact h x ht hs
  | s + 2, _ => simp [twoLists] at hs
  | _, t + 2 => simp [twoLists] at ht

end TwoLists

/-- A destination moves from the first splitter to the second, which comes later. -/
def moveOn : List (ℕ → BitVec 32) :=
  [updateWords [(0, [0, 1]), (1, [2])], updateWords [(0, [1]), (1, [0, 2])]]

theorem lists_of_run_move : ∃ c, (SplitterContext.init 2 4 true false false).run moveOn = some c ∧
    ∀ s, Chain (links c.splitterDestinations) (c.splitterInfos s).destinations (Given.none.run moveOn s) := by
  have hinfos₁ : infos (updateWords [(0, [0, 1]), (1, [2])]) =
      [⟨splitterInfoMagic, 0, 48000, [0, 1]⟩, ⟨splitterInfoMagic, 1, 48000, [2]⟩] := rfl
  have hinfos₂ : infos (updateWords [(0, [1]), (1, [0, 2])]) =
      [⟨splitterInfoMagic, 0, 48000, [1]⟩, ⟨splitterInfoMagic, 1, 48000, [0, 2]⟩] := rfl
  have hnone : Given.none = twoLists [] [] := funext fun s => by
    match s with
    | 0 | 1 | s + 2 => rfl
  have hvalid : ∀ input ∈ moveOn, ValidInput 2 4 input := by
    intro input hmem
    rcases mem_pair.1 hmem with rfl | rfl
    · refine ⟨rfl, fun info hinfo => ?_⟩
      rw [hinfos₁] at hinfo
      rcases mem_pair.1 hinfo with rfl | rfl <;> exact ⟨rfl, by decide, by decide, by decide⟩
    · refine ⟨rfl, fun info hinfo => ?_⟩
      rw [hinfos₂] at hinfo
      rcases mem_pair.1 hinfo with rfl | rfl <;> exact ⟨rfl, by decide, by decide, by decide⟩
  have hadmits : Given.none.AdmitsRun moveOn := by
    simp only [moveOn, Given.AdmitsRun, hinfos₁, hinfos₂, hnone, Given.AdmitsAll, foldl_cons,
      foldl_nil, twoLists_give_zero, twoLists_give_one, and_true]
    refine ⟨⟨?_, ?_⟩, ?_, ?_⟩
    · exact twoLists_admits_zero (by decide) (by decide) (by decide) (by decide)
    · exact twoLists_admits_one (by decide) (by decide) (by decide) (by decide)
    · exact twoLists_admits_zero (by decide) (by decide) (by decide) (by decide)
    · exact twoLists_admits_one (by decide) (by decide) (by decide) (by decide)
  have hseparate : (Given.none.run moveOn).Separate := by
    simp only [moveOn, Given.run, hinfos₁, hinfos₂, hnone, foldl_cons, foldl_nil, twoLists_give_zero, twoLists_give_one]
    exact twoLists_separate (by decide)
  obtain ⟨c, hc, h⟩ := lists_of_run moveOn hvalid hadmits hseparate
  exact ⟨c, hc, fun s => (h s).1⟩

def emptied : List (ℕ → BitVec 32) := [updateWords [(0, [0])], updateWords [(0, [])]]

/-- A destination moves from the second splitter to the first, which comes earlier. -/
def movedEarly : List (ℕ → BitVec 32) :=
  [updateWords [(1, [0, 1, 2])], updateWords [(0, [1, 3]), (1, [0, 2])]]

/-- **The count of an emptied list stays**, and a list that took over a destination loses what comes after it when
the old owner is recomposed. -/
theorem lists_fail :
    (∃ c, (SplitterContext.init 2 4 true false false).run emptied = some c ∧
      Given.none.run emptied 0 = [] ∧ (c.splitterInfos 0).destinationCount = 1) ∧
    ∃ c, (SplitterContext.init 2 4 true false false).run movedEarly = some c ∧
      (Given.none.run movedEarly).Separate ∧ Given.none.run movedEarly 0 = [1, 3] ∧
      Chain (links c.splitterDestinations) (c.splitterInfos 0).destinations [1] := by
  refine ⟨⟨_, rfl, rfl, rfl⟩, _, rfl, ?_, rfl, rfl, rfl⟩
  have hlists : Given.none.run movedEarly = twoLists [1, 3] [0, 2] := funext fun s => by
    match s with
    | 0 | 1 | s + 2 => rfl
  rw [hlists]
  exact twoLists_separate (by decide)

end Voltemu.Audio
