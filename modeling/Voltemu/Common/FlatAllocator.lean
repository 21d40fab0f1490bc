import Voltemu.Common.IntervalMap

/-!
# `FlatAllocator`: an address space as an allocator

`FlatAllocator` of `common/address_space.inc` keeps the allocated regions as the mapped blocks of a
`FlatAddressSpaceMap` of booleans.  `Allocate` tries the end of its last linear allocation first and
searches for a gap afterwards; zero is the answer if there is none.

* `allocate`, `allocateFixed`, `free` — the operations;
* `AllocInv` — the mapped addresses are those of the live regions, and a live region is one block;
* `AllocateMeets`, `FreeMeets` — the condition under which they keep their promise;
* `allocator_sound_of_run` — whole runs.
-/

namespace Voltemu.Common

open Voltemu.Lib AddressSpace List Nat

structure FlatAllocator where
  vaTypeBits : ℕ
  virtStart : ℕ
  vaLimit : ℕ
  vaLimit_lt : vaLimit < 2 ^ vaTypeBits

structure AllocatorState where
  blocks : List (Block 1 Unit)
  currentLinearAllocEnd : ℕ
deriving DecidableEq

namespace FlatAllocator

variable (F : FlatAllocator)

/-- The base class: the values are booleans, which have no offset. -/
def base : AddressSpace 1 where
  vaTypeBits := F.vaTypeBits
  unmappedPa := 0#1
  paContigSplit := false
  vaLimit := F.vaLimit
  vaLimit_lt := F.vaLimit_lt

def initialState : AllocatorState := ⟨initial F.base, F.virtStart⟩

/-- "Skip over fixed any mappings in front of us": the loop, from a predecessor and the blocks behind
it.  Zero if it gives no address. -/
def skipFixedMappings (size : ℕ) : Block 1 Unit → List (Block 1 Unit) → ℕ
  | _, [] => 0
  | predecessor, successor :: rest =>
      if successor.virt - predecessor.virt < size ∨ F.base.Mapped predecessor then predecessor.virt
      else if rest = [] then
        -- the final block ends at the VA limit
        let allocEnd := (successor.virt + size) % 2 ^ F.vaTypeBits
        if allocEnd ≥ successor.virt ∧ allocEnd ≤ F.vaLimit then successor.virt else 0
      else skipFixedMappings size successor rest

def searchGap (size : ℕ) : Block 1 Unit → List (Block 1 Unit) → Option ℕ
  | _, [] => none
  | predecessor, successor :: rest =>
      if successor.virt - predecessor.virt < size ∨ F.base.Mapped predecessor then
        searchGap size successor rest
      else some predecessor.virt

def allocateLinear (s : AllocatorState) (size : ℕ) : Except Fault ℕ :=
  let allocEnd := (s.currentLinearAllocEnd + size) % 2 ^ F.vaTypeBits
  if allocEnd ≥ s.currentLinearAllocEnd ∧ allocEnd ≤ F.vaLimit then
    let allocEndSuccessor := lowerBound Block.virt s.blocks allocEnd
    if allocEndSuccessor = 0 then .error .firstBlock
    else do
      let predecessor ← deref s.blocks (allocEndSuccessor - 1)
      if predecessor.virt ≤ s.currentLinearAllocEnd then .ok s.currentLinearAllocEnd
      else .ok (F.skipFixedMappings size predecessor (s.blocks.drop allocEndSuccessor))
  else .ok 0

def allocateInGap (s : AllocatorState) (size : ℕ) : Except Fault (ℕ × AllocatorState) :=
  if s.blocks.length ≤ 2 then .error .unexpectedAllocatorState
  else do
    let predecessor ← deref s.blocks 1
    match F.searchGap size predecessor (s.blocks.drop 2) with
    | none => .ok (0, s)
    | some allocStart =>
        let blocks ← mapLocked F.base s.blocks allocStart 1#1 size ()
        .ok (allocStart, ⟨blocks, s.currentLinearAllocEnd⟩)

def allocate (s : AllocatorState) (size : ℕ) : Except Fault (ℕ × AllocatorState) := do
  let allocStart ← F.allocateLinear s size
  if allocStart ≠ 0 then
    let blocks ← mapLocked F.base s.blocks allocStart 1#1 size ()
    .ok (allocStart, ⟨blocks, (allocStart + size) % 2 ^ F.vaTypeBits⟩)
  else F.allocateInGap s size

def allocateFixed (s : AllocatorState) (virt size : ℕ) : Except Fault AllocatorState := do
  let blocks ← mapLocked F.base s.blocks virt 1#1 size ()
  .ok ⟨blocks, s.currentLinearAllocEnd⟩

def free (s : AllocatorState) (virt size : ℕ) : Except Fault AllocatorState := do
  let blocks ← unmapLocked F.base s.blocks virt size
  .ok ⟨blocks, s.currentLinearAllocEnd⟩

/-! ## The invariant -/

def InRegion (r : ℕ × ℕ) (a : ℕ) : Prop := r.1 ≤ a ∧ a < r.1 + r.2

def DisjointRegions (r q : ℕ × ℕ) : Prop := r.1 + r.2 ≤ q.1 ∨ q.1 + q.2 ≤ r.1

instance : Std.Symm DisjointRegions := ⟨fun _ _ => Or.symm⟩

/-- The live regions are the mapped addresses, each of them as one block. -/
structure AllocInv (F : FlatAllocator) (s : AllocatorState) (live : List (ℕ × ℕ)) : Prop where
  wellFormed : F.base.WellFormed s.blocks
  inSpace : ∀ r ∈ live, F.virtStart ≤ r.1 ∧ 0 < r.2 ∧ r.1 + r.2 ≤ F.vaLimit
  disjoint : live.Pairwise DisjointRegions
  mapped : ∀ a, F.base.translate s.blocks a ≠ none ↔ ∃ r ∈ live, InRegion r a
  bounds : ∀ r ∈ live, HasStart s.blocks r.1 ∧ HasStart s.blocks (r.1 + r.2) ∧
    ∀ x, r.1 < x → x < r.1 + r.2 → ¬ HasStart s.blocks x
  cursor : F.virtStart ≤ s.currentLinearAllocEnd ∧ s.currentLinearAllocEnd ≤ F.vaLimit

/-- **The condition for `Free`**: no gap right below the region, or none but a gap right above. -/
def FreeMeets (s : AllocatorState) (virt size : ℕ) : Prop :=
  F.base.translate s.blocks (virt - 1) ≠ none ∨ F.base.translate s.blocks (virt + size) = none

/-- The condition for the gap search.  It looks at neither the first nor the last block, so a gap of
`size` bytes must not be in these alone. -/
def GapMeets (s : AllocatorState) (size : ℕ) : Prop :=
  2 < s.blocks.length ∧
    ((∃ l₁ x y l₂, s.blocks.tail = l₁ ++ x :: y :: l₂ ∧ F.base.Unmapped x ∧
        size ≤ y.virt - x.virt) ∨
      (∀ b ∈ s.blocks[1]?, b.virt < F.virtStart + size) ∧ ∀ b ∈ s.blocks.getLast?, F.vaLimit < b.virt + size)

/-- **The condition for `Allocate`.**  If the linear allocation fits, the last block below its end must
be unmapped, or be the last block and start behind the linear end; the gap search then decides. -/
def AllocateMeets (s : AllocatorState) (size : ℕ) : Prop :=
  (s.currentLinearAllocEnd + size ≤ F.vaLimit →
    ∀ e ∈ inForce Block.virt s.blocks (s.currentLinearAllocEnd + size - 1),
      if e.virt ≤ s.currentLinearAllocEnd then F.base.Unmapped e
      else s.blocks.getLast? = some e ∧ F.GapMeets s size) ∧
  (F.vaLimit < s.currentLinearAllocEnd + size → F.GapMeets s size)

variable {F} {s : AllocatorState} {live : List (ℕ × ℕ)} {a : ℕ}

lemma AllocInv.perm {live' : List (ℕ × ℕ)} (h : AllocInv F s live) (hp : live.Perm live') : AllocInv F s live' where
  wellFormed := h.wellFormed
  inSpace := fun r hr => h.inSpace r (hp.mem_iff.2 hr)
  disjoint := (hp.pairwise_iff fun hd => Or.symm hd).1 h.disjoint
  mapped := fun a => (h.mapped a).trans (exists_congr fun _ => and_congr_left fun _ => hp.mem_iff)
  bounds := fun r hr => h.bounds r (hp.mem_iff.2 hr)
  cursor := h.cursor

lemma mapped_ne_unmapped : 1#1 ≠ F.base.unmappedPa := by
  show 1#1 ≠ 0#1
  decide

lemma base_tailMapped (blocks : List (Block 1 Unit)) (hi : ℕ) : F.base.TailMapped blocks hi := by
  intro e _ hme _
  exact hme

lemma translate_ne_none_iff {b : Block 1 Unit} (h : inForce Block.virt s.blocks a = some b) :
    F.base.translate s.blocks a ≠ none ↔ F.base.Mapped b := by
  rw [AddressSpace.translate, h]
  show F.base.valueAt b a ≠ none ↔ _
  rw [AddressSpace.valueAt]
  split_ifs with hb
  · simpa using hb
  · simpa using hb

lemma hasStart_of_change (h : ¬ (F.base.translate s.blocks (a - 1) ≠ none ↔ F.base.translate s.blocks a ≠ none)) :
    HasStart s.blocks a := by
  by_contra hnot
  have hsame : inForce Block.virt s.blocks a = inForce Block.virt s.blocks (a - 1) :=
    inForce_eq_pred fun b hb hv => hnot ⟨b, hb, hv⟩
  refine h ?_
  cases hb : inForce Block.virt s.blocks a with
  | none => rw [AddressSpace.translate, AddressSpace.translate, hb, ← hsame, hb]; rfl
  | some b => rw [translate_ne_none_iff hb, translate_ne_none_iff (hsame.symm.trans hb)]

variable {q r : ℕ × ℕ}

lemma DisjointRegions.not_both (h : DisjointRegions r q) (hr : InRegion r a) (hq : InRegion q a) : False := by
  rcases h with h | h <;> simp only [InRegion] at hr hq <;> omega

lemma disjointRegions_iff (hr : 0 < r.2) (hq : 0 < q.2) : DisjointRegions r q ↔ ∀ a, InRegion r a → ¬ InRegion q a := by
  constructor
  · exact fun h a har haq => h.not_both har haq
  · intro h
    by_contra hnot
    simp only [DisjointRegions, not_or, not_le] at hnot
    refine h (max r.1 q.1) ?_ ?_ <;> simp only [InRegion] <;> omega

section

variable (h : AllocInv F s live) (hstart : 0 < F.virtStart)
include h hstart

/-- **A new region** over unmapped addresses. -/
lemma AllocInv.map {virt size n : ℕ} (hvirt : F.virtStart ≤ virt) (hsize : 0 < size) (hlimit : virt + size ≤ F.vaLimit)
    (hfree : ∀ a, InRegion (virt, size) a → F.base.translate s.blocks a = none)
    (hn : F.virtStart ≤ n ∧ n ≤ F.vaLimit) :
    ∃ blocks, mapLocked F.base s.blocks virt 1#1 size () = .ok blocks ∧
      AllocInv F ⟨blocks, n⟩ ((virt, size) :: live) := by
  obtain ⟨blocks, hcall, hwf, htranslate, houtside, hfirst, hend, hinside⟩ :=
    mapLocked_spec h.wellFormed (hstart.trans_le hvirt) hsize hlimit mapped_ne_unmapped (base_tailMapped _ _) ()
  have hdisjoint : ∀ q ∈ live, DisjointRegions (virt, size) q := by
    intro q hq
    rw [disjointRegions_iff hsize (h.inSpace q hq).2.1]
    intro a ha haq
    exact (h.mapped a).2 ⟨q, hq, haq⟩ (hfree a ha)
  refine ⟨blocks, hcall, hwf, ?_, pairwise_cons.2 ⟨hdisjoint, h.disjoint⟩, ?_, ?_, hn⟩
  · intro r hr
    rcases mem_cons.1 hr with rfl | hr
    · exact ⟨hvirt, hsize, hlimit⟩
    · exact h.inSpace r hr
  · intro a
    rw [htranslate a]
    by_cases ha : InRegion (virt, size) a
    · rw [if_pos (show virt ≤ a ∧ a < virt + size from ha)]
      simp [ha]
    · rw [if_neg (show ¬ (virt ≤ a ∧ a < virt + size) from ha), h.mapped a]
      simp [ha]
  · intro r hr
    rcases mem_cons.1 hr with rfl | hr
    · exact ⟨hfirst, hend, hinside⟩
    · -- the starts of the other regions stay, or are starts of the new one
      obtain ⟨hs, he, hi⟩ := h.bounds r hr
      have hd := hdisjoint r hr
      simp only [DisjointRegions] at hd
      have hkeep : ∀ x, x ≤ virt ∨ virt + size ≤ x → HasStart s.blocks x → HasStart blocks x := by
        intro x hx hold
        rcases eq_or_ne x virt with rfl | hne
        · exact hfirst
        · rcases eq_or_ne x (virt + size) with rfl | hne'
          · exact hend
          · exact (houtside x (by omega)).2 hold
      refine ⟨hkeep _ (by omega) hs, hkeep _ (by omega) he, ?_⟩
      intro x hx hx'
      rw [houtside x (by omega)]
      exact hi x hx hx'

lemma AllocInv.exists_cut {virt size : ℕ} (hr : (virt, size) ∈ live) :
    ∃ L p b R, s.blocks = L ++ p :: ([b] ++ R) ∧ Cut virt (virt + size) L p [b] R ∧ b.virt = virt ∧ F.base.Mapped b := by
  obtain ⟨hvirt, hsize, hlimit⟩ := h.inSpace _ hr
  obtain ⟨⟨b, hb, hbv⟩, -, hinside⟩ := h.bounds _ hr
  obtain ⟨L, p, M, R, hblocks, hc⟩ := h.wellFormed.exists_cut (show 0 < virt from hstart.trans_le hvirt)
    (show virt ≤ virt + size from Nat.le_add_right ..)
  have hall : ∀ x ∈ M, x.virt = virt := by
    intro x hx
    by_contra hne
    have hx' := hc.inside x hx
    exact hinside x.virt (by simp only; omega) hx'.2 ⟨x, by simp [hblocks, hx], rfl⟩
  have hsorted := h.wellFormed.sorted
  have hmem : b ∈ M := by
    have hfilter := hc.filter_inside
    rw [← hblocks] at hfilter
    rw [← hfilter, mem_filter]
    refine ⟨hb, ?_⟩
    simp only at hbv
    simp [hbv, hsize]
  have hM : M = [b] := by
    rw [hblocks] at hsorted
    have hMsorted := (pairwise_append.1 (pairwise_cons.1 (pairwise_append.1 hsorted).2.1).2).1
    match M, hmem, hall, hMsorted with
    | [x], hmem, _, _ => rw [mem_singleton.1 hmem]
    | x :: y :: M, _, hall, hMsorted =>
      have hlt := (pairwise_cons.1 hMsorted).1 y mem_cons_self
      have hx := hall x (by simp)
      have hy := hall y (by simp)
      omega
  subst hM
  refine ⟨L, p, b, R, hblocks, hc, hbv, ?_⟩
  have hin := inForce_of_mem h.wellFormed.sorted hb
  rw [← translate_ne_none_iff hin, h.mapped]
  refine ⟨_, hr, ?_⟩
  simp only [InRegion] at hbv ⊢
  omega

lemma AllocInv.unmapMeets {virt size : ℕ} (hr : (virt, size) ∈ live) (hmeets : F.FreeMeets s virt size) :
    F.base.UnmapMeets s.blocks virt (virt + size) := by
  obtain ⟨-, hsize, -⟩ := h.inSpace _ hr
  obtain ⟨-, ⟨c, hc, hcv⟩, -⟩ := h.bounds _ hr
  obtain ⟨L, p, b, R, hblocks, hcut, hbv, hmb⟩ := h.exists_cut hstart hr
  have hlt : virt < virt + size := Nat.lt_add_of_pos_right hsize
  intro q hq e he
  have hlast := hcut.inForce_last hlt (show [p, b].getLast? = some b from rfl)
  rw [← hblocks] at hlast
  obtain rfl : b = e := Option.some.inj (hlast.symm.trans he)
  have hfilter := hcut.filter_inside
  rw [← hblocks] at hfilter
  rw [hfilter]
  refine ⟨fun _ => ⟨fun hbad => by omega, fun hbad => by simp at hbad⟩, fun huq _ => .inl ?_⟩
  refine ⟨c, hc, hcv, ?_⟩
  -- below the region lies a gap, so there is one above
  have hgap : F.base.translate s.blocks (virt - 1) = none := by
    by_contra hne
    exact (translate_ne_none_iff hq).1 hne huq
  have habove := hmeets.resolve_left (not_not.2 hgap)
  by_contra hmc
  simp only at hcv
  have hin : inForce Block.virt s.blocks (virt + size) = some c := by
    rw [← hcv]
    exact inForce_of_mem h.wellFormed.sorted hc
  exact (translate_ne_none_iff hin).2 hmc habove

lemma AllocInv.free {virt size : ℕ} (hr : (virt, size) ∈ live) (hmeets : F.FreeMeets s virt size) :
    ∃ blocks, unmapLocked F.base s.blocks virt size = .ok blocks ∧
      (∀ a, F.base.translate blocks a =
        if virt ≤ a ∧ a < virt + size then none else F.base.translate s.blocks a) ∧
      AllocInv F ⟨blocks, s.currentLinearAllocEnd⟩ (live.erase (virt, size)) := by
  obtain ⟨hvirt, hsize, hlimit⟩ := h.inSpace _ hr
  simp only at hvirt hsize hlimit
  obtain ⟨blocks, hcall, hwf, htranslate, houtside⟩ := unmapLocked_spec h.wellFormed
    (hstart.trans_le hvirt) hsize hlimit (base_tailMapped _ _) (h.unmapMeets hstart hr hmeets)
  have hnodup : live.Nodup := by
    refine h.disjoint.imp_of_mem fun {r q} hr _ hd heq => ?_
    subst heq
    have := (h.inSpace r hr).2.1
    simp only [DisjointRegions] at hd
    omega
  have hother : ∀ q ∈ live.erase (virt, size), q ∈ live ∧ DisjointRegions (virt, size) q := by
    intro q hq
    obtain ⟨hne, hq⟩ := (hnodup.mem_erase_iff).1 hq
    refine ⟨hq, ?_⟩
    exact h.disjoint.forall hr hq hne.symm
  have hmapped : ∀ a, F.base.translate blocks a ≠ none ↔ ∃ r ∈ live.erase (virt, size), InRegion r a := by
    intro a
    rw [htranslate a]
    by_cases ha : virt ≤ a ∧ a < virt + size
    · rw [if_pos ha]
      simp only [ne_eq, not_true_eq_false, false_iff, not_exists, not_and]
      exact fun q hq haq => (hother q hq).2.not_both ha haq
    · rw [if_neg ha, h.mapped a]
      constructor
      · rintro ⟨q, hq, haq⟩
        refine ⟨q, (hnodup.mem_erase_iff).2 ⟨?_, hq⟩, haq⟩
        rintro rfl
        exact ha haq
      · rintro ⟨q, hq, haq⟩
        exact ⟨q, (hother q hq).1, haq⟩
  refine ⟨blocks, hcall, htranslate, hwf, fun q hq => h.inSpace q (hother q hq).1,
    h.disjoint.sublist erase_sublist, hmapped, ?_, h.cursor⟩
  intro q hq
  obtain ⟨hlive, hd⟩ := hother q hq
  obtain ⟨hs, he, hi⟩ := h.bounds q hlive
  have hpos := (h.inSpace q hlive).2.1
  have hnone : ∀ a, virt ≤ a → a < virt + size → F.base.translate blocks a = none := fun a h1 h2 => by
    rw [htranslate a, if_pos ⟨h1, h2⟩]
  have hsome : ∀ a, InRegion q a → F.base.translate blocks a ≠ none := fun a ha =>
    (hmapped a).2 ⟨q, hq, ha⟩
  simp only [DisjointRegions] at hd
  refine ⟨?_, ?_, ?_⟩
  · by_cases hx : q.1 = virt + size
    · refine hasStart_of_change (F := F) (s := ⟨blocks, s.currentLinearAllocEnd⟩) ?_
      have hbelow := hnone (q.1 - 1) (by omega) (by omega)
      have hat := hsome q.1 (by simp only [InRegion]; omega)
      simp [hbelow, hat]
    · exact (houtside _ (by omega)).2 hs
  · by_cases hx : q.1 + q.2 = virt
    · refine hasStart_of_change (F := F) (s := ⟨blocks, s.currentLinearAllocEnd⟩) ?_
      have hbelow := hsome (q.1 + q.2 - 1) (by simp only [InRegion]; omega)
      have hat := hnone (q.1 + q.2) (by omega) (by omega)
      simp [hbelow, hat]
    · exact (houtside _ (by omega)).2 he
  · intro x hx hx'
    show ¬ HasStart blocks x
    rw [houtside x (by omega)]
    exact hi x hx hx'

end

/-! ## `Allocate` -/

def Gap (s : AllocatorState) (g size : ℕ) : Prop :=
  F.virtStart ≤ g ∧ g + size ≤ F.vaLimit ∧ ∀ a, InRegion (g, size) a → F.base.translate s.blocks a = none

lemma searchGap_some {size v : ℕ} {p : Block 1 Unit} {l : List (Block 1 Unit)} (h : F.searchGap size p l = some v) :
    ∃ l₁ x y l₂, p :: l = l₁ ++ x :: y :: l₂ ∧ x.virt = v ∧ F.base.Unmapped x ∧ size ≤ y.virt - x.virt := by
  induction l generalizing p with
  | nil => simp [searchGap] at h
  | cons c l ih =>
    rw [searchGap] at h
    split_ifs at h with hc
    · obtain ⟨l₁, x, y, l₂, hl, hx⟩ := ih h
      exact ⟨p :: l₁, x, y, l₂, by rw [hl]; rfl, hx⟩
    · rw [not_or, not_lt, not_mapped] at hc
      exact ⟨[], p, c, l, rfl, Option.some.inj h, hc.2, hc.1⟩

variable {l₁ l₂ : List (Block 1 Unit)} {x y : Block 1 Unit} {size : ℕ}

lemma searchGap_none {p x y : Block 1 Unit} {l l₁ l₂ : List (Block 1 Unit)}
    (h : F.searchGap size p l = none) (hl : p :: l = l₁ ++ x :: y :: l₂)
    (hx : F.base.Unmapped x) : y.virt - x.virt < size := by
  induction l generalizing p l₁ with
  | nil =>
    have := congrArg length hl
    simp at this
    omega
  | cons c l ih =>
    rw [searchGap] at h
    split_ifs at h with hc
    cases l₁ with
    | nil =>
      obtain ⟨rfl, rfl, -⟩ := hl
      exact hc.resolve_right (not_not.2 hx)
    | cons z l₁ => exact ih h (cons.inj hl).2

section

variable (h : AllocInv F s live) (hl : s.blocks = l₁ ++ x :: y :: l₂)
include h hl

lemma AllocInv.inForce_between (hx : x.virt ≤ a) (hy : a < y.virt) : inForce Block.virt s.blocks a = some x := by
  have hsorted := h.wellFormed.sorted
  rw [hl] at hsorted ⊢
  have hcons := pairwise_cons.1 (pairwise_append.1 hsorted).2.1
  refine inForce_cons_of_lt hx fun b hb => ?_
  rcases mem_cons.1 hb with rfl | hb
  · exact hy
  · exact hy.trans ((pairwise_cons.1 hcons.2).1 b hb)

lemma AllocInv.lt_of_neighbours : x.virt < y.virt := by
  have hsorted := h.wellFormed.sorted
  rw [hl] at hsorted
  exact (pairwise_cons.1 (pairwise_append.1 hsorted).2.1).1 y mem_cons_self

lemma AllocInv.mapped_of_unmapped : F.base.Mapped x ∨ F.base.Mapped y := by
  have hmerged := h.wellFormed.merged
  rw [hl] at hmerged
  exact (isChain_cons_cons.1 (isChain_append.1 hmerged).2.1).1

end

/-- **A gap that the search finds** lies inside the space. -/
lemma AllocInv.gap_of_found (h : AllocInv F s live) (hl : s.blocks.tail = l₁ ++ x :: y :: l₂) (hx : F.base.Unmapped x)
    (hsize : size ≤ y.virt - x.virt) : F.Gap s x.virt size := by
  obtain ⟨b, hb, hzero⟩ := h.wellFormed.first
  have hblocks : s.blocks = (b :: l₁) ++ x :: y :: l₂ := by
    rw [cons_append, ← hl]
    exact (cons_head?_tail hb).symm
  have hlt := h.lt_of_neighbours hblocks
  refine ⟨?_, ?_, ?_⟩
  · -- the block before is mapped
    obtain ⟨l', z, hz⟩ : ∃ l' z, b :: l₁ = l' ++ [z] := ⟨_, _, (dropLast_append_getLast (by simp : b :: l₁ ≠ [])).symm⟩
    have hsplit : s.blocks = l' ++ z :: x :: y :: l₂ := by
      rw [hblocks, hz]
      simp
    have hzx := h.lt_of_neighbours hsplit
    have hmz := (h.mapped_of_unmapped hsplit).resolve_right (not_not.2 hx)
    have hin := h.inForce_between hsplit (le_sub_one_of_lt hzx) (sub_one_lt_of_lt hzx)
    obtain ⟨r, hr, hreg⟩ := (h.mapped _).1 ((translate_ne_none_iff hin).2 hmz)
    have := (h.inSpace r hr).1
    simp only [InRegion] at hreg
    omega
  · have hmy := (h.mapped_of_unmapped hblocks).resolve_left (not_not.2 hx)
    have hin := inForce_of_mem h.wellFormed.sorted (show y ∈ s.blocks by simp [hblocks])
    obtain ⟨r, hr, hreg⟩ := (h.mapped _).1 ((translate_ne_none_iff hin).2 hmy)
    have := (h.inSpace r hr).2.2
    simp only [InRegion] at hreg
    omega
  · intro a ha
    simp only [InRegion] at ha
    have hin := h.inForce_between hblocks ha.1 (by omega)
    by_contra hne
    exact (translate_ne_none_iff hin).1 hne hx

/-- **Where the search ends without a gap there is none**, if the first and the last block are too
small. -/
lemma AllocInv.no_gap (h : AllocInv F s live) (hsize : 0 < size)
    (hsearch : ∀ l₁ x y l₂, s.blocks.tail = l₁ ++ x :: y :: l₂ → F.base.Unmapped x → y.virt - x.virt < size)
    (hfirst : ∀ b ∈ s.blocks[1]?, b.virt < F.virtStart + size)
    (hlast : ∀ b ∈ s.blocks.getLast?, F.vaLimit < b.virt + size) (g : ℕ) :
    ¬ F.Gap s g size := by
  rintro ⟨hstart, hlimit, hfree⟩
  have hnone := hfree g (by simp only [InRegion]; omega)
  obtain ⟨b, hb, hzero⟩ := h.wellFormed.first
  obtain ⟨L, x, M, R, hblocks, hc⟩ := h.wellFormed.exists_cut (show 0 < g + 1 by omega)
    (show g + 1 ≤ g + 1 from le_refl _)
  have hM : M = [] := eq_nil_iff_forall_not_mem.2 fun y hy => by
    have := hc.inside y hy
    omega
  subst hM
  rw [nil_append] at hblocks
  have hxg : x.virt ≤ g := Nat.lt_succ_iff.1 hc.pred
  have hin : inForce Block.virt s.blocks g = some x := by
    rw [hblocks]
    exact inForce_cons_of_lt hxg fun y hy => hc.above y hy
  have hux : F.base.Unmapped x := by
    by_contra hmx
    exact (translate_ne_none_iff hin).2 hmx hnone
  cases R with
  | nil =>
    have := hlast x (by simp [hblocks])
    omega
  | cons y R =>
    have hmy := (h.mapped_of_unmapped hblocks).resolve_left (not_not.2 hux)
    have hgy := hc.above y mem_cons_self
    -- the next block is mapped, so it starts behind the gap
    have hend : g + size ≤ y.virt := by
      by_contra hlt
      have hiny := inForce_of_mem h.wellFormed.sorted (show y ∈ s.blocks by simp [hblocks])
      exact (translate_ne_none_iff hiny).2 hmy (hfree y.virt (by simp only [InRegion]; omega))
    cases L with
    | nil =>
      have := hfirst y (by simp [hblocks])
      omega
    | cons z L =>
      have := hsearch L x y R (by rw [hblocks]; rfl) hux
      omega

/-- The test for the end of the linear allocation, without the overflow. -/
lemma linear_fits_iff {cur size : ℕ} (hcur : cur ≤ F.vaLimit) (hsize : size < 2 ^ F.vaTypeBits) :
    ((cur + size) % 2 ^ F.vaTypeBits ≥ cur ∧ (cur + size) % 2 ^ F.vaTypeBits ≤ F.vaLimit) ↔ cur + size ≤ F.vaLimit := by
  have hlimit := F.vaLimit_lt
  by_cases hlt : cur + size < 2 ^ F.vaTypeBits
  · rw [mod_eq_of_lt hlt]
    omega
  · have hmod : (cur + size) % 2 ^ F.vaTypeBits = cur + size - 2 ^ F.vaTypeBits := by
      rw [mod_eq_sub_mod (not_lt.1 hlt), mod_eq_of_lt (by omega)]
    omega

/-- **The linear part of `Allocate`**: its end is free, or the gap search has to decide. -/
lemma AllocInv.allocateLinear (h : AllocInv F s live)
    (hsize : 0 < size) (hbits : size < 2 ^ F.vaTypeBits) (hmeets : F.AllocateMeets s size) :
    (F.allocateLinear s size = .ok s.currentLinearAllocEnd ∧
      F.Gap s s.currentLinearAllocEnd size) ∨
    (F.allocateLinear s size = .ok 0 ∧ F.GapMeets s size) := by
  rw [FlatAllocator.allocateLinear]
  simp only [linear_fits_iff h.cursor.2 hbits]
  by_cases hfits : s.currentLinearAllocEnd + size ≤ F.vaLimit
  · rw [if_pos hfits, mod_eq_of_lt (hfits.trans_lt F.vaLimit_lt)]
    obtain ⟨L, e, M, R, hblocks, hc⟩ := h.wellFormed.exists_cut (show 0 < s.currentLinearAllocEnd + size by omega)
      (show s.currentLinearAllocEnd + size ≤ s.currentLinearAllocEnd + size from le_refl _)
    have hM : M = [] := eq_nil_iff_forall_not_mem.2 fun y hy => by
      have := hc.inside y hy
      omega
    subst hM
    have hbound := hc.lowerBound_eq (le_refl _)
    rw [← hblocks, length_nil, add_zero] at hbound
    have hderef : deref s.blocks L.length = .ok e := by
      rw [hblocks]
      exact deref_at rfl
    have hdrop : s.blocks.drop (L.length + 1) = R := by
      have hlist : s.blocks = (L ++ [e]) ++ R := by
        rw [hblocks]
        simp
      rw [hlist, drop_left' (by simp)]
    have hin : inForce Block.virt s.blocks (s.currentLinearAllocEnd + size - 1) = some e := by
      rw [hblocks]
      refine inForce_cons_of_lt (le_sub_one_of_lt hc.pred) fun y hy => ?_
      have := hc.above y hy
      omega
    have hcond := hmeets.1 hfits e hin
    rw [hbound, if_neg (by omega), Nat.add_sub_cancel, hderef, hdrop]
    split_ifs at hcond with hle
    · refine .inl ⟨?_, h.cursor.1, hfits, fun a ha => ?_⟩
      · show (if e.virt ≤ s.currentLinearAllocEnd then _ else _) = _
        rw [if_pos hle]
      · simp only [InRegion] at ha
        have hina := inForce_of_le hin (hle.trans ha.1) (by omega)
        by_contra hne
        exact (translate_ne_none_iff hina).1 hne hcond
    · refine .inr ⟨?_, hcond.2⟩
      have hR : R = [] := by
        cases R with
        | nil => rfl
        | cons y R =>
          -- the last block cannot be `e`
          have hlast := hcond.1
          have hsorted := h.wellFormed.sorted
          rw [hblocks, nil_append] at hlast hsorted
          have hy : e ∈ y :: R := by
            refine mem_of_getLast? (l := y :: R) ?_
            rw [← hlast, getLast?_append_of_ne_nil _ (by simp), getLast?_cons_cons]
          have hlt := (pairwise_cons.1 (pairwise_append.1 hsorted).2.1).1 e hy
          omega
      show (if e.virt ≤ s.currentLinearAllocEnd then _ else _) = _
      rw [if_neg hle, hR, skipFixedMappings]
  · rw [if_neg hfits]
    exact .inr ⟨rfl, hmeets.2 (not_le.1 hfits)⟩

lemma AllocInv.allocateInGap (h : AllocInv F s live) (hstart : 0 < F.virtStart)
    (hsize : 0 < size) (hmeets : F.GapMeets s size) :
    ∃ r s', F.allocateInGap s size = .ok (r, s') ∧
      (r ≠ 0 ∧ F.Gap s r size ∧ AllocInv F s' ((r, size) :: live) ∨ r = 0 ∧ s' = s ∧ ∀ g, ¬ F.Gap s g size) := by
  obtain ⟨hlength, hfound⟩ := hmeets
  obtain ⟨c, l, htail⟩ : ∃ c l, s.blocks.tail = c :: l := by
    cases htail : s.blocks.tail with
    | nil =>
      have := congrArg length htail
      simp at this
      omega
    | cons c l => exact ⟨c, l, rfl⟩
  have hderef : deref s.blocks 1 = .ok c := by
    have hget : s.blocks[1]? = some c := by rw [← getElem?_tail, htail]; rfl
    rw [deref, hget]
  have hdrop : s.blocks.drop 2 = l := by
    have := congrArg (drop 1) htail
    rwa [drop_tail] at this
  simp only [FlatAllocator.allocateInGap, if_neg (not_le.2 hlength), hderef, hdrop, bind, Except.bind]
  cases hsearch : F.searchGap size c l with
  | none =>
    refine ⟨0, s, rfl, .inr ⟨rfl, rfl, ?_⟩⟩
    have hsmall : ∀ l₁ x y l₂, s.blocks.tail = l₁ ++ x :: y :: l₂ → F.base.Unmapped x →
        y.virt - x.virt < size := fun l₁ x y l₂ hl => searchGap_none hsearch (htail ▸ hl)
    rcases hfound with ⟨l₁, x, y, l₂, hl, hx, hlong⟩ | ⟨hfirst, hlast⟩
    · have := hsmall l₁ x y l₂ hl hx
      omega
    · exact h.no_gap hsize hsmall hfirst hlast
  | some v =>
    obtain ⟨l₁, x, y, l₂, hl, rfl, hx, hlong⟩ := searchGap_some hsearch
    have hgap := h.gap_of_found (htail.trans hl) hx hlong
    obtain ⟨hvirt, hlimit, hfree⟩ := id hgap
    obtain ⟨blocks, hcall, hinv⟩ := h.map hstart hvirt hsize hlimit hfree h.cursor
    refine ⟨x.virt, ⟨blocks, s.currentLinearAllocEnd⟩, ?_, .inl ⟨(hstart.trans_le hvirt).ne', hgap, hinv⟩⟩
    simp only [hcall]

/-- **`Allocate`** gives a gap, or zero if there is none. -/
lemma AllocInv.allocate (h : AllocInv F s live) (hstart : 0 < F.virtStart)
    (hsize : 0 < size) (hbits : size < 2 ^ F.vaTypeBits) (hmeets : F.AllocateMeets s size) :
    ∃ r s', F.allocate s size = .ok (r, s') ∧
      (r ≠ 0 ∧ F.Gap s r size ∧ AllocInv F s' ((r, size) :: live) ∨ r = 0 ∧ s' = s ∧ ∀ g, ¬ F.Gap s g size) := by
  simp only [FlatAllocator.allocate]
  rcases h.allocateLinear hsize hbits hmeets with ⟨hlinear, hgap⟩ | ⟨hlinear, hmeets⟩
  · obtain ⟨hvirt, hlimit, hfree⟩ := id hgap
    have hne : s.currentLinearAllocEnd ≠ 0 := (hstart.trans_le hvirt).ne'
    have hmod : (s.currentLinearAllocEnd + size) % 2 ^ F.vaTypeBits =
        s.currentLinearAllocEnd + size := mod_eq_of_lt (hlimit.trans_lt F.vaLimit_lt)
    obtain ⟨blocks, hcall, hinv⟩ := h.map hstart hvirt hsize hlimit hfree
      (n := s.currentLinearAllocEnd + size) ⟨by omega, hlimit⟩
    refine ⟨s.currentLinearAllocEnd, ⟨blocks, s.currentLinearAllocEnd + size⟩, ?_, .inl ⟨hne, hgap, hinv⟩⟩
    simp only [hlinear, bind, Except.bind, if_pos hne, hcall, hmod]
  · simp only [hlinear, bind, Except.bind, ne_eq, not_true_eq_false, if_false]
    exact h.allocateInGap hstart hsize hmeets

/-! ## Runs -/

/-- Runs in which every `Allocate` and `Free` meets its condition, with the live regions.  The values of
`VaType` have `vaTypeBits` bits. -/
inductive Run (F : FlatAllocator) : AllocatorState → List (ℕ × ℕ) → Prop
  | start : Run F F.initialState []
  | allocate {s s' : AllocatorState} {live : List (ℕ × ℕ)} {size r : ℕ} (run : Run F s live)
      (hsize : 0 < size) (hbits : size < 2 ^ F.vaTypeBits) (meets : F.AllocateMeets s size)
      (exec : F.allocate s size = .ok (r, s')) :
      Run F s' (if r = 0 then live else (r, size) :: live)
  | allocateFixed {s s' : AllocatorState} {live : List (ℕ × ℕ)} {virt size : ℕ} (run : Run F s live)
      (hsize : 0 < size) (hvirt : F.virtStart ≤ virt) (hlimit : virt + size ≤ F.vaLimit)
      (hdisjoint : ∀ r ∈ live, DisjointRegions (virt, size) r)
      (exec : F.allocateFixed s virt size = .ok s') : Run F s' ((virt, size) :: live)
  | free {s s' : AllocatorState} {live : List (ℕ × ℕ)} {virt size : ℕ} (run : Run F s live)
      (hlive : (virt, size) ∈ live) (meets : F.FreeMeets s virt size)
      (exec : F.free s virt size = .ok s') : Run F s' (live.erase (virt, size))

lemma AllocInv.allocateFixed (h : AllocInv F s live) (hstart : 0 < F.virtStart) {virt size : ℕ}
    (hsize : 0 < size) (hvirt : F.virtStart ≤ virt) (hlimit : virt + size ≤ F.vaLimit)
    (hdisjoint : ∀ r ∈ live, DisjointRegions (virt, size) r) :
    ∃ s', F.allocateFixed s virt size = .ok s' ∧ AllocInv F s' ((virt, size) :: live) := by
  have hfree : ∀ a, InRegion (virt, size) a → F.base.translate s.blocks a = none := by
    intro a ha
    by_contra hne
    obtain ⟨r, hr, har⟩ := (h.mapped a).1 hne
    exact (hdisjoint r hr).not_both ha har
  obtain ⟨blocks, hcall, hinv⟩ := h.map hstart hvirt hsize hlimit hfree h.cursor
  refine ⟨_, ?_, hinv⟩
  simp only [FlatAllocator.allocateFixed, hcall, bind, Except.bind]

lemma allocInv_start (hle : F.virtStart ≤ F.vaLimit) : AllocInv F F.initialState [] := by
  refine ⟨wellFormed_initial, by simp, by simp, ?_, by simp, le_rfl, hle⟩
  intro a
  simp [initialState, translate_initial]

lemma Run.inv (hstart : 0 < F.virtStart) (hle : F.virtStart ≤ F.vaLimit) (hrun : Run F s live) :
    AllocInv F s live := by
  induction hrun with
  | start => exact allocInv_start hle
  | allocate _ hsize hbits hmeets hexec ih =>
    obtain ⟨r, s', hexec', hcases⟩ := ih.allocate hstart hsize hbits hmeets
    obtain ⟨rfl, rfl⟩ := Prod.mk.inj (Except.ok.inj (hexec'.symm.trans hexec))
    rcases hcases with ⟨hne, -, hinv⟩ | ⟨hzero, rfl, -⟩
    · rw [if_neg hne]
      exact hinv
    · rw [if_pos hzero]
      exact ih
  | allocateFixed _ hsize hvirt hlimit hdisjoint hexec ih =>
    obtain ⟨s', hexec', hinv⟩ := ih.allocateFixed hstart hsize hvirt hlimit hdisjoint
    exact Except.ok.inj (hexec'.symm.trans hexec) ▸ hinv
  | free _ hlive hmeets hexec ih =>
    obtain ⟨blocks, hcall, -, hinv⟩ := ih.free hstart hlive hmeets
    simp only [FlatAllocator.free, hcall, bind, Except.bind] at hexec
    exact Except.ok.inj hexec ▸ hinv

/-- **The allocator.**  After every run whose steps meet the condition, an `Allocate` that meets it gives
a region inside the space that is disjoint from the live ones, or zero if there is no gap; a `Free` that
meets it unmaps its region; and every operation completes. -/
theorem allocator_sound_of_run (F : FlatAllocator) (hstart : 0 < F.virtStart)
    (hle : F.virtStart ≤ F.vaLimit) {s : AllocatorState} {live : List (ℕ × ℕ)}
    (hrun : Run F s live) :
    (∀ size, 0 < size → size < 2 ^ F.vaTypeBits → F.AllocateMeets s size →
      ∃ r s', F.allocate s size = .ok (r, s') ∧
        (r ≠ 0 → F.virtStart ≤ r ∧ r + size ≤ F.vaLimit ∧ ∀ q ∈ live, DisjointRegions (r, size) q) ∧
        (r = 0 → ∀ g, ¬ F.Gap s g size)) ∧
    (∀ virt size, 0 < size → F.virtStart ≤ virt → virt + size ≤ F.vaLimit → (∀ r ∈ live, DisjointRegions (virt, size) r) →
      ∃ s', F.allocateFixed s virt size = .ok s') ∧
    ∀ virt size, (virt, size) ∈ live → F.FreeMeets s virt size →
      ∃ s', F.free s virt size = .ok s' ∧
        ∀ a, F.base.translate s'.blocks a =
          if virt ≤ a ∧ a < virt + size then none else F.base.translate s.blocks a := by
  have hinv := hrun.inv hstart hle
  refine ⟨?_, ?_, ?_⟩
  · intro size hsize hbits hmeets
    obtain ⟨r, s', hexec, hcases⟩ := hinv.allocate hstart hsize hbits hmeets
    refine ⟨r, s', hexec, ?_, ?_⟩
    · intro hne
      rcases hcases with ⟨-, hgap, hinv'⟩ | ⟨hzero, -⟩
      · exact ⟨hgap.1, hgap.2.1, (pairwise_cons.1 hinv'.disjoint).1⟩
      · exact absurd hzero hne
    · intro hzero
      rcases hcases with ⟨hne, -⟩ | ⟨-, -, hnone⟩
      · exact absurd hzero hne
      · exact hnone
  · intro virt size hsize hvirt hlimit hdisjoint
    obtain ⟨s', hexec, -⟩ := hinv.allocateFixed hstart hsize hvirt hlimit hdisjoint
    exact ⟨s', hexec⟩
  · intro virt size hlive hmeets
    obtain ⟨blocks, hcall, htranslate, -⟩ := hinv.free hstart hlive hmeets
    refine ⟨⟨blocks, s.currentLinearAllocEnd⟩, ?_, htranslate⟩
    simp only [FlatAllocator.free, hcall, bind, Except.bind]

/-- Fifteen pages, from the second one on. -/
def small : FlatAllocator where
  vaTypeBits := 32
  virtStart := 0x1000
  vaLimit := 0x10000
  vaLimit_lt := by decide

/-- A fixed region in front of the cursor, which the linear allocation reaches. -/
theorem allocator_sound_of_run_fixed :
    ∃ s s' r, Run small s [(0x8000, 0x1000)] ∧ small.allocate s 0x2000 = .ok (r, s') ∧
      DisjointRegions (r, 0x2000) (0x8000, 0x1000) := by
  have hrun : Run small ⟨[⟨0, 0, ()⟩, ⟨0x8000, 1, ()⟩, ⟨0x9000, 0, ()⟩], 0x1000⟩ [(0x8000, 0x1000)] :=
    .allocateFixed .start (by decide) (by decide) (by decide) (by simp) rfl
  obtain ⟨r, s', hexec, hregion, -⟩ :=
    (allocator_sound_of_run small (by decide) (by decide) hrun).1 0x2000 (by decide) (by decide) (by
      constructor
      · intro _ e he
        obtain rfl : (⟨0, 0, ()⟩ : Block 1 Unit) = e := by simpa [inForce] using he
        exact rfl
      · intro hbad
        exact absurd hbad (by decide))
  refine ⟨_, s', r, hrun, hexec, ?_⟩
  have hvalue : small.allocate ⟨[⟨0, 0, ()⟩, ⟨0x8000, 1, ()⟩, ⟨0x9000, 0, ()⟩], 0x1000⟩ 0x2000 =
      .ok (0x1000, ⟨[⟨0, 0, ()⟩, ⟨0x1000, 1, ()⟩, ⟨0x3000, 0, ()⟩, ⟨0x8000, 1, ()⟩, ⟨0x9000, 0, ()⟩], 0x3000⟩) := rfl
  have hr : r = 0x1000 := (Prod.mk.inj (Except.ok.inj (hexec.symm.trans hvalue))).1
  exact (hregion (by omega)).2.2 _ (by simp)

/-- A fixed region at the cursor is given out again; a region that is freed between a gap and another
region stays mapped; and the gap behind the last region is not found. -/
theorem allocator_fails :
    (∃ s s', small.allocateFixed small.initialState 0x1000 0x4000 = .ok s ∧ small.allocate s 0x1000 = .ok (0x1000, s') ∧
      ¬ DisjointRegions (0x1000, 0x1000) (0x1000, 0x4000)) ∧
    (∃ s s' s'', small.allocate small.initialState 0x1000 = .ok (0x1000, s) ∧
      small.allocate s 0x1000 = .ok (0x2000, s') ∧ small.free s' 0x1000 0x1000 = .ok s'' ∧
      small.base.translate s''.blocks 0x1000 ≠ none) ∧
    ∃ s s' s'', small.allocate small.initialState 0x1000 = .ok (0x1000, s) ∧
      small.allocate s 0xE000 = .ok (0x2000, s') ∧ small.free s' 0x2000 0xE000 = .ok s'' ∧
      small.allocate s'' 0x2000 = .ok (0, s'') ∧ small.Gap s'' 0x2000 0x2000 := by
  refine ⟨⟨⟨[⟨0, 0, ()⟩, ⟨0x1000, 1, ()⟩, ⟨0x5000, 0, ()⟩], 0x1000⟩,
      ⟨[⟨0, 0, ()⟩, ⟨0x1000, 1, ()⟩, ⟨0x2000, 1, ()⟩, ⟨0x5000, 0, ()⟩], 0x2000⟩,
      by decide +kernel, by decide +kernel, by simp [DisjointRegions]⟩,
    ⟨⟨[⟨0, 0, ()⟩, ⟨0x1000, 1, ()⟩, ⟨0x2000, 0, ()⟩], 0x2000⟩,
      ⟨[⟨0, 0, ()⟩, ⟨0x1000, 1, ()⟩, ⟨0x2000, 1, ()⟩, ⟨0x3000, 0, ()⟩], 0x3000⟩,
      ⟨[⟨0, 0, ()⟩, ⟨0x1000, 1, ()⟩, ⟨0x2000, 1, ()⟩, ⟨0x3000, 0, ()⟩], 0x3000⟩,
      by decide +kernel, by decide +kernel, by decide +kernel, by decide⟩,
    ⟨[⟨0, 0, ()⟩, ⟨0x1000, 1, ()⟩, ⟨0x2000, 0, ()⟩], 0x2000⟩,
    ⟨[⟨0, 0, ()⟩, ⟨0x1000, 1, ()⟩, ⟨0x2000, 1, ()⟩, ⟨0x10000, 0, ()⟩], 0x10000⟩,
    ⟨[⟨0, 0, ()⟩, ⟨0x1000, 1, ()⟩, ⟨0x2000, 0, ()⟩], 0x10000⟩,
    by decide +kernel, by decide +kernel, by decide +kernel, by decide +kernel, ?_⟩
  refine ⟨by decide, by decide, fun a ha => ?_⟩
  have hin : inForce Block.virt
      [(⟨0, 0, ()⟩ : Block 1 Unit), ⟨0x1000, 1, ()⟩, ⟨0x2000, 0, ()⟩] a = some ⟨0x2000, 0, ()⟩ := by
    have hle : 0x2000 ≤ a := ha.1
    simp [inForce, hle, (show 0x1000 ≤ a by omega)]
  show (inForce Block.virt [(⟨0, 0, ()⟩ : Block 1 Unit), ⟨0x1000, 1, ()⟩, ⟨0x2000, 0, ()⟩] a).bind _ = none
  rw [hin]
  rfl

end FlatAllocator

end Voltemu.Common
