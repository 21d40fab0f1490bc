import Voltemu.Kernel.Memory.KMemoryBlockManager
import Voltemu.Lib.Tiling

/-!
# What the walk over a range does to the blocks

The loops of `Update`, `UpdateIfMatch`, `UpdateLock` and `UpdateAttribute` thread a cursor and a
page count through splits that move the block under the iterator.  Here that state is eliminated:
`updateLoop_eq` says that on a tiling the walk replaces every block, independently of the others,
by `rewriteBlock` of it — the part before the range, the changed part inside it, and the part
after it.

`canMergeWith` is the other half of the bookkeeping: splitting and merging change neither what
the left neighbour nor what the right neighbour of a block can do.
-/

namespace Voltemu.Kernel

open Tiling List
open KMemoryBlockDisableMergeAttribute (AllLeft AllRight)

abbrev BlockTiles : ℕ → List KMemoryBlock → ℕ → Prop :=
  Tiles KMemoryBlock.address KMemoryBlock.getEndAddress

namespace KMemoryBlock

/-! ## Splitting and merging -/

@[simp] lemma split_fst_address (b : KMemoryBlock) (a : ℕ) : (b.split a).1.address = b.address :=
  rfl

@[simp] lemma split_snd_address (b : KMemoryBlock) (a : ℕ) : (b.split a).2.address = a := rfl

@[simp] lemma add_address (b c : KMemoryBlock) : (b.add c).address = b.address := rfl

variable {b c : KMemoryBlock}

lemma add_getEndAddress (h : b.getEndAddress = c.address) : (b.add c).getEndAddress = c.getEndAddress := by
  simp only [getEndAddress, getSize, add] at h ⊢
  rw [← h]
  ring

section SplitInside

variable {a : ℕ} (hb : b.address % PageSize = 0) (ha : a % PageSize = 0) (hlt : b.address < a)
include hb ha hlt

lemma split_fst_getEndAddress : (b.split a).1.getEndAddress = a := by
  simp only [getEndAddress, getSize, split, PageSize] at *
  omega

lemma split_snd_getEndAddress (hgt : a < b.getEndAddress) : (b.split a).2.getEndAddress = b.getEndAddress := by
  simp only [getEndAddress, getSize, split, PageSize] at *
  omega

end SplitInside

/-- Two blocks a left neighbour cannot tell apart. -/
def LeftAlike (b c : KMemoryBlock) : Prop := ∀ x : KMemoryBlock, x.canMergeWith b = x.canMergeWith c

/-- Two blocks a right neighbour cannot tell apart. -/
def RightAlike (b c : KMemoryBlock) : Prop :=
  ∀ y : KMemoryBlock, b.canMergeWith y = c.canMergeWith y

lemma split_fst_leftAlike (b : KMemoryBlock) (a : ℕ) : LeftAlike (b.split a).1 b := by
  intro x
  simp [canMergeWith, hasSameProperties, split, BitVec.and_assoc]

lemma split_snd_rightAlike (b : KMemoryBlock) (a : ℕ) : RightAlike (b.split a).2 b := by
  intro y
  simp [canMergeWith, hasSameProperties, split, BitVec.and_assoc]

lemma canMergeWith_iff :
    b.canMergeWith c = true ↔ b.hasSameProperties c = true ∧ b.disableMergeAttribute &&& AllRight = 0#8 ∧
      c.disableMergeAttribute &&& AllLeft = 0#8 := by
  simp [canMergeWith, KMemoryBlockDisableMergeAttribute.None, and_assoc]

lemma hasSameProperties_iff :
    b.hasSameProperties c = true ↔ b.memoryState = c.memoryState ∧ b.permission = c.permission ∧
      b.originalPermission = c.originalPermission ∧ b.attr = c.attr ∧
      b.ipcLockCount = c.ipcLockCount ∧ b.deviceUseCount = c.deviceUseCount := by
  simp [hasSameProperties, and_assoc]

section Add

variable (h : b.canMergeWith c = true)
include h

lemma add_allLeft : (b.add c).disableMergeAttribute &&& AllLeft = b.disableMergeAttribute &&& AllLeft := by
  obtain ⟨-, -, hc⟩ := canMergeWith_iff.1 h
  rw [add, BitVec.and_comm, BitVec.and_or_distrib_left,
    BitVec.and_comm (y := c.disableMergeAttribute), hc, BitVec.or_zero, BitVec.and_comm]

lemma add_allRight : (b.add c).disableMergeAttribute &&& AllRight = c.disableMergeAttribute &&& AllRight := by
  obtain ⟨-, hb, -⟩ := canMergeWith_iff.1 h
  rw [add, BitVec.and_comm, BitVec.and_or_distrib_left,
    BitVec.and_comm (y := b.disableMergeAttribute), hb, BitVec.zero_or, BitVec.and_comm]

lemma add_leftAlike : LeftAlike (b.add c) b := by
  intro x
  rw [canMergeWith, canMergeWith, add_allLeft h]
  rfl

lemma add_rightAlike : RightAlike (b.add c) c := by
  intro y
  obtain ⟨hsame, -, -⟩ := canMergeWith_iff.1 h
  obtain ⟨h1, h2, h3, h4, h5, h6⟩ := hasSameProperties_iff.1 hsame
  rw [canMergeWith, canMergeWith, add_allRight h]
  simp [hasSameProperties, add, h1, h2, h3, h4, h5, h6]

end Add

/-! ## One block against a range -/

/-- The part of `b` before the range that starts at `s`, when the range starts inside `b`. -/
def headPart (s : ℕ) (b : KMemoryBlock) : List KMemoryBlock :=
  (KMemoryBlockManager.splitBefore b (max b.address s)).1

/-- `b` without the part before the range. -/
def fromStart (s : ℕ) (b : KMemoryBlock) : KMemoryBlock :=
  (KMemoryBlockManager.splitBefore b (max b.address s)).2

/-- The part of `b` inside the range `[s, e)`. -/
def clip (s e : ℕ) (b : KMemoryBlock) : KMemoryBlock :=
  if e < b.getEndAddress then ((b.fromStart s).split e).1 else b.fromStart s

/-- The part of `b` after the range, when the range ends inside `b`. -/
def tailPart (s e : ℕ) (b : KMemoryBlock) : List KMemoryBlock :=
  if e < b.getEndAddress then [((b.fromStart s).split e).2] else []

def Meets (s e : ℕ) (b : KMemoryBlock) : Prop :=
  b.address < e ∧ s < b.getEndAddress ∧ s < e

instance (s e : ℕ) (b : KMemoryBlock) : Decidable (b.Meets s e) :=
  inferInstanceAs (Decidable (_ ∧ _ ∧ _))

/-- What a range operation makes of one block. -/
def rewriteBlock (skip : KMemoryBlock → Bool) (upd : KMemoryBlock → KMemoryBlock) (s e : ℕ)
    (b : KMemoryBlock) : List KMemoryBlock :=
  if b.Meets s e ∧ skip b = false then b.headPart s ++ upd (b.clip s e) :: b.tailPart s e
  else [b]

section Geometry

variable {s e : ℕ} (hb : b.address % PageSize = 0) (hs : s % PageSize = 0) (he : e % PageSize = 0)
  (hmeets : b.Meets s e)

lemma headPart_of_le (h : s ≤ b.address) : b.headPart s = [] := by
  simp [headPart, KMemoryBlockManager.splitBefore, h]

lemma headPart_of_lt (h : b.address < s) : b.headPart s = [(b.split s).1] := by
  simp [headPart, KMemoryBlockManager.splitBefore, max_eq_right h.le, h.ne]

lemma fromStart_of_le (h : s ≤ b.address) : b.fromStart s = b := by
  simp [fromStart, KMemoryBlockManager.splitBefore, h]

lemma fromStart_of_lt (h : b.address < s) : b.fromStart s = (b.split s).2 := by
  simp [fromStart, KMemoryBlockManager.splitBefore, max_eq_right h.le, h.ne]

lemma fromStart_address : (b.fromStart s).address = max b.address s := by
  rcases le_or_gt s b.address with h | h
  · rw [fromStart_of_le h, max_eq_left h]
  · rw [fromStart_of_lt h, max_eq_right h.le, split_snd_address]

lemma fromStart_rightAlike : RightAlike (b.fromStart s) b := by
  rcases le_or_gt s b.address with h | h
  · rw [fromStart_of_le h]
    exact fun _ => rfl
  · rw [fromStart_of_lt h]
    exact split_snd_rightAlike b s

lemma clip_address (e : ℕ) : (b.clip s e).address = max b.address s := by
  simp only [clip]
  split_ifs
  · rw [split_fst_address, fromStart_address]
  · exact fromStart_address

include hb hs

lemma headPart_tiles : BlockTiles b.address (b.headPart s) (max b.address s) := by
  rcases le_or_gt s b.address with h | h
  · rw [headPart_of_le h, max_eq_left h]
    exact rfl
  · have hend := split_fst_getEndAddress hb hs h
    rw [headPart_of_lt h, max_eq_right h.le]
    exact ⟨rfl, hend.symm ▸ h, hend⟩

private lemma fromStart_aligned : (b.fromStart s).address % PageSize = 0 := by
  rw [fromStart_address]
  rcases max_choice b.address s with h | h <;> rw [h] <;> assumption

include hmeets

lemma fromStart_getEndAddress : (b.fromStart s).getEndAddress = b.getEndAddress := by
  rcases le_or_gt s b.address with h | h
  · rw [fromStart_of_le h]
  · rw [fromStart_of_lt h, split_snd_getEndAddress hb hs h hmeets.2.1]

include he

lemma clip_getEndAddress : (b.clip s e).getEndAddress = min b.getEndAddress e := by
  simp only [clip]
  split_ifs with h
  · rw [min_eq_right h.le, split_fst_getEndAddress (fromStart_aligned hb hs) he]
    rw [fromStart_address]
    exact max_lt hmeets.1 hmeets.2.2
  · rw [min_eq_left (by omega), fromStart_getEndAddress hb hs hmeets]

lemma tailPart_tiles : BlockTiles (min b.getEndAddress e) (b.tailPart s e) b.getEndAddress := by
  simp only [tailPart]
  split_ifs with h
  · have hlt : (b.fromStart s).address < e := by
      rw [fromStart_address]
      exact max_lt hmeets.1 hmeets.2.2
    have hend := fromStart_getEndAddress hb hs hmeets
    have hsplit := split_snd_getEndAddress (fromStart_aligned hb hs) he hlt (hend ▸ h)
    rw [hend] at hsplit
    rw [min_eq_right h.le]
    exact ⟨rfl, hsplit.symm ▸ h, hsplit⟩
  · rw [min_eq_left (by omega)]
    exact rfl

end Geometry

/-! ## The replacement of one block -/

section Rewrite

variable {skip : KMemoryBlock → Bool} {upd : KMemoryBlock → KMemoryBlock} {s e : ℕ}

lemma rewriteBlock_of_touched (h : b.Meets s e ∧ skip b = false) :
    b.rewriteBlock skip upd s e = b.headPart s ++ upd (b.clip s e) :: b.tailPart s e :=
  if_pos h

lemma rewriteBlock_of_untouched (h : ¬ (b.Meets s e ∧ skip b = false)) : b.rewriteBlock skip upd s e = [b] :=
  if_neg h

lemma rewriteBlock_ne_nil : b.rewriteBlock skip upd s e ≠ [] := by
  rw [rewriteBlock]
  split_ifs <;> simp

variable (haddr : ∀ x, (upd x).address = x.address)
  (hend : ∀ x, (upd x).getEndAddress = x.getEndAddress) (hb : b.address % PageSize = 0)
  (hs : s % PageSize = 0) (he : e % PageSize = 0) (hpos : b.address < b.getEndAddress)
include haddr hend hb hs he hpos

lemma rewriteBlock_tiles : BlockTiles b.address (b.rewriteBlock skip upd s e) b.getEndAddress := by
  by_cases h : b.Meets s e ∧ skip b = false
  · have hclip := clip_getEndAddress hb hs he h.1
    rw [rewriteBlock_of_touched h]
    refine tiles_append.2 ⟨_, headPart_tiles hb hs, ?_, ?_, ?_⟩
    · rw [haddr, clip_address]
    · rw [hend, hclip]
      obtain ⟨⟨h1, h2, h3⟩, -⟩ := h
      omega
    · rw [hend, hclip]
      exact tailPart_tiles hb hs he h.1
  · rw [rewriteBlock_of_untouched h]
    exact ⟨rfl, hpos, rfl⟩

end Rewrite

/-- `x` and `y` may be mergeable, but then `y` starts in the window the operation coalesces. -/
def WindowRel (s e : ℕ) (x y : KMemoryBlock) : Prop :=
  x.canMergeWith y = true → s ≤ y.address ∧ y.address ≤ e

section Window

variable {skip : KMemoryBlock → Bool} {upd : KMemoryBlock → KMemoryBlock} {s e : ℕ}
  (haddr : ∀ x, (upd x).address = x.address)

include haddr in
/-- Inside a replacement the seams are the two ends of the range. -/
lemma rewriteBlock_window : (b.rewriteBlock skip upd s e).IsChain (WindowRel s e) := by
  by_cases h : b.Meets s e ∧ skip b = false
  · have hse : s < e := h.1.2.2
    have htail : (upd (b.clip s e) :: b.tailPart s e).IsChain (WindowRel s e) := by
      rw [tailPart]
      split_ifs
      · refine isChain_pair.2 fun _ => ⟨hse.le, le_rfl⟩
      · exact isChain_singleton _
    rw [rewriteBlock_of_touched h]
    rcases le_or_gt s b.address with hle | hlt
    · rw [headPart_of_le hle]
      exact htail
    · rw [headPart_of_lt hlt]
      refine isChain_cons_cons.2 ⟨fun _ => ?_, htail⟩
      rw [haddr, clip_address, max_eq_right hlt.le]
      exact ⟨le_rfl, hse.le⟩
  · rw [rewriteBlock_of_untouched h]
    exact isChain_singleton _

variable {y x : KMemoryBlock}

include haddr in
lemma rewriteBlock_head (hy : y ∈ (b.rewriteBlock skip upd s e).head?) :
    LeftAlike y b ∧ y.address = b.address ∨ s ≤ y.address ∧ y.address ≤ e := by
  by_cases h : b.Meets s e ∧ skip b = false
  · rw [rewriteBlock_of_touched h] at hy
    rcases le_or_gt s b.address with hle | hlt
    · rw [headPart_of_le hle] at hy
      obtain rfl : upd (b.clip s e) = y := by simpa using hy
      rw [haddr, clip_address, max_eq_left hle]
      exact Or.inr ⟨hle, h.1.1.le⟩
    · rw [headPart_of_lt hlt] at hy
      obtain rfl : (b.split s).1 = y := by simpa using hy
      exact Or.inl ⟨split_fst_leftAlike b s, rfl⟩
  · rw [rewriteBlock_of_untouched h] at hy
    obtain rfl : b = y := by simpa using hy
    exact Or.inl ⟨fun _ => rfl, rfl⟩

/-- A neighbour on the right sees the old block, unless the range reaches the end of the block. -/
lemma rewriteBlock_last (hx : x ∈ (b.rewriteBlock skip upd s e).getLast?) :
    RightAlike x b ∨ s ≤ b.getEndAddress ∧ b.getEndAddress ≤ e := by
  by_cases h : b.Meets s e ∧ skip b = false
  · rw [rewriteBlock_of_touched h] at hx
    rw [tailPart] at hx
    split_ifs at hx with hlt
    · obtain rfl : ((b.fromStart s).split e).2 = x := by simpa using hx
      refine Or.inl fun y => ?_
      rw [split_snd_rightAlike, fromStart_rightAlike]
    · exact Or.inr ⟨h.1.2.1.le, not_lt.1 hlt⟩
  · rw [rewriteBlock_of_untouched h] at hx
    obtain rfl : b = x := by simpa using hx
    exact Or.inl fun _ => rfl

include haddr in
lemma rewriteBlock_seam (hbc : b.canMergeWith c = false) (hmeet : b.getEndAddress = c.address)
    (hx : x ∈ (b.rewriteBlock skip upd s e).getLast?)
    (hy : y ∈ (c.rewriteBlock skip upd s e).head?) : WindowRel s e x y := by
  intro hxy
  rcases rewriteBlock_head haddr hy with ⟨hleft, hyaddr⟩ | hwin
  · rcases rewriteBlock_last hx with hright | hwin
    · rw [hleft, hright, hbc] at hxy
      exact absurd hxy (by simp)
    · rw [hyaddr, ← hmeet]
      exact hwin
  · exact hwin

end Window

end KMemoryBlock

/-! ## The walk -/

namespace KMemoryBlockManager

open KMemoryBlock

variable {skip : KMemoryBlock → Bool} {upd : KMemoryBlock → KMemoryBlock}

variable {b : KMemoryBlock}

lemma getEndAddress_aligned (hb : b.address % PageSize = 0) : b.getEndAddress % PageSize = 0 := by
  simp only [getEndAddress, getSize, PageSize] at *
  omega

variable {e s x y s' cur : ℕ}

lemma rewriteBlock_after (h : e ≤ b.address) : b.rewriteBlock skip upd s e = [b] :=
  rewriteBlock_of_untouched fun hm => absurd hm.1.1 (by omega)

variable {blocks : List KMemoryBlock}

lemma flatMap_rewriteBlock_after (htiles : BlockTiles x blocks y) (hx : e ≤ x) :
    blocks.flatMap (rewriteBlock skip upd s e) = blocks := by
  have hid : ∀ b ∈ blocks, b.rewriteBlock skip upd s e = [b] := fun b hb =>
    rewriteBlock_after (hx.trans (htiles.bounds hb).1)
  rw [flatMap_congr hid]
  exact flatMap_singleton' blocks

lemma rewriteBlock_start (hs : s ≤ b.address) (hs' : s' ≤ b.address) (hpos : b.address < b.getEndAddress) :
    b.rewriteBlock skip upd s e = b.rewriteBlock skip upd s' e := by
  by_cases he : e ≤ b.address
  · rw [rewriteBlock_after he, rewriteBlock_after he]
  · have hm : b.Meets s e ↔ b.Meets s' e := by
      simp only [Meets]
      omega
    simp only [rewriteBlock, clip, tailPart, headPart_of_le hs, headPart_of_le hs',
      fromStart_of_le hs, fromStart_of_le hs', hm]

lemma flatMap_rewriteBlock_start (htiles : BlockTiles x blocks y) (hs : s ≤ x) (hs' : s' ≤ x) :
    blocks.flatMap (rewriteBlock skip upd s e) = blocks.flatMap (rewriteBlock skip upd s' e) := by
  refine flatMap_congr fun b hb => ?_
  obtain ⟨h1, h2, -⟩ := htiles.bounds hb
  exact rewriteBlock_start (hs.trans h1) (hs'.trans h1) h2

/-- Before the range starts there is nothing to do. -/
lemma flatMap_rewriteBlock_before (htiles : BlockTiles x blocks y) (hy : y ≤ s) :
    blocks.flatMap (rewriteBlock skip upd s e) = blocks := by
  have hid : ∀ b ∈ blocks, b.rewriteBlock skip upd s e = [b] := fun b hb =>
    rewriteBlock_of_untouched fun hm => absurd hm.1.2.1 (by
      have := (htiles.bounds hb).2.2
      omega)
  rw [flatMap_congr hid]
  exact flatMap_singleton' blocks

/-- One turn of the loop on a block that is not skipped: the cursor sits at the block's first
byte inside the range, so the two splits cut out exactly `headPart`, `clip` and `tailPart`. -/
lemma splitBefore_eq (h : b.address ≤ cur) :
    splitBefore b cur = (b.headPart cur, b.fromStart cur) := by
  simp [headPart, fromStart, max_eq_right h]

/-- **The walk rewrites every block on its own.** -/
theorem updateLoop_eq {pages : ℕ} (htiles : BlockTiles x blocks y) (hx : x % PageSize = 0) (hcur : cur % PageSize = 0)
    (hxcur : x ≤ cur) (hhead : ∀ b ∈ blocks.head?, cur < b.getEndAddress)
    (hend : cur + pages * PageSize ≤ y) :
    updateLoop skip upd blocks cur pages
      = some (blocks.flatMap (rewriteBlock skip upd cur (cur + pages * PageSize))) := by
  induction blocks generalizing x cur pages with
  | nil =>
    have hxy : x = y := htiles
    have : pages = 0 := by
      simp only [PageSize] at hend
      omega
    simp [updateLoop, this]
  | cons it rest ih =>
    obtain ⟨hit, hpos, hrest⟩ := htiles
    have hcurit : cur < it.getEndAddress := hhead it (by simp)
    have hitaligned : it.address % PageSize = 0 := hit ▸ hx
    have hendaligned := getEndAddress_aligned hitaligned
    have hresthead : ∀ b ∈ rest.head?, it.getEndAddress < b.getEndAddress := by
      intro b hb
      cases rest with
      | nil => simp at hb
      | cons c cs =>
        obtain rfl : c = b := by simpa using hb
        exact hrest.2.1
    set e := cur + pages * PageSize with he
    rw [updateLoop, flatMap_cons]
    by_cases hzero : pages = 0
    · have hcure : e = cur := by rw [he, hzero, zero_mul, add_zero]
      rw [if_pos hzero, flatMap_rewriteBlock_after hrest (by omega),
        rewriteBlock_of_untouched fun hm => absurd hm.1.2.2 (by omega)]
      rfl
    · have hlt : cur < e := by
        simp only [PageSize] at he
        omega
      have hmeets : it.Meets cur e := ⟨by omega, hcurit, hlt⟩
      rw [if_neg hzero]
      by_cases hskip : skip it = true
      · have hsame : it.rewriteBlock skip upd cur e = [it] :=
          rewriteBlock_of_untouched fun hm => absurd hm.2 (by simp [hskip])
        rw [if_pos hskip, hsame]
        split_ifs with hshort
        · rw [flatMap_rewriteBlock_after hrest hshort.le]
          rfl
        · have hnext : it.getEndAddress + (e - it.getEndAddress) / PageSize * PageSize = e := by
            simp only [PageSize] at *
            omega
          have h := ih hrest hendaligned hendaligned le_rfl hresthead (hnext.trans_le hend)
          rw [hnext] at h
          rw [h, Option.map_some, flatMap_rewriteBlock_start hrest le_rfl hcurit.le]
          rfl
      · have hskip' : skip it = false := by simpa using hskip
        have hcurle : it.address ≤ cur := hit.le.trans hxcur
        have hfrom : (it.fromStart cur).address = cur := by
          rw [fromStart_address, max_eq_right hcurle]
        have hfromend := fromStart_getEndAddress hitaligned hcur hmeets
        have hsize : (it.fromStart cur).getSize > pages * PageSize ↔ e < it.getEndAddress := by
          rw [← hfromend]
          simp only [getEndAddress, hfrom]
          omega
        rw [if_neg hskip, splitBefore_eq hcurle, rewriteBlock_of_touched ⟨hmeets, hskip'⟩]
        dsimp only
        simp only [hsize, hfrom, ← he]
        split_ifs with hlong
        · rw [clip, tailPart, if_pos hlong, if_pos hlong, flatMap_rewriteBlock_after hrest hlong.le]
          simp
        · have hnext : cur + (it.fromStart cur).getSize = it.getEndAddress := by
            rw [← hfromend, getEndAddress, hfrom]
          have hleft : it.getEndAddress + (pages - (it.fromStart cur).numPages) * PageSize = e := by
            simp only [getSize, PageSize] at *
            omega
          have h := ih hrest hendaligned hendaligned le_rfl hresthead (hleft.trans_le hend)
          rw [hleft] at h
          rw [hnext, h, Option.map_some, flatMap_rewriteBlock_start hrest le_rfl hcurit.le, clip,
            tailPart, if_neg hlong, if_neg hlong]
          simp

end KMemoryBlockManager

end Voltemu.Kernel
