import Voltemu.Kernel.Memory.BlockInvariant

/-!
# `FindFreeArea`

In every free block the search tries one address, `tryArea`: the least one behind the guard pages of its lower end that has
the offset (`least_leastFrom`).  So the first block where that address fits has the least address that fits.
-/

namespace Voltemu.Kernel

open Tiling List

namespace KMemoryBlockManager

def u64 (n : ℕ) : ℕ := n % 2 ^ 64

structure AreaRequest where
  regionStart : ℕ
  regionNumPages : ℕ
  numPages : ℕ
  alignment : ℕ
  offset : ℕ
  guardPages : ℕ

namespace AreaRequest

variable (r : AreaRequest)

def regionEnd : ℕ := u64 (r.regionStart + r.regionNumPages * PageSize)

def regionLast : ℕ := u64 (r.regionEnd + (2 ^ 64 - 1))

def tryArea (info : KMemoryBlock) : ℕ :=
  let area := if info.address ≤ r.regionStart then r.regionStart else info.address
  let area := u64 (area + r.guardPages * PageSize)
  let offsetArea := u64 (area - area % r.alignment + r.offset)
  if area ≤ offsetArea then offsetArea else u64 (offsetArea + r.alignment)

def areaLast (area : ℕ) : ℕ := u64 (u64 (area + r.numPages * PageSize + r.guardPages * PageSize) + (2 ^ 64 - 1))

def search : List KMemoryBlock → ℕ
  | [] => 0
  | info :: rest =>
      if r.regionLast < info.address then 0
      else if info.memoryState ≠ KMemoryState.Free then search rest
      else if info.address ≤ r.tryArea info ∧ r.tryArea info < r.areaLast (r.tryArea info) ∧
          r.areaLast (r.tryArea info) ≤ r.regionLast ∧ r.areaLast (r.tryArea info) ≤ info.getLastAddress then r.tryArea info
      else search rest

end AreaRequest

def findFreeArea (m : KMemoryBlockManager) (r : AreaRequest) : ℕ :=
  if 0 < r.numPages then r.search (findIterator m.memoryBlockTree r.regionStart).2 else 0

namespace AreaRequest

variable (r : AreaRequest)

/-! ## What is searched for -/

/-- The area at an address fits with its guard pages in the region and in the block. -/
structure FitsIn (b : KMemoryBlock) (a : ℕ) : Prop where
  free : b.memoryState = KMemoryState.Free
  offset : a % r.alignment = r.offset
  region_le : r.regionStart + r.guardPages * PageSize ≤ a
  le_region : a + (r.numPages + r.guardPages) * PageSize ≤ r.regionStart + r.regionNumPages * PageSize
  block_le : b.address + r.guardPages * PageSize ≤ a
  le_block : a + (r.numPages + r.guardPages) * PageSize ≤ b.getEndAddress

def Fits (m : KMemoryBlockManager) (a : ℕ) : Prop := ∃ b ∈ m.memoryBlockTree, r.FitsIn b a

/-- The least address from a bound on that has the offset. -/
def leastFrom (bound : ℕ) : ℕ :=
  if bound ≤ bound - bound % r.alignment + r.offset then bound - bound % r.alignment + r.offset
  else bound - bound % r.alignment + r.offset + r.alignment

/-- What the search tries in a block, if nothing overflows. -/
def target (b : KMemoryBlock) : ℕ := r.leastFrom (max r.regionStart b.address + r.guardPages * PageSize)

/-- No sum of the call overflows, nor `region_end - 1`. -/
structure NoOverflow (m : KMemoryBlockManager) : Prop where
  region_pos : 0 < r.regionStart + r.regionNumPages * PageSize
  region : r.regionStart + r.regionNumPages * PageSize < 2 ^ 64
  area : ∀ b ∈ m.memoryBlockTree, b.memoryState = KMemoryState.Free → b.address < r.regionStart + r.regionNumPages * PageSize →
    r.target b + (r.numPages + r.guardPages) * PageSize < 2 ^ 64

/-- A call about a region of the map. -/
structure Valid (m : KMemoryBlockManager) : Prop extends r.NoOverflow m where
  numPages_pos : 0 < r.numPages
  offset_lt : r.offset < r.alignment
  start_le : m.startAddress ≤ r.regionStart
  le_end : r.regionStart + r.regionNumPages * PageSize ≤ m.endAddress

variable {r : AreaRequest} {bound a : ℕ} {b : KMemoryBlock} {l : List KMemoryBlock} {x y : ℕ}

lemma leastFrom_spec (h : r.offset < r.alignment) : bound ≤ r.leastFrom bound ∧ r.leastFrom bound % r.alignment = r.offset := by
  have hmod := Nat.mod_lt bound (Nat.zero_lt_of_lt h)
  have hle := Nat.mod_le bound r.alignment
  have hdown : (bound - bound % r.alignment) % r.alignment = 0 := Nat.sub_mod_eq_zero_of_mod_eq (Nat.mod_mod ..).symm
  rw [leastFrom]
  split
  · rename_i hbound
    exact ⟨hbound, by rw [Nat.add_mod, hdown, Nat.zero_add, Nat.mod_mod, Nat.mod_eq_of_lt h]⟩
  · exact ⟨by omega, by rw [Nat.add_mod_right, Nat.add_mod, hdown, Nat.zero_add, Nat.mod_mod, Nat.mod_eq_of_lt h]⟩

lemma leastFrom_le (hbound : bound ≤ a) (hoffset : a % r.alignment = r.offset) : r.leastFrom bound ≤ a := by
  have hquot : bound / r.alignment ≤ a / r.alignment := Nat.div_le_div_right hbound
  have hbound' := Nat.div_add_mod bound r.alignment
  have ha := Nat.div_add_mod a r.alignment
  have hmul := Nat.mul_le_mul_left r.alignment hquot
  rw [leastFrom]
  split
  · omega
  · rename_i hlow
    rcases hquot.lt_or_eq with hlt | heq
    · have hnext := Nat.mul_le_mul_left r.alignment hlt
      rw [Nat.mul_succ] at hnext
      omega
    · rw [heq] at hbound'
      omega

lemma u64_eq {n : ℕ} (h : n < 2 ^ 64) : u64 n = n := Nat.mod_eq_of_lt h

lemma u64_pred {n : ℕ} (hpos : 0 < n) (h : n < 2 ^ 64) : u64 (n + (2 ^ 64 - 1)) = n - 1 := by
  rw [u64]
  omega

section

variable {m : KMemoryBlockManager} (hr : r.Valid m)
include hr

lemma Valid.target_spec (b : KMemoryBlock) :
    max r.regionStart b.address + r.guardPages * PageSize ≤ r.target b ∧ r.target b % r.alignment = r.offset :=
  leastFrom_spec hr.offset_lt

lemma Valid.regionLast_eq : r.regionLast = r.regionStart + r.regionNumPages * PageSize - 1 := by
  rw [regionLast, regionEnd, u64_eq hr.region, u64_pred hr.region_pos hr.region]

variable (hb : b ∈ m.memoryBlockTree) (hfree : b.memoryState = KMemoryState.Free)
  (hmeets : b.address < r.regionStart + r.regionNumPages * PageSize)
include hb hfree hmeets

lemma Valid.tryArea_eq : r.tryArea b = r.target b := by
  have hlt := hr.area b hb hfree hmeets
  have hle := (leastFrom_spec hr.offset_lt : max r.regionStart b.address + r.guardPages * PageSize ≤ _ ∧ _).1
  have hstart : (if b.address ≤ r.regionStart then r.regionStart else b.address) = max r.regionStart b.address := by
    rw [max_comm]
    rfl
  rw [tryArea, hstart]
  generalize hbound : max r.regionStart b.address + r.guardPages * PageSize = bound at hle
  rw [target, hbound] at hlt ⊢
  have hdown : bound - bound % r.alignment + r.offset ≤ r.leastFrom bound := by
    rw [leastFrom]
    split <;> omega
  rw [u64_eq (show bound < 2 ^ 64 by omega), u64_eq (hdown.trans_lt (by omega))]
  rw [leastFrom] at hlt ⊢
  split_ifs at hlt ⊢
  · rfl
  · exact u64_eq (by omega)

lemma Valid.areaLast_eq : r.areaLast (r.target b) = r.target b + (r.numPages + r.guardPages) * PageSize - 1 := by
  have hlt := hr.area b hb hfree hmeets
  have hpos := hr.numPages_pos
  rw [areaLast, Nat.add_assoc, ← Nat.add_mul, u64_eq hlt, u64_pred (by simp only [PageSize]; omega) hlt]

lemma Valid.fitsIn_iff : (b.address ≤ r.tryArea b ∧ r.tryArea b < r.areaLast (r.tryArea b) ∧ r.areaLast (r.tryArea b) ≤ r.regionLast ∧
    r.areaLast (r.tryArea b) ≤ b.getLastAddress) ↔ r.FitsIn b (r.target b) := by
  obtain ⟨hle, hoffset⟩ := hr.target_spec b
  have hpos := hr.numPages_pos
  have hregion := hr.region_pos
  rw [hr.tryArea_eq hb hfree hmeets, hr.areaLast_eq hb hfree hmeets, hr.regionLast_eq, KMemoryBlock.getLastAddress]
  simp only [PageSize] at *
  constructor
  · rintro ⟨h1, h2, h3, h4⟩
    exact ⟨hfree, hoffset, by simp only [PageSize]; omega, by simp only [PageSize]; omega, by simp only [PageSize]; omega,
      by simp only [PageSize]; omega⟩
  · rintro ⟨-, -, h1, h2, h3, h4⟩
    simp only [PageSize] at h1 h2 h3 h4
    omega

end

lemma Valid.search {m : KMemoryBlockManager} (hr : r.Valid m) (hsub : ∀ b ∈ l, b ∈ m.memoryBlockTree) (htiles : BlockTiles x l y) :
    (∀ b ∈ l, ∀ a, ¬ r.FitsIn b a) ∧ r.search l = 0 ∨
      (∃ b ∈ l, r.FitsIn b (r.search l)) ∧ ∀ b ∈ l, ∀ a, r.FitsIn b a → r.search l ≤ a := by
  induction l generalizing x with
  | nil => exact .inl ⟨nofun, rfl⟩
  | cons b rest ih =>
    obtain ⟨rfl, hlt, hrest⟩ := htiles
    have hb := hsub b mem_cons_self
    have hpos := hr.numPages_pos
    have hregion := hr.region_pos
    have hbelow : ∀ c ∈ rest, b.getEndAddress ≤ c.address := fun c hc => (hrest.bounds hc).1
    rw [AreaRequest.search, hr.regionLast_eq]
    by_cases hpast : r.regionStart + r.regionNumPages * PageSize - 1 < b.address
    · rw [if_pos hpast]
      refine .inl ⟨fun c hc a h => ?_, rfl⟩
      have hle : b.address ≤ c.address := by
        rcases mem_cons.1 hc with rfl | hc
        · exact le_rfl
        · exact hlt.le.trans (hbelow c hc)
      have h1 := h.le_region
      have h2 := h.block_le
      simp only [PageSize] at *
      omega
    · rw [if_neg hpast]
      have hnext := ih (fun c hc => hsub c (mem_cons_of_mem _ hc)) hrest
      have hmeets : b.address < r.regionStart + r.regionNumPages * PageSize := by omega
      -- where nothing fits in the block, the rest decides
      have hskip : (∀ a, ¬ r.FitsIn b a) → (∀ c ∈ b :: rest, ∀ a, ¬ r.FitsIn c a) ∧ r.search rest = 0 ∨
          (∃ c ∈ b :: rest, r.FitsIn c (r.search rest)) ∧ ∀ c ∈ b :: rest, ∀ a, r.FitsIn c a → r.search rest ≤ a := by
        intro hno
        rcases hnext with ⟨hnone, hzero⟩ | ⟨⟨c, hc, hfits⟩, hleast⟩
        · exact .inl ⟨forall_mem_cons.2 ⟨hno, hnone⟩, hzero⟩
        · exact .inr ⟨⟨c, mem_cons_of_mem _ hc, hfits⟩, forall_mem_cons.2 ⟨fun a ha => absurd ha (hno a), hleast⟩⟩
      by_cases hfree : b.memoryState = KMemoryState.Free
      · rw [if_neg (not_not.2 hfree), ← hr.regionLast_eq]
        split
        · rename_i htest
          have hfits := (hr.fitsIn_iff hb hfree hmeets).1 htest
          rw [hr.tryArea_eq hb hfree hmeets]
          refine .inr ⟨⟨b, mem_cons_self, hfits⟩, fun c hc a h => ?_⟩
          rcases mem_cons.1 hc with rfl | hc
          · exact leastFrom_le (by have := h.region_le; have := h.block_le; omega) h.offset
          · have h1 := hfits.le_block
            have h2 := h.block_le
            have h3 := hbelow c hc
            omega
        · rename_i htest
          refine hskip fun a h => htest ((hr.fitsIn_iff hb hfree hmeets).2 ?_)
          obtain ⟨hle, hoffset⟩ := hr.target_spec b
          have hleast : r.target b ≤ a := leastFrom_le (by have := h.region_le; have := h.block_le; omega) h.offset
          have h1 := h.le_region
          have h2 := h.le_block
          exact ⟨hfree, hoffset, by omega, by omega, by omega, by omega⟩
      · rw [if_pos hfree]
        exact hskip fun a h => hfree h.free

end AreaRequest

open AreaRequest

/-- **`FindFreeArea` gives the least address that fits**, and zero only if nothing fits or zero does. -/
theorem findFreeArea_least (m : KMemoryBlockManager) (r : AreaRequest) (hm : m.WellFormed) (hr : r.Valid m) :
    (m.findFreeArea r ≠ 0 → r.Fits m (m.findFreeArea r) ∧ ∀ a, r.Fits m a → m.findFreeArea r ≤ a) ∧
      (m.findFreeArea r = 0 → (∀ a, ¬ r.Fits m a) ∨ r.Fits m 0) := by
  rw [findFreeArea, if_pos hr.numPages_pos]
  have hsplit : (findIterator m.memoryBlockTree r.regionStart).1 ++ (findIterator m.memoryBlockTree r.regionStart).2 =
      m.memoryBlockTree := takeWhile_append_dropWhile
  have htiles := hm.tiles
  rw [← hsplit] at htiles
  obtain ⟨x, -, hrest⟩ := tiles_append.1 htiles
  have hsub : ∀ b ∈ (findIterator m.memoryBlockTree r.regionStart).2, b ∈ m.memoryBlockTree := fun b hb =>
    hsplit ▸ mem_append_right _ hb
  have hpos := hr.numPages_pos
  have hfits : ∀ a, r.Fits m a → ∃ b ∈ (findIterator m.memoryBlockTree r.regionStart).2, r.FitsIn b a := by
    rintro a ⟨b, hb, h⟩
    have h1 := h.region_le
    have h2 := h.le_region
    have h3 := h.le_block
    have hend := hr.le_end
    simp only [PageSize] at h1 h2 h3 hend
    obtain ⟨pre, c, post, hfind, hblocks, -, -, hpre⟩ := findIterator_inside hm.tiles hr.start_le (show r.regionStart < m.endAddress by omega)
    rw [hblocks, mem_append] at hb
    rw [hfind]
    exact ⟨b, hb.resolve_left fun hb => by have := hpre b hb; omega, h⟩
  rcases hr.search hsub hrest with ⟨hnone, hzero⟩ | ⟨⟨b, hb, hfound⟩, hleast⟩
  · refine ⟨fun hne => absurd hzero hne, fun _ => .inl fun a ha => ?_⟩
    obtain ⟨b, hb, h⟩ := hfits a ha
    exact hnone b hb a h
  · refine ⟨fun _ => ⟨⟨b, hsub b hb, hfound⟩, fun a ha => ?_⟩, fun hzero => .inr ⟨b, hsub b hb, hzero ▸ hfound⟩⟩
    obtain ⟨c, hc, h⟩ := hfits a ha
    exact hleast c hc a h

/-- One page with a guard page on each side, in a free map. -/
theorem findFreeArea_least_guarded :
    (initializeManager 0x10000 0x20000).findFreeArea ⟨0x10000, 16, 1, PageSize, 0, 1⟩ = 0x11000 ∧
      ∀ a, AreaRequest.Fits ⟨0x10000, 16, 1, PageSize, 0, 1⟩ (initializeManager 0x10000 0x20000) a → 0x11000 ≤ a := by
  have hfound : (initializeManager 0x10000 0x20000).findFreeArea ⟨0x10000, 16, 1, PageSize, 0, 1⟩ = 0x11000 := by decide
  have hm : (initializeManager 0x10000 0x20000).WellFormed := initializeManager_wellFormed rfl rfl (by decide)
  have hr : AreaRequest.Valid ⟨0x10000, 16, 1, PageSize, 0, 1⟩ (initializeManager 0x10000 0x20000) := by
    refine ⟨⟨by decide, by decide, fun b hb _ _ => ?_⟩, by decide, by decide, by decide, by decide⟩
    obtain rfl := mem_singleton.1 hb
    decide
  exact ⟨hfound, hfound ▸ ((findFreeArea_least _ _ hm hr).1 (by rw [hfound]; decide)).2⟩

/-- In a map from address 0 on, the area that is found at 0 is not told from none. -/
theorem findFreeArea_at_zero :
    (initializeManager 0 0x10000).WellFormed ∧ AreaRequest.Valid ⟨0, 16, 1, PageSize, 0, 0⟩ (initializeManager 0 0x10000) ∧
      (initializeManager 0 0x10000).findFreeArea ⟨0, 16, 1, PageSize, 0, 0⟩ = 0 ∧
      AreaRequest.Fits ⟨0, 16, 1, PageSize, 0, 0⟩ (initializeManager 0 0x10000) 0 := by
  refine ⟨initializeManager_wellFormed rfl rfl (by decide), ?_, by decide, _, mem_singleton.2 rfl, ?_⟩
  · refine ⟨⟨by decide, by decide, fun b hb _ _ => ?_⟩, by decide, by decide, by decide, by decide⟩
    obtain rfl := mem_singleton.1 hb
    decide
  · constructor <;> decide

end KMemoryBlockManager

end Voltemu.Kernel
