import Mathlib.Tactic.Linarith
import Mathlib.Tactic.Ring
import Voltemu.FileSys.BucketTree
import Voltemu.Lib.SortedSearch

/-!
# Lookup in bucket trees

A `BucketTable` is a table of entries and its layout in a node storage and an entry storage.

* Counts: the code's formulas for the numbers of entry sets and L2 nodes are right as long as the number of entries can be
  rounded up in 32 bits.
* Searches: `std::upper_bound` and `StorageNode::Find` give the cut of a sorted sequence.  `findEntrySetIndex_spec` puts the
  searches of the L1 node, its spare slots and the L2 nodes together.
* **`lookup_exact`**.
-/

namespace Voltemu.FileSys

open BucketTree SortedSearch Nat

/-- A table of entries, and the storages that it is laid out in. -/
structure BucketTable where
  nodeSize : ℕ
  entrySize : ℕ
  entryCount : ℕ
  entryOffset : ℕ → ℤ
  endOffset : ℤ
  nodeStorage : ℕ → Byte
  entryStorage : ℕ → Byte

namespace BucketTable

variable (t : BucketTable)

def perSet : ℕ := (t.nodeSize - NodeHeaderSize) / t.entrySize

def slots : ℕ := (t.nodeSize - NodeHeaderSize) / OffsetSize

def setCount : ℕ := (t.entryCount + (t.perSet - 1)) / t.perSet

def setSize (i : ℕ) : ℕ := min t.perSet (t.entryCount - i * t.perSet)

def setStart (i : ℕ) : ℤ := t.entryOffset (i * t.perSet)

def setEnd (i : ℕ) : ℤ := if i + 1 < t.setCount then t.setStart (i + 1) else t.endOffset

def entryPosition (i : ℕ) : ℕ := i / t.perSet * t.nodeSize + NodeHeaderSize + i % t.perSet * t.entrySize

/-- `n` L2 nodes, which take up slots of the L1 node, have enough slots for all entry sets with the spare slots. -/
def EnoughNodes (n : ℕ) : Prop := n ≤ t.slots ∧ t.setCount ≤ t.slots - n + n * t.slots

def l2Count : ℕ := if t.setCount ≤ t.slots then 0 else (t.setCount - t.slots + (t.slots - 2)) / (t.slots - 1)

/-- The number of offsets that the L1 node counts: those of the entry sets, or of the L2 nodes. -/
def l1Count : ℕ := if t.setCount ≤ t.slots then t.setCount else t.l2Count

/-- The number of entry sets whose offsets are in the spare slots of the L1 node. -/
def spare : ℕ := t.slots - t.l2Count

def nodeCount (j : ℕ) : ℕ := min t.slots (t.setCount - t.spare - j * t.slots)

/-- **A table that is laid out in the format.** -/
structure LaidOut : Prop where
  sizes : checkSizes t.nodeSize t.entrySize = true
  entryCount_pos : 0 < t.entryCount
  entryCount_lt : t.entryCount < 2 ^ 31
  fits : t.l2Count ≤ t.slots
  sorted : SortedTo t.entryOffset t.entryCount
  nonneg : 0 ≤ t.entryOffset 0
  setRange : ∀ i < t.setCount, t.setStart i < t.setEnd i
  entries : ∀ i < t.entryCount, s64At t.entryStorage (t.entryPosition i) = t.entryOffset i
  sets : ∀ i < t.setCount, nodeHeaderAt t.entryStorage (i * t.nodeSize) = ⟨i, t.setSize i, t.setEnd i⟩
  l1 : nodeHeaderAt t.nodeStorage 0 = ⟨0, t.l1Count, t.endOffset⟩
  l1Sets : t.setCount ≤ t.slots → ∀ i < t.setCount, l1Offset t.nodeStorage i = t.setStart i
  l1Spare : t.slots < t.setCount → ∀ i < t.spare, l1Offset t.nodeStorage (t.l2Count + i) = t.setStart i
  l1Nodes : t.slots < t.setCount → ∀ j < t.l2Count, l1Offset t.nodeStorage j = t.setStart (t.spare + j * t.slots)
  l2 : t.slots < t.setCount → ∀ j < t.l2Count, ∃ nodeEnd ≥ 0,
    nodeHeaderAt t.nodeStorage ((j + 1) * t.nodeSize) = ⟨j, t.nodeCount j, nodeEnd⟩
  l2Sets : t.slots < t.setCount → ∀ j < t.l2Count, ∀ k < t.nodeCount j,
    s64At t.nodeStorage ((j + 1) * t.nodeSize + (NodeHeaderSize + k * OffsetSize)) =
      t.setStart (t.spare + j * t.slots + k)

end BucketTable

/-! ## Searches -/

namespace BucketTree

section Searches

variable {read : ℕ → ℤ} {f : ℕ → ℤ} {v : ℤ}

lemma upperBound_spec (read f : ℕ → ℤ) (v : ℤ) (first : ℕ) : ∀ n, (∀ i < n, read (first + i) = f i) → SortedTo f n →
    ∃ k, upperBound read v first n = first + k ∧ IsCut f v n k := by
  intro n hread hsorted
  -- A linear scan: the elements before the result are not greater, and the result is greater.
  have hscan : ∀ m first, ∃ k ≤ m, upperBound read v first m = first + k ∧ (∀ i < k, read (first + i) ≤ v) ∧
      (k < m → v < read (first + k)) := by
    intro m
    induction m with
    | zero =>
      intro first
      exact ⟨0, le_refl 0, rfl, fun i hi => absurd hi (not_lt_zero i), fun h => absurd h (lt_irrefl 0)⟩
    | succ m ih =>
      intro first
      rw [upperBound]
      by_cases hlt : v < read first
      · rw [if_pos hlt]
        exact ⟨0, zero_le _, rfl, fun i hi => absurd hi (not_lt_zero i), fun _ => hlt⟩
      · rw [if_neg hlt]
        obtain ⟨k, hk, heq, hlow, hhigh⟩ := ih (first + 1)
        refine ⟨k + 1, by omega, by omega, ?_, ?_⟩
        · intro i hi
          cases i with
          | zero => exact not_lt.1 hlt
          | succ i =>
            have := hlow i (by omega)
            rwa [show first + 1 + i = first + (i + 1) by omega] at this
        · intro hlt'
          have := hhigh (by omega)
          rwa [show first + 1 + k = first + (k + 1) by omega] at this
  obtain ⟨k, hk, heq, hlow, hhigh⟩ := hscan n first
  refine ⟨k, heq, isCut_of_adjacent hsorted hk ?_ ?_⟩
  · intro hpos
    rw [← hread (k - 1) (by omega)]
    exact hlow _ (by omega)
  · intro hlt
    rw [← hread k hlt]
    exact hhigh hlt

variable {n start stride : ℕ}

/-- The loop of `StorageNode::Find` gives the cut: the elements before `lo` are not greater, and those from `lo + count` on
are. -/
lemma storageNodeFindLoop_spec (hread : ∀ i < n, read (start + i * stride) = f i)
    (hsorted : SortedTo f n) (fuel : ℕ) : ∀ lo count : ℕ, count ≤ fuel → lo + count ≤ n → (∀ i < lo, f i ≤ v) →
      (∀ i, lo + count ≤ i → i < n → v < f i) →
      ∃ k, storageNodeFindLoop read stride v fuel (start + lo * stride) count = start + k * stride ∧ IsCut f v n k := by
  induction fuel with
  | zero =>
    intro lo count hcount hle hlow hhigh
    obtain rfl : count = 0 := by omega
    exact ⟨lo, rfl, by omega, hlow, hhigh⟩
  | succ fuel ih =>
    intro lo count hcount hle hlow hhigh
    rw [storageNodeFindLoop]
    by_cases hpos : count > 0
    · rw [if_pos hpos]
      dsimp only
      have hmid : start + lo * stride + count / 2 * stride = start + (lo + count / 2) * stride := by ring
      rw [hmid, hread (lo + count / 2) (by omega)]
      by_cases hcmp : f (lo + count / 2) ≤ v
      · rw [if_pos hcmp, show start + (lo + count / 2) * stride + stride = start + (lo + count / 2 + 1) * stride by ring]
        refine ih _ _ (by omega) (by omega) ?_ ?_
        · intro i hi
          exact (hsorted i (lo + count / 2) (by omega) (by omega)).trans hcmp
        · intro i hi hn
          exact hhigh i (by omega) hn
      · rw [if_neg hcmp]
        refine ih lo (count / 2) (by omega) (by omega) hlow ?_
        intro i hi hn
        exact (not_le.1 hcmp).trans_le (hsorted _ i hi hn)
    · rw [if_neg hpos]
      obtain rfl : count = 0 := by omega
      exact ⟨lo, rfl, by omega, hlow, hhigh⟩

/-- **`StorageNode::Find` gives the last element that is not greater.** -/
lemma storageNodeFind_spec (read f : ℕ → ℤ) (v : ℤ) (hstride : 0 < stride) 
    (hread : ∀ i < n, read (start + i * stride) = f i) (hsorted : SortedTo f n) :
    ∃ k : ℕ, storageNodeFind read start stride n v = (k : ℤ) - 1 ∧ IsCut f v n k := by
  obtain ⟨k, heq, hcut⟩ := storageNodeFindLoop_spec (v := v) hread hsorted n 0 n (le_refl n) (by omega)
    (fun i hi => absurd hi (not_lt_zero i)) (fun i hi hn => absurd hn (by omega))
  refine ⟨k, ?_, hcut⟩
  rw [Nat.zero_mul, Nat.add_zero] at heq
  rw [storageNodeFind, heq, Nat.add_sub_cancel_left, Nat.mul_div_cancel _ hstride]

end Searches

end BucketTree

/-! ## Counts -/

namespace BucketTable

section Counts

variable {t : BucketTable}

lemma toS32_of_range {x : ℤ} (hlow : -2 ^ 31 ≤ x) (hhigh : x < 2 ^ 31) : toS32 x = x := by
  rw [toS32, Int.bmod_def]
  split_ifs with h <;> omega

lemma toS32_of_ge {x : ℤ} (hlow : 2 ^ 31 ≤ x) (hhigh : x < 2 ^ 32) : toS32 x = x - 2 ^ 32 := by
  rw [toS32, Int.bmod_def]
  split_ifs with h <;> omega

section

variable (h : t.LaidOut)
include h

lemma LaidOut.sizes_le : 8 ≤ t.entrySize ∧ t.entrySize + 0x10 ≤ t.nodeSize ∧ 0x400 ≤ t.nodeSize ∧
    t.nodeSize ≤ 0x80000 := by
  have hsizes := h.sizes
  simp only [checkSizes, Bool.and_eq_true, decide_eq_true_eq] at hsizes
  simp only [OffsetSize, NodeHeaderSize, NodeSizeMin, NodeSizeMax] at hsizes
  omega

lemma LaidOut.perSet_pos : 0 < t.perSet := by
  obtain ⟨hentry, hnode, -, -⟩ := h.sizes_le
  exact div_pos (by rw [NodeHeaderSize]; omega) (by omega)

lemma LaidOut.perSet_lt : t.perSet < 2 ^ 17 := by
  obtain ⟨hentry, hnode, -, hmax⟩ := h.sizes_le
  have hle : t.perSet ≤ t.nodeSize / 8 :=
    (Nat.div_le_div_left hentry (by omega)).trans (Nat.div_le_div_right (Nat.sub_le _ _))
  omega

lemma LaidOut.slots_range : 126 ≤ t.slots ∧ t.slots ≤ 65534 := by
  obtain ⟨-, -, hmin, hmax⟩ := h.sizes_le
  have hslots : t.slots = (t.nodeSize - 0x10) / 8 := rfl
  omega

lemma LaidOut.getEntryCount_eq : getEntryCount t.nodeSize t.entrySize = t.perSet := by
  have := h.perSet_lt
  exact toS32_of_range (x := t.perSet) (by omega) (by omega)

lemma LaidOut.getOffsetCount_eq : getOffsetCount t.nodeSize = t.slots := by
  have := h.slots_range
  exact toS32_of_range (x := t.slots) (by omega) (by omega)

end

lemma divideUp_eq {x y : ℕ} (hy : 0 < y) (hsum : x + (y - 1) < 2 ^ 31) : divideUp x y = ((x + (y - 1)) / y : ℕ) := by
  have hcast : (x : ℤ) + ((y : ℤ) - 1) = ((x + (y - 1) : ℕ) : ℤ) := by omega
  rw [divideUp, hcast, toS32_of_range (by omega) (by omega), Int.tdiv_eq_ediv_of_nonneg (by omega)]
  rfl

lemma LaidOut.getEntrySetCount_eq (h : t.LaidOut) (hsum : t.entryCount + (t.perSet - 1) < 2 ^ 31) :
    getEntrySetCount t.nodeSize t.entrySize t.entryCount = t.setCount := by
  rw [getEntrySetCount, h.getEntryCount_eq, divideUp_eq h.perSet_pos hsum]
  rfl

/-- The number of entry sets: the last one is not empty. -/
lemma setCount_bounds (hpos : 0 < t.perSet) (hcount : 0 < t.entryCount) :
    0 < t.setCount ∧ (t.setCount - 1) * t.perSet < t.entryCount ∧ t.entryCount ≤ t.setCount * t.perSet := by
  have hle : t.setCount * t.perSet ≤ t.entryCount + (t.perSet - 1) := div_mul_le_self _ _
  have hlt : t.entryCount + (t.perSet - 1) < (t.setCount + 1) * t.perSet :=
    (div_lt_iff_lt_mul hpos).1 (lt_succ_self _)
  have hset : 0 < t.setCount := div_pos (by omega) hpos
  refine ⟨hset, ?_, ?_⟩
  · rw [Nat.sub_mul, Nat.one_mul]
    omega
  · rw [Nat.add_mul, Nat.one_mul] at hlt
    omega

lemma lt_setCount (hpos : 0 < t.perSet) (hcount : 0 < t.entryCount) (i : ℕ) :
    i < t.setCount ↔ i * t.perSet < t.entryCount := by
  obtain ⟨hset, hlast, hle⟩ := setCount_bounds hpos hcount
  constructor
  · intro hi
    exact lt_of_le_of_lt (Nat.mul_le_mul_right _ (by omega)) hlast
  · intro hi
    exact Nat.lt_of_mul_lt_mul_right (hi.trans_le hle)

lemma LaidOut.setCount_spec (h : t.LaidOut) : 0 < t.setCount ∧ (t.setCount - 1) * t.perSet < t.entryCount ∧
    t.entryCount ≤ t.setCount * t.perSet := setCount_bounds h.perSet_pos h.entryCount_pos

lemma LaidOut.lt_setCount_iff (h : t.LaidOut) (i : ℕ) : i < t.setCount ↔ i * t.perSet < t.entryCount :=
  lt_setCount h.perSet_pos h.entryCount_pos i

lemma roundUp_eq {x y q : ℕ} (hy : 0 < y) (hlow : (q - 1) * y < x) (hhigh : x ≤ q * y) (hq : 0 < q) :
    (x + (y - 1)) / y = q := by
  obtain ⟨p, rfl⟩ : ∃ p, q = p + 1 := ⟨q - 1, by omega⟩
  rw [Nat.add_sub_cancel] at hlow
  rw [Nat.add_mul, Nat.one_mul] at hhigh
  refine Nat.div_eq_of_lt_le ?_ ?_
  · rw [Nat.add_mul, Nat.one_mul]
    omega
  · rw [Nat.add_mul, Nat.add_mul, Nat.one_mul]
    omega

lemma LaidOut.l2Count_spec (h : t.LaidOut) (hl2 : t.slots < t.setCount) :
    0 < t.l2Count ∧ t.setCount + t.l2Count ≤ t.slots + t.l2Count * t.slots ∧
    t.l2Count * t.slots + 1 < t.setCount + t.l2Count := by
  have hslots := h.slots_range
  have hdef : t.l2Count = (t.setCount - t.slots + (t.slots - 2)) / (t.slots - 1) := if_neg (by omega)
  have hle : t.l2Count * (t.slots - 1) ≤ t.setCount - t.slots + (t.slots - 2) := by
    rw [hdef]
    exact div_mul_le_self _ _
  have hlt : t.setCount - t.slots + (t.slots - 2) < (t.l2Count + 1) * (t.slots - 1) := by
    rw [hdef]
    exact (div_lt_iff_lt_mul (by omega)).1 (lt_succ_self _)
  have hpos : 0 < t.l2Count := by
    rw [hdef]
    exact div_pos (by omega) (by omega)
  rw [Nat.mul_sub, Nat.mul_one] at hle hlt
  rw [Nat.add_mul, Nat.one_mul] at hlt
  refine ⟨hpos, by omega, by omega⟩

lemma LaidOut.l2Count_isLeast (h : t.LaidOut) : IsLeast {n | t.EnoughNodes n} t.l2Count := by
  by_cases hl2 : t.setCount ≤ t.slots
  · have hzero : t.l2Count = 0 := if_pos hl2
    rw [hzero]
    exact ⟨⟨zero_le _, by omega⟩, fun _ _ => zero_le _⟩
  · obtain ⟨hpos, hupper, hlower⟩ := h.l2Count_spec (by omega)
    have hfits := h.fits
    refine ⟨⟨hfits, by omega⟩, ?_⟩
    rintro n ⟨hn, henough⟩
    by_contra hlt
    have hle : n * (t.slots - 1) ≤ (t.l2Count - 1) * (t.slots - 1) := Nat.mul_le_mul_right _ (by omega)
    rw [Nat.mul_sub, Nat.mul_one, Nat.sub_mul, Nat.one_mul, Nat.mul_sub, Nat.mul_one] at hle
    omega

/-- **The code's number of L2 nodes**, as long as the number of entry sets can be rounded up in 32 bits. -/
lemma LaidOut.getNodeL2Count_eq (h : t.LaidOut) (hsum : t.entryCount + (t.perSet - 1) < 2 ^ 31)
    (hsets : t.setCount ≤ t.slots ∨ t.setCount + (t.slots - 1) < 2 ^ 31) :
    getNodeL2Count t.nodeSize t.entrySize t.entryCount = ((t.l2Count : ℤ), true) := by
  have hfits := h.fits
  rw [getNodeL2Count, h.getEntrySetCount_eq hsum, h.getOffsetCount_eq]
  by_cases hl2 : t.setCount ≤ t.slots
  · have hzero : t.l2Count = 0 := if_pos hl2
    rw [if_pos (by omega), hzero]
    rfl
  · obtain ⟨hpos, hupper, hlower⟩ := h.l2Count_spec (by omega)
    have hsum' := hsets.resolve_left hl2
    rw [if_neg (by omega)]
    dsimp only
    rw [divideUp_eq (by omega) hsum']
    -- The first quotient is the number of L2 nodes or one more.
    obtain ⟨n, hn, hcases⟩ : ∃ n, (t.setCount + (t.slots - 1)) / t.slots = n ∧
        (n = t.l2Count ∧ t.setCount ≤ t.l2Count * t.slots ∨ n = t.l2Count + 1 ∧ t.l2Count * t.slots < t.setCount) := by
      by_cases hcase : t.setCount ≤ t.l2Count * t.slots
      · refine ⟨_, roundUp_eq (by omega) ?_ hcase hpos, .inl ⟨rfl, hcase⟩⟩
        rw [Nat.sub_mul, Nat.one_mul]
        omega
      · refine ⟨_, roundUp_eq (by omega) ?_ ?_ (succ_pos _), .inr ⟨rfl, by omega⟩⟩
        · rw [Nat.succ_eq_add_one, Nat.add_sub_cancel]
          omega
        · rw [Nat.succ_eq_add_one, Nat.add_mul, Nat.one_mul]
          omega
    have hcast : (t.setCount : ℤ) - ((t.slots : ℤ) - ((n : ℤ) - 1)) = ((t.setCount + n - 1 - t.slots : ℕ) : ℤ) := by omega
    have hsecond : (t.setCount + n - 1 - t.slots + (t.slots - 1)) / t.slots = t.l2Count := by
      refine roundUp_eq (by omega) ?_ (by omega) hpos
      rw [Nat.sub_mul, Nat.one_mul]
      omega
    rw [hn, hcast, divideUp_eq (by omega) (by omega), hsecond, decide_eq_true (by omega)]

/-- A number of L2 nodes that is rounded up in 32 bits and wraps is too small. -/
lemma LaidOut.getNodeL2Count_lt (h : t.LaidOut) (hsum : t.entryCount + (t.perSet - 1) < 2 ^ 31)
    (hl2 : t.slots < t.setCount) (hsets : 2 ^ 31 ≤ t.setCount + (t.slots - 1)) :
    (getNodeL2Count t.nodeSize t.entrySize t.entryCount).1 < t.l2Count := by
  have hslots := h.slots_range
  obtain ⟨hpos, hupper, hlower⟩ := h.l2Count_spec hl2
  have hle : t.setCount ≤ t.entryCount := by
    obtain ⟨hset, hlast, -⟩ := h.setCount_spec
    have := Nat.le_mul_of_pos_right (t.setCount - 1) h.perSet_pos
    omega
  -- The first quotient is negative.
  generalize hb : (2 ^ 32 - (t.setCount + (t.slots - 1))) / t.slots = b
  have hfirst : divideUp t.setCount t.slots = -(b : ℤ) := by
    have hcast : (t.setCount : ℤ) + ((t.slots : ℤ) - 1) = ((t.setCount + (t.slots - 1) : ℕ) : ℤ) := by omega
    have hneg : ((t.setCount + (t.slots - 1) : ℕ) : ℤ) - 2 ^ 32 = -((2 ^ 32 - (t.setCount + (t.slots - 1)) : ℕ) : ℤ) := by
      omega
    rw [divideUp, hcast, toS32_of_ge (by omega) (by omega), hneg, Int.neg_tdiv, Int.tdiv_eq_ediv_of_nonneg (by omega), ← hb]
    rfl
  have hbmul : b * t.slots ≤ 2 ^ 32 - (t.setCount + (t.slots - 1)) := by
    rw [← hb]
    exact div_mul_le_self _ _
  have hbmul' : 2 ^ 32 - (t.setCount + (t.slots - 1)) < b * t.slots + t.slots := by
    rw [← hb]
    exact lt_div_mul_add (by omega)
  have hbsmall : b * 126 ≤ b * t.slots := mul_le_mul_left _ hslots.1
  -- The second one is too small, since a node has less than 2 ^ 16 offsets.
  have hroom : t.slots < t.l2Count + b + 2 := by
    by_contra hnot
    have hsquare : (t.l2Count + b + 2) * t.slots ≤ 65534 * 65534 := Nat.mul_le_mul (by omega) hslots.2
    rw [Nat.add_mul, Nat.add_mul] at hsquare
    omega
  have hsecond : (t.setCount : ℤ) - ((t.slots : ℤ) - (-(b : ℤ) - 1)) = ((t.setCount - t.slots - b - 1 : ℕ) : ℤ) := by
    omega
  rw [getNodeL2Count, h.getEntrySetCount_eq hsum, h.getOffsetCount_eq, if_neg (by omega)]
  dsimp only
  rw [hfirst, hsecond, divideUp_eq (by omega) (by omega)]
  have hlt : (t.setCount - t.slots - b - 1 + (t.slots - 1)) / t.slots < t.l2Count :=
    (div_lt_iff_lt_mul (by omega)).2 (by omega)
  exact_mod_cast hlt

end Counts

/-! ## The layout -/

section Layout

variable {t : BucketTable}

def tree (t : BucketTable) : BucketTree :=
  ⟨t.nodeStorage, t.entryStorage, t.nodeSize, t.entrySize, t.entryCount, t.slots, t.setCount, t.entryOffset 0, t.endOffset⟩

@[simp] lemma tree_nodeStorage : t.tree.nodeStorage = t.nodeStorage := rfl

@[simp] lemma tree_entryStorage : t.tree.entryStorage = t.entryStorage := rfl

@[simp] lemma tree_nodeSize : t.tree.nodeSize = t.nodeSize := rfl

@[simp] lemma tree_entrySize : t.tree.entrySize = t.entrySize := rfl

@[simp] lemma tree_offsetCount : t.tree.offsetCount = t.slots := rfl

@[simp] lemma tree_entrySetCount : t.tree.entrySetCount = t.setCount := rfl

lemma verify_ok {header : NodeHeader} {nodeIndex : ℤ} {nodeSize entrySize count : ℕ} (hindex : header.index = nodeIndex)
    (hentry : 0 < entrySize) (hnode : entrySize + 0x10 ≤ nodeSize) (hcount : header.count = count) (hpos : 0 < count)
    (hle : count ≤ (nodeSize - NodeHeaderSize) / entrySize) (hoffset : 0 ≤ header.offset) :
    header.verify nodeIndex nodeSize entrySize = .ok () := by
  rw [NodeHeader.verify, if_neg (not_not.2 hindex), if_neg (not_not.2 ⟨by omega, by rw [NodeHeaderSize]; omega⟩),
    if_neg (not_not.2 ⟨by omega, by omega⟩), if_neg (not_not.2 hoffset)]

lemma LaidOut.sorted_sets (h : t.LaidOut) : SortedTo t.setStart t.setCount := by
  intro i j hij hj
  exact h.sorted _ _ (Nat.mul_le_mul_right _ hij) ((h.lt_setCount_iff j).1 hj)

variable {i : ℕ}

lemma LaidOut.setStart_nonneg (h : t.LaidOut) (hi : i < t.setCount) : 0 ≤ t.setStart i :=
  h.nonneg.trans (h.sorted 0 _ (zero_le _) ((h.lt_setCount_iff i).1 hi))

lemma LaidOut.setEnd_nonneg (h : t.LaidOut) (hi : i < t.setCount) : 0 ≤ t.setEnd i :=
  (h.setStart_nonneg hi).trans (h.setRange i hi).le

lemma setStart_zero (t : BucketTable) : t.setStart 0 = t.entryOffset 0 := by
  rw [setStart, Nat.zero_mul]

section

variable (h : t.LaidOut)
include h

lemma LaidOut.start_lt_end : t.entryOffset 0 < t.endOffset := by
  obtain ⟨hpos, -, -⟩ := h.setCount_spec
  have hlast := h.setRange (t.setCount - 1) (by omega)
  rw [setEnd, if_neg (by omega)] at hlast
  rw [← setStart_zero]
  exact (h.sorted_sets 0 (t.setCount - 1) (zero_le _) (by omega)).trans_lt hlast

lemma LaidOut.setSize_spec (hi : i < t.setCount) : 0 < t.setSize i ∧ t.setSize i ≤ t.perSet ∧
    i * t.perSet + t.setSize i ≤ t.entryCount ∧
    (i + 1 < t.setCount → t.setSize i = t.perSet) ∧ (t.setCount ≤ i + 1 → i * t.perSet + t.setSize i = t.entryCount) := by
  have hlt := (h.lt_setCount_iff i).1 hi
  have hpos := h.perSet_pos
  have hnext := h.lt_setCount_iff (i + 1)
  rw [Nat.add_mul, Nat.one_mul] at hnext
  have hsize : t.setSize i = min t.perSet (t.entryCount - i * t.perSet) := rfl
  refine ⟨by omega, by omega, by omega, ?_, ?_⟩
  · intro hi'
    omega
  · intro hi'
    omega

lemma LaidOut.verify_set (hi : i < t.setCount) :
    (nodeHeaderAt t.entryStorage (i * t.nodeSize)).verify i t.nodeSize t.entrySize = .ok () := by
  obtain ⟨hentry, hnode, -, -⟩ := h.sizes_le
  obtain ⟨hpos, hle, -, -, -⟩ := h.setSize_spec hi
  rw [h.sets i hi]
  exact verify_ok rfl (by omega) (by omega) rfl hpos hle (h.setEnd_nonneg hi)

/-- The L2 nodes: they are not empty, and all but the last one are full. -/
lemma LaidOut.nodeCount_spec (hl2 : t.slots < t.setCount) {j : ℕ} (hj : j < t.l2Count) :
    0 < t.nodeCount j ∧ t.nodeCount j ≤ t.slots ∧ t.spare + j * t.slots + t.nodeCount j ≤ t.setCount ∧
    (j + 1 < t.l2Count → t.nodeCount j = t.slots) ∧
    (t.l2Count ≤ j + 1 → t.spare + j * t.slots + t.nodeCount j = t.setCount) := by
  have hfits := h.fits
  obtain ⟨hpos, hupper, hlower⟩ := h.l2Count_spec hl2
  have hspare : t.spare + t.l2Count = t.slots := by
    rw [spare]
    omega
  have hcount : t.nodeCount j = min t.slots (t.setCount - t.spare - j * t.slots) := rfl
  have hmul : (j + 1) * t.slots ≤ t.l2Count * t.slots := Nat.mul_le_mul_right _ hj
  rw [Nat.add_mul, Nat.one_mul] at hmul
  refine ⟨by omega, by omega, by omega, ?_, ?_⟩
  · intro hj'
    have hnext : (j + 2) * t.slots ≤ t.l2Count * t.slots := Nat.mul_le_mul_right _ hj'
    rw [Nat.add_mul] at hnext
    omega
  · intro hj'
    have hlast : t.l2Count = j + 1 := by omega
    rw [hlast, Nat.add_mul, Nat.one_mul] at hupper
    omega

lemma LaidOut.l1Offset_zero : t.entryOffset 0 ≤ l1Offset t.nodeStorage 0 := by
  obtain ⟨hpos, -, -⟩ := h.setCount_spec
  rw [← setStart_zero]
  by_cases hl2 : t.setCount ≤ t.slots
  · rw [h.l1Sets hl2 0 hpos]
  · obtain ⟨hpos', -, -⟩ := h.l2Count_spec (by omega)
    rw [h.l1Nodes (by omega) 0 hpos', Nat.zero_mul, Nat.add_zero]
    exact h.sorted_sets _ _ (zero_le _) (by rw [spare]; omega)

lemma LaidOut.l1Count_spec : 0 < t.l1Count ∧ t.l1Count ≤ t.slots := by
  obtain ⟨hpos, -, -⟩ := h.setCount_spec
  rw [l1Count]
  split_ifs with hl2
  · exact ⟨hpos, hl2⟩
  · exact ⟨(h.l2Count_spec (by omega)).1, h.fits⟩

lemma LaidOut.verify_l1 : (nodeHeaderAt t.nodeStorage 0).verify 0 t.nodeSize OffsetSize = .ok () := by
  obtain ⟨-, -, hmin, -⟩ := h.sizes_le
  obtain ⟨hpos, hle⟩ := h.l1Count_spec
  rw [h.l1]
  exact verify_ok rfl (by rw [OffsetSize]; omega) (by rw [OffsetSize]; omega) rfl hpos hle (h.nonneg.trans h.start_lt_end.le)

/-- **A table that is laid out in the format is accepted.** -/
lemma LaidOut.initialize_eq (hsum : t.entryCount + (t.perSet - 1) < 2 ^ 31) :
    initializeTree t.nodeStorage t.entryStorage t.nodeSize t.entrySize t.entryCount = .ok t.tree := by
  have hcount := h.entryCount_pos
  obtain ⟨hpos, -, -⟩ := h.setCount_spec
  -- The start of the table is in the spare slots, if there are any.
  have hstart : (if (t.slots : ℤ) < t.setCount ∧ (t.l1Count : ℤ) < t.slots then l1Offset t.nodeStorage t.l1Count
      else l1Offset t.nodeStorage 0) = t.entryOffset 0 := by
    rw [← setStart_zero]
    by_cases hl2 : t.setCount ≤ t.slots
    · rw [if_neg (by omega), h.l1Sets hl2 0 hpos]
    · have hl1 : t.l1Count = t.l2Count := if_neg hl2
      have hspare : t.spare = t.slots - t.l2Count := rfl
      rw [hl1]
      by_cases hroom : t.l2Count < t.slots
      · rw [if_pos (by omega)]
        exact h.l1Spare (by omega) 0 (by omega)
      · have hzero := h.l1Nodes (by omega) 0 (h.l2Count_spec (by omega)).1
        rw [if_neg (by omega), hzero, hspare, Nat.sub_eq_zero_of_le (by omega), Nat.zero_mul, Nat.add_zero]
  rw [initializeTree, if_neg (by omega)]
  dsimp only
  rw [h.verify_l1, h.getOffsetCount_eq, h.getEntrySetCount_eq hsum, h.l1]
  rw [Int.toNat_natCast, hstart, if_neg (not_not.2 ⟨h.nonneg, h.l1Offset_zero⟩), if_neg (not_not.2 h.start_lt_end)]
  rfl

end

end Layout

/-! ## Lookup -/

section Lookup

variable {t : BucketTable} {va : ℤ}

lemma LaidOut.setCount_lt (h : t.LaidOut) : t.setCount < 2 ^ 31 := by
  obtain ⟨hset, hlast, -⟩ := h.setCount_spec
  have hcount := h.entryCount_lt
  have := Nat.le_mul_of_pos_right (t.setCount - 1) h.perSet_pos
  omega

def ReadInside (t : BucketTable) (r : BucketTree.Read) : Prop :=
  match r with
  | (.node, offset, size) => ((offset + size : ℕ) : ℤ) ≤ queryNodeStorageSize t.nodeSize t.entrySize t.entryCount
  | (.entry, offset, size) => ((offset + size : ℕ) : ℤ) ≤ queryEntryStorageSize t.nodeSize t.entrySize t.entryCount

/-- The counts can be rounded up in 32 bits. -/
def Countable (t : BucketTable) : Prop :=
  t.entryCount + (t.perSet - 1) < 2 ^ 31 ∧ (t.setCount ≤ t.slots ∨ t.setCount + (t.slots - 1) < 2 ^ 31)

variable {offset size k : ℕ}

lemma LaidOut.readInside_node (h : t.LaidOut) (hc : t.Countable)
    (hle : offset + size ≤ (1 + t.l2Count) * t.nodeSize) : t.ReadInside (.node, offset, size) := by
  have hcount := h.entryCount_pos
  rw [ReadInside, queryNodeStorageSize, if_neg (by omega), h.getNodeL2Count_eq hc.1 hc.2]
  dsimp only
  exact_mod_cast hle

lemma LaidOut.readInside_entry (h : t.LaidOut) (hc : t.Countable)
    (hle : offset + size ≤ t.setCount * t.nodeSize) : t.ReadInside (.entry, offset, size) := by
  have hcount := h.entryCount_pos
  rw [ReadInside, queryEntryStorageSize, if_neg (by omega), h.getEntrySetCount_eq hc.1]
  exact_mod_cast hle

/-- The entry set that an address is in. -/
def InSet (t : BucketTable) (va : ℤ) (i : ℕ) : Prop :=
  i < t.setCount ∧ t.setStart i ≤ va ∧ (i + 1 < t.setCount → va < t.setStart (i + 1))

lemma LaidOut.findEntrySet_spec (h : t.LaidOut) (hl2 : t.slots < t.setCount) {j : ℕ}
    (hj : j < t.l2Count) (hle : t.setStart (t.spare + j * t.slots) ≤ va)
    (hnext : j + 1 < t.l2Count → va < t.setStart (t.spare + (j + 1) * t.slots)) (v : Visitor) :
    ∃ i : ℕ, v.findEntrySet t.tree va j =
        .ok ({ v with reads := v.reads ++ [(.node, (j + 1) * t.nodeSize, t.nodeSize)] }, (i : ℤ)) ∧ t.InSet va i := by
  obtain ⟨hpos, hslots, hin, hfull, hlast⟩ := h.nodeCount_spec hl2 hj
  obtain ⟨nodeEnd, hnodeEnd, hheader⟩ := h.l2 hl2 j hj
  obtain ⟨-, -, hmin, -⟩ := h.sizes_le
  have hnonneg : (j : ℤ) + 1 = ((j + 1 : ℕ) : ℤ) := by omega
  have hverify : (nodeHeaderAt t.nodeStorage ((j + 1) * t.nodeSize)).verify j t.nodeSize OffsetSize = .ok () := by
    rw [hheader]
    exact verify_ok rfl (by rw [OffsetSize]; omega) (by rw [OffsetSize]; omega) rfl hpos hslots hnodeEnd
  have hsorted : SortedTo (fun k => t.setStart (t.spare + j * t.slots + k)) (t.nodeCount j) :=
    fun a b hab hb => h.sorted_sets _ _ (by omega) (by omega)
  obtain ⟨k, hfind, hcut⟩ := storageNodeFind_spec (fun pos => s64At t.nodeStorage ((j + 1) * t.nodeSize + pos)) _ va
    (by decide : 0 < OffsetSize) (h.l2Sets hl2 j hj) hsorted
  have hk : 0 < k := hcut.lt_of_le hpos (by simpa using hle)
  have hkle := hcut.le
  refine ⟨t.spare + j * t.slots + (k - 1), ?_, by omega, hcut.pred_le hk, ?_⟩
  · have hindex : t.tree.getEntrySetIndex j ((k : ℤ) - 1) = ((t.spare + j * t.slots + (k - 1) : ℕ) : ℤ) := by
      have hspare : t.spare = t.slots - t.l2Count := rfl
      have hfits := h.fits
      have hl1 : t.tree.nodeL1.count = t.l2Count := by
        show (nodeHeaderAt t.nodeStorage 0).count = _
        rw [h.l1, l1Count, if_neg (by omega)]
      show (t.slots : ℤ) - t.tree.nodeL1.count + t.slots * j + ((k : ℤ) - 1) = _
      rw [hl1]
      push_cast
      rw [mul_comm (j : ℤ)]
      omega
    have hsmall : toS32 (((t.spare + j * t.slots + (k - 1) : ℕ)) : ℤ) = ((t.spare + j * t.slots + (k - 1) : ℕ) : ℤ) := by
      have hcount := h.setCount_lt
      exact toS32_of_range (by omega) (by omega)
    rw [hheader] at hverify
    simp only [Visitor.findEntrySet, tree_nodeStorage, tree_nodeSize, hnonneg, Int.toNat_natCast, hheader, hverify]
    rw [hfind, if_neg (by omega), hindex, hsmall]
  · intro hi
    by_cases hmore : k < t.nodeCount j
    · have := hcut.high k (le_refl k) hmore
      rwa [show t.spare + j * t.slots + (k - 1) + 1 = t.spare + j * t.slots + k by omega]
    · have hk' : k = t.nodeCount j := by omega
      by_cases hj' : j + 1 < t.l2Count
      · rw [show t.spare + j * t.slots + (k - 1) + 1 = t.spare + (j + 1) * t.slots by
          rw [Nat.add_mul, Nat.one_mul, ← hfull hj']; omega]
        exact hnext hj'
      · have := hlast (by omega)
        omega

lemma isExistL2_iff : t.tree.isExistL2 = true ↔ t.slots < t.setCount := by
  rw [isExistL2, decide_eq_true_iff, tree_offsetCount, tree_entrySetCount]
  omega

lemma LaidOut.isExistOffsetL2OnL1_iff (h : t.LaidOut) :
    t.tree.isExistOffsetL2OnL1 = true ↔ t.slots < t.setCount ∧ t.l2Count < t.slots := by
  have hl1 : t.tree.nodeL1.count = t.l1Count := congrArg NodeHeader.count h.l1
  rw [isExistOffsetL2OnL1, Bool.and_eq_true, isExistL2_iff, decide_eq_true_iff, tree_offsetCount, hl1]
  constructor
  · rintro ⟨hl2, hlt⟩
    rw [l1Count, if_neg (by omega)] at hlt
    exact ⟨hl2, by omega⟩
  · rintro ⟨hl2, hlt⟩
    rw [l1Count, if_neg (by omega)]
    exact ⟨hl2, by omega⟩

/-- The reads of a visitor are inside of the storages. -/
def ReadsInside (t : BucketTable) (v : Visitor) : Prop := ∀ r ∈ v.reads, t.ReadInside r

variable {v : Visitor}

lemma readsInside_append {reads : List BucketTree.Read} {r : BucketTree.Read} (h : ∀ r ∈ reads, t.ReadInside r)
    (hr : t.ReadInside r) (hv : v.reads = reads ++ [r]) : t.ReadsInside v := by
  intro r' hmem
  rw [hv, List.mem_append, List.mem_singleton] at hmem
  rcases hmem with hmem | rfl
  · exact h r' hmem
  · exact hr

/-- **The entry set that an address is in** is found by the offsets in the L1 node, its spare slots and the L2 nodes. -/
lemma LaidOut.findEntrySetIndex_spec (h : t.LaidOut) (hc : t.Countable) (hstart : t.entryOffset 0 ≤ va) :
    ∃ (v : Visitor) (i : ℕ), Visitor.new.findEntrySetIndex t.tree va = .ok (v, (i : ℤ)) ∧ t.InSet va i ∧ t.ReadsInside v := by
  have hfits := h.fits
  have hspare : t.spare = t.slots - t.l2Count := rfl
  have hnew : t.ReadsInside Visitor.new := fun r hr => absurd hr List.not_mem_nil
  have hsorted := h.sorted_sets
  obtain ⟨hpos, -, -⟩ := h.setCount_spec
  rw [← setStart_zero] at hstart
  have hl1 : t.tree.nodeL1 = ⟨0, t.l1Count, t.endOffset⟩ := h.l1
  rw [Visitor.findEntrySetIndex]
  simp only [hl1, h.isExistOffsetL2OnL1_iff, isExistL2_iff, tree_offsetCount, tree_nodeStorage, Int.toNat_natCast]
  by_cases hl2 : t.setCount ≤ t.slots
  · -- All entry sets are in the L1 node.
    have hl1Count : t.l1Count = t.setCount := if_pos hl2
    obtain ⟨k, hk, hcut⟩ := upperBound_spec (l1Offset t.nodeStorage) t.setStart va 0 t.setCount
      (fun i hi => by rw [zero_add]; exact h.l1Sets hl2 i hi) hsorted
    have hkpos : 0 < k := hcut.lt_of_le hpos hstart
    have hkle := hcut.le
    rw [hl1Count, hk, zero_add, if_neg (fun hin => absurd hin.1.1 (by omega)), if_neg (by omega), if_neg (by omega)]
    refine ⟨Visitor.new, k - 1, rfl, ⟨by omega, hcut.pred_le hkpos, ?_⟩, hnew⟩
    intro hi
    exact hcut.high _ (by omega) hi
  · have hl2' : t.slots < t.setCount := by omega
    have hl1Count : t.l1Count = t.l2Count := if_neg hl2
    obtain ⟨hl2pos, -, -⟩ := h.l2Count_spec hl2'
    have hfirst : l1Offset t.nodeStorage 0 = t.setStart t.spare := by
      rw [h.l1Nodes hl2' 0 hl2pos, Nat.zero_mul, Nat.add_zero]
    rw [hl1Count, hfirst]
    by_cases hin : (t.slots < t.setCount ∧ t.l2Count < t.slots) ∧ va < t.setStart t.spare
    · -- The spare slots.
      have hcount : ((t.slots : ℤ) - (t.l2Count : ℤ)).toNat = t.spare := by omega
      obtain ⟨k, hk, hcut⟩ := upperBound_spec (l1Offset t.nodeStorage) t.setStart va t.l2Count t.spare
        (h.l1Spare hl2') (fun i j hij hj => hsorted i j hij (by omega))
      have hroom := hin.1.2
      have hkpos : 0 < k := hcut.lt_of_le (by omega) hstart
      have hkle := hcut.le
      rw [if_pos hin, hcount, hk, if_neg (by omega)]
      refine ⟨Visitor.new, k - 1, by rw [show t.l2Count + k - 1 - t.l2Count = k - 1 by omega],
        ⟨by omega, hcut.pred_le hkpos, ?_⟩, hnew⟩
      intro hi
      rw [Nat.sub_add_cancel hkpos]
      by_cases hlast : k < t.spare
      · exact hcut.high _ (le_refl k) hlast
      · rw [show k = t.spare by omega]
        exact hin.2
    · -- The L2 nodes.
      have hge : t.setStart t.spare ≤ va := by
        by_cases hroom : t.l2Count < t.slots
        · by_contra hlt
          exact hin ⟨⟨hl2', hroom⟩, not_le.1 hlt⟩
        · rw [show t.spare = 0 by omega]
          exact hstart
      have hnodes : SortedTo (fun j => t.setStart (t.spare + j * t.slots)) t.l2Count := by
        intro i j hij hj
        have := h.nodeCount_spec hl2' hj
        exact hsorted _ _ (Nat.add_le_add_left (Nat.mul_le_mul_right _ hij) _) (by omega)
      obtain ⟨k, hk, hcut⟩ := upperBound_spec (l1Offset t.nodeStorage) _ va 0 t.l2Count
        (fun j hj => by rw [zero_add]; exact h.l1Nodes hl2' j hj) hnodes
      have hkpos : 0 < k := hcut.lt_of_le hl2pos (by simpa using hge)
      have hkle := hcut.le
      rw [if_neg hin, hk, zero_add, if_neg (by omega), if_pos hl2', if_neg (by omega)]
      have hnext : k - 1 + 1 < t.l2Count → va < t.setStart (t.spare + (k - 1 + 1) * t.slots) := by
        intro hlt
        exact hcut.high _ (by omega) hlt
      obtain ⟨i, hfind, hset⟩ := h.findEntrySet_spec hl2' (by omega : k - 1 < t.l2Count) (hcut.pred_le hkpos) hnext
        Visitor.new
      refine ⟨_, i, hfind, hset, readsInside_append (r := (.node, (k - 1 + 1) * t.nodeSize, t.nodeSize)) hnew ?_ rfl⟩
      refine h.readInside_node hc ?_
      rw [Nat.sub_add_cancel hkpos, ← succ_mul, Nat.succ_eq_add_one]
      exact Nat.mul_le_mul_right _ (by omega)

/-- **A visitor is at an entry.** -/
structure AtEntry (t : BucketTable) (v : Visitor) (i : ℕ) : Prop where
  lt : i < t.entryCount
  entry : v.entry = t.tree.entryBytes (t.entryPosition i)
  entryIndex : v.entryIndex = (i % t.perSet : ℕ)
  entrySet : v.entrySet = ⟨(i / t.perSet : ℕ), t.setSize (i / t.perSet), t.setEnd (i / t.perSet), t.setStart (i / t.perSet)⟩
  entrySetCount : v.entrySetCount = t.setCount
  reads : t.ReadsInside v

/-- The last entry whose offset is not greater than an address. -/
def LastEntry (t : BucketTable) (va : ℤ) (i : ℕ) : Prop :=
  i < t.entryCount ∧ t.entryOffset i ≤ va ∧ ∀ j, i < j → j < t.entryCount → va < t.entryOffset j

lemma LaidOut.divMod (h : t.LaidOut) {i : ℕ} (hk : k < t.perSet) :
    (i * t.perSet + k) / t.perSet = i ∧ (i * t.perSet + k) % t.perSet = k := by
  rw [mul_comm]
  exact ⟨by rw [mul_add_div h.perSet_pos, div_eq_of_lt hk, Nat.add_zero], by rw [mul_add_mod, mod_eq_of_lt hk]⟩

lemma LaidOut.entryPosition_eq (h : t.LaidOut) {i : ℕ} (hk : k < t.perSet) :
    t.entryPosition (i * t.perSet + k) = i * t.nodeSize + NodeHeaderSize + k * t.entrySize := by
  rw [entryPosition, (h.divMod hk).1, (h.divMod hk).2]

variable {i : ℕ}

section

variable (h : t.LaidOut)
include h

lemma LaidOut.entrySetInfoAt_eq (hi : i < t.setCount) :
    entrySetInfoAt t.entryStorage (i * t.nodeSize) = ⟨i, t.setSize i, t.setEnd i, t.setStart i⟩ := by
  have hheader := h.sets i hi
  have hstart := h.entries _ ((h.lt_setCount_iff i).1 hi)
  have hposition := h.entryPosition_eq (i := i) h.perSet_pos
  rw [Nat.zero_mul, Nat.add_zero, Nat.add_zero] at hposition
  rw [hposition] at hstart
  rw [nodeHeaderAt, NodeHeader.mk.injEq] at hheader
  rw [entrySetInfoAt, EntrySetInfo.mk.injEq]
  exact ⟨hheader.1, hheader.2.1, hheader.2.2, hstart⟩

variable {s : ℕ}

lemma LaidOut.entry_inside {i : ℕ} (hi : i < t.setCount) (hk : k < t.perSet) :
    i * t.nodeSize + NodeHeaderSize + k * t.entrySize + t.entrySize ≤ t.setCount * t.nodeSize := by
  obtain ⟨-, hnode, -, -⟩ := h.sizes_le
  have hset : (i + 1) * t.nodeSize ≤ t.setCount * t.nodeSize := Nat.mul_le_mul_right _ hi
  have hentries : (k + 1) * t.entrySize ≤ t.perSet * t.entrySize := Nat.mul_le_mul_right _ hk
  have hfit : t.perSet * t.entrySize ≤ t.nodeSize - NodeHeaderSize := div_mul_le_self _ _
  rw [Nat.add_mul, Nat.one_mul] at hset hentries
  have hheader : NodeHeaderSize = 0x10 := rfl
  omega

lemma LaidOut.findEntry_spec (hc : t.Countable) (hset : t.InSet va i)
    (hv : t.ReadsInside v) : ∃ (v' : Visitor) (e : ℕ), v.findEntry t.tree va i = .ok v' ∧
      t.AtEntry { v' with entrySetCount := t.setCount } e ∧ t.LastEntry va e := by
  obtain ⟨hi, hle, hnext⟩ := hset
  obtain ⟨hentrySize, -, -, -⟩ := h.sizes_le
  obtain ⟨hpos, hsize, hin, hfull, hlast⟩ := h.setSize_spec hi
  have hverify := h.verify_set hi
  rw [h.sets i hi] at hverify
  have hsorted : SortedTo (fun k => t.entryOffset (i * t.perSet + k)) (t.setSize i) :=
    fun a b hab hb => h.sorted _ _ (by omega) (by omega)
  have hread : ∀ k < t.setSize i, s64At t.entryStorage (i * t.nodeSize + (NodeHeaderSize + k * t.entrySize)) =
      t.entryOffset (i * t.perSet + k) := by
    intro k hk
    rw [← h.entries _ (by omega), h.entryPosition_eq (by omega), add_assoc]
  obtain ⟨k, hfind, hcut⟩ := storageNodeFind_spec (fun pos => s64At t.entryStorage (i * t.nodeSize + pos)) _ va
    (by omega : 0 < t.entrySize) hread hsorted
  have hkpos : 0 < k := hcut.lt_of_le hpos (by simpa [setStart] using hle)
  have hkle := hcut.le
  have hdivMod := h.divMod (i := i) (by omega : k - 1 < t.perSet)
  have hindex : (k : ℤ) - 1 = ((k - 1 : ℕ) : ℤ) := by omega
  have hfound : v.findEntry t.tree va i = .ok { v with
      entry := t.tree.entryBytes (getBucketTreeEntryOffset (i * t.nodeSize) t.entrySize (k - 1 : ℕ))
      entryIndex := (k - 1 : ℕ)
      entrySet := ⟨i, t.setSize i, t.setEnd i, t.setStart i⟩
      reads := v.reads ++ [(.entry, i * t.nodeSize, t.nodeSize)] } := by
    simp only [Visitor.findEntry, tree_entryStorage, tree_nodeSize, tree_entrySize, Int.toNat_natCast,
      h.entrySetInfoAt_eq hi, EntrySetInfo.header, hverify]
    rw [hfind, hindex, if_neg (by omega)]
  refine ⟨_, i * t.perSet + (k - 1), hfound, ?_, ?_⟩
  · refine ⟨by omega, ?_, ?_, ?_, rfl, ?_⟩
    · rw [h.entryPosition_eq (by omega)]
      rfl
    · rw [hdivMod.2]
    · rw [hdivMod.1]
    · refine readsInside_append hv (h.readInside_entry hc ?_) rfl
      rw [← succ_mul]
      exact Nat.mul_le_mul_right _ hi
  · refine ⟨by omega, hcut.pred_le hkpos, ?_⟩
    intro j hj hlt
    by_cases hmore : k < t.setSize i
    · exact (hcut.high k (le_refl k) hmore).trans_le (h.sorted _ _ (by omega) hlt)
    · by_cases hset : i + 1 < t.setCount
      · refine (hnext hset).trans_le (h.sorted _ _ ?_ hlt)
        rw [Nat.add_mul, Nat.one_mul]
        omega
      · have := hlast (by omega)
        omega

lemma LaidOut.find_spec (hc : t.Countable) (hstart : t.entryOffset 0 ≤ va) (hend : va < t.endOffset) :
    ∃ (v : Visitor) (i : ℕ), t.tree.find va = .ok v ∧ t.AtEntry v i ∧ t.LastEntry va i := by
  obtain ⟨hentrySize, -, -, -⟩ := h.sizes_le
  have hnonneg := h.nonneg
  obtain ⟨v, s, hfindSet, hset, hv⟩ := h.findEntrySetIndex_spec hc hstart
  obtain ⟨v', i, hfind, hat, hlast⟩ := h.findEntry_spec hc hset hv
  refine ⟨_, i, ?_, hat, hlast⟩
  have hl1 : t.tree.nodeL1.offset = t.endOffset := congrArg NodeHeader.offset h.l1
  have hsetLt := hset.1
  rw [BucketTree.find, if_neg (by omega), if_neg (by rw [tree_entrySize]; omega), Visitor.find, hl1, if_neg (by omega)]
  have hin : ¬ ¬ (0 ≤ (s : ℤ) ∧ (s : ℤ) < t.tree.entrySetCount) :=
    not_not.2 ⟨by omega, by rw [tree_entrySetCount]; omega⟩
  simp only [hfindSet, if_neg hin, hfind]
  rfl

lemma LaidOut.exists_set (hi : i < t.entryCount) : ∃ s k, i = s * t.perSet + k ∧ s < t.setCount ∧ k < t.setSize s := by
  have hmod := mod_lt i h.perSet_pos
  have hdiv : i = i / t.perSet * t.perSet + i % t.perSet := by
    rw [mul_comm]
    exact (div_add_mod i t.perSet).symm
  have hset : i / t.perSet < t.setCount := (h.lt_setCount_iff _).2 (by omega)
  obtain ⟨-, -, -, hfull, hlast⟩ := h.setSize_spec hset
  refine ⟨_, _, hdiv, hset, ?_⟩
  by_cases hnext : i / t.perSet + 1 < t.setCount
  · rw [hfull hnext]
    exact hmod
  · have := hlast (by omega)
    omega

lemma LaidOut.atEntry_iff (hs : s < t.setCount) (hk : k < t.setSize s) :
    t.AtEntry v (s * t.perSet + k) ↔
      v.entry = t.tree.entryBytes (s * t.nodeSize + NodeHeaderSize + k * t.entrySize) ∧ v.entryIndex = k ∧
      v.entrySet = ⟨s, t.setSize s, t.setEnd s, t.setStart s⟩ ∧ v.entrySetCount = t.setCount ∧ t.ReadsInside v := by
  obtain ⟨-, hsize, hin, -, -⟩ := h.setSize_spec hs
  have hk' : k < t.perSet := by omega
  constructor
  · rintro ⟨-, hentry, hindex, hset, hcount, hreads⟩
    rw [h.entryPosition_eq hk'] at hentry
    rw [(h.divMod hk').2] at hindex
    rw [(h.divMod hk').1] at hset
    exact ⟨hentry, hindex, hset, hcount, hreads⟩
  · rintro ⟨hentry, hindex, hset, hcount, hreads⟩
    refine ⟨by omega, ?_, ?_, ?_, hcount, hreads⟩
    · rw [h.entryPosition_eq hk', hentry]
    · rw [(h.divMod hk').2, hindex]
    · rw [(h.divMod hk').1, hset]

lemma LaidOut.readEntry_spec (hc : t.Countable) (hs : s < t.setCount)
    (hk : k < t.setSize s) (hset : v.entrySet = ⟨s, t.setSize s, t.setEnd s, t.setStart s⟩)
    (hcount : v.entrySetCount = t.setCount) (hreads : t.ReadsInside v) :
    t.AtEntry (v.readEntry t.tree k) (s * t.perSet + k) := by
  obtain ⟨-, hsize, -, -, -⟩ := h.setSize_spec hs
  have hposition : getBucketTreeEntryOffset (v.entrySet.index.toNat * t.nodeSize) t.entrySize k =
      s * t.nodeSize + NodeHeaderSize + k * t.entrySize := by
    rw [hset, getBucketTreeEntryOffset, Int.toNat_natCast, Int.toNat_natCast]
  rw [h.atEntry_iff hs hk]
  refine ⟨congrArg t.tree.entryBytes hposition, rfl, hset, hcount, ?_⟩
  refine readsInside_append hreads ?_ rfl
  rw [tree_nodeSize, tree_entrySize, hposition]
  exact h.readInside_entry hc (h.entry_inside hs (by omega))

lemma LaidOut.readEntrySet_spec (hc : t.Countable) (hs : s < t.setCount) (hreads : t.ReadsInside v) :
    (v.readEntrySet t.tree s).2 = ⟨s, t.setSize s, t.setEnd s, t.setStart s⟩ ∧
    (v.readEntrySet t.tree s).2.header.verify s t.nodeSize t.entrySize = .ok () ∧
    (v.readEntrySet t.tree s).1.entrySetCount = v.entrySetCount ∧ t.ReadsInside (v.readEntrySet t.tree s).1 := by
  obtain ⟨-, -, hmin, -⟩ := h.sizes_le
  have hinfo : (v.readEntrySet t.tree s).2 = ⟨s, t.setSize s, t.setEnd s, t.setStart s⟩ := by
    rw [Visitor.readEntrySet, Int.toNat_natCast]
    exact h.entrySetInfoAt_eq hs
  have hverify := h.verify_set hs
  rw [h.sets s hs] at hverify
  refine ⟨hinfo, ?_, rfl, ?_⟩
  · rw [hinfo]
    exact hverify
  · refine readsInside_append hreads (h.readInside_entry hc ?_) rfl
    have hset : (s + 1) * t.nodeSize ≤ t.setCount * t.nodeSize := Nat.mul_le_mul_right _ hs
    rw [Nat.add_mul, Nat.one_mul] at hset
    rw [Int.toNat_natCast, tree_nodeSize, EntrySetHeaderSize]
    omega

lemma LaidOut.moveNext_of_lt (hc : t.Countable) (hat : t.AtEntry v i)
    (hi : i + 1 < t.entryCount) : ∃ v', v.moveNext t.tree = .ok v' ∧ t.AtEntry v' (i + 1) := by
  obtain ⟨s, k, rfl, hs, hk⟩ := h.exists_set hat.lt
  obtain ⟨-, hindex, hset, hcount, hreads⟩ := (h.atEntry_iff hs hk).1 hat
  obtain ⟨-, -, -, hfull, hlast⟩ := h.setSize_spec hs
  have hvalid : ¬ v.isValid = false := by
    rw [Visitor.isValid, hindex]
    simp
  have hend : v.entrySet.end' = t.setEnd s := by rw [hset]
  rw [Visitor.moveNext, if_neg hvalid]
  dsimp only
  rw [hindex, show v.entrySet.count = t.setSize s by rw [hset], show v.entrySet.index = s by rw [hset], hcount]
  by_cases hmore : k + 1 = t.setSize s
  · -- The first entry of the next entry set.
    have hnext : s + 1 < t.setCount := by
      by_contra hnot
      omega
    have hentry : s * t.perSet + k + 1 = (s + 1) * t.perSet + 0 := by
      rw [Nat.add_mul, Nat.one_mul, ← hfull hnext]
      omega
    have hend' : t.setEnd s = t.setStart (s + 1) := if_pos hnext
    have hcast : (s : ℤ) + 1 = ((s + 1 : ℕ) : ℤ) := by omega
    obtain ⟨hpos', -, -, -, -⟩ := h.setSize_spec hnext
    obtain ⟨hinfo, hverify, hcount', hreads'⟩ := h.readEntrySet_spec hc hnext hreads
    have hrange : (v.readEntrySet t.tree (s + 1 : ℕ)).2.start = v.entrySet.end' ∧
        (v.readEntrySet t.tree (s + 1 : ℕ)).2.start < (v.readEntrySet t.tree (s + 1 : ℕ)).2.end' := by
      rw [hinfo, hend]
      exact ⟨hend'.symm, h.setRange _ hnext⟩
    rw [if_pos (by omega), if_neg (by omega), hcast, tree_nodeSize, tree_entrySize, hverify]
    rw [if_neg (not_not.2 hrange), hinfo, hentry]
    exact ⟨_, rfl, h.readEntry_spec hc hnext hpos' rfl (hcount'.trans hcount) hreads'⟩
  · rw [if_neg (by omega)]
    exact ⟨_, rfl, h.readEntry_spec hc hs (by omega : k + 1 < t.setSize s) hset hcount hreads⟩

lemma LaidOut.moveNext_last (hat : t.AtEntry v i) (hi : i + 1 = t.entryCount) :
    v.moveNext t.tree = .error .outOfRange := by
  obtain ⟨s, k, rfl, hs, hk⟩ := h.exists_set hat.lt
  obtain ⟨-, hindex, hset, hcount, -⟩ := (h.atEntry_iff hs hk).1 hat
  obtain ⟨-, hsize, hin, -, -⟩ := h.setSize_spec hs
  have hvalid : ¬ v.isValid = false := by
    rw [Visitor.isValid, hindex]
    simp
  have hnext : ¬ s + 1 < t.setCount := by
    rw [h.lt_setCount_iff, Nat.add_mul, Nat.one_mul]
    omega
  rw [Visitor.moveNext, if_neg hvalid]
  rw [hindex, show v.entrySet.count = t.setSize s by rw [hset], show v.entrySet.index = s by rw [hset], hcount,
    if_pos (by omega), if_pos (by omega)]

lemma LaidOut.movePrevious_succ (hc : t.Countable) (hat : t.AtEntry v (i + 1)) :
    ∃ v', v.movePrevious t.tree = .ok v' ∧ t.AtEntry v' i := by
  obtain ⟨s, k, heq, hs, hk⟩ := h.exists_set hat.lt
  rw [heq] at hat
  obtain ⟨-, hindex, hset, hcount, hreads⟩ := (h.atEntry_iff hs hk).1 hat
  have hvalid : ¬ v.isValid = false := by
    rw [Visitor.isValid, hindex]
    simp
  have hstart : v.entrySet.start = t.setStart s := by rw [hset]
  rw [Visitor.movePrevious, if_neg hvalid, hindex, show v.entrySet.index = s by rw [hset]]
  cases k with
  | zero =>
    -- The last entry of the previous entry set.
    obtain ⟨p, rfl⟩ : ∃ p, s = p + 1 := ⟨s - 1, by
      have : s ≠ 0 := by
        rintro rfl
        omega
      omega⟩
    have hp : p < t.setCount := by omega
    obtain ⟨hpos, -, -, hfull, -⟩ := h.setSize_spec hp
    have hentry : i = p * t.perSet + (t.setSize p - 1) := by
      rw [Nat.add_mul, Nat.one_mul] at heq
      omega
    have hend : t.setEnd p = t.setStart (p + 1) := if_pos hs
    have hcast : ((p + 1 : ℕ) : ℤ) - 1 = (p : ℤ) := by omega
    obtain ⟨hinfo, hverify, hcount', hreads'⟩ := h.readEntrySet_spec hc hp hreads
    have hrange : (v.readEntrySet t.tree p).2.end' = v.entrySet.start ∧
        (v.readEntrySet t.tree p).2.start < (v.readEntrySet t.tree p).2.end' := by
      rw [hinfo, hstart]
      exact ⟨hend, h.setRange _ hp⟩
    have hlastIndex : (t.setSize p : ℤ) - 1 = ((t.setSize p - 1 : ℕ) : ℤ) := by omega
    rw [if_pos (by omega), if_neg (by omega)]
    dsimp only
    rw [hcast, tree_nodeSize, tree_entrySize, hverify]
    rw [if_neg (not_not.2 hrange), hinfo, hentry]
    rw [hlastIndex]
    exact ⟨_, rfl, h.readEntry_spec hc hp (by omega) rfl (hcount'.trans hcount) hreads'⟩
  | succ k =>
    have hcast : ((k + 1 : ℕ) : ℤ) - 1 = (k : ℤ) := by omega
    obtain rfl : i = s * t.perSet + k := by omega
    rw [if_neg (by omega), hcast]
    exact ⟨_, rfl, h.readEntry_spec hc hs (by omega) hset hcount hreads⟩

end

lemma movePrevious_zero (hat : t.AtEntry v 0) : v.movePrevious t.tree = .error .outOfRange := by
  have hindex : v.entryIndex = 0 := by
    rw [hat.entryIndex, zero_mod]
    rfl
  have hset : v.entrySet.index = 0 := by
    rw [hat.entrySet, Nat.zero_div]
    rfl
  have hvalid : ¬ v.isValid = false := by
    rw [Visitor.isValid, hindex]
    decide
  rw [Visitor.movePrevious, if_neg hvalid, if_pos hindex, if_pos (by omega)]

def moveNextTimes (t : BucketTree) : (n : ℕ) → Visitor → Except Error Visitor
  | 0, v => .ok v
  | n + 1, v => (v.moveNext t).bind (moveNextTimes t n)

def movePreviousTimes (t : BucketTree) : (n : ℕ) → Visitor → Except Error Visitor
  | 0, v => .ok v
  | n + 1, v => (v.movePrevious t).bind (movePreviousTimes t n)

lemma LaidOut.moveNextTimes_spec (h : t.LaidOut) (hc : t.Countable) (n : ℕ) : ∀ {v : Visitor} {i : ℕ}, t.AtEntry v i →
    (i + n < t.entryCount → ∃ v', moveNextTimes t.tree n v = .ok v' ∧ t.AtEntry v' (i + n)) ∧
    (i + n = t.entryCount → moveNextTimes t.tree n v = .error .outOfRange) := by
  induction n with
  | zero =>
    intro v i hat
    exact ⟨fun _ => ⟨v, rfl, hat⟩, fun hi => absurd hi (by have := hat.lt; omega)⟩
  | succ n ih =>
    intro v i hat
    rw [moveNextTimes]
    by_cases hi : i + 1 < t.entryCount
    · obtain ⟨v', hmove, hat'⟩ := h.moveNext_of_lt hc hat hi
      rw [hmove, show i + (n + 1) = i + 1 + n by omega]
      exact ih hat'
    · have hlt := hat.lt
      rw [h.moveNext_last hat (by omega)]
      exact ⟨fun hlt => absurd hlt (by omega), fun _ => rfl⟩

lemma LaidOut.movePreviousTimes_spec (h : t.LaidOut) (hc : t.Countable) (n : ℕ) : ∀ {v : Visitor} {i : ℕ}, t.AtEntry v i →
    (n ≤ i → ∃ v', movePreviousTimes t.tree n v = .ok v' ∧ t.AtEntry v' (i - n)) ∧
    (n = i + 1 → movePreviousTimes t.tree n v = .error .outOfRange) := by
  induction n with
  | zero =>
    intro v i hat
    exact ⟨fun _ => ⟨v, rfl, hat⟩, fun hi => absurd hi (by omega)⟩
  | succ n ih =>
    intro v i hat
    rw [movePreviousTimes]
    cases i with
    | zero =>
      rw [movePrevious_zero hat]
      exact ⟨fun hle => absurd hle (by omega), fun _ => rfl⟩
    | succ i =>
      obtain ⟨v', hmove, hat'⟩ := h.movePrevious_succ hc hat
      have hrest := ih hat'
      rw [hmove]
      refine ⟨fun hle => ?_, fun heq => hrest.2 (by omega)⟩
      rw [show i + 1 - (n + 1) = i - n by omega]
      exact hrest.1 (by omega)

/-- **What a lookup has to do.**  The table is accepted.  `Find` positions the visitor on the last entry whose offset is not
greater than an address of the table, from where `MoveNext` and `MovePrevious` enumerate the entries up to the end and the
start.  The number of L2 nodes is the least one that is enough, and every read is inside of the storages. -/
structure Exact (t : BucketTable) : Prop where
  accepted : ∃ tree, initializeTree t.nodeStorage t.entryStorage t.nodeSize t.entrySize t.entryCount = .ok tree ∧
    tree.startOffset = t.entryOffset 0 ∧ tree.endOffset = t.endOffset ∧
    (∀ r ∈ initializeReads t.nodeSize, t.ReadInside r) ∧
    ∀ va, t.entryOffset 0 ≤ va → va < t.endOffset → ∃ v i, tree.find va = .ok v ∧ t.AtEntry v i ∧ t.LastEntry va i ∧
      (∀ n, i + n < t.entryCount → ∃ v', moveNextTimes tree n v = .ok v' ∧ t.AtEntry v' (i + n)) ∧
      moveNextTimes tree (t.entryCount - i) v = .error .outOfRange ∧
      (∀ n ≤ i, ∃ v', movePreviousTimes tree n v = .ok v' ∧ t.AtEntry v' (i - n)) ∧
      movePreviousTimes tree (i + 1) v = .error .outOfRange
  least : ∃ n : ℕ, getNodeL2Count t.nodeSize t.entrySize t.entryCount = ((n : ℤ), true) ∧ IsLeast {n | t.EnoughNodes n} n

lemma LaidOut.exact_of_countable (h : t.LaidOut) (hc : t.Countable) : t.Exact := by
  refine ⟨⟨t.tree, h.initialize_eq hc.1, rfl, rfl, ?_, ?_⟩, t.l2Count, h.getNodeL2Count_eq hc.1 hc.2, h.l2Count_isLeast⟩
  · intro r hr
    obtain rfl : r = (.node, 0, t.nodeSize) := by simpa [initializeReads] using hr
    refine h.readInside_node hc ?_
    rw [zero_add, Nat.add_mul, Nat.one_mul]
    exact le_add_right _ _
  · intro va hstart hend
    obtain ⟨v, i, hfind, hat, hlast⟩ := h.find_spec hc hstart hend
    have hlt := hat.lt
    refine ⟨v, i, hfind, hat, hlast, fun n hn => (h.moveNextTimes_spec hc n hat).1 hn,
      (h.moveNextTimes_spec hc _ hat).2 (by omega), fun n hn => (h.movePreviousTimes_spec hc n hat).1 hn,
      (h.movePreviousTimes_spec hc _ hat).2 rfl⟩

lemma LaidOut.getEntrySetCount_nonpos (h : t.LaidOut) (hsum : 2 ^ 31 ≤ t.entryCount + (t.perSet - 1)) :
    getEntrySetCount t.nodeSize t.entrySize t.entryCount ≤ 0 := by
  have hcount := h.entryCount_lt
  have hlt := h.perSet_lt
  have hcast : (t.entryCount : ℤ) + ((t.perSet : ℤ) - 1) = ((t.entryCount + (t.perSet - 1) : ℕ) : ℤ) := by omega
  have hneg : ((t.entryCount + (t.perSet - 1) : ℕ) : ℤ) - 2 ^ 32 =
      -((2 ^ 32 - (t.entryCount + (t.perSet - 1)) : ℕ) : ℤ) := by omega
  rw [getEntrySetCount, h.getEntryCount_eq, divideUp, hcast, toS32_of_ge (by omega) (by omega), hneg, Int.neg_tdiv,
    Int.tdiv_eq_ediv_of_nonneg (by omega)]
  have : 0 ≤ ((2 ^ 32 - (t.entryCount + (t.perSet - 1)) : ℕ) : ℤ) / (t.perSet : ℤ) := Int.ediv_nonneg (by omega) (by omega)
  omega

variable {tree : BucketTree}

lemma entrySetCount_pos_of_find (hfind : tree.find va = .ok v) : 0 < tree.entrySetCount := by
  rw [BucketTree.find] at hfind
  split_ifs at hfind
  rw [Visitor.find] at hfind
  split_ifs at hfind
  split at hfind
  · cases hfind
  · split_ifs at hfind with hindex
    omega

lemma entrySetCount_of_success {nodeStorage entryStorage : ℕ → Byte} {nodeSize entrySize : ℕ} {entryCount : ℤ}
    (htree : initializeTree nodeStorage entryStorage nodeSize entrySize entryCount = .ok tree) :
    tree.entrySetCount = getEntrySetCount nodeSize entrySize entryCount := by
  rw [initializeTree] at htree
  split_ifs at htree
  dsimp only at htree
  split at htree
  · cases htree
  · split_ifs at htree <;> cases htree <;> rfl

/-- **Counts that cannot be rounded up in 32 bits** break the lookup. -/
lemma LaidOut.countable_of_exact (h : t.LaidOut) (hexact : t.Exact) : t.Countable := by
  have hsum : t.entryCount + (t.perSet - 1) < 2 ^ 31 := by
    by_contra hnot
    obtain ⟨tree, htree, -, -, -, hfind⟩ := hexact.accepted
    obtain ⟨v, -, hv, -⟩ := hfind _ (le_refl _) h.start_lt_end
    have hpos := entrySetCount_pos_of_find hv
    rw [entrySetCount_of_success htree] at hpos
    exact absurd (h.getEntrySetCount_nonpos (by omega)) (by omega)
  refine ⟨hsum, ?_⟩
  by_contra hnot
  obtain ⟨n, hn, hleast⟩ := hexact.least
  have hlt := h.getNodeL2Count_lt hsum (by omega) (by omega)
  rw [hn, hleast.unique h.l2Count_isLeast] at hlt
  exact absurd hlt (lt_irrefl _)

end Lookup

/-- **Lookup in a bucket tree is exact**: for a table that is laid out in the format, exactly if its counts can be rounded up
in 32 bits. -/
theorem lookup_exact (t : BucketTable) (h : t.LaidOut) : t.Exact ↔ t.Countable :=
  ⟨h.countable_of_exact, h.exact_of_countable⟩

/-! ## A table -/

section Identity

variable {nodeSize count : ℕ}

def byteOf (v j : ℕ) : Byte := BitVec.ofNat 8 (v / 0x100 ^ j)

/-- The number of offsets of a node of the table below. -/
def identitySlots (nodeSize : ℕ) : ℕ := (nodeSize - 0x10) / 8

def identitySets (nodeSize count : ℕ) : ℕ := (count + (identitySlots nodeSize - 1)) / identitySlots nodeSize

/-- A table whose entries are their own offsets, with its offsets in the L1 node. -/
def identityTable (nodeSize count : ℕ) : BucketTable where
  nodeSize := nodeSize
  entrySize := 8
  entryCount := count
  entryOffset i := i
  endOffset := count
  nodeStorage o :=
    if o < 4 then 0
    else if o < 8 then byteOf (identitySets nodeSize count) (o - 4)
    else if o < 0x10 then byteOf count (o - 8)
    else byteOf ((o - 0x10) / 8 * identitySlots nodeSize) ((o - 0x10) % 8)
  entryStorage o :=
    let set := o / nodeSize
    let r := o % nodeSize
    if r < 4 then byteOf set r
    else if r < 8 then byteOf (min (identitySlots nodeSize) (count - set * identitySlots nodeSize)) (r - 4)
    else if r < 0x10 then
      byteOf (if set + 1 < identitySets nodeSize count then (set + 1) * identitySlots nodeSize else count) (r - 8)
    else byteOf (set * identitySlots nodeSize + (r - 0x10) / 8) ((r - 0x10) % 8)

variable {storage : ℕ → Byte}

variable {offset v : ℕ}

lemma littleEndian_eq (n : ℕ) (hbytes : ∀ j < n, storage (offset + j) = byteOf v j) :
    littleEndian storage offset n = v % 0x100 ^ n := littleEndian_of_bytes n hbytes

lemma s64At_eq (hbytes : ∀ j < 8, storage (offset + j) = byteOf v j) (hv : v < 2 ^ 63) : s64At storage offset = v := by
  rw [s64At, littleEndian_eq 8 hbytes, BitVec.toInt_eq_toNat_cond, BitVec.toNat_ofNat]
  rw [if_pos (by omega)]
  omega

lemma s32At_eq (hbytes : ∀ j < 4, storage (offset + j) = byteOf v j) (hv : v < 2 ^ 31) : s32At storage offset = v := by
  rw [s32At, littleEndian_eq 4 hbytes, BitVec.toInt_eq_toNat_cond, BitVec.toNat_ofNat]
  rw [if_pos (by omega)]
  omega

lemma identityTable_entryByte {set r : ℕ} (hr : r < nodeSize) :
    (identityTable nodeSize count).entryStorage (set * nodeSize + r) =
      if r < 4 then byteOf set r
      else if r < 8 then byteOf (min (identitySlots nodeSize) (count - set * identitySlots nodeSize)) (r - 4)
      else if r < 0x10 then
        byteOf (if set + 1 < identitySets nodeSize count then (set + 1) * identitySlots nodeSize else count) (r - 8)
      else byteOf (set * identitySlots nodeSize + (r - 0x10) / 8) ((r - 0x10) % 8) := by
  have hdiv : (set * nodeSize + r) / nodeSize = set := by
    rw [mul_comm, mul_add_div (by omega), div_eq_of_lt hr, Nat.add_zero]
  have hmod : (set * nodeSize + r) % nodeSize = r := by
    rw [mul_comm, mul_add_mod, mod_eq_of_lt hr]
  simp only [identityTable, hdiv, hmod]

lemma identityTable_laidOut (hsizes : checkSizes nodeSize 8 = true) (hpos : 0 < count) (hlt : count < 2 ^ 31)
    (hsets : identitySets nodeSize count ≤ identitySlots nodeSize) : (identityTable nodeSize count).LaidOut := by
  have hnode : 0x400 ≤ nodeSize ∧ nodeSize ≤ 0x80000 := by
    simp only [checkSizes, Bool.and_eq_true, decide_eq_true_eq] at hsizes
    exact hsizes.1.2
  have hslots : identitySlots nodeSize = (nodeSize - 0x10) / 8 := rfl
  have hpositive : 0 < identitySlots nodeSize := by omega
  have hiff : ∀ i, i < identitySets nodeSize count ↔ i * identitySlots nodeSize < count :=
    lt_setCount (t := identityTable nodeSize count) hpositive hpos
  have hl2 : (identityTable nodeSize count).l2Count = 0 := if_pos hsets
  have hsetEnd : ∀ i, (identityTable nodeSize count).setEnd i =
      ((if i + 1 < identitySets nodeSize count then (i + 1) * identitySlots nodeSize else count : ℕ) : ℤ) := by
    intro i
    by_cases hi : i + 1 < identitySets nodeSize count
    · rw [if_pos hi]
      exact if_pos hi
    · rw [if_neg hi]
      exact if_neg hi
  refine ⟨hsizes, hpos, hlt, by rw [hl2]; exact zero_le _, ?_, le_refl _, ?_, ?_, ?_, ?_, ?_, ?_, ?_, ?_, ?_⟩
  · intro i j hij _
    exact Int.ofNat_le.2 hij
  · intro i hi
    have hi' := (hiff i).1 hi
    rw [hsetEnd]
    refine Int.ofNat_lt.2 ?_
    show i * identitySlots nodeSize < _
    split_ifs
    · exact mul_lt_mul_of_pos_right (lt_succ_self i) hpositive
    · exact hi'
  · intro i hi
    have hmod := mod_lt i hpositive
    have hdivMod : i / identitySlots nodeSize * identitySlots nodeSize + i % identitySlots nodeSize = i := by
      rw [mul_comm]
      exact div_add_mod i _
    refine s64At_eq (v := i) ?_ (by have : i < count := hi; omega)
    intro j hj
    have hposition : (identityTable nodeSize count).entryPosition i + j =
        i / identitySlots nodeSize * nodeSize + (0x10 + i % identitySlots nodeSize * 8 + j) := by
      show i / identitySlots nodeSize * nodeSize + 0x10 + i % identitySlots nodeSize * 8 + j = _
      omega
    rw [hposition, identityTable_entryByte (by omega), if_neg (by omega), if_neg (by omega), if_neg (by omega),
      show (0x10 + i % identitySlots nodeSize * 8 + j - 0x10) / 8 = i % identitySlots nodeSize by omega,
      show (0x10 + i % identitySlots nodeSize * 8 + j - 0x10) % 8 = j by omega, hdivMod]
  · intro i hi
    have hi' : i < identitySets nodeSize count := hi
    rw [nodeHeaderAt, NodeHeader.mk.injEq]
    refine ⟨s32At_eq (v := i) ?_ (by omega), s32At_eq ?_ ?_, ?_⟩
    · intro j hj
      show (identityTable nodeSize count).entryStorage (i * nodeSize + j) = _
      rw [identityTable_entryByte (by omega), if_pos hj]
    · intro j hj
      show (identityTable nodeSize count).entryStorage (i * nodeSize + 4 + j) = _
      rw [add_assoc, identityTable_entryByte (by omega), if_neg (by omega), if_pos (by omega),
        show 4 + j - 4 = j by omega]
      rfl
    · show min (identitySlots nodeSize) (count - i * identitySlots nodeSize) < 2 ^ 31
      omega
    · rw [hsetEnd]
      refine s64At_eq ?_ ?_
      · intro j hj
        show (identityTable nodeSize count).entryStorage (i * nodeSize + 8 + j) = _
        rw [add_assoc, identityTable_entryByte (by omega), if_neg (by omega), if_neg (by omega), if_pos (by omega),
          show 8 + j - 8 = j by omega]
      · split_ifs with hnext
        · have := (hiff (i + 1)).1 hnext
          omega
        · omega
  · have hl1 : (identityTable nodeSize count).l1Count = identitySets nodeSize count := if_pos hsets
    rw [nodeHeaderAt, NodeHeader.mk.injEq, hl1]
    refine ⟨s32At_eq (v := 0) ?_ (by decide), s32At_eq ?_ (by omega), s64At_eq (v := count) ?_ (by omega)⟩
    · intro j hj
      simp only [identityTable, zero_add]
      rw [if_pos hj, byteOf, Nat.zero_div]
      rfl
    · intro j hj
      simp only [identityTable, zero_add]
      rw [if_neg (by omega), if_pos (by omega), show 4 + j - 4 = j by omega]
    · intro j hj
      simp only [identityTable, zero_add]
      rw [if_neg (by omega), if_neg (by omega), if_pos (by omega), show 8 + j - 8 = j by omega]
  · intro _ i hi
    have hi' := (hiff i).1 hi
    refine s64At_eq (v := i * identitySlots nodeSize) ?_ (by omega)
    intro j hj
    simp only [identityTable, NodeHeaderSize, OffsetSize]
    rw [if_neg (by omega), if_neg (by omega), if_neg (by omega), show (0x10 + i * 8 + j - 0x10) / 8 = i by omega,
      show (0x10 + i * 8 + j - 0x10) % 8 = j by omega]
  all_goals
    intro hmore
    exact absurd hmore (not_lt.2 hsets)

/-- A table of two entry sets. -/
theorem lookup_exact_identityTable : (identityTable 0x400 200).Exact :=
  (lookup_exact (identityTable 0x400 200)
    (identityTable_laidOut (by decide) (by decide) (by decide) (by decide))).2 (by
      refine ⟨?_, .inl ?_⟩ <;> decide)

/-- The largest number of entries that is accepted, in nodes of the largest size: the number of entry sets wraps. -/
theorem lookup_fails_at_count_max :
    (identityTable 0x80000 0x7FFFFFFF).LaidOut ∧ ¬ (identityTable 0x80000 0x7FFFFFFF).Exact := by
  have hlaidOut : (identityTable 0x80000 0x7FFFFFFF).LaidOut :=
    identityTable_laidOut (by decide) (by decide) (by decide) (by decide)
  refine ⟨hlaidOut, ?_⟩
  intro hexact
  exact absurd (hlaidOut.countable_of_exact hexact).1 (by decide)

end Identity

end BucketTable

end Voltemu.FileSys
