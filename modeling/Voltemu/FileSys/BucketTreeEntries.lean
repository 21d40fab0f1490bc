import Voltemu.FileSys.BucketTreeLookup

/-!
# Entries of bucket trees

What the storages over a bucket tree use of it.

* `bound`: an entry covers the addresses from its own bound to the next one.
* `LaidOut.canMoveNext_iff`: a visitor can move on up to the last entry.
* `entryBytes_littleEndian`: the numbers in the entry of a visitor are those in the entry storage.
* `layOut`: any table can be laid out in the format.
-/

namespace Voltemu.FileSys

open BucketTree SortedSearch Nat

/-! ## Numbers -/

lemma s64At_range (storage : ℕ → Byte) (offset : ℕ) : -2 ^ 63 ≤ s64At storage offset ∧ s64At storage offset < 2 ^ 63 := by
  refine ⟨?_, ?_⟩
  · have := BitVec.le_toInt (BitVec.ofNat 64 (littleEndian storage offset 8))
    simpa [s64At] using this
  · have := BitVec.toInt_lt (x := BitVec.ofNat 64 (littleEndian storage offset 8))
    simpa [s64At] using this

namespace BucketTable

variable {t : BucketTable} {v : Visitor}

lemma entryBytes_littleEndian (offset : ℕ) {k n : ℕ} (hk : k + n ≤ t.entrySize) :
    littleEndian (fun i => (t.tree.entryBytes offset).getD i 0) k n = littleEndian t.entryStorage (offset + k) n := by
  refine littleEndian_congr n fun j hj => ?_
  have hlt : k + j < t.entrySize := by omega
  simp [entryBytes, List.getD_eq_getElem?_getD, List.getElem?_range hlt, add_assoc]

/-! ## Bounds -/

/-- The offset of an entry, and behind the last one the end of the table. -/
def bound (t : BucketTable) (i : ℕ) : ℤ := if i < t.entryCount then t.entryOffset i else t.endOffset

variable {i : ℕ}

lemma bound_of_lt (hi : i < t.entryCount) : t.bound i = t.entryOffset i := if_pos hi

lemma bound_entryCount (t : BucketTable) : t.bound t.entryCount = t.endOffset := if_neg (lt_irrefl _)

/-- **The offsets of the entries increase strictly up to the end.** -/
def Increasing (t : BucketTable) : Prop := ∀ i < t.entryCount, t.bound i < t.bound (i + 1)

lemma Increasing.bound_le (h : t.Increasing) {i j : ℕ} (hij : i ≤ j) (hj : j ≤ t.entryCount) : t.bound i ≤ t.bound j := by
  induction j, hij using le_induction with
  | base => exact le_refl _
  | succ j _ ih => exact (ih (by omega)).trans (h j (by omega)).le

lemma Increasing.lastEntry (h : t.Increasing) {a : ℤ} (hi : i < t.entryCount) (hle : t.bound i ≤ a)
    (hlt : a < t.bound (i + 1)) : t.LastEntry a i := by
  refine ⟨hi, by rwa [bound_of_lt hi] at hle, ?_⟩
  intro j hij hj
  rw [← bound_of_lt hj]
  exact hlt.trans_le (h.bound_le (by omega) (by omega))

lemma LastEntry.bounds {a : ℤ} (h : t.LastEntry a i) (hend : a < t.endOffset) : t.bound i ≤ a ∧ a < t.bound (i + 1) := by
  obtain ⟨hi, hle, hnext⟩ := h
  refine ⟨by rwa [bound_of_lt hi], ?_⟩
  by_cases hlast : i + 1 < t.entryCount
  · rw [bound_of_lt hlast]
    exact hnext _ (lt_succ_self i) hlast
  · rwa [show i + 1 = t.entryCount by omega, bound_entryCount]

lemma LaidOut.setEnd_eq (h : t.LaidOut) {s : ℕ} (hs : s < t.setCount) : t.setEnd s = t.bound (s * t.perSet + t.setSize s) := by
  obtain ⟨-, -, -, hfull, hlast⟩ := h.setSize_spec hs
  by_cases hnext : s + 1 < t.setCount
  · have hfirst : s * t.perSet + t.setSize s = (s + 1) * t.perSet := by
      rw [hfull hnext, add_mul, one_mul]
    rw [setEnd, if_pos hnext, setStart, hfirst, bound_of_lt ((h.lt_setCount_iff _).1 hnext)]
  · rw [setEnd, if_neg hnext, hlast (by omega), bound_entryCount]

lemma LaidOut.endOffset_lt (h : t.LaidOut) : t.endOffset < 2 ^ 63 := by
  have hl1 := h.l1
  rw [nodeHeaderAt, NodeHeader.mk.injEq] at hl1
  rw [← hl1.2.2]
  exact (s64At_range t.nodeStorage (0 + 8)).2

/-! ## Visitors -/

lemma LaidOut.canMoveNext_iff (h : t.LaidOut) (hat : t.AtEntry v i) : v.canMoveNext = true ↔ i + 1 < t.entryCount := by
  obtain ⟨s, k, rfl, hs, hk⟩ := h.exists_set hat.lt
  obtain ⟨-, hindex, hset, hcount, -⟩ := (h.atEntry_iff hs hk).1 hat
  obtain ⟨hpos, hsize, hin, hfull, hlast⟩ := h.setSize_spec hs
  have hnext := h.lt_setCount_iff (s + 1)
  rw [add_mul, one_mul] at hnext
  have hcan : v.canMoveNext = true ↔ k + 1 < t.setSize s ∨ s + 1 < t.setCount := by
    rw [Visitor.canMoveNext, Visitor.isValid, hindex, hset, hcount]
    simp only [Bool.and_eq_true, Bool.or_eq_true, decide_eq_true_eq]
    omega
  rw [hcan]
  by_cases hmore : s + 1 < t.setCount
  · have := hnext.1 hmore
    have := hfull hmore
    omega
  · have := hlast (by omega)
    omega

/-! ## Layouts -/

section LayOut

/-- The entry set whose offset is at an index of a node.  The L1 node is the node 0. -/
def slotSet (t : BucketTable) (node k : ℕ) : ℕ :=
  if node = 0 then
    if t.setCount ≤ t.slots then k
    else if k < t.l2Count then t.spare + k * t.slots
    else k - t.l2Count
  else t.spare + (node - 1) * t.slots + k

def nodeByte (t : BucketTable) (node r : ℕ) : Byte :=
  if r < 4 then byteOf (node - 1) r
  else if r < 8 then byteOf (if node = 0 then t.l1Count else t.nodeCount (node - 1)) (r - 4)
  else if r < 0x10 then byteOf t.endOffset.toNat (r - 8)
  else byteOf (t.setStart (t.slotSet node ((r - 0x10) / 8))).toNat ((r - 0x10) % 8)

/-- A byte of an entry set, with what entries have behind their offsets. -/
def entrySetByte (t : BucketTable) (payload : ℕ → ℕ → Byte) (set r : ℕ) : Byte :=
  if r < 4 then byteOf set r
  else if r < 8 then byteOf (t.setSize set) (r - 4)
  else if r < 0x10 then byteOf (t.setEnd set).toNat (r - 8)
  else
    let i := set * t.perSet + (r - 0x10) / t.entrySize
    let q := (r - 0x10) % t.entrySize
    if q < 8 then byteOf (t.entryOffset i).toNat q else payload i q

def layOut (t : BucketTable) (payload : ℕ → ℕ → Byte) : BucketTable :=
  { t with
    nodeStorage := fun o => t.nodeByte (o / t.nodeSize) (o % t.nodeSize)
    entryStorage := fun o => t.entrySetByte payload (o / t.nodeSize) (o % t.nodeSize) }

variable {payload : ℕ → ℕ → Byte}

lemma divMod_block {n a r : ℕ} (hr : r < n) : (a * n + r) / n = a ∧ (a * n + r) % n = r := by
  rw [mul_comm]
  exact ⟨by rw [mul_add_div (by omega), div_eq_of_lt hr, add_zero], by
    rw [mul_add_mod, mod_eq_of_lt hr]⟩

lemma layOut_nodeByte (payload : ℕ → ℕ → Byte) (node : ℕ) {r : ℕ} (hr : r < t.nodeSize) :
    (t.layOut payload).nodeStorage (node * t.nodeSize + r) = t.nodeByte node r := by
  show t.nodeByte ((node * t.nodeSize + r) / t.nodeSize) ((node * t.nodeSize + r) % t.nodeSize) = _
  rw [(divMod_block hr).1, (divMod_block hr).2]

lemma layOut_entrySetByte {set r : ℕ} (hr : r < t.nodeSize) :
    (t.layOut payload).entryStorage (set * t.nodeSize + r) = t.entrySetByte payload set r := by
  show t.entrySetByte payload ((set * t.nodeSize + r) / t.nodeSize) ((set * t.nodeSize + r) % t.nodeSize) = _
  rw [(divMod_block hr).1, (divMod_block hr).2]

lemma layOut_entryByte (payload : ℕ → ℕ → Byte) (hperSet : 0 < t.perSet) (i : ℕ) {q : ℕ} (hq : q < t.entrySize) :
    (t.layOut payload).entryStorage (t.entryPosition i + q) =
      if q < 8 then byteOf (t.entryOffset i).toNat q else payload i q := by
  have hmod := mod_lt i hperSet
  have hdivMod : i / t.perSet * t.perSet + i % t.perSet = i := by
    rw [mul_comm]
    exact div_add_mod i _
  have hfit : t.perSet * t.entrySize ≤ t.nodeSize - NodeHeaderSize := div_mul_le_self _ _
  have hmul : (i % t.perSet + 1) * t.entrySize ≤ t.perSet * t.entrySize := mul_le_mul_right _ hmod
  rw [add_mul, one_mul] at hmul
  have hheader : NodeHeaderSize = 0x10 := rfl
  have hinside : 0x10 + i % t.perSet * t.entrySize + q < t.nodeSize := by omega
  have hposition : t.entryPosition i + q = i / t.perSet * t.nodeSize + (0x10 + i % t.perSet * t.entrySize + q) := by
    rw [entryPosition]
    omega
  obtain ⟨hdiv, hrest⟩ := divMod_block (a := i % t.perSet) hq
  rw [hposition, layOut_entrySetByte hinside, entrySetByte, if_neg (by omega), if_neg (by omega), if_neg (by omega),
    show 0x10 + i % t.perSet * t.entrySize + q - 0x10 = i % t.perSet * t.entrySize + q by omega, hdiv, hrest, hdivMod]

lemma nodeHeaderAt_eq {storage : ℕ → Byte} {offset count index : ℕ} {end' : ℤ} (hindex : index < 2 ^ 31)
    (hcount : count < 2 ^ 31) (hend : 0 ≤ end' ∧ end' < 2 ^ 63) (hbytes : ∀ j < 0x10, storage (offset + j) =
      if j < 4 then byteOf index j else if j < 8 then byteOf count (j - 4) else byteOf end'.toNat (j - 8)) :
    nodeHeaderAt storage offset = ⟨index, count, end'⟩ := by
  rw [nodeHeaderAt, NodeHeader.mk.injEq]
  refine ⟨s32At_eq ?_ hindex, s32At_eq ?_ hcount, ?_⟩
  · intro j hj
    rw [hbytes j (by omega), if_pos hj]
  · intro j hj
    rw [add_assoc, hbytes (4 + j) (by omega), if_neg (by omega), if_pos (by omega), show 4 + j - 4 = j by omega]
  · rw [s64At_eq (v := end'.toNat) ?_ (by omega), Int.toNat_of_nonneg hend.1]
    intro j hj
    rw [add_assoc, hbytes (8 + j) (by omega), if_neg (by omega), if_neg (by omega), show 8 + j - 8 = j by omega]

lemma layOut_slot (payload : ℕ → ℕ → Byte) (hvalue : ∀ i, 0 ≤ t.entryOffset i ∧ t.entryOffset i < 2 ^ 63) (node : ℕ) {k : ℕ}
    (hk : k < t.slots) :
    s64At (t.layOut payload).nodeStorage (node * t.nodeSize + (NodeHeaderSize + k * OffsetSize)) =
      t.setStart (t.slotSet node k) := by
  have hrange : 0 ≤ t.setStart (t.slotSet node k) ∧ t.setStart (t.slotSet node k) < 2 ^ 63 := hvalue _
  have hslots : t.slots = (t.nodeSize - 0x10) / 8 := rfl
  rw [s64At_eq (v := (t.setStart (t.slotSet node k)).toNat) ?_ (by omega), Int.toNat_of_nonneg hrange.1]
  intro j hj
  have hposition : NodeHeaderSize + k * OffsetSize + j = 0x10 + k * 8 + j := rfl
  rw [add_assoc, hposition, layOut_nodeByte _ _ (by omega), nodeByte, if_neg (by omega), if_neg (by omega),
    if_neg (by omega), show (0x10 + k * 8 + j - 0x10) / 8 = k by omega, show (0x10 + k * 8 + j - 0x10) % 8 = j by omega]

/-- **Any table can be laid out in the format.** -/
lemma layOut_laidOut (hsizes : checkSizes t.nodeSize t.entrySize = true) (hpos : 0 < t.entryCount)
    (hlt : t.entryCount < 2 ^ 31) (hfits : t.l2Count ≤ t.slots) (hincreasing : t.Increasing)
    (hvalue : ∀ i, 0 ≤ t.entryOffset i ∧ t.entryOffset i < 2 ^ 63) (hend : t.endOffset < 2 ^ 63) :
    (t.layOut payload).LaidOut := by
  obtain ⟨hentrySize, hnodeSize, hmin, hmax⟩ : 8 ≤ t.entrySize ∧ t.entrySize + 0x10 ≤ t.nodeSize ∧ 0x400 ≤ t.nodeSize ∧
      t.nodeSize ≤ 0x80000 := by
    simp only [checkSizes, Bool.and_eq_true, decide_eq_true_eq] at hsizes
    exact ⟨hsizes.1.1.1, hsizes.1.1.2, hsizes.1.2.1, hsizes.1.2.2⟩
  have hperSet : 0 < t.perSet := div_pos (by show t.entrySize ≤ t.nodeSize - 0x10; omega) (by omega)
  have hperSetLe : t.perSet ≤ t.nodeSize := (div_le_self _ _).trans (sub_le _ _)
  have hslots : t.slots = (t.nodeSize - 0x10) / 8 := rfl
  have hiff : ∀ i, i < t.setCount ↔ i * t.perSet < t.entryCount := lt_setCount hperSet hpos
  have hsetCount : t.setCount < 2 ^ 31 := by
    by_contra hnot
    have := (hiff (t.entryCount)).1 (by omega)
    have := Nat.le_mul_of_pos_right t.entryCount hperSet
    omega
  have hsorted : SortedTo t.entryOffset t.entryCount := by
    intro i j hij hj
    rw [← bound_of_lt hj, ← bound_of_lt (by omega : i < t.entryCount)]
    exact hincreasing.bound_le hij hj.le
  have hlast : t.bound 0 ≤ t.endOffset := by
    rw [← bound_entryCount]
    exact hincreasing.bound_le (zero_le _) (le_refl _)
  rw [bound_of_lt hpos] at hlast
  have hendRange : 0 ≤ t.endOffset ∧ t.endOffset < 2 ^ 63 := ⟨(hvalue 0).1.trans hlast, hend⟩
  have hsetEnd : ∀ i, 0 ≤ t.setEnd i ∧ t.setEnd i < 2 ^ 63 := by
    intro i
    rw [setEnd]
    split_ifs
    · exact hvalue _
    · exact hendRange
  refine ⟨hsizes, hpos, hlt, hfits, hsorted, (hvalue 0).1, ?_, ?_, ?_, ?_, ?_, ?_, ?_, ?_, ?_⟩
  · intro i hi
    have hi' := (hiff i).1 hi
    show t.setStart i < t.setEnd i
    rw [setEnd, setStart, ← bound_of_lt hi']
    split_ifs with hnext
    · have hnext' := (hiff (i + 1)).1 hnext
      rw [setStart, ← bound_of_lt hnext']
      refine (hincreasing _ hi').trans_le (hincreasing.bound_le ?_ hnext'.le)
      rw [add_mul, one_mul]
      omega
    · rw [← bound_entryCount]
      exact (hincreasing _ hi').trans_le (hincreasing.bound_le hi' (le_refl _))
  · intro i hi
    show s64At (t.layOut payload).entryStorage (t.entryPosition i) = t.entryOffset i
    rw [s64At_eq (v := (t.entryOffset i).toNat) ?_ (by have := hvalue i; omega), Int.toNat_of_nonneg (hvalue i).1]
    intro j hj
    rw [layOut_entryByte payload hperSet i (by omega), if_pos hj]
  · intro i hi
    have hi' : i < t.setCount := hi
    have hsize : t.setSize i ≤ t.perSet := min_le_left _ _
    refine nodeHeaderAt_eq (by omega) (by show t.setSize i < 2 ^ 31; omega) (hsetEnd i) ?_
    intro j hj
    show (t.layOut payload).entryStorage (i * t.nodeSize + j) = _
    rw [layOut_entrySetByte (by omega), entrySetByte, if_pos (by omega : j < 0x10)]
    rfl
  · have hl1 : t.l1Count < 2 ^ 31 := by
      rw [l1Count]
      split_ifs <;> omega
    have hzero : (0 : ℕ) < 2 ^ 31 := by decide
    refine nodeHeaderAt_eq hzero hl1 hendRange ?_
    intro j hj
    have hbyte := layOut_nodeByte (t := t) payload 0 (by omega : j < t.nodeSize)
    rw [zero_mul] at hbyte
    rw [hbyte, nodeByte, if_pos (by omega : j < 0x10), if_pos rfl]
    rfl
  · intro hsets i hi
    have hsets' : t.setCount ≤ t.slots := hsets
    have hi' : i < t.setCount := hi
    have hslot := layOut_slot payload hvalue 0 (by omega : i < t.slots)
    rw [zero_mul, zero_add, slotSet, if_pos rfl, if_pos hsets'] at hslot
    exact hslot
  · intro hmore i hi
    have hmore' : t.slots < t.setCount := hmore
    have hi' : i < t.slots - t.l2Count := hi
    have hslot := layOut_slot payload hvalue 0 (by omega : t.l2Count + i < t.slots)
    rw [zero_mul, zero_add, slotSet, if_pos rfl, if_neg (by omega), if_neg (by omega),
      show t.l2Count + i - t.l2Count = i by omega] at hslot
    exact hslot
  · intro hmore j hj
    have hmore' : t.slots < t.setCount := hmore
    have hj' : j < t.l2Count := hj
    have hslot := layOut_slot payload hvalue 0 (by omega : j < t.slots)
    rw [zero_mul, zero_add, slotSet, if_pos rfl, if_neg (by omega), if_pos hj'] at hslot
    exact hslot
  · intro _ j hj
    have hj' : j < t.l2Count := hj
    have hcount : t.nodeCount j ≤ t.slots := min_le_left _ _
    refine ⟨t.endOffset, hendRange.1, nodeHeaderAt_eq (by omega) (by show t.nodeCount j < 2 ^ 31; omega) hendRange ?_⟩
    intro r hr
    show (t.layOut payload).nodeStorage ((j + 1) * t.nodeSize + r) = _
    rw [layOut_nodeByte _ _ (by omega), nodeByte, if_pos (by omega : r < 0x10), if_neg (by omega : ¬ j + 1 = 0),
      Nat.add_sub_cancel]
    rfl
  · intro _ j hj k hk
    have hcount : t.nodeCount j ≤ t.slots := min_le_left _ _
    have hk' : k < t.nodeCount j := hk
    have hslot := layOut_slot payload hvalue (j + 1) (by omega : k < t.slots)
    rw [slotSet, if_neg (by omega), Nat.add_sub_cancel] at hslot
    exact hslot

end LayOut

end BucketTable

end Voltemu.FileSys
