import Voltemu.FileSys.BucketTreeEntries
import Voltemu.FileSys.IndirectStorage
import Voltemu.FileSys.VfsViews

/-!
# Reads of indirect storages

An `IndirectTable` is a bucket tree whose entries say where in two data storages the bytes are.

* The scan: `ScanInv` is kept by every iteration.  Base entries that it has gone through are at one distance from their
  physical offsets, and up to the last of them the base storage can be read at once.
* The loop over the entries: `LoopInv` says which bytes of the buffer are right.  Those before the current offset are, and
  after a read over several entries also those of the base entries that are skipped.
* **`read_pointwise`**: every byte is the one that its entry says, whether or not the reads are merged, exactly if the number
  of entries can be rounded up in 32 bits.
-/

namespace Voltemu.FileSys

open BucketTree BucketTable IndirectStorage Overwrite Nat

/-! ## Tables -/

/-- A table of an indirect storage, with the data storages and the bytes that they have. -/
structure IndirectTable where
  table : BucketTable
  physOffset : ℕ → ℤ
  storageIndex : ℕ → ℤ
  entryStorageSize : ℕ
  dataStorage : ℕ → VfsFile
  contents : ℕ → List Byte

namespace IndirectTable

/-- **A table that is well-formed.**  Its entries increase strictly, refer to one of two storages and are inside of them. -/
structure WellFormed (t : IndirectTable) : Prop where
  laidOut : t.table.LaidOut
  nodeSize : t.table.nodeSize = NodeSize
  entrySize : t.table.entrySize = EntrySize
  increasing : t.table.Increasing
  physOffsets : ∀ i < t.table.entryCount, s64At t.table.entryStorage (t.table.entryPosition i + 8) = t.physOffset i
  storageIndices : ∀ i < t.table.entryCount, s32At t.table.entryStorage (t.table.entryPosition i + 0x10) = t.storageIndex i
  entryStorage : t.table.setCount * t.table.nodeSize ≤ t.entryStorageSize
  storages : ∀ k < 2, Slices (t.dataStorage k) (t.contents k) ∧ (t.contents k).length < 2 ^ 63
  index_lt : ∀ i < t.table.entryCount, t.storageIndex i = 0 ∨ t.storageIndex i = 1
  inside : ∀ i < t.table.entryCount, 0 ≤ t.physOffset i ∧
    t.physOffset i + (t.table.bound (i + 1) - t.table.bound i) ≤ (t.contents (t.storageIndex i).toNat).length

def entry (t : IndirectTable) (i : ℕ) : Entry := ⟨t.table.bound i, t.physOffset i, t.storageIndex i⟩

/-- The byte of an entry at an address: `phys + address - virt` in its storage. -/
def byteOfEntry (t : IndirectTable) (i : ℕ) (a : ℤ) : Byte :=
  (t.contents (t.storageIndex i).toNat).getD (t.physOffset i + a - t.table.entryOffset i).toNat 0

/-- The storage of a table, over the tree that is initialised from it. -/
def storage (t : IndirectTable) (tree : BucketTree) : IndirectStorage := ⟨tree, t.entryStorageSize, t.dataStorage⟩

variable {t : IndirectTable} {v : Visitor}

section

variable (h : t.WellFormed)
include h

variable {i : ℕ}

lemma WellFormed.bound_range (hi : i ≤ t.table.entryCount) :
    0 ≤ t.table.bound i ∧ t.table.bound i ≤ t.table.endOffset := by
  have hfirst := h.increasing.bound_le (zero_le i) hi
  have hlast := h.increasing.bound_le hi (le_refl _)
  rw [bound_of_lt h.laidOut.entryCount_pos] at hfirst
  rw [bound_entryCount] at hlast
  exact ⟨h.laidOut.nonneg.trans hfirst, hlast⟩

lemma WellFormed.entryAt_eq (hi : i < t.table.entryCount) :
    entryAt t.table.entryStorage (t.table.entryPosition i) = t.entry i := by
  rw [entryAt, h.laidOut.entries i hi, h.physOffsets i hi, h.storageIndices i hi, ← bound_of_lt hi]
  rfl

lemma WellFormed.get_eq (hat : t.table.AtEntry v i) : Entry.get v = t.entry i := by
  have hsize : t.table.entrySize = 0x14 := h.entrySize
  rw [← h.entryAt_eq hat.lt, Entry.get, hat.entry, entryAt, entryAt, s64At, s64At, s32At, s64At, s64At, s32At,
    entryBytes_littleEndian _ (by omega), entryBytes_littleEndian _ (by omega), entryBytes_littleEndian _ (by omega),
    add_zero, zero_add, zero_add]

lemma WellFormed.inside_at (hi : i < t.table.entryCount) {a : ℤ} (ha : a ≤ t.table.bound (i + 1)) :
    t.physOffset i + (a - t.table.bound i) ≤ (t.contents (t.storageIndex i).toNat).length := by
  have := (h.inside i hi).2
  omega

lemma WellFormed.physOffset_le (hi : i < t.table.entryCount) :
    t.physOffset i ≤ (t.contents (t.storageIndex i).toNat).length := by
  have := (h.inside i hi).2
  have := h.increasing i hi
  omega

lemma WellFormed.physOffset_lt (hi : i < t.table.entryCount) : t.physOffset i < 2 ^ 63 := by
  have hle := h.physOffset_le hi
  have hindex : (t.storageIndex i).toNat < 2 := by
    have := h.index_lt i hi
    omega
  have := (h.storages _ hindex).2
  omega

end

/-! ## The scan -/

section Scan

lemma toS64_add (x y : ℤ) : toS64 (toS64 x + y) = toS64 (x + y) := Int.bmod_add_bmod

/-- A sum that does not wrap, since it is the offset of an entry. -/
lemma eq_of_toS64_eq {x y : ℤ} (hlow : 0 ≤ x) (hhigh : x < 2 ^ 64) (hy : 0 ≤ y) (h : toS64 x = y) : x = y := by
  rw [toS64, Int.bmod_def] at h
  split_ifs at h <;> omega

lemma toS64_of_range {x : ℤ} (hlow : 0 ≤ x) (hhigh : x < 2 ^ 63) : toS64 x = x := by
  rw [toS64, Int.bmod_def]
  split_ifs <;> omega

/-- A request: the entry that it is at, as the index `k` in the entry set `set`, the current offset and the end. -/
structure Request (t : IndirectTable) (set k : ℕ) (cur fin : ℤ) : Prop where
  set_lt : set < t.table.setCount
  k_lt : k < t.table.setSize set
  low : t.table.bound (set * t.table.perSet + k) ≤ cur
  high : cur < t.table.bound (set * t.table.perSet + k + 1)
  cur_lt : cur < fin
  fin_le : fin ≤ t.table.endOffset

/-- **What the scan has found out** once it is at the entry `x` of the entry set. -/
structure ScanInv (t : IndirectTable) (set k : ℕ) (cur fin : ℤ) (x : ℕ) (s : ScanState) : Prop where
  le : k ≤ x ∧ x ≤ t.table.setSize set
  entryIndex : s.entryIndex = x
  entry : x < t.table.setSize set → s.entry = t.entry (set * t.table.perSet + x)
  curOffset : s.curOffset = max cur (min (t.table.bound (set * t.table.perSet + x)) fin)
  physOffset : s.physOffset = toS64 (t.physOffset (set * t.table.perSet + k) +
    (t.table.bound (set * t.table.perSet + x) - t.table.bound (set * t.table.perSet + k)))
  sizes : 0 ≤ s.mergeSize ∧ 0 ≤ s.readableSize ∧ cur + s.readableSize + s.mergeSize = s.curOffset
  merged : s.merged = true → 0 < s.readableSize
  inside : t.physOffset (set * t.table.perSet + k) + (cur + s.readableSize - t.table.bound (set * t.table.perSet + k)) ≤
    (t.contents 0).length
  base : ∀ y, k ≤ y → y < x → t.storageIndex (set * t.table.perSet + y) = 0 →
    t.physOffset (set * t.table.perSet + y) = t.physOffset (set * t.table.perSet + k) +
      (t.table.bound (set * t.table.perSet + y) - t.table.bound (set * t.table.perSet + k)) ∧
    min (t.table.bound (set * t.table.perSet + y + 1)) fin ≤ cur + s.readableSize

def entrySet (t : IndirectTable) (set : ℕ) : EntrySetInfo :=
  ⟨set, t.table.setSize set, t.table.setEnd set, t.table.setStart set⟩

lemma WellFormed.entry_lt (h : t.WellFormed) {set x : ℕ} (hset : set < t.table.setCount) (hx : x < t.table.setSize set) :
    set * t.table.perSet + x < t.table.entryCount := by
  obtain ⟨-, -, hin, -, -⟩ := h.laidOut.setSize_spec hset
  omega

lemma WellFormed.scanNextEntry_spec (h : t.WellFormed) {set x : ℕ} (hset : set < t.table.setCount)
    (hx : x < t.table.setSize set) : ∃ e, scanNextEntry t.table.tree (t.entrySet set) x =
      .ok (e, t.table.bound (set * t.table.perSet + x + 1)) ∧
      (x + 1 < t.table.setSize set → e = t.entry (set * t.table.perSet + (x + 1))) := by
  rw [scanNextEntry]
  by_cases hmore : x + 1 < t.table.setSize set
  · have hlt := h.entry_lt hset hmore
    obtain ⟨-, hsize, -, -, -⟩ := h.laidOut.setSize_spec hset
    have hposition : (t.entrySet set).index.toNat * t.table.tree.nodeSize +
        getBucketTreeEntryOffset 0 t.table.tree.entrySize ((x : ℤ) + 1) =
          t.table.entryPosition (set * t.table.perSet + (x + 1)) := by
      rw [h.laidOut.entryPosition_eq (by omega), getBucketTreeEntryOffset, tree_nodeSize, tree_entrySize,
        show ((x : ℤ) + 1).toNat = x + 1 by omega, show (t.entrySet set).index.toNat = set from Int.toNat_natCast set]
      omega
    have hfirst := h.increasing.bound_le (zero_le (set * t.table.perSet + (x + 1))) hlt.le
    have hlast := (h.increasing _ hlt).trans_le (h.bound_range (by omega)).2
    rw [bound_of_lt h.laidOut.entryCount_pos] at hfirst
    have hinclude : isInclude t.table.tree (t.entry (set * t.table.perSet + (x + 1))).virtOffset = true :=
      decide_eq_true ⟨hfirst, hlast⟩
    rw [if_pos (show (x : ℤ) + 1 < (t.entrySet set).count from by show (x : ℤ) + 1 < (t.table.setSize set : ℤ); omega)]
    dsimp only
    rw [hposition, tree_entryStorage, h.entryAt_eq hlt, hinclude, if_neg (by decide)]
    exact ⟨_, rfl, fun _ => rfl⟩
  · rw [if_neg (show ¬ (x : ℤ) + 1 < (t.entrySet set).count from by
      show ¬ (x : ℤ) + 1 < (t.table.setSize set : ℤ)
      omega)]
    refine ⟨⟨0, 0, 0⟩, ?_, fun hlt => absurd hlt hmore⟩
    rw [show (t.entrySet set).end' = t.table.setEnd set from rfl, h.laidOut.setEnd_eq hset,
      show set * t.table.perSet + x + 1 = set * t.table.perSet + t.table.setSize set by omega]

section Step

variable {set k x : ℕ} {cur fin : ℤ} {s : ScanState}

section

variable (h : t.WellFormed) (hreq : t.Request set k cur fin)
include h hreq

lemma WellFormed.scanInv_start (hbase : t.storageIndex (set * t.table.perSet + k) = 0) :
    t.ScanInv set k cur fin k ⟨t.entry (set * t.table.perSet + k), k, cur, t.physOffset (set * t.table.perSet + k), 0, 0,
      false⟩ := by
  have hlt := h.entry_lt hreq.set_lt hreq.k_lt
  have hlow := hreq.low
  refine ⟨⟨le_refl k, hreq.k_lt.le⟩, rfl, fun _ => rfl, ?_, ?_, ?_, ?_, ?_, ?_⟩
  · show cur = _
    omega
  · rw [Int.sub_self, Int.add_zero, toS64_of_range (h.inside _ hlt).1 (h.physOffset_lt hlt)]
  · exact ⟨le_refl _, le_refl _, by rw [Int.add_zero, Int.add_zero]⟩
  · intro hmerged
    cases hmerged
  · have := h.inside_at hlt hreq.high.le
    rw [hbase] at this
    show _ + (cur + 0 - _) ≤ _
    rw [Int.add_zero]
    exact this
  · intro y hky hyk
    omega

lemma WellFormed.scan_position (hinv : t.ScanInv set k cur fin x s)
    (hx : x < t.table.setSize set) (hcur : s.curOffset < fin) :
    t.table.bound (set * t.table.perSet + x) ≤ s.curOffset ∧ s.curOffset < t.table.bound (set * t.table.perSet + x + 1) ∧
      cur < t.table.bound (set * t.table.perSet + x + 1) := by
  obtain ⟨-, -, hin, -, -⟩ := h.laidOut.setSize_spec hreq.set_lt
  have hnext := h.increasing _ (h.entry_lt hreq.set_lt hx)
  have hhigh := hreq.high.trans_le
    (h.increasing.bound_le (by have := hinv.le; omega : set * t.table.perSet + k + 1 ≤ set * t.table.perSet + x + 1)
      (by omega))
  have hoffset := hinv.curOffset
  omega

lemma WellFormed.scanInv_advance (hinv : t.ScanInv set k cur fin x s)
    (hx : x < t.table.setSize set) (hcur : s.curOffset < fin) {next : Entry} {mergeSize readableSize : ℤ} {merged : Bool}
    (hnext : x + 1 < t.table.setSize set → next = t.entry (set * t.table.perSet + (x + 1)))
    (hsizes : 0 ≤ mergeSize ∧ 0 ≤ readableSize ∧
      cur + readableSize + mergeSize = min (t.table.bound (set * t.table.perSet + x + 1)) fin)
    (hmerged : merged = true → 0 < readableSize) (hmono : s.readableSize ≤ readableSize)
    (hinside : t.physOffset (set * t.table.perSet + k) + (cur + readableSize - t.table.bound (set * t.table.perSet + k)) ≤
      (t.contents 0).length)
    (hbase : t.storageIndex (set * t.table.perSet + x) = 0 →
      t.physOffset (set * t.table.perSet + x) = t.physOffset (set * t.table.perSet + k) +
        (t.table.bound (set * t.table.perSet + x) - t.table.bound (set * t.table.perSet + k)) ∧
      min (t.table.bound (set * t.table.perSet + x + 1)) fin ≤ cur + readableSize) :
    t.ScanInv set k cur fin (x + 1) ⟨next, (x : ℤ) + 1,
      s.curOffset + min (t.table.bound (set * t.table.perSet + x + 1) - s.curOffset) (fin - s.curOffset),
      toS64 (s.physOffset + (t.table.bound (set * t.table.perSet + x + 1) - s.entry.virtOffset)), mergeSize, readableSize,
      merged⟩ := by
  obtain ⟨-, -, hcurNext⟩ := h.scan_position hreq hinv hx hcur
  refine ⟨⟨by have := hinv.le; omega, hx⟩, ?_, hnext, ?_, ?_, ?_, hmerged, hinside, ?_⟩
  · show (x : ℤ) + 1 = ((x + 1 : ℕ) : ℤ)
    omega
  · show s.curOffset + _ = _
    rw [← add_assoc]
    omega
  · show toS64 (s.physOffset + (_ - s.entry.virtOffset)) = _
    rw [hinv.physOffset, toS64_add, hinv.entry hx, ← add_assoc]
    congr 1
    show _ + (_ - t.table.bound (set * t.table.perSet + x)) = _
    omega
  · refine ⟨hsizes.1, hsizes.2.1, hsizes.2.2.trans ?_⟩
    show _ = s.curOffset + _
    omega
  · intro y hky hy hzero
    by_cases hyx : y < x
    · obtain ⟨hphys, hle⟩ := hinv.base y hky hyx hzero
      exact ⟨hphys, hle.trans (by show cur + s.readableSize ≤ cur + readableSize; omega)⟩
    · obtain rfl : y = x := by omega
      exact hbase hzero

/-- **An iteration of the scan**: it stops, but not at the first entry, or it goes on. -/
lemma WellFormed.scan_step (hfirst : t.storageIndex (set * t.table.perSet + k) = 0) (hinv : t.ScanInv set k cur fin x s)
    (hx : x < t.table.setSize set) (fuel : ℕ) :
    (scanLoop t.table.tree (t.entrySet set) fin (fuel + 1) s = .ok s ∧ k < x) ∨
    ∃ s', scanLoop t.table.tree (t.entrySet set) fin (fuel + 1) s = scanLoop t.table.tree (t.entrySet set) fin fuel s' ∧
      t.ScanInv set k cur fin (x + 1) s' := by
  have hle := hinv.le
  have hsizes := hinv.sizes
  have hcount : s.entryIndex < (t.entrySet set).count := by
    rw [hinv.entryIndex]
    exact Int.ofNat_lt.2 hx
  rw [scanLoop, if_neg (not_not.2 hcount)]
  by_cases hcur : s.curOffset < fin
  swap
  · rw [if_pos (by omega)]
    refine .inl ⟨rfl, ?_⟩
    by_contra hnot
    obtain rfl : x = k := by omega
    have hoffset := hinv.curOffset
    have hlow := hreq.low
    have hlt := hreq.cur_lt
    omega
  have hentry := hinv.entry hx
  have hlt := h.entry_lt hreq.set_lt hx
  obtain ⟨hlow, hhigh, hcurNext⟩ := h.scan_position hreq hinv hx hcur
  obtain ⟨next, hnext, hnextEntry⟩ := h.scanNextEntry_spec hreq.set_lt hx
  have hvirt : s.entry.virtOffset ≤ s.curOffset := by
    rw [hentry]
    exact hlow
  rw [if_neg (by omega), hinv.entryIndex, hnext]
  dsimp only
  rw [if_neg (not_not.2 hvirt), if_neg (not_not.2 hhigh)]
  by_cases hfragment : t.storageIndex (set * t.table.perSet + x) = 0
  · have hbaseEntry : ¬ s.entry.isFragment = true := by
      rw [hentry, Entry.isFragment, show (t.entry (set * t.table.perSet + x)).storageIndex = 0 from hfragment]
      decide
    rw [if_neg hbaseEntry]
    by_cases hphys : s.physOffset = s.entry.physOffset
    · -- The base entry is at the same distance as the first one.
      have hdistance : t.physOffset (set * t.table.perSet + x) = t.physOffset (set * t.table.perSet + k) +
          (t.table.bound (set * t.table.perSet + x) - t.table.bound (set * t.table.perSet + k)) := by
        have hklt := h.entry_lt hreq.set_lt hreq.k_lt
        have hkpos := (h.inside _ hklt).1
        have hkphys := h.physOffset_lt hklt
        have hmono := h.increasing.bound_le (by omega : set * t.table.perSet + k ≤ set * t.table.perSet + x) hlt.le
        have hkrange := h.bound_range hklt.le
        have hxrange := h.bound_range hlt.le
        have hend := h.laidOut.endOffset_lt
        rw [hinv.physOffset, hentry] at hphys
        exact (eq_of_toS64_eq (by omega) (by omega) (h.inside _ hlt).1 hphys).symm
      rw [if_neg (not_not.2 hphys)]
      refine .inr ⟨_, rfl, ?_⟩
      have hinside := h.inside_at hlt (le_refl (t.table.bound (set * t.table.perSet + x + 1)))
      rw [hfragment, hdistance] at hinside
      refine h.scanInv_advance hreq hinv hx hcur hnextEntry ?_ ?_ ?_ ?_ ?_
      · exact ⟨le_refl _, by omega, by omega⟩
      · intro _
        omega
      · omega
      · have hzero : (t.contents 0).length = (t.contents (0 : ℤ).toNat).length := rfl
        omega
      · intro _
        exact ⟨hdistance, by omega⟩
    · rw [if_pos hphys]
      refine .inl ⟨rfl, ?_⟩
      by_contra hnot
      obtain rfl : x = k := by omega
      have hsame := hinv.physOffset
      rw [Int.sub_self, Int.add_zero, toS64_of_range (h.inside _ hlt).1 (h.physOffset_lt hlt)] at hsame
      exact hphys (by rw [hsame, hentry]; rfl)
  · have hfragmentEntry : s.entry.isFragment = true := by
      rw [hentry, Entry.isFragment]
      exact bne_iff_ne.2 hfragment
    rw [if_pos hfragmentEntry]
    have hkx : k < x := by
      rcases lt_or_ge k x with hlt' | hge
      · exact hlt'
      · obtain rfl : x = k := by omega
        exact absurd hfirst hfragment
    by_cases hstop : FragmentSizeMax ≤ min (t.table.bound (set * t.table.perSet + x + 1) - s.curOffset) (fin - s.curOffset) ∨
        fin - s.curOffset ≤ t.table.bound (set * t.table.perSet + x + 1) - s.curOffset
    · rw [if_pos hstop]
      exact .inl ⟨rfl, hkx⟩
    · rw [if_neg hstop]
      refine .inr ⟨_, rfl, ?_⟩
      refine h.scanInv_advance hreq hinv hx hcur hnextEntry ?_ hinv.merged (le_refl _) hinv.inside ?_
      · exact ⟨by omega, hsizes.2.1, by omega⟩
      · intro hzero
        exact absurd hzero hfragment

/-- **The scan** ends behind the first entry. -/
lemma WellFormed.scanLoop_spec
    (hfirst : t.storageIndex (set * t.table.perSet + k) = 0) (fuel : ℕ) : ∀ {x : ℕ} {s : ScanState},
    t.ScanInv set k cur fin x s → x + fuel = t.table.setSize set → (k < x ∨ 0 < fuel) →
    ∃ y s', scanLoop t.table.tree (t.entrySet set) fin fuel s = .ok s' ∧ t.ScanInv set k cur fin y s' ∧ k < y := by
  induction fuel with
  | zero =>
    intro x s hinv _ hk
    exact ⟨x, s, rfl, hinv, by omega⟩
  | succ fuel ih =>
    intro x s hinv hfuel _
    rcases h.scan_step hreq hfirst hinv (by omega) fuel with ⟨hstop, hkx⟩ | ⟨s', hgo, hinv'⟩
    · exact ⟨x, s, hstop, hinv, hkx⟩
    · rw [hgo]
      exact ih hinv' (by omega) (.inl (by have := hinv.le; omega))

end

end Step

/-- **What a scan promises**: `n` entries can be skipped, where `size` bytes of the base storage can be read at once if
this is not zero. -/
structure Scanned (t : IndirectTable) (i : ℕ) (cur fin size : ℤ) (n : ℕ) : Prop where
  pos : 0 < n
  le : i + n ≤ t.table.entryCount
  nonneg : 0 ≤ size
  fin_le : 0 < size → cur + size ≤ fin
  inside : 0 < size → t.physOffset i + (cur + size - t.table.bound i) ≤ (t.contents 0).length
  base : 0 < size → ∀ j, i ≤ j → j < i + n → t.storageIndex j = 0 →
    t.physOffset j = t.physOffset i + (t.table.bound j - t.table.bound i) ∧
    min (t.table.bound (j + 1)) fin ≤ cur + size

lemma WellFormed.scan_spec (h : t.WellFormed) {i : ℕ} {cur fin : ℤ} (hat : t.table.AtEntry v i) (hlow : t.table.bound i ≤ cur)
    (hhigh : cur < t.table.bound (i + 1)) (hcur : cur < fin) (hfin : fin ≤ t.table.endOffset) (hbase : t.storageIndex i = 0) :
    ∃ (size : ℤ) (n : ℕ), scanContinuousReading t.table.tree t.entryStorageSize v cur (fin - cur) = .ok ⟨size, n, false⟩ ∧
      t.Scanned i cur fin size n := by
  have hget := h.get_eq hat
  obtain ⟨set, k, rfl, hset, hk⟩ := h.laidOut.exists_set hat.lt
  obtain ⟨-, hindex, hentrySet, -, -⟩ := (h.laidOut.atEntry_iff hset hk).1 hat
  obtain ⟨-, -, hin, -, -⟩ := h.laidOut.setSize_spec hset
  have hreq : t.Request set k cur fin := ⟨hset, hk, hlow, hhigh, hcur, hfin⟩
  have hstorage : t.table.tree.nodeSize + v.entrySet.index.toNat * t.table.tree.nodeSize ≤ t.entryStorageSize := by
    have hle : (set + 1) * t.table.nodeSize ≤ t.table.setCount * t.table.nodeSize := mul_le_mul_right _ hset
    have := h.entryStorage
    rw [add_mul, one_mul] at hle
    rw [hentrySet, tree_nodeSize, Int.toNat_natCast]
    omega
  have hfragment : ¬ (Entry.get v).isFragment = true := by
    rw [hget, Entry.isFragment, show (t.entry (set * t.table.perSet + k)).storageIndex = 0 from hbase]
    decide
  have hvirt : (Entry.get v).virtOffset ≤ cur := by
    rw [hget]
    exact hlow
  obtain ⟨y, s, hloop, hinv, hky⟩ := h.scanLoop_spec hreq hbase (t.table.setSize set - k) (h.scanInv_start hreq hbase)
    (by omega) (.inr (by omega))
  have hfuel : (v.entrySet.count - v.entryIndex).toNat = t.table.setSize set - k := by
    rw [hentrySet, hindex]
    show ((t.table.setSize set : ℤ) - k).toNat = _
    omega
  have hcount : s.entryIndex - v.entryIndex = ((y - k : ℕ) : ℤ) := by
    rw [hinv.entryIndex, hindex]
    omega
  rw [scanContinuousReading]
  dsimp only
  rw [if_neg (by omega), if_neg hfragment, if_neg (not_not.2 hvirt), if_neg (not_not.2 hstorage), hfuel,
    show cur + (fin - cur) = fin by omega, hget, hindex, show v.entrySet = t.entrySet set from hentrySet]
  rw [show (t.entry (set * t.table.perSet + k)).physOffset = t.physOffset (set * t.table.perSet + k) from rfl, hloop]
  dsimp only
  rw [← hindex, hcount]
  have hyle := hinv.le
  refine ⟨_, _, rfl, ?_⟩
  by_cases hmerged : s.merged = true
  · rw [if_pos hmerged]
    have hsizes := hinv.sizes
    have hoffset := hinv.curOffset
    refine ⟨by omega, by omega, hsizes.2.1, fun _ => by omega, fun _ => hinv.inside, ?_⟩
    intro _ j hij hj hzero
    obtain ⟨x, rfl⟩ : ∃ x, j = set * t.table.perSet + x := ⟨j - set * t.table.perSet, by omega⟩
    exact hinv.base x (by omega) (by omega) hzero
  · rw [if_neg hmerged]
    exact ⟨by omega, by omega, le_refl _, fun hpos => absurd hpos (lt_irrefl _), fun hpos => absurd hpos (lt_irrefl _),
      fun hpos => absurd hpos (lt_irrefl _)⟩

end Scan

/-! ## Bytes that are stored -/

section Bytes

variable {offset : ℤ} {m m' : ℕ → Byte}

/-- The bytes from one address to another are stored in a buffer that starts at `offset`. -/
structure Stored (offset : ℤ) (m m' : ℕ → Byte) (lo hi : ℤ) (f : ℤ → Byte) : Prop where
  inside : ∀ a, lo ≤ a → a < hi → m' (a - offset).toNat = f a
  outside : ∀ x : ℕ, ¬ (lo ≤ offset + x ∧ offset + x < hi) → m' x = m x

lemma Stored.outside_at {lo hi : ℤ} {f : ℤ → Byte} (h : Stored offset m m' lo hi f) {a : ℤ} (ha : offset ≤ a)
    (hout : ¬ (lo ≤ a ∧ a < hi)) : m' (a - offset).toNat = m (a - offset).toNat :=
  h.outside _ (by rw [show offset + ((a - offset).toNat : ℤ) = a by omega]; exact hout)

lemma WellFormed.readFunc_spec (h : t.WellFormed) (tree : BucketTree) {k : ℕ} (hk : k < 2) {dataOffset cur size : ℤ}
    (hdata : 0 ≤ dataOffset) (hsize : 0 ≤ size) (hin : dataOffset + size ≤ (t.contents k).length) (hcur : offset ≤ cur)
    (m : ℕ → Byte) : ∃ m', (t.storage tree).readFunc offset k dataOffset cur size (some m) = (.ok (), some m') ∧
      Stored offset m m' cur (cur + size) fun a => (t.contents k).getD (dataOffset + (a - cur)).toNat 0 := by
  obtain ⟨hslices, hsmall⟩ := h.storages k hk
  have hread := hslices.read size.toNat dataOffset.toNat (by omega) (by omega)
  have hlength : (((t.contents k).drop dataOffset.toNat).take size.toNat).length = size.toNat := by
    rw [List.length_take, List.length_drop]
    omega
  have hfunc : (t.storage tree).readFunc offset k dataOffset cur size (some m) = (.ok (),
      some (overwrite m (cur - offset).toNat (((t.contents k).drop dataOffset.toNat).take size.toNat).length
        fun i => (((t.contents k).drop dataOffset.toNat).take size.toNat).getD i 0)) := by
    rw [readFunc, show (t.storage tree).dataStorage k = t.dataStorage k from rfl, hread]
    rfl
  refine ⟨_, hfunc, ?_, ?_⟩
  · intro a hlo hhi
    rw [hlength, overwrite_inside (by omega), List.getD_eq_getElem?_getD, List.getElem?_take_of_lt (by omega),
      List.getElem?_drop, ← List.getD_eq_getElem?_getD]
    congr 1
    omega
  · intro x hx
    rw [hlength, overwrite_outside (by omega)]

lemma WellFormed.operate_entry (h : t.WellFormed) (tree : BucketTree) (phys size : IndirectStorage.Error) {i : ℕ}
    (hi : i < t.table.entryCount) {cur n : ℤ} (hoffset : offset ≤ cur) (hlow : t.table.bound i ≤ cur) (hn : 0 ≤ n)
    (hin : t.physOffset i + (cur + n - t.table.bound i) ≤ (t.contents (t.storageIndex i).toNat).length) (m : ℕ → Byte) :
    ∃ m', (t.storage tree).operate ((t.storage tree).readFunc offset) true phys size (t.storageIndex i).toNat
        (t.physOffset i) (cur - t.table.bound i) cur n (some m) = (.ok (), some m') ∧
      Stored offset m m' cur (cur + n) (t.byteOfEntry i) := by
  have hindex : (t.storageIndex i).toNat < 2 := by
    have := h.index_lt i hi
    omega
  have hpos := (h.inside i hi).1
  have hsize : ((t.storage tree).dataStorage (t.storageIndex i).toNat).getSize =
      (t.contents (t.storageIndex i).toNat).length := (h.storages _ hindex).1.size
  obtain ⟨m', hfunc, hstored⟩ := h.readFunc_spec tree hindex (by omega : 0 ≤ t.physOffset i + (cur - t.table.bound i)) hn
    (by omega) hoffset m
  refine ⟨m', ?_, ?_, hstored.outside⟩
  · rw [operate, hsize, if_neg (by rintro ⟨-, hnot⟩; omega), if_neg (by rintro ⟨-, hnot⟩; omega), hfunc]
  · intro a hlo hhi
    rw [hstored.inside a hlo hhi, byteOfEntry, ← bound_of_lt hi]
    congr 2
    omega

end Bytes

/-! ## The loop over the entries -/

section Loop

variable {offset fin cur : ℤ} {i : ℕ} {info : ContinuousReadingInfo} {m0 m : ℕ → Byte}

/-- The byte of an address is right: it is the one that the last entry says whose offset is not greater. -/
def Right (t : IndirectTable) (offset : ℤ) (m : ℕ → Byte) (a : ℤ) : Prop :=
  ∃ e, t.table.LastEntry a e ∧ m (a - offset).toNat = t.byteOfEntry e a

/-- The bytes of the base entries from `i` up to `u` are right. -/
def Covered (t : IndirectTable) (offset fin cur : ℤ) (m : ℕ → Byte) (i : ℕ) (u : ℤ) : Prop :=
  ∀ j : ℕ, i ≤ j → j < u → t.storageIndex j = 0 → ∀ a, t.table.bound j ≤ a → a < t.table.bound (j + 1) → cur ≤ a → a < fin →
    t.Right offset m a

/-- What every iteration keeps of the buffer. -/
structure Delivered (t : IndirectTable) (offset fin cur : ℤ) (m0 m : ℕ → Byte) : Prop where
  right : ∀ a, offset ≤ a → a < cur → t.Right offset m a
  frame : ∀ x : ℕ, fin ≤ offset + x → m x = m0 x

/-- **The invariant of the loop** at the entry `i`. -/
structure LoopInv (t : IndirectTable) (offset fin cur : ℤ) (i : ℕ) (info : ContinuousReadingInfo) (m0 m : ℕ → Byte) : Prop where
  delivered : t.Delivered offset fin cur m0 m
  readSize : info.readSize = 0
  covered : info.done = true → t.Covered offset fin cur m i (i + info.skipCount - 1)

lemma WellFormed.right_of_entry (h : t.WellFormed) (hi : i < t.table.entryCount) {a : ℤ} (hlow : t.table.bound i ≤ a)
    (hhigh : a < t.table.bound (i + 1)) (hbyte : m (a - offset).toNat = t.byteOfEntry i a) : t.Right offset m a :=
  ⟨i, h.increasing.lastEntry hi hlow hhigh, hbyte⟩

variable {m' : ℕ → Byte} {f : ℤ → Byte}

lemma Right.of_stored {lo hi a : ℤ} (hstored : Stored offset m m' lo hi f) (ha : offset ≤ a)
    (hout : ¬ (lo ≤ a ∧ a < hi)) (hright : t.Right offset m a) : t.Right offset m' a := by
  obtain ⟨e, hlast, hbyte⟩ := hright
  exact ⟨e, hlast, (hstored.outside_at ha hout).trans hbyte⟩

lemma Delivered.stored {hi : ℤ} (h : t.Delivered offset fin cur m0 m)
    (hstored : Stored offset m m' cur hi f) (hhi : hi ≤ fin) : t.Delivered offset fin cur m0 m' := by
  refine ⟨?_, ?_⟩
  · intro a ha hcur
    exact (h.right a ha hcur).of_stored hstored ha (by omega)
  · intro x hx
    rw [hstored.outside x (by omega), h.frame x hx]

/-- Base entries at one distance have the same bytes. -/
lemma byteOfEntry_eq {j : ℕ} (hi : i < t.table.entryCount) (hj : j < t.table.entryCount) (hbase : t.storageIndex i = 0)
    (hbase' : t.storageIndex j = 0) (hphys : t.physOffset j = t.physOffset i + (t.table.bound j - t.table.bound i)) (a : ℤ) :
    t.byteOfEntry i a = t.byteOfEntry j a := by
  rw [byteOfEntry, byteOfEntry, hbase, hbase', hphys, ← bound_of_lt hi, ← bound_of_lt hj]
  congr 2
  omega

section

variable (h : t.WellFormed)
include h

/-- **The scan and the read that it allows.**  Behind them the current entry is covered if the read has been done. -/
lemma WellFormed.operateContinuous_spec (hat : t.table.AtEntry v i) (hlow : t.table.bound i ≤ cur)
    (hhigh : cur < t.table.bound (i + 1)) (hcur : cur < fin) (hfin : fin ≤ t.table.endOffset) (hoffset : offset ≤ cur)
    (hinv : t.LoopInv offset fin cur i info m0 m) :
    ∃ info' m', (t.storage t.table.tree).operateContinuous ((t.storage t.table.tree).readFunc offset) true v cur fin info
        (some m) = (.ok info', some m') ∧ t.Delivered offset fin cur m0 m' ∧ info'.readSize = 0 ∧
      (info'.done = true → 0 < info'.skipCount ∧ t.Covered offset fin cur m' i (i + info'.skipCount)) := by
  have hget := h.get_eq hat
  rw [operateContinuous, hget]
  by_cases hscan : info.skipCount - 1 ≤ 0
  swap
  · -- The entry is one that an earlier scan went through.
    rw [if_neg hscan]
    dsimp only
    rw [hinv.readSize, if_neg (lt_irrefl _)]
    refine ⟨_, m, rfl, hinv.delivered, rfl, fun hdone => ⟨by show 0 < info.skipCount - 1; omega, ?_⟩⟩
    show t.Covered offset fin cur m i (i + (info.skipCount - 1))
    rw [← Int.add_sub_assoc]
    exact hinv.covered hdone
  rw [if_pos hscan, show (t.storage t.table.tree).table = t.table.tree from rfl,
    show (t.storage t.table.tree).entryStorageSize = t.entryStorageSize from rfl]
  by_cases hbase : t.storageIndex i = 0
  swap
  · have hfragment : (t.entry i).isFragment = true := bne_iff_ne.2 hbase
    have hreset : scanContinuousReading t.table.tree t.entryStorageSize v cur (fin - cur) = .ok .reset := by
      rw [scanContinuousReading, hget]
      rw [if_neg (by omega), if_pos hfragment]
    rw [hreset]
    exact ⟨_, m, rfl, hinv.delivered, rfl, fun hdone => absurd hdone (by decide)⟩
  obtain ⟨size, n, hscanned, hspec⟩ := h.scan_spec hat hlow hhigh hcur hfin hbase
  rw [hscanned]
  dsimp only
  by_cases hpos : size > 0
  · have hindex : (t.entry i).storageIndex = 0 := hbase
    obtain ⟨m', hoperate, hstored⟩ := h.operate_entry t.table.tree .invalidIndirectEntryOffset .invalidIndirectStorageSize
      hat.lt hoffset hlow hpos.le (by rw [hbase]; exact hspec.inside hpos) m
    rw [hbase] at hoperate
    rw [if_pos hpos, if_neg (not_not.2 hindex), show (0 : ℕ) = (0 : ℤ).toNat from rfl,
      show (t.entry i).physOffset = t.physOffset i from rfl, show (t.entry i).virtOffset = t.table.bound i from rfl, hoperate]
    refine ⟨_, m', rfl, hinv.delivered.stored hstored (hspec.fin_le hpos), rfl, fun _ => ⟨Int.ofNat_lt.2 hspec.pos, ?_⟩⟩
    intro j hij hj hzero a hlo hhi hca haf
    have hjn : j < i + n := by
      have hj' : (j : ℤ) < i + (n : ℤ) := hj
      omega
    have hjlt : j < t.table.entryCount := by
      have := hspec.le
      omega
    obtain ⟨hphys, hle⟩ := hspec.base hpos j hij hjn hzero
    refine h.right_of_entry hjlt hlo hhi ?_
    rw [hstored.inside a hca (by omega)]
    exact byteOfEntry_eq hat.lt hjlt hbase hzero hphys a
  · have hnonneg := hspec.nonneg
    rw [if_neg hpos]
    exact ⟨_, m, rfl, hinv.delivered, by show size = 0; omega, fun hdone => absurd hdone Bool.false_ne_true⟩

lemma WellFormed.nextEntryOffset_spec (hc : t.table.Countable) (hat : t.table.AtEntry v i) :
    ∃ v', (t.storage t.table.tree).nextEntryOffset v = .ok (v', t.table.bound (i + 1)) ∧
      (i + 1 < t.table.entryCount → t.table.AtEntry v' (i + 1)) := by
  have hcan := h.laidOut.canMoveNext_iff hat
  rw [nextEntryOffset]
  by_cases hmore : i + 1 < t.table.entryCount
  · obtain ⟨v', hmove, hat'⟩ := h.laidOut.moveNext_of_lt hc hat hmore
    have hfirst := h.increasing.bound_le (zero_le (i + 1)) hmore.le
    have hlast := (h.increasing _ hmore).trans_le (h.bound_range (by omega)).2
    rw [bound_of_lt h.laidOut.entryCount_pos] at hfirst
    have hinclude : isInclude t.table.tree (t.entry (i + 1)).virtOffset = true := decide_eq_true ⟨hfirst, hlast⟩
    rw [if_pos (hcan.2 hmore), show (t.storage t.table.tree).table = t.table.tree from rfl, hmove]
    dsimp only
    rw [h.get_eq hat', hinclude, if_neg (by decide)]
    exact ⟨v', rfl, fun _ => hat'⟩
  · rw [if_neg (mt hcan.1 hmore)]
    have hlt := hat.lt
    refine ⟨v, ?_, fun hlt' => absurd hlt' hmore⟩
    rw [show i + 1 = t.table.entryCount by omega, bound_entryCount]
    rfl

lemma WellFormed.loopInv_next (hi : i < t.table.entryCount) {m' : ℕ → Byte} {n : ℤ}
    (hn : n = min (fin - cur) (t.table.bound (i + 1) - cur)) (hoffset : offset ≤ cur) (hlow : t.table.bound i ≤ cur)
    (hhigh : cur < t.table.bound (i + 1)) (hdelivered : t.Delivered offset fin cur m0 m)
    (hsize : info.readSize = 0)
    (hcovered : info.done = true → 0 < info.skipCount ∧ t.Covered offset fin cur m i (i + info.skipCount))
    (hoperated : Stored offset m m' cur (cur + n) (t.byteOfEntry i) ∨
      (m' = m ∧ info.done = true ∧ t.storageIndex i = 0)) :
    t.LoopInv offset fin (cur + n) (i + 1) info m0 m' := by
  rcases hoperated with hstored | ⟨rfl, hdone, hbase⟩
  · refine ⟨⟨?_, ?_⟩, hsize, ?_⟩
    · intro a ha hlt
      by_cases hbefore : a < cur
      · exact (hdelivered.right a ha hbefore).of_stored hstored ha (by omega)
      · exact h.right_of_entry hi (by omega) (by omega) (hstored.inside a (by omega) hlt)
    · intro x hx
      rw [hstored.outside x (by omega), hdelivered.frame x hx]
    · intro hdone j hij hj hzero a hlo hhi hca haf
      refine ((hcovered hdone).2 j (by omega) (by omega) hzero a hlo hhi (by omega) haf).of_stored hstored (by omega) ?_
      omega
  · obtain ⟨hpos, hcover⟩ := hcovered hdone
    refine ⟨⟨?_, hdelivered.frame⟩, hsize, ?_⟩
    · intro a ha hlt
      by_cases hbefore : a < cur
      · exact hdelivered.right a ha hbefore
      · exact hcover i (le_refl i) (by omega) hbase a (by omega) (by omega) (by omega) (by omega)
    · intro _ j hij hj hzero a hlo hhi hca haf
      exact hcover j (by omega) (by omega) hzero a hlo hhi (by omega) haf

lemma WellFormed.operateLoop_spec (hc : t.table.Countable) (continuousCheck : Bool)
    (hfin : fin ≤ t.table.endOffset) (fuel : ℕ) : ∀ {v : Visitor} {cur : ℤ} {i : ℕ} {info : ContinuousReadingInfo}
      {m : ℕ → Byte}, t.LoopInv offset fin cur i info m0 m → (continuousCheck = false → info.done = false) →
    offset ≤ cur → cur ≤ fin → (cur < fin → t.table.AtEntry v i ∧ t.table.bound i ≤ cur ∧ cur < t.table.bound (i + 1)) → fin - cur ≤ fuel →
    ∃ m', (t.storage t.table.tree).operateLoop ((t.storage t.table.tree).readFunc offset) continuousCheck true fin fuel v cur
      info (some m) = (.ok (), some m') ∧ t.Delivered offset fin fin m0 m' := by
  induction fuel with
  | zero =>
    intro v cur i info m hinv _ _ hle _ hfuel
    obtain rfl : cur = fin := by
      omega
    exact ⟨m, rfl, hinv.delivered⟩
  | succ fuel ih =>
    intro v cur i info m hinv hdone hoffset hle hat hfuel
    rw [operateLoop]
    by_cases hcur : cur < fin
    swap
    · obtain rfl : cur = fin := by omega
      rw [if_pos hcur]
      exact ⟨m, rfl, hinv.delivered⟩
    obtain ⟨hat, hlow, hhigh⟩ := hat hcur
    have hindex := h.index_lt i hat.lt
    have hvirt : (t.entry i).virtOffset ≤ cur := hlow
    have hrange : 0 ≤ (t.entry i).storageIndex ∧ (t.entry i).storageIndex < StorageCount := by
      show 0 ≤ t.storageIndex i ∧ t.storageIndex i < 2
      omega
    have hcontinuous : ∃ info' m', (if continuousCheck = true then (t.storage t.table.tree).operateContinuous
        ((t.storage t.table.tree).readFunc offset) true v cur fin info (some m) else (.ok info, some m)) =
          (.ok info', some m') ∧ t.Delivered offset fin cur m0 m' ∧ info'.readSize = 0 ∧
        (info'.done = true → 0 < info'.skipCount ∧ t.Covered offset fin cur m' i (i + info'.skipCount)) ∧
        (continuousCheck = false → info'.done = false) := by
      by_cases hcheck : continuousCheck = true
      · rw [if_pos hcheck]
        obtain ⟨info', m', hoperate, hdelivered, hsize, hcovered⟩ :=
          h.operateContinuous_spec hat hlow hhigh hcur hfin hoffset hinv
        exact ⟨info', m', hoperate, hdelivered, hsize, hcovered, fun hnot => absurd hcheck (by rw [hnot]; decide)⟩
      · have hnot := hdone (Bool.eq_false_iff.2 hcheck)
        rw [if_neg hcheck]
        exact ⟨info, m, rfl, hinv.delivered, hinv.readSize, fun hdone' => absurd hdone' (by rw [hnot]; decide),
          fun _ => hnot⟩
    obtain ⟨info', m', hfirst, hdelivered, hsize, hcovered, hdone'⟩ := hcontinuous
    obtain ⟨v', hnext, hat'⟩ := h.nextEntryOffset_spec hc hat
    have hcurSize : min (fin - cur) (t.table.bound (i + 1) - (t.entry i).virtOffset - (cur - (t.entry i).virtOffset)) =
        min (fin - cur) (t.table.bound (i + 1) - cur) := by
      congr 1
      omega
    have hoperated : ∃ m'', (if (!continuousCheck || (!info'.done || (t.entry i).storageIndex != 0)) = true then
          (t.storage t.table.tree).operate ((t.storage t.table.tree).readFunc offset) true .indirectStorageCorrupted
            .indirectStorageCorrupted (t.entry i).storageIndex.toNat (t.entry i).physOffset (cur - (t.entry i).virtOffset)
            cur (min (fin - cur) (t.table.bound (i + 1) - cur)) (some m')
        else (.ok (), some m')) = (.ok (), some m'') ∧
        (Stored offset m' m'' cur (cur + min (fin - cur) (t.table.bound (i + 1) - cur)) (t.byteOfEntry i) ∨
          (m'' = m' ∧ info'.done = true ∧ t.storageIndex i = 0)) := by
      by_cases hneeds : (!continuousCheck || (!info'.done || (t.entry i).storageIndex != 0)) = true
      · obtain ⟨m'', hoperate, hstored⟩ := h.operate_entry t.table.tree .indirectStorageCorrupted
          .indirectStorageCorrupted hat.lt hoffset hlow (by omega : 0 ≤ min (fin - cur) (t.table.bound (i + 1) - cur))
          (h.inside_at hat.lt (by omega)) m'
        rw [if_pos hneeds]
        exact ⟨m'', hoperate, .inl hstored⟩
      · rw [if_neg hneeds]
        refine ⟨m', rfl, .inr ⟨rfl, ?_, ?_⟩⟩
        · simp only [Bool.or_eq_true, Bool.not_eq_true', not_or, Bool.not_eq_false] at hneeds
          exact hneeds.2.1
        · simp only [Bool.or_eq_true, not_or, bne_iff_ne, not_not] at hneeds
          exact hneeds.2.2
    obtain ⟨m'', hsecond, hstored⟩ := hoperated
    have hinv' := h.loopInv_next hat.lt rfl hoffset hlow hhigh hdelivered hsize hcovered hstored
    rw [if_neg (not_not.2 hcur), h.get_eq hat]
    rw [if_neg (not_not.2 hvirt), if_neg (not_not.2 hrange), hfirst]
    rw [hnext]
    dsimp only
    rw [if_neg (not_not.2 hhigh), hcurSize, hsecond]
    refine ih hinv' hdone' (by omega) (by omega) ?_ (by omega)
    intro hmore
    have hbound : t.table.bound (i + 1) < t.table.endOffset := by omega
    have hlast : i + 1 < t.table.entryCount := by
      by_contra hnot
      have hlt := hat.lt
      rw [show i + 1 = t.table.entryCount by omega, bound_entryCount] at hbound
      exact lt_irrefl _ hbound
    have := h.increasing _ hlast
    exact ⟨hat' hlast, by omega, by omega⟩

lemma WellFormed.operatePerEntry_spec (hc : t.table.Countable) (continuousCheck : Bool) {size : ℤ}
    (hsize : 0 < size) (hstart : t.table.entryOffset 0 ≤ offset) (hend : offset + size ≤ t.table.endOffset) (m : ℕ → Byte) :
    ∃ m', (t.storage t.table.tree).operatePerEntry ((t.storage t.table.tree).readFunc offset) continuousCheck true offset size
      (some m) = (.ok (), some m') ∧ t.Delivered offset (offset + size) (offset + size) m m' := by
  obtain ⟨v, i, hfind, hat, hlast⟩ := h.laidOut.find_spec hc hstart (by omega)
  obtain ⟨hlow, hhigh⟩ := hlast.bounds (by omega)
  have hinclude : isIncludeRange t.table.tree offset size = true :=
    decide_eq_true ⟨hsize, hstart, by show size ≤ t.table.endOffset - offset; omega⟩
  have hfirst := h.increasing.bound_le (zero_le i) hat.lt.le
  rw [bound_of_lt h.laidOut.entryCount_pos] at hfirst
  have hentry : 0 ≤ (Entry.get v).virtOffset ∧ isInclude t.table.tree (Entry.get v).virtOffset = true := by
    rw [h.get_eq hat]
    exact ⟨(h.bound_range hat.lt.le).1, decide_eq_true ⟨hfirst, by show t.table.bound i < t.table.endOffset; omega⟩⟩
  have hinv : t.LoopInv offset (offset + size) offset i .reset m m :=
    ⟨⟨fun a ha hlt => by omega, fun _ _ => rfl⟩, rfl, fun hdone => absurd hdone (by decide)⟩
  rw [operatePerEntry, if_neg (by omega), show (t.storage t.table.tree).table = t.table.tree from rfl, hinclude,
    if_neg (by decide), hfind]
  dsimp only
  rw [if_neg (not_not.2 hentry)]
  exact h.operateLoop_spec hc continuousCheck hend size.toNat hinv (fun _ => rfl) (le_refl _) (by omega)
    (fun _ => ⟨hat, hlow, hhigh⟩) (by omega)

end

end Loop

/-! ## Reads -/

/-- **What reads have to do.**  The table is accepted, and a read of a range of it fills every byte of the buffer, and no other
memory, with the byte `phys + address - virt` of the storage of the last entry whose offset is not greater, whether or not
the reads of the data storages are merged. -/
def Pointwise (t : IndirectTable) : Prop :=
  ∃ tree, initializeTree t.table.nodeStorage t.table.entryStorage NodeSize EntrySize t.table.entryCount = .ok tree ∧
    ∀ (continuousCheck : Bool) (buffer : ℕ → Byte) (offset size : ℕ), t.table.entryOffset 0 ≤ offset →
      offset + size ≤ t.table.endOffset → ∃ buffer', (t.storage tree).readBy continuousCheck (some buffer) size offset =
        (size, some buffer') ∧
      (∀ k < size, ∃ e, t.table.LastEntry (offset + k : ℕ) e ∧ buffer' k = t.byteOfEntry e (offset + k : ℕ)) ∧
      ∀ k, size ≤ k → buffer' k = buffer k

lemma WellFormed.perSet_eq (h : t.WellFormed) : t.table.perSet = 818 ∧ t.table.slots = 2046 := by
  rw [perSet, slots, h.nodeSize, h.entrySize]
  decide

lemma WellFormed.countable (h : t.WellFormed) (hcount : t.table.entryCount + 817 < 2 ^ 31) : t.table.Countable := by
  obtain ⟨hperSet, hslots⟩ := h.perSet_eq
  refine ⟨by rw [hperSet]; exact hcount, .inr ?_⟩
  rw [setCount, hperSet, hslots]
  omega

lemma WellFormed.pointwise_of_countable (h : t.WellFormed) (hc : t.table.Countable) : t.Pointwise := by
  refine ⟨t.table.tree, ?_, ?_⟩
  · rw [← h.nodeSize, ← h.entrySize]
    exact h.laidOut.initialize_eq hc.1
  intro continuousCheck buffer offset size hstart hend
  have hlimit := h.laidOut.endOffset_lt
  by_cases hzero : size = 0
  · refine ⟨buffer, ?_, fun k hk => by omega, fun _ _ => rfl⟩
    rw [readBy, if_pos hzero, hzero]
  · obtain ⟨m', hoperate, hdelivered⟩ := h.operatePerEntry_spec hc continuousCheck (by omega : 0 < (size : ℤ)) hstart hend
      buffer
    refine ⟨m', ?_, ?_, ?_⟩
    · rw [readBy, if_neg hzero, toS64_of_range (by omega) (by omega), toS64_of_range (by omega) (by omega), hoperate]
    · intro k hk
      obtain ⟨e, hlast, hbyte⟩ := hdelivered.right ((offset + k : ℕ) : ℤ) (by omega) (by omega)
      rw [show (((offset + k : ℕ) : ℤ) - offset).toNat = k by omega] at hbyte
      exact ⟨e, hlast, hbyte⟩
    · intro k hk
      exact hdelivered.frame k (by omega)

lemma operatePerEntry_of_not_found {S : Type} (storage : IndirectStorage) (hfind : ∀ va v, storage.table.find va ≠ .ok v)
    (func : ℕ → ℤ → ℤ → ℤ → S → Except IndirectStorage.Error Unit × S) (continuousCheck rangeCheck : Bool) (offset size : ℤ)
    (s : S) : (storage.operatePerEntry func continuousCheck rangeCheck offset size s).2 = s := by
  rw [operatePerEntry]
  by_cases hsize : size = 0
  · rw [if_pos hsize]
  rw [if_neg hsize]
  by_cases hinclude : isIncludeRange storage.table offset size = false
  · rw [if_pos hinclude]
  rw [if_neg hinclude]
  cases hresult : storage.table.find offset with
  | error e => rfl
  | ok v => exact absurd hresult (hfind _ v)

lemma readBy_of_not_found {tree : BucketTree} (hfind : ∀ va v, tree.find va ≠ .ok v) (continuousCheck : Bool)
    (buffer : Buffer) (size offset : ℕ) : (t.storage tree).readBy continuousCheck buffer size offset = (size, buffer) := by
  rw [readBy]
  by_cases hzero : size = 0
  · rw [if_pos hzero, hzero]
  · rw [if_neg hzero, operatePerEntry_of_not_found (t.storage tree) hfind]

lemma lastEntry_unique {a : ℤ} {i j : ℕ} (hi : t.table.LastEntry a i) (hj : t.table.LastEntry a j) : i = j := by
  by_contra hne
  rcases lt_or_gt_of_ne hne with hlt | hlt
  · exact absurd hj.2.1 (not_le.2 (hi.2.2 j hlt hj.1))
  · exact absurd hi.2.1 (not_le.2 (hj.2.2 i hlt hi.1))

/-- A number of entries that cannot be rounded up: nothing is found. -/
lemma WellFormed.not_pointwise (h : t.WellFormed) (hcount : 2 ^ 31 ≤ t.table.entryCount + 817) : ¬ t.Pointwise := by
  rintro ⟨tree, htree, hread⟩
  have hfind : ∀ va v, tree.find va ≠ .ok v := by
    intro va v hfind
    have hpos := entrySetCount_pos_of_find hfind
    rw [entrySetCount_of_success htree, ← h.nodeSize, ← h.entrySize] at hpos
    exact absurd (h.laidOut.getEntrySetCount_nonpos (by rw [h.perSet_eq.1]; exact hcount)) (by omega)
  have hnonneg := h.laidOut.nonneg
  have hlt := h.laidOut.start_lt_end
  -- The same byte would have to be delivered over two different ones.
  have hkept : ∀ byte : Byte, ∃ e, t.table.LastEntry ((t.table.entryOffset 0).toNat + 0 : ℕ) e ∧
      byte = t.byteOfEntry e ((t.table.entryOffset 0).toNat + 0 : ℕ) := by
    intro byte
    obtain ⟨buffer', hresult, hbytes, -⟩ := hread true (fun _ => byte) (t.table.entryOffset 0).toNat 1 (by omega) (by omega)
    have hsame := readBy_of_not_found (t := t) hfind true (some fun _ => byte) 1 (t.table.entryOffset 0).toNat
    rw [hresult, Prod.mk.injEq, Option.some.injEq] at hsame
    obtain ⟨e, hlast, hbyte⟩ := hbytes 0 (by omega)
    refine ⟨e, hlast, ?_⟩
    rw [← hbyte, hsame.2]
  obtain ⟨e, hlast, hbyte⟩ := hkept 0
  obtain ⟨e', hlast', hbyte'⟩ := hkept 1
  rw [lastEntry_unique hlast' hlast, ← hbyte] at hbyte'
  exact absurd hbyte' (by decide)

/-- **Reads of an indirect storage are pointwise**, exactly if the number of entries can be rounded up to full entry sets in
32 bits. -/
theorem read_pointwise (t : IndirectTable) (h : t.WellFormed) : t.Pointwise ↔ t.table.entryCount + 817 < 2 ^ 31 := by
  constructor
  · intro hpointwise
    by_contra hnot
    exact h.not_pointwise (by omega) hpointwise
  · intro hcount
    exact h.pointwise_of_countable (h.countable hcount)

/-! ## Tables of patches -/

section Patches

variable {count : ℕ}

/-- What the entries of the table below have behind their offsets. -/
def patchPayload (count i q : ℕ) : Byte :=
  if q < 0x10 then byteOf (min i count) (q - 8) else byteOf (i % 2) (q - 0x10)

def patchOffsets (count : ℕ) : BucketTable where
  nodeSize := NodeSize
  entrySize := EntrySize
  entryCount := count
  entryOffset i := (min i count : ℕ)
  endOffset := count
  nodeStorage _ := 0
  entryStorage _ := 0

/-- A base storage of zeros, in which every other byte is patched by a one. -/
def patchTable (count : ℕ) : IndirectTable where
  table := (patchOffsets count).layOut (patchPayload count)
  physOffset i := (min i count : ℕ)
  storageIndex i := (i % 2 : ℕ)
  entryStorageSize := (patchOffsets count).setCount * NodeSize
  dataStorage k := staticVfsFile (BitVec.ofNat 8 k) count
  contents k := List.replicate count (BitVec.ofNat 8 k)

lemma patchOffsets_bound {i : ℕ} (hi : i ≤ count) : (patchOffsets count).bound i = i := by
  rw [bound]
  split_ifs with hlt
  · show ((min i count : ℕ) : ℤ) = i
    omega
  · have hnot : ¬ i < count := hlt
    show (count : ℤ) = i
    omega

lemma patchOffsets_counts (hlt : count < 2 ^ 31) : (patchOffsets count).perSet = 818 ∧
    (patchOffsets count).l2Count ≤ (patchOffsets count).slots := by
  have hperSet : (patchOffsets count).perSet = 818 := by
    show (0x4000 - 0x10) / 0x14 = 818
    decide
  have hslots : (patchOffsets count).slots = 2046 := by
    show (0x4000 - 0x10) / 8 = 2046
    decide
  have hsets : (patchOffsets count).setCount = (count + 817) / 818 := by
    rw [setCount, hperSet]
    rfl
  refine ⟨hperSet, ?_⟩
  rw [l2Count, hslots, hsets]
  split_ifs <;> omega

lemma patchTable_wellFormed (hpos : 0 < count) (hlt : count < 2 ^ 31) : (patchTable count).WellFormed := by
  have hincreasing : (patchOffsets count).Increasing := by
    intro i hi
    have hi' : i < count := hi
    rw [patchOffsets_bound (by omega), patchOffsets_bound (by omega)]
    omega
  obtain ⟨hperSet, hfits⟩ := patchOffsets_counts hlt
  have hposition : ∀ i q : ℕ, 8 ≤ q → q < 0x14 → ((patchOffsets count).layOut (patchPayload count)).entryStorage
      (((patchOffsets count).layOut (patchPayload count)).entryPosition i + q) = patchPayload count i q := by
    intro i q hlow hhigh
    refine (layOut_entryByte (patchPayload count) (by omega) i (by exact hhigh)).trans ?_
    rw [if_neg (by omega)]
  have hsizes : checkSizes NodeSize EntrySize = true := by decide
  refine ⟨layOut_laidOut hsizes hpos hlt hfits hincreasing ?_ ?_, rfl, rfl, hincreasing, ?_, ?_, le_refl _, ?_, ?_, ?_⟩
  · intro i
    show 0 ≤ ((min i count : ℕ) : ℤ) ∧ ((min i count : ℕ) : ℤ) < 2 ^ 63
    omega
  · show (count : ℤ) < 2 ^ 63
    omega
  · intro i hi
    refine s64At_eq (v := min i count) ?_ (by omega)
    intro j hj
    show ((patchOffsets count).layOut (patchPayload count)).entryStorage _ = _
    rw [add_assoc]
    refine (hposition i (8 + j) (by omega) (by omega)).trans ?_
    rw [patchPayload, if_pos (by omega), show 8 + j - 8 = j by omega]
  · intro i hi
    refine s32At_eq (v := i % 2) ?_ (by omega)
    intro j hj
    show ((patchOffsets count).layOut (patchPayload count)).entryStorage _ = _
    rw [add_assoc]
    refine (hposition i (0x10 + j) (by omega) (by omega)).trans ?_
    rw [patchPayload, if_neg (by omega), show 0x10 + j - 0x10 = j by omega]
  · intro k _
    refine ⟨staticVfsFile_slices _ (by omega), ?_⟩
    show (List.replicate count (BitVec.ofNat 8 k)).length < 2 ^ 63
    rw [List.length_replicate]
    omega
  · intro i _
    show ((i % 2 : ℕ) : ℤ) = 0 ∨ ((i % 2 : ℕ) : ℤ) = 1
    omega
  · intro i hi
    have hi' : i < count := hi
    refine ⟨by show (0 : ℤ) ≤ ((min i count : ℕ) : ℤ); omega, ?_⟩
    show ((min i count : ℕ) : ℤ) + ((patchOffsets count).bound (i + 1) - (patchOffsets count).bound i) ≤
      ((List.replicate count _).length : ℤ)
    rw [patchOffsets_bound (by omega), patchOffsets_bound (by omega), List.length_replicate]
    omega

/-- The reads of a table of five entries are pointwise. -/
theorem read_pointwise_patchTable : (patchTable 5).Pointwise :=
  (read_pointwise (patchTable 5) (patchTable_wellFormed (by decide) (by decide))).2 (by
    show 5 + 817 < 2 ^ 31
    decide)

/-- The largest number of entries that is accepted: nothing is read. -/
theorem read_fails_at_count_max : (patchTable 0x7FFFFFFF).WellFormed ∧ ¬ (patchTable 0x7FFFFFFF).Pointwise := by
  have hwellFormed : (patchTable 0x7FFFFFFF).WellFormed := patchTable_wellFormed (by decide) (by decide)
  refine ⟨hwellFormed, hwellFormed.not_pointwise ?_⟩
  show 2 ^ 31 ≤ 0x7FFFFFFF + 817
  decide

end Patches

end IndirectTable

end Voltemu.FileSys
