import Voltemu.Kernel.Ipc.KPageTableIpc

/-!
# What a page looks like under outstanding buffers

The pages of a client are compared with what they were before the first `SetupForIpc`, as in `LockCounts`.  The map may
have pages that are shared with devices.

* `IpcCell` is what holds of a page: its lock count is the number of outstanding buffers over it, and every one of them
  has narrowed its permission in the same way.
* `block_starts`, `block_ends`: no block reaches over an end of an outstanding buffer.
* `IpcMap.updateLock`: `UpdateLock` goes from the pages of one map to those of the next.
-/

namespace Voltemu.Kernel

open Tiling RunLength CellOp BitVec Multiset
open KMemoryBlockDisableMergeAttribute (IpcLeft AllLeft AllRight)
open KMemoryPermission (IpcLockChangeMask)
open KMemoryAttribute (IpcLocked)

/-! ## Permissions -/

/-- What `LockForIpc` makes of a permission. -/
def narrow (newPerm perm : KMemoryPermission) : KMemoryPermission :=
  (newPerm &&& IpcLockChangeMask) ||| (perm &&& ~~~IpcLockChangeMask)

lemma narrow_and {newPerm perm m : KMemoryPermission} (h : ~~~IpcLockChangeMask &&& m = 0#8) :
    narrow newPerm perm &&& m = newPerm &&& IpcLockChangeMask &&& m := by
  rw [narrow, and_or_distrib_right, and_assoc perm, h, and_zero, or_zero]

namespace IpcBuffer

variable (b : IpcBuffer)

lemma srcPerm_cases : b.srcPerm = KMemoryPermission.UserRead ∧ b.kind = .send ∨
    b.srcPerm = KMemoryPermission.KernelReadWrite ||| KMemoryPermission.NotMapped ∧
      b.kind.testPerm = KMemoryPermission.UserReadWrite := by
  rw [srcPerm]
  cases b.kind <;> decide

lemma srcPerm_and_mask : b.srcPerm &&& IpcLockChangeMask = b.srcPerm := by
  rcases b.srcPerm_cases with ⟨h, -⟩ | ⟨h, -⟩ <;> rw [h] <;> decide

lemma narrow_srcPerm_and_mask (perm : KMemoryPermission) : narrow b.srcPerm perm &&& IpcLockChangeMask = b.srcPerm := by
  rw [narrow_and (by decide), b.srcPerm_and_mask, b.srcPerm_and_mask]

/-- **Only buffers that are sent overlap**: the permission that another kind leaves fails the test. -/
lemma srcPerm_eq_of_test {b' : IpcBuffer} {perm : KMemoryPermission}
    (h : narrow b'.srcPerm perm &&& b.kind.testPerm = b.kind.testPerm) :
    b'.srcPerm = b.srcPerm ∧ b'.kind = .send ∧ b.kind = .send := by
  have hmask : ~~~IpcLockChangeMask &&& b.kind.testPerm = 0#8 := by cases b.kind <;> decide
  rw [narrow_and hmask, b'.srcPerm_and_mask] at h
  rcases b'.srcPerm_cases with ⟨h', hkind'⟩ | ⟨h', -⟩
  · rcases b.srcPerm_cases with ⟨hb, hkind⟩ | ⟨-, htest⟩
    · exact ⟨h'.trans hb.symm, hkind', hkind⟩
    · rw [h', htest] at h
      exact absurd h (by decide)
  · rw [h'] at h
    cases hkind : b.kind <;> rw [hkind] at h <;> exact absurd h (by decide)

lemma testPerm_ne_zero : b.kind.testPerm ≠ 0#8 := by cases b.kind <;> decide

/-! ## Extents -/

lemma alignDown_aligned (x : ℕ) : alignDown x % PageSize = 0 := by
  simp only [alignDown, PageSize]
  omega

lemma alignUp_aligned (x : ℕ) : alignUp x % PageSize = 0 := by
  simp only [alignUp, PageSize]
  split_ifs <;> omega

def Fills : Prop := b.mappingSrcStart < b.mappingSrcEnd

instance : Decidable b.Fills := inferInstanceAs (Decidable (_ < _))

lemma range_endAddress (h : b.Fills) : b.range.endAddress = b.mappingSrcEnd := by
  have h1 : b.mappingSrcStart % PageSize = 0 := alignUp_aligned _
  have h2 : b.mappingSrcEnd % PageSize = 0 := alignDown_aligned _
  simp only [Fills, range, PageRange.endAddress, PageSize] at *
  omega

lemma range_pages (h : b.Fills) : 1 ≤ b.range.numPages := by
  have h1 : b.mappingSrcStart % PageSize = 0 := alignUp_aligned _
  have h2 : b.mappingSrcEnd % PageSize = 0 := alignDown_aligned _
  simp only [Fills, range, PageSize] at *
  omega

lemma not_covers (h : ¬ b.Fills) (x : ℕ) : ¬ b.range.Covers x := by
  simp only [Fills, PageRange.Covers, range, PageRange.endAddress, PageSize] at *
  omega

lemma range_aligned : b.range.address % PageSize = 0 := alignUp_aligned _

lemma aligned_le : b.alignedSrcStart ≤ b.mappingSrcStart ∧ b.mappingSrcEnd ≤ b.alignedSrcEnd := by
  simp only [alignedSrcStart, mappingSrcStart, mappingSrcEnd, alignedSrcEnd, alignDown, alignUp, PageSize]
  split_ifs <;> omega

end IpcBuffer

/-- The ranges that are locked for the outstanding buffers. -/
def ranges (bs : Multiset IpcBuffer) : Multiset PageRange := (bs.filter IpcBuffer.Fills).map IpcBuffer.range

variable {b : IpcBuffer}

lemma ranges_cons_of_fills (h : b.Fills) (bs : Multiset IpcBuffer) : ranges (b ::ₘ bs) = b.range ::ₘ ranges bs := by
  rw [ranges, ranges, filter_cons_of_pos _ h, map_cons]

lemma ranges_cons_of_not_fills (h : ¬ b.Fills) (bs : Multiset IpcBuffer) : ranges (b ::ₘ bs) = ranges bs := by
  rw [ranges, ranges, filter_cons_of_neg _ h]

lemma ranges_proper (bs : Multiset IpcBuffer) : Proper (ranges bs) := by
  intro r hr
  obtain ⟨b, hb, rfl⟩ := mem_map.1 hr
  exact b.range_pages (mem_filter.1 hb).2

variable {x : ℕ}

variable {bs : Multiset IpcBuffer}

lemma covering_eq_zero (h : ∀ b ∈ bs, ¬ b.range.Covers x) : covering (ranges bs) x = 0 := by
  rw [covering, countP_eq_zero]
  intro r hr
  obtain ⟨b, hb, rfl⟩ := mem_map.1 hr
  exact h b (mem_filter.1 hb).1

lemma covering_pos (hb : b ∈ bs) (h : b.range.Covers x) : 0 < covering (ranges bs) x := by
  rw [covering, countP_pos]
  refine ⟨b.range, mem_map.2 ⟨b, mem_filter.2 ⟨hb, ?_⟩, rfl⟩, h⟩
  by_contra hfill
  exact b.not_covers hfill x h

lemma exists_covers (h : covering (ranges bs) x ≠ 0) : ∃ b ∈ bs, b.range.Covers x := by
  by_contra hnone
  push Not at hnone
  exact h (covering_eq_zero hnone)

/-- From one page to the next, the ranges that start are added and those that end go away. -/
lemma covers_next {r : PageRange} (hr : 0 < r.numPages) (haligned : r.address % PageSize = 0) (hx : x % PageSize = 0) :
    (if r.Covers (x + PageSize) then 1 else 0) + (if r.endAddress = x + PageSize then 1 else 0) =
      (if r.Covers x then 1 else 0) + if r.address = x + PageSize then 1 else 0 := by
  have hcovers : ∀ y, r.Covers y ↔ r.address ≤ y ∧ y < r.endAddress := fun _ => Iff.rfl
  have hend : r.endAddress % PageSize = 0 ∧ r.address + PageSize ≤ r.endAddress := by
    rw [PageRange.endAddress, Nat.add_mul_mod_self_right]
    exact ⟨haligned, Nat.add_le_add_left (Nat.le_mul_of_pos_left _ hr) _⟩
  simp only [hcovers]
  generalize r.endAddress = e at hend ⊢
  generalize r.address = s at haligned hend ⊢
  simp only [PageSize] at haligned hx hend ⊢
  split_ifs <;> omega

lemma covering_next {rs : Multiset PageRange} (hproper : Proper rs) (haligned : ∀ r ∈ rs, r.address % PageSize = 0) (hx : x % PageSize = 0) :
    covering rs (x + PageSize) + ending rs (x + PageSize) = covering rs x + starting rs (x + PageSize) := by
  induction rs using Multiset.induction with
  | empty => rfl
  | cons r rs ih =>
    obtain ⟨hpages, hproper'⟩ := hproper.of_cons
    have hstep := covers_next hpages (haligned r (mem_cons_self _ _)) hx
    have hrest := ih hproper' fun q hq => haligned q (mem_cons_of_mem hq)
    rw [covering_cons, covering_cons, ending_cons, starting_cons, Nat.add_add_add_comm, hrest, hstep, Nat.add_add_add_comm]

/-! ## Pages -/

/-- The properties of a page under `i` outstanding buffers, against the page as it was. -/
structure IpcPage (base : PageProps) (i : ℕ) (p : PageProps) : Prop where
  state : p.memoryState = base.memoryState
  device : p.deviceUseCount = base.deviceUseCount
  ipc : p.ipcLockCount = i
  attr : p.attr = base.attr ||| flagIf i IpcLocked
  original : p.originalPermission = if i = 0 then KMemoryPermission.None else base.permission
  permission : i = 0 → p.permission = base.permission

section PageSteps

variable {base p : PageProps} {i : ℕ}

lemma IpcPage.lock {newPerm : KMemoryPermission} (h : IpcPage base i p) (hlt : i + 1 < 2 ^ 16) :
    IpcPage base (i + 1) ((lockForIpc newPerm).mid p) where
  state := h.state
  device := h.device
  ipc := by simp only [lockForIpc, h.ipc, u16Inc_eq hlt]
  attr := by
    have hflag := or_flagIf_or base.attr IpcLocked 0#8 i
    simp only [or_zero] at hflag
    simp only [lockForIpc, h.attr, hflag]
  original := by
    simp only [lockForIpc, h.ipc, u16Inc_eq hlt, i.succ_ne_zero, if_false]
    split_ifs with hfirst
    · exact h.permission (by simpa using hfirst)
    · rw [h.original, if_neg (by simpa using hfirst)]
  permission hi := absurd hi i.succ_ne_zero

lemma IpcPage.lock_permission (newPerm : KMemoryPermission) (h : IpcPage base i p) (hlt : i + 1 < 2 ^ 16) :
    ((lockForIpc newPerm).mid p).permission = if i = 0 then narrow newPerm base.permission else p.permission := by
  simp only [lockForIpc, h.ipc, u16Inc_eq hlt]
  by_cases hi : i = 0
  · simp [hi, h.permission hi, narrow]
  · simp [hi]

lemma IpcPage.unlock (h : IpcPage base (i + 1) p) (hbase : base.attr &&& IpcLocked = KMemoryAttribute.None) :
    IpcPage base i (unlockForIpc.mid p) where
  state := h.state
  device := h.device
  ipc := by simp only [unlockForIpc, h.ipc, u16Dec_succ]
  attr := by
    have hflag := flagIf_drop 0#8 i hbase (by decide)
    simp only [or_zero] at hflag
    simp only [unlockForIpc, h.ipc, h.attr, hflag]
  original := by
    simp only [unlockForIpc, h.ipc, h.original, i.succ_ne_zero, if_false]
    exact if_congr (by simp) rfl rfl
  permission hi := by
    simp [unlockForIpc, h.ipc, h.original, hi]

lemma IpcPage.unlock_permission (h : IpcPage base (i + 1) p) :
    (unlockForIpc.mid p).permission = if i = 0 then base.permission else p.permission := by
  simp only [unlockForIpc, h.ipc, h.original, i.succ_ne_zero, if_false]
  exact if_congr (by simp) rfl rfl

end PageSteps

/-- A page passes the test of a buffer. -/
structure Passes (b : IpcBuffer) (test : KMemoryState × KMemoryAttribute) (p : PageProps) : Prop where
  state : p.memoryState &&& test.1 = test.1
  permission : p.permission &&& b.kind.testPerm = b.kind.testPerm
  attr : p.attr &&& test.2 = KMemoryAttribute.None

/-- **The invariant** of a page `c` under the outstanding buffers `bs`, against the page `c0` it was. -/
structure IpcCell (bs : Multiset IpcBuffer) (c0 c : PageCell) : Prop where
  pos : c.pos = c0.pos
  page : IpcPage c0.mid (covering (ranges bs) c.pos) c.mid
  left : c.left = (c0.left.1 ||| flagIf (starting (ranges bs) c.pos) IpcLeft, starting (ranges bs) c.pos, c0.left.2.2)
  right : c.right = c0.right
  narrowed : ∀ b ∈ bs, b.range.Covers c.pos → c.mid.permission = narrow b.srcPerm c0.mid.permission
  passes : ∀ b ∈ bs, b.range.Covers c.pos → ∃ test, testStateOf b.dstState = some test ∧ Passes b test c0.mid

structure UnlockedCell (c : PageCell) : Prop where
  attr : c.mid.attr &&& IpcLocked = KMemoryAttribute.None
  ipcLeft : c.left.1 &&& IpcLeft = 0#8
  marked : KMemoryBlock.MarkedCell c

section CellSteps

variable {c0 c : PageCell}

/-- A buffer that does not fill the page says nothing about it. -/
lemma ipcCell_cons_outside (hout : ¬ b.range.Covers c.pos) : IpcCell (b ::ₘ bs) c0 c ↔ IpcCell bs c0 c := by
  have hcov : covering (ranges (b ::ₘ bs)) c.pos = covering (ranges bs) c.pos := by
    by_cases hfill : b.Fills
    · rw [ranges_cons_of_fills hfill, covering_cons_outside hout]
    · rw [ranges_cons_of_not_fills hfill]
  have hstart : starting (ranges (b ::ₘ bs)) c.pos = starting (ranges bs) c.pos := by
    by_cases hfill : b.Fills
    · rw [ranges_cons_of_fills hfill, starting_cons_outside (b.range_pages hfill) hout]
    · rw [ranges_cons_of_not_fills hfill]
  have hmem : ∀ {P : IpcBuffer → Prop}, (∀ q ∈ b ::ₘ bs, q.range.Covers c.pos → P q) ↔
      ∀ q ∈ bs, q.range.Covers c.pos → P q := by
    intro P
    refine ⟨fun h q hq => h q (mem_cons_of_mem hq), fun h q hq hcovers => ?_⟩
    rcases mem_cons.1 hq with rfl | hq
    · exact absurd hcovers hout
    · exact h q hq hcovers
  constructor
  · rintro ⟨h1, h2, h3, h4, h5, h6⟩
    rw [hcov] at h2
    rw [hstart] at h3
    exact ⟨h1, h2, h3, h4, hmem.1 h5, hmem.1 h6⟩
  · rintro ⟨h1, h2, h3, h4, h5, h6⟩
    refine ⟨h1, ?_, ?_, h4, hmem.2 h5, hmem.2 h6⟩
    · rwa [hcov]
    · rwa [hstart]

/-- Under a buffer the permission is narrowed, and another buffer over the page is one of its kind. -/
lemma IpcCell.lock {test : KMemoryState × KMemoryAttribute} (h : IpcCell bs c0 c) (hfill : b.Fills)
    (hfit : CountsFit (ranges (b ::ₘ bs))) (htest : testStateOf b.dstState = some test)
    (hpasses : b.range.Covers c.pos → Passes b test c.mid) :
    IpcCell (b ::ₘ bs) c0 ((lockForIpc b.srcPerm).onCell b.range.address b.range.endAddress c) := by
  by_cases hin : b.range.Covers c.pos
  · have hpass := hpasses hin
    have hlt := hfit c.pos
    have hproper := ranges_proper (b ::ₘ bs)
    have hstartlt := (starting_le_covering hproper c.pos).trans_lt hlt
    have hcov : covering (ranges (b ::ₘ bs)) c.pos = covering (ranges bs) c.pos + 1 := by
      rw [ranges_cons_of_fills hfill, covering_cons_inside hin]
    rw [hcov] at hlt
    have hperm := h.page.lock_permission b.srcPerm hlt
    -- The new permission, for the new buffer and for those that were there.
    have hnarrow : ((lockForIpc b.srcPerm).mid c.mid).permission = narrow b.srcPerm c0.mid.permission ∧
        ∀ q ∈ bs, q.range.Covers c.pos → q.srcPerm = b.srcPerm := by
      by_cases hzero : covering (ranges bs) c.pos = 0
      · rw [hperm, if_pos hzero]
        refine ⟨rfl, fun q hq hcovers => ?_⟩
        have := covering_pos hq hcovers
        omega
      · rw [hperm, if_neg hzero]
        have hsame : ∀ q ∈ bs, q.range.Covers c.pos → q.srcPerm = b.srcPerm := by
          intro q hq hcovers
          have htestPerm := hpass.permission
          rw [h.narrowed q hq hcovers] at htestPerm
          exact (b.srcPerm_eq_of_test htestPerm).1
        obtain ⟨q, hq, hcovers⟩ := exists_covers hzero
        rw [h.narrowed q hq hcovers, hsame q hq hcovers]
        exact ⟨rfl, hsame⟩
    rw [onCell_inside _ hin]
    refine ⟨h.pos, ?_, ?_, ?_, ?_, ?_⟩
    · simp only [hcov]
      exact h.page.lock hlt
    · rw [ranges_cons_of_fills hfill] at hstartlt ⊢
      simp only [starting_cons, eq_comm (a := c.pos)] at hstartlt ⊢
      split_ifs at hstartlt ⊢
      · have hflag := or_flagIf_or c0.left.1 IpcLeft 0#8 (starting (ranges bs) c.pos)
        simp only [or_zero] at hflag
        rw [h.left]
        simp only [lockForIpc, u16Inc_eq hstartlt, hflag]
      · exact h.left
    · simp only [← h.right]
      exact ite_self _
    · intro q hq hcovers
      rcases mem_cons.1 hq with rfl | hq
      · exact hnarrow.1
      · rw [hnarrow.2 q hq hcovers]
        exact hnarrow.1
    · intro q hq hcovers
      rcases mem_cons.1 hq with rfl | hq
      · refine ⟨test, htest, ?_, ?_, ?_⟩
        · rw [← h.page.state]
          exact hpass.state
        · by_cases hzero : covering (ranges bs) c.pos = 0
          · rw [← h.page.permission hzero]
            exact hpass.permission
          · obtain ⟨q', hq', hcovers'⟩ := exists_covers hzero
            obtain ⟨test', -, hpass'⟩ := h.passes q' hq' hcovers'
            have htestPerm : narrow q'.srcPerm c0.mid.permission &&& q.kind.testPerm = q.kind.testPerm := by
              rw [← h.narrowed q' hq' hcovers']
              exact hpass.permission
            obtain ⟨-, hkind', hkind⟩ := q.srcPerm_eq_of_test htestPerm
            have := hpass'.permission
            rw [hkind'] at this
            rwa [hkind]
        · have hattr := hpass.attr
          rw [h.page.attr, and_or_distrib_right] at hattr
          exact (or_eq_zero_iff.1 hattr).1
      · exact h.passes q hq hcovers
  · rw [onCell_outside _ hin]
    exact (ipcCell_cons_outside hin).2 h

lemma IpcCell.unlock (h : IpcCell (b ::ₘ bs) c0 c) (hunlocked : UnlockedCell c0) (hfill : b.Fills) :
    IpcCell bs c0 (unlockForIpc.onCell b.range.address b.range.endAddress c) := by
  by_cases hin : b.range.Covers c.pos
  · have hcov : covering (ranges (b ::ₘ bs)) c.pos = covering (ranges bs) c.pos + 1 := by
      rw [ranges_cons_of_fills hfill, covering_cons_inside hin]
    have hpage := h.page
    rw [hcov] at hpage
    rw [onCell_inside _ hin]
    refine ⟨h.pos, hpage.unlock hunlocked.attr, ?_, ?_, ?_, ?_⟩
    · have hleft := h.left
      rw [ranges_cons_of_fills hfill] at hleft
      simp only [starting_cons, eq_comm (a := c.pos)] at hleft ⊢
      split_ifs at hleft ⊢
      · have hflag := flagIf_drop 0#8 (starting (ranges bs) c.pos) hunlocked.ipcLeft (by decide)
        simp only [or_zero] at hflag
        rw [hleft]
        simp only [unlockForIpc, u16Dec_succ, hflag]
      · exact hleft
    · simp only [← h.right]
      exact ite_self _
    · intro q hq hcovers
      have hpos : 0 < covering (ranges bs) c.pos := covering_pos hq hcovers
      show (unlockForIpc.mid c.mid).permission = _
      rw [hpage.unlock_permission, if_neg (by omega)]
      exact h.narrowed q (mem_cons_of_mem hq) hcovers
    · exact fun q hq => h.passes q (mem_cons_of_mem hq)
  · rw [onCell_outside _ hin]
    exact (ipcCell_cons_outside hin).1 h

lemma IpcCell.markedCell (h : IpcCell bs c0 c) (hunlocked : UnlockedCell c0) : KMemoryBlock.MarkedCell c := by
  constructor
  · intro hzero
    rw [h.left] at hzero ⊢
    obtain ⟨h1, h2⟩ := or_eq_zero_iff.1 hzero
    have hstart : starting (ranges bs) c.pos = 0 := by
      by_contra hne
      rw [flagIf, if_neg hne] at h2
      exact absurd h2 (by decide)
    have hleft := congrArg (·.2.2) (hunlocked.marked.left h1)
    rw [h1, hstart, show c0.left.2.2 = 0 from hleft]
    rfl
  · intro hzero
    rw [h.right] at hzero ⊢
    exact hunlocked.marked.right hzero

end CellSteps

/-! ## Maps -/

open KMemoryBlock KMemoryBlockManager

/-- The map of a client under outstanding buffers, against the pages that it had. -/
structure IpcMap (cs0 : List PageCell) (bs : Multiset IpcBuffer) (m : KMemoryBlockManager) : Prop where
  shaped : m.Shaped
  start_lt_end : m.startAddress < m.endAddress
  unlocked : ∀ c0 ∈ cs0, UnlockedCell c0
  cells : List.Forall₂ (IpcCell bs) cs0 m.cells

section Maps

variable {cs0 : List PageCell} {m : KMemoryBlockManager}

lemma IpcMap.exists_base (h : IpcMap cs0 bs m) {c : PageCell} (hc : c ∈ m.cells) : ∃ c0 ∈ cs0, IpcCell bs c0 c := by
  obtain ⟨i, hi, rfl⟩ := List.getElem_of_mem hc
  have hlen := h.cells.length_eq
  exact ⟨cs0[i], List.getElem_mem _, h.cells.get (by omega) hi⟩

variable {blk : KMemoryBlock}

lemma IpcMap.cellAt (h : IpcMap cs0 bs m) (hblk : blk ∈ m.memoryBlockTree) {i : ℕ}
    (hi : i < blk.numPages) : ∃ c0 ∈ cs0, IpcCell bs c0 (blk.cellAt i) :=
  h.exists_base (List.mem_flatMap.2 ⟨blk, hblk, cellAt_mem hi⟩)

lemma IpcMap.updateLock (h : IpcMap cs0 bs m) {bs' : Multiset IpcBuffer} {r : PageRange} (lockFunc : LockFunc)
    (perm : KMemoryPermission) (hr : m.InRange r.address r.numPages) (hpages : 1 ≤ r.numPages) (f : CellOp)
    (hblock : ∀ b : KMemoryBlock, r.address ≤ b.address → b.getEndAddress ≤ r.endAddress →
      (lockFunc.apply b perm (b.address == r.address) (b.getEndAddress == r.endAddress)).cells
        = b.cells.map (f.onCell r.address r.endAddress))
    (hcell : ∀ c0 ∈ cs0, ∀ c ∈ m.cells, IpcCell bs c0 c → IpcCell bs' c0 (f.onCell r.address r.endAddress c)) :
    ∃ m', m.updateLock r.address r.numPages lockFunc perm = some m' ∧ IpcMap cs0 bs' m' ∧
      m'.startAddress = m.startAddress ∧ m'.endAddress = m.endAddress ∧
      m'.cells = m.cells.map (f.onCell r.address r.endAddress) := by
  have haddr := RangeOp.upd_address (.updateLock lockFunc perm) r.address r.endAddress
  have hend := RangeOp.upd_getEndAddress (.updateLock lockFunc perm) r.address r.endAddress
  cases hop : m.updateLock r.address r.numPages lockFunc perm with
  | none =>
    obtain ⟨-, b, -, -, hzero | hskip⟩ := (updateRange_eq_none_iff h.shaped hr haddr hend).1 hop
    · omega
    · exact absurd hskip (by simp [RangeOp.skip])
  | some m' =>
    obtain ⟨hshape, hstart, hendAddr⟩ := updateRange_shape h.shaped hr haddr hend hop
    have hcells := updateRange_cells (g := f.onCell r.address r.endAddress) h.shaped hr haddr hend
      (fun x hx => f.onCell_outside hx) (fun b _ hs he _ => hblock b hs he) ?_ hop
    · refine ⟨m', rfl, ⟨hshape, ?_, h.unlocked, ?_⟩, hstart, hendAddr, hcells⟩
      · rw [hstart, hendAddr]
        exact h.start_lt_end
      · obtain ⟨hlen, hzip⟩ := List.forall₂_iff_zip.1 h.cells
        rw [hcells, List.forall₂_map_right_iff, List.forall₂_iff_zip]
        refine ⟨hlen, fun hmem => ?_⟩
        obtain ⟨h1, h2⟩ := List.of_mem_zip hmem
        exact hcell _ h1 _ h2 (hzip hmem)
    · intro x hx
      obtain ⟨c0, hc0, hinv⟩ := h.exists_base hx
      exact (hcell c0 hc0 x hx hinv).markedCell (h.unlocked c0 hc0)

lemma aligned_index {x : ℕ} (hblk : blk.address % PageSize = 0) (hx : x % PageSize = 0)
    (hle : blk.address ≤ x) (hlt : x < blk.getEndAddress) :
    ∃ i < blk.numPages, x = blk.address + i * PageSize := by
  refine ⟨(x - blk.address) / PageSize, ?_, ?_⟩ <;>
    simp only [KMemoryBlock.getEndAddress, KMemoryBlock.getSize, PageSize] at * <;> omega

lemma IpcMap.block_starts (h : IpcMap cs0 bs m) {b : IpcBuffer} (hb : b ∈ bs) (hfill : b.Fills)
    (hblk : blk ∈ m.memoryBlockTree) (hlt : blk.address < b.range.address) : blk.getEndAddress ≤ b.range.address := by
  by_contra hgt
  have haligned := tiles_aligned h.shaped.tiles h.shaped.aligned blk hblk
  obtain ⟨i, hi, hx⟩ := aligned_index haligned b.range_aligned hlt.le (not_le.1 hgt)
  obtain ⟨c0, -, hcell⟩ := h.cellAt hblk hi
  have hne : i ≠ 0 := by
    rintro rfl
    omega
  have hleft := congrArg (·.2.1) hcell.left
  simp only [KMemoryBlock.cellAt, if_neg hne, ← hx] at hleft
  have hpos : 0 < starting (ranges bs) b.range.address := by
    rw [starting, countP_pos]
    exact ⟨b.range, mem_map.2 ⟨b, mem_filter.2 ⟨hb, hfill⟩, rfl⟩, rfl⟩
  exact absurd hleft hpos.ne

/-- **A block ends where an outstanding buffer ends**: the lock counts differ there, or another buffer starts. -/
lemma IpcMap.block_ends (h : IpcMap cs0 bs m) {b : IpcBuffer} (hb : b ∈ bs) (hfill : b.Fills)
    (hblk : blk ∈ m.memoryBlockTree) (hlt : blk.address < b.range.endAddress) :
    blk.getEndAddress ≤ b.range.endAddress := by
  by_contra hgt
  have haligned := tiles_aligned h.shaped.tiles h.shaped.aligned blk hblk
  have hend : b.range.endAddress % PageSize = 0 := by
    have := b.range_aligned
    simp only [PageRange.endAddress, PageSize] at *
    omega
  obtain ⟨i, hi, hx⟩ := aligned_index haligned hend hlt.le (not_le.1 hgt)
  obtain ⟨j, rfl⟩ : ∃ j, i = j + 1 := by
    refine ⟨i - 1, ?_⟩
    simp only [PageSize] at *
    omega
  have hx' : b.range.endAddress = blk.address + j * PageSize + PageSize := by
    rw [hx]
    simp only [PageSize]
    omega
  obtain ⟨c0, -, hcell⟩ := h.cellAt hblk hi
  obtain ⟨c1, -, hcell'⟩ := h.cellAt hblk (Nat.lt_of_succ_lt hi)
  have hcounts : covering (ranges bs) b.range.endAddress = covering (ranges bs) (blk.address + j * PageSize) := by
    have h1 := hcell.page.ipc
    have h2 := hcell'.page.ipc
    simp only [KMemoryBlock.cellAt, ← hx] at h1 h2
    exact h1.symm.trans h2
  have hstart : starting (ranges bs) b.range.endAddress = 0 := by
    have hleft := congrArg (·.2.1) hcell.left
    simp only [KMemoryBlock.cellAt, if_neg j.succ_ne_zero, ← hx] at hleft
    exact hleft.symm
  have hending : 0 < ending (ranges bs) b.range.endAddress := by
    rw [ending, countP_pos]
    exact ⟨b.range, mem_map.2 ⟨b, mem_filter.2 ⟨hb, hfill⟩, rfl⟩, rfl⟩
  have hnext := covering_next (ranges_proper bs) (x := blk.address + j * PageSize)
    (fun r hr => by
      obtain ⟨q, -, rfl⟩ := mem_map.1 hr
      exact q.range_aligned)
    (by simp only [PageSize] at *; omega)
  rw [← hx'] at hnext
  omega

end Maps

end Voltemu.Kernel
