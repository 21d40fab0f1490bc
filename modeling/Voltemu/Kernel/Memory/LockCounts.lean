import Voltemu.Kernel.Memory.LockCells

/-!
# The lock counts of a memory map count the outstanding ranges

`UpdateLock` with `LockForIpc`, `UnlockForIpc`, `ShareToDevice` and `UnshareToDevice` keeps its
counts on blocks that other overlapping ranges split and merge.  The ghost state of a `Session` is
the multiset of ranges locked and the multiset of ranges shared; the invariant `CellInv` compares
every page with the page it was before the first call:

* its lock (use) count is the number of locked (shared) ranges over it,
* the merge counters at an end of a block count the ranges that start (end) there,
* and a page without a range over it is the page it was.

**`lock_counts_of_run`** draws the conclusions.  The run has to start from a map without stale merge
counts (`Clean`): the counters of `UpdateLock` are not reset by anything else.
-/

namespace Voltemu.Kernel

open Tiling RunLength List
open KMemoryBlockDisableMergeAttribute (DeviceLeft DeviceRight IpcLeft AllLeft AllRight)
open KMemoryAttribute (DeviceShared IgnoreMask IpcLocked)

/-! ## Outstanding ranges -/

/-- The arguments `address` and `num_pages` of a call. -/
structure PageRange where
  address : ℕ
  numPages : ℕ
deriving DecidableEq

namespace PageRange

def endAddress (r : PageRange) : ℕ := r.address + r.numPages * PageSize

def Covers (r : PageRange) (x : ℕ) : Prop := r.address ≤ x ∧ x < r.endAddress

instance (r : PageRange) (x : ℕ) : Decidable (r.Covers x) :=
  inferInstanceAs (Decidable (_ ∧ _))

variable {r : PageRange} {x : ℕ}

lemma covers_of_start (hr : 1 ≤ r.numPages) (h : r.address = x) :
    r.Covers x := by
  simp only [Covers, endAddress, PageSize]
  omega

lemma covers_of_end (hr : 1 ≤ r.numPages) (h : r.endAddress = x + PageSize) : r.Covers x := by
  simp only [Covers, endAddress, PageSize] at *
  omega

end PageRange

def covering (rs : Multiset PageRange) (x : ℕ) : ℕ := rs.countP fun r => r.Covers x

def starting (rs : Multiset PageRange) (x : ℕ) : ℕ := rs.countP fun r => r.address = x

def ending (rs : Multiset PageRange) (x : ℕ) : ℕ := rs.countP fun r => r.endAddress = x

@[simp] lemma covering_zero (x : ℕ) : covering 0 x = 0 := rfl

@[simp] lemma starting_zero (x : ℕ) : starting 0 x = 0 := rfl

@[simp] lemma ending_zero (x : ℕ) : ending 0 x = 0 := rfl

section

variable (r : PageRange) (rs : Multiset PageRange) (x : ℕ)
include r rs x

lemma covering_cons : covering (r ::ₘ rs) x = covering rs x + if r.Covers x then 1 else 0 :=
  Multiset.countP_cons _ _ _

lemma starting_cons : starting (r ::ₘ rs) x = starting rs x + if r.address = x then 1 else 0 :=
  Multiset.countP_cons _ _ _

lemma ending_cons : ending (r ::ₘ rs) x = ending rs x + if r.endAddress = x then 1 else 0 :=
  Multiset.countP_cons _ _ _

end

def Proper (rs : Multiset PageRange) : Prop := ∀ r ∈ rs, 1 ≤ r.numPages

variable {rs : Multiset PageRange}

lemma Proper.of_cons {r : PageRange} (h : Proper (r ::ₘ rs)) : 1 ≤ r.numPages ∧ Proper rs :=
  ⟨h r (Multiset.mem_cons_self _ _), fun q hq => h q (Multiset.mem_cons_of_mem hq)⟩

lemma starting_le_covering (h : Proper rs) (x : ℕ) : starting rs x ≤ covering rs x := by
  induction rs using Multiset.induction with
  | empty => exact le_rfl
  | cons r rs ih =>
    obtain ⟨hr, hrs⟩ := h.of_cons
    rw [starting_cons, covering_cons]
    have hstep : (if r.address = x then 1 else 0) ≤ if r.Covers x then 1 else 0 := by
      split_ifs with h1 h2
      · exact le_rfl
      · exact absurd (PageRange.covers_of_start hr h1) h2
      · exact Nat.zero_le _
      · exact le_rfl
    exact Nat.add_le_add (ih hrs) hstep

lemma ending_le_covering (h : Proper rs) (x : ℕ) : ending rs (x + PageSize) ≤ covering rs x := by
  induction rs using Multiset.induction with
  | empty => exact le_rfl
  | cons r rs ih =>
    obtain ⟨hr, hrs⟩ := h.of_cons
    rw [ending_cons, covering_cons]
    have hstep : (if r.endAddress = x + PageSize then 1 else 0) ≤
        if r.Covers x then 1 else 0 := by
      split_ifs with h1 h2
      · exact le_rfl
      · exact absurd (PageRange.covers_of_end hr h1) h2
      · exact Nat.zero_le _
      · exact le_rfl
    exact Nat.add_le_add (ih hrs) hstep

/-! ## The four lock functions on a page -/

/-- A lock function on one page: what it does to the properties, to the left mark of the first
page of the range and to the right mark of its last page. -/
structure CellOp where
  mid : PageProps → PageProps
  left : LeftMark → LeftMark
  right : RightMark → RightMark

namespace CellOp

/-- The function on a page of the map, for the range `[s, e)`. -/
def onCell (f : CellOp) (s e : ℕ) (c : PageCell) : PageCell :=
  if s ≤ c.pos ∧ c.pos < e then
    { pos := c.pos
      mid := f.mid c.mid
      left := if c.pos = s then f.left c.left else c.left
      right := if c.pos + PageSize = e then f.right c.right else c.right }
  else c

variable {e s : ℕ} {c : PageCell}

lemma onCell_outside (f : CellOp) (h : ¬ (s ≤ c.pos ∧ c.pos < e)) : f.onCell s e c = c :=
  if_neg h

lemma onCell_inside (f : CellOp) (h : s ≤ c.pos ∧ c.pos < e) :
    f.onCell s e c =
      { pos := c.pos
        mid := f.mid c.mid
        left := if c.pos = s then f.left c.left else c.left
        right := if c.pos + PageSize = e then f.right c.right else c.right } :=
  if_pos h

lemma cells_eq_map (f : CellOp) {b b' : KMemoryBlock}
    (hextent : b'.address = b.address ∧ b'.numPages = b.numPages) (hs : s ≤ b.address)
    (he : b.getEndAddress ≤ e) (hmid : b'.props = f.mid b.props)
    (hleft : b'.toRun.left = if b.address = s then f.left b.toRun.left else b.toRun.left)
    (hright : b'.toRun.right = if b.getEndAddress = e then f.right b.toRun.right else b.toRun.right) :
    b'.cells = b.cells.map (f.onCell s e) := by
  refine Run.cells_map _ _ _ hextent.1 hextent.2 fun i hi => ?_
  have hi' : i < b.numPages := hi
  have hstart : b.toRun.start = b.address := rfl
  have hlen : b.toRun.len = b.numPages := rfl
  have hend : b.getEndAddress = b.address + b.numPages * PageSize := rfl
  rw [onCell_inside]
  · simp only [hleft, hright, hstart, hlen, hend, Cell.mk.injEq, true_and]
    refine ⟨hmid.symm, ?_, ?_⟩
    · rcases Nat.eq_zero_or_pos i with rfl | hpos
      · simp
      · have hne : ¬ b.address + i * PageSize = s := by
          simp only [PageSize]
          omega
        simp [hne, hpos.ne']
    · by_cases hlast : i + 1 = b.numPages
      · have hiff : b.address + i * PageSize + PageSize = e ↔ b.address + b.numPages * PageSize = e := by
          simp only [PageSize]
          omega
        simp [hlast, hiff]
      · have hne : ¬ b.address + i * PageSize + PageSize = e := by
          simp only [PageSize] at *
          omega
        simp [hne, hlast]
  · simp only [hstart, hend, PageSize] at *
    omega

def lockForIpc (newPerm : KMemoryPermission) : CellOp where
  mid p :=
    { p with
      ipcLockCount := u16Inc p.ipcLockCount
      originalPermission :=
        if u16Inc p.ipcLockCount == 1 then p.permission else p.originalPermission
      permission :=
        if u16Inc p.ipcLockCount == 1 then
          (newPerm &&& KMemoryPermission.IpcLockChangeMask) |||
            (p.permission &&& ~~~KMemoryPermission.IpcLockChangeMask)
        else p.permission
      attr := p.attr ||| IpcLocked }
  left l := (l.1 ||| IpcLeft, u16Inc l.2.1, l.2.2)
  right r := r

def unlockForIpc : CellOp where
  mid p :=
    { p with
      ipcLockCount := u16Dec p.ipcLockCount
      permission := if p.ipcLockCount == 1 then p.originalPermission else p.permission
      originalPermission :=
        if p.ipcLockCount == 1 then KMemoryPermission.None else p.originalPermission
      attr := if p.ipcLockCount == 1 then p.attr &&& ~~~IpcLocked else p.attr }
  left l := (if l.2.1 == 1 then l.1 &&& ~~~IpcLeft else l.1, u16Dec l.2.1, l.2.2)
  right r := r

def shareToDevice : CellOp where
  mid p :=
    { p with
      deviceUseCount := u16Inc p.deviceUseCount
      attr := p.attr ||| DeviceShared }
  left l := (l.1 ||| DeviceLeft, l.2.1, u16Inc l.2.2)
  right r := (r.1 ||| DeviceRight, u16Inc r.2)

/-- `UnshareToDevice`, without the clamp of the left count. -/
def unshareToDevice : CellOp where
  mid := KMemoryBlock.droppedUse
  left l := (if l.2.2 == 1 then l.1 &&& ~~~DeviceLeft else l.1, l.2.1, u16Dec l.2.2)
  right r := (if r.2 == 1 then r.1 &&& ~~~DeviceRight else r.1, u16Dec r.2)

end CellOp

/-! ## What a page looks like under outstanding ranges -/

/-- `flag`, if there is something to flag. -/
def flagIf (n : ℕ) (flag : BitVec 8) : BitVec 8 := if n = 0 then 0#8 else flag

/-- The left mark under `i` locked and `d` shared ranges that start at the page. -/
def leftMark (base : BitVec 8) (i d : ℕ) : LeftMark :=
  (base ||| flagIf i IpcLeft ||| flagIf d DeviceLeft, i, d)

/-- The right mark under `d` shared ranges that end at the page. -/
def rightMark (base : BitVec 8) (d : ℕ) : RightMark := (base ||| flagIf d DeviceRight, d)

lemma u16Inc_eq {n : ℕ} (h : n + 1 < 2 ^ 16) : u16Inc n = n + 1 := by
  rw [u16Inc, Nat.mod_eq_of_lt h]

@[simp] lemma u16Dec_succ (n : ℕ) : u16Dec (n + 1) = n := by
  simp [u16Dec]

section Flags

variable {base : BitVec 8} {i d : ℕ}

lemma and_not_eq_self {x flag : BitVec 8} (h : x &&& flag = 0#8) : x &&& ~~~flag = x := by
  refine BitVec.eq_of_getLsbD_eq fun k hk => ?_
  have hxk := congrArg (fun v : BitVec 8 => v.getLsbD k) h
  simp only [BitVec.getLsbD_and, BitVec.getLsbD_not, hk, decide_true, Bool.true_and, BitVec.getLsbD_zero] at hxk ⊢
  revert hxk
  cases x.getLsbD k <;> cases flag.getLsbD k <;> simp

lemma or_flagIf_or (base flag other : BitVec 8) (n : ℕ) :
    (base ||| flagIf n flag ||| other) ||| flag = base ||| flagIf (n + 1) flag ||| other := by
  rw [flagIf, flagIf, if_neg n.succ_ne_zero]
  split_ifs
  · simp [BitVec.or_assoc, BitVec.or_comm other]
  · rw [BitVec.or_assoc, BitVec.or_comm other, ← BitVec.or_assoc, BitVec.or_assoc base, BitVec.or_self]

lemma flagIf_drop {flag : BitVec 8} (other : BitVec 8) (n : ℕ) (hbase : base &&& flag = 0#8)
    (hother : other &&& flag = 0#8) :
    (if n + 1 == 1 then (base ||| flagIf (n + 1) flag ||| other) &&& ~~~flag
      else base ||| flagIf (n + 1) flag ||| other) = base ||| flagIf n flag ||| other := by
  rcases Nat.eq_zero_or_pos n with rfl | hpos
  · simp only [flagIf, zero_add, BEq.rfl, if_true, one_ne_zero, if_false]
    rw [BitVec.and_or_distrib_right, BitVec.and_or_distrib_right, and_not_eq_self hbase, and_not_eq_self hother]
    simp
  · have h1 : ¬ (n + 1 == 1) = true := by simpa using hpos.ne'
    rw [if_neg h1, flagIf, flagIf, if_neg n.succ_ne_zero, if_neg hpos.ne']

lemma lockForIpc_leftMark {newPerm : KMemoryPermission} (h : i + 1 < 2 ^ 16) :
    (CellOp.lockForIpc newPerm).left (leftMark base i d) = leftMark base (i + 1) d := by
  simp only [CellOp.lockForIpc, leftMark, u16Inc_eq h, or_flagIf_or]

lemma shareToDevice_leftMark (h : d + 1 < 2 ^ 16) :
    CellOp.shareToDevice.left (leftMark base i d) = leftMark base i (d + 1) := by
  have hflag := or_flagIf_or (base ||| flagIf i IpcLeft) DeviceLeft 0#8 d
  simp only [BitVec.or_zero] at hflag
  simp only [CellOp.shareToDevice, leftMark, u16Inc_eq h, hflag]

lemma shareToDevice_rightMark (h : d + 1 < 2 ^ 16) :
    CellOp.shareToDevice.right (rightMark base d) = rightMark base (d + 1) := by
  have hflag := or_flagIf_or base DeviceRight 0#8 d
  simp only [BitVec.or_zero] at hflag
  simp only [CellOp.shareToDevice, rightMark, u16Inc_eq h, hflag]

lemma unlockForIpc_leftMark (hbase : base &&& IpcLeft = 0#8) :
    CellOp.unlockForIpc.left (leftMark base (i + 1) d) = leftMark base i d := by
  have hother : flagIf d DeviceLeft &&& IpcLeft = 0#8 := by
    rw [flagIf]
    split_ifs <;> decide
  simp only [CellOp.unlockForIpc, leftMark, u16Dec_succ, flagIf_drop _ i hbase hother]

lemma unshareToDevice_leftMark (hbase : base &&& DeviceLeft = 0#8) :
    CellOp.unshareToDevice.left (leftMark base i (d + 1)) = leftMark base i d := by
  have hbase' : (base ||| flagIf i IpcLeft) &&& DeviceLeft = 0#8 := by
    rw [flagIf, BitVec.and_comm, BitVec.and_or_distrib_left, BitVec.and_comm, hbase]
    split_ifs <;> decide
  have hflag := flagIf_drop 0#8 d hbase' (by decide)
  simp only [BitVec.or_zero] at hflag
  simp only [CellOp.unshareToDevice, leftMark, u16Dec_succ, hflag]

lemma unshareToDevice_rightMark (hbase : base &&& DeviceRight = 0#8) :
    CellOp.unshareToDevice.right (rightMark base (d + 1)) = rightMark base d := by
  have hflag := flagIf_drop 0#8 d hbase (by decide)
  simp only [BitVec.or_zero] at hflag
  simp only [CellOp.unshareToDevice, rightMark, u16Dec_succ, hflag]

end Flags

/-- The properties of a page under `i` locked and `d` shared ranges, against the page as it was. -/
structure PageInv (base : PageProps) (i d : ℕ) (p : PageProps) : Prop where
  state : p.memoryState = base.memoryState
  ipc : p.ipcLockCount = i
  device : p.deviceUseCount = d
  attr : p.attr = base.attr ||| flagIf i IpcLocked |||
    flagIf d DeviceShared
  original : p.originalPermission = if i = 0 then KMemoryPermission.None else base.permission
  permission : i = 0 → p.permission = base.permission

section PageSteps

variable {base p : PageProps} {i d : ℕ}

lemma PageInv.lock {newPerm : KMemoryPermission} (h : PageInv base i d p) (hlt : i + 1 < 2 ^ 16) :
    PageInv base (i + 1) d ((CellOp.lockForIpc newPerm).mid p) where
  state := h.state
  ipc := by simp only [CellOp.lockForIpc, h.ipc, u16Inc_eq hlt]
  device := h.device
  attr := by simp only [CellOp.lockForIpc, h.attr, or_flagIf_or]
  original := by
    simp only [CellOp.lockForIpc, h.ipc, u16Inc_eq hlt, i.succ_ne_zero, if_false]
    -- only the first lock saves the permission, and then the page still has its own
    split_ifs with hfirst
    · exact h.permission (by simpa using hfirst)
    · rw [h.original, if_neg (by simpa using hfirst)]
  permission hi := absurd hi i.succ_ne_zero

lemma PageInv.unlock (h : PageInv base (i + 1) d p) (hbase : base.attr &&& IgnoreMask = KMemoryAttribute.None) :
    PageInv base i d (CellOp.unlockForIpc.mid p) where
  state := h.state
  ipc := by simp only [CellOp.unlockForIpc, h.ipc, u16Dec_succ]
  device := h.device
  attr := by
    have hclear : base.attr &&& IpcLocked = 0#8 :=
      (and_ipcLocked_eq_none _).2 (and_ignoreMask_eq_none hbase).1
    have hother : flagIf d DeviceShared &&& IpcLocked = 0#8 := by
      rw [flagIf]
      split_ifs <;> decide
    simp only [CellOp.unlockForIpc, h.ipc, h.attr, flagIf_drop _ i hclear hother]
  original := by
    simp only [CellOp.unlockForIpc, h.ipc, h.original, i.succ_ne_zero, if_false]
    exact if_congr (by simp) rfl rfl
  permission hi := by
    simp [CellOp.unlockForIpc, h.ipc, h.original, hi]

lemma PageInv.share (h : PageInv base i d p) (hlt : d + 1 < 2 ^ 16) :
    PageInv base i (d + 1) (CellOp.shareToDevice.mid p) where
  state := h.state
  ipc := h.ipc
  device := by simp only [CellOp.shareToDevice, h.device, u16Inc_eq hlt]
  attr := by
    have hflag := or_flagIf_or (base.attr ||| flagIf i IpcLocked) DeviceShared 0#8 d
    simp only [BitVec.or_zero] at hflag
    simp only [CellOp.shareToDevice, h.attr, hflag]
  original := h.original
  permission := h.permission

lemma PageInv.unshare (h : PageInv base i (d + 1) p) (hbase : base.attr &&& IgnoreMask = KMemoryAttribute.None) :
    PageInv base i d (CellOp.unshareToDevice.mid p) where
  state := h.state
  ipc := h.ipc
  device := by simp only [CellOp.unshareToDevice, KMemoryBlock.droppedUse, h.device, u16Dec_succ]
  attr := by
    have hclear : (base.attr ||| flagIf i IpcLocked) &&& DeviceShared = 0#8 := by
      have hdevice : base.attr &&& DeviceShared = 0#8 :=
        (and_deviceShared_eq_none _).2 (and_ignoreMask_eq_none hbase).2
      rw [flagIf, BitVec.and_comm, BitVec.and_or_distrib_left, BitVec.and_comm, hdevice]
      split_ifs <;> decide
    have hflag := flagIf_drop 0#8 d hclear (by decide)
    simp only [BitVec.or_zero] at hflag
    simp only [CellOp.unshareToDevice, KMemoryBlock.droppedUse, h.device, h.attr, hflag]
  original := h.original
  permission := h.permission

end PageSteps

/-- **The invariant**: the page `c` under the locked ranges `L` and the shared ranges `S`, against
the page `c₀` it was before the run. -/
@[mk_iff]
structure CellInv (L S : Multiset PageRange) (c₀ c : PageCell) : Prop where
  pos : c.pos = c₀.pos
  page : PageInv c₀.mid (covering L c.pos) (covering S c.pos) c.mid
  left : c.left = leftMark c₀.left.1 (starting L c.pos) (starting S c.pos)
  right : c.right = rightMark c₀.right.1 (ending S (c.pos + PageSize))

/-- A page before the run: no lock attribute, no lock or device flag. -/
structure CleanCell (c : PageCell) : Prop where
  attr : c.mid.attr &&& IgnoreMask = KMemoryAttribute.None
  ipcLeft : c.left.1 &&& IpcLeft = 0#8
  deviceLeft : c.left.1 &&& DeviceLeft = 0#8
  right : c.right.1 = 0#8

/-- No counter of the ranges `rs` reaches `2 ^ 16`. -/
def CountsFit (rs : Multiset PageRange) : Prop := ∀ x, covering rs x < 2 ^ 16

section CellSteps

variable {L S : Multiset PageRange} {c₀ c : PageCell} {r : PageRange}

variable {x : ℕ}

lemma starting_cons_outside (hr : 1 ≤ r.numPages) (h : ¬ r.Covers x) : starting (r ::ₘ S) x = starting S x := by
  rw [starting_cons, if_neg fun hx => h (r.covers_of_start hr hx), add_zero]

lemma ending_cons_outside (hr : 1 ≤ r.numPages) (h : ¬ r.Covers x) :
    ending (r ::ₘ S) (x + PageSize) = ending S (x + PageSize) := by
  rw [ending_cons, if_neg fun hx => h (r.covers_of_end hr hx), add_zero]

lemma covering_cons_outside (h : ¬ r.Covers x) : covering (r ::ₘ S) x = covering S x := by
  rw [covering_cons, if_neg h, add_zero]

lemma covering_cons_inside (h : r.Covers x) : covering (r ::ₘ S) x = covering S x + 1 := by
  rw [covering_cons, if_pos h]

/-- A range that does not contain the page says nothing about it. -/
lemma cellInv_cons_outside (hr : 1 ≤ r.numPages) (hout : ¬ r.Covers c.pos) :
    (CellInv (r ::ₘ L) S c₀ c ↔ CellInv L S c₀ c) ∧ (CellInv L (r ::ₘ S) c₀ c ↔ CellInv L S c₀ c) := by
  simp only [cellInv_iff, covering_cons_outside hout, starting_cons_outside hr hout,
    ending_cons_outside hr hout, and_self]

lemma CellInv.lock {newPerm : KMemoryPermission} (h : CellInv L S c₀ c)
    (hproper : Proper (r ::ₘ L)) (hfit : CountsFit (r ::ₘ L)) :
    CellInv (r ::ₘ L) S c₀ ((CellOp.lockForIpc newPerm).onCell r.address r.endAddress c) := by
  obtain ⟨hr, -⟩ := hproper.of_cons
  by_cases hin : r.Covers c.pos
  · have hcov := covering_cons_inside (S := L) hin
    have hlt := hfit c.pos
    have hstart := (starting_le_covering hproper c.pos).trans_lt hlt
    rw [CellOp.onCell_inside _ hin]
    refine ⟨h.pos, ?_, ?_, ?_⟩
    · simp only [hcov]
      exact h.page.lock (hcov ▸ hlt)
    · simp only [starting_cons, eq_comm (a := c.pos)] at hstart ⊢
      split_ifs at hstart ⊢
      · rw [h.left, lockForIpc_leftMark hstart]
      · exact h.left
    · simp only [← h.right]
      exact ite_self _
  · rw [CellOp.onCell_outside _ hin]
    exact (cellInv_cons_outside hr hin).1.2 h

lemma CellInv.unlock (h : CellInv (r ::ₘ L) S c₀ c) (hclean : CleanCell c₀) (hproper : Proper (r ::ₘ L)) :
    CellInv L S c₀ (CellOp.unlockForIpc.onCell r.address r.endAddress c) := by
  obtain ⟨hr, -⟩ := hproper.of_cons
  by_cases hin : r.Covers c.pos
  · have hpage := h.page
    have hleft := h.left
    rw [covering_cons_inside hin] at hpage
    rw [starting_cons] at hleft
    rw [CellOp.onCell_inside _ hin]
    refine ⟨h.pos, hpage.unlock hclean.attr, ?_, ?_⟩
    · simp only [eq_comm (a := c.pos)]
      split_ifs at hleft ⊢
      · rw [hleft, unlockForIpc_leftMark hclean.ipcLeft]
      · exact hleft
    · simp only [← h.right]
      exact ite_self _
  · rw [CellOp.onCell_outside _ hin]
    exact (cellInv_cons_outside hr hin).1.1 h

lemma CellInv.share (h : CellInv L S c₀ c) (hproper : Proper (r ::ₘ S)) (hfit : CountsFit (r ::ₘ S)) :
    CellInv L (r ::ₘ S) c₀ (CellOp.shareToDevice.onCell r.address r.endAddress c) := by
  obtain ⟨hr, -⟩ := hproper.of_cons
  by_cases hin : r.Covers c.pos
  · have hcov := covering_cons_inside (S := S) hin
    have hlt := hfit c.pos
    have hstart := (starting_le_covering hproper c.pos).trans_lt hlt
    have hend := (ending_le_covering hproper c.pos).trans_lt hlt
    rw [CellOp.onCell_inside _ hin]
    refine ⟨h.pos, ?_, ?_, ?_⟩
    · simp only [hcov]
      exact h.page.share (hcov ▸ hlt)
    · simp only [starting_cons, eq_comm (a := c.pos)] at hstart ⊢
      split_ifs at hstart ⊢
      · rw [h.left, shareToDevice_leftMark hstart]
      · exact h.left
    · simp only [ending_cons, eq_comm (a := c.pos + PageSize)] at hend ⊢
      split_ifs at hend ⊢
      · rw [h.right, shareToDevice_rightMark hend]
      · exact h.right
  · rw [CellOp.onCell_outside _ hin]
    exact (cellInv_cons_outside hr hin).2.2 h

lemma CellInv.unshare (h : CellInv L (r ::ₘ S) c₀ c) (hclean : CleanCell c₀) (hproper : Proper (r ::ₘ S)) :
    CellInv L S c₀ (CellOp.unshareToDevice.onCell r.address r.endAddress c) := by
  obtain ⟨hr, -⟩ := hproper.of_cons
  by_cases hin : r.Covers c.pos
  · have hpage := h.page
    have hleft := h.left
    have hright := h.right
    rw [covering_cons_inside hin] at hpage
    rw [starting_cons] at hleft
    rw [ending_cons] at hright
    rw [CellOp.onCell_inside _ hin]
    refine ⟨h.pos, hpage.unshare hclean.attr, ?_, ?_⟩
    · simp only [eq_comm (a := c.pos)]
      split_ifs at hleft ⊢
      · rw [hleft, unshareToDevice_leftMark hclean.deviceLeft]
      · exact hleft
    · simp only [eq_comm (a := c.pos + PageSize)]
      split_ifs at hright ⊢
      · rw [hright, unshareToDevice_rightMark (by rw [hclean.right]; rfl)]
      · exact hright
  · rw [CellOp.onCell_outside _ hin]
    exact (cellInv_cons_outside hr hin).2.1 h

lemma CellInv.markedCell (h : CellInv L S c₀ c) : KMemoryBlock.MarkedCell c := by
  have hor : ∀ {x y : BitVec 8}, x ||| y = 0#8 → x = 0#8 ∧ y = 0#8 := BitVec.or_eq_zero_iff.1
  have hflag : ∀ {n : ℕ} {flag : BitVec 8}, flag ≠ 0#8 → flagIf n flag = 0#8 → n = 0 := by
    intro n flag hne h0
    by_contra hn
    rw [flagIf, if_neg hn] at h0
    exact hne h0
  constructor
  · intro h0
    rw [h.left] at h0 ⊢
    obtain ⟨h1, h2⟩ := hor h0
    have hi := hflag (by decide) (hor h1).2
    have hd := hflag (by decide) h2
    rw [leftMark] at h0 ⊢
    rw [hi, hd] at h0 ⊢
    exact Prod.ext h0 rfl
  · intro h0
    rw [h.right] at h0 ⊢
    have hd := hflag (by decide) (hor h0).2
    rw [rightMark] at h0 ⊢
    rw [hd] at h0 ⊢
    exact Prod.ext h0 rfl

end CellSteps

/-! ## The lock functions of a block are those of its pages -/

section BlockSteps

open KMemoryBlock

private lemma or_left (f flag : BitVec 8) (hl : flag &&& AllLeft = flag) (hr : flag &&& AllRight = 0#8) :
    (f ||| flag) &&& AllLeft = (f &&& AllLeft) ||| flag ∧ (f ||| flag) &&& AllRight = f &&& AllRight := by
  rw [BitVec.and_or_distrib_right, BitVec.and_or_distrib_right, hl, hr, BitVec.or_zero]
  exact ⟨rfl, rfl⟩

private lemma clear_flag (f flag mask : BitVec 8) : (f &&& ~~~flag) &&& mask = (f &&& mask) &&& ~~~flag := by
  rw [BitVec.and_assoc, BitVec.and_comm (~~~flag), BitVec.and_assoc]

private lemma clear_outside (f flag mask : BitVec 8) (h : mask &&& ~~~flag = mask) :
    (f &&& ~~~flag) &&& mask = f &&& mask := by
  rw [clear_flag, BitVec.and_assoc, h]

private lemma or_right (f : BitVec 8) :
    (f ||| DeviceRight) &&& AllLeft = f &&& AllLeft ∧
      (f ||| DeviceRight) &&& AllRight = (f &&& AllRight) ||| DeviceRight := by
  rw [BitVec.and_or_distrib_right, BitVec.and_or_distrib_right,
    show DeviceRight &&& AllLeft = 0#8 from rfl, show DeviceRight &&& AllRight = DeviceRight from rfl,
    BitVec.or_zero]
  exact ⟨rfl, rfl⟩

variable {b : KMemoryBlock} {s e : ℕ} (hs : s ≤ b.address) (he : b.getEndAddress ≤ e)
include hs he

lemma lockForIpc_cells (perm : KMemoryPermission) :
    (b.lockForIpc perm (b.address == s)).cells = b.cells.map ((CellOp.lockForIpc perm).onCell s e) := by
  have hflag := or_left b.disableMergeAttribute IpcLeft rfl rfl
  refine CellOp.cells_eq_map _ ⟨rfl, rfl⟩ hs he rfl ?_ ?_
  · by_cases h : b.address = s <;> simp [toRun, KMemoryBlock.lockForIpc, CellOp.lockForIpc, h, hflag]
  · by_cases h : b.address = s <;> simp [toRun, KMemoryBlock.lockForIpc, CellOp.lockForIpc, h, hflag]

lemma unlockForIpc_cells : (b.unlockForIpc (b.address == s)).cells = b.cells.map (CellOp.unlockForIpc.onCell s e) := by
  have hleft := clear_flag b.disableMergeAttribute IpcLeft AllLeft
  have hright := clear_outside b.disableMergeAttribute IpcLeft AllRight rfl
  refine CellOp.cells_eq_map _ ⟨rfl, rfl⟩ hs he rfl ?_ ?_
  · by_cases h : b.address = s <;> by_cases h1 : b.ipcDisableMergeCount = 1 <;>
      simp [toRun, KMemoryBlock.unlockForIpc, CellOp.unlockForIpc, h, h1, hleft, hright]
  · by_cases h : b.address = s <;> by_cases h1 : b.ipcDisableMergeCount = 1 <;>
      simp [toRun, KMemoryBlock.unlockForIpc, CellOp.unlockForIpc, h, h1, hleft, hright]

lemma shareToDevice_cells :
    (b.shareToDevice (b.address == s) (b.getEndAddress == e)).cells = b.cells.map (CellOp.shareToDevice.onCell s e) := by
  have hframe := shareToDevice_frame b (b.address == s) (b.getEndAddress == e)
  have hleft := or_left b.disableMergeAttribute DeviceLeft rfl rfl
  have hright := or_right
  refine CellOp.cells_eq_map _ ⟨congrArg (·.1) hframe, congrArg (·.2.1) hframe⟩ hs he (congrArg (·.2.2) hframe) ?_ ?_
  · by_cases h : b.address = s <;> by_cases h' : b.getEndAddress = e <;>
      simp [toRun, KMemoryBlock.shareToDevice, CellOp.shareToDevice,
        updateDeviceDisableMergeStateForShare, updateDeviceDisableMergeStateForShareLeft,
        updateDeviceDisableMergeStateForShareRight, h, h', hleft, hright]
  · by_cases h : b.address = s <;> by_cases h' : b.getEndAddress = e <;>
      simp [toRun, KMemoryBlock.shareToDevice, CellOp.shareToDevice,
        updateDeviceDisableMergeStateForShare, updateDeviceDisableMergeStateForShareLeft,
        updateDeviceDisableMergeStateForShareRight, h, h', hleft, hright]

omit hs he in
/-- The clamp of the left count does nothing when the count is below the uses that remain. -/
lemma unshareLeft_marks {c : KMemoryBlock} (left : Bool) (hstart : left = true → c.deviceDisableMergeLeftCount ≠ 0)
    (hle : (if left then c.deviceDisableMergeLeftCount - 1 else c.deviceDisableMergeLeftCount) ≤ c.deviceUseCount)
    (hflag : c.deviceDisableMergeLeftCount = 0 → c.disableMergeAttribute &&& AllLeft &&& DeviceLeft = 0#8) :
    (c.updateDeviceDisableMergeStateForUnshareLeft left).toRun.left
        = (if left then CellOp.unshareToDevice.left c.toRun.left else c.toRun.left) ∧
      (c.updateDeviceDisableMergeStateForUnshareLeft left).toRun.right = c.toRun.right := by
  have hleft := clear_flag c.disableMergeAttribute DeviceLeft AllLeft
  have hright := clear_outside c.disableMergeAttribute DeviceLeft AllRight rfl
  cases left with
  | true =>
    obtain ⟨n, hn⟩ := Nat.exists_eq_succ_of_ne_zero (hstart rfl)
    have hmin : min n c.deviceUseCount = n := min_eq_left (by simpa [hn] using hle)
    by_cases h0 : n = 0 <;>
      simp [updateDeviceDisableMergeStateForUnshareLeft, toRun, CellOp.unshareToDevice, hn, hmin, h0, hleft, hright]
  | false =>
    have hmin : min c.deviceDisableMergeLeftCount c.deviceUseCount
        = c.deviceDisableMergeLeftCount := min_eq_left (by simpa using hle)
    by_cases h0 : c.deviceDisableMergeLeftCount = 0
    · simp [updateDeviceDisableMergeStateForUnshareLeft, toRun, h0, hleft, hright, and_not_eq_self (hflag h0)]
    · simp [updateDeviceDisableMergeStateForUnshareLeft, toRun, h0, hmin]

omit hs he in
lemma unshareRight_marks (c : KMemoryBlock) (right : Bool) :
    (c.updateDeviceDisableMergeStateForUnshareRight right).toRun.left = c.toRun.left ∧
      (c.updateDeviceDisableMergeStateForUnshareRight right).toRun.right
        = if right then CellOp.unshareToDevice.right c.toRun.right else c.toRun.right := by
  have hleft := clear_outside c.disableMergeAttribute DeviceRight AllLeft rfl
  have hright := clear_flag c.disableMergeAttribute DeviceRight AllRight
  cases right with
  | true =>
    by_cases h1 : c.deviceDisableMergeRightCount = 1 <;>
      simp [updateDeviceDisableMergeStateForUnshareRight, toRun, CellOp.unshareToDevice, h1, hleft, hright]
  | false => simp [updateDeviceDisableMergeStateForUnshareRight]

/-- The ranges left after `r` is released bound the left count, so the clamp does nothing. -/
lemma unshareToDevice_cells {L S : Multiset PageRange} {c₀ : PageCell} {r : PageRange}
    (hrs : r.address = s) (hre : r.endAddress = e) (hpos : 0 < b.numPages)
    (h : CellInv L (r ::ₘ S) c₀ b.firstCell) (hclean : CleanCell c₀)
    (hproper : Proper (r ::ₘ S)) :
    (b.unshareToDevice (b.address == s) (b.getEndAddress == e)).cells
      = b.cells.map (CellOp.unshareToDevice.onCell s e) := by
  have hframe := unshareToDevice_frame b (b.address == s) (b.getEndAddress == e)
  have hin : r.Covers b.address := by
    refine ⟨hrs ▸ hs, ?_⟩
    have hlt : b.address < b.getEndAddress := by
      simp only [getEndAddress, getSize, PageSize]
      omega
    omega
  have huse : b.deviceUseCount = covering S b.address + 1 :=
    h.page.device.trans (covering_cons_inside hin)
  have hleft : b.toRun.left = leftMark c₀.left.1 (starting L b.address) (starting (r ::ₘ S) b.address) := h.left
  have hcount : b.deviceDisableMergeLeftCount = starting (r ::ₘ S) b.address :=
    congrArg (·.2.2) hleft
  have hbound := starting_le_covering hproper.of_cons.2 b.address
  have hdrop : b.dropDeviceUse.deviceUseCount = covering S b.address := by
    simp [dropDeviceUse, huse]
  rw [starting_cons, hrs] at hcount
  have hmarks := unshareLeft_marks (c := b.dropDeviceUse) (b.address == s) ?_ ?_ ?_
  · have hright := unshareRight_marks (b.dropDeviceUse.updateDeviceDisableMergeStateForUnshareLeft (b.address == s))
      (b.getEndAddress == e)
    refine CellOp.cells_eq_map _ ⟨congrArg (·.1) hframe, congrArg (·.2.1) hframe⟩ hs he (congrArg (·.2.2) hframe) ?_ ?_
    · refine (hright.1.trans hmarks.1).trans ?_
      exact if_congr (by simp) rfl rfl
    · refine (hright.2.trans ?_)
      rw [hmarks.2]
      exact if_congr (by simp) rfl rfl
  · intro hb
    have hb' : s = b.address := (beq_iff_eq.1 hb).symm
    rw [if_pos hb'] at hcount
    change b.deviceDisableMergeLeftCount ≠ 0
    omega
  · rw [hdrop]
    change (if _ then b.deviceDisableMergeLeftCount - 1 else b.deviceDisableMergeLeftCount) ≤ _
    rw [hcount]
    by_cases hb : b.address = s
    · simpa [hb] using hb ▸ hbound
    · simpa [hb, Ne.symm hb] using hbound
  · intro h0
    have h0' : starting (r ::ₘ S) b.address = 0 := (congrArg (·.2.2) hleft).symm.trans h0
    have hflags : b.disableMergeAttribute &&& AllLeft
        = c₀.left.1 ||| flagIf (starting L b.address) IpcLeft ||| flagIf 0 DeviceLeft := by
      rw [← h0']
      exact congrArg (·.1) hleft
    change b.disableMergeAttribute &&& AllLeft &&& DeviceLeft = 0#8
    rw [hflags, flagIf, flagIf, if_pos rfl, BitVec.or_zero, BitVec.and_comm,
      BitVec.and_or_distrib_left, BitVec.and_comm, hclean.deviceLeft]
    split_ifs <;> decide

end BlockSteps

/-! ## Runs -/

inductive LockCall
  | lock (r : PageRange) (perm : KMemoryPermission)
  | unlock (r : PageRange) (perm : KMemoryPermission)
  | share (r : PageRange) (perm : KMemoryPermission)
  | unshare (r : PageRange) (perm : KMemoryPermission)
deriving DecidableEq

namespace LockCall

def range : LockCall → PageRange
  | lock r _ | unlock r _ | share r _ | unshare r _ => r

def perm : LockCall → KMemoryPermission
  | lock _ p | unlock _ p | share _ p | unshare _ p => p

def lockFunc : LockCall → LockFunc
  | lock _ _ => .lockForIpc
  | unlock _ _ => .unlockForIpc
  | share _ _ => .shareToDevice
  | unshare _ _ => .unshareToDevice

end LockCall

/-- The map together with the outstanding ranges. -/
structure Session where
  manager : KMemoryBlockManager
  locked : Multiset PageRange
  shared : Multiset PageRange

namespace Session

def afterCall (s : Session) (m : KMemoryBlockManager) : LockCall → Session
  | .lock r _ => { s with manager := m, locked := r ::ₘ s.locked }
  | .unlock r _ => { s with manager := m, locked := s.locked.erase r }
  | .share r _ => { s with manager := m, shared := r ::ₘ s.shared }
  | .unshare r _ => { s with manager := m, shared := s.shared.erase r }

def call (s : Session) (c : LockCall) : Option Session :=
  (s.manager.updateLock c.range.address c.range.numPages c.lockFunc c.perm).map
    fun m => s.afterCall m c

/-- The range is in the map and has a page; a release names an outstanding range; no counter
reaches `2 ^ 16`. -/
structure Admissible (s : Session) (c : LockCall) : Prop where
  inRange : s.manager.InRange c.range.address c.range.numPages
  page : 1 ≤ c.range.numPages
  outstanding : match c with
    | .lock r _ => CountsFit (r ::ₘ s.locked)
    | .unlock r _ => r ∈ s.locked
    | .share r _ => CountsFit (r ::ₘ s.shared)
    | .unshare r _ => r ∈ s.shared

def Step (s s' : Session) : Prop := ∃ c, s.Admissible c ∧ s.call c = some s'

end Session

/-- A map nobody has locked or shared, without stale merge counts: every counter is zero, no lock
attribute and no lock or device flag is set, and no permission is saved. -/
structure Clean (m : KMemoryBlockManager) : Prop where
  ipc : ∀ b ∈ m.memoryBlockTree, b.ipcLockCount = 0 ∧ b.ipcDisableMergeCount = 0
  device : ∀ b ∈ m.memoryBlockTree, b.deviceUseCount = 0 ∧ b.deviceDisableMergeLeftCount = 0 ∧
    b.deviceDisableMergeRightCount = 0
  attr : ∀ b ∈ m.memoryBlockTree, b.attr &&& IgnoreMask = KMemoryAttribute.None
  original : ∀ b ∈ m.memoryBlockTree, b.originalPermission = KMemoryPermission.None
  flags : ∀ b ∈ m.memoryBlockTree,
    b.disableMergeAttribute &&& (IpcLeft ||| DeviceLeft ||| DeviceRight) = 0#8 ∧ b.NamedFlags

namespace Session

open KMemoryBlock KMemoryBlockManager

/-- The invariant of a run that started with the pages `cs0`. -/
structure Inv (cs0 : List PageCell) (s : Session) : Prop where
  shaped : s.manager.Shaped
  named : ∀ b ∈ s.manager.memoryBlockTree, b.NamedFlags
  locked : Proper s.locked
  shared : Proper s.shared
  cells : List.Forall₂ (CellInv s.locked s.shared) cs0 s.manager.cells

lemma Inv.exists_base {cs0 : List PageCell} {s : Session} (h : s.Inv cs0) {c : PageCell}
    (hc : c ∈ s.manager.cells) : ∃ c₀ ∈ cs0, CellInv s.locked s.shared c₀ c := by
  obtain ⟨i, hi, rfl⟩ := getElem_of_mem hc
  have hlen := h.cells.length_eq
  exact ⟨cs0[i], getElem_mem _, h.cells.get (by omega) hi⟩

end Session

/-! ### Named flags

Splits, merges and the lock functions set no flag beyond the named ones.
-/

namespace KMemoryBlock

lemma namedFlags_iff {b : KMemoryBlock} :
    b.NamedFlags ↔ b.disableMergeAttribute &&& 0x1F#8 = b.disableMergeAttribute := by
  rw [NamedFlags, ← BitVec.and_or_distrib_left, eq_comm]
  rfl

variable {b c : KMemoryBlock} {left right : Bool}

section

variable (h : b.NamedFlags)
include h

lemma NamedFlags.setIf (flag : BitVec 8) (hflag : flag &&& 0x1F#8 = flag) {p : Prop} [Decidable p]
    (hc : c.disableMergeAttribute = if p then b.disableMergeAttribute ||| flag else b.disableMergeAttribute) :
    c.NamedFlags := by
  rw [namedFlags_iff] at h ⊢
  rw [hc]
  split_ifs
  · rw [BitVec.and_or_distrib_right, h, hflag]
  · exact h

lemma NamedFlags.clearIf (flag : BitVec 8) {p : Prop} [Decidable p] (hc : c.disableMergeAttribute
      = if p then b.disableMergeAttribute &&& ~~~flag else b.disableMergeAttribute) :
    c.NamedFlags := by
  rw [namedFlags_iff] at h ⊢
  rw [hc]
  split_ifs
  · rw [BitVec.and_assoc, BitVec.and_comm (~~~flag), ← BitVec.and_assoc, h]
  · exact h

lemma share_named : (b.updateDeviceDisableMergeStateForShare left right).NamedFlags := by
  have hleft : (b.updateDeviceDisableMergeStateForShareLeft left).NamedFlags := by
    refine h.setIf DeviceLeft (p := left = true) rfl ?_
    cases left <;> rfl
  refine hleft.setIf DeviceRight (p := right = true) rfl ?_
  cases right <;> rfl

lemma unshare_named : (b.updateDeviceDisableMergeStateForUnshare left right).NamedFlags := by
  have hleft : (b.updateDeviceDisableMergeStateForUnshareLeft left).NamedFlags := by
    rw [updateDeviceDisableMergeStateForUnshareLeft]
    split_ifs
    · exact h
    all_goals exact h.clearIf DeviceLeft rfl
  rw [updateDeviceDisableMergeStateForUnshare, updateDeviceDisableMergeStateForUnshareRight]
  split_ifs
  all_goals first
    | exact hleft
    | exact hleft.clearIf DeviceRight (p := True) rfl

lemma lockCall_named (call : LockCall) : (call.lockFunc.apply b call.perm left right).NamedFlags := by
  cases call with
  | lock r p => exact h.setIf IpcLeft rfl rfl
  | unlock r p => exact h.clearIf IpcLeft rfl
  | share r p => exact share_named h
  | unshare r p => exact unshare_named h

end

lemma split_fst_named (b : KMemoryBlock) (a : ℕ) : (b.split a).1.NamedFlags := by
  rw [namedFlags_iff, split, BitVec.and_assoc]
  rfl

lemma split_snd_named (b : KMemoryBlock) (a : ℕ) : (b.split a).2.NamedFlags := by
  rw [namedFlags_iff, split, BitVec.and_assoc]
  rfl

lemma add_named (hb : b.NamedFlags) (hc : c.NamedFlags) : (b.add c).NamedFlags := by
  rw [namedFlags_iff] at *
  rw [add, BitVec.and_or_distrib_right, hb, hc]

end KMemoryBlock

/-! ### The step -/

namespace Session

open KMemoryBlock KMemoryBlockManager

variable {cs0 : List PageCell} {s : Session} {c : LockCall}

/-- A call whose lock function acts on pages as `f` completes, and carries the invariant over to
the outstanding ranges `L'` and `S'`. -/
lemma updateLock_inv (h : s.Inv cs0) (hc : s.Admissible c) (f : CellOp) (L' S' : Multiset PageRange)
    (hblock : ∀ b : KMemoryBlock, 0 < b.numPages → c.range.address ≤ b.address →
      b.getEndAddress ≤ c.range.endAddress → (∀ x ∈ b.cells, x ∈ s.manager.cells) →
      (c.lockFunc.apply b c.perm (b.address == c.range.address)
        (b.getEndAddress == c.range.endAddress)).cells = b.cells.map (f.onCell c.range.address c.range.endAddress))
    (hcell : ∀ c₀ ∈ cs0, ∀ x, CellInv s.locked s.shared c₀ x →
      CellInv L' S' c₀ (f.onCell c.range.address c.range.endAddress x)) :
    ∃ m', s.manager.updateLock c.range.address c.range.numPages c.lockFunc c.perm = some m' ∧
      m'.Shaped ∧ (∀ b ∈ m'.memoryBlockTree, b.NamedFlags) ∧
      List.Forall₂ (CellInv L' S') cs0 m'.cells := by
  have haddr := RangeOp.upd_address (.updateLock c.lockFunc c.perm) c.range.address c.range.endAddress
  have hend := RangeOp.upd_getEndAddress (.updateLock c.lockFunc c.perm) c.range.address c.range.endAddress
  cases hop : s.manager.updateLock c.range.address c.range.numPages c.lockFunc c.perm with
  | none =>
    obtain ⟨-, b, -, -, hzero | hskip⟩ :=
      (updateRange_eq_none_iff h.shaped hc.inRange haddr hend).1 hop
    · exact absurd hzero (by have := hc.page; omega)
    · exact absurd hskip (by simp [RangeOp.skip])
  | some m' =>
    obtain ⟨hshape, -, -⟩ := updateRange_shape h.shaped hc.inRange haddr hend hop
    refine ⟨m', rfl, hshape, ?_, ?_⟩
    · refine updateRange_forall (fun b c hb hc _ => add_named hb hc)
        (fun b a _ => split_fst_named b a) (fun b a _ => split_snd_named b a) h.shaped hc.inRange
        h.named ?_ hop
      intro b hb _ _
      refine lockCall_named ?_ c
      exact clip_forall (fun b a _ => split_fst_named b a) (fun b a _ => split_snd_named b a) (h.named b hb)
    · have hcells := updateRange_cells (g := f.onCell c.range.address c.range.endAddress)
        h.shaped hc.inRange haddr hend (fun x hx => f.onCell_outside hx) hblock ?_ hop
      · obtain ⟨hlen, hzip⟩ := forall₂_iff_zip.1 h.cells
        rw [hcells, forall₂_map_right_iff, forall₂_iff_zip]
        exact ⟨hlen, fun hmem => hcell _ (of_mem_zip hmem).1 _ (hzip hmem)⟩
      · intro x hx
        obtain ⟨c₀, hc0, hinv⟩ := h.exists_base hx
        exact (hcell c₀ hc0 x hinv).markedCell

/-- **The step.**  An admissible call completes and keeps the invariant. -/
lemma call_inv (hclean : ∀ c₀ ∈ cs0, CleanCell c₀) (h : s.Inv cs0) (hc : s.Admissible c) :
    ∃ s', s.call c = some s' ∧ s'.Inv cs0 := by
  have hproper : ∀ {r : PageRange} {rs : Multiset PageRange}, 1 ≤ r.numPages → Proper rs → Proper (r ::ₘ rs) := by
    intro r rs hr hrs q hq
    rcases Multiset.mem_cons.1 hq with rfl | hq
    · exact hr
    · exact hrs q hq
  cases c with
  | lock r perm =>
    have hlocked := hproper hc.page h.locked
    obtain ⟨m', hop, hshape, hnamed, hcells⟩ := updateLock_inv h hc (CellOp.lockForIpc perm) (r ::ₘ s.locked) s.shared
      (fun b _ hs he _ => lockForIpc_cells hs he perm)
      (fun c₀ _ x hx => hx.lock hlocked hc.outstanding)
    refine ⟨s.afterCall m' (.lock r perm), by rw [call, hop]; rfl, ?_⟩
    exact ⟨hshape, hnamed, hlocked, h.shared, hcells⟩
  | unlock r perm =>
    have hlocked : r ::ₘ s.locked.erase r = s.locked := Multiset.cons_erase hc.outstanding
    have hproper' : Proper (r ::ₘ s.locked.erase r) := hlocked.symm ▸ h.locked
    obtain ⟨m', hop, hshape, hnamed, hcells⟩ := updateLock_inv h hc CellOp.unlockForIpc (s.locked.erase r) s.shared
      (fun b _ hs he _ => unlockForIpc_cells hs he)
      (fun c₀ hc0 x hx => CellInv.unlock (hlocked.symm ▸ hx) (hclean c₀ hc0) hproper')
    refine ⟨s.afterCall m' (.unlock r perm), by rw [call, hop]; rfl, ?_⟩
    exact ⟨hshape, hnamed, hproper'.of_cons.2, h.shared, hcells⟩
  | share r perm =>
    have hshared := hproper hc.page h.shared
    obtain ⟨m', hop, hshape, hnamed, hcells⟩ := updateLock_inv h hc CellOp.shareToDevice s.locked (r ::ₘ s.shared)
      (fun b _ hs he _ => shareToDevice_cells hs he)
      (fun c₀ _ x hx => hx.share hshared hc.outstanding)
    refine ⟨s.afterCall m' (.share r perm), by rw [call, hop]; rfl, ?_⟩
    exact ⟨hshape, hnamed, h.locked, hshared, hcells⟩
  | unshare r perm =>
    have hshared : r ::ₘ s.shared.erase r = s.shared := Multiset.cons_erase hc.outstanding
    have hproper' : Proper (r ::ₘ s.shared.erase r) := hshared.symm ▸ h.shared
    obtain ⟨m', hop, hshape, hnamed, hcells⟩ := updateLock_inv h hc CellOp.unshareToDevice s.locked (s.shared.erase r)
      (fun b hpos hs he hmem => by
        obtain ⟨c₀, hc0, hinv⟩ := h.exists_base (hmem _ (firstCell_mem hpos))
        exact unshareToDevice_cells hs he rfl rfl hpos (hshared.symm ▸ hinv) (hclean c₀ hc0) hproper')
      (fun c₀ hc0 x hx => CellInv.unshare (hshared.symm ▸ hx) (hclean c₀ hc0) hproper')
    refine ⟨s.afterCall m' (.unshare r perm), by rw [call, hop]; rfl, ?_⟩
    exact ⟨hshape, hnamed, h.locked, hproper'.of_cons.2, hcells⟩

end Session

/-! ## The run -/

section Run

open KMemoryBlock KMemoryBlockManager

private lemma clean_flags {f : BitVec 8} (h : f &&& (IpcLeft ||| DeviceLeft ||| DeviceRight) = 0#8) :
    f &&& AllLeft &&& IpcLeft = 0#8 ∧ f &&& AllLeft &&& DeviceLeft = 0#8 ∧ f &&& AllRight = 0#8 := by
  rw [BitVec.and_or_distrib_left, BitVec.and_or_distrib_left, BitVec.or_eq_zero_iff, BitVec.or_eq_zero_iff] at h
  obtain ⟨⟨h1, h2⟩, h3⟩ := h
  exact ⟨by rw [BitVec.and_assoc]; exact h1, by rw [BitVec.and_assoc]; exact h2, h3⟩

lemma CellInv.released {c₀ c : PageCell} (h : CellInv 0 0 c₀ c) (h₀ : CellInv 0 0 c₀ c₀) : c = c₀ := by
  obtain ⟨hpos, hp, hleft, hright⟩ := h
  obtain ⟨-, hp0, hleft0, hright0⟩ := h₀
  simp only [covering_zero, starting_zero, ending_zero] at hp hp0 hleft hleft0 hright hright0
  have hmid : c.mid = c₀.mid :=
    PageProps.ext hp.state (hp.permission rfl) (hp.original.trans hp0.original.symm)
      (hp.attr.trans hp0.attr.symm) (hp.ipc.trans hp0.ipc.symm) (hp.device.trans hp0.device.symm)
  exact Cell.ext hpos hmid (hleft.trans hleft0.symm) (hright.trans hright0.symm)

variable {m₀ : KMemoryBlockManager} (hclean : Clean m₀)
include hclean

lemma Clean.cell {c : PageCell} (hc : c ∈ m₀.cells) : CleanCell c ∧ CellInv 0 0 c c := by
  obtain ⟨b, hb, hcb⟩ := mem_flatMap.1 hc
  obtain ⟨i, -, rfl⟩ := Run.mem_cells hcb
  obtain ⟨hipc, hipcmerge⟩ := hclean.ipc b hb
  obtain ⟨hdev, hdevleft, hdevright⟩ := hclean.device b hb
  obtain ⟨hflag1, hflag2, hflag3⟩ := clean_flags (hclean.flags b hb).1
  constructor
  · refine ⟨hclean.attr b hb, ?_, ?_, ?_⟩
    · dsimp only
      split_ifs
      · exact hflag1
      · rfl
    · dsimp only
      split_ifs
      · exact hflag2
      · rfl
    · dsimp only
      split_ifs
      · exact hflag3
      · rfl
  · refine ⟨rfl, ⟨rfl, hipc, hdev, ?_, hclean.original b hb, fun _ => rfl⟩, ?_, ?_⟩
    · simp [flagIf]
    · simp only [starting_zero, leftMark, flagIf]
      split_ifs
      · simp [toRun, hipcmerge, hdevleft]
      · rfl
    · simp only [ending_zero, rightMark, flagIf]
      split_ifs
      · simp [toRun, hdevright]
      · rfl

lemma run_inv (hm : m₀.Shaped) {s : Session}
    (hrun : Relation.ReflTransGen Session.Step ⟨m₀, 0, 0⟩ s) : s.Inv m₀.cells := by
  induction hrun with
  | refl =>
    refine ⟨hm, fun b hb => (hclean.flags b hb).2, by simp [Proper], by simp [Proper], ?_⟩
    exact forall₂_same.2 fun c hc => (hclean.cell hc).2
  | tail _ hstep ih =>
    obtain ⟨c, hadm, hcall⟩ := hstep
    obtain ⟨s', hcall', hinv⟩ := Session.call_inv (fun c₀ hc0 => (hclean.cell hc0).1) ih hadm
    obtain rfl : s' = _ := Option.some.inj (hcall'.symm.trans hcall)
    exact hinv

/-- **The lock counts count the outstanding ranges.**  In every state of a run of `LockForIpc`,
`UnlockForIpc`, `ShareToDevice` and `UnshareToDevice` from a clean map, the counts of a page are the
numbers of outstanding ranges over it, the merge counters at the ends of a block are the numbers of
ranges that start and end there, the map is back to the initial one once every range is released,
and the next call completes. -/
theorem lock_counts_of_run (hm : m₀.WellFormed) {s : Session} (hrun : Relation.ReflTransGen Session.Step ⟨m₀, 0, 0⟩ s) :
    (∀ b ∈ s.manager.memoryBlockTree, ∀ i < b.numPages, b.ipcLockCount = covering s.locked (b.address + i * PageSize) ∧
      b.deviceUseCount = covering s.shared (b.address + i * PageSize)) ∧
    (∀ b ∈ s.manager.memoryBlockTree, b.ipcDisableMergeCount = starting s.locked b.address ∧
      b.deviceDisableMergeLeftCount = starting s.shared b.address ∧
      b.deviceDisableMergeRightCount = ending s.shared b.getEndAddress) ∧
    (s.locked = 0 → s.shared = 0 → s.manager.memoryBlockTree = m₀.memoryBlockTree) ∧
    ∀ c, s.Admissible c → ∃ s', s.call c = some s' := by
  have hinv := run_inv hclean hm.toShaped hrun
  have hcell : ∀ b ∈ s.manager.memoryBlockTree, ∀ x ∈ b.cells, ∃ c₀, CellInv s.locked s.shared c₀ x := by
    intro b hb x hx
    obtain ⟨c₀, -, h⟩ := hinv.exists_base (mem_flatMap.2 ⟨b, hb, hx⟩)
    exact ⟨c₀, h⟩
  refine ⟨fun b hb i hi => ?_, fun b hb => ?_, fun hlocked hshared => ?_, fun c hc => ?_⟩
  · obtain ⟨c₀, h⟩ := hcell b hb _ (cellAt_mem hi)
    exact ⟨h.page.ipc, h.page.device⟩
  · have hpos := numPages_pos hinv.shaped.tiles b hb
    obtain ⟨c₀, hfirst⟩ := hcell b hb _ (firstCell_mem hpos)
    obtain ⟨c₁, hlast⟩ := hcell b hb _ (lastCell_mem hpos)
    have hend : b.lastCell.pos + PageSize = b.getEndAddress := by
      simp only [lastCell, getEndAddress, getSize, PageSize]
      omega
    have hleft := congrArg (·.2) hfirst.left
    have hright := congrArg (·.2) hlast.right
    rw [hend] at hright
    exact ⟨congrArg (·.1) hleft, congrArg (·.2) hleft, hright⟩
  · have hcells : s.manager.cells = m₀.cells := by
      have h := hinv.cells
      rw [hlocked, hshared] at h
      obtain ⟨hlen, hzip⟩ := forall₂_iff_zip.1 h
      have heq : List.Forall₂ Eq m₀.cells s.manager.cells := by
        refine forall₂_iff_zip.2 ⟨hlen, fun hmem => ?_⟩
        exact ((hzip hmem).released (hclean.cell (of_mem_zip hmem).1).2).symm
      exact (forall₂_eq_eq_eq ▸ heq : m₀.cells = s.manager.cells).symm
    exact blocks_eq_of_cells_eq hm.toShaped hinv.shaped
      (fun c hc => (hclean.cell hc).2.markedCell) hcells (fun b hb => (hclean.flags b hb).2)
      hinv.named
  · obtain ⟨s', hs', -⟩ := Session.call_inv (fun c₀ hc₀ => (hclean.cell hc₀).1) hinv hc
    exact ⟨s', hs'⟩

end Run

section Instances

open KMemoryBlock KMemoryBlockManager

/-- Two pages of four locked. -/
theorem lock_counts_of_run_two_pages :
    Clean (initializeManager 0 0x4000) ∧ (initializeManager 0 0x4000).WellFormed ∧
      ∃ s : Session, Relation.ReflTransGen Session.Step ⟨initializeManager 0 0x4000, 0, 0⟩ s ∧ s.locked = {⟨0x1000, 2⟩} ∧
        ∀ b ∈ s.manager.memoryBlockTree, ∀ i < b.numPages,
          b.ipcLockCount = covering s.locked (b.address + i * PageSize) := by
  have hclean : Clean (initializeManager 0 0x4000) := by
    constructor <;> intro b hb <;> obtain rfl := mem_singleton.1 hb
    all_goals first
      | exact ⟨rfl, rfl⟩
      | exact ⟨rfl, rfl, rfl⟩
      | rfl
  have hm : (initializeManager 0 0x4000).WellFormed :=
    initializeManager_wellFormed (by decide) (by decide) (by decide)
  refine ⟨hclean, hm, ?_⟩
  have hadm : (Session.mk (initializeManager 0 0x4000) 0 0).Admissible
      (.lock ⟨0x1000, 2⟩ KMemoryPermission.UserRead) := by
    refine ⟨⟨by decide, by decide, by decide, by decide⟩, by decide, fun x => ?_⟩
    rw [covering_cons, covering_zero]
    split_ifs <;> omega
  obtain ⟨m', hm', -⟩ : ∃ m', (initializeManager 0 0x4000).updateLock 0x1000 2 .lockForIpc
      KMemoryPermission.UserRead = some m' ∧ True := ⟨_, rfl, trivial⟩
  have hrun : Relation.ReflTransGen Session.Step ⟨initializeManager 0 0x4000, 0, 0⟩ ⟨m', {⟨0x1000, 2⟩}, 0⟩ := by
    refine Relation.ReflTransGen.single ⟨_, hadm, ?_⟩
    exact congrArg (Option.map _) hm'
  exact ⟨_, hrun, rfl, fun b hb i hi => ((lock_counts_of_run hclean hm hrun).1 b hb i hi).1⟩

/-- Four free pages after page 1 was shared and then unshared with `UnshareToDeviceRight`: nothing
is shared, and a left merge count is left over. -/
def staleLeftCount : KMemoryBlockManager where
  memoryBlockTree :=
    [ initializeBlock 0 1 KMemoryState.Free KMemoryPermission.None KMemoryAttribute.None,
      { initializeBlock 0x1000 3 KMemoryState.Free KMemoryPermission.None KMemoryAttribute.None with
        deviceDisableMergeLeftCount := 1
        disableMergeAttribute := DeviceLeft } ]
  startAddress := 0
  endAddress := 0x4000

/-- The map above is reached from `Initialize`, is well formed and has no locked or shared page;
after `ShareToDevice` of its page 1 one shared range starts there and the counter says two. -/
theorem stale_left_count_miscounts :
    ((initializeManager 0 0x4000).updateLock 0x1000 1 .shareToDevice KMemoryPermission.None).bind
        (fun m => m.updateLock 0x1000 1 .unshareToDeviceRight KMemoryPermission.None)
      = some staleLeftCount ∧
    staleLeftCount.WellFormed ∧
    (∀ b ∈ staleLeftCount.memoryBlockTree, b.ipcLockCount = 0 ∧ b.deviceUseCount = 0 ∧ b.attr = KMemoryAttribute.None) ∧
    ∃ s, (Session.mk staleLeftCount 0 0).call (.share ⟨0x1000, 1⟩ KMemoryPermission.None) = some s ∧
      ∃ b ∈ s.manager.memoryBlockTree, b.address = 0x1000 ∧
        b.deviceDisableMergeLeftCount ≠ starting s.shared b.address := by
  refine ⟨by decide +kernel, ?_, by decide, _, rfl, ?_⟩
  · refine ⟨⟨rfl, ⟨rfl, by decide, rfl, by decide, rfl⟩, ?_⟩, by decide, ?_⟩
    · exact isChain_pair.2 (by decide)
    · intro b hb
      simp only [staleLeftCount, mem_cons, not_mem_nil, or_false] at hb
      rcases hb with rfl | rfl
      all_goals exact ⟨by decide, by decide, by decide, by decide⟩
  · decide

end Instances

end Voltemu.Kernel
