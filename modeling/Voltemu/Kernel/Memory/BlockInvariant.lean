import Voltemu.Kernel.Memory.BlockCoalesce

/-!
# The memory map stays well formed

`CheckState`, the auditor's predicate, holds after every sequence of range operations — with one
exception that has nothing to do with the blocks: an operation whose range starts strictly inside
the first block of the map, and which passes over that block, steps back from the first node of
the tree and follows a null pointer (`LosesIterator`).

* `WellFormed` is the invariant: a coalesced tiling whose locked blocks are counted.
* `Valid` is what the claim asks of one call: an aligned range inside the map and assertions that
  hold.  `UpdateAttribute` asserts nothing about `attr`; its caller passes an `attr` inside
  `mask`, and that is part of `Valid` too.
* **`reachable_wellFormed`** is the invariant over whole runs.
-/

namespace Voltemu.Kernel

open Tiling BitVec List
open KMemoryAttribute (DeviceShared IgnoreMask IpcLocked)

/-! ## The two lock attributes, bit by bit -/

lemma and_ipcLocked_eq_none (a : KMemoryAttribute) : a &&& IpcLocked = KMemoryAttribute.None ↔ a.getLsbD 1 = false := by
  have h := and_twoPow a 1
  rw [show BitVec.twoPow 8 1 = IpcLocked from rfl] at h
  rw [h]
  cases a.getLsbD 1 <;> simp [IpcLocked, KMemoryAttribute.None]

lemma and_deviceShared_eq_none (a : KMemoryAttribute) :
    a &&& DeviceShared = KMemoryAttribute.None ↔ a.getLsbD 2 = false := by
  have h := and_twoPow a 2
  rw [show BitVec.twoPow 8 2 = DeviceShared from rfl] at h
  rw [h]
  cases a.getLsbD 2 <;> simp [DeviceShared, KMemoryAttribute.None]

/-- An attribute set clear of the two lock attributes. -/
lemma and_ignoreMask_eq_none {a : KMemoryAttribute} (h : a &&& IgnoreMask = KMemoryAttribute.None) :
    a.getLsbD 1 = false ∧ a.getLsbD 2 = false := by
  constructor
  · have := congrArg (fun x : BitVec 8 => x.getLsbD 1) h
    simpa [IgnoreMask, IpcLocked, DeviceShared, KMemoryAttribute.None] using this
  · have := congrArg (fun x : BitVec 8 => x.getLsbD 2) h
    simpa [IgnoreMask, IpcLocked, DeviceShared, KMemoryAttribute.None] using this

/-- The properties a page has in every block that contains it. -/
@[ext] structure PageProps where
  memoryState : KMemoryState
  permission : KMemoryPermission
  originalPermission : KMemoryPermission
  attr : KMemoryAttribute
  ipcLockCount : ℕ
  deviceUseCount : ℕ
deriving DecidableEq

namespace KMemoryBlock

def props (b : KMemoryBlock) : PageProps where
  memoryState := b.memoryState
  permission := b.permission
  originalPermission := b.originalPermission
  attr := b.attr
  ipcLockCount := b.ipcLockCount
  deviceUseCount := b.deviceUseCount

variable {b c : KMemoryBlock}

lemma hasSameProperties_iff_props : b.hasSameProperties c = true ↔ b.props = c.props := by
  rw [hasSameProperties_iff, props, props, PageProps.mk.injEq]

/-- A block with a lock attribute has the count that goes with it, and the counts are `u16`s. -/
structure Counted (b : KMemoryBlock) : Prop where
  ipc : b.attr.getLsbD 1 = true → b.ipcLockCount ≠ 0
  device : b.attr.getLsbD 2 = true → b.deviceUseCount ≠ 0
  ipc_lt : b.ipcLockCount < 2 ^ 16
  device_lt : b.deviceUseCount < 2 ^ 16

lemma counted_of_props {p : PageProps} (heq : b.props = p) (hi : p.attr.getLsbD 1 = true → p.ipcLockCount ≠ 0)
    (hd : p.attr.getLsbD 2 = true → p.deviceUseCount ≠ 0) (hilt : p.ipcLockCount < 2 ^ 16)
    (hdlt : p.deviceUseCount < 2 ^ 16) : b.Counted := by
  subst heq
  exact ⟨hi, hd, hilt, hdlt⟩

lemma counted_of_props_eq (h : c.Counted) (heq : b.props = c.props) : b.Counted :=
  counted_of_props heq h.ipc h.device h.ipc_lt h.device_lt

lemma Counted.checkCounts (h : b.Counted) : KMemoryBlockManager.checkCounts b = true := by
  have hipc := and_ipcLocked_eq_none b.attr
  have hdev := and_deviceShared_eq_none b.attr
  simp only [KMemoryBlockManager.checkCounts, Bool.and_eq_true, Bool.not_eq_true',
    Bool.and_eq_false_iff, bne_eq_false_iff_eq, beq_eq_false_iff_ne, hipc, hdev]
  constructor
  · cases hbit : b.attr.getLsbD 1
    · exact Or.inl rfl
    · exact Or.inr (h.ipc hbit)
  · cases hbit : b.attr.getLsbD 2
    · exact Or.inl rfl
    · exact Or.inr (h.device hbit)

/-! ## The member functions keep blocks counted

The flag and counter updates for merging leave the extent and the properties of a block alone.
-/

section Frame

variable (b) (left right : Bool)

/-- Everything of a block but its merge flags and merge counters. -/
def frame (b : KMemoryBlock) : ℕ × ℕ × PageProps := (b.address, b.numPages, b.props)

lemma shareLeft_frame : (b.updateDeviceDisableMergeStateForShareLeft left).frame = b.frame := by
  rw [updateDeviceDisableMergeStateForShareLeft]
  split_ifs <;> rfl

lemma shareRight_frame : (b.updateDeviceDisableMergeStateForShareRight right).frame = b.frame := by
  rw [updateDeviceDisableMergeStateForShareRight]
  split_ifs <;> rfl

lemma share_frame : (b.updateDeviceDisableMergeStateForShare left right).frame = b.frame := by
  rw [updateDeviceDisableMergeStateForShare, shareRight_frame, shareLeft_frame]

lemma unshareLeft_frame : (b.updateDeviceDisableMergeStateForUnshareLeft left).frame = b.frame := by
  rw [updateDeviceDisableMergeStateForUnshareLeft]
  split_ifs <;> rfl

lemma unshareRight_frame : (b.updateDeviceDisableMergeStateForUnshareRight right).frame = b.frame := by
  rw [updateDeviceDisableMergeStateForUnshareRight]
  split_ifs <;> rfl

lemma unshare_frame : (b.updateDeviceDisableMergeStateForUnshare left right).frame = b.frame := by
  rw [updateDeviceDisableMergeStateForUnshare, unshareRight_frame, unshareLeft_frame]

end Frame

lemma u16Inc_lt (x : ℕ) : u16Inc x < 2 ^ 16 := by
  simp only [u16Inc]
  omega

lemma u16Dec_lt {x : ℕ} (hx : x < 2 ^ 16) : u16Dec x < 2 ^ 16 := by
  rw [u16Dec]
  split_ifs <;> omega

lemma u16Dec_ne_zero {x : ℕ} (h1 : x ≠ 1) : u16Dec x ≠ 0 := by
  rw [u16Dec]
  split_ifs <;> omega

section

variable (a : KMemoryAttribute)
include a

lemma or_deviceShared_bit_one : (a ||| DeviceShared).getLsbD 1 = a.getLsbD 1 := by
  rw [getLsbD_or, show (DeviceShared).getLsbD 1 = false from rfl, Bool.or_false]

lemma or_ipcLocked_bit_two : (a ||| IpcLocked).getLsbD 2 = a.getLsbD 2 := by
  rw [getLsbD_or, show (IpcLocked).getLsbD 2 = false from rfl, Bool.or_false]

lemma and_not_deviceShared_bit_one : (a &&& ~~~DeviceShared).getLsbD 1 = a.getLsbD 1 := by
  rw [getLsbD_and, show (~~~DeviceShared).getLsbD 1 = true from rfl, Bool.and_true]

lemma and_not_deviceShared_bit_two : (a &&& ~~~DeviceShared).getLsbD 2 = false := by
  rw [getLsbD_and, show (~~~DeviceShared).getLsbD 2 = false from rfl, Bool.and_false]

lemma and_not_ipcLocked_bit_one : (a &&& ~~~IpcLocked).getLsbD 1 = false := by
  rw [getLsbD_and, show (~~~IpcLocked).getLsbD 1 = false from rfl, Bool.and_false]

lemma and_not_ipcLocked_bit_two : (a &&& ~~~IpcLocked).getLsbD 2 = a.getLsbD 2 := by
  rw [getLsbD_and, show (~~~IpcLocked).getLsbD 2 = true from rfl, Bool.and_true]

end

/-! ### What the lock functions do to the properties -/

lemma shareToDevice_frame (b : KMemoryBlock) (left right : Bool) :
    (b.shareToDevice left right).frame = (b.address, b.numPages, { b.props with
      deviceUseCount := u16Inc b.deviceUseCount
      attr := b.attr ||| DeviceShared }) := by
  rw [shareToDevice, share_frame]
  rfl

def droppedUse (p : PageProps) : PageProps :=
  { p with
    deviceUseCount := u16Dec p.deviceUseCount
    attr :=
      if p.deviceUseCount == 1 then p.attr &&& ~~~DeviceShared else p.attr }

lemma unshareToDevice_frame (b : KMemoryBlock) (left right : Bool) :
    (b.unshareToDevice left right).frame = (b.address, b.numPages, droppedUse b.props) := by
  rw [unshareToDevice, unshare_frame]
  rfl

lemma unshareToDeviceRight_frame (b : KMemoryBlock) (right : Bool) :
    (b.unshareToDeviceRight right).frame = (b.address, b.numPages, droppedUse b.props) := by
  rw [unshareToDeviceRight, unshareRight_frame]
  rfl

variable {left right : Bool}

lemma shareToDevice_counted (h : b.Counted)
    (hinc : 0 < u16Inc b.deviceUseCount) : (b.shareToDevice left right).Counted := by
  have hprops := congrArg (·.2.2) (shareToDevice_frame b left right)
  refine counted_of_props hprops ?_ ?_ h.ipc_lt (u16Inc_lt _)
  · rw [or_deviceShared_bit_one]
    exact h.ipc
  · intro _
    exact Nat.pos_iff_ne_zero.1 hinc

lemma droppedUse_counted (h : c.Counted) (hprops : b.props = droppedUse c.props) :
    b.Counted := by
  refine counted_of_props hprops ?_ ?_ h.ipc_lt (u16Dec_lt h.device_lt)
  · simp only [droppedUse]
    split_ifs
    · rw [and_not_deviceShared_bit_one]
      exact h.ipc
    · exact h.ipc
  · simp only [droppedUse]
    split_ifs with hone
    · rw [and_not_deviceShared_bit_two]
      simp
    · intro _
      exact u16Dec_ne_zero (by simpa using hone)

variable {perm : KMemoryPermission}

lemma lockForIpc_counted (h : b.Counted) (hinc : 0 < u16Inc b.ipcLockCount) : (b.lockForIpc perm left).Counted := by
  refine counted_of_props (p := (b.lockForIpc perm left).props) rfl ?_ ?_ (u16Inc_lt _) h.device_lt
  · intro _
    exact Nat.pos_iff_ne_zero.1 hinc
  · simp only [lockForIpc, props]
    rw [or_ipcLocked_bit_two]
    exact h.device

lemma unlockForIpc_counted (h : b.Counted) : (b.unlockForIpc left).Counted := by
  refine counted_of_props (p := (b.unlockForIpc left).props) rfl ?_ ?_ (u16Dec_lt h.ipc_lt) h.device_lt
  · simp only [unlockForIpc, props]
    split_ifs with hone
    · rw [and_not_ipcLocked_bit_one]
      simp
    · intro _
      exact u16Dec_ne_zero (by simpa using hone)
  · simp only [unlockForIpc, props]
    split_ifs
    · rw [and_not_ipcLocked_bit_two]
      exact h.device
    · exact h.device

lemma lockFunc_counted {f : LockFunc} (h : b.Counted) (hassert : f.asserts b perm left right = true) :
    (f.apply b perm left right).Counted := by
  cases f with
  | shareToDevice =>
    simp only [LockFunc.asserts, shareToDeviceAsserts, Bool.and_eq_true, decide_eq_true_eq] at hassert
    exact shareToDevice_counted h hassert.1.1.2
  | unshareToDevice =>
    exact droppedUse_counted h (congrArg (·.2.2) (unshareToDevice_frame _ _ _))
  | unshareToDeviceRight =>
    exact droppedUse_counted h (congrArg (·.2.2) (unshareToDeviceRight_frame _ _))
  | lockForIpc =>
    simp only [LockFunc.asserts, lockForIpcAsserts, Bool.and_eq_true, decide_eq_true_eq] at hassert
    exact lockForIpc_counted h hassert.1.1.2
  | unlockForIpc => exact unlockForIpc_counted h
  | updateDeviceDisableMergeStateForShareLeft =>
    exact counted_of_props_eq h (congrArg (·.2.2) (shareLeft_frame _ _))
  | updateDeviceDisableMergeStateForShareRight =>
    exact counted_of_props_eq h (congrArg (·.2.2) (shareRight_frame _ _))
  | updateDeviceDisableMergeStateForShare =>
    exact counted_of_props_eq h (congrArg (·.2.2) (share_frame _ _ _))
  | updateDeviceDisableMergeStateForUnshareLeft =>
    exact counted_of_props_eq h (congrArg (·.2.2) (unshareLeft_frame _ _))
  | updateDeviceDisableMergeStateForUnshareRight =>
    exact counted_of_props_eq h (congrArg (·.2.2) (unshareRight_frame _ _))
  | updateDeviceDisableMergeStateForUnshare =>
    exact counted_of_props_eq h (congrArg (·.2.2) (unshare_frame _ _ _))

lemma update_counted {s : KMemoryState} {p : KMemoryPermission}
    {a : KMemoryAttribute} {first : Bool} {setMask clearMask : BitVec 8} (h : b.Counted)
    (ha : a &&& IgnoreMask = KMemoryAttribute.None) :
    (b.update s p a first setMask clearMask).Counted := by
  obtain ⟨h1, h2⟩ := and_ignoreMask_eq_none ha
  refine ⟨fun hbit => h.ipc ?_, fun hbit => h.device ?_, h.ipc_lt, h.device_lt⟩
  · simp only [update, getLsbD_or, h1, getLsbD_and, Bool.false_or, Bool.and_eq_true] at hbit
    exact hbit.1
  · simp only [update, getLsbD_or, h2, getLsbD_and, Bool.false_or, Bool.and_eq_true] at hbit
    exact hbit.1

lemma updateAttribute_counted {mask a : KMemoryAttribute} (h : b.Counted)
    (ha : a &&& IgnoreMask = KMemoryAttribute.None) :
    (b.updateAttribute mask a).Counted := by
  obtain ⟨h1, h2⟩ := and_ignoreMask_eq_none ha
  refine ⟨fun hbit => h.ipc ?_, fun hbit => h.device ?_, h.ipc_lt, h.device_lt⟩
  · simp only [updateAttribute, getLsbD_or, h1, getLsbD_and, Bool.or_false, Bool.and_eq_true] at hbit
    exact hbit.1
  · simp only [updateAttribute, getLsbD_or, h2, getLsbD_and, Bool.or_false, Bool.and_eq_true] at hbit
    exact hbit.1

lemma upd_counted {op : KMemoryBlockManager.RangeOp} {s e : ℕ} (h : b.Counted) (hhead : op.headAsserts = true)
    (hattr : ∀ mask attr, op = .updateAttribute mask attr → attr &&& IgnoreMask = KMemoryAttribute.None)
    (hblock : op.blockAsserts s e b = true) : (op.upd s e b).Counted := by
  cases op with
  | update _ _ _ _ _ =>
    exact update_counted h (by simpa [KMemoryBlockManager.RangeOp.headAsserts] using hhead)
  | updateIfMatch _ _ _ _ _ _ _ _ =>
    exact update_counted h (by simpa [KMemoryBlockManager.RangeOp.headAsserts] using hhead)
  | updateLock _ _ => exact lockFunc_counted h hblock
  | updateAttribute mask attr => exact updateAttribute_counted h (hattr mask attr rfl)

lemma lockFunc_extent (f : LockFunc) (b : KMemoryBlock) (perm : KMemoryPermission) (left right : Bool) :
    (f.apply b perm left right).address = b.address ∧ (f.apply b perm left right).numPages = b.numPages := by
  have hframe : ∀ {c : KMemoryBlock} {p : PageProps}, c.frame = (b.address, b.numPages, p) →
      c.address = b.address ∧ c.numPages = b.numPages := fun h =>
    ⟨congrArg (·.1) h, congrArg (·.2.1) h⟩
  cases f with
  | shareToDevice => exact hframe (shareToDevice_frame _ _ _)
  | unshareToDevice => exact hframe (unshareToDevice_frame _ _ _)
  | unshareToDeviceRight => exact hframe (unshareToDeviceRight_frame _ _)
  | lockForIpc => exact ⟨rfl, rfl⟩
  | unlockForIpc => exact ⟨rfl, rfl⟩
  | updateDeviceDisableMergeStateForShareLeft => exact hframe (shareLeft_frame _ _)
  | updateDeviceDisableMergeStateForShareRight => exact hframe (shareRight_frame _ _)
  | updateDeviceDisableMergeStateForShare => exact hframe (share_frame _ _ _)
  | updateDeviceDisableMergeStateForUnshareLeft => exact hframe (unshareLeft_frame _ _)
  | updateDeviceDisableMergeStateForUnshareRight => exact hframe (unshareRight_frame _ _)
  | updateDeviceDisableMergeStateForUnshare => exact hframe (unshare_frame _ _ _)

end KMemoryBlock

namespace KMemoryBlockManager

open KMemoryBlock

/-! ## Properties of single blocks, over a whole operation -/

section ForAll

variable {P : KMemoryBlock → Prop}
  (hadd : ∀ b c, P b → P c → b.canMergeWith c = true → P (b.add c))
include hadd

lemma coalesceLoop_forall {limit : ℕ} {prev : KMemoryBlock} {rest : List KMemoryBlock}
    (h : ∀ b ∈ prev :: rest, P b) : ∀ b ∈ coalesceLoop limit prev rest, P b := by
  induction rest generalizing prev with
  | nil => exact h
  | cons it rest ih =>
    obtain ⟨hprev, hit, hrest⟩ : P prev ∧ P it ∧ ∀ b ∈ rest, P b := by simpa using h
    rw [coalesceLoop]
    split_ifs with hmerge
    · simpa using ⟨hadd _ _ hprev hit hmerge, hrest⟩
    · exact ih (by simpa using ⟨hadd _ _ hprev hit hmerge, hrest⟩)
    · exact h
    · have htail : ∀ b ∈ coalesceLoop limit it rest, P b := ih (by simpa using ⟨hit, hrest⟩)
      simpa using ⟨hprev, htail⟩

variable {a pages st s e : ℕ} {blocks out : List KMemoryBlock}

omit hadd in
lemma coalesceForUpdate_loop (hout : coalesceForUpdate st blocks a pages = some out) :
    ∃ pre prev rest, blocks = pre ++ prev :: rest ∧ out = pre ++ coalesceLoop (a + pages * PageSize) prev rest := by
  have hsplit : (findIterator blocks a).1 ++ (findIterator blocks a).2 = blocks :=
    takeWhile_append_dropWhile
  simp only [coalesceForUpdate] at hout
  cases hpost : (findIterator blocks a).2 with
  | nil => simp [hpost] at hout
  | cons cur rest =>
    rw [hpost] at hsplit
    simp only [hpost] at hout
    split_ifs at hout
    · rcases (findIterator blocks a).1.eq_nil_or_concat with hpre | ⟨pre, prev, hpre⟩
      · simp [hpre] at hout
      · simp only [hpre, concat_eq_append, getLast?_append, getLast?_singleton,
          Option.some_or, dropLast_concat, Option.some.injEq] at hout hsplit
        exact ⟨pre, prev, cur :: rest, by simp [← hsplit], hout.symm⟩
    · exact ⟨_, cur, rest, hsplit.symm, (Option.some.inj hout).symm⟩

lemma coalesceForUpdate_forall (h : ∀ b ∈ blocks, P b) (hout : coalesceForUpdate st blocks a pages = some out) :
    ∀ b ∈ out, P b := by
  obtain ⟨pre, prev, rest, rfl, rfl⟩ := coalesceForUpdate_loop hout
  intro b hb
  rcases mem_append.1 hb with hb | hb
  · exact h b (by simp [hb])
  · exact coalesceLoop_forall hadd (fun c hc => h c (by simp [mem_cons.1 hc])) b hb

variable (hfst : ∀ b a, P b → P (b.split a).1) (hsnd : ∀ b a, P b → P (b.split a).2)
include hfst hsnd

variable {b : KMemoryBlock}

omit hadd hsnd in
lemma headPart_forall (h : P b) : ∀ c ∈ b.headPart s, P c := by
  rcases le_or_gt s b.address with hle | hlt
  · simp [headPart_of_le hle]
  · simpa [headPart_of_lt hlt] using hfst b s h

omit hadd hfst in
lemma fromStart_forall (h : P b) : P (b.fromStart s) := by
  rcases le_or_gt s b.address with hle | hlt
  · rwa [fromStart_of_le hle]
  · rw [fromStart_of_lt hlt]
    exact hsnd b s h

omit hadd in
lemma clip_forall (h : P b) : P (b.clip s e) := by
  rw [clip]
  split_ifs
  · exact hfst _ _ (fromStart_forall hsnd h)
  · exact fromStart_forall hsnd h

omit hadd hfst in
lemma tailPart_forall (h : P b) : ∀ c ∈ b.tailPart s e, P c := by
  rw [tailPart]
  split_ifs
  · simpa using hsnd _ e (fromStart_forall hsnd h)
  · simp

/-- A property that splits, merges and the member function keep holds of every block after a range
operation. -/
lemma updateRange_forall {skip : KMemoryBlock → Bool} {upd : KMemoryBlock → KMemoryBlock}
    {m m' : KMemoryBlockManager} {address numPages : ℕ} (hm : m.Shaped)
    (hr : m.InRange address numPages) (h : ∀ b ∈ m.memoryBlockTree, P b)
    (hupd : ∀ b ∈ m.memoryBlockTree, b.Meets address (address + numPages * PageSize) →
      skip b = false → P (upd (b.clip address (address + numPages * PageSize))))
    (hop : updateRange skip upd m address numPages = some m') :
    ∀ b ∈ m'.memoryBlockTree, P b := by
  rw [updateRange_eq hm hr, Option.map_eq_some_iff] at hop
  obtain ⟨out, hout, rfl⟩ := hop
  refine coalesceForUpdate_forall hadd ?_ hout
  intro c hc
  obtain ⟨b, hb, hcb⟩ := mem_flatMap.1 hc
  by_cases htouch : b.Meets address (address + numPages * PageSize) ∧ skip b = false
  · rw [rewriteBlock_of_touched htouch, mem_append, mem_cons] at hcb
    rcases hcb with hcb | rfl | hcb
    · exact headPart_forall hfst (h b hb) c hcb
    · exact hupd b hb htouch.1 htouch.2
    · exact tailPart_forall hsnd (h b hb) c hcb
  · rw [rewriteBlock_of_untouched htouch, mem_singleton] at hcb
    exact hcb ▸ h b hb

end ForAll

namespace RangeOp

variable (op : RangeOp) (s e : ℕ) (b : KMemoryBlock)

lemma upd_extent : (op.upd s e b).address = b.address ∧ (op.upd s e b).numPages = b.numPages := by
  cases op with
  | updateLock lockFunc perm => exact lockFunc_extent _ _ _ _ _
  | update _ _ _ _ _ => exact ⟨rfl, rfl⟩
  | updateIfMatch _ _ _ _ _ _ _ _ => exact ⟨rfl, rfl⟩
  | updateAttribute _ _ => exact ⟨rfl, rfl⟩

lemma upd_address : (op.upd s e b).address = b.address := (upd_extent op s e b).1

lemma upd_getEndAddress : (op.upd s e b).getEndAddress = b.getEndAddress := by
  obtain ⟨h1, h2⟩ := upd_extent op s e b
  rw [getEndAddress, getSize, h1, h2, getEndAddress, getSize]

end RangeOp

variable {x y nd st : ℕ}

lemma numPages_pos {blocks : List KMemoryBlock} (h : BlockTiles x blocks y) : ∀ b ∈ blocks, 0 < b.numPages := by
  intro b hb
  have hpos := (h.bounds hb).2.1
  by_contra hno
  have hzero : b.numPages = 0 := by omega
  simp [getEndAddress, getSize, hzero] at hpos

/-! ## The invariant -/

/-- The memory map is a coalesced tiling of its range and its locked blocks are counted. -/
structure WellFormed (m : KMemoryBlockManager) : Prop extends m.Shaped where
  start_lt_end : m.startAddress < m.endAddress
  counted : ∀ b ∈ m.memoryBlockTree, b.Counted

/-- The assertions met by an operation: those at its head, and those of the member function on
the part of each block that it changes. -/
structure AssertsHold (m : KMemoryBlockManager) (op : RangeOp) (address numPages : ℕ) : Prop where
  head : op.headAsserts = true
  block : ∀ b ∈ m.memoryBlockTree, b.Meets address (address + numPages * PageSize) →
    op.skip b = false → op.blockAsserts address (address + numPages * PageSize)
      (b.clip address (address + numPages * PageSize)) = true

/-- The two things no assertion checks: the iterator stays in the tree, and the attribute given to
`UpdateAttribute` has no lock bit. -/
structure CallerGuarded (m : KMemoryBlockManager) (op : RangeOp) (address numPages : ℕ) :
    Prop where
  iterator : ¬ LosesIterator op.skip m address numPages
  attr : ∀ mask attr, op = .updateAttribute mask attr → attr &&& IgnoreMask = KMemoryAttribute.None

theorem initializeManager_wellFormed (hst : st % PageSize = 0)
    (hnd : nd % PageSize = 0) (hlt : st < nd) : (initializeManager st nd).WellFormed := by
  have hend : (initializeBlock st ((nd - st) / PageSize) KMemoryState.Free KMemoryPermission.None
      KMemoryAttribute.None).getEndAddress = nd := by
    simp only [getEndAddress, getSize, initializeBlock, PageSize] at *
    omega
  refine ⟨⟨hst, ⟨rfl, ?_, hend⟩, isChain_singleton _⟩, hlt, ?_⟩
  · rw [hend]
    exact hlt
  · intro b hb
    obtain rfl := mem_singleton.1 hb
    exact ⟨by simp [initializeBlock, KMemoryAttribute.None],
      by simp [initializeBlock, KMemoryAttribute.None], by simp [initializeBlock],
      by simp [initializeBlock]⟩

variable {m : KMemoryBlockManager}

/-- The step: an operation whose assertions hold and which stays in the tree completes, and leaves
a well-formed map of the same range. -/
theorem apply_wellFormed {op : RangeOp} {address numPages : ℕ} (hm : m.WellFormed) (hr : m.InRange address numPages)
    (hassert : m.AssertsHold op address numPages) (hstay : m.CallerGuarded op address numPages) :
    ∃ m', m.apply op address numPages = some m' ∧ m'.WellFormed ∧
      m'.startAddress = m.startAddress ∧ m'.endAddress = m.endAddress := by
  have haddr := op.upd_address address (address + numPages * PageSize)
  have hend := op.upd_getEndAddress address (address + numPages * PageSize)
  cases hop : m.apply op address numPages with
  | none => exact absurd ((updateRange_eq_none_iff hm.toShaped hr haddr hend).1 hop) hstay.iterator
  | some m' =>
    obtain ⟨hshape, hstart, hendm⟩ := updateRange_shape hm.toShaped hr haddr hend hop
    refine ⟨m', rfl, ⟨hshape, by rw [hstart, hendm]; exact hm.start_lt_end, ?_⟩, hstart, hendm⟩
    have hfst : ∀ (b : KMemoryBlock) (a : ℕ), b.Counted → (b.split a).1.Counted :=
      fun b a h => counted_of_props_eq h rfl
    have hsnd : ∀ (b : KMemoryBlock) (a : ℕ), b.Counted → (b.split a).2.Counted :=
      fun b a h => counted_of_props_eq h rfl
    refine updateRange_forall (fun b c h _ _ => counted_of_props_eq h rfl) hfst hsnd hm.toShaped hr hm.counted ?_ hop
    intro b hb hmeets hskip
    exact upd_counted (clip_forall hfst hsnd (hm.counted b hb)) hassert.head hstay.attr (hassert.block b hb hmeets hskip)

lemma checkLoop_of_tiles {prev : KMemoryBlock} {rest : List KMemoryBlock}
    (htiles : BlockTiles x (prev :: rest) y) (hcoal : Coalesced (prev :: rest))
    (hcount : ∀ b ∈ prev :: rest, b.Counted) : checkLoop prev rest = true := by
  induction rest generalizing x prev with
  | nil => exact (hcount prev (by simp)).checkCounts
  | cons it rest ih =>
    obtain ⟨-, -, hrest⟩ := htiles
    obtain ⟨hmerge, hcoal'⟩ := isChain_cons_cons.1 hcoal
    have hit := (hcount it (by simp)).checkCounts
    rw [checkLoop, if_neg (by simp [hmerge]), if_neg (by simpa using hrest.1.symm), if_neg (by simp [hit])]
    exact ih hrest hcoal' fun b hb => hcount b (mem_cons_of_mem _ hb)

theorem WellFormed.checkState (hm : m.WellFormed) : m.checkState = true := by
  rw [KMemoryBlockManager.checkState]
  cases hblocks : m.memoryBlockTree with
  | nil => rfl
  | cons prev rest =>
    exact checkLoop_of_tiles (hblocks ▸ hm.tiles) (hblocks ▸ hm.coalesced) (hblocks ▸ hm.counted)

/-! ## Runs -/

/-- One range operation of a run: a page-aligned range inside the map, assertions that hold, and
nothing that the assertions miss. -/
def GoodStep (m m' : KMemoryBlockManager) : Prop :=
  ∃ op address numPages, m.InRange address numPages ∧ m.AssertsHold op address numPages ∧
    m.CallerGuarded op address numPages ∧ m.apply op address numPages = some m'

/-- What `CheckState` and its callers rely on, over the range the map was initialised with. -/
structure SoundMap (st nd : ℕ) (m : KMemoryBlockManager) : Prop where
  nonempty : m.memoryBlockTree ≠ []
  pages : ∀ b ∈ m.memoryBlockTree, 1 ≤ b.numPages
  contiguous : m.memoryBlockTree.IsChain fun b c => b.getEndAddress = c.address
  covers : ∀ x, (∃ b ∈ m.memoryBlockTree, b.address ≤ x ∧ x < b.getEndAddress) ↔ st ≤ x ∧ x < nd
  unmergeable : m.memoryBlockTree.IsChain fun b c => b.canMergeWith c = false
  ipcLocked : ∀ b ∈ m.memoryBlockTree, b.attr &&& IpcLocked ≠ KMemoryAttribute.None → b.ipcLockCount ≠ 0
  deviceShared : ∀ b ∈ m.memoryBlockTree, b.attr &&& DeviceShared ≠ KMemoryAttribute.None → b.deviceUseCount ≠ 0
  checkState : m.checkState = true

theorem WellFormed.soundMap (hm : m.WellFormed) : SoundMap m.startAddress m.endAddress m where
  nonempty := hm.tiles.ne_nil hm.start_lt_end
  pages := numPages_pos hm.tiles
  contiguous := hm.tiles.isChain
  covers x := hm.tiles.covered_iff
  unmergeable := hm.coalesced
  ipcLocked b hb hattr := (hm.counted b hb).ipc (by simpa [and_ipcLocked_eq_none] using hattr)
  deviceShared b hb hattr :=
    (hm.counted b hb).device (by simpa [and_deviceShared_eq_none] using hattr)
  checkState := hm.checkState

/-- The run: every state reached from `Initialize` is well formed and keeps the range. -/
lemma run_wellFormed (hst : st % PageSize = 0) (hnd : nd % PageSize = 0) (hlt : st < nd)
    (hrun : Relation.ReflTransGen GoodStep (initializeManager st nd) m) :
    m.WellFormed ∧ m.startAddress = st ∧ m.endAddress = nd := by
  induction hrun with
  | refl => exact ⟨initializeManager_wellFormed hst hnd hlt, rfl, rfl⟩
  | tail _ hstep ih =>
    obtain ⟨hm, hstart, hend⟩ := ih
    obtain ⟨op, address, numPages, hr, hassert, hstay, happly⟩ := hstep
    obtain ⟨m', happly', hm', hstart', hend'⟩ := apply_wellFormed hm hr hassert hstay
    obtain rfl : m' = _ := Option.some.inj (happly'.symm.trans happly)
    exact ⟨hm', hstart'.trans hstart, hend'.trans hend⟩

/-- **The memory map is sound after every operation**: in a run from `Initialize` whose steps stay
in the tree, every state reached is sound, and the next such operation completes. -/
theorem reachable_soundMap {st nd : ℕ} (hst : st % PageSize = 0) (hnd : nd % PageSize = 0)
    (hlt : st < nd) {m : KMemoryBlockManager}
    (hrun : Relation.ReflTransGen GoodStep (initializeManager st nd) m) :
    SoundMap st nd m ∧
      ∀ op address numPages, m.InRange address numPages → m.AssertsHold op address numPages →
        m.CallerGuarded op address numPages →
        ∃ m', m.apply op address numPages = some m' ∧ SoundMap st nd m' := by
  obtain ⟨hm, hstart, hend⟩ := run_wellFormed hst hnd hlt hrun
  refine ⟨hstart ▸ hend ▸ hm.soundMap, ?_⟩
  intro op address numPages hr hassert hstay
  obtain ⟨m', happly, hm', hstart', hend'⟩ := apply_wellFormed hm hr hassert hstay
  exact ⟨m', happly, hstart ▸ hend ▸ hstart' ▸ hend' ▸ hm'.soundMap⟩

/-- A run of one step: the first page of four is mapped. -/
theorem reachable_soundMap_four_pages :
    ∃ m, Relation.ReflTransGen GoodStep (initializeManager 0 0x4000) m ∧
      m.memoryBlockTree.map (fun b => (b.address, b.numPages)) = [(0, 1), (0x1000, 3)] ∧
      SoundMap 0 0x4000 m := by
  have hstep : GoodStep (initializeManager 0 0x4000)
      (((initializeManager 0 0x4000).apply (.update KMemoryState.Normal
        KMemoryPermission.UserReadWrite KMemoryAttribute.None 0x01#8 0x00#8) 0 1).get rfl) := by
    refine ⟨.update KMemoryState.Normal KMemoryPermission.UserReadWrite KMemoryAttribute.None 0x01#8
      0x00#8, 0, 1, ⟨by decide, by decide, by decide, by decide⟩, ⟨rfl, ?_⟩, ⟨?_, ?_⟩, rfl⟩
    · intro b hb _ _
      obtain rfl := mem_singleton.1 hb
      decide
    · rintro ⟨hlt, -⟩
      exact absurd hlt (by decide)
    · rintro _ _ ⟨⟩
  have hrun := Relation.ReflTransGen.single hstep
  exact ⟨_, hrun, rfl, (reachable_soundMap (by decide) (by decide) (by decide) hrun).1⟩

/-- On the map as `Initialize` leaves it, re-freeing the second page passes over the only block and
then steps back from it: the assertions hold and there is no next state. -/
theorem update_inside_first_block_loses_iterator :
    (initializeManager 0 0x4000).InRange 0x1000 1 ∧
      (initializeManager 0 0x4000).AssertsHold (.update KMemoryState.Free KMemoryPermission.None
        KMemoryAttribute.None 0x00#8 0x00#8) 0x1000 1 ∧
      ¬ ∃ m', (initializeManager 0 0x4000).update 0x1000 1 KMemoryState.Free
        KMemoryPermission.None KMemoryAttribute.None 0x00#8 0x00#8 = some m' ∧
        SoundMap 0 0x4000 m' := by
  refine ⟨⟨by decide, by decide, by decide, by decide⟩, ⟨rfl, ?_⟩, ?_⟩
  · intro b hb _ hskip
    obtain rfl := mem_singleton.1 hb
    exact absurd hskip (by decide)
  · rintro ⟨m', hm', -⟩
    have hnone : (initializeManager 0 0x4000).update 0x1000 1 KMemoryState.Free
        KMemoryPermission.None KMemoryAttribute.None 0x00#8 0x00#8 = none := by decide
    rw [hnone] at hm'
    exact absurd hm' (by simp)

end KMemoryBlockManager

end Voltemu.Kernel
