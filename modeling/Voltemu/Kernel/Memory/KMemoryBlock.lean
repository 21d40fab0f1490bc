import Mathlib.Data.BitVec
import Mathlib.Tactic

/-!
# `KMemoryBlock`: one block of a process' memory map

`k_memory_block.h`.  A block is a run of pages with one state, one permission, one attribute
set and one pair of lock counters, together with the flags that forbid merging it with a
neighbour.

* Addresses are byte addresses (`ℕ`; every range the manager handles ends below `2 ^ 64`),
  sizes are counted in pages of `PageSize` bytes.
* Counters are `u16` in the source: `u16Inc` and `u16Dec` wrap.
* `ASSERT` logs and carries on (`AssertFailSoftImpl`), so the mutators below are total; the
  assertions of each one stand beside it as a `Bool` under the name `…Asserts`.
-/

namespace Voltemu.Kernel

/-- `PageSize`, `1 << PageBits` in `memory_types.h`. -/
abbrev PageSize : ℕ := 0x1000

def u16Inc (x : ℕ) : ℕ := (x + 1) % 2 ^ 16

def u16Dec (x : ℕ) : ℕ := if x = 0 then 2 ^ 16 - 1 else x - 1

/-- `enum class KMemoryState : u32`. -/
abbrev KMemoryState := BitVec 32

namespace KMemoryState

def Free : KMemoryState := 0x00000000#32
def Normal : KMemoryState := 0x077EBD05#32

end KMemoryState

/-- `enum class KMemoryPermission : u8`. -/
abbrev KMemoryPermission := BitVec 8

namespace KMemoryPermission

def None : KMemoryPermission := 0x00#8
def KernelRead : KMemoryPermission := 0x08#8
def KernelWrite : KMemoryPermission := 0x10#8
def NotMapped : KMemoryPermission := 0x40#8
def UserRead : KMemoryPermission := 0x01#8 ||| KernelRead
def UserWrite : KMemoryPermission := 0x02#8 ||| KernelWrite
def UserExecute : KMemoryPermission := 0x04#8
def UserReadWrite : KMemoryPermission := UserRead ||| UserWrite
def IpcLockChangeMask : KMemoryPermission := NotMapped ||| UserReadWrite

end KMemoryPermission

/-- `enum class KMemoryAttribute : u8`. -/
abbrev KMemoryAttribute := BitVec 8

namespace KMemoryAttribute

def None : KMemoryAttribute := 0x00#8
def Locked : KMemoryAttribute := 0x01#8
def IpcLocked : KMemoryAttribute := 0x02#8
def DeviceShared : KMemoryAttribute := 0x04#8
def Uncached : KMemoryAttribute := 0x08#8
def PermissionLocked : KMemoryAttribute := 0x10#8

/-- `AttributeIgnoreMask` of `HasProperties`: the two attributes that only the lock functions
maintain. -/
def IgnoreMask : KMemoryAttribute := IpcLocked ||| DeviceShared

end KMemoryAttribute

/-- `enum class KMemoryBlockDisableMergeAttribute : u8`. -/
abbrev KMemoryBlockDisableMergeAttribute := BitVec 8

namespace KMemoryBlockDisableMergeAttribute

def None : KMemoryBlockDisableMergeAttribute := 0x00#8
def Normal : KMemoryBlockDisableMergeAttribute := 0x01#8
def DeviceLeft : KMemoryBlockDisableMergeAttribute := 0x02#8
def IpcLeft : KMemoryBlockDisableMergeAttribute := 0x04#8
def Locked : KMemoryBlockDisableMergeAttribute := 0x08#8
def DeviceRight : KMemoryBlockDisableMergeAttribute := 0x10#8
def AllLeft : KMemoryBlockDisableMergeAttribute := 0x0F#8
def AllRight : KMemoryBlockDisableMergeAttribute := 0x10#8

end KMemoryBlockDisableMergeAttribute

open KMemoryBlockDisableMergeAttribute (DeviceLeft DeviceRight IpcLeft AllLeft AllRight)

structure KMemoryBlock where
  deviceDisableMergeLeftCount : ℕ
  deviceDisableMergeRightCount : ℕ
  address : ℕ
  numPages : ℕ
  memoryState : KMemoryState
  ipcLockCount : ℕ
  deviceUseCount : ℕ
  ipcDisableMergeCount : ℕ
  permission : KMemoryPermission
  originalPermission : KMemoryPermission
  attr : KMemoryAttribute
  disableMergeAttribute : KMemoryBlockDisableMergeAttribute
deriving DecidableEq

namespace KMemoryBlock

/-- `Initialize` on a freshly constructed block.  The source leaves `m_ipc_disable_merge_count`
at its default member value. -/
def initializeBlock (addr np : ℕ) (ms : KMemoryState) (p : KMemoryPermission)
    (attr : KMemoryAttribute) : KMemoryBlock where
  deviceDisableMergeLeftCount := 0
  deviceDisableMergeRightCount := 0
  address := addr
  numPages := np
  memoryState := ms
  ipcLockCount := 0
  deviceUseCount := 0
  ipcDisableMergeCount := 0
  permission := p
  originalPermission := KMemoryPermission.None
  attr := attr
  disableMergeAttribute := KMemoryBlockDisableMergeAttribute.None

def getSize (b : KMemoryBlock) : ℕ := b.numPages * PageSize

def getEndAddress (b : KMemoryBlock) : ℕ := b.address + b.getSize

def getLastAddress (b : KMemoryBlock) : ℕ := b.getEndAddress - 1

/-- `HasProperties`: the lock attributes are ignored on both sides. -/
def hasProperties (b : KMemoryBlock) (s : KMemoryState) (p : KMemoryPermission) (a : KMemoryAttribute) : Bool :=
  b.memoryState == s && b.permission == p &&
    (b.attr ||| KMemoryAttribute.IgnoreMask) == (a ||| KMemoryAttribute.IgnoreMask)

def hasSameProperties (b rhs : KMemoryBlock) : Bool :=
  b.memoryState == rhs.memoryState && b.permission == rhs.permission &&
    b.originalPermission == rhs.originalPermission && b.attr == rhs.attr &&
    b.ipcLockCount == rhs.ipcLockCount && b.deviceUseCount == rhs.deviceUseCount

def canMergeWith (b rhs : KMemoryBlock) : Bool :=
  b.hasSameProperties rhs && (b.disableMergeAttribute &&& AllRight) == KMemoryBlockDisableMergeAttribute.None &&
    (rhs.disableMergeAttribute &&& AllLeft) == KMemoryBlockDisableMergeAttribute.None

/-- `Add`: absorb the block that follows.  The left counters stay, the right one is taken over. -/
def add (b added : KMemoryBlock) : KMemoryBlock :=
  { b with
    numPages := b.numPages + added.numPages
    disableMergeAttribute := b.disableMergeAttribute ||| added.disableMergeAttribute
    deviceDisableMergeRightCount := added.deviceDisableMergeRightCount }

/-- `Split`, as the pair of the new block `[address, addr)` and what is left of this one. -/
def split (b : KMemoryBlock) (addr : ℕ) : KMemoryBlock × KMemoryBlock :=
  ({ b with
      numPages := (addr - b.address) / PageSize
      disableMergeAttribute := b.disableMergeAttribute &&& AllLeft
      deviceDisableMergeRightCount := 0 },
   { b with
      address := addr
      numPages := b.numPages - (addr - b.address) / PageSize
      ipcDisableMergeCount := 0
      deviceDisableMergeLeftCount := 0
      disableMergeAttribute := b.disableMergeAttribute &&& AllRight })

def update (b : KMemoryBlock) (s : KMemoryState) (p : KMemoryPermission) (a : KMemoryAttribute)
    (setDisableMergeAttr : Bool) (setMask clearMask : BitVec 8) : KMemoryBlock :=
  let set :=
    if setDisableMergeAttr && setMask != 0#8 then b.disableMergeAttribute ||| setMask
    else b.disableMergeAttribute
  { b with
    memoryState := s
    permission := p
    attr := a ||| (b.attr &&& KMemoryAttribute.IgnoreMask)
    disableMergeAttribute := if clearMask != 0#8 then set &&& ~~~clearMask else set }

def updateAsserts (b : KMemoryBlock) : Bool :=
  b.originalPermission == KMemoryPermission.None && (b.attr &&& KMemoryAttribute.IpcLocked) == KMemoryAttribute.None

def updateAttribute (b : KMemoryBlock) (mask attr : KMemoryAttribute) : KMemoryBlock :=
  { b with attr := (b.attr &&& ~~~mask) ||| attr }

def updateAttributeAsserts (mask : KMemoryAttribute) : Bool :=
  (mask &&& KMemoryAttribute.IpcLocked) == KMemoryAttribute.None &&
    (mask &&& KMemoryAttribute.DeviceShared) == KMemoryAttribute.None

/-! ## The lock functions

Every one of them has the type `MemoryBlockLockFunction`: it takes the new permission and
whether the block is the first (`left`) or the last (`right`) of the locked range.
-/

def updateDeviceDisableMergeStateForShareLeft (b : KMemoryBlock) (left : Bool) : KMemoryBlock :=
  if left then
    { b with
      disableMergeAttribute := b.disableMergeAttribute ||| DeviceLeft
      deviceDisableMergeLeftCount := u16Inc b.deviceDisableMergeLeftCount }
  else b

def updateDeviceDisableMergeStateForShareRight (b : KMemoryBlock) (right : Bool) : KMemoryBlock :=
  if right then
    { b with
      disableMergeAttribute := b.disableMergeAttribute ||| DeviceRight
      deviceDisableMergeRightCount := u16Inc b.deviceDisableMergeRightCount }
  else b

def updateDeviceDisableMergeStateForShare (b : KMemoryBlock) (left right : Bool) : KMemoryBlock :=
  (b.updateDeviceDisableMergeStateForShareLeft left).updateDeviceDisableMergeStateForShareRight
    right

def shareToDevice (b : KMemoryBlock) (left right : Bool) : KMemoryBlock :=
  updateDeviceDisableMergeStateForShare
    { b with
      deviceUseCount := u16Inc b.deviceUseCount
      attr := b.attr ||| KMemoryAttribute.DeviceShared } left right

/-- The early `return` of the source leaves the clamp and the flag alone. -/
def updateDeviceDisableMergeStateForUnshareLeft (b : KMemoryBlock) (left : Bool) : KMemoryBlock :=
  if left && b.deviceDisableMergeLeftCount == 0 then b
  else
    let count :=
      min (if left then u16Dec b.deviceDisableMergeLeftCount else b.deviceDisableMergeLeftCount) b.deviceUseCount
    { b with
      deviceDisableMergeLeftCount := count
      disableMergeAttribute :=
        if count == 0 then b.disableMergeAttribute &&& ~~~DeviceLeft
        else b.disableMergeAttribute }

def updateDeviceDisableMergeStateForUnshareRight (b : KMemoryBlock) (right : Bool) : KMemoryBlock :=
  if right then
    { b with
      deviceDisableMergeRightCount := u16Dec b.deviceDisableMergeRightCount
      disableMergeAttribute :=
        if b.deviceDisableMergeRightCount == 1 then b.disableMergeAttribute &&& ~~~DeviceRight
        else b.disableMergeAttribute }
  else b

def updateDeviceDisableMergeStateForUnshare (b : KMemoryBlock) (left right : Bool) : KMemoryBlock :=
  (b.updateDeviceDisableMergeStateForUnshareLeft
    left).updateDeviceDisableMergeStateForUnshareRight right

/-- The part `UnshareToDevice` and `UnshareToDeviceRight` share: drop one use. -/
def dropDeviceUse (b : KMemoryBlock) : KMemoryBlock :=
  { b with
    deviceUseCount := u16Dec b.deviceUseCount
    attr :=
      if b.deviceUseCount == 1 then b.attr &&& ~~~KMemoryAttribute.DeviceShared
      else b.attr }

def unshareToDevice (b : KMemoryBlock) (left right : Bool) : KMemoryBlock :=
  b.dropDeviceUse.updateDeviceDisableMergeStateForUnshare left right

def unshareToDeviceRight (b : KMemoryBlock) (right : Bool) : KMemoryBlock :=
  b.dropDeviceUse.updateDeviceDisableMergeStateForUnshareRight right

/-- The first lock of a block saves its permission and narrows it. -/
def lockForIpc (b : KMemoryBlock) (newPerm : KMemoryPermission) (left : Bool) : KMemoryBlock :=
  let newLockCount := u16Inc b.ipcLockCount
  let first := newLockCount == 1
  { b with
    ipcLockCount := newLockCount
    originalPermission := if first then b.permission else b.originalPermission
    permission :=
      if first then
        (newPerm &&& KMemoryPermission.IpcLockChangeMask) |||
          (b.permission &&& ~~~KMemoryPermission.IpcLockChangeMask)
      else b.permission
    attr := b.attr ||| KMemoryAttribute.IpcLocked
    disableMergeAttribute :=
      if left then b.disableMergeAttribute ||| IpcLeft else b.disableMergeAttribute
    ipcDisableMergeCount :=
      if left then u16Inc b.ipcDisableMergeCount else b.ipcDisableMergeCount }

/-- The last unlock of a block restores the permission the first lock saved. -/
def unlockForIpc (b : KMemoryBlock) (left : Bool) : KMemoryBlock :=
  let last := b.ipcLockCount == 1
  { b with
    ipcLockCount := u16Dec b.ipcLockCount
    permission := if last then b.originalPermission else b.permission
    originalPermission := if last then KMemoryPermission.None else b.originalPermission
    attr := if last then b.attr &&& ~~~KMemoryAttribute.IpcLocked else b.attr
    ipcDisableMergeCount :=
      if left then u16Dec b.ipcDisableMergeCount else b.ipcDisableMergeCount
    disableMergeAttribute :=
      if left && b.ipcDisableMergeCount == 1 then b.disableMergeAttribute &&& ~~~IpcLeft
      else b.disableMergeAttribute }

/-! ### Their assertions -/

def shareLeftAsserts (b : KMemoryBlock) (left : Bool) : Bool :=
  !left || decide (0 < u16Inc b.deviceDisableMergeLeftCount)

def shareRightAsserts (b : KMemoryBlock) (right : Bool) : Bool :=
  !right || decide (0 < u16Inc b.deviceDisableMergeRightCount)

def unshareRightAsserts (b : KMemoryBlock) (right : Bool) : Bool :=
  !right || decide (0 < b.deviceDisableMergeRightCount)

def shareToDeviceAsserts (b : KMemoryBlock) (left right : Bool) : Bool :=
  ((b.attr &&& KMemoryAttribute.DeviceShared) == KMemoryAttribute.DeviceShared ||
      b.deviceUseCount == 0) &&
    decide (0 < u16Inc b.deviceUseCount) && b.shareLeftAsserts left && b.shareRightAsserts right

def dropDeviceUseAsserts (b : KMemoryBlock) : Bool :=
  (b.attr &&& KMemoryAttribute.DeviceShared) == KMemoryAttribute.DeviceShared &&
    decide (0 < b.deviceUseCount)

def lockForIpcAsserts (b : KMemoryBlock) (newPerm : KMemoryPermission) (left : Bool) : Bool :=
  ((b.attr &&& KMemoryAttribute.IpcLocked) == KMemoryAttribute.IpcLocked ||
      b.ipcLockCount == 0) &&
    decide (0 < u16Inc b.ipcLockCount) &&
    (u16Inc b.ipcLockCount != 1 ||
      (b.originalPermission == KMemoryPermission.None &&
        (b.permission ||| newPerm ||| KMemoryPermission.NotMapped) == (b.permission ||| KMemoryPermission.NotMapped) &&
        ((b.permission &&& KMemoryPermission.UserExecute) != KMemoryPermission.UserExecute ||
          newPerm == KMemoryPermission.UserRead))) &&
    (!left || decide (0 < u16Inc b.ipcDisableMergeCount))

def unlockForIpcAsserts (b : KMemoryBlock) (left : Bool) : Bool :=
  (b.attr &&& KMemoryAttribute.IpcLocked) == KMemoryAttribute.IpcLocked &&
    decide (0 < b.ipcLockCount) &&
    (b.ipcLockCount != 1 || b.originalPermission != KMemoryPermission.None) &&
    (!left || decide (0 < b.ipcDisableMergeCount))

end KMemoryBlock

/-- The member functions that `UpdateLock` is called with. -/
inductive LockFunc
  | shareToDevice
  | unshareToDevice
  | unshareToDeviceRight
  | lockForIpc
  | unlockForIpc
  | updateDeviceDisableMergeStateForShareLeft
  | updateDeviceDisableMergeStateForShareRight
  | updateDeviceDisableMergeStateForShare
  | updateDeviceDisableMergeStateForUnshareLeft
  | updateDeviceDisableMergeStateForUnshareRight
  | updateDeviceDisableMergeStateForUnshare
deriving DecidableEq

namespace LockFunc

/-- `(block->*lock_func)(perm, left, right)`. -/
def apply (f : LockFunc) (b : KMemoryBlock) (perm : KMemoryPermission) (left right : Bool) : KMemoryBlock :=
  match f with
  | shareToDevice => b.shareToDevice left right
  | unshareToDevice => b.unshareToDevice left right
  | unshareToDeviceRight => b.unshareToDeviceRight right
  | lockForIpc => b.lockForIpc perm left
  | unlockForIpc => b.unlockForIpc left
  | updateDeviceDisableMergeStateForShareLeft =>
      b.updateDeviceDisableMergeStateForShareLeft left
  | updateDeviceDisableMergeStateForShareRight =>
      b.updateDeviceDisableMergeStateForShareRight right
  | updateDeviceDisableMergeStateForShare => b.updateDeviceDisableMergeStateForShare left right
  | updateDeviceDisableMergeStateForUnshareLeft =>
      b.updateDeviceDisableMergeStateForUnshareLeft left
  | updateDeviceDisableMergeStateForUnshareRight =>
      b.updateDeviceDisableMergeStateForUnshareRight right
  | updateDeviceDisableMergeStateForUnshare =>
      b.updateDeviceDisableMergeStateForUnshare left right

/-- The `ASSERT`s met on the way. -/
def asserts (f : LockFunc) (b : KMemoryBlock) (perm : KMemoryPermission) (left right : Bool) : Bool :=
  match f with
  | shareToDevice => b.shareToDeviceAsserts left right
  | unshareToDevice => b.dropDeviceUseAsserts && b.unshareRightAsserts right
  | unshareToDeviceRight => b.dropDeviceUseAsserts && b.unshareRightAsserts right
  | lockForIpc => b.lockForIpcAsserts perm left
  | unlockForIpc => b.unlockForIpcAsserts left
  | updateDeviceDisableMergeStateForShareLeft => b.shareLeftAsserts left
  | updateDeviceDisableMergeStateForShareRight => b.shareRightAsserts right
  | updateDeviceDisableMergeStateForShare => b.shareLeftAsserts left && b.shareRightAsserts right
  | updateDeviceDisableMergeStateForUnshareLeft => true
  | updateDeviceDisableMergeStateForUnshareRight => b.unshareRightAsserts right
  | updateDeviceDisableMergeStateForUnshare => b.unshareRightAsserts right

end LockFunc

end Voltemu.Kernel
