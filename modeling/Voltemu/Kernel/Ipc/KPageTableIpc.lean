import Voltemu.Kernel.Memory.LockCounts

/-!
# IPC mappings of a page table

The client's side of an IPC mapping in `k_page_table_base.cpp`: `SetupForIpcClient`, `SetupForIpc`,
`CleanupForIpcClient` and `CleanupForIpcClientOnServerSetupFailure`.

* A `KMemoryInfo` is a copy of the block.
* `Operate` with `ChangePermissions` never fails.  It ignores the merge properties, which are left out.
* The server is a parameter of `SetupForIpc`: a state, and what `SetupForIpcServer` does to it.
* An `ASSERT` is a flag of the outcome, and a null iterator that is followed is `none`.
-/

namespace Voltemu.Kernel

namespace KMemoryState

def Ipc : KMemoryState := 0x045C3C0A#32
def NonSecureIpc : KMemoryState := 0x045C3811#32
def NonDeviceIpc : KMemoryState := 0x044C2812#32
def FlagCanUseIpc : KMemoryState := 0x00000400#32
def FlagCanUseNonDeviceIpc : KMemoryState := 0x00000800#32
def FlagCanUseNonSecureIpc : KMemoryState := 0x00001000#32

end KMemoryState

namespace KMemoryPermission

def KernelReadWrite : KMemoryPermission := KernelRead ||| KernelWrite

end KMemoryPermission

open KMemoryPermission (IpcLockChangeMask)

/-- The errors of the functions below. -/
inductive KResult
  | invalidCurrentMemory
  | invalidCombination
  | outOfResource
  | outOfAddressSpace
  | limitReached
  | outOfMemory
deriving DecidableEq

/-- `Common::AlignDown` to pages. -/
def alignDown (x : ℕ) : ℕ := x - x % PageSize

/-- `Common::AlignUp` to pages. -/
def alignUp (x : ℕ) : ℕ := if x % PageSize = 0 then x else x - x % PageSize + PageSize

/-- How a message names a buffer. -/
inductive BufferKind
  | send
  | receive
  | exchange
deriving DecidableEq

def BufferKind.testPerm : BufferKind → KMemoryPermission
  | .send => KMemoryPermission.UserRead
  | .receive => KMemoryPermission.UserReadWrite
  | .exchange => KMemoryPermission.UserReadWrite

/-- A buffer of a client, with the state that its pages get in the server. -/
structure IpcBuffer where
  address : ℕ
  size : ℕ
  kind : BufferKind
  dstState : KMemoryState
  size_lt : size < 2 ^ 64
deriving DecidableEq

namespace IpcBuffer

variable (b : IpcBuffer)

def srcPerm : KMemoryPermission :=
  if b.kind.testPerm = KMemoryPermission.UserReadWrite then
    KMemoryPermission.KernelReadWrite ||| KMemoryPermission.NotMapped
  else KMemoryPermission.UserRead

/-! The extents: of the pages that the buffer touches, and of those that it fills. -/

def alignedSrcStart : ℕ := alignDown b.address

def alignedSrcEnd : ℕ := alignUp (b.address + b.size)

def mappingSrcStart : ℕ := alignUp b.address

def mappingSrcEnd : ℕ := alignDown (b.address + b.size)

/-- The pages that the buffer fills. -/
def range : PageRange := ⟨b.mappingSrcStart, (b.mappingSrcEnd - b.mappingSrcStart) / PageSize⟩

end IpcBuffer

/-- The test state and the test attribute mask of a destination state. -/
def testStateOf (dstState : KMemoryState) : Option (KMemoryState × KMemoryAttribute) :=
  if dstState = KMemoryState.Ipc then
    some (KMemoryState.FlagCanUseIpc,
      KMemoryAttribute.Uncached ||| KMemoryAttribute.DeviceShared ||| KMemoryAttribute.Locked)
  else if dstState = KMemoryState.NonSecureIpc then
    some (KMemoryState.FlagCanUseNonSecureIpc, KMemoryAttribute.Uncached ||| KMemoryAttribute.Locked)
  else if dstState = KMemoryState.NonDeviceIpc then
    some (KMemoryState.FlagCanUseNonDeviceIpc, KMemoryAttribute.Uncached ||| KMemoryAttribute.Locked)
  else none

def checkMemoryState (info : KMemoryBlock) (stateMask state : KMemoryState) (permMask perm : KMemoryPermission)
    (attrMask attr : KMemoryAttribute) : Bool :=
  (info.memoryState &&& stateMask) == state && (info.permission &&& permMask) == perm && (info.attr &&& attrMask) == attr

/-- `KPageTableBase`: the block map, and the permission that `Operate` last applied to an address. -/
structure KPageTable where
  manager : KMemoryBlockManager
  applied : ℕ → KMemoryPermission

namespace KPageTable

variable (t : KPageTable)

/-- `Contains`, on 64-bit addresses. -/
def contains (address size : ℕ) : Bool :=
  t.manager.startAddress ≤ address && address < (address + size) % 2 ^ 64 &&
    (address + size) % 2 ^ 64 - 1 ≤ t.manager.endAddress - 1

/-- `Operate`, with `ChangePermissions`. -/
def operate (address numPages : ℕ) (perm : KMemoryPermission) : KPageTable :=
  { t with applied := fun x => if address ≤ x ∧ x < address + numPages * PageSize then perm else t.applied x }

/-- The blocks from `FindIterator` on. -/
def blocksFrom (address : ℕ) : List KMemoryBlock :=
  (KMemoryBlockManager.findIterator t.manager.memoryBlockTree address).2

/-! ## `CleanupForIpcClientOnServerSetupFailure` -/

def fixesProtection (srcMapStart srcMapEnd curEnd : ℕ) (protPerm : KMemoryPermission) (info : KMemoryBlock) : Bool :=
  ((info.ipcLockCount == 0 && (info.permission &&& IpcLockChangeMask) != protPerm) ||
    (info.ipcLockCount != 0 && (info.originalPermission &&& IpcLockChangeMask) != protPerm)) &&
  (curEnd == srcMapEnd || decide (info.address ≤ srcMapStart) ||
    (info.permission &&& IpcLockChangeMask) != protPerm)

def setupFailureLoop (srcMapStart srcMapEnd : ℕ) (protPerm : KMemoryPermission) :
    List KMemoryBlock → KPageTable → KPageTable
  | [], t => t
  | info :: rest, t =>
      let curStart := if srcMapStart ≤ info.address then info.address else srcMapStart
      let curEnd := if srcMapEnd - 1 ≤ info.getLastAddress then srcMapEnd else info.getEndAddress
      let t :=
        if fixesProtection srcMapStart srcMapEnd curEnd protPerm info then
          t.operate curStart ((curEnd - curStart) / PageSize) info.permission
        else t
      if srcMapEnd - 1 ≤ info.getLastAddress then t
      else setupFailureLoop srcMapStart srcMapEnd protPerm rest t

def cleanupForIpcClientOnServerSetupFailure (address size : ℕ) (protPerm : KMemoryPermission) : KPageTable :=
  setupFailureLoop address (address + size) protPerm (t.blocksFrom address) t

/-! ## `SetupForIpcClient` -/

/-- What the loop of `SetupForIpcClient` has done. -/
structure SetupProgress where
  table : KPageTable
  mappedSize : ℕ
  blocksNeeded : ℕ

/-- The part of an iteration that changes the permission of a block. -/
def setupBlock (b : IpcBuffer) (info : KMemoryBlock) (p : SetupProgress) : SetupProgress :=
  if b.mappingSrcStart < b.mappingSrcEnd ∧ b.mappingSrcStart < info.getEndAddress ∧ info.address < b.mappingSrcEnd then
    let curStart := if b.mappingSrcStart ≤ info.address then info.address else b.mappingSrcStart
    let curEnd := if info.getLastAddress ≤ b.mappingSrcEnd - 1 then info.getEndAddress else b.mappingSrcEnd
    let curSize := curEnd - curStart
    { table :=
        if (info.permission &&& IpcLockChangeMask) ≠ b.srcPerm then
          p.table.operate curStart (curSize / PageSize) b.srcPerm
        else p.table
      mappedSize := p.mappedSize + curSize
      blocksNeeded := p.blocksNeeded + (if info.address < b.mappingSrcStart then 1 else 0) +
        if b.mappingSrcEnd - 1 < info.getLastAddress then 1 else 0 }
  else p

/-- The loop of `SetupForIpcClient`.  The flag is false if a check failed. -/
def setupLoop (b : IpcBuffer) (check : KMemoryBlock → Bool) :
    List KMemoryBlock → SetupProgress → Option (SetupProgress × Bool)
  | [], _ => none
  | info :: rest, p =>
      if check info = false then some (p, false)
      else
        let p := setupBlock b info p
        if b.alignedSrcEnd - 1 ≤ info.getLastAddress then some (p, true)
        else setupLoop b check rest p

def setupCheck (b : IpcBuffer) (test : KMemoryState × KMemoryAttribute) (info : KMemoryBlock) : Bool :=
  checkMemoryState info test.1 test.1 b.kind.testPerm b.kind.testPerm test.2 KMemoryAttribute.None

/-- `SetupForIpcClient`, with the number of blocks that the lock will need. -/
def setupForIpcClient (b : IpcBuffer) : Option (KPageTable × Except KResult ℕ) :=
  if t.contains b.address b.size = false then some (t, .error .invalidCurrentMemory)
  else
    match testStateOf b.dstState with
    | none => some (t, .error .invalidCombination)
    | some test =>
        (setupLoop b (setupCheck b test) (t.blocksFrom b.alignedSrcStart) ⟨t, 0, 0⟩).map fun out =>
          let p := out.1
          if out.2 then (p.table, .ok p.blocksNeeded)
          else
            (if 0 < p.mappedSize then
              p.table.cleanupForIpcClientOnServerSetupFailure b.mappingSrcStart p.mappedSize b.srcPerm
            else p.table, .error .invalidCurrentMemory)

/-! ## `SetupForIpc` -/

/-- `SetupForIpc`, for a client table whose slab has `freeBlocks` blocks and a server on which `SetupForIpcServer` is
`setupForIpcServer`. -/
def setupForIpc {σ : Type} (freeBlocks : ℕ) (server : σ) (setupForIpcServer : σ → Option (σ × Except KResult ℕ))
    (b : IpcBuffer) : Option (KPageTable × σ × Except KResult ℕ) :=
  (t.setupForIpcClient b).bind fun
    | (t, .error e) => some (t, server, .error e)
    | (t, .ok numAllocatorBlocks) =>
        if freeBlocks < numAllocatorBlocks then some (t, server, .error .outOfResource)
        else
          (setupForIpcServer server).bind fun
          | (server, .error e) =>
              some (if b.mappingSrcStart < b.mappingSrcEnd then
                t.cleanupForIpcClientOnServerSetupFailure b.mappingSrcStart (b.mappingSrcEnd - b.mappingSrcStart) b.srcPerm
              else t, server, .error e)
          | (server, .ok address) =>
              if b.mappingSrcStart < b.mappingSrcEnd then
                (t.manager.updateLock b.mappingSrcStart ((b.mappingSrcEnd - b.mappingSrcStart) / PageSize)
                  .lockForIpc b.srcPerm).map fun m => ({ t with manager := m }, server, .ok address)
              else some (t, server, .ok address)

/-! ## `CleanupForIpcClient` -/

/-- `perm_eq` and `needs_set_perm` of a block. -/
def permEq (info : KMemoryBlock) : Bool := info.permission == info.originalPermission

def needsSetPerm (info : KMemoryBlock) : Bool := !permEq info && info.ipcLockCount == 1

/-- The tracking variables of `CleanupForIpcClient`: neighbouring blocks that are reprotected together. -/
structure Group where
  curInfo : KMemoryBlock
  curAddress : ℕ
  curSize : ℕ
  first : Bool

def reprotect (g : Group) (wanted : Bool) : KPageTable :=
  if wanted && !permEq g.curInfo then
    t.operate g.curAddress (g.curSize / PageSize)
      (if needsSetPerm g.curInfo then g.curInfo.originalPermission else g.curInfo.permission)
  else t

/-- The loop of `CleanupForIpcClient`.  The flag is whether the assertions hold. -/
def cleanupLoop (check : KMemoryBlock → Bool) (mappingLast : ℕ) :
    Group → List KMemoryBlock → KPageTable → Bool → Group × List KMemoryBlock × KPageTable × Bool
  | g, [], t, asserts =>
      if g.curAddress + g.curSize - 1 < mappingLast then (g, [], t, false) else (g, [], t, asserts)
  | g, next :: rest, t, asserts =>
      if g.curAddress + g.curSize - 1 < mappingLast then
        if permEq g.curInfo = permEq next ∧ needsSetPerm g.curInfo = needsSetPerm next ∧
            g.curInfo.originalPermission = next.originalPermission then
          cleanupLoop check mappingLast ⟨next, g.curAddress, g.curSize + next.getSize, g.first⟩ rest t
            (asserts && check next)
        else
          cleanupLoop check mappingLast ⟨next, next.address, next.getSize, false⟩ rest
            (t.reprotect g (needsSetPerm g.curInfo || g.first)) (asserts && check next)
      else (g, next :: rest, t, asserts)

/-- The lock count that decides about the last block. -/
def lastLockCount (cur : KMemoryBlock) (next : List KMemoryBlock) : ℤ :=
  (cur.ipcLockCount : ℤ) +
    match next with
    | [] => 0
    | next :: _ => (next.ipcDisableMergeCount : ℤ) - next.ipcLockCount

def cleanupCheck (test : KMemoryState × KMemoryAttribute) (info : KMemoryBlock) : Bool :=
  checkMemoryState info test.1 test.1 KMemoryPermission.None KMemoryPermission.None
    (test.2 ||| KMemoryAttribute.IpcLocked) KMemoryAttribute.IpcLocked

/-- The update allocator of `CleanupForIpcClient` has no block, so that no block may be split, and `UnlockForIpc` has
assertions of its own. -/
def unlockAsserts (address numPages : ℕ) : Bool :=
  t.manager.memoryBlockTree.all fun b =>
    decide (b.getEndAddress ≤ address) || decide (address + numPages * PageSize ≤ b.address) ||
      (decide (address ≤ b.address) && decide (b.getEndAddress ≤ address + numPages * PageSize) &&
        b.unlockForIpcAsserts (b.address == address))

structure CleanupOutcome where
  table : KPageTable
  /-- The assertions hold. -/
  asserts : Bool
  result : Except KResult Unit

def firstGroup (cur : KMemoryBlock) : Group where
  curInfo := cur
  curAddress := cur.address
  curSize := cur.getSize
  first := cur.ipcDisableMergeCount == 1 &&
    (cur.disableMergeAttribute &&& KMemoryBlockDisableMergeAttribute.Locked) == KMemoryBlockDisableMergeAttribute.None

/-- The part of `CleanupForIpcClient` that reprotects and unlocks the pages. -/
def cleanupPages (mappingStart mappingEnd : ℕ) (test : KMemoryState × KMemoryAttribute) : Option CleanupOutcome :=
  match t.blocksFrom mappingStart with
  | [] => none
  | cur :: rest =>
      let (g, next, t, asserts) :=
        cleanupLoop (cleanupCheck test) (mappingEnd - 1) (firstGroup cur) rest t (cleanupCheck test cur)
      let t := t.reprotect g (g.first || needsSetPerm g.curInfo || lastLockCount g.curInfo next == 1)
      let numPages := (mappingEnd - mappingStart) / PageSize
      (t.manager.updateLock mappingStart numPages .unlockForIpc KMemoryPermission.None).map fun m =>
        ⟨{ t with manager := m }, asserts && t.unlockAsserts mappingStart numPages, .ok ()⟩

/-- `CleanupForIpcClient`.  Once the blocks are checked nothing fails any more: the rollback of the source is never
run. -/
def cleanupForIpcClient (address size : ℕ) (dstState : KMemoryState) : Option CleanupOutcome :=
  if t.contains address size = false then some ⟨t, true, .error .invalidCurrentMemory⟩
  else
    let mappingStart := alignUp address
    let mappingEnd := alignDown (address + size)
    if ¬ mappingStart < mappingEnd then some ⟨t, true, .ok ()⟩
    else
      match testStateOf dstState with
      | none => some ⟨t, true, .error .invalidCombination⟩
      | some test => t.cleanupPages mappingStart mappingEnd test

end KPageTable

end Voltemu.Kernel
