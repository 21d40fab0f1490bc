import Voltemu.Kernel.Memory.KMemoryBlock

/-!
# `KMemoryBlockManager`: the memory map of a process

`k_memory_block_manager.{h,cpp}`.  The intrusive red-black tree is the list of its blocks in
address order; an iterator is a position in that list, and `end()` (a null node) is the position
after the last block.  Moving or dereferencing a null iterator is undefined behaviour in the
source (`RB_NEXT`, `RB_PREV` and `operator->` all follow the pointer), so every function that can
do it returns an `Option`.

* `updateLoop` is the walk shared by `Update`, `UpdateIfMatch`, `UpdateLock` and
  `UpdateAttribute`: they differ in the test that lets a block pass unchanged and in the member
  function called on the blocks that do not.
* `coalesceForUpdate` merges what became mergeable in the window around the range.
-/

namespace Voltemu.Kernel

structure KMemoryBlockManager where
  memoryBlockTree : List KMemoryBlock
  startAddress : ℕ
  endAddress : ℕ
deriving DecidableEq

namespace KMemoryBlock

/-- `Compare` of a key block that starts at `lhs` with a block of the tree. -/
def compareKey (lhs : ℕ) (rhs : KMemoryBlock) : ℤ :=
  if lhs < rhs.address then -1
  else if lhs ≤ rhs.getLastAddress then 0
  else 1

end KMemoryBlock

namespace KMemoryBlockManager

/-- `Initialize`, once the slab has handed out the first block. -/
def initializeManager (st nd : ℕ) : KMemoryBlockManager where
  memoryBlockTree :=
    [KMemoryBlock.initializeBlock st ((nd - st) / PageSize) KMemoryState.Free
      KMemoryPermission.None KMemoryAttribute.None]
  startAddress := st
  endAddress := nd

/-- `FindIterator`: the blocks before the position found, and the blocks from it on. -/
def findIterator (blocks : List KMemoryBlock) (address : ℕ) : List KMemoryBlock × List KMemoryBlock :=
  (blocks.takeWhile fun b => KMemoryBlock.compareKey address b != 0,
   blocks.dropWhile fun b => KMemoryBlock.compareKey address b != 0)

/-- "If we need to, create a new block before and insert it": the block split off, if any, and
the block that starts at `curAddress`. -/
def splitBefore (it : KMemoryBlock) (curAddress : ℕ) : List KMemoryBlock × KMemoryBlock :=
  if it.address ≠ curAddress then ([(it.split curAddress).1], (it.split curAddress).2)
  else ([], it)

/-- The walk over the range.  `skip` is the test under which a block is passed over, `upd` the
member function called on the others. -/
def updateLoop (skip : KMemoryBlock → Bool) (upd : KMemoryBlock → KMemoryBlock) :
    List KMemoryBlock → (curAddress remainingPages : ℕ) → Option (List KMemoryBlock)
  | [], _, remainingPages => if remainingPages = 0 then some [] else none
  | it :: rest, curAddress, remainingPages =>
      if remainingPages = 0 then some (it :: rest)
      else if skip it then
        if curAddress + remainingPages * PageSize < it.getEndAddress then some (it :: rest)
        else
          (updateLoop skip upd rest it.getEndAddress
            ((curAddress + remainingPages * PageSize - it.getEndAddress) / PageSize)).map
              fun out => it :: out
      else
        let before := splitBefore it curAddress
        let cur := before.2
        if cur.getSize > remainingPages * PageSize then
          -- The block reaches past the range: after the second split no page remains.
          let after := cur.split (cur.address + remainingPages * PageSize)
          some (before.1 ++ upd after.1 :: after.2 :: rest)
        else
          (updateLoop skip upd rest (cur.address + cur.getSize)
            (remainingPages - cur.numPages)).map fun out => before.1 ++ upd cur :: out

/-- The loop of `CoalesceForUpdate`, at the iterator `prev` with `rest` behind it. -/
def coalesceLoop (limit : ℕ) : KMemoryBlock → List KMemoryBlock → List KMemoryBlock
  | prev, [] => [prev]
  | prev, it :: rest =>
      if prev.canMergeWith it then
        if limit < (prev.add it).getEndAddress then prev.add it :: rest
        else coalesceLoop limit (prev.add it) rest
      else if limit < it.getEndAddress then prev :: it :: rest
      else prev :: coalesceLoop limit it rest

def coalesceForUpdate (startAddress : ℕ) (blocks : List KMemoryBlock) (address numPages : ℕ) :
    Option (List KMemoryBlock) :=
  let it := findIterator blocks address
  match it.2 with
  | [] => none
  | cur :: rest =>
      if address ≠ startAddress then
        -- `it--`: before the first block of the tree this is a null iterator.
        match it.1.getLast? with
        | none => none
        | some prev =>
            some (it.1.dropLast ++ coalesceLoop (address + numPages * PageSize) prev (cur :: rest))
      else some (it.1 ++ coalesceLoop (address + numPages * PageSize) cur rest)

/-- One range operation: walk the range, then coalesce around it. -/
def updateRange (skip : KMemoryBlock → Bool) (upd : KMemoryBlock → KMemoryBlock)
    (m : KMemoryBlockManager) (address numPages : ℕ) : Option KMemoryBlockManager :=
  let it := findIterator m.memoryBlockTree address
  (updateLoop skip upd it.2 address numPages).bind fun out =>
    (coalesceForUpdate m.startAddress (it.1 ++ out) address numPages).map fun blocks =>
      { m with memoryBlockTree := blocks }

/-- The arguments of the four range operations. -/
inductive RangeOp
  | update (state : KMemoryState) (perm : KMemoryPermission) (attr : KMemoryAttribute)
      (setDisableAttr clearDisableAttr : KMemoryBlockDisableMergeAttribute)
  | updateIfMatch (testState : KMemoryState) (testPerm : KMemoryPermission)
      (testAttr : KMemoryAttribute) (state : KMemoryState) (perm : KMemoryPermission)
      (attr : KMemoryAttribute)
      (setDisableAttr clearDisableAttr : KMemoryBlockDisableMergeAttribute)
  | updateLock (lockFunc : LockFunc) (perm : KMemoryPermission)
  | updateAttribute (mask attr : KMemoryAttribute)
deriving DecidableEq

namespace RangeOp

def skip : RangeOp → KMemoryBlock → Bool
  | update state perm attr _ _, b => b.hasProperties state perm attr
  | updateIfMatch testState testPerm testAttr state perm attr _ _, b =>
      !(b.hasProperties testState testPerm testAttr && !b.hasProperties state perm attr)
  | updateLock _ _, _ => false
  | updateAttribute mask attr, b => (b.attr &&& mask) == attr

/-- What the operation does to a block inside the range `[address, endAddress)`. -/
def upd (address endAddress : ℕ) : RangeOp → KMemoryBlock → KMemoryBlock
  | update state perm attr setDisableAttr clearDisableAttr, b =>
      b.update state perm attr (b.address == address) setDisableAttr clearDisableAttr
  | updateIfMatch _ _ _ state perm attr setDisableAttr clearDisableAttr, b =>
      b.update state perm attr false setDisableAttr clearDisableAttr
  | updateLock lockFunc perm, b =>
      lockFunc.apply b perm (b.address == address) (b.getEndAddress == endAddress)
  | updateAttribute mask attr, b => b.updateAttribute mask attr

/-- The assertions at the head of the operation, the alignment of the address apart. -/
def headAsserts : RangeOp → Bool
  | update _ _ attr _ _ => (attr &&& KMemoryAttribute.IgnoreMask) == KMemoryAttribute.None
  | updateIfMatch _ _ _ _ _ attr _ _ =>
      (attr &&& KMemoryAttribute.IgnoreMask) == KMemoryAttribute.None
  | updateLock _ _ => true
  | updateAttribute _ _ => true

/-- The assertions of the member function called on a block inside the range. -/
def blockAsserts (address endAddress : ℕ) : RangeOp → KMemoryBlock → Bool
  | update _ _ _ _ _, b => b.updateAsserts
  | updateIfMatch _ _ _ _ _ _ _ _, b => b.updateAsserts
  | updateLock lockFunc perm, b =>
      lockFunc.asserts b perm (b.address == address) (b.getEndAddress == endAddress)
  | updateAttribute mask _, _ => KMemoryBlock.updateAttributeAsserts mask

end RangeOp

/-- `Update`, `UpdateIfMatch`, `UpdateLock` or `UpdateAttribute` on `numPages` pages at
`address`. -/
def apply (m : KMemoryBlockManager) (op : RangeOp) (address numPages : ℕ) : Option KMemoryBlockManager :=
  updateRange op.skip (op.upd address (address + numPages * PageSize)) m address numPages

def update (m : KMemoryBlockManager) (address numPages : ℕ) (state : KMemoryState)
    (perm : KMemoryPermission) (attr : KMemoryAttribute)
    (setDisableAttr clearDisableAttr : KMemoryBlockDisableMergeAttribute) :
    Option KMemoryBlockManager :=
  m.apply (.update state perm attr setDisableAttr clearDisableAttr) address numPages

def updateIfMatch (m : KMemoryBlockManager) (address numPages : ℕ) (testState : KMemoryState)
    (testPerm : KMemoryPermission) (testAttr : KMemoryAttribute) (state : KMemoryState)
    (perm : KMemoryPermission) (attr : KMemoryAttribute)
    (setDisableAttr clearDisableAttr : KMemoryBlockDisableMergeAttribute) :
    Option KMemoryBlockManager :=
  m.apply (.updateIfMatch testState testPerm testAttr state perm attr setDisableAttr clearDisableAttr) address numPages

def updateLock (m : KMemoryBlockManager) (address numPages : ℕ) (lockFunc : LockFunc)
    (perm : KMemoryPermission) : Option KMemoryBlockManager :=
  m.apply (.updateLock lockFunc perm) address numPages

def updateAttribute (m : KMemoryBlockManager) (address numPages : ℕ)
    (mask attr : KMemoryAttribute) : Option KMemoryBlockManager :=
  m.apply (.updateAttribute mask attr) address numPages

/-- The two count checks `CheckState` makes on a block. -/
def checkCounts (b : KMemoryBlock) : Bool :=
  !((b.attr &&& KMemoryAttribute.IpcLocked) != KMemoryAttribute.None && b.ipcLockCount == 0) &&
  !((b.attr &&& KMemoryAttribute.DeviceShared) != KMemoryAttribute.None && b.deviceUseCount == 0)

/-- The loop of `CheckState`, with the check of the block it ends on. -/
def checkLoop : KMemoryBlock → List KMemoryBlock → Bool
  | prev, [] => checkCounts prev
  | prev, it :: rest =>
      if prev.canMergeWith it then false
      else if prev.getEndAddress ≠ it.address then false
      else if !checkCounts it then false
      else checkLoop it rest

/-- `CheckState`.  The first block's own counts are looked at only when it is also the last. -/
def checkState (m : KMemoryBlockManager) : Bool :=
  match m.memoryBlockTree with
  | [] => true
  | prev :: rest => checkLoop prev rest

end KMemoryBlockManager

end Voltemu.Kernel
