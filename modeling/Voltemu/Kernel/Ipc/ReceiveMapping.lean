import Voltemu.Kernel.Ipc.SetupForIpcServer

/-!
# IPC mappings: the reply

`ProcessSendMessageReceiveMapping` of `k_server_session.cpp` copies the partial pages of a buffer back to the client, with
`CopyMemoryFromUserToLinear` of `k_page_table_base.cpp`.

* The current process is the server.  `ReadBlock` reads its memory through the host pointers of its page table.
* The client is written through a traversal of its page table.
-/

namespace Voltemu.Kernel

/-- What a process sees at an address. -/
def PageEntries.read (entries : PageEntries) (memory : PhysicalMemory) (address : ℕ) : Option (BitVec 8) :=
  (entries (address / PageSize)).ptr.map fun page => memory.bytes (page + address % PageSize)

/-- The page table of the current process. -/
structure CurrentMemory where
  entries : PageEntries
  addressSpaceBits : ℕ

namespace CurrentMemory

variable (current : CurrentMemory)

def addressSpaceContains (address size : ℕ) : Bool :=
  address ≤ (address + size) % 2 ^ 64 && (address + size) % 2 ^ 64 ≤ 2 ^ current.addressSpaceBits

def isMapped (address size : ℕ) : Bool :=
  size == 0 || (List.range ((address + size - 1) / PageSize + 1 - address / PageSize)).all fun i =>
    (current.entries (address / PageSize + i)).ptr.isSome

/-- `ReadBlock` into physical memory.  Pages that are not mapped read as zeros. -/
def readBlock (memory : PhysicalMemory) (srcAddr dst size : ℕ) : PhysicalMemory × Bool :=
  if current.addressSpaceContains srcAddr size then
    ({ memory with
        bytes := fun x =>
          if dst ≤ x ∧ x < dst + size then (current.entries.read memory (srcAddr + (x - dst))).getD 0
          else memory.bytes x },
      current.isMapped srcAddr size)
  else (memory.fill dst size 0, false)

end CurrentMemory

/-! ## `CopyMemoryFromUserToLinear` -/

/-- `CheckMemoryStateContiguous`, from the block of the first address on. -/
def checkMemoryStateContiguous (check : KMemoryBlock → Bool) (lastAddr : ℕ) : List KMemoryBlock → Option Bool
  | [] => none
  | info :: rest =>
      if check info = false then some false
      else if lastAddr ≤ info.getLastAddress then some true
      else checkMemoryStateContiguous check lastAddr rest

/-- The tracking variables of `CopyMemoryFromUserToLinear`. -/
structure CopyProgress where
  memory : PhysicalMemory
  context : TraversalContext
  srcAddr : ℕ
  curAddr : ℕ
  curSize : ℕ
  totSize : ℕ

namespace CopyProgress

variable (isLinear : ℕ → Bool) (current : CurrentMemory)

/-- The aligned data of a block.  The flag is false if it could not be read. -/
def copyAligned (p : CopyProgress) : CopyProgress × Bool :=
  if 4 ≤ p.curSize then
    let copySize := p.curSize - p.curSize % 4
    let (memory, ok) := current.readBlock p.memory p.srcAddr p.curAddr copySize
    if ok then
      ({ p with
          memory := memory
          srcAddr := p.srcAddr + copySize
          curAddr := p.curAddr + copySize
          curSize := p.curSize - copySize }, true)
    else ({ p with memory := memory }, false)
  else (p, true)

def copyRemaining (p : CopyProgress) : CopyProgress × Bool :=
  if 0 < p.curSize then
    let (memory, ok) := current.readBlock p.memory p.srcAddr p.curAddr p.curSize
    ({ p with memory := memory }, ok)
  else (p, true)

def performCopy (p : CopyProgress) : CopyProgress × Bool :=
  if isLinear p.curAddr = false then (p, false)
  else
    let (p, ok) := copyAligned current p
    if ok then copyRemaining current p else (p, false)

/-- The loop over the blocks.  Every iteration goes on by a page, so that `fuel` counts pages. -/
def copyLoop (entries : PageEntries) (size : ℕ) : (fuel : ℕ) → CopyProgress → CopyProgress × Bool
  | 0, p => (p, true)
  | fuel + 1, p =>
      if p.totSize < size then
        let (physAddr, context) := continueTraversal entries p.context
        if physAddr ≠ p.curAddr + p.curSize then
          let (q, ok) := performCopy isLinear current p
          if ok then
            copyLoop entries size fuel
              { q with
                context := context
                srcAddr := q.srcAddr + q.curSize
                curAddr := physAddr
                curSize := PageSize
                totSize := q.totSize + PageSize }
          else (q, false)
        else
          copyLoop entries size fuel
            { p with
              context := context
              curSize := p.curSize + PageSize
              totSize := p.totSize + PageSize }
      else (p, true)

def begin (entries : PageEntries) (memory : PhysicalMemory) (dstAddr srcAddr : ℕ) : CopyProgress :=
  let (physAddr, context) := beginTraversal entries dstAddr
  { memory := memory
    context := context
    srcAddr := srcAddr
    curAddr := physAddr
    curSize := PageSize - physAddr % PageSize
    totSize := PageSize - physAddr % PageSize }

/-- The copy of a whole range: the blocks of the loop, and the last block. -/
def copyRange (entries : PageEntries) (memory : PhysicalMemory) (dstAddr size srcAddr : ℕ) : PhysicalMemory × Bool :=
  let (p, ok) := copyLoop isLinear current entries size (size / PageSize + 1) (begin entries memory dstAddr srcAddr)
  if ok then
    let p := if size < p.totSize then { p with curSize := p.curSize - (p.totSize - size) } else p
    let (p, ok) := performCopy isLinear current p
    (p.memory, ok)
  else (p.memory, false)

end CopyProgress

/-- `CopyMemoryFromUserToLinear`, into a client with page table entries `entries`. -/
def KPageTable.copyMemoryFromUserToLinear (t : KPageTable) (isLinear : ℕ → Bool) (current : CurrentMemory)
    (entries : PageEntries) (memory : PhysicalMemory) (dstAddr size : ℕ) (test : KMemoryState × KMemoryAttribute)
    (srcAddr : ℕ) : Option (PhysicalMemory × Except KResult Unit) :=
  if t.contains dstAddr size = false then some (memory, .error .invalidCurrentMemory)
  else
    let check := fun info => checkMemoryState info test.1 test.1 KMemoryPermission.UserReadWrite
      KMemoryPermission.UserReadWrite (test.2 ||| KMemoryAttribute.Uncached) KMemoryAttribute.None
    (checkMemoryStateContiguous check (dstAddr + size - 1) (t.blocksFrom dstAddr)).map fun ok =>
      if ok then
        let (memory, ok) := CopyProgress.copyRange isLinear current entries memory dstAddr size srcAddr
        (memory, if ok then .ok () else .error .invalidCurrentMemory)
      else (memory, .error .invalidCurrentMemory)

/-! ## `ProcessSendMessageReceiveMapping` -/

def processStart (t : KPageTable) (isLinear : ℕ → Bool) (current : CurrentMemory) (entries : PageEntries)
    (memory : PhysicalMemory) (b : IpcBuffer) (test : KMemoryState × KMemoryAttribute) (serverAddress : ℕ) :
    Option (PhysicalMemory × Except KResult Unit) :=
  if b.alignedSrcStart ≠ b.mappingSrcStart then
    t.copyMemoryFromUserToLinear isLinear current entries memory b.address
      (min b.size (b.mappingSrcStart - b.address)) test serverAddress
  else some (memory, .ok ())

def processEnd (t : KPageTable) (isLinear : ℕ → Bool) (current : CurrentMemory) (entries : PageEntries)
    (memory : PhysicalMemory) (b : IpcBuffer) (test : KMemoryState × KMemoryAttribute) (serverAddress : ℕ) :
    Option (PhysicalMemory × Except KResult Unit) :=
  if b.mappingSrcEnd < b.alignedSrcEnd ∧
      (b.alignedSrcStart = b.mappingSrcStart ∨ b.alignedSrcStart < b.mappingSrcEnd) then
    t.copyMemoryFromUserToLinear isLinear current entries memory b.mappingSrcEnd
      (b.address + b.size - b.mappingSrcEnd) test (alignDown (serverAddress + b.size))
  else some (memory, .ok ())

/-- `ProcessSendMessageReceiveMapping`, for a buffer of the client that the server has at `serverAddress`. -/
def processSendMessageReceiveMapping (t : KPageTable) (isLinear : ℕ → Bool) (current : CurrentMemory)
    (entries : PageEntries) (memory : PhysicalMemory) (b : IpcBuffer) (serverAddress : ℕ) :
    Option (PhysicalMemory × Except KResult Unit) :=
  if b.size = 0 then some (memory, .ok ())
  else
    match testStateOf b.dstState with
    | none => some (memory, .error .invalidCombination)
    | some test =>
        (processStart t isLinear current entries memory b test serverAddress).bind fun
          | (memory, .error e) => some (memory, .error e)
          | (memory, .ok ()) => processEnd t isLinear current entries memory b test serverAddress

end Voltemu.Kernel
