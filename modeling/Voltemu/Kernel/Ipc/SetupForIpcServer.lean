import Voltemu.Kernel.Ipc.KPageTableIpc

/-!
# IPC mappings: the server

`SetupForIpcServer` of `k_page_table_base.cpp`, with `PageTable::BeginTraversal` and `ContinueTraversal` over the pages of
the client.

* A page table entry has a host pointer, through which a process sees the page, and the physical address minus the
  virtual address, modulo `2 ^ 64`.  A traversal takes zero for a page that is not mapped.
* Physical memory has its bytes and the number of references to each of its pages.
* `FindFreeArea` chooses at random and `AllocateAndOpenContinuous` depends on the heaps: what they choose are the fields
  of an `IpcEnvironment`, with zero if they find nothing.
* `Operate` with `Map` does not fail, so that the rollback of the source is run with nothing mapped.
-/

namespace Voltemu.Kernel

/-! ## Page tables -/

/-- `PageTable::PageEntryData`.  The host pointer is the physical address it points to. -/
structure PageEntry where
  ptr : Option ℕ
  addr : ℕ
deriving DecidableEq

/-- `entries`, without pages behind the table. -/
abbrev PageEntries := ℕ → PageEntry

def unmappedEntry : PageEntry := ⟨none, 0⟩

def entryOf (page physAddr : ℕ) : PageEntry := ⟨some physAddr, (physAddr + (2 ^ 64 - page * PageSize)) % 2 ^ 64⟩

structure TraversalContext where
  nextPage : ℕ
  nextOffset : ℕ
deriving DecidableEq

/-- `ContinueTraversal`: the physical address of the next page.  The block size is always the page size. -/
def continueTraversal (entries : PageEntries) (context : TraversalContext) : ℕ × TraversalContext :=
  (if (entries context.nextPage).addr ≠ 0 then ((entries context.nextPage).addr + context.nextOffset) % 2 ^ 64 else 0,
    ⟨context.nextPage + 1, context.nextOffset + PageSize⟩)

def beginTraversal (entries : PageEntries) (address : ℕ) : ℕ × TraversalContext :=
  continueTraversal entries ⟨address / PageSize, address⟩

/-- `MapPages`: consecutive physical pages at consecutive virtual pages.  A null target unmaps them. -/
def mapPages (entries : PageEntries) (virtAddr numPages physAddr : ℕ) : PageEntries := fun page =>
  if virtAddr / PageSize ≤ page ∧ page < virtAddr / PageSize + numPages then
    if physAddr = 0 then unmappedEntry else entryOf page (physAddr + (page - virtAddr / PageSize) * PageSize)
  else entries page

/-! ## Physical memory -/

structure PhysicalMemory where
  bytes : ℕ → BitVec 8
  /-- The references to a page, by its number. -/
  references : ℕ → ℕ

namespace PhysicalMemory

variable (memory : PhysicalMemory)

def fill (address size : ℕ) (value : BitVec 8) : PhysicalMemory :=
  { memory with bytes := fun x => if address ≤ x ∧ x < address + size then value else memory.bytes x }

def copy (dst src size : ℕ) : PhysicalMemory :=
  { memory with
    bytes := fun x => if dst ≤ x ∧ x < dst + size then memory.bytes (src + (x - dst)) else memory.bytes x }

@[simp] lemma fill_bytes (address size x : ℕ) (value : BitVec 8) :
    (memory.fill address size value).bytes x = if address ≤ x ∧ x < address + size then value else memory.bytes x := rfl

@[simp] lemma copy_bytes (dst src size x : ℕ) :
    (memory.copy dst src size).bytes x = if dst ≤ x ∧ x < dst + size then memory.bytes (src + (x - dst))
      else memory.bytes x := rfl

def openPages (address numPages : ℕ) : PhysicalMemory :=
  { memory with
    references := fun page =>
      if address / PageSize ≤ page ∧ page < address / PageSize + numPages then memory.references page + 1
      else memory.references page }

def closePage (address : ℕ) : PhysicalMemory :=
  { memory with
    references := Function.update memory.references (address / PageSize) (memory.references (address / PageSize) - 1) }

end PhysicalMemory

/-! ## The server -/

/-- The page table of a server, with the resource limit of its process. -/
structure IpcServer where
  manager : KMemoryBlockManager
  entries : PageEntries
  memory : PhysicalMemory
  aliasRegionStart : ℕ
  aliasRegionEnd : ℕ
  /-- The blocks of `m_memory_block_slab_manager`. -/
  freeBlocks : ℕ
  /-- The limit of `PhysicalMemoryMax`, with its current value and hint. -/
  limitValue : ℕ
  currentValue : ℕ
  currentHint : ℕ
  ipcFillValue : BitVec 8

/-- The choices of the kernel. -/
structure IpcEnvironment where
  /-- `FindFreeArea` in the alias region. -/
  findFreeArea : KMemoryBlockManager → (numPages : ℕ) → ℕ
  /-- The page that `AllocateAndOpenContinuous` takes. -/
  allocatePage : (references : ℕ → ℕ) → ℕ
  isHeapPhysicalAddress : ℕ → Bool

namespace IpcServer

variable (s : IpcServer)

/-- `KResourceLimit::Reserve`.  Waiting for other processes is left out. -/
def reserve (value : ℕ) : Option IpcServer :=
  if value = 0 then some s
  else if s.currentHint < s.limitValue ∧ s.currentValue + value ≤ s.limitValue then
    some { s with currentValue := s.currentValue + value, currentHint := s.currentHint + value }
  else none

def release (value : ℕ) : IpcServer :=
  { s with currentValue := s.currentValue - value, currentHint := s.currentHint - value }

/-- `AllocateAndOpenContinuous(1, 1)`. -/
def allocateAndOpen (env : IpcEnvironment) : IpcServer × ℕ :=
  let page := env.allocatePage s.memory.references
  if page = 0 then (s, 0) else ({ s with memory := s.memory.openPages page 1 }, page)

/-- `Close` of a partial page on exit, if it was allocated. -/
def closePartial (page : ℕ) : IpcServer :=
  if page = 0 then s else { s with memory := s.memory.closePage page }

def operateMap (env : IpcEnvironment) (virtAddr numPages physAddr : ℕ) : IpcServer :=
  { s with
    entries := mapPages s.entries virtAddr numPages physAddr
    memory := if env.isHeapPhysicalAddress physAddr then s.memory.openPages physAddr numPages else s.memory }

end IpcServer

/-! ## `SetupForIpcServer` -/

structure MapProgress where
  server : IpcServer
  context : TraversalContext
  curMappedAddr : ℕ
  curBlockAddr : ℕ
  curBlockSize : ℕ
  totBlockSize : ℕ

namespace MapProgress

variable (env : IpcEnvironment) (entries : PageEntries) (b : IpcBuffer) (send : Bool)

def begin (s : IpcServer) (dstAddr : ℕ) : MapProgress :=
  let (physAddr, context) := beginTraversal entries b.alignedSrcStart
  { server := s
    context := context
    curMappedAddr := dstAddr
    curBlockAddr := physAddr
    curBlockSize := PageSize - physAddr % PageSize
    totBlockSize := PageSize - physAddr % PageSize }

def startBytes (memory : PhysicalMemory) (fillValue : BitVec 8) (page blockAddr : ℕ) : PhysicalMemory :=
  if send then
    let partialOffset := b.address - b.alignedSrcStart
    let srcEnd := b.address + b.size
    let copySize := if srcEnd < b.mappingSrcStart then b.size else b.mappingSrcStart - b.address
    let clearSize := if srcEnd < b.mappingSrcStart then b.mappingSrcStart - srcEnd else 0
    ((memory.fill page partialOffset fillValue).copy (page + partialOffset) (blockAddr + partialOffset) copySize).fill
      (page + partialOffset + copySize) clearSize fillValue
  else memory.fill page PageSize fillValue

def mapStart (startPartialPage : ℕ) (p : MapProgress) : MapProgress :=
  if startPartialPage = 0 then p
  else
    let s := p.server
    let s := { s with memory := startBytes b send s.memory s.ipcFillValue startPartialPage p.curBlockAddr }
    let p :=
      { p with
        server := s.operateMap env p.curMappedAddr 1 startPartialPage
        curMappedAddr := p.curMappedAddr + PageSize
        curBlockAddr := p.curBlockAddr + PageSize
        curBlockSize := p.curBlockSize - PageSize }
    if p.curBlockSize = 0 ∧ b.alignedSrcEnd - b.alignedSrcStart > PageSize then
      let (physAddr, context) := continueTraversal entries p.context
      { p with
        context := context
        curBlockAddr := physAddr
        curBlockSize := PageSize
        totBlockSize := p.totBlockSize + PageSize }
    else p

/-- The loop over the whole pages.  Every iteration goes on by a page, so that `fuel` counts pages. -/
def mapLoop : (fuel : ℕ) → MapProgress → MapProgress
  | 0, p => p
  | fuel + 1, p =>
      if b.alignedSrcStart + p.totBlockSize < b.mappingSrcEnd then
        let (physAddr, context) := continueTraversal entries p.context
        if physAddr ≠ p.curBlockAddr + p.curBlockSize then
          mapLoop fuel
            { server := p.server.operateMap env p.curMappedAddr (p.curBlockSize / PageSize) p.curBlockAddr
              context := context
              curMappedAddr := p.curMappedAddr + p.curBlockSize
              curBlockAddr := physAddr
              curBlockSize := PageSize
              totBlockSize := p.totBlockSize + PageSize }
        else
          mapLoop fuel
            { p with
              context := context
              curBlockSize := p.curBlockSize + PageSize
              totBlockSize := p.totBlockSize + PageSize }
      else p

def mapLast (p : MapProgress) : MapProgress :=
  let mappedBlockEnd := b.alignedSrcStart + p.totBlockSize - p.curBlockSize
  if mappedBlockEnd < b.mappingSrcEnd then
    let lastBlockSize := b.mappingSrcEnd - mappedBlockEnd
    let q :=
      { p with
        server := p.server.operateMap env p.curMappedAddr (lastBlockSize / PageSize) p.curBlockAddr
        curMappedAddr := p.curMappedAddr + lastBlockSize
        curBlockAddr := p.curBlockAddr + lastBlockSize }
    if mappedBlockEnd + p.curBlockSize < b.alignedSrcEnd ∧ p.curBlockSize = lastBlockSize then
      let (physAddr, context) := continueTraversal entries q.context
      { q with context := context, curBlockAddr := physAddr }
    else q
  else p

def endBytes (memory : PhysicalMemory) (fillValue : BitVec 8) (page blockAddr : ℕ) : PhysicalMemory :=
  if send then
    let copySize := b.address + b.size - b.mappingSrcEnd
    (memory.copy page blockAddr copySize).fill (page + copySize) (PageSize - copySize) fillValue
  else memory.fill page PageSize fillValue

def mapEnd (endPartialPage : ℕ) (p : MapProgress) : IpcServer :=
  if endPartialPage = 0 then p.server
  else
    let s := p.server
    let s := { s with memory := endBytes b send s.memory s.ipcFillValue endPartialPage p.curBlockAddr }
    s.operateMap env p.curMappedAddr 1 endPartialPage

/-- The mapping of a buffer at `dstAddr`. -/
def mapBuffer (s : IpcServer) (dstAddr startPartialPage endPartialPage : ℕ) : IpcServer :=
  mapEnd env b send endPartialPage <|
    mapLast env entries b <|
      mapLoop env entries b ((b.mappingSrcEnd - b.alignedSrcStart) / PageSize) <|
        mapStart env entries b send startPartialPage <| begin entries b s dstAddr

end MapProgress

namespace IpcServer

/-- `SetupForIpcServer`, for a client with page table entries `entries`. -/
def setupForIpcServer (env : IpcEnvironment) (entries : PageEntries) (b : IpcBuffer) (send : Bool) (s : IpcServer) :
    Option (IpcServer × Except KResult ℕ) :=
  if ¬ b.size < s.aliasRegionEnd - s.aliasRegionStart then some (s, .error .outOfAddressSpace)
  else
    let alignedSrcSize := b.alignedSrcEnd - b.alignedSrcStart
    let mappingSrcSize := if b.mappingSrcStart < b.mappingSrcEnd then b.mappingSrcEnd - b.mappingSrcStart else 0
    let dstAddr := env.findFreeArea s.manager (alignedSrcSize / PageSize)
    if dstAddr = 0 then some (s, .error .outOfAddressSpace)
    else if s.freeBlocks < 2 then some (s, .error .outOfResource)
    else
      let unmappedSize := alignedSrcSize - mappingSrcSize
      match s.reserve unmappedSize with
      | none => some (s, .error .limitReached)
      | some s =>
          let needsStart := decide (b.alignedSrcStart < b.mappingSrcStart)
          let (s, startPartialPage) := if needsStart then s.allocateAndOpen env else (s, 0)
          if needsStart ∧ startPartialPage = 0 then some (s.release unmappedSize, .error .outOfMemory)
          else
            let needsEnd := decide (b.mappingSrcEnd < b.alignedSrcEnd ∧
              (b.alignedSrcStart < b.mappingSrcEnd ∨ b.alignedSrcStart = b.mappingSrcStart))
            let (s, endPartialPage) := if needsEnd then s.allocateAndOpen env else (s, 0)
            if needsEnd ∧ endPartialPage = 0 then
              some ((s.closePartial startPartialPage).release unmappedSize, .error .outOfMemory)
            else
              let s := MapProgress.mapBuffer env entries b send s dstAddr startPartialPage endPartialPage
              (s.manager.update dstAddr (alignedSrcSize / PageSize) b.dstState b.kind.testPerm KMemoryAttribute.None
                KMemoryBlockDisableMergeAttribute.Normal KMemoryBlockDisableMergeAttribute.None).map fun m =>
                  ((({ s with manager := m } : IpcServer).closePartial startPartialPage).closePartial endPartialPage,
                    .ok (dstAddr + (b.address - b.alignedSrcStart)))

end IpcServer

end Voltemu.Kernel
