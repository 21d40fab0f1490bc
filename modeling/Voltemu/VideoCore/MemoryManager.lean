import Voltemu.Core.DeviceMemoryManager
import Voltemu.Lib.Overwrite

/-!
# GPU virtual memory

`MemoryManager` of `video_core/memory_manager.cpp`, with the parts of `DeviceMemoryManager` that it reads and writes through.

* The entries of a page size are 64 bit words of 32 entries with two bits each.  Addresses and sizes are natural numbers.
* A pointer to device memory is an offset in physical memory.  A function gives nothing if it copies from or to a null pointer
  or accesses an array behind its end.
* `ReserveRange` only commits memory; what is left of it is the check of its index.  Page kinds and the notices of the
  rasterizer about changed mappings are left out, and so are the continuity of device pages, over which a copy is made at
  once, and the cache of translated pages.
-/

namespace Voltemu.VideoCore

open Voltemu.Core Overwrite Function

abbrev Byte := BitVec 8

/-! ## Device memory -/

/-- `DeviceMemoryManager::GetPointer`, with `none` for a null pointer. -/
def getPointer (memory : DeviceMemoryManager) (address : ℕ) : Option ℕ :=
  let physAddr := (memory.trackedEntries (address / pageSize)).compressedPhysicalPtr
  if physAddr = 0 then none else some ((physAddr - 1).toNat * pageSize + address % pageSize)

/-- `DeviceMemoryManager::WalkBlock`: what is done with the part of every page, which starts at a device address. -/
def walkBlock {S : Type} (f : (address copyAmount : ℕ) → S → S) : (fuel remainingSize address : ℕ) → S → S
  | 0, _, _, s => s
  | fuel + 1, remainingSize, address, s =>
      if remainingSize = 0 then s
      else
        let copyAmount := min (pageSize - address % pageSize) remainingSize
        walkBlock f fuel (remainingSize - copyAmount) (address + copyAmount) (f address copyAmount s)

/-- A buffer that is filled from its start on, and the device addresses and sizes that the rasterizer is notified of. -/
structure ReadState where
  dest : ℕ → Byte
  position : ℕ
  notified : List (ℕ × ℕ)

def ReadState.fill (s : ReadState) (n : ℕ) (bytes : ℕ → Byte) : ReadState :=
  { s with dest := overwrite s.dest s.position n bytes, position := s.position + n }

def readDeviceBlock (memory : DeviceMemoryManager) (physical : ℕ → Byte) (address size : ℕ) (s : ReadState) : ReadState :=
  walkBlock (fun address copyAmount s =>
    match getPointer memory address with
    | none => s.fill copyAmount fun _ => 0
    | some ptr => s.fill copyAmount fun i => physical (ptr + i)) size size address s

/-- Physical memory, how much of a buffer is written to it, and what the rasterizer is notified of. -/
structure WriteState where
  physical : ℕ → Byte
  position : ℕ
  notified : List (ℕ × ℕ)

def WriteState.store (s : WriteState) (src : ℕ → Byte) (n ptr : ℕ) : WriteState :=
  { s with physical := overwrite s.physical ptr n fun i => src (s.position + i), position := s.position + n }

def WriteState.skip (s : WriteState) (n : ℕ) : WriteState := { s with position := s.position + n }

def writeDeviceBlock (memory : DeviceMemoryManager) (src : ℕ → Byte) (address size : ℕ) (s : WriteState) : WriteState :=
  walkBlock (fun address copyAmount s =>
    match getPointer memory address with
    | none => s.skip copyAmount
    | some ptr => s.store src copyAmount ptr) size size address s

/-! ## Entries -/

inductive EntryType
  | free
  | reserved
  | mapped
deriving DecidableEq

def EntryType.value : EntryType → BitVec 64
  | .free => 0
  | .reserved => 1
  | .mapped => 2

def entryAt (entries : ℕ → BitVec 64) (page : ℕ) : BitVec 64 := (entries (page / 32) >>> (2 * (page % 32))) &&& 0x03#64

def withEntry (entries : ℕ → BitVec 64) (page : ℕ) (value : BitVec 64) : ℕ → BitVec 64 :=
  update entries (page / 32) ((~~~(3#64 <<< (page % 32 * 2)) &&& entries (page / 32)) ||| (value <<< (page % 32 * 2)))

structure MemoryManager where
  addressSpaceBits : ℕ
  pageBits : ℕ
  bigPageBits : ℕ
  entries : ℕ → BitVec 64
  bigEntries : ℕ → BitVec 64
  pageTable : ℕ → BitVec 32
  bigPageTableDev : ℕ → BitVec 32
  bigPageContinuous : ℕ → BitVec 64

namespace MemoryManager

def cpuPageBits : ℕ := 12

def new (addressSpaceBits pageBits bigPageBits : ℕ) : MemoryManager :=
  ⟨addressSpaceBits, pageBits, bigPageBits, fun _ => 0, fun _ => 0, fun _ => 0, fun _ => 0, fun _ => 0⟩

variable (m : MemoryManager)

def addressSpaceSize : ℕ := 2 ^ m.addressSpaceBits

def usedPageBits (isBigPage : Bool) : ℕ := if isBigPage then m.bigPageBits else m.pageBits

def usedPageSize (isBigPage : Bool) : ℕ := 2 ^ m.usedPageBits isBigPage

def getEntry (isBigPage : Bool) (position : ℕ) : BitVec 64 :=
  entryAt (if isBigPage then m.bigEntries else m.entries) (position / m.usedPageSize isBigPage)

def setEntry (isBigPage : Bool) (position : ℕ) (entry : EntryType) : MemoryManager :=
  if isBigPage then { m with bigEntries := withEntry m.bigEntries (position / m.usedPageSize true) entry.value }
  else { m with entries := withEntry m.entries (position / m.usedPageSize false) entry.value }

def pageEntryIndex (isBigPage : Bool) (gpuAddr : ℕ) : ℕ :=
  gpuAddr / m.usedPageSize isBigPage % 2 ^ (m.addressSpaceBits - m.usedPageBits isBigPage)

def isBigPageContinuous (bigPageIndex : ℕ) : Bool :=
  (m.bigPageContinuous (bigPageIndex / 64) >>> (bigPageIndex % 64)) &&& 0x1#64 != 0#64

def setBigPageContinuous (bigPageIndex : ℕ) (value : Bool) : MemoryManager :=
  let continuousMask := m.bigPageContinuous (bigPageIndex / 64)
  let word := (~~~(1#64 <<< (bigPageIndex % 64)) &&& continuousMask) |||
    (if value then 1#64 <<< (bigPageIndex % 64) else 0#64)
  { m with bigPageContinuous := update m.bigPageContinuous (bigPageIndex / 64) word }

/-! ## `Map`, `MapSparse` and `Unmap` -/

/-- An entry of a page table: `static_cast<u32>(dev_addr >> cpu_page_bits)`. -/
def subValue (devAddr : ℕ) : BitVec 32 := BitVec.ofNat 32 (devAddr >>> cpuPageBits)

def pageOp (entryType : EntryType) (gpuAddr devAddr : ℕ) : MemoryManager :=
  let m' := m.setEntry false gpuAddr entryType
  if entryType = .mapped then
    { m' with pageTable := update m'.pageTable (m'.pageEntryIndex false gpuAddr) (subValue devAddr) }
  else m'

/-- The loop of `PageTableOp`, which has a number of pages to go. -/
def pageTableOpLoop (entryType : EntryType) : (pages : ℕ) → (gpuAddr devAddr : ℕ) → MemoryManager → MemoryManager
  | 0, _, _, m => m
  | pages + 1, gpuAddr, devAddr, m =>
      pageTableOpLoop entryType pages (gpuAddr + m.usedPageSize false) (devAddr + m.usedPageSize false)
        (m.pageOp entryType gpuAddr devAddr)

def iterations (isBigPage : Bool) (size : ℕ) : ℕ := (size + m.usedPageSize isBigPage - 1) / m.usedPageSize isBigPage

/-- `MultiLevelPageTable::ReserveRange`: whether the indices are inside of `first_level_map`.  It has `address_space_bits +
page_bits - 38` bits, and is empty if the two page sizes are the same. -/
def reserveRange (start size : ℕ) : Bool :=
  let firstLevelBits := m.addressSpaceBits + m.pageBits - 38
  m.pageBits != m.bigPageBits && decide ((start + size) >>> (m.addressSpaceBits - firstLevelBits) < 2 ^ firstLevelBits)

def pageTableOp (entryType : EntryType) (gpuAddr devAddr size : ℕ) : Option MemoryManager :=
  if entryType = .mapped ∧ m.reserveRange gpuAddr size = false then none
  else some (pageTableOpLoop entryType (m.iterations false size) gpuAddr devAddr m)

/-- The loop that finds out whether the pages of a big page follow each other, from a pointer on. -/
def isContinuousLoop (memory : DeviceMemoryManager) (usedPageSize : ℕ) : (pages : ℕ) → (startCpu basePtr : ℕ) → Bool
  | 0, _, _ => true
  | pages + 1, startCpu, basePtr =>
      match getPointer memory startCpu with
      | none => false
      | some nextPtr =>
          if basePtr + usedPageSize = nextPtr then
            isContinuousLoop memory usedPageSize pages (startCpu + usedPageSize) (basePtr + usedPageSize)
          else false

def isContinuous (memory : DeviceMemoryManager) (devAddr : ℕ) : Bool :=
  match getPointer memory devAddr with
  | none => false
  | some basePtr =>
      isContinuousLoop memory (m.usedPageSize false) ((m.usedPageSize true - 1) / m.usedPageSize false)
        (devAddr + m.usedPageSize false) basePtr

def bigPageOp (memory : DeviceMemoryManager) (entryType : EntryType) (gpuAddr devAddr : ℕ) : MemoryManager :=
  let m' := m.setEntry true gpuAddr entryType
  if entryType = .mapped then
    let index := m'.pageEntryIndex true gpuAddr
    { m' with bigPageTableDev := update m'.bigPageTableDev index (subValue devAddr) }.setBigPageContinuous index
      (m'.isContinuous memory devAddr)
  else m'

/-- The loop of `BigPageTableOp`, which has a number of pages to go. -/
def bigPageTableOp (memory : DeviceMemoryManager) (entryType : EntryType) :
    (pages : ℕ) → (gpuAddr devAddr : ℕ) → MemoryManager → MemoryManager
  | 0, _, _, m => m
  | pages + 1, gpuAddr, devAddr, m =>
      bigPageTableOp memory entryType pages (gpuAddr + m.usedPageSize true) (devAddr + m.usedPageSize true)
        (m.bigPageOp memory entryType gpuAddr devAddr)

def map (memory : DeviceMemoryManager) (gpuAddr devAddr size : ℕ) (isBigPages : Bool) : Option MemoryManager :=
  if isBigPages then some (bigPageTableOp memory .mapped (m.iterations true size) gpuAddr devAddr m)
  else m.pageTableOp .mapped gpuAddr devAddr size

def mapSparse (memory : DeviceMemoryManager) (gpuAddr size : ℕ) (isBigPages : Bool) : Option MemoryManager :=
  if isBigPages then some (bigPageTableOp memory .reserved (m.iterations true size) gpuAddr 0 m)
  else m.pageTableOp .reserved gpuAddr 0 size

def unmap (memory : DeviceMemoryManager) (gpuAddr size : ℕ) : Option MemoryManager :=
  if size = 0 then some m
  else (bigPageTableOp memory .free (m.iterations true size) gpuAddr 0 m).pageTableOp .free gpuAddr 0 size

/-! ## Translation -/

/-- The device address of a page table entry. -/
def devAddrBase (value : BitVec 32) : ℕ := value.toNat <<< cpuPageBits

def gpuToCpuAddress (gpuAddr : ℕ) : Option ℕ :=
  if ¬ gpuAddr < m.addressSpaceSize then none
  else if m.getEntry true gpuAddr ≠ EntryType.mapped.value then
    if m.getEntry false gpuAddr ≠ EntryType.mapped.value then none
    else some (devAddrBase (m.pageTable (m.pageEntryIndex false gpuAddr)) + gpuAddr % m.usedPageSize false)
  else some (devAddrBase (m.bigPageTableDev (m.pageEntryIndex true gpuAddr)) + gpuAddr % m.usedPageSize true)

/-! ## Blocks -/

/-- The loop of `MemoryOperation`.  Every iteration does at least one byte. -/
def memoryOperationLoop {S : Type} (isBigPages : Bool) (mapped reserved unmapped : (pageIndex pageOffset copyAmount : ℕ) → S → S) :
    (fuel remainingSize pageIndex pageOffset currentAddress : ℕ) → S → S
  | 0, _, _, _, _, s => s
  | fuel + 1, remainingSize, pageIndex, pageOffset, currentAddress, s =>
      if remainingSize = 0 then s
      else
        let copyAmount := min (m.usedPageSize isBigPages - pageOffset) remainingSize
        let entry := m.getEntry isBigPages currentAddress
        let s :=
          if entry = EntryType.mapped.value then mapped pageIndex pageOffset copyAmount s
          else if entry = EntryType.reserved.value then reserved pageIndex pageOffset copyAmount s
          else unmapped pageIndex pageOffset copyAmount s
        memoryOperationLoop isBigPages mapped reserved unmapped fuel (remainingSize - copyAmount) (pageIndex + 1) 0
          (currentAddress + copyAmount) s

/-- `MemoryOperation`, with functions that do not stop it. -/
def memoryOperation {S : Type} (isBigPages : Bool) (gpuSrcAddr size : ℕ)
    (mapped reserved unmapped : (pageIndex pageOffset copyAmount : ℕ) → S → S) (s : S) : S :=
  m.memoryOperationLoop isBigPages mapped reserved unmapped size size (gpuSrcAddr / m.usedPageSize isBigPages)
    (gpuSrcAddr % m.usedPageSize isBigPages) gpuSrcAddr s

/-- The two levels of an operation: big pages, and in those that are free the small pages. -/
def blockOperation {S : Type} (mappedNormal mappedBig other : (pageIndex pageOffset copyAmount : ℕ) → S → S) (gpuAddr size : ℕ)
    (s : S) : S :=
  let shortPages := fun (pageIndex offset copyAmount : ℕ) (s : S) =>
    let base := pageIndex * m.usedPageSize true + offset
    m.memoryOperation false base copyAmount mappedNormal other other s
  m.memoryOperation true gpuAddr size mappedBig other shortPages s

def readBlockImpl (memory : DeviceMemoryManager) (physical : ℕ → Byte) (isSafe : Bool) (gpuSrcAddr size : ℕ)
    (s : Option ReadState) : Option ReadState :=
  let flush := fun (devAddrBase copyAmount : ℕ) (s : ReadState) =>
    if isSafe then { s with notified := s.notified ++ [(devAddrBase, copyAmount)] } else s
  let copy := fun (devAddrBase copyAmount : ℕ) (s : ReadState) =>
    (getPointer memory devAddrBase).map fun ptr => s.fill copyAmount fun i => physical (ptr + i)
  let setToZero := fun (_ _ copyAmount : ℕ) (s : Option ReadState) => s.map (·.fill copyAmount fun _ => 0)
  let mappedNormal := fun (pageIndex offset copyAmount : ℕ) (s : Option ReadState) =>
    let base := devAddrBase (m.pageTable pageIndex) + offset
    s.bind fun s => copy base copyAmount (flush base copyAmount s)
  let mappedBig := fun (pageIndex offset copyAmount : ℕ) (s : Option ReadState) =>
    let base := devAddrBase (m.bigPageTableDev pageIndex) + offset
    s.bind fun s =>
      if m.isBigPageContinuous pageIndex = false then
        some (readDeviceBlock memory physical base copyAmount (flush base copyAmount s))
      else copy base copyAmount (flush base copyAmount s)
  m.blockOperation mappedNormal mappedBig setToZero gpuSrcAddr size s

def readBlock (memory : DeviceMemoryManager) (physical : ℕ → Byte) (gpuSrcAddr size : ℕ) (dest : ℕ → Byte) : Option ReadState :=
  m.readBlockImpl memory physical true gpuSrcAddr size (some ⟨dest, 0, []⟩)

def writeBlockImpl (memory : DeviceMemoryManager) (src : ℕ → Byte) (isSafe : Bool) (gpuDestAddr size : ℕ)
    (s : Option WriteState) : Option WriteState :=
  let invalidate := fun (devAddrBase copyAmount : ℕ) (s : WriteState) =>
    if isSafe then { s with notified := s.notified ++ [(devAddrBase, copyAmount)] } else s
  let copy := fun (devAddrBase copyAmount : ℕ) (s : WriteState) =>
    (getPointer memory devAddrBase).map fun ptr => s.store src copyAmount ptr
  let justAdvance := fun (_ _ copyAmount : ℕ) (s : Option WriteState) => s.map (·.skip copyAmount)
  let mappedNormal := fun (pageIndex offset copyAmount : ℕ) (s : Option WriteState) =>
    let base := devAddrBase (m.pageTable pageIndex) + offset
    s.bind fun s => copy base copyAmount (invalidate base copyAmount s)
  let mappedBig := fun (pageIndex offset copyAmount : ℕ) (s : Option WriteState) =>
    let base := devAddrBase (m.bigPageTableDev pageIndex) + offset
    s.bind fun s =>
      if m.isBigPageContinuous pageIndex = false then
        some (writeDeviceBlock memory src base copyAmount (invalidate base copyAmount s))
      else copy base copyAmount (invalidate base copyAmount s)
  m.blockOperation mappedNormal mappedBig justAdvance gpuDestAddr size s

def writeBlock (memory : DeviceMemoryManager) (src : ℕ → Byte) (gpuDestAddr size : ℕ) (physical : ℕ → Byte) :
    Option WriteState :=
  m.writeBlockImpl memory src true gpuDestAddr size (some ⟨physical, 0, []⟩)

/-- `FlushRegion` and `InvalidateRegion`, which differ in what the rasterizer is told to do: the device addresses and sizes that
it is told. -/
def notifyRegion (gpuAddr size : ℕ) : List (ℕ × ℕ) :=
  let doNothing := fun (_ _ _ : ℕ) (notified : List (ℕ × ℕ)) => notified
  let mappedNormal := fun (pageIndex offset copyAmount : ℕ) (notified : List (ℕ × ℕ)) =>
    notified ++ [(devAddrBase (m.pageTable pageIndex) + offset, copyAmount)]
  let mappedBig := fun (pageIndex offset copyAmount : ℕ) (notified : List (ℕ × ℕ)) =>
    notified ++ [(devAddrBase (m.bigPageTableDev pageIndex) + offset, copyAmount)]
  m.blockOperation mappedNormal mappedBig doNothing gpuAddr size []

def flushRegion (gpuAddr size : ℕ) : List (ℕ × ℕ) := m.notifyRegion gpuAddr size

def invalidateRegion (gpuAddr size : ℕ) : List (ℕ × ℕ) := m.notifyRegion gpuAddr size

end MemoryManager

end Voltemu.VideoCore
