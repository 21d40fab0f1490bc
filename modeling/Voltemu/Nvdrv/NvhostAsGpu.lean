import Voltemu.Common.FlatAllocator
import Mathlib.Data.List.AList

/-!
# The GPU address space device

`nvhost_as_gpu`: the ioctls `AllocateSpace`, `MapBufferEx`, `UnmapBuffer` and `FreeSpace` on an address space that
`AllocAsEx` has initialised, with the containers that they keep.

* Addresses, sizes and page counts are natural numbers, reduced to 64 or 32 bits where the source's types do that.
* The allocators are the flat allocators of `common/address_space.inc`, in pages.  An operation that meets undefined
  behaviour, there or by following `mapping_map.end()`, ends in a `Fault`.
* The GPU page table is only written, and the device address of a mapping is only passed on to it: both are left out, as
  are the fields that only they use.
* A run does not create or free nvmap handles.  Of a handle the device reads `align` and `orig_size`, which do not
  change, and `PinHandle` and `UnpinHandle` count its pins.
-/

namespace Voltemu.Nvdrv

open Voltemu.Common

inductive NvResult
  | success
  | badValue
  | notImplemented
  | insufficientMemory
deriving DecidableEq

/-- The fields of an nvmap handle that the device reads.  `CreateHandle` does not make one of size zero. -/
structure HandleInfo where
  align : ℕ
  origSize : ℕ
  origSize_pos : 0 < origSize

structure Mapping where
  handle : ℕ
  offset : ℕ
  size : ℕ
  fixed : Bool
  bigPage : Bool
deriving DecidableEq

structure Allocation where
  mappings : List ℕ
  size : ℕ
  pageSize : ℕ
  bigPages : Bool
deriving DecidableEq

/-- `VM::YUZU_PAGESIZE` and `VM::PAGE_SIZE_BITS`. -/
def yuzuPageSize : ℕ := 0x1000
def pageSizeBits : ℕ := 12

/-- `VM`, as `AllocAsEx` sets it up. -/
structure Vm where
  bigPageSizeBits : ℕ
  vaRangeStart : ℕ
  vaRangeSplit : ℕ
  vaRangeEnd : ℕ
  /-- `SUPPORTED_BIG_PAGE_SIZES`. -/
  supported : bigPageSizeBits = 16 ∨ bigPageSizeBits = 17

namespace Vm

variable (vm : Vm)

def bigPageSize : ℕ := 2 ^ vm.bigPageSizeBits

def pageBits (big : Bool) : ℕ := if big then vm.bigPageSizeBits else pageSizeBits

/-- The allocator of the small or of the big pages. -/
def allocator (big : Bool) : FlatAllocator where
  vaTypeBits := 32
  virtStart := (if big then vm.vaRangeSplit >>> vm.bigPageSizeBits else vm.vaRangeStart >>> pageSizeBits) % 2 ^ 32
  vaLimit := (if big then ((vm.vaRangeEnd + 2 ^ 64 - vm.vaRangeSplit) % 2 ^ 64) >>> vm.bigPageSizeBits
    else vm.vaRangeSplit >>> pageSizeBits) % 2 ^ 32
  vaLimit_lt := Nat.mod_lt _ (by decide)

end Vm

structure AsGpu where
  smallPageAllocator : AllocatorState
  bigPageAllocator : AllocatorState
  mappingMap : AList fun _ : ℕ => Mapping
  allocationMap : AList fun _ : ℕ => Allocation
  mapBufferOffsets : Finset ℕ
  /-- `pins` of the nvmap handles. -/
  pins : ℕ → ℤ

namespace AsGpu

def initial (vm : Vm) : AsGpu where
  smallPageAllocator := (vm.allocator false).initialState
  bigPageAllocator := (vm.allocator true).initialState
  mappingMap := ∅
  allocationMap := ∅
  mapBufferOffsets := ∅
  pins := fun _ => 0

def pageAllocator (s : AsGpu) (big : Bool) : AllocatorState :=
  if big then s.bigPageAllocator else s.smallPageAllocator

def setPageAllocator (s : AsGpu) (big : Bool) (a : AllocatorState) : AsGpu :=
  if big then { s with bigPageAllocator := a } else { s with smallPageAllocator := a }

def pinHandle (s : AsGpu) (handle : ℕ) : AsGpu :=
  { s with pins := Function.update s.pins handle (s.pins handle + 1) }

def unpinHandle (s : AsGpu) (handle : ℕ) : AsGpu :=
  { s with pins := Function.update s.pins handle (s.pins handle - 1) }

end AsGpu

/-- `Common::AlignUp` of a `u64`. -/
def alignUp (value size : ℕ) : ℕ :=
  if value % size = 0 then value else (value - value % size + size) % 2 ^ 64

/-- The entry in front of `upper_bound(key)`: the one with the largest key that is not above it. -/
def predecessor {α : Type} (key : ℕ) : List (Σ _ : ℕ, α) → Option (Σ _ : ℕ, α)
  | [] => none
  | e :: l =>
      match predecessor key l with
      | none => if e.1 ≤ key then some e else none
      | some e' => if e.1 ≤ key ∧ e'.1 < e.1 then some e else some e'

/-! ## The ioctls -/

/-- `AllocateSpace`.  The second component is `params.offset`. -/
def allocateSpace (vm : Vm) (s : AsGpu) (pages pageSize offset : ℕ) (fixed sparse : Bool) :
    Except Fault (NvResult × ℕ × AsGpu) :=
  if pageSize ≠ yuzuPageSize ∧ pageSize ≠ vm.bigPageSize then .ok (.badValue, offset, s)
  else if pageSize ≠ vm.bigPageSize ∧ sparse then .ok (.notImplemented, offset, s)
  else
    let big := decide (pageSize ≠ yuzuPageSize)
    let allocation : Allocation := ⟨[], pages * pageSize, pageSize, big⟩
    if fixed then do
      let a ← (vm.allocator big).allocateFixed (s.pageAllocator big) ((offset >>> vm.pageBits big) % 2 ^ 32) pages
      .ok (.success, offset,
        { s.setPageAllocator big a with allocationMap := s.allocationMap.insert offset allocation })
    else do
      let (page, a) ← (vm.allocator big).allocate (s.pageAllocator big) pages
      let offset := page <<< vm.pageBits big
      if offset = 0 then .ok (.insufficientMemory, offset, s.setPageAllocator big a)
      else
        .ok (.success, offset,
          { s.setPageAllocator big a with allocationMap := s.allocationMap.insert offset allocation })

def freeMappingLocked (vm : Vm) (s : AsGpu) (offset : ℕ) : Except Fault (Bool × AsGpu) :=
  match s.mappingMap.lookup offset with
  | none => .ok (false, s)
  | some mapping => do
      let s ←
        if mapping.fixed then .ok s
        else do
          let bits := vm.pageBits mapping.bigPage
          let alignedSize := alignUp mapping.size (2 ^ bits)
          let a ← (vm.allocator mapping.bigPage).free (s.pageAllocator mapping.bigPage)
            ((mapping.offset >>> bits) % 2 ^ 32) ((alignedSize >>> bits) % 2 ^ 32)
          .ok (s.setPageAllocator mapping.bigPage a)
      let s := s.unpinHandle mapping.handle
      .ok (true, { s with mappingMap := s.mappingMap.erase offset })

/-- The loop of `FreeSpace` over the mappings of the allocation. -/
def freeMappings (vm : Vm) (s : AsGpu) : List ℕ → Except Fault (Bool × AsGpu)
  | [] => .ok (true, s)
  | offset :: rest => do
      let (freed, s) ← freeMappingLocked vm s offset
      if freed then freeMappings vm s rest else .ok (false, s)

def freeSpace (vm : Vm) (s : AsGpu) (offset pages pageSize : ℕ) : Except Fault (NvResult × AsGpu) :=
  match s.allocationMap.lookup offset with
  | none => .ok (.badValue, s)
  | some allocation =>
      if allocation.pageSize ≠ pageSize ∨ allocation.size ≠ pages * pageSize then .ok (.badValue, s)
      else do
        let (freed, s) ← freeMappings vm s allocation.mappings
        if freed then
          let big := decide (pageSize ≠ yuzuPageSize)
          let bits := vm.pageBits big
          let a ← (vm.allocator big).free (s.pageAllocator big) ((offset >>> bits) % 2 ^ 32)
            ((allocation.size >>> bits) % 2 ^ 32)
          .ok (.success, { s.setPageAllocator big a with allocationMap := s.allocationMap.erase offset })
        else .ok (.badValue, s)

/-- `MapBufferEx`.  The second component is `params.offset`. -/
def mapBufferEx (vm : Vm) (nvmap : ℕ → Option HandleInfo) (s : AsGpu) (handle mappingSize offset : ℕ)
    (fixed remap : Bool) : Except Fault (NvResult × ℕ × AsGpu) :=
  if remap then
    match s.mappingMap.lookup offset with
    | none => .ok (.badValue, offset, s)
    | some mapping => .ok (if mapping.size < mappingSize then .badValue else .success, offset, s)
  else
    match nvmap handle with
    | none => .ok (.badValue, offset, s)
    | some info =>
        let s := s.pinHandle handle
        let size := if mappingSize ≠ 0 then mappingSize else info.origSize
        let bigPage := decide (info.align % vm.bigPageSize = 0)
        if fixed then
          match predecessor offset s.allocationMap.entries with
          | none => .ok (.badValue, offset, s)
          | some ⟨base, allocation⟩ =>
              if (offset - base + size) % 2 ^ 64 > allocation.size then .ok (.badValue, offset, s)
              else
                .ok (.success, offset, { s with
                  allocationMap := s.allocationMap.insert base
                    { allocation with mappings := allocation.mappings ++ [offset] }
                  mappingMap := s.mappingMap.insert offset ⟨handle, offset, size, true, allocation.bigPages && bigPage⟩
                  mapBufferOffsets := insert offset s.mapBufferOffsets })
        else do
          let bits := vm.pageBits bigPage
          let (page, a) ← (vm.allocator bigPage).allocate (s.pageAllocator bigPage)
            ((alignUp size (2 ^ bits) >>> bits) % 2 ^ 32)
          let s := s.setPageAllocator bigPage a
          let offset := page <<< bits
          if offset = 0 then .ok (.insufficientMemory, offset, s)
          else
            .ok (.success, offset, { s with
              mappingMap := s.mappingMap.insert offset ⟨handle, offset, size, false, bigPage⟩
              mapBufferOffsets := insert offset s.mapBufferOffsets })

def unmapBuffer (vm : Vm) (s : AsGpu) (offset : ℕ) : Except Fault (NvResult × AsGpu) :=
  if offset ∉ s.mapBufferOffsets then .ok (.success, s)
  else
    match s.mappingMap.lookup offset with
    | none => .error .badIterator
    | some mapping => do
        let s ←
          if mapping.fixed then .ok s
          else do
            let bits := vm.pageBits mapping.bigPage
            let a ← (vm.allocator mapping.bigPage).free (s.pageAllocator mapping.bigPage)
              ((mapping.offset >>> bits) % 2 ^ 32) ((mapping.size >>> bits) % 2 ^ 32)
            .ok (s.setPageAllocator mapping.bigPage a)
        let s := s.unpinHandle mapping.handle
        .ok (.success, { s with
          mappingMap := s.mappingMap.erase offset
          mapBufferOffsets := s.mapBufferOffsets.erase offset })

inductive Ioctl
  | allocateSpace (pages pageSize offset : ℕ) (fixed sparse : Bool)
  | mapBufferEx (handle mappingSize offset : ℕ) (fixed remap : Bool)
  | unmapBuffer (offset : ℕ)
  | freeSpace (offset pages pageSize : ℕ)
deriving DecidableEq

def ioctl (vm : Vm) (nvmap : ℕ → Option HandleInfo) (s : AsGpu) : Ioctl → Except Fault (NvResult × AsGpu)
  | .allocateSpace pages pageSize offset fixed sparse => do
      let (result, _, s) ← allocateSpace vm s pages pageSize offset fixed sparse
      .ok (result, s)
  | .mapBufferEx handle mappingSize offset fixed remap => do
      let (result, _, s) ← mapBufferEx vm nvmap s handle mappingSize offset fixed remap
      .ok (result, s)
  | .unmapBuffer offset => unmapBuffer vm s offset
  | .freeSpace offset pages pageSize => freeSpace vm s offset pages pageSize

end Voltemu.Nvdrv
