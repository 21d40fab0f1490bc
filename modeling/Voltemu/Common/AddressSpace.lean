import Mathlib.Data.BitVec
import Voltemu.Lib.Breakpoints

/-!
# `FlatAddressSpaceMap`: a virtual address space as a sorted vector

`common/address_space.inc`.  The vector holds the starts of the blocks; a block reaches to the start of
the next one, the last block has no end.

* Virtual addresses are unsigned integers of `vaTypeBits` bits, physical ones of `w` bits.  The
  template parameter `UnmappedVa` is zero in every instance.
* An iterator is a position in the vector.  To follow one that does not point at a block is
  `Fault.badIterator`; a failed `ASSERT_MSG` is a fault as well, with the values its message prints.
* The callback of the map does not touch the blocks and is left out, as are the locks.
-/

namespace Voltemu.Common

open Voltemu.Lib

/-- The template parameters, and the limit that the constructor checks. -/
structure AddressSpace (w : ℕ) where
  vaTypeBits : ℕ
  unmappedPa : BitVec w
  paContigSplit : Bool
  vaLimit : ℕ
  vaLimit_lt : vaLimit < 2 ^ vaTypeBits

structure Block (w : ℕ) (Extra : Type) where
  virt : ℕ
  phys : BitVec w
  extraInfo : Extra
deriving DecidableEq

/-- What ends an operation before its time. -/
inductive Fault
  /-- "Trying to map a block past the VA limit" -/
  | pastLimit (virtEnd vaLimit : ℕ)
  /-- "Trying to map a block before the VA start", and the same for unmap -/
  | beforeStart (virtEnd : ℕ)
  /-- "Unsorted block in AS map" -/
  | unsorted (virt : ℕ)
  /-- "Multiple contiguous unmapped regions are unsupported!" -/
  | contiguousUnmapped
  /-- "Unexpected Memory Manager state!" -/
  | unexpectedState
  /-- "First block in AS map is invalid!" -/
  | firstBlock
  /-- "Unexpected allocator state!" -/
  | unexpectedAllocatorState
  | badIterator
deriving DecidableEq

variable {w : ℕ} {Extra : Type}

namespace AddressSpace

variable (A : AddressSpace w)

def Mapped (b : Block w Extra) : Prop := b.phys ≠ A.unmappedPa

def Unmapped (b : Block w Extra) : Prop := b.phys = A.unmappedPa

instance (b : Block w Extra) : Decidable (A.Mapped b) := inferInstanceAs (Decidable (_ ≠ _))

instance (b : Block w Extra) : Decidable (A.Unmapped b) := inferInstanceAs (Decidable (_ = _))

/-- The physical address `distance` bytes into a mapping. -/
def advance (phys : BitVec w) (distance : ℕ) : BitVec w :=
  if A.paContigSplit then phys + BitVec.ofNat w distance else phys

end AddressSpace

/-- `*iter`. -/
def deref (blocks : List (Block w Extra)) (iter : ℕ) : Except Fault (Block w Extra) :=
  match blocks[iter]? with
  | some b => .ok b
  | none => .error .badIterator

/-- `blocks.insert(pos, …)`. -/
def insertAt (blocks : List (Block w Extra)) (pos : ℕ) (new : List (Block w Extra)) : List (Block w Extra) :=
  blocks.take pos ++ new ++ blocks.drop pos

/-- `blocks.erase(first, last)`. -/
def erase (blocks : List (Block w Extra)) (first last : ℕ) : List (Block w Extra) :=
  blocks.take first ++ blocks.drop last

/-- `while (std::prev(it)->virt >= virt) it--`. -/
def walkToStartSuccessor (blocks : List (Block w Extra)) (virt : ℕ) : ℕ → Except Fault ℕ
  | 0 => .error .badIterator
  | iter + 1 => do
      let prev ← deref blocks iter
      if prev.virt ≥ virt then walkToStartSuccessor blocks virt iter else .ok (iter + 1)

def walkBackToPredecessor (blocks : List (Block w Extra)) (virt : ℕ) : ℕ → Except Fault ℕ
  | 0 => do
      let b ← deref blocks 0
      if b.virt ≥ virt then .error .badIterator else .ok 0
  | iter + 1 => do
      let b ← deref blocks (iter + 1)
      if b.virt ≥ virt then walkBackToPredecessor blocks virt iter else .ok (iter + 1)

/-! ## `MapLocked` -/

/-- The rest of `MapLocked`, with a block at `virtEnd` to which `blockEndSuccessor` points. -/
def mapStart (blocks : List (Block w Extra)) (virt virtEnd : ℕ) (phys : BitVec w) (extraInfo : Extra)
    (blockEndSuccessor : ℕ) : Except Fault (List (Block w Extra)) := do
  let blockStartSuccessor ← walkToStartSuccessor blocks virt blockEndSuccessor
  let b ← deref blocks blockStartSuccessor
  if b.virt > virtEnd then .error (.unsorted b.virt)
  else if b.virt = virtEnd then .ok (insertAt blocks blockStartSuccessor [⟨virt, phys, extraInfo⟩])
  else
    -- erase overwritten blocks, and reuse the first of them
    .ok ((erase blocks (blockStartSuccessor + 1) blockEndSuccessor).set blockStartSuccessor ⟨virt, phys, extraInfo⟩)

variable [Inhabited Extra]

def mapLocked (A : AddressSpace w) (blocks : List (Block w Extra)) (virt : ℕ) (phys : BitVec w)
    (size : ℕ) (extraInfo : Extra) : Except Fault (List (Block w Extra)) :=
  let virtEnd := (virt + size) % 2 ^ A.vaTypeBits
  let blockEndSuccessor := lowerBound Block.virt blocks virtEnd
  let blockEndPredecessor := blockEndSuccessor - 1
  if virtEnd > A.vaLimit then .error (.pastLimit virtEnd A.vaLimit)
  else if blockEndSuccessor = 0 then .error (.beforeStart virtEnd)
  else do
    let predecessor ← deref blocks blockEndPredecessor
    if blockEndSuccessor ≠ blocks.length then do
      let successor ← deref blocks blockEndSuccessor
      if successor.virt ≠ virtEnd then
        -- always propagate unmapped regions rather than calculating the offset
        let tailPhys := if A.Unmapped predecessor then predecessor.phys
          else A.advance predecessor.phys (virtEnd - predecessor.virt)
        if blockEndPredecessor ≠ 0 ∧ predecessor.virt ≥ virt then
          mapStart (blocks.set blockEndPredecessor ⟨virtEnd, tailPhys, predecessor.extraInfo⟩)
            virt virtEnd phys extraInfo blockEndPredecessor
        else
          .ok (insertAt blocks blockEndSuccessor [⟨virt, phys, extraInfo⟩, ⟨virtEnd, tailPhys, predecessor.extraInfo⟩])
      else mapStart blocks virt virtEnd phys extraInfo blockEndSuccessor
    else if blockEndPredecessor ≠ 0 ∧ predecessor.virt ≥ virt then
      -- move the unmapped block
      mapStart (blocks.set blockEndPredecessor { predecessor with virt := virtEnd })
        virt virtEnd phys extraInfo blockEndPredecessor
    else
      .ok (insertAt blocks blockEndSuccessor [⟨virt, phys, extraInfo⟩, ⟨virtEnd, A.unmappedPa, default⟩])

/-! ## `UnmapLocked` -/

omit [Inhabited Extra] in
def eraseBlocksWithEndUnmapped (A : AddressSpace w) (blocks : List (Block w Extra)) (virt : ℕ)
    (unmappedEnd : ℕ) : Except Fault (List (Block w Extra)) := do
  let blockStartPredecessor ← walkBackToPredecessor blocks virt unmappedEnd
  let blockStartSuccessor := blockStartPredecessor + 1
  let predecessor ← deref blocks blockStartPredecessor
  let last ← deref blocks unmappedEnd
  if A.Unmapped predecessor then
    let eraseEnd := unmappedEnd + 1
    if eraseEnd ≠ blocks.length then do
      let b ← deref blocks eraseEnd
      if eraseEnd = blockStartSuccessor ∨ A.Unmapped b then .error .contiguousUnmapped
      else .ok (erase blocks blockStartSuccessor eraseEnd)
    else .ok (erase blocks blockStartSuccessor eraseEnd)
  else
    -- reuse the end as the start of the unmapped region
    let blocks := blocks.set unmappedEnd { last with virt := virt }
    if unmappedEnd = blockStartSuccessor then .error .contiguousUnmapped
    else .ok (erase blocks blockStartSuccessor unmappedEnd)

/-- The rest of `UnmapLocked`, with a mapped block at `virtEnd` to which `blockEndSuccessor` points. -/
def unmapStart (A : AddressSpace w) (blocks : List (Block w Extra)) (virt virtEnd : ℕ)
    (blockEndPredecessor blockEndSuccessor : ℕ) : Except Fault (List (Block w Extra)) := do
  let blockStartPredecessor ← walkBackToPredecessor blocks virt blockEndSuccessor
  let blockStartSuccessor := blockStartPredecessor + 1
  let predecessor ← deref blocks blockStartPredecessor
  let successor ← deref blocks blockStartSuccessor
  if successor.virt > virtEnd then .error (.unsorted successor.virt)
  else if successor.virt = virtEnd then
    -- no unmapped block behind an unmapped one
    if A.Mapped predecessor then
      .ok (insertAt blocks blockStartSuccessor [⟨virt, A.unmappedPa, default⟩])
    else .ok blocks
  else if A.Unmapped predecessor then
    .ok (erase blocks blockStartSuccessor blockEndPredecessor)
  else
    .ok ((erase blocks (blockStartSuccessor + 1) blockEndSuccessor).set blockStartSuccessor
      { successor with virt := virt, phys := A.unmappedPa })

def unmapLocked (A : AddressSpace w) (blocks : List (Block w Extra)) (virt size : ℕ) :
    Except Fault (List (Block w Extra)) :=
  let virtEnd := (virt + size) % 2 ^ A.vaTypeBits
  let blockEndSuccessor := lowerBound Block.virt blocks virtEnd
  let blockEndPredecessor := blockEndSuccessor - 1
  if virtEnd > A.vaLimit then .error (.pastLimit virtEnd A.vaLimit)
  else if blockEndSuccessor = 0 then .error (.beforeStart virtEnd)
  else do
    let predecessor ← deref blocks blockEndPredecessor
    if A.Unmapped predecessor then
      if predecessor.virt > virt then eraseBlocksWithEndUnmapped A blocks virt blockEndPredecessor
      else .ok blocks
    else do
      -- the source reads the successor before it compares it with the end
      let successor ← deref blocks blockEndSuccessor
      if successor.virt = virtEnd ∧ A.Unmapped successor then
        eraseBlocksWithEndUnmapped A blocks virt blockEndSuccessor
      else if blockEndSuccessor = blocks.length then .error .unexpectedState
      else if successor.virt ≠ virtEnd then
        let tailPhys := A.advance predecessor.phys (virtEnd - predecessor.virt)
        if predecessor.virt ≥ virt then
          unmapStart A (blocks.set blockEndPredecessor ⟨virtEnd, tailPhys, predecessor.extraInfo⟩)
            virt virtEnd (blockEndPredecessor - 1) blockEndPredecessor
        else
          .ok (insertAt blocks blockEndSuccessor
            [⟨virt, A.unmappedPa, default⟩, ⟨virtEnd, tailPhys, predecessor.extraInfo⟩])
      else unmapStart A blocks virt virtEnd blockEndPredecessor blockEndSuccessor

end Voltemu.Common
