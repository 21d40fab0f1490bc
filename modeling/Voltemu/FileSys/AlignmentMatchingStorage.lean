import Voltemu.Lib.Overwrite
import Voltemu.FileSys.PathNormalizer

/-!
# Alignment matching storage

`AlignmentMatchingStorageImpl::Read` and `Write`.

* The memory around the buffer, the work buffer and the base storage are functions on addresses and offsets.
* `accesses` are the offsets and sizes of the accesses of the base storage, and `asserts` says whether every `ASSERT` holds.
* Offsets and sizes are inside of the storage, so that the 64 bit arithmetic does not wrap.
-/

namespace Voltemu.FileSys

open Overwrite

/-! ## Alignment -/

def alignDown (value size : ℕ) : ℕ := value - value % size

def alignUp (value size : ℕ) : ℕ := if value % size = 0 then value - value % size else value - value % size + size

def isAligned (value alignment : ℕ) : Bool := value &&& (alignment - 1) == 0

def getRoundDownDifference (x align : ℕ) : ℕ := x - alignDown x align

def getRoundUpDifference (x align : ℕ) : ℕ := alignUp x align - x

namespace AlignmentMatchingStorageImpl

/-! ## Accesses -/

structure State where
  memory : ℕ → Byte
  workBuf : ℕ → Byte
  baseStorage : ℕ → Byte
  accesses : List (ℕ × ℕ)
  asserts : Bool

namespace State

variable (s : State)

def readBase (address size offset : ℕ) : State :=
  { s with
    memory := overwrite s.memory address size fun i => s.baseStorage (offset + i)
    accesses := s.accesses ++ [(offset, size)] }

def readBaseToWork (size offset : ℕ) : State :=
  { s with
    workBuf := overwrite s.workBuf 0 size fun i => s.baseStorage (offset + i)
    accesses := s.accesses ++ [(offset, size)] }

def writeBase (address size offset : ℕ) : State :=
  { s with
    baseStorage := overwrite s.baseStorage offset size fun i => s.memory (address + i)
    accesses := s.accesses ++ [(offset, size)] }

def writeBaseFromWork (size offset : ℕ) : State :=
  { s with
    baseStorage := overwrite s.baseStorage offset size s.workBuf
    accesses := s.accesses ++ [(offset, size)] }

/-- `std::memmove` inside of the memory. -/
def memmove (dst src size : ℕ) : State :=
  { s with memory := overwrite s.memory dst size fun i => s.memory (src + i) }

def copyFromWork (dst src size : ℕ) : State :=
  { s with memory := overwrite s.memory dst size fun i => s.workBuf (src + i) }

def copyToWork (dst src size : ℕ) : State :=
  { s with workBuf := overwrite s.workBuf dst size fun i => s.memory (src + i) }

/-- `ASSERT`. -/
def check (b : Bool) : State := { s with asserts := s.asserts && b }

end State

/-! ## Extents -/

structure Extents where
  alignedCoreBuffer : ℕ
  coreOffset : ℕ
  coreSize : ℕ
  bufferGap : ℕ
  offsetGap : ℕ
  coveredOffset : ℕ

/-- The extents of an access whose core is at an aligned address. -/
def matchingExtents (dataAlignment offset buffer size : ℕ) : Extents :=
  let offsetRoundUpDifference := getRoundUpDifference offset dataAlignment
  let coreOffset := alignUp offset dataAlignment
  let coreSize :=
    if size < offsetRoundUpDifference then 0 else alignDown (size - offsetRoundUpDifference) dataAlignment
  { alignedCoreBuffer := buffer + offsetRoundUpDifference
    coreOffset := coreOffset
    coreSize := coreSize
    bufferGap := 0
    offsetGap := 0
    coveredOffset := if coreSize > 0 then coreOffset else offset }

/-- The extents of a read whose core has to be moved. -/
def shiftedExtents (dataAlignment bufferAlignment offset buffer size : ℕ) : Extents :=
  let bufferRoundUpDifference := getRoundUpDifference buffer bufferAlignment
  { alignedCoreBuffer := buffer + bufferRoundUpDifference
    coreOffset := alignDown offset dataAlignment
    coreSize :=
      if size < bufferRoundUpDifference then 0 else alignDown (size - bufferRoundUpDifference) dataAlignment
    bufferGap := bufferRoundUpDifference
    offsetGap := getRoundDownDifference offset dataAlignment
    coveredOffset := offset }

def emptyExtents (dataAlignment offset : ℕ) : Extents :=
  { alignedCoreBuffer := 0
    coreOffset := alignDown offset dataAlignment
    coreSize := 0
    bufferGap := 0
    offsetGap := 0
    coveredOffset := offset }

def matching (dataAlignment bufferAlignment offset buffer : ℕ) : Bool :=
  isAligned (buffer + getRoundUpDifference offset dataAlignment) bufferAlignment

/-! ## `Read` -/

/-- The core portion of a read, with the size of what it covers. -/
def readCore (e : Extents) (s : State) : State × ℕ :=
  if e.coreSize > 0 then
    let s := s.readBase e.alignedCoreBuffer e.coreSize e.coreOffset
    if e.offsetGap ≠ 0 ∨ e.bufferGap ≠ 0 then
      (s.memmove (e.alignedCoreBuffer - e.bufferGap) (e.alignedCoreBuffer + e.offsetGap) (e.coreSize - e.offsetGap),
        e.coreSize - e.offsetGap)
    else (s, e.coreSize)
  else (s, e.coreSize)

def readHead (workBufSize dataAlignment offset buffer coveredOffset : ℕ) (s : State) : State :=
  if offset < coveredOffset then
    let headSize := coveredOffset - offset
    let s := s.check (decide (getRoundDownDifference offset dataAlignment + headSize ≤ workBufSize))
    let s := s.readBaseToWork dataAlignment (alignDown offset dataAlignment)
    s.copyFromWork buffer (getRoundDownDifference offset dataAlignment) headSize
  else s

/-- The tail portion of a read.  Every iteration reads a byte at least, so that `fuel` counts bytes. -/
def readTail (dataAlignment offset buffer size : ℕ) : (fuel tailOffset remainingTailSize : ℕ) → State → State
  | 0, _, _, s => s
  | fuel + 1, tailOffset, remainingTailSize, s =>
      if remainingTailSize > 0 then
        let alignedTailOffset := alignDown tailOffset dataAlignment
        let curSize := min (alignedTailOffset + dataAlignment - tailOffset) remainingTailSize
        let s := s.readBaseToWork dataAlignment alignedTailOffset
        let s := s.check (decide (tailOffset - offset + curSize ≤ size))
        let s := s.check (decide (tailOffset - alignedTailOffset + curSize ≤ dataAlignment))
        let s := s.copyFromWork (buffer + (tailOffset - offset)) (tailOffset - alignedTailOffset) curSize
        readTail dataAlignment offset buffer size fuel (tailOffset + curSize) (remainingTailSize - curSize) s
      else s

def read (workBufSize dataAlignment bufferAlignment offset buffer size : ℕ) (s : State) : State :=
  let s := s.check (decide (workBufSize ≥ dataAlignment))
  if size = 0 then s
  else
    let s := s.check (decide (buffer ≠ 0))
    let e :=
      if matching dataAlignment bufferAlignment offset buffer then matchingExtents dataAlignment offset buffer size
      else shiftedExtents dataAlignment bufferAlignment offset buffer size
    let (s, coreSize) := readCore e s
    let s := readHead workBufSize dataAlignment offset buffer e.coveredOffset s
    let tailOffset := e.coveredOffset + coreSize
    readTail dataAlignment offset buffer size size tailOffset (offset + size - tailOffset) s

/-! ## `Write` -/

def writeCore (e : Extents) (s : State) : State :=
  if e.coreSize > 0 then s.writeBase e.alignedCoreBuffer e.coreSize e.coreOffset else s

def writeHead (dataAlignment offset buffer coveredOffset : ℕ) (s : State) : State :=
  if offset < coveredOffset then
    let headOffset := alignDown offset dataAlignment
    let headSize := coveredOffset - offset
    let s := s.check (decide (offset - headOffset + headSize ≤ dataAlignment))
    let s := s.readBaseToWork dataAlignment headOffset
    let s := s.copyToWork (offset - headOffset) buffer headSize
    s.writeBaseFromWork dataAlignment headOffset
  else s

def writeTail (dataAlignment offset buffer size : ℕ) : (fuel tailOffset remainingTailSize : ℕ) → State → State
  | 0, _, _, s => s
  | fuel + 1, tailOffset, remainingTailSize, s =>
      if remainingTailSize > 0 then
        let s := s.check (decide (tailOffset - offset < size))
        let alignedTailOffset := alignDown tailOffset dataAlignment
        let curSize := min (alignedTailOffset + dataAlignment - tailOffset) remainingTailSize
        let s := s.readBaseToWork dataAlignment alignedTailOffset
        let s := s.copyToWork (getRoundDownDifference tailOffset dataAlignment) (buffer + (tailOffset - offset)) curSize
        let s := s.writeBaseFromWork dataAlignment alignedTailOffset
        writeTail dataAlignment offset buffer size fuel (tailOffset + curSize) (remainingTailSize - curSize) s
      else s

def write (workBufSize dataAlignment bufferAlignment offset buffer size : ℕ) (s : State) : State :=
  let s := s.check (decide (workBufSize ≥ dataAlignment))
  if size = 0 then s
  else
    let s := s.check (decide (buffer ≠ 0))
    let e :=
      if matching dataAlignment bufferAlignment offset buffer then matchingExtents dataAlignment offset buffer size
      else emptyExtents dataAlignment offset
    let s := writeCore e s
    let s := writeHead dataAlignment offset buffer e.coveredOffset s
    let tailOffset := e.coveredOffset + e.coreSize
    writeTail dataAlignment offset buffer size size tailOffset (offset + size - tailOffset) s

end AlignmentMatchingStorageImpl

end Voltemu.FileSys
