import Voltemu.FileSys.BucketTree
import Voltemu.FileSys.Vfs

/-!
# Indirect storages

`IndirectStorage`, with the scan for continuous reads of `BucketTree`.

* The data storages are virtual files.  A function that is operated per entry changes a state, which is kept when an
  operation fails.
* `s64` numbers are integers.  Of the sums, only the physical offset of the scan can be too large for a valid table; it wraps.
* The loops have a number of iterations: `ScanContinuousReading` ends with the entry set, and every iteration of
  `OperatePerEntry` moves on by at least one byte.
-/

namespace Voltemu.FileSys

open BucketTree Overwrite

/-- A number that is converted to `s64`. -/
def toS64 (x : ℤ) : ℤ := x.bmod (2 ^ 64)

namespace IndirectStorage

def StorageCount : ℤ := 2

def NodeSize : ℕ := 0x4000

/-- `sizeof(Entry)`. -/
def EntrySize : ℕ := 0x14

def FragmentSizeMax : ℤ := 0x1000

/-- The results that the functions below fail with. -/
inductive Error
  | tree (error : BucketTree.Error)
  | invalidIndirectEntryOffset
  | invalidIndirectEntryStorageIndex
  | invalidIndirectStorageSize
  | indirectStorageCorrupted
deriving DecidableEq

structure Entry where
  virtOffset : ℤ
  physOffset : ℤ
  storageIndex : ℤ
deriving DecidableEq

def entryAt (storage : ℕ → Byte) (offset : ℕ) : Entry :=
  ⟨s64At storage offset, s64At storage (offset + 8), s32At storage (offset + 0x10)⟩

def Entry.get (visitor : Visitor) : Entry := entryAt (fun i => visitor.entry.getD i 0) 0

def Entry.isFragment (entry : Entry) : Bool := entry.storageIndex != 0

structure ContinuousReadingInfo where
  readSize : ℤ
  skipCount : ℤ
  done : Bool
deriving DecidableEq

/-- A new `ContinuousReadingInfo`, and one after `Reset`. -/
def ContinuousReadingInfo.reset : ContinuousReadingInfo := ⟨0, 0, false⟩

/-! ## `ScanContinuousReading` -/

/-- The variables of the loop of `ScanContinuousReading`. -/
structure ScanState where
  entry : Entry
  entryIndex : ℤ
  curOffset : ℤ
  physOffset : ℤ
  mergeSize : ℤ
  readableSize : ℤ
  merged : Bool

variable (t : BucketTree)

def isInclude (offset : ℤ) : Bool := decide (t.startOffset ≤ offset ∧ offset < t.endOffset)

def isIncludeRange (offset size : ℤ) : Bool :=
  decide (size > 0 ∧ t.startOffset ≤ offset ∧ size ≤ t.endOffset - offset)

/-- The next entry of the entry set, and its offset or the end of the entry set. -/
def scanNextEntry (entrySet : EntrySetInfo) (entryIndex : ℤ) : Except Error (Entry × ℤ) :=
  if entryIndex + 1 < entrySet.count then
    let ofs := entrySet.index.toNat * t.nodeSize
    let nextEntry := entryAt t.entryStorage (ofs + getBucketTreeEntryOffset 0 t.entrySize (entryIndex + 1))
    if isInclude t nextEntry.virtOffset = false then .error .invalidIndirectEntryOffset
    else .ok (nextEntry, nextEntry.virtOffset)
  else .ok (⟨0, 0, 0⟩, entrySet.end')

def scanLoop (entrySet : EntrySetInfo) (endOffset : ℤ) : (fuel : ℕ) → ScanState → Except Error ScanState
  | 0, s => .ok s
  | fuel + 1, s =>
      if ¬ s.entryIndex < entrySet.count then .ok s
      else if endOffset ≤ s.curOffset then .ok s
      else
        let entryOffset := s.entry.virtOffset
        if ¬ entryOffset ≤ s.curOffset then .error .invalidIndirectEntryOffset
        else
          match scanNextEntry t entrySet s.entryIndex with
          | .error e => .error e
          | .ok (nextEntry, nextEntryOffset) =>
              if ¬ s.curOffset < nextEntryOffset then .error .invalidIndirectEntryOffset
              else
                let dataSize := nextEntryOffset - s.curOffset
                let remainingSize := endOffset - s.curOffset
                let readSize := min dataSize remainingSize
                let advanced := { s with
                  entry := nextEntry
                  entryIndex := s.entryIndex + 1
                  curOffset := s.curOffset + readSize
                  physOffset := toS64 (s.physOffset + (nextEntryOffset - entryOffset)) }
                if s.entry.isFragment then
                  if FragmentSizeMax ≤ readSize ∨ remainingSize ≤ dataSize then .ok s
                  else scanLoop entrySet endOffset fuel { advanced with mergeSize := s.mergeSize + readSize }
                else if s.physOffset ≠ s.entry.physOffset then .ok s
                else
                  scanLoop entrySet endOffset fuel { advanced with
                    readableSize := s.readableSize + (s.mergeSize + readSize)
                    merged := s.merged || decide (s.mergeSize > 0)
                    mergeSize := 0 }

/-- `ScanContinuousReading`, for an entry storage of a size. -/
def scanContinuousReading (entryStorageSize : ℕ) (visitor : Visitor) (offset size : ℤ) :
    Except Error ContinuousReadingInfo :=
  let entry := Entry.get visitor
  let entrySet := visitor.entrySet
  if size = 0 then .ok .reset
  else if entry.isFragment then .ok .reset
  else if ¬ entry.virtOffset ≤ offset then .error (.tree .outOfRange)
  else if ¬ t.nodeSize + entrySet.index.toNat * t.nodeSize ≤ entryStorageSize then
    .error (.tree .invalidBucketTreeNodeEntryCount)
  else
    let start : ScanState := ⟨entry, visitor.entryIndex, offset, entry.physOffset, 0, 0, false⟩
    match scanLoop t entrySet (offset + size) (entrySet.count - visitor.entryIndex).toNat start with
    | .error e => .error e
    | .ok s => .ok ⟨if s.merged then s.readableSize else 0, s.entryIndex - visitor.entryIndex, false⟩

end IndirectStorage

open IndirectStorage

/-! ## `IndirectStorage` -/

/-- `IndirectStorage`, once it is initialised. -/
structure IndirectStorage where
  table : BucketTree
  entryStorageSize : ℕ
  dataStorage : ℕ → VfsFile

namespace IndirectStorage

section Operate

variable {S : Type} (storage : IndirectStorage)
variable (func : (storageIndex : ℕ) → (dataOffset curOffset curSize : ℤ) → S → Except Error Unit × S)

/-- An operation on a part of a data storage, behind the check of its range.  The two checks fail with the errors `phys`
and `size`. -/
def operate (rangeCheck : Bool) (phys size : Error) (storageIndex : ℕ) (physOffset dataOffset curOffset curSize : ℤ) (s : S) :
    Except Error Unit × S :=
  let curDataStorageSize : ℤ := (storage.dataStorage storageIndex).getSize
  if rangeCheck = true ∧ ¬ (0 ≤ physOffset ∧ physOffset ≤ curDataStorageSize) then (.error phys, s)
  else if rangeCheck = true ∧ ¬ physOffset + dataOffset + curSize ≤ curDataStorageSize then (.error size, s)
  else func storageIndex (physOffset + dataOffset) curOffset curSize s

/-- What is done for an entry if `ContinuousCheck`: a scan if one is needed, and the read that it allows. -/
def operateContinuous (rangeCheck : Bool) (visitor : Visitor) (curOffset endOffset : ℤ) (info : ContinuousReadingInfo)
    (s : S) : Except Error ContinuousReadingInfo × S :=
  let curEntry := Entry.get visitor
  let info := { info with skipCount := info.skipCount - 1 }
  match (if info.skipCount ≤ 0 then
      scanContinuousReading storage.table storage.entryStorageSize visitor curOffset (endOffset - curOffset)
    else .ok info) with
  | .error e => (.error e, s)
  | .ok info =>
      if info.readSize > 0 then
        if ¬ curEntry.storageIndex = 0 then (.error .invalidIndirectEntryStorageIndex, s)
        else
          match storage.operate func rangeCheck .invalidIndirectEntryOffset .invalidIndirectStorageSize 0
              curEntry.physOffset (curOffset - curEntry.virtOffset) curOffset info.readSize s with
          | (.error e, s) => (.error e, s)
          | (.ok (), s) => (.ok { info with readSize := 0, done := true }, s)
      else (.ok info, s)

/-- The next entry, and its offset or the end of the table. -/
def nextEntryOffset (visitor : Visitor) : Except Error (Visitor × ℤ) :=
  if visitor.canMoveNext then
    match visitor.moveNext storage.table with
    | .error e => .error (.tree e)
    | .ok visitor =>
        let nextEntryOffset := (Entry.get visitor).virtOffset
        if isInclude storage.table nextEntryOffset = false then .error .invalidIndirectEntryOffset
        else .ok (visitor, nextEntryOffset)
  else .ok (visitor, storage.table.endOffset)

def operateLoop (continuousCheck rangeCheck : Bool) (endOffset : ℤ) :
    (fuel : ℕ) → Visitor → (curOffset : ℤ) → ContinuousReadingInfo → S → Except Error Unit × S
  | 0, _, _, _, s => (.ok (), s)
  | fuel + 1, visitor, curOffset, info, s =>
      if ¬ curOffset < endOffset then (.ok (), s)
      else
        let curEntry := Entry.get visitor
        if ¬ curEntry.virtOffset ≤ curOffset then (.error .invalidIndirectEntryOffset, s)
        else if ¬ (0 ≤ curEntry.storageIndex ∧ curEntry.storageIndex < StorageCount) then
          (.error .invalidIndirectEntryStorageIndex, s)
        else
          match (if continuousCheck then storage.operateContinuous func rangeCheck visitor curOffset endOffset info s
            else (.ok info, s)) with
          | (.error e, s) => (.error e, s)
          | (.ok info, s) =>
              match storage.nextEntryOffset visitor with
              | .error e => (.error e, s)
              | .ok (visitor, nextEntryOffset) =>
                  if ¬ curOffset < nextEntryOffset then (.error .invalidIndirectEntryOffset, s)
                  else
                    let dataOffset := curOffset - curEntry.virtOffset
                    let dataSize := nextEntryOffset - curEntry.virtOffset
                    let remainingSize := endOffset - curOffset
                    let curSize := min remainingSize (dataSize - dataOffset)
                    let needsOperate := !continuousCheck || (!info.done || curEntry.storageIndex != 0)
                    match (if needsOperate then
                        storage.operate func rangeCheck .indirectStorageCorrupted .indirectStorageCorrupted
                          curEntry.storageIndex.toNat curEntry.physOffset dataOffset curOffset curSize s
                      else (.ok (), s)) with
                    | (.error e, s) => (.error e, s)
                    | (.ok (), s) =>
                        operateLoop continuousCheck rangeCheck endOffset fuel visitor (curOffset + curSize) info s

def operatePerEntry (continuousCheck rangeCheck : Bool) (offset size : ℤ) (s : S) : Except Error Unit × S :=
  if size = 0 then (.ok (), s)
  else if isIncludeRange storage.table offset size = false then (.error (.tree .outOfRange), s)
  else
    match storage.table.find offset with
    | .error e => (.error (.tree e), s)
    | .ok visitor =>
        let entryOffset := (Entry.get visitor).virtOffset
        if ¬ (0 ≤ entryOffset ∧ isInclude storage.table entryOffset = true) then (.error .invalidIndirectEntryOffset, s)
        else
          storage.operateLoop func continuousCheck rangeCheck (offset + size) size.toNat visitor offset .reset s

end Operate

variable (storage : IndirectStorage)

/-- A buffer, or nothing if memory that does not belong to a file was copied to it. -/
abbrev Buffer := Option (ℕ → Byte)

/-- What `Read` operates: a read of a data storage into the buffer. -/
def readFunc (offset : ℤ) (storageIndex : ℕ) (dataOffset curOffset curSize : ℤ) (buffer : Buffer) :
    Except Error Unit × Buffer :=
  (.ok (), buffer.bind fun m =>
    ((storage.dataStorage storageIndex).read curSize.toNat dataOffset.toNat).map fun bytes =>
      overwrite m (curOffset - offset).toNat bytes.length fun i => bytes.getD i 0)

/-- `IndirectStorage::Read` by `OperatePerEntry<continuousCheck, true>`: the size that it returns and the buffer. -/
def readBy (continuousCheck : Bool) (buffer : Buffer) (size offset : ℕ) : ℕ × Buffer :=
  if size = 0 then (0, buffer)
  else
    (size, (storage.operatePerEntry (storage.readFunc (toS64 offset)) continuousCheck true (toS64 offset) (toS64 size)
      buffer).2)

def read (buffer : Buffer) (size offset : ℕ) : ℕ × Buffer := storage.readBy true buffer size offset

end IndirectStorage

end Voltemu.FileSys
