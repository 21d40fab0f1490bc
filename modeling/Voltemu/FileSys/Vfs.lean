import Voltemu.FileSys.PathNormalizer

/-!
# Virtual files

`VectorVfsFile`, `StaticVfsFile`, `OffsetVfsFile` and `ConcatenatedVfsFile`, as far as they are read.

* A file is its `GetSize` and its `Read`.  `Read` gives the bytes that it stores at `data`, whose number is its return value,
  and nothing if it copies memory that does not belong to the file.
* Sizes and offsets are unsigned 64 bit numbers: their differences wrap.
-/

namespace Voltemu.FileSys

/-- A difference of `std::size_t` or `u64`. -/
def subU64 (a b : ℕ) : ℕ := (a + (2 ^ 64 - b)) % 2 ^ 64

/-- A sum of `std::size_t` or `u64`. -/
def addU64 (a b : ℕ) : ℕ := (a + b) % 2 ^ 64

structure VfsFile where
  getSize : ℕ
  read : (length offset : ℕ) → Option (List Byte)

/-! ## Files with their own bytes -/

/-- `std::memcpy` from inside of a vector. -/
def memcpy (data : List Byte) (offset read : ℕ) : Option (List Byte) :=
  if read = 0 then some []
  else if offset + read ≤ data.length then some ((data.drop offset).take read)
  else none

def vectorVfsFile (data : List Byte) : VfsFile where
  getSize := data.length
  read length offset := memcpy data offset (min length (subU64 data.length offset))

def staticVfsFile (value : Byte) (size : ℕ) : VfsFile where
  getSize := size
  read length offset := some (List.replicate (min length (subU64 size offset)) value)

/-! ## `OffsetVfsFile` -/

def trimToFit (size rSize rOffset : ℕ) : ℕ := min rSize (subU64 size rOffset)

def offsetVfsFile (file : VfsFile) (size offset : ℕ) : VfsFile where
  getSize := size
  read length rOffset := file.read (trimToFit size length rOffset) (addU64 offset rOffset)

/-! ## `ConcatenatedVfsFile` -/

structure ConcatenationEntry where
  offset : ℕ
  file : VfsFile

/-- The entries from `std::prev(std::upper_bound(…))` on. -/
def entriesAt (map : List ConcatenationEntry) (offset : ℕ) : List ConcatenationEntry :=
  map.drop ((map.takeWhile fun entry => decide (entry.offset ≤ offset)).length - 1)

def concatenatedReadLoop : List ConcatenationEntry → (curLength curOffset : ℕ) → Option (List Byte)
  | [], _, _ => some []
  | entry :: rest, curLength, curOffset =>
      if curLength = 0 then some []
      else
        let fileSize := entry.file.getSize
        if curOffset > addU64 entry.offset fileSize then some []
        else
          let fileSeek := subU64 curOffset entry.offset
          let intendedReadSize := min curLength (subU64 fileSize fileSeek)
          (entry.file.read intendedReadSize fileSeek).bind fun actual =>
            if actual.length < intendedReadSize then some actual
            else
              (concatenatedReadLoop rest (subU64 curLength actual.length) (addU64 curOffset actual.length)).map
                (actual ++ ·)

def concatenatedVfsFile (map : List ConcatenationEntry) : VfsFile where
  getSize :=
    match map.getLast? with
    | none => 0
    | some entry => addU64 entry.offset entry.file.getSize
  read length offset := if map.isEmpty then some [] else concatenatedReadLoop (entriesAt map offset) length offset

/-- The concatenation map of files that follow each other. -/
def concatenationMap : (lastOffset : ℕ) → List VfsFile → List ConcatenationEntry
  | _, [] => []
  | lastOffset, file :: files => ⟨lastOffset, file⟩ :: concatenationMap (addU64 lastOffset file.getSize) files

/-- `MakeConcatenatedFile(name, files)`, with `none` for a null pointer. -/
def makeConcatenatedFile (files : List VfsFile) : Option VfsFile :=
  match files with
  | [] => none
  | [file] => some file
  | files => some (concatenatedVfsFile (concatenationMap 0 files))

/-- The concatenation map of files at given offsets, with filler in the gaps. -/
def filledConcatenationMap (fillerByte : Byte) : (lastOffset : ℕ) → List (ℕ × VfsFile) → List ConcatenationEntry
  | _, [] => []
  | lastOffset, (offset, file) :: files =>
      let entries := ⟨offset, file⟩ :: filledConcatenationMap fillerByte (addU64 offset file.getSize) files
      if offset > lastOffset then ⟨lastOffset, staticVfsFile fillerByte (subU64 offset lastOffset)⟩ :: entries
      else entries

/-- `MakeConcatenatedFile(filler_byte, name, files)`. -/
def makeFilledConcatenatedFile (fillerByte : Byte) (files : List (ℕ × VfsFile)) : Option VfsFile :=
  match files with
  | [] => none
  | [(_, file)] => some file
  | files => some (concatenatedVfsFile (filledConcatenationMap fillerByte 0 files))

end Voltemu.FileSys
