import Voltemu.FileSys.VfsViews

/-!
# IPS patches

`IdentifyMagic`, `IsEOF` and `PatchIPS` of `ips_layer.cpp`.

* The bytes of a patch are read through `VfsFile`, so that a read may be short.
* `u16` and `u32` are numbers with their explicit wraps: the sum of a record's offset and its size is a `u32`.
* A store outside of the input's copy is `none`, and so is a loop whose rounds do not suffice.  A null pointer that is returned is
  `some none`.
-/

namespace Voltemu.FileSys.Ips

inductive IPSFileType
  | IPS
  | IPS32
  | Error
deriving DecidableEq

/-- `PATCH` and `IPS32`. -/
def patchMagic : List Byte := [0x50#8, 0x41#8, 0x54#8, 0x43#8, 0x48#8]
def ips32Magic : List Byte := [0x49#8, 0x50#8, 0x53#8, 0x33#8, 0x32#8]

def identifyMagic (magic : List Byte) : IPSFileType :=
  if magic.length ≠ 5 then .Error
  else if magic = patchMagic then .IPS
  else if magic = ips32Magic then .IPS32
  else .Error

/-- `EOF` and `EEOF`. -/
def eof : List Byte := [0x45#8, 0x4F#8, 0x46#8]
def eeof : List Byte := [0x45#8, 0x45#8, 0x4F#8, 0x46#8]

def isEOF (type : IPSFileType) (data : List Byte) : Bool :=
  (type == .IPS && data == eof) || (type == .IPS32 && data == eeof)

def tempSize (type : IPSFileType) : ℕ := if type = .IPS then 3 else 4

/-- `real_offset`: the shifted bytes do not overlap, so that they can be added. -/
def realOffset (type : IPSFileType) (temp : List Byte) : ℕ :=
  let at' (i : ℕ) := (temp.getD i 0#8).toNat
  if type = .IPS32 then at' 0 * 2 ^ 24 + at' 1 * 2 ^ 16 + at' 2 * 2 ^ 8 + at' 3
  else at' 0 * 2 ^ 16 + at' 1 * 2 ^ 8 + at' 2

/-- The `u16` that `ReadObject` stores. -/
def loadU16 (s : List Byte) : ℕ := (s.getD 0 0#8).toNat + (s.getD 1 0#8).toNat * 2 ^ 8

def swap16 (x : ℕ) : ℕ := x % 2 ^ 8 * 2 ^ 8 + x / 2 ^ 8 % 2 ^ 8

/-- Bytes that are stored from `in_data.data() + pos` on, all of them inside of the vector. -/
def storeAt (inData : List Byte) (pos : ℕ) (src : List Byte) : Option (List Byte) :=
  if pos + src.length ≤ inData.length then some (inData.take pos ++ src ++ inData.drop (pos + src.length)) else none

/-- How a round of the loop ends: with the next one, behind the loop, or with a null pointer that is returned. -/
inductive Round
  | next (inData temp : List Byte) (offset : ℕ)
  | leave (inData temp : List Byte)
  | fail
deriving DecidableEq

def rleRecord (ips : VfsFile) (inData temp : List Byte) (realOffset offset : ℕ) : Option Round :=
  (ips.read 2 offset).bind fun s =>
    if s.length ≠ 2 then some .fail
    else
      let rleSize := swap16 (loadU16 s)
      (ips.read 1 (offset + 2)).bind fun
        | [data] =>
            let rleSize :=
              if (realOffset + rleSize) % 2 ^ 32 > inData.length then (inData.length - realOffset) % 2 ^ 16 else rleSize
            (storeAt inData realOffset (List.replicate rleSize data)).map fun inData => .next inData temp (offset + 2 + 1)
        | _ => some .fail

def dataRecord (ips : VfsFile) (inData temp : List Byte) (realOffset dataSize offset : ℕ) : Option Round :=
  let read := if (realOffset + dataSize) % 2 ^ 32 > inData.length then (inData.length - realOffset) % 2 ^ 16 else dataSize
  (ips.read read offset).bind fun bytes =>
    (storeAt inData realOffset bytes).map fun inData =>
      if bytes.length ≠ dataSize then .fail else .next inData temp (offset + dataSize)

/-- A round of the loop, its condition included. -/
def round (ips : VfsFile) (type : IPSFileType) (inData temp : List Byte) (offset : ℕ) : Option Round :=
  (ips.read temp.length offset).bind fun t =>
    if t.length ≠ temp.length then some (.leave inData (t ++ temp.drop t.length))
    else
      let temp := t
      let offset := offset + temp.length
      if isEOF type temp then some (.leave inData temp)
      else if realOffset type temp > inData.length then some .fail
      else
        (ips.read 2 offset).bind fun s =>
          if s.length ≠ 2 then some .fail
          else
            let dataSize := swap16 (loadU16 s)
            if dataSize = 0 then rleRecord ips inData temp (realOffset type temp) (offset + 2)
            else dataRecord ips inData temp (realOffset type temp) dataSize (offset + 2)

def patchLoop (ips : VfsFile) (type : IPSFileType) : (fuel : ℕ) → (inData temp : List Byte) → (offset : ℕ) →
    Option (Option (List Byte))
  | 0, _, _, _ => none
  | fuel + 1, inData, temp, offset =>
      (round ips type inData temp offset).bind fun
        | .next inData temp offset => patchLoop ips type fuel inData temp offset
        | .leave inData temp => some (if isEOF type temp then some inData else none)
        | .fail => some none

/-- `PatchIPS`: the bytes of the file that it returns.  A round takes at least one byte of the patch. -/
def patchIPS (file ips : VfsFile) : Option (Option (List Byte)) :=
  (ips.read 5 0).bind fun magic =>
    let type := identifyMagic magic
    if type = .Error then some none
    else
      (file.read file.getSize 0).bind fun inData =>
        if inData.length = 0 then some none
        else patchLoop ips type (ips.getSize + 1) inData (List.replicate (tempSize type) 0#8) 5

/-! ## What a patch means -/

/-- A record of a patch: bytes, or one byte several times. -/
inductive Record
  | data (offset : ℕ) (bytes : List Byte)
  | rle (offset length : ℕ) (value : Byte)
deriving DecidableEq

namespace Record

def offset : Record → ℕ
  | .data offset _ => offset
  | .rle offset _ _ => offset

def bytes : Record → List Byte
  | .data _ bytes => bytes
  | .rle _ length value => List.replicate length value

/-- The input with the record applied: what would fall beyond its end is dropped. -/
def apply (r : Record) (input : List Byte) : List Byte :=
  input.mapIdx fun i b => if r.offset ≤ i then (r.bytes[i - r.offset]?).getD b else b

/-- The record lies up to the end of an input of this size. -/
def Fits (r : Record) (size : ℕ) : Prop := r.offset + r.bytes.length ≤ size

def IsData : Record → Prop
  | .data _ _ => True
  | .rle _ _ _ => False

end Record

/-- `v` in `n` bytes, the highest first. -/
def bigEndian : (n v : ℕ) → List Byte
  | 0, _ => []
  | n + 1, v => bigEndian n (v / 2 ^ 8) ++ [BitVec.ofNat 8 v]

def Record.encode (type : IPSFileType) : Record → List Byte
  | .data offset bytes => bigEndian (tempSize type) offset ++ (bigEndian 2 bytes.length ++ bytes)
  | .rle offset length value => bigEndian (tempSize type) offset ++ (bigEndian 2 0 ++ (bigEndian 2 length ++ [value]))

def endMarker (type : IPSFileType) : List Byte := if type = .IPS then eof else eeof

def magic (type : IPSFileType) : List Byte := if type = .IPS then patchMagic else ips32Magic

/-- A patch file: the magic, the records and the end marker. -/
def patchFile (type : IPSFileType) (records : List Record) : List Byte :=
  magic type ++ (records.flatMap (Record.encode type) ++ endMarker type)

/-- A record that a format can express, with an offset inside of an input of this size or at its end. -/
structure Record.Valid (type : IPSFileType) (size : ℕ) (r : Record) : Prop where
  inside : r.offset ≤ size
  offset : r.offset < 2 ^ (8 * tempSize type)
  notEnd : bigEndian (tempSize type) r.offset ≠ endMarker type
  length : r.bytes.length < 2 ^ 16
  data : r.IsData → r.bytes ≠ []

/-- `PatchIPS` is right: it ends without a store outside of the input's copy, and the records of a patch file are applied. -/
structure PatchesRight (file ips : VfsFile) (input bytes : List Byte) : Prop where
  ends : patchIPS file ips ≠ none
  applies : ∀ type ≠ IPSFileType.Error, ∀ records : List Record, bytes = patchFile type records →
    (∀ r ∈ records, r.Valid type input.length) →
    patchIPS file ips = some (some (records.foldl (fun data r => r.apply data) input))

end Voltemu.FileSys.Ips
