import Voltemu.FileSys.BucketTree

/-!
# Paths

`Path` of `fs_path.h`, as far as it is changed, and `Strlcpy` of `fs_string_util.h`.

* A cell of memory is a byte, or nothing while it is uninitialised.  A path is a read-only string, which it does not own, or
  has a write buffer, which `m_str` then points to.
* A function gives nothing if it does not return or if its behaviour is undefined: it reads an uninitialised byte or a null
  pointer, or accesses memory outside of a buffer.
* Allocations succeed.  Strings that are passed in are not null, and paths that are passed in are other objects.
-/

namespace Voltemu.FileSys

open StringTraits

abbrev Cell := Option Byte

def cString : List Cell → Option (List Byte)
  | [] => none
  | none :: _ => none
  | some c :: cells => if c = NullTerminator then some [] else (cString cells).map (c :: ·)

def terminated (s : List Byte) : List Cell := s.map some ++ [some NullTerminator]

def strlen (cells : List Cell) : Option ℕ := (cString cells).map List.length

def storeAt (dst : List Cell) (i : ℕ) (c : Byte) : Option (List Cell) :=
  if i < dst.length then some (dst.set i (some c)) else none

/-! ## `Strlcpy` -/

/-- Which declarations the call of an overload in the body of another one finds: the ones before the body, or all. -/
inductive Lookup
  | atDefinition
  | atInstantiation
deriving DecidableEq

/-- The loop that copies, for at most `n` bytes, and the terminator. -/
def strlcpyLoop : (n : ℕ) → (dst src : List Cell) → Option (List Cell)
  | 0, _ :: dst, _ => some (some NullTerminator :: dst)
  | n + 1, _ :: dst, some c :: src =>
      if c = NullTerminator then some (some NullTerminator :: dst) else (strlcpyLoop n dst src).map (some c :: ·)
  | _, _, _ => none

/-- What `Strlcpy` copies with a count that is an `int`. -/
def strlcpyCopy (dst src : List Cell) (count : ℤ) : Option (List Cell) :=
  if count > 0 then strlcpyLoop (count.toNat - 1) dst src else some dst

/-- `Strlcpy` with a count that is an `int`. -/
def strlcpyInt (dst src : List Cell) (count : ℤ) : Option (List Cell × ℤ) :=
  (strlcpyCopy dst src count).bind fun dst => (strlen src).map fun length => (dst, toS32 length)

/-- `Strlcpy` with a count that is a `std::size_t`.  The overload for `int` is declared behind it: a lookup at the definition
finds the function itself, which then calls itself for ever. -/
def strlcpy (lookup : Lookup) (dst src : List Cell) (count : ℕ) : Option (List Cell × ℤ) :=
  match lookup with
  | .atDefinition => none
  | .atInstantiation => strlcpyInt dst src (toS32 count)

/-- `Strlcpy` from a buffer to itself, which reads what it has stored when it looks for the end. -/
def strlcpySelf (lookup : Lookup) (buffer : List Cell) (count : ℕ) : Option (List Cell) :=
  match lookup with
  | .atDefinition => none
  | .atInstantiation =>
      (strlcpyCopy buffer buffer (toS32 count)).bind fun dst => (strlen dst).map fun _ => dst

def toSizeT (x : ℤ) : ℕ := (x % 2 ^ 64).toNat

/-! ## `Path` -/

inductive PathBuffer
  | readOnly (str : List Byte)
  | writable (buffer : List Cell)
deriving DecidableEq

/-- `Path`, with whether it is normalised. -/
structure Path where
  buffer : PathBuffer
  normalized : Bool
deriving DecidableEq

/-- The results that the functions below fail with. -/
inductive PathError
  | notNormalized
  | unexpectedInPathA
  | notImplemented
deriving DecidableEq

/-- What a function of a path returns, with the path. -/
abbrev PathResult := Option (Except PathError Unit × Path)

namespace Path

def WriteBufferAlignmentLength : ℕ := 8

def alignUp (value size : ℕ) : ℕ := if value % size = 0 then value else value - value % size + size

variable (p : Path)

/-- The memory that `m_str` points to. -/
def str : List Cell :=
  match p.buffer with
  | .readOnly str => terminated str
  | .writable buffer => buffer

def writeBufferLength : ℕ :=
  match p.buffer with
  | .readOnly _ => 0
  | .writable buffer => buffer.length

def string : Option (List Byte) := cString p.str

def clearBuffer : Path := { p with buffer := .readOnly [] }

/-- `Preallocate`.  New memory is uninitialised. -/
def preallocate (length : ℕ) : Path :=
  if length > p.writeBufferLength then
    { p with buffer := .writable (List.replicate (alignUp length WriteBufferAlignmentLength) none) }
  else p

/-- A string that is copied to the write buffer from an index on: the path, and what `Strlcpy` returns. -/
def copyTo (lookup : Lookup) (at' : ℕ) (src : List Cell) (count : ℕ) : Option (Path × ℕ) :=
  match p.buffer with
  | .readOnly _ => none
  | .writable buffer =>
      (strlcpy lookup (buffer.drop at') src count).map fun (dst, copied) =>
        ({ p with buffer := .writable (buffer.take at' ++ dst) }, toSizeT copied)

def initializeImpl (lookup : Lookup) (path : List Byte) (size : ℕ) : PathResult :=
  if size > 0 ∧ charAt path 0 ≠ NullTerminator then
    ((p.preallocate (size + 1)).copyTo lookup 0 (terminated path) (size + 1)).map fun (p, copied) =>
      if copied ≥ size then (.ok (), p) else (.error .unexpectedInPathA, p)
  else some (.ok (), p.clearBuffer)

def initializeString (lookup : Lookup) (path : List Byte) : PathResult :=
  (p.initializeImpl lookup path path.length).map fun (result, p) =>
    match result with
    | .error e => (.error e, p)
    | .ok () => (.ok (), { p with normalized := false })

def initializePath (lookup : Lookup) (rhs : Path) : PathResult :=
  if rhs.normalized = false then some (.error .notNormalized, p)
  else
    (strlen rhs.str).bind fun len =>
      ((p.preallocate (len + 1)).copyTo lookup 0 rhs.str (len + 1)).map fun (p, copied) =>
        if copied = len then (.ok (), { p with normalized := true }) else (.error .unexpectedInPathA, p)

/-! ## `AppendChild` -/

def isSeparator (c : Byte) : Bool := c == DirectorySeparator || c == AlternateDirectorySeparator

/-- The part of `AppendChild` that copies: the new buffer, with the old string if there was a write buffer, a separator and
the child. -/
def appendParts (lookup : Lookup) (curLen : ℕ) (c : List Byte) : PathResult :=
  let new := p.clearBuffer.preallocate (curLen + 1 + c.length + 1)
  let copied : Option Path :=
    match p.buffer with
    | .readOnly _ => some new
    | .writable old => if curLen > 0 then (new.copyTo lookup 0 old (curLen + 1)).map Prod.fst else some new
  copied.bind fun q =>
    (storeAt q.str curLen DirectorySeparator).bind fun dst =>
      (({ q with buffer := .writable dst } : Path).copyTo lookup (curLen + 1) (terminated c) (c.length + 1)).map
        fun (q, copied) => if copied = c.length then (.ok (), q) else (.error .unexpectedInPathA, q)

def appendChild (lookup : Lookup) (child : List Byte) : PathResult :=
  p.str.head?.join.bind fun first =>
    let c := if first ≠ NullTerminator ∧ charAt child 0 = DirectorySeparator then child.tail else child
    if first ≠ NullTerminator ∧ charAt c 0 = NullTerminator then some (.ok (), p)
    else
      (cString p.str).bind fun s =>
        if s.length = 0 then p.initializeString lookup child
        else
          let curLen := if isSeparator (charAt s (s.length - 1)) then s.length - 1 else s.length
          p.appendParts lookup curLen c

def appendChildPath (lookup : Lookup) (rhs : Path) : PathResult := (cString rhs.str).bind (p.appendChild lookup)

/-! ## `Combine` -/

def combine (lookup : Lookup) (parent child : Path) : PathResult :=
  (strlen parent.str).bind fun pLen => (strlen child.str).bind fun cLen =>
    ((p.preallocate (pLen + cLen + 1)).initializePath lookup parent).bind fun (result, p) =>
      match result with
      | .error e => some (.error e, p)
      | .ok () =>
          p.str.head?.join.bind fun first =>
            if first = NullTerminator then p.initializePath lookup child else p.appendChildPath lookup child

/-! ## `RemoveChild` -/

/-- The loop of `RemoveChild`, before `len` is decremented: `len` behind it, and the buffer. -/
def removeLoop (buffer : List Cell) : (len : ℕ) → Option (ℤ × List Cell)
  | 0 => some (-1, buffer)
  | len + 1 =>
      buffer[len]?.join.bind fun c =>
        if c = NullTerminator then some (len, buffer)
        else if isSeparator c then
          if len > 0 then (storeAt buffer len NullTerminator).map fun buffer => ((len : ℤ), buffer)
          else (storeAt buffer 1 NullTerminator).map fun buffer => (1, buffer)
        else removeLoop buffer len

/-- `RemoveChild`, once there is a write buffer. -/
def removeFrom (buffer : List Cell) : PathResult :=
  (cString buffer).bind fun s =>
    let len := toS32 s.length
    if len = 1 ∧ (charAt s 0 = DirectorySeparator ∨ charAt s 0 = Dot) then
      some (.error .notImplemented, { p with buffer := .writable buffer })
    else
      let len := if len > 0 ∧ isSeparator (charAt s (len.toNat - 1)) = true then len - 1 else len
      -- The smallest `s32` cannot be decremented.
      if len = -2 ^ 31 then none
      else
        (removeLoop buffer len.toNat).map fun (behind, buffer) =>
          if behind > 0 then (.ok (), { p with buffer := .writable buffer })
          else (.error .notImplemented, { p with buffer := .writable buffer })

def removeChild (lookup : Lookup) : PathResult :=
  match p.buffer with
  | .writable buffer => p.removeFrom buffer
  | .readOnly _ =>
      (strlen p.str).bind fun len =>
        -- Without a string the write buffer stays a null pointer.
        if len = 0 then none
        else
          -- `m_str` is the new buffer when it is copied from.
          (strlcpySelf lookup (p.preallocate len).str (len + 1)).bind p.removeFrom

end Path

end Voltemu.FileSys
