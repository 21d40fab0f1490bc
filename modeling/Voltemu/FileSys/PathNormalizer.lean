import Mathlib.Data.BitVec

/-!
# Path normalisation

`StringTraits`, the predicates on path components and `PathNormalizer` of `fs_path_utility.h`.

* A string is the list of its bytes before the terminator.  A pointer into a string is a suffix of the list, and the byte
  behind its end is the terminator.
* `char` may be signed: a byte is then extended with its sign before it is used as an index, and a read outside of the
  character masks is `none`.
* The destination buffer has `maxOutSize` bytes.  The flags of a state say whether every write was inside of it and whether
  every `ASSERT` holds.
-/

namespace Voltemu.FileSys

abbrev Byte := BitVec 8

/-- The results that the functions below fail with. -/
inductive FsResult
  | invalidCharacter
  | invalidPathFormat
  | tooLongPath
  | directoryUnobtainable
deriving DecidableEq

/-! ## `StringTraits` -/

namespace StringTraits

def DirectorySeparator : Byte := 0x2F#8
def DriveSeparator : Byte := 0x3A#8
def Dot : Byte := 0x2E#8
def NullTerminator : Byte := 0x00#8
def AlternateDirectorySeparator : Byte := 0x5C#8

def InvalidCharacters : List Byte := [0x3A#8, 0x2A#8, 0x3F#8, 0x3C#8, 0x3E#8, 0x7C#8]

def makeInvalidCharacterMask (invalidCharacterSet : List Byte) (n : ℕ) : BitVec 64 :=
  invalidCharacterSet.foldl
    (fun mask c => if c.toNat >>> 6 = n then mask ||| (1#64 <<< (c.toNat % 0x40)) else mask) 0#64

def castU64 (charSigned : Bool) (c : Byte) : BitVec 64 := if charSigned then c.signExtend 64 else c.zeroExtend 64

/-- `IsInvalidCharacterImpl`, with `none` for a read outside of the masks. -/
def isInvalidCharacterImpl (charSigned : Bool) (invalidCharacterSet : List Byte) (c : Byte) : Option Bool :=
  let masks := (List.range 4).map (makeInvalidCharacterMask invalidCharacterSet)
  masks[((castU64 charSigned c).toNat >>> 6)]?.map fun mask =>
    (mask &&& (1#64 <<< ((castU64 charSigned c).toNat % 0x40))) != 0#64

def isInvalidCharacter (charSigned : Bool) (c : Byte) : Option Bool :=
  isInvalidCharacterImpl charSigned InvalidCharacters c

end StringTraits

open StringTraits

def charAt (path : List Byte) (i : ℕ) : Byte := path.getD i NullTerminator

def isCurrentDirectory (path : List Byte) : Bool :=
  charAt path 0 == Dot && (charAt path 1 == NullTerminator || charAt path 1 == DirectorySeparator)

def isParentDirectory (path : List Byte) : Bool :=
  charAt path 0 == Dot && charAt path 1 == Dot && (charAt path 2 == NullTerminator || charAt path 2 == DirectorySeparator)

namespace PathNormalizer

/-! ## `IsParentDirectoryPathReplacementNeeded` and `ReplaceParentDirectoryPath` -/

/-- The loop of `IsParentDirectoryPathReplacementNeeded`, which moves `path` on, with the check behind it. -/
def replacementNeededLoop : List Byte → Bool
  | c0 :: c1 :: c2 :: c3 :: rest =>
      if c1 ≠ Dot ∨ c2 ≠ Dot then replacementNeededLoop (c1 :: c2 :: c3 :: rest)
      else if c0 = AlternateDirectorySeparator ∧
          (c3 = DirectorySeparator ∨ c3 = AlternateDirectorySeparator ∨ c3 = NullTerminator) then true
      else if c3 = AlternateDirectorySeparator ∧ (c0 = DirectorySeparator ∨ c0 = AlternateDirectorySeparator) then true
      else replacementNeededLoop (c1 :: c2 :: c3 :: rest)
  | path => charAt path 0 == AlternateDirectorySeparator && charAt path 1 == Dot && charAt path 2 == Dot

def isParentDirectoryPathReplacementNeeded (path : List Byte) : Bool :=
  if charAt path 0 ≠ DirectorySeparator ∧ charAt path 0 ≠ AlternateDirectorySeparator then false
  else if charAt path 0 ≠ NullTerminator ∧ charAt path 1 ≠ NullTerminator ∧ charAt path 2 ≠ NullTerminator then
    replacementNeededLoop path
  else false

/-- The loop of `ReplaceParentDirectoryPath`, at the byte behind `prev`.  The result starts with `dst[i - 1]`, which is
`cur` unless it is overwritten. -/
def replaceParentDirectoryLoop (cur prev : Byte) : List Byte → List Byte
  | c0 :: c1 :: c2 :: rest =>
      if (prev = DirectorySeparator ∨ prev = AlternateDirectorySeparator) ∧ c0 = Dot ∧ c1 = Dot ∧
          (c2 = DirectorySeparator ∨ c2 = AlternateDirectorySeparator) then
        DirectorySeparator :: Dot :: Dot :: replaceParentDirectoryLoop DirectorySeparator c2 rest
      else cur :: replaceParentDirectoryLoop c0 c0 (c1 :: c2 :: rest)
  | [c0, c1] =>
      if prev = AlternateDirectorySeparator ∧ c0 = Dot ∧ c1 = Dot then [DirectorySeparator, Dot, Dot]
      else [cur, c0, c1]
  | [c0] => [cur, c0]
  | [] => [cur]

/-- `ReplaceParentDirectoryPath`: the string in the replacement buffer. -/
def replaceParentDirectoryPath (src : List Byte) : List Byte :=
  replaceParentDirectoryLoop DirectorySeparator (charAt src 0) src.tail

/-! ## `IsNormalized` -/

inductive PathState
  | start
  | normal
  | firstSeparator
  | separator
  | currentDir
  | parentDir
deriving DecidableEq

/-- The state after a byte, or the verdict that the path is not normalised. -/
def PathState.next (state : PathState) (c : Byte) : Except FsResult (Option PathState) :=
  match state with
  | .start => if c = DirectorySeparator then .ok (some .firstSeparator) else .error .invalidPathFormat
  | .normal => if c = DirectorySeparator then .ok (some .separator) else .ok (some .normal)
  | .firstSeparator =>
      if c = DirectorySeparator then .ok none else if c = Dot then .ok (some .currentDir) else .ok (some .normal)
  | .separator =>
      if c = DirectorySeparator then .ok none else if c = Dot then .ok (some .currentDir) else .ok (some .normal)
  | .currentDir =>
      if c = DirectorySeparator then .ok none else if c = Dot then .ok (some .parentDir) else .ok (some .normal)
  | .parentDir => if c = DirectorySeparator then .ok none else .ok (some .normal)

def PathState.verdict : PathState → Except FsResult Bool
  | .start => .error .invalidPathFormat
  | .normal => .ok true
  | .firstSeparator => .ok true
  | .separator => .ok false
  | .currentDir => .ok false
  | .parentDir => .ok false

/-- `R_UNLESS(!IsInvalidCharacter(c), ResultInvalidCharacter)`. -/
def checkCharacter (charSigned allowAllCharacters : Bool) (c : Byte) : Option (Except FsResult Unit) :=
  if allowAllCharacters then some (.ok ())
  else (isInvalidCharacter charSigned c).map fun invalid => if invalid then .error .invalidCharacter else .ok ()

/-- `IsNormalized`, from a state on.  The result has no length if the loop was left early. -/
def isNormalizedFrom (charSigned allowAllCharacters : Bool) :
    (state : PathState) → (len : ℕ) → List Byte → Option (Except FsResult (Bool × Option ℕ))
  | state, len, [] => some (state.verdict.map fun normalized => (normalized, some len))
  | state, len, c :: rest =>
      (checkCharacter charSigned (allowAllCharacters || state == .start) c).bind fun
        | .error e => some (.error e)
        | .ok () =>
            match state.next c with
            | .error e => some (.error e)
            | .ok none => some (.ok (false, none))
            | .ok (some state) => isNormalizedFrom charSigned allowAllCharacters state (len + 1) rest

def isNormalized (charSigned allowAllCharacters : Bool) (path : List Byte) : Option (Except FsResult (Bool × Option ℕ)) :=
  isNormalizedFrom charSigned allowAllCharacters .start 0 path

/-! ## `Normalize` -/

/-- The destination of `Normalize`, with its tracking variables. -/
structure NormalizeState where
  dst : ℕ → Byte
  totalLen : ℕ
  skipNextSep : Bool
  inBounds : Bool
  asserts : Bool

namespace NormalizeState

variable (maxOutSize : ℕ) (s : NormalizeState)

def store (i : ℕ) (c : Byte) : NormalizeState :=
  { s with dst := Function.update s.dst i c, inBounds := s.inBounds && decide (i < maxOutSize) }

def push (c : Byte) : NormalizeState := { s.store maxOutSize s.totalLen c with totalLen := s.totalLen + 1 }

def pushAll (cs : List Byte) : NormalizeState := cs.foldl (fun s c => s.push maxOutSize c) s

/-- `ASSERT`. -/
def check (b : Bool) : NormalizeState := { s with asserts := s.asserts && b }

end NormalizeState

structure NormalizeOutput where
  state : NormalizeState
  result : Except FsResult Unit

def previousSeparator (dst : ℕ → Byte) : ℕ → ℕ
  | 0 => 0
  | totalLen + 1 => if dst (totalLen + 1) = DirectorySeparator then totalLen + 1 else previousSeparator dst totalLen

/-- The separators before a component.  `none` is the end of the string. -/
def handleSeparators (maxOutSize : ℕ) (rest : List Byte) (s : NormalizeState) :
    Option (List Byte × NormalizeState × Except FsResult Unit) :=
  if charAt rest 0 = DirectorySeparator then
    match rest.dropWhile (· == DirectorySeparator) with
    | [] => none
    | c :: rest =>
        if s.skipNextSep then some (c :: rest, { s with skipNextSep := false }, .ok ())
        else if s.totalLen + 1 = maxOutSize then
          some (c :: rest, s.store maxOutSize s.totalLen NullTerminator, .error .tooLongPath)
        else some (c :: rest, { s.push maxOutSize DirectorySeparator with skipNextSep := false }, .ok ())
  else some (rest, s, .ok ())

/-- The length of the current component, whose bytes are checked. -/
def componentLength (charSigned allowAllCharacters : Bool) : List Byte → Option (Except FsResult ℕ)
  | [] => some (.ok 0)
  | c :: rest =>
      if c = DirectorySeparator then some (.ok 0)
      else
        (checkCharacter charSigned allowAllCharacters c).bind fun
          | .error e => some (.error e)
          | .ok () => (componentLength charSigned allowAllCharacters rest).map fun len => len.map (· + 1)

def handleParentDirectory (maxOutSize : ℕ) (isWindowsPath : Bool) (s : NormalizeState) : NormalizeOutput :=
  let s := s.check (s.dst (s.totalLen - 1) == DirectorySeparator)
  let s := s.check (isWindowsPath || s.dst 0 == DirectorySeparator)
  if s.totalLen = 1 ∧ isWindowsPath = false then ⟨s, .error .directoryUnobtainable⟩
  else
    let s := { s with totalLen := if s.totalLen = 1 then 0 else previousSeparator s.dst (s.totalLen - 2) }
    let s := s.check (isWindowsPath || s.dst s.totalLen == DirectorySeparator)
    ⟨s.check (decide (s.totalLen < maxOutSize)), .ok ()⟩

def handleComponent (maxOutSize : ℕ) (component : List Byte) (s : NormalizeState) : NormalizeOutput :=
  if s.totalLen + component.length + 1 > maxOutSize then
    let s := s.pushAll maxOutSize (component.take (maxOutSize - (s.totalLen + 1)))
    ⟨s.store maxOutSize s.totalLen NullTerminator, .error .tooLongPath⟩
  else ⟨s.pushAll maxOutSize component, .ok ()⟩

/-- The loop over the components.  Every iteration goes on by a byte at least, so that `fuel` counts bytes. -/
def normalizeLoop (charSigned allowAllCharacters isWindowsPath : Bool) (maxOutSize : ℕ) :
    (fuel : ℕ) → List Byte → NormalizeState → Option NormalizeOutput
  | 0, _, s => some ⟨s, .ok ()⟩
  | _ + 1, [], s => some ⟨s, .ok ()⟩
  | fuel + 1, rest, s =>
      match handleSeparators maxOutSize rest s with
      | none => some ⟨s, .ok ()⟩
      | some (_, s, .error e) => some ⟨s, .error e⟩
      | some (rest, s, .ok ()) =>
          (componentLength charSigned allowAllCharacters rest).bind fun
            | .error e => some ⟨s, .error e⟩
            | .ok dirLen =>
                let out : NormalizeOutput :=
                  if isCurrentDirectory rest then ⟨{ s with skipNextSep := true }, .ok ()⟩
                  else if isParentDirectory rest then handleParentDirectory maxOutSize isWindowsPath s
                  else handleComponent maxOutSize (rest.take dirLen) s
                match out.result with
                | .error e => some ⟨out.state, .error e⟩
                | .ok () =>
                    normalizeLoop charSigned allowAllCharacters isWindowsPath maxOutSize fuel (rest.drop dirLen) out.state

def NormalizeState.output (s : NormalizeState) : List Byte := (List.range s.totalLen).map s.dst

/-- The end of `Normalize`: the terminator, and the check of the result. -/
def finishNormalize (charSigned allowAllCharacters : Bool) (maxOutSize : ℕ) (s : NormalizeState) :
    Option NormalizeOutput :=
  let s := if s.skipNextSep then { s with totalLen := s.totalLen - 1 } else s
  let s := if s.totalLen = 0 ∧ maxOutSize ≠ 0 then { s.store maxOutSize 0 DirectorySeparator with totalLen := 1 } else s
  if ¬ s.totalLen - 1 ≤ maxOutSize then some ⟨s, .error .tooLongPath⟩
  else
    let s := s.store maxOutSize s.totalLen NullTerminator
    (isNormalized charSigned allowAllCharacters s.output).map fun
      | .error e => ⟨s, .error e⟩
      | .ok (normalized, _) => ⟨s.check normalized, .ok ()⟩

/-- The path with its parent directories replaced, if that is needed. -/
def replacedPath (path : List Byte) : List Byte :=
  if isParentDirectoryPathReplacementNeeded path then replaceParentDirectoryPath path else path

def normalize (charSigned : Bool) (dst : ℕ → Byte) (path : List Byte) (maxOutSize : ℕ)
    (isWindowsPath isDriveRelativePath allowAllCharacters : Bool) : Option NormalizeOutput :=
  let s : NormalizeState := ⟨dst, 0, false, true, true⟩
  if charAt path 0 ≠ DirectorySeparator ∧ isDriveRelativePath = false then some ⟨s, .error .invalidPathFormat⟩
  else
    let s := if charAt path 0 ≠ DirectorySeparator then s.push maxOutSize DirectorySeparator else s
    let curPath := replacedPath path
    (normalizeLoop charSigned allowAllCharacters isWindowsPath maxOutSize (curPath.length + 1) curPath s).bind fun out =>
      match out.result with
      | .error e => some ⟨out.state, .error e⟩
      | .ok () => finishNormalize charSigned allowAllCharacters maxOutSize out.state

end PathNormalizer

end Voltemu.FileSys
