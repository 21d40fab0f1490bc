import Mathlib.Data.List.GetD
import Voltemu.FileSys.PathNormalizer

/-!
# UTF-8 strings

`CharacterEncodingHelper`, `ConvertCharacterUtf8ToUtf32` and `PickOutCharacterFromUtf8String` of `fs_string_util.h`, and
`CheckUtf8` of `fs_path_utility.h`.

* A pointer into a string is the list of the bytes from there on, its terminator included.  A read behind the terminator and
  a read outside of the length table are `none`.
* `char` may be signed.  `PickOutCharacterFromUtf8String` widens its first byte to a `u32` without making it unsigned first,
  and uses the result as an index.
* A string is well formed if it is the concatenation of the encodings of characters, which `String.utf8EncodeChar` defines.

With an unsigned `char`, `CheckUtf8` decides well-formedness (`checkLoop_spec`).  With a signed one the first byte above 127
that the loop arrives at is looked up 4 GiB behind the table.  `checkUtf8_decides` has both.
-/

namespace Voltemu.FileSys

open StringTraits List Option Nat

inductive CharacterEncodingResult
  | success
  | insufficientLength
  | invalidFormat
deriving DecidableEq

namespace CharacterEncodingHelper

def Utf8NBytesInnerTable : List ℤ :=
  [-1] ++ replicate 128 1 ++ replicate 64 0 ++ replicate 32 2 ++ replicate 16 3 ++
    replicate 8 4 ++ replicate 4 5 ++ replicate 2 6 ++ [7, 8]

/-- `GetUtf8NBytes`, with `none` for an index outside of the table. -/
def getUtf8NBytes (i : ℕ) : Option ℤ := Utf8NBytesInnerTable[1 + i]?

end CharacterEncodingHelper

open CharacterEncodingHelper

def castU32 (charSigned : Bool) (c : Byte) : BitVec 32 := if charSigned then c.signExtend 32 else c.zeroExtend 32

/-- `GetUtf8NBytes(static_cast<unsigned char>(p[i])) == 0`. -/
def isTail (p : List Byte) (i : ℕ) : Option Bool := do
  let b ← p[i]?
  let n ← getUtf8NBytes b.toNat
  some (n == 0)

/-- `a && b`: behind a false `a` nothing is read. -/
def andAlso (a b : Option Bool) : Option Bool := a.bind fun x => if x then b else some false

/-- `(static_cast<u32>(p[0] & 0x1F) << 6) | …`. -/
def assemble2 (b0 b1 : BitVec 32) : BitVec 32 := (b0 &&& 0x1F#32) <<< 6 ||| (b1 &&& 0x3F#32) <<< 0

def assemble3 (b0 b1 b2 : BitVec 32) : BitVec 32 :=
  (b0 &&& 0xF#32) <<< 12 ||| (b1 &&& 0x3F#32) <<< 6 ||| (b2 &&& 0x3F#32) <<< 0

def assemble4 (b0 b1 b2 b3 : BitVec 32) : BitVec 32 :=
  (b0 &&& 0x7#32) <<< 18 ||| (b1 &&& 0x3F#32) <<< 12 ||| (b2 &&& 0x3F#32) <<< 6 ||| (b3 &&& 0x3F#32) <<< 0

/-- `ConvertCharacterUtf8ToUtf32`: the character, or the result that the function fails with. -/
def convertCharacterUtf8ToUtf32 (charSigned : Bool) (src : List Byte) :
    Option (Except CharacterEncodingResult (BitVec 32)) := do
  let p0 ← src[0]?
  let n ← getUtf8NBytes p0.toNat
  if n = 1 then some (.ok (castU32 charSigned p0))
  else if n = 2 then
    if castU32 charSigned p0 &&& 0x1E#32 ≠ 0 then
      if ← isTail src 1 then
        let p1 ← src[1]?
        some (.ok (assemble2 (castU32 charSigned p0) (castU32 charSigned p1)))
      else some (.error .invalidFormat)
    else some (.error .invalidFormat)
  else if n = 3 then
    if ← andAlso (isTail src 1) (isTail src 2) then
      let p1 ← src[1]?
      let p2 ← src[2]?
      let c := assemble3 (castU32 charSigned p0) (castU32 charSigned p1) (castU32 charSigned p2)
      if c &&& 0xF800#32 ≠ 0 ∧ c &&& 0xF800#32 ≠ 0xD800#32 then some (.ok c) else some (.error .invalidFormat)
    else some (.error .invalidFormat)
  else if n = 4 then
    if ← andAlso (andAlso (isTail src 1) (isTail src 2)) (isTail src 3) then
      let p1 ← src[1]?
      let p2 ← src[2]?
      let p3 ← src[3]?
      let c := assemble4 (castU32 charSigned p0) (castU32 charSigned p1) (castU32 charSigned p2) (castU32 charSigned p3)
      if 0x10000#32 ≤ c ∧ c < 0x110000#32 then some (.ok c) else some (.error .invalidFormat)
    else some (.error .invalidFormat)
  else some (.error .invalidFormat)

/-- `PickOutCharacterFromUtf8String`: `dst` and the moved pointer, or the result that the function fails with. -/
def pickOutCharacterFromUtf8String (charSigned : Bool) (p : List Byte) :
    Option (Except CharacterEncodingResult (List Byte × List Byte)) := do
  let p0 ← p[0]?
  let n ← getUtf8NBytes (castU32 charSigned p0).toNat
  if n = 1 then some (.ok ([p0, 0#8, 0#8, 0#8], p.drop 1))
  else if n = 2 then
    if castU32 charSigned p0 &&& 0x1E#32 ≠ 0 then
      if ← isTail p 1 then
        let p1 ← p[1]?
        some (.ok ([p0, p1, 0#8, 0#8], p.drop 2))
      else some (.error .invalidFormat)
    else some (.error .invalidFormat)
  else if n = 3 then
    if ← andAlso (isTail p 1) (isTail p 2) then
      let p1 ← p[1]?
      let p2 ← p[2]?
      let c := assemble3 (castU32 charSigned p0) (castU32 charSigned p1) (castU32 charSigned p2)
      if c &&& 0xF800#32 ≠ 0 ∧ c &&& 0xF800#32 ≠ 0xD800#32 then some (.ok ([p0, p1, p2, 0#8], p.drop 3))
      else some (.error .invalidFormat)
    else some (.error .invalidFormat)
  else if n = 4 then
    if ← andAlso (andAlso (isTail p 1) (isTail p 2)) (isTail p 3) then
      let p1 ← p[1]?
      let p2 ← p[2]?
      let p3 ← p[3]?
      let c := assemble4 (castU32 charSigned p0) (castU32 charSigned p1) (castU32 charSigned p2) (castU32 charSigned p3)
      if 0x10000#32 ≤ c ∧ c < 0x110000#32 then some (.ok ([p0, p1, p2, p3], p.drop 4))
      else some (.error .invalidFormat)
    else some (.error .invalidFormat)
  else some (.error .invalidFormat)

/-- The loop of `CheckUtf8`.  Every round moves the pointer, so that as many rounds as the string has bytes are enough. -/
def checkUtf8Loop (charSigned : Bool) : (fuel : ℕ) → (s : List Byte) → Option (Except FsResult Unit)
  | 0, _ => none
  | fuel + 1, s => do
      let c ← s[0]?
      if c = NullTerminator then some (.ok ())
      else
        match ← pickOutCharacterFromUtf8String charSigned s with
        | .error _ => some (.error .invalidPathFormat)
        | .ok (utf8Buf, s') =>
            match ← convertCharacterUtf8ToUtf32 charSigned utf8Buf with
            | .error _ => some (.error .invalidPathFormat)
            | .ok _ => checkUtf8Loop charSigned fuel s'

def checkUtf8 (charSigned : Bool) (s : List Byte) : Option (Except FsResult Unit) := checkUtf8Loop charSigned s.length s

/-! ## Well-formed strings -/

def encoding (c : Char) : List Byte := (String.utf8EncodeChar c).map UInt8.toBitVec

def WellFormed (s : List Byte) : Prop := ∃ cs : List Char, s = cs.flatMap encoding

/-- `CheckUtf8` gives the right verdict about `s`, without a read outside of the table or behind the terminator. -/
def Decides (charSigned : Bool) (s : List Byte) : Prop :=
  (checkUtf8 charSigned (s ++ [NullTerminator]) = some (.ok ()) ∧ WellFormed s) ∨
    (checkUtf8 charSigned (s ++ [NullTerminator]) = some (.error .invalidPathFormat) ∧ ¬ WellFormed s)

/-! ## The bytes of one character -/

def Tail (b : Byte) : Prop := 0x80 ≤ b.toNat ∧ b.toNat < 0xC0

instance (b : Byte) : Decidable (Tail b) := inferInstanceAs (Decidable (_ ∧ _))

/-- The three bytes of a character from `0x800` on that is no surrogate. -/
def Code3 (b0 b1 b2 : Byte) : Prop :=
  let c := b0.toNat % 16 * 4096 + b1.toNat % 64 * 64 + b2.toNat % 64
  0x800 ≤ c ∧ (c < 0xD800 ∨ 0xE000 ≤ c)

def Code4 (b0 b1 b2 b3 : Byte) : Prop :=
  let c := b0.toNat % 8 * 262144 + b1.toNat % 64 * 4096 + b2.toNat % 64 * 64 + b3.toNat % 64
  0x10000 ≤ c ∧ c < 0x110000

/-- The bytes of one character, described by their values. -/
inductive IsSequence : List Byte → Prop
  | one {b0} : b0.toNat < 0x80 → IsSequence [b0]
  | two {b0 b1} : 0xC2 ≤ b0.toNat → b0.toNat < 0xE0 → Tail b1 → IsSequence [b0, b1]
  | three {b0 b1 b2} : 0xE0 ≤ b0.toNat → b0.toNat < 0xF0 → Tail b1 → Tail b2 → Code3 b0 b1 b2 → IsSequence [b0, b1, b2]
  | four {b0 b1 b2 b3} : 0xF0 ≤ b0.toNat → b0.toNat < 0xF8 → Tail b1 → Tail b2 → Tail b3 → Code4 b0 b1 b2 b3 →
      IsSequence [b0, b1, b2, b3]

lemma byte_eq_iff {a b : Byte} : a = b ↔ a.toNat = b.toNat := BitVec.toNat_inj.symm

/-- Every character has such bytes. -/
lemma isSequence_encoding (c : Char) : IsSequence (encoding c) := by
  have hvalid : c.val.toNat < 0xD800 ∨ (0xDFFF < c.val.toNat ∧ c.val.toNat < 0x110000) := c.valid
  generalize hv : c.val.toNat = v at hvalid
  rw [encoding, String.utf8EncodeChar, hv]
  split_ifs with h1 h2 h3
  · exact .one (by simp; omega)
  · refine .two ?_ ?_ ?_ <;> simp [Tail] <;> omega
  · refine .three ?_ ?_ ?_ ?_ ?_ <;> simp [Tail, Code3] <;> omega
  · refine .four ?_ ?_ ?_ ?_ ?_ ?_ <;> simp [Tail, Code4] <;> omega

variable {b0 : Byte} {t : List Byte} {bs : List Byte} {i : ℕ} {s : List Byte}

/-- A character with a given value has the bytes that the value is split into. -/
lemma exists_encoding {v : ℕ} (hvalid : v < 0xD800 ∨ (0xDFFF < v ∧ v < 0x110000))
    (hbytes : ∀ c : Char, c.val.toNat = v → encoding c = bs) : ∃ c, encoding c = bs := by
  have hval : (UInt32.ofNat v).toNat = v := by
    rw [UInt32.toNat_ofNat']
    omega
  have hisValid : (UInt32.ofNat v).isValidChar := by
    rw [UInt32.isValidChar, hval]
    exact hvalid
  exact ⟨⟨UInt32.ofNat v, hisValid⟩, hbytes ⟨UInt32.ofNat v, hisValid⟩ hval⟩

lemma encoding_of_isSequence (h : IsSequence bs) : ∃ c, encoding c = bs := by
  cases h with
  | @one b0 h0 =>
    refine exists_encoding (.inl (show b0.toNat < 0xD800 by omega)) fun c hc => ?_
    simp [encoding, String.utf8EncodeChar, hc, show b0.toNat ≤ 127 by omega]
  | @two b0 b1 h0 h0' h1 =>
    obtain ⟨h1, h1'⟩ := h1
    refine exists_encoding (v := b0.toNat % 32 * 64 + b1.toNat % 64) (.inl (by omega)) fun c hc => ?_
    rw [encoding, String.utf8EncodeChar, hc, if_neg (by omega), if_pos (by omega)]
    simp [byte_eq_iff]
    omega
  | @three b0 b1 b2 h0 h0' h1 h2 hcode =>
    obtain ⟨h1, h1'⟩ := h1
    obtain ⟨h2, h2'⟩ := h2
    obtain ⟨hlow, hhigh⟩ := hcode
    refine exists_encoding (v := b0.toNat % 16 * 4096 + b1.toNat % 64 * 64 + b2.toNat % 64) (by omega) fun c hc => ?_
    rw [encoding, String.utf8EncodeChar, hc, if_neg (by omega), if_neg (by omega), if_pos (by omega)]
    simp [byte_eq_iff]
    omega
  | @four b0 b1 b2 b3 h0 h0' h1 h2 h3 hcode =>
    obtain ⟨h1, h1'⟩ := h1
    obtain ⟨h2, h2'⟩ := h2
    obtain ⟨h3, h3'⟩ := h3
    obtain ⟨v, hv⟩ : ∃ v, b0.toNat % 8 * 262144 + b1.toNat % 64 * 4096 + b2.toNat % 64 * 64 + b3.toNat % 64 = v := ⟨_, rfl⟩
    obtain ⟨hlow, hhigh⟩ : 0x10000 ≤ v ∧ v < 0x110000 := hv ▸ hcode
    have hdigit0 : v / 262144 = b0.toNat % 8 := by omega
    have hdigit1 : v / 4096 % 64 = b1.toNat % 64 := by omega
    have hdigit2 : v / 64 % 64 = b2.toNat % 64 := by omega
    have hdigit3 : v % 64 = b3.toNat % 64 := by omega
    clear hv hcode
    refine exists_encoding (v := v) (.inr ⟨by omega, hhigh⟩) fun c hc => ?_
    rw [encoding, String.utf8EncodeChar, hc, if_neg (by omega), if_neg (by omega), if_neg (by omega)]
    simp [byte_eq_iff]
    omega

/-! ## The two functions on the bytes of a character -/

/-- The length that the table gives for a byte with value `n`. -/
def tableLength (n : ℕ) : ℤ :=
  if n < 0x80 then 1 else if n < 0xC0 then 0 else if n < 0xE0 then 2 else if n < 0xF0 then 3
  else if n < 0xF8 then 4 else if n < 0xFC then 5 else if n < 0xFE then 6 else if n < 0xFF then 7 else 8

def leadLength (b : Byte) : ℤ := tableLength b.toNat

lemma getUtf8NBytes_byte (b : Byte) : getUtf8NBytes b.toNat = some (leadLength b) := by
  have htable : Utf8NBytesInnerTable = -1 :: (range 256).map tableLength := by decide +kernel
  rw [getUtf8NBytes, htable, Nat.add_comm, getElem?_cons_succ, getElem?_map, getElem?_range b.isLt, map_some, leadLength]

lemma castU32_unsigned_toNat (b : Byte) : (castU32 false b).toNat = b.toNat := by
  rw [castU32, if_neg Bool.false_ne_true, BitVec.zeroExtend]
  exact BitVec.toNat_setWidth_of_le (by decide)

lemma leadMask_iff (b : Byte) : castU32 false b &&& 0x1E#32 ≠ 0 ↔ 2 ≤ b.toNat % 32 := by
  have hnat : ∀ n < 256, n &&& 0x1E ≠ 0 ↔ 2 ≤ n % 32 := by decide +kernel
  rw [← hnat b.toNat b.isLt, Ne, BitVec.toNat_eq, BitVec.toNat_and, castU32_unsigned_toNat]
  rfl

lemma mask_toNat (b : Byte) {k : ℕ} {m : BitVec 32} (hm : m.toNat = 2 ^ k - 1) :
    (castU32 false b &&& m).toNat = b.toNat % 2 ^ k := by
  rw [BitVec.toNat_and, castU32_unsigned_toNat, hm, and_two_pow_sub_one_eq_mod]

lemma shiftLeft_or_toNat {x y : BitVec 32} (hx : x.toNat * 2 ^ i < 2 ^ 32) (hy : y.toNat < 2 ^ i) :
    (x <<< i ||| y).toNat = x.toNat * 2 ^ i + y.toNat := by
  rw [BitVec.toNat_or, BitVec.toNat_shiftLeft, shiftLeft_eq, mod_eq_of_lt hx, mul_comm, two_pow_add_eq_or_of_lt hy]

lemma assemble3_toNat (b0 b1 b2 : Byte) :
    (assemble3 (castU32 false b0) (castU32 false b1) (castU32 false b2)).toNat =
      b0.toNat % 16 * 4096 + b1.toNat % 64 * 64 + b2.toNat % 64 := by
  have h0 : (castU32 false b0 &&& 0xF#32).toNat = b0.toNat % 16 := mask_toNat (k := 4) b0 rfl
  have h1 : (castU32 false b1 &&& 0x3F#32).toNat = b1.toNat % 64 := mask_toNat (k := 6) b1 rfl
  have h2 : (castU32 false b2 &&& 0x3F#32).toNat = b2.toNat % 64 := mask_toNat (k := 6) b2 rfl
  have hlow : ((castU32 false b1 &&& 0x3F#32) <<< 6 ||| (castU32 false b2 &&& 0x3F#32) <<< 0).toNat =
      b1.toNat % 64 * 2 ^ 6 + b2.toNat % 64 := by
    rw [BitVec.shiftLeft_zero, shiftLeft_or_toNat (by omega) (by omega), h1, h2]
  rw [assemble3, BitVec.or_assoc, shiftLeft_or_toNat (by omega) (by omega), h0, hlow]
  omega

lemma assemble4_toNat (b0 b1 b2 b3 : Byte) :
    (assemble4 (castU32 false b0) (castU32 false b1) (castU32 false b2) (castU32 false b3)).toNat =
      b0.toNat % 8 * 262144 + b1.toNat % 64 * 4096 + b2.toNat % 64 * 64 + b3.toNat % 64 := by
  have h0 : (castU32 false b0 &&& 0x7#32).toNat = b0.toNat % 8 := mask_toNat (k := 3) b0 rfl
  have h1 : (castU32 false b1 &&& 0x3F#32).toNat = b1.toNat % 64 := mask_toNat (k := 6) b1 rfl
  have h2 : (castU32 false b2 &&& 0x3F#32).toNat = b2.toNat % 64 := mask_toNat (k := 6) b2 rfl
  have h3 : (castU32 false b3 &&& 0x3F#32).toNat = b3.toNat % 64 := mask_toNat (k := 6) b3 rfl
  have hlow : ((castU32 false b2 &&& 0x3F#32) <<< 6 ||| (castU32 false b3 &&& 0x3F#32) <<< 0).toNat =
      b2.toNat % 64 * 2 ^ 6 + b3.toNat % 64 := by
    rw [BitVec.shiftLeft_zero, shiftLeft_or_toNat (by omega) (by omega), h2, h3]
  have hmiddle : ((castU32 false b1 &&& 0x3F#32) <<< 12 |||
      ((castU32 false b2 &&& 0x3F#32) <<< 6 ||| (castU32 false b3 &&& 0x3F#32) <<< 0)).toNat =
      b1.toNat % 64 * 2 ^ 12 + (b2.toNat % 64 * 2 ^ 6 + b3.toNat % 64) := by
    rw [shiftLeft_or_toNat (by omega) (by omega), h1, hlow]
  rw [assemble4, BitVec.or_assoc, BitVec.or_assoc, shiftLeft_or_toNat (by omega) (by omega), h0, hmiddle]
  omega

lemma blockMask_toNat {c : BitVec 32} (hc : c.toNat < 2 ^ 16) : (c &&& 0xF800#32).toNat = c.toNat / 2 ^ 11 * 2 ^ 11 := by
  have hmask : (0xF800#32).toNat = (2 ^ 5 - 1) <<< 11 := rfl
  have hdiv : c.toNat / 2 ^ 11 < 2 ^ 5 := by omega
  rw [BitVec.toNat_and, hmask]
  calc c.toNat &&& (2 ^ 5 - 1) <<< 11
      = ((c.toNat >>> 11) &&& (2 ^ 5 - 1)) <<< 11 := by
        apply eq_of_testBit_eq
        intro i
        simp only [testBit_and, testBit_shiftLeft, testBit_shiftRight]
        by_cases hi : 11 ≤ i
        · simp [hi]
        · simp [hi]
    _ = c.toNat / 2 ^ 11 * 2 ^ 11 := by
        rw [and_two_pow_sub_one_eq_mod, shiftRight_eq_div_pow, mod_eq_of_lt hdiv, shiftLeft_eq]

lemma code3_iff (b0 b1 b2 : Byte) :
    let c := assemble3 (castU32 false b0) (castU32 false b1) (castU32 false b2)
    (c &&& 0xF800#32 ≠ 0 ∧ c &&& 0xF800#32 ≠ 0xD800#32) ↔ Code3 b0 b1 b2 := by
  intro c
  have hc : c.toNat = b0.toNat % 16 * 4096 + b1.toNat % 64 * 64 + b2.toNat % 64 := assemble3_toNat b0 b1 b2
  have hblock : (c &&& 0xF800#32).toNat = c.toNat / 2 ^ 11 * 2 ^ 11 := blockMask_toNat (by omega)
  rw [ne_eq, ne_eq, ← BitVec.toNat_inj, ← BitVec.toNat_inj, hblock, Code3]
  simp
  omega

lemma code4_iff (b0 b1 b2 b3 : Byte) :
    let c := assemble4 (castU32 false b0) (castU32 false b1) (castU32 false b2) (castU32 false b3)
    (0x10000#32 ≤ c ∧ c < 0x110000#32) ↔ Code4 b0 b1 b2 b3 := by
  intro c
  have hc : c.toNat = _ := assemble4_toNat b0 b1 b2 b3
  rw [BitVec.le_def, BitVec.lt_def, hc, Code4]
  simp

lemma leadLength_eq_zero_iff (b : Byte) : leadLength b = 0 ↔ Tail b := by
  rw [leadLength, tableLength, Tail]
  split_ifs <;> omega

lemma isTail_eq {p : List Byte} {b : Byte} (h : p[i]? = some b) : isTail p i = some (decide (Tail b)) := by
  simp only [isTail, h, bind_eq_bind, bind_some, getUtf8NBytes_byte, ← leadLength_eq_zero_iff]
  rfl

/-- `dst` of `PickOutCharacterFromUtf8String`. -/
def utf8Buf (bs : List Byte) : List Byte := bs ++ replicate (4 - bs.length) 0#8

lemma not_tail_terminator : ¬ Tail NullTerminator := by
  decide

/-- A byte that continues a character lies in front of the terminator. -/
lemma lt_length_of_tail (h : Tail (charAt t i)) : i < t.length := by
  by_contra hi
  rw [charAt, getD_eq_default _ _ (by omega)] at h
  exact not_tail_terminator h

lemma isTail_terminated (hi : i ≤ t.length) (b0 : Byte) :
    isTail (b0 :: (t ++ [NullTerminator])) (i + 1) = some (decide (Tail (charAt t i))) := by
  apply isTail_eq
  rw [getElem?_cons_succ, charAt]
  rcases lt_or_ge i t.length with hlt | hge
  · rw [getElem?_append_left hlt, getElem?_eq_getElem hlt, getD_eq_getElem _ _ hlt]
  · rw [getElem?_append_right hge, getD_eq_default _ _ hge, show i - t.length = 0 by omega]
    rfl

lemma andAlso_isTail {x : Option Bool} {P : Prop} [Decidable P] (b0 : Byte)
    (hx : x = some (decide P)) (hi : P → i ≤ t.length) :
    andAlso x (isTail (b0 :: (t ++ [NullTerminator])) (i + 1)) = some (decide (P ∧ Tail (charAt t i))) := by
  rw [hx, andAlso, bind_some]
  by_cases hP : P
  · rw [isTail_terminated (hi hP)]
    simp [hP]
  · simp [hP]

lemma tails_two (b0 : Byte) (t : List Byte) :
    andAlso (isTail (b0 :: (t ++ [NullTerminator])) 1) (isTail (b0 :: (t ++ [NullTerminator])) 2) =
      some (decide (Tail (charAt t 0) ∧ Tail (charAt t 1))) :=
  andAlso_isTail b0 (isTail_terminated (zero_le _) b0) fun h => lt_length_of_tail h

lemma tails_three (b0 : Byte) (t : List Byte) :
    andAlso (andAlso (isTail (b0 :: (t ++ [NullTerminator])) 1) (isTail (b0 :: (t ++ [NullTerminator])) 2))
        (isTail (b0 :: (t ++ [NullTerminator])) 3) =
      some (decide ((Tail (charAt t 0) ∧ Tail (charAt t 1)) ∧ Tail (charAt t 2))) :=
  andAlso_isTail b0 (tails_two b0 t) fun h => lt_length_of_tail h.2

/-- What the bytes behind `b0` have to be. -/
def Continues (b0 : Byte) (t : List Byte) : Prop :=
  b0.toNat < 0x80 ∨
    (0xC2 ≤ b0.toNat ∧ b0.toNat < 0xE0 ∧ Tail (charAt t 0)) ∨
    (0xE0 ≤ b0.toNat ∧ b0.toNat < 0xF0 ∧ Tail (charAt t 0) ∧ Tail (charAt t 1) ∧ Code3 b0 (charAt t 0) (charAt t 1)) ∨
    (0xF0 ≤ b0.toNat ∧ b0.toNat < 0xF8 ∧ Tail (charAt t 0) ∧ Tail (charAt t 1) ∧ Tail (charAt t 2) ∧
      Code4 b0 (charAt t 0) (charAt t 1) (charAt t 2))

lemma continues_of_sequence {t bs rest : List Byte} (hseq : IsSequence bs) (heq : b0 :: t = bs ++ rest) :
    Continues b0 t := by
  cases hseq with
  | one h0 =>
    obtain ⟨rfl, rfl⟩ := cons.inj heq
    exact .inl h0
  | two h0 h0' h1 =>
    obtain ⟨rfl, rfl⟩ := cons.inj heq
    exact .inr (.inl ⟨h0, h0', h1⟩)
  | three h0 h0' h1 h2 hcode =>
    obtain ⟨rfl, rfl⟩ := cons.inj heq
    exact .inr (.inr (.inl ⟨h0, h0', h1, h2, hcode⟩))
  | four h0 h0' h1 h2 h3 hcode =>
    obtain ⟨rfl, rfl⟩ := cons.inj heq
    exact .inr (.inr (.inr ⟨h0, h0', h1, h2, h3, hcode⟩))

lemma leadLength_eq_one (h : b0.toNat < 0x80) : leadLength b0 = 1 := if_pos h

lemma leadLength_eq_two (h : 0xC0 ≤ b0.toNat) (h' : b0.toNat < 0xE0) : leadLength b0 = 2 := by
  rw [leadLength, tableLength, if_neg (by omega), if_neg (by omega), if_pos h']

lemma leadLength_eq_three (h : 0xE0 ≤ b0.toNat) (h' : b0.toNat < 0xF0) : leadLength b0 = 3 := by
  rw [leadLength, tableLength, if_neg (by omega), if_neg (by omega), if_neg (by omega), if_pos h']

lemma leadLength_eq_four (h : 0xF0 ≤ b0.toNat) (h' : b0.toNat < 0xF8) : leadLength b0 = 4 := by
  rw [leadLength, tableLength, if_neg (by omega), if_neg (by omega), if_neg (by omega), if_neg (by omega), if_pos h']

lemma getUtf8NBytes_cast (b : Byte) : getUtf8NBytes (castU32 false b).toNat = some (leadLength b) := by
  rw [castU32_unsigned_toNat, getUtf8NBytes_byte]

lemma pickOut_continues (h : Continues b0 t) : ∃ bs rest, IsSequence bs ∧ b0 :: t = bs ++ rest ∧
      pickOutCharacterFromUtf8String false (b0 :: (t ++ [NullTerminator])) =
        some (.ok (utf8Buf bs, rest ++ [NullTerminator])) := by
  simp only [pickOutCharacterFromUtf8String, getElem?_cons_zero, bind_eq_bind, bind_some, getUtf8NBytes_cast]
  rcases h with h0 | ⟨h0, h0', h1⟩ | ⟨h0, h0', h1, h2, hcode⟩ | ⟨h0, h0', h1, h2, h3, hcode⟩
  · refine ⟨[b0], t, .one h0, rfl, ?_⟩
    rw [if_pos (leadLength_eq_one h0)]
    rfl
  · obtain ⟨b1, t, rfl⟩ := exists_cons_of_length_pos (lt_length_of_tail h1)
    refine ⟨[b0, b1], t, .two h0 h0' h1, rfl, ?_⟩
    have hmask : castU32 false b0 &&& 0x1E#32 ≠ 0 := (leadMask_iff b0).2 (by omega)
    rw [leadLength_eq_two (by omega) h0', if_neg (by decide), if_pos rfl, if_pos hmask,
      isTail_terminated (zero_le _), bind_some, if_pos (decide_eq_true h1)]
    rfl
  · obtain ⟨b1, t, rfl⟩ := exists_cons_of_length_pos (lt_length_of_tail h1)
    obtain ⟨b2, t, rfl⟩ := exists_cons_of_length_pos (lt_of_succ_lt_succ (lt_length_of_tail h2))
    refine ⟨[b0, b1, b2], t, .three h0 h0' h1 h2 hcode, rfl, ?_⟩
    rw [leadLength_eq_three h0 h0', if_neg (by decide), if_neg (by decide), if_pos rfl, tails_two,
      bind_some, if_pos (decide_eq_true ⟨h1, h2⟩)]
    exact if_pos ((code3_iff b0 b1 b2).2 hcode)
  · obtain ⟨b1, t, rfl⟩ := exists_cons_of_length_pos (lt_length_of_tail h1)
    obtain ⟨b2, t, rfl⟩ := exists_cons_of_length_pos (lt_of_succ_lt_succ (lt_length_of_tail h2))
    obtain ⟨b3, t, rfl⟩ := exists_cons_of_length_pos (lt_of_succ_lt_succ (lt_of_succ_lt_succ (lt_length_of_tail h3)))
    refine ⟨[b0, b1, b2, b3], t, .four h0 h0' h1 h2 h3 hcode, rfl, ?_⟩
    rw [leadLength_eq_four h0 h0', if_neg (by decide), if_neg (by decide), if_neg (by decide), if_pos rfl,
      tails_three, bind_some, if_pos (decide_eq_true ⟨⟨h1, h2⟩, h3⟩)]
    exact if_pos ((code4_iff b0 b1 b2 b3).2 hcode)

lemma pickOut_fails (h : ¬ Continues b0 t) :
    pickOutCharacterFromUtf8String false (b0 :: (t ++ [NullTerminator])) = some (.error .invalidFormat) := by
  simp only [pickOutCharacterFromUtf8String, getElem?_cons_zero, bind_eq_bind, bind_some, getUtf8NBytes_cast]
  simp only [Continues, not_or] at h
  obtain ⟨hone, htwo, hthree, hfour⟩ := h
  by_cases h80 : b0.toNat < 0xC0
  · rw [leadLength, tableLength, if_neg hone, if_pos h80]
    rfl
  by_cases hE0 : b0.toNat < 0xE0
  · rw [leadLength_eq_two (by omega) hE0, if_neg (by decide), if_pos rfl, isTail_terminated (zero_le _), bind_some]
    by_cases hmask : castU32 false b0 &&& 0x1E#32 ≠ 0
    · have hlow : 2 ≤ b0.toNat % 32 := (leadMask_iff b0).1 hmask
      rw [if_pos hmask, if_neg]
      rw [decide_eq_true_eq]
      exact fun h1 => htwo ⟨by omega, hE0, h1⟩
    · rw [if_neg hmask]
  by_cases hF0 : b0.toNat < 0xF0
  · rw [leadLength_eq_three (by omega) hF0, if_neg (by decide), if_neg (by decide), if_pos rfl, tails_two, bind_some]
    by_cases htails : Tail (charAt t 0) ∧ Tail (charAt t 1)
    · obtain ⟨h1, h2⟩ := htails
      obtain ⟨b1, t, rfl⟩ := exists_cons_of_length_pos (lt_length_of_tail h1)
      obtain ⟨b2, t, rfl⟩ := exists_cons_of_length_pos (lt_of_succ_lt_succ (lt_length_of_tail h2))
      rw [if_pos (decide_eq_true ⟨h1, h2⟩)]
      exact if_neg fun hcode => hthree ⟨by omega, hF0, h1, h2, (code3_iff b0 b1 b2).1 hcode⟩
    · rw [if_neg (by rwa [decide_eq_true_eq])]
  by_cases hF8 : b0.toNat < 0xF8
  · rw [leadLength_eq_four (by omega) hF8, if_neg (by decide), if_neg (by decide), if_neg (by decide), if_pos rfl, tails_three,
      bind_some]
    by_cases htails : (Tail (charAt t 0) ∧ Tail (charAt t 1)) ∧ Tail (charAt t 2)
    · obtain ⟨⟨h1, h2⟩, h3⟩ := htails
      obtain ⟨b1, t, rfl⟩ := exists_cons_of_length_pos (lt_length_of_tail h1)
      obtain ⟨b2, t, rfl⟩ := exists_cons_of_length_pos (lt_of_succ_lt_succ (lt_length_of_tail h2))
      obtain ⟨b3, t, rfl⟩ := exists_cons_of_length_pos (lt_of_succ_lt_succ (lt_of_succ_lt_succ (lt_length_of_tail h3)))
      rw [if_pos (decide_eq_true ⟨⟨h1, h2⟩, h3⟩)]
      exact if_neg fun hcode => hfour ⟨by omega, hF8, h1, h2, h3, (code4_iff b0 b1 b2 b3).1 hcode⟩
    · rw [if_neg (by rwa [decide_eq_true_eq])]
  · have hlong : leadLength b0 ∉ ({1, 2, 3, 4} : Set ℤ) := by
      rw [leadLength, tableLength]
      split_ifs <;> simp
    simp only [Set.mem_insert_iff, Set.mem_singleton_iff, not_or] at hlong
    rw [if_neg hlong.1, if_neg hlong.2.1, if_neg hlong.2.2.1, if_neg hlong.2.2.2]

lemma convert_sequence (h : IsSequence bs) : ∃ c, convertCharacterUtf8ToUtf32 false (utf8Buf bs) = some (.ok c) := by
  cases h with
  | @one b0 h0 =>
    refine ⟨castU32 false b0, ?_⟩
    simp only [convertCharacterUtf8ToUtf32, utf8Buf, cons_append, getElem?_cons_zero, bind_eq_bind,
      bind_some, getUtf8NBytes_byte]
    rw [if_pos (leadLength_eq_one h0)]
  | @two b0 b1 h0 h0' h1 =>
    refine ⟨assemble2 (castU32 false b0) (castU32 false b1), ?_⟩
    have hmask : castU32 false b0 &&& 0x1E#32 ≠ 0 := (leadMask_iff b0).2 (by omega)
    have htail : isTail (utf8Buf [b0, b1]) 1 = some (decide (Tail b1)) := isTail_eq rfl
    rw [convertCharacterUtf8ToUtf32, htail]
    simp only [utf8Buf, cons_append, getElem?_cons_zero, bind_eq_bind, bind_some, getUtf8NBytes_byte]
    rw [leadLength_eq_two (by omega) h0', if_neg (by decide), if_pos rfl, if_pos hmask, if_pos (decide_eq_true h1)]
    rfl
  | @three b0 b1 b2 h0 h0' h1 h2 hcode =>
    refine ⟨assemble3 (castU32 false b0) (castU32 false b1) (castU32 false b2), ?_⟩
    have htail1 : isTail (utf8Buf [b0, b1, b2]) 1 = some (decide (Tail b1)) := isTail_eq rfl
    have htail2 : isTail (utf8Buf [b0, b1, b2]) 2 = some (decide (Tail b2)) := isTail_eq rfl
    rw [convertCharacterUtf8ToUtf32, htail1, htail2, decide_eq_true h1, decide_eq_true h2]
    simp only [utf8Buf, cons_append, getElem?_cons_zero, bind_eq_bind, bind_some, getUtf8NBytes_byte]
    rw [leadLength_eq_three h0 h0', if_neg (by decide), if_neg (by decide), if_pos rfl]
    exact if_pos ((code3_iff b0 b1 b2).2 hcode)
  | @four b0 b1 b2 b3 h0 h0' h1 h2 h3 hcode =>
    refine ⟨assemble4 (castU32 false b0) (castU32 false b1) (castU32 false b2) (castU32 false b3), ?_⟩
    have htail1 : isTail (utf8Buf [b0, b1, b2, b3]) 1 = some (decide (Tail b1)) := isTail_eq rfl
    have htail2 : isTail (utf8Buf [b0, b1, b2, b3]) 2 = some (decide (Tail b2)) := isTail_eq rfl
    have htail3 : isTail (utf8Buf [b0, b1, b2, b3]) 3 = some (decide (Tail b3)) := isTail_eq rfl
    rw [convertCharacterUtf8ToUtf32, htail1, htail2, htail3, decide_eq_true h1, decide_eq_true h2, decide_eq_true h3]
    simp only [utf8Buf, cons_append, getElem?_cons_zero, bind_eq_bind, bind_some, getUtf8NBytes_byte]
    rw [leadLength_eq_four h0 h0', if_neg (by decide), if_neg (by decide), if_neg (by decide), if_pos rfl]
    exact if_pos ((code4_iff b0 b1 b2 b3).2 hcode)

/-! ## `CheckUtf8` -/

lemma wellFormed_nil : WellFormed [] := ⟨[], rfl⟩

/-- The first byte says how many there are. -/
lemma length_of_sequence (h : IsSequence (b0 :: bs)) : ((b0 :: bs).length : ℤ) = leadLength b0 := by
  cases h with
  | one h0 => exact (leadLength_eq_one h0).symm
  | two h0 h0' _ => exact (leadLength_eq_two (by omega) h0').symm
  | three h0 h0' _ _ _ => exact (leadLength_eq_three h0 h0').symm
  | four h0 h0' _ _ _ _ => exact (leadLength_eq_four h0 h0').symm

lemma sequence_ne_nil (h : IsSequence bs) : bs ≠ [] := by
  cases h <;> exact cons_ne_nil _ _

/-- Two characters in front of one string are the same. -/
lemma sequence_unique {bs bs' rest rest' : List Byte} (h : IsSequence bs) (h' : IsSequence bs')
    (heq : bs ++ rest = bs' ++ rest') : bs = bs' ∧ rest = rest' := by
  obtain ⟨b0, t, rfl⟩ := exists_cons_of_ne_nil (sequence_ne_nil h)
  obtain ⟨b0', t', rfl⟩ := exists_cons_of_ne_nil (sequence_ne_nil h')
  have hhead : b0 = b0' := (cons.inj heq).1
  subst hhead
  have hlength : (b0 :: t).length = (b0 :: t').length := by
    have := length_of_sequence h
    have := length_of_sequence h'
    omega
  exact append_inj heq hlength

lemma wellFormed_append_iff {bs rest : List Byte} (hseq : IsSequence bs) : WellFormed (bs ++ rest) ↔ WellFormed rest := by
  constructor
  · rintro ⟨cs, hcs⟩
    cases cs with
    | nil => exact absurd (append_eq_nil_iff.1 hcs).1 (sequence_ne_nil hseq)
    | cons c cs =>
      rw [flatMap_cons] at hcs
      exact ⟨cs, (sequence_unique hseq (isSequence_encoding c) hcs).2⟩
  · rintro ⟨cs, rfl⟩
    obtain ⟨c, rfl⟩ := encoding_of_isSequence hseq
    exact ⟨c :: cs, rfl⟩

lemma continues_of_wellFormed (h : WellFormed (b0 :: t)) : Continues b0 t := by
  obtain ⟨cs, hcs⟩ := h
  cases cs with
  | nil => cases hcs
  | cons c cs => exact continues_of_sequence (isSequence_encoding c) hcs

/-- **The loop with an unsigned `char`**: it ends with the verdict whether the string is well formed. -/
lemma checkLoop_spec {fuel : ℕ} (hs : NullTerminator ∉ s) (hfuel : s.length < fuel) :
    (checkUtf8Loop false fuel (s ++ [NullTerminator]) = some (.ok ()) ∧ WellFormed s) ∨
      (checkUtf8Loop false fuel (s ++ [NullTerminator]) = some (.error .invalidPathFormat) ∧ ¬ WellFormed s) := by
  induction fuel generalizing s with
  | zero => omega
  | succ fuel ih =>
    cases s with
    | nil => exact .inl ⟨rfl, wellFormed_nil⟩
    | cons b0 t =>
      have hb0 : b0 ≠ NullTerminator := fun h => hs (h ▸ mem_cons_self)
      simp only [checkUtf8Loop, cons_append, getElem?_cons_zero, bind_eq_bind, bind_some, if_neg hb0]
      by_cases hcontinues : Continues b0 t
      · obtain ⟨bs, rest, hseq, heq, hpick⟩ := pickOut_continues hcontinues
        obtain ⟨c, hconvert⟩ := convert_sequence hseq
        have hpos : 0 < bs.length := length_pos_of_ne_nil (sequence_ne_nil hseq)
        have hlength : t.length + 1 = bs.length + rest.length := by
          rw [← length_append, ← heq, length_cons]
        rw [hpick, bind_some]
        dsimp only
        rw [hconvert, bind_some, heq, wellFormed_append_iff hseq]
        rw [heq] at hs
        rw [length_cons] at hfuel
        exact ih (fun h => hs (mem_append_right _ h)) (by omega)
      · rw [pickOut_fails hcontinues]
        exact .inr ⟨rfl, mt continues_of_wellFormed hcontinues⟩

lemma castU32_signed_low (b : Byte) (hb : b.toNat < 0x80) : castU32 true b = castU32 false b := by
  have hmsb : b.msb = false := by
    rw [BitVec.msb_eq_false_iff_two_mul_lt]
    omega
  rw [castU32, castU32, if_pos rfl, if_neg Bool.false_ne_true, BitVec.signExtend_eq_setWidth_of_msb_false hmsb]

/-- A byte above 127 is looked up outside of the table. -/
lemma getUtf8NBytes_signed_high (b : Byte) (hb : ¬ b.toNat < 0x80) : getUtf8NBytes (castU32 true b).toNat = none := by
  have hmsb : b.msb = true := by
    rw [BitVec.msb_eq_true_iff_two_mul_ge]
    omega
  have hcast : (castU32 true b).toNat = b.toNat + (2 ^ 32 - 2 ^ 8) := by
    rw [castU32, if_pos rfl, BitVec.toNat_signExtend, hmsb]
    simp
    omega
  have hlength : Utf8NBytesInnerTable.length = 257 := by
    simp only [Utf8NBytesInnerTable, length_append, length_replicate, length_cons, length_nil]
  rw [getUtf8NBytes, getElem?_eq_none]
  rw [hlength, hcast]
  omega

/-- **The loop with a signed `char`**: it ends only if it meets no byte above 127. -/
lemma checkLoop_signed {fuel : ℕ} (hs : NullTerminator ∉ s) (hfuel : s.length < fuel) :
    checkUtf8Loop true fuel (s ++ [NullTerminator]) = if ∀ b ∈ s, b.toNat < 0x80 then some (.ok ()) else none := by
  induction fuel generalizing s with
  | zero => omega
  | succ fuel ih =>
    cases s with
    | nil => rfl
    | cons b0 t =>
      have hb0 : b0 ≠ NullTerminator := fun h => hs (h ▸ mem_cons_self)
      simp only [checkUtf8Loop, cons_append, getElem?_cons_zero, bind_eq_bind, bind_some, if_neg hb0,
        pickOutCharacterFromUtf8String, forall_mem_cons]
      by_cases hlow : b0.toNat < 0x80
      · rw [castU32_signed_low b0 hlow, getUtf8NBytes_cast, bind_some, if_pos (leadLength_eq_one hlow)]
        simp only [bind_some, convertCharacterUtf8ToUtf32, getElem?_cons_zero, bind_eq_bind,
          getUtf8NBytes_byte, if_pos (leadLength_eq_one hlow), drop_succ_cons, drop_zero]
        rw [length_cons] at hfuel
        rw [ih (fun h => hs (mem_cons_of_mem _ h)) (by omega)]
        simp only [hlow, true_and]
      · rw [getUtf8NBytes_signed_high b0 hlow, bind_none, bind_none, if_neg fun h => hlow h.1]

lemma wellFormed_ascii (h : ∀ b ∈ s, b.toNat < 0x80) : WellFormed s := by
  induction s with
  | nil => exact wellFormed_nil
  | cons b s ih =>
    rw [forall_mem_cons] at h
    exact (wellFormed_append_iff (.one h.1)).2 (ih h.2)

/-- **`CheckUtf8` decides UTF-8** exactly if `char` is unsigned or no byte of the string is above 127. -/
theorem checkUtf8_decides (charSigned : Bool) (s : List Byte) (hs : NullTerminator ∉ s) :
    Decides charSigned s ↔ (charSigned = true → ∀ b ∈ s, b.toNat < 0x80) := by
  have hfuel : s.length < (s ++ [NullTerminator]).length := by
    rw [length_append]
    exact lt_succ_self _
  cases charSigned with
  | false =>
    refine ⟨fun _ h => absurd h Bool.false_ne_true, fun _ => ?_⟩
    exact checkLoop_spec hs hfuel
  | true =>
    rw [Decides, checkUtf8, checkLoop_signed hs hfuel]
    by_cases hlow : ∀ b ∈ s, b.toNat < 0x80
    · rw [if_pos hlow]
      exact ⟨fun _ _ => hlow, fun _ => .inl ⟨rfl, wellFormed_ascii hlow⟩⟩
    · rw [if_neg hlow]
      refine ⟨?_, fun h => absurd (h rfl) hlow⟩
      rintro (⟨h, -⟩ | ⟨h, -⟩)
      · cases h
      · cases h

/-- With an unsigned `char`, `é` is accepted. -/
theorem checkUtf8_decides_accent : Decides false [0xC3#8, 0xA9#8] :=
  (checkUtf8_decides false [0xC3#8, 0xA9#8] (by decide)).2 fun h => absurd h Bool.false_ne_true

/-- With a signed one, its first byte is looked up outside of the table. -/
theorem checkUtf8_accent_fails : WellFormed [0xC3#8, 0xA9#8] ∧
    checkUtf8 true ([0xC3#8, 0xA9#8] ++ [NullTerminator]) = none ∧ ¬ Decides true [0xC3#8, 0xA9#8] := by
  have hnone : checkUtf8 true ([0xC3#8, 0xA9#8] ++ [NullTerminator]) = none := by
    rw [checkUtf8, checkLoop_signed (by decide) (by decide), if_neg (by decide)]
  refine ⟨⟨['é'], rfl⟩, hnone, ?_⟩
  rw [Decides, hnone]
  rintro (⟨h, -⟩ | ⟨h, -⟩)
  · cases h
  · cases h

end Voltemu.FileSys
