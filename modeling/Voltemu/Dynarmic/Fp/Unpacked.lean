import Mathlib.Data.Nat.Size
import Mathlib.Data.Rat.Floor
import Mathlib.Data.BitVec
import Voltemu.Lib.Rounding

/-!
# Floating-point numbers of the software implementation

`dynarmic/common/fp`: the formats, the control and status registers, and the form that operands are unpacked to.

* The formats are those of `u16`, `u32` and `u64`; an operand is a word of the format's width.
* Assertions of the source only log (`ASSERT` is `AssertFailSoftImpl`) and are left out; `UNREACHABLE` aborts and is `none`.
* `value`: what a finite operand is, as a rational number.
* `fpUnpack_finite`: unpacking a finite operand keeps its value, with the leading one at a fixed place.
-/

namespace Voltemu.Dynarmic.FP

open BitVec Nat

/-! ## Formats -/

inductive FPT
  | u16
  | u32
  | u64
deriving DecidableEq

namespace FPInfo

def totalWidth : FPT → ℕ
  | .u16 => 16
  | .u32 => 32
  | .u64 => 64

def exponentWidth : FPT → ℕ
  | .u16 => 5
  | .u32 => 8
  | .u64 => 11

def explicitMantissaWidth : FPT → ℕ
  | .u16 => 10
  | .u32 => 23
  | .u64 => 52

def implicitLeadingBit (t : FPT) : ℕ := 2 ^ explicitMantissaWidth t

def signMask : FPT → ℕ
  | .u16 => 0x8000
  | .u32 => 0x80000000
  | .u64 => 0x8000000000000000

def exponentMask : FPT → ℕ
  | .u16 => 0x7C00
  | .u32 => 0x7F800000
  | .u64 => 0x7FF0000000000000

def mantissaMask : FPT → ℕ
  | .u16 => 0x3FF
  | .u32 => 0x007FFFFF
  | .u64 => 0x000FFFFFFFFFFFFF

def exponentMin : FPT → ℤ
  | .u16 => -14
  | .u32 => -126
  | .u64 => -1022

def exponentBias : FPT → ℤ
  | .u16 => 15
  | .u32 => 127
  | .u64 => 1023

variable (t : FPT)

def zero (sign : Bool) : BitVec (totalWidth t) := if sign then BitVec.ofNat _ (signMask t) else 0

def infinity (sign : Bool) : BitVec (totalWidth t) := BitVec.ofNat _ (exponentMask t) ||| zero t sign

def maxNormal (sign : Bool) : BitVec (totalWidth t) := BitVec.ofNat _ (exponentMask t - 1) ||| zero t sign

def defaultNaN : BitVec (totalWidth t) :=
  BitVec.ofNat _ (exponentMask t) ||| BitVec.ofNat _ (1 <<< (explicitMantissaWidth t - 1))

end FPInfo

open FPInfo

/-! ## Bits -/

def getBits {w : ℕ} (low high : ℕ) (op : BitVec w) : ℕ := (op.extractLsb' low (high - low + 1)).toNat

def setBit {w : ℕ} (i : ℕ) (op : BitVec w) (b : Bool) : BitVec w :=
  op &&& ~~~(BitVec.twoPow w i) ||| (if b then BitVec.twoPow w i else 0)

def ones (count : ℕ) : BitVec 64 := if count = 0 then 0 else (~~~0 : BitVec 64) >>> (64 - count)

def highestSetBit (op : BitVec 64) : ℤ := op.toNat.size - 1

lemma getLsbD_setBit {w i : ℕ} (op : BitVec w) (b : Bool) (hi : i < w) (j : ℕ) :
    (setBit i op b).getLsbD j = if j = i then b else op.getLsbD j := by
  simp only [setBit, getLsbD_or, getLsbD_and, getLsbD_not, getLsbD_twoPow]
  by_cases hj : j = i
  · subst hj
    cases b <;> simp [hi]
  · have hne : i ≠ j := Ne.symm hj
    by_cases hw : j < w
    · cases b <;> simp [hj, hne, hw]
    · cases b <;> simp [hj, hne, hw, getLsbD_of_ge op j (by omega)]

/-! ## Registers -/

inductive RoundingMode
  | toNearestTieEven
  | towardsPlusInfinity
  | towardsMinusInfinity
  | towardsZero
  | toNearestTieAwayFromZero
  | toOdd
deriving DecidableEq

structure FPCR where
  value : BitVec 32
deriving DecidableEq

namespace FPCR

variable (fpcr : FPCR)

def ahp : Bool := fpcr.value.getLsbD 26
def setAhp (b : Bool) : FPCR := ⟨setBit 26 fpcr.value b⟩
def dn : Bool := fpcr.value.getLsbD 25
def fz : Bool := fpcr.value.getLsbD 24
def fz16 : Bool := fpcr.value.getLsbD 19
def ufe : Bool := fpcr.value.getLsbD 11

/-- The two bits are the first four modes. -/
def rMode : RoundingMode :=
  match getBits 22 23 fpcr.value with
  | 0 => .toNearestTieEven
  | 1 => .towardsPlusInfinity
  | 2 => .towardsMinusInfinity
  | _ => .towardsZero

def KeepsSubnormals : Prop := fpcr.fz = false ∧ fpcr.fz16 = false

@[simp] lemma ahp_setAhp (b : Bool) : (fpcr.setAhp b).ahp = b := by
  rw [ahp, setAhp, getLsbD_setBit _ _ (by decide), if_pos rfl]

@[simp] lemma fz_setAhp (b : Bool) : (fpcr.setAhp b).fz = fpcr.fz := by
  rw [fz, setAhp, getLsbD_setBit _ _ (by decide), if_neg (by decide), fz]

@[simp] lemma fz16_setAhp (b : Bool) : (fpcr.setAhp b).fz16 = fpcr.fz16 := by
  rw [fz16, setAhp, getLsbD_setBit _ _ (by decide), if_neg (by decide), fz16]

end FPCR

structure FPSR where
  value : BitVec 32
deriving DecidableEq

inductive FPExc
  | invalidOp
  | divideByZero
  | overflow
  | underflow
  | inexact
  | inputDenorm
deriving DecidableEq

namespace FPExc

/-- The bit of an exception in the status register. -/
def bit : FPExc → ℕ
  | .invalidOp => 0
  | .divideByZero => 1
  | .overflow => 2
  | .underflow => 3
  | .inexact => 4
  | .inputDenorm => 7

end FPExc

namespace FPSR

variable (fpsr : FPSR)

/-- `IOC`, `DZC`, `OFC`, `UFC`, `IXC` and `IDC`: whether an exception has been raised. -/
def raised (exception : FPExc) : Bool := fpsr.value.getLsbD exception.bit

end FPSR

def fpProcessException (exception : FPExc) (fpsr : FPSR) : FPSR := ⟨setBit exception.bit fpsr.value true⟩

@[simp] lemma raised_fpProcessException (exception exception' : FPExc) (fpsr : FPSR) :
    (fpProcessException exception fpsr).raised exception' = (decide (exception' = exception) || fpsr.raised exception') := by
  rw [FPSR.raised, fpProcessException, getLsbD_setBit _ _ (by cases exception <;> decide)]
  have hbit : exception'.bit = exception.bit ↔ exception' = exception := by
    cases exception <;> cases exception' <;> decide
  by_cases h : exception' = exception
  · rw [if_pos (hbit.2 h), decide_eq_true h, Bool.true_or]
  · rw [if_neg (mt hbit.1 h), decide_eq_false h, Bool.false_or, FPSR.raised]

/-! ## Unpacking -/

def normalizedPointPosition : ℕ := 62

/-- A number of 62 bits behind the point, and an exponent. -/
structure FPUnpacked where
  sign : Bool
  exponent : ℤ
  mantissa : BitVec 64
deriving DecidableEq

inductive FPType
  | nonzero
  | zero
  | infinity
  | qNaN
  | sNaN
deriving DecidableEq

def toNormalized (sign : Bool) (exponent : ℤ) (value : BitVec 64) : FPUnpacked :=
  if value = 0 then ⟨sign, 0, 0⟩
  else
    let highestBit := highestSetBit value
    let offset := normalizedPointPosition - highestBit
    ⟨sign, exponent - (offset - normalizedPointPosition), value <<< offset.toNat⟩

variable {t : FPT}

def signBit (op : BitVec (totalWidth t)) : Bool := op.getLsbD (exponentWidth t + explicitMantissaWidth t)

def expRaw (op : BitVec (totalWidth t)) : ℕ :=
  getBits (explicitMantissaWidth t) (exponentWidth t + explicitMantissaWidth t - 1) op

def fracRaw (op : BitVec (totalWidth t)) : ℕ := getBits 0 (explicitMantissaWidth t - 1) op

def fpUnpackBase (op : BitVec (totalWidth t)) (fpcr : FPCR) (fpsr : FPSR) : (FPType × Bool × FPUnpacked) × FPSR :=
  let denormalExponent := exponentMin t - explicitMantissaWidth t
  let isHalfPrecision : Bool := t = .u16
  let sign := signBit op
  if expRaw op = 0 then
    if isHalfPrecision then
      if fracRaw op = 0 ∨ fpcr.fz16 then ((.zero, sign, ⟨sign, 0, 0⟩), fpsr)
      else ((.nonzero, sign, toNormalized sign denormalExponent (BitVec.ofNat 64 (fracRaw op))), fpsr)
    else if fracRaw op = 0 ∨ fpcr.fz then
      ((.zero, sign, ⟨sign, 0, 0⟩), if fracRaw op ≠ 0 then fpProcessException .inputDenorm fpsr else fpsr)
    else ((.nonzero, sign, toNormalized sign denormalExponent (BitVec.ofNat 64 (fracRaw op))), fpsr)
  else
    let expAllOnes : Bool := expRaw op = 2 ^ exponentWidth t - 1
    let ahpDisabled := isHalfPrecision && !fpcr.ahp
    if expAllOnes && !isHalfPrecision || expAllOnes && ahpDisabled then
      if fracRaw op = 0 then ((.infinity, sign, toNormalized sign 1000000 1), fpsr)
      else
        let isQuiet := (BitVec.ofNat 64 (fracRaw op)).getLsbD (explicitMantissaWidth t - 1)
        ((if isQuiet then .qNaN else .sNaN, sign, ⟨sign, 0, 0⟩), fpsr)
    else
      let exp : ℤ := expRaw op - exponentBias t
      let frac := BitVec.ofNat 64 (fracRaw op ||| implicitLeadingBit t) <<< (normalizedPointPosition - explicitMantissaWidth t)
      ((.nonzero, sign, ⟨sign, exp, frac⟩), fpsr)

def fpUnpack (op : BitVec (totalWidth t)) (fpcr : FPCR) (fpsr : FPSR) : (FPType × Bool × FPUnpacked) × FPSR :=
  fpUnpackBase op (fpcr.setAhp false) fpsr

/-! ## What a number is -/

/-- One or minus one. -/
def sgn (sign : Bool) : ℚ := if sign then -1 else 1

def FPUnpacked.value (u : FPUnpacked) : ℚ := sgn u.sign * (u.mantissa.toNat * (2 : ℚ) ^ (u.exponent - normalizedPointPosition))

variable (op : BitVec (totalWidth t))

def IsFinite : Prop := expRaw op ≠ 2 ^ exponentWidth t - 1

def IsInfinity : Prop := expRaw op = 2 ^ exponentWidth t - 1 ∧ fracRaw op = 0

def IsNaN : Prop := expRaw op = 2 ^ exponentWidth t - 1 ∧ fracRaw op ≠ 0

instance : Decidable (IsFinite op) := inferInstanceAs (Decidable (_ ≠ _))

instance : Decidable (IsInfinity op) := inferInstanceAs (Decidable (_ ∧ _))

instance : Decidable (IsNaN op) := inferInstanceAs (Decidable (_ ∧ _))

/-- **The value of a finite operand**: a subnormal number or a normal one. -/
def value : ℚ :=
  sgn (signBit op) *
    if expRaw op = 0 then fracRaw op * (2 : ℚ) ^ (exponentMin t - explicitMantissaWidth t)
    else (2 ^ explicitMantissaWidth t + fracRaw op) * (2 : ℚ) ^ (expRaw op - exponentBias t - explicitMantissaWidth t)

variable {op}

lemma sgn_ne_zero (sign : Bool) : sgn sign ≠ 0 := by cases sign <;> norm_num [sgn]

lemma abs_sgn (sign : Bool) : |sgn sign| = 1 := by cases sign <;> norm_num [sgn]

lemma expRaw_lt (op : BitVec (totalWidth t)) : expRaw op < 2 ^ exponentWidth t := by
  have hwidth : exponentWidth t + explicitMantissaWidth t - 1 - explicitMantissaWidth t + 1 = exponentWidth t := by
    cases t <;> rfl
  rw [expRaw, getBits, hwidth]
  exact BitVec.isLt _

lemma fracRaw_lt (op : BitVec (totalWidth t)) : fracRaw op < 2 ^ explicitMantissaWidth t := by
  have hwidth : explicitMantissaWidth t - 1 - 0 + 1 = explicitMantissaWidth t := by cases t <;> rfl
  rw [fracRaw, getBits, hwidth]
  exact BitVec.isLt _

lemma format_facts (t : FPT) :
    10 ≤ explicitMantissaWidth t ∧ explicitMantissaWidth t ≤ 52 ∧ exponentMin t = 1 - exponentBias t ∧
      (2 ^ exponentWidth t : ℤ) = 2 * exponentBias t + 2 ∧ 5 ≤ exponentWidth t ∧
      totalWidth t = exponentWidth t + explicitMantissaWidth t + 1 := by
  cases t <;> decide

/-! ## Leading ones -/

variable {m : BitVec 64} {n : ℕ}

lemma highestSetBit_eq (hlow : 2 ^ n ≤ m.toNat) (hhigh : m.toNat < 2 ^ (n + 1)) : highestSetBit m = n := by
  have hle : m.toNat.size ≤ n + 1 := size_le.2 hhigh
  have hlt : n < m.toNat.size := lt_size.2 hlow
  rw [highestSetBit]
  omega

lemma exists_highestSetBit (hm : m ≠ 0) :
    ∃ n < 64, highestSetBit m = (n : ℕ) ∧ 2 ^ n ≤ m.toNat ∧ m.toNat < 2 ^ (n + 1) := by
  have hpos : 0 < m.toNat := pos_of_ne_zero fun h => hm (eq_of_toNat_eq (by rw [h]; rfl))
  have hsize := size_pos.2 hpos
  have hle : m.toNat.size ≤ 64 := size_le.2 m.isLt
  have hlow : 2 ^ (m.toNat.size - 1) ≤ m.toNat := lt_size.1 (by omega)
  have hhigh : m.toNat < 2 ^ (m.toNat.size - 1 + 1) := size_le.1 (by omega)
  exact ⟨m.toNat.size - 1, by omega, highestSetBit_eq hlow hhigh, hlow, hhigh⟩

/-- The leading one of a normalized number. -/
structure FPUnpacked.Normalized (u : FPUnpacked) : Prop where
  low : 2 ^ 62 ≤ u.mantissa.toNat
  high : u.mantissa.toNat < 2 ^ 63

lemma toNormalized_spec (sign : Bool) (exponent : ℤ) {v : BitVec 64} (hlow : 2 ^ n ≤ v.toNat)
    (hhigh : v.toNat < 2 ^ (n + 1)) (hn : n ≤ 62) :
    toNormalized sign exponent v = ⟨sign, exponent + n, v <<< (62 - n)⟩ ∧
      (v <<< (62 - n)).toNat = v.toNat * 2 ^ (62 - n) := by
  have hne : v ≠ 0 := by
    rintro rfl
    have : 0 < 2 ^ n := by positivity
    simp at hlow
  have hbit := highestSetBit_eq hlow hhigh
  constructor
  · rw [toNormalized, if_neg hne]
    simp only [hbit, normalizedPointPosition]
    congr 1
    · push_cast
      ring
    · congr 1
      omega
  · have hpow : 2 ^ (n + 1) * 2 ^ (62 - n) = 2 ^ 63 := by
      rw [← pow_add]
      congr 1
      omega
    have hlt : v.toNat * 2 ^ (62 - n) < 2 ^ 63 := by
      rw [← hpow]
      exact mul_lt_mul_of_pos_right hhigh (by positivity)
    rw [toNat_shiftLeft, Nat.shiftLeft_eq, Nat.mod_eq_of_lt (by omega)]

/-! ## What unpacking gives -/

lemma value_subnormal (hexp : expRaw op = 0) :
    value op = sgn (signBit op) * (fracRaw op * (2 : ℚ) ^ (exponentMin t - explicitMantissaWidth t)) := by
  rw [value, if_pos hexp]

lemma value_normal (hexp : expRaw op ≠ 0) :
    value op = sgn (signBit op) *
      ((2 ^ explicitMantissaWidth t + fracRaw op) * (2 : ℚ) ^ (expRaw op - exponentBias t - explicitMantissaWidth t)) := by
  rw [value, if_neg hexp]

/-- **A finite operand in its unpacked form.** -/
structure Unpacks (op : BitVec (totalWidth t)) (u : FPUnpacked) : Prop where
  sign : u.sign = signBit op
  value : u.value = FP.value op
  zero : FP.value op = 0 → u.mantissa = 0
  normalized : FP.value op ≠ 0 → u.Normalized
  places : 2 ^ (62 - explicitMantissaWidth t) ∣ u.mantissa.toNat
  exponent_low : FP.value op ≠ 0 → exponentMin t - explicitMantissaWidth t ≤ u.exponent
  exponent_high : FP.value op ≠ 0 → u.exponent ≤ exponentBias t

lemma unpacks_zero (hexp : expRaw op = 0) (hfrac : fracRaw op = 0) : Unpacks op ⟨signBit op, 0, 0⟩ := by
  have hvalue : value op = 0 := by simp [value_subnormal hexp, hfrac]
  exact ⟨rfl, by simp [FPUnpacked.value, hvalue], fun _ => rfl, fun h => absurd hvalue h, by simp, fun h => absurd hvalue h,
    fun h => absurd hvalue h⟩

lemma unpacks_subnormal (hexp : expRaw op = 0) (hfrac : fracRaw op ≠ 0) :
    value op ≠ 0 ∧ Unpacks op (toNormalized (signBit op) (exponentMin t - explicitMantissaWidth t) (BitVec.ofNat 64 (fracRaw op))) := by
  obtain ⟨h10, h52, hmin, hbias, hE, -⟩ := format_facts t
  have hlt := fracRaw_lt op
  have hfracNat : (BitVec.ofNat 64 (fracRaw op)).toNat = fracRaw op := by
    have hpow : 2 ^ explicitMantissaWidth t ≤ 2 ^ 52 := Nat.pow_le_pow_right (by decide) h52
    rw [toNat_ofNat, Nat.mod_eq_of_lt (by omega)]
  have hne : BitVec.ofNat 64 (fracRaw op) ≠ 0 := by
    intro h
    rw [h] at hfracNat
    exact hfrac hfracNat.symm
  obtain ⟨n, -, -, hlow, hhigh⟩ := exists_highestSetBit hne
  have hn : n < explicitMantissaWidth t := by
    rw [hfracNat] at hlow
    exact (Nat.pow_lt_pow_iff_right (by decide)).1 (hlow.trans_lt hlt)
  obtain ⟨hnormal, hmantissa⟩ :=
    toNormalized_spec (signBit op) (exponentMin t - explicitMantissaWidth t) hlow hhigh (by omega)
  rw [hfracNat] at hlow hhigh hmantissa
  have hvalue : value op ≠ 0 := by
    rw [value_subnormal hexp]
    exact mul_ne_zero (sgn_ne_zero _) (mul_ne_zero (by exact_mod_cast hfrac) (zpow_ne_zero _ two_ne_zero))
  have hpow : 2 ^ n * 2 ^ (62 - n) = 2 ^ 62 := by
    rw [← pow_add]
    congr 1
    omega
  rw [hnormal]
  refine ⟨hvalue, rfl, ?_, fun h => absurd h hvalue, fun _ => ⟨?_, ?_⟩, ?_, fun _ => by simp, fun _ => ?_⟩
  · rw [value_subnormal hexp, FPUnpacked.value]
    simp only [hmantissa, normalizedPointPosition]
    push_cast
    have hexponent : (2 : ℚ) ^ (62 - n) * 2 ^ (exponentMin t - explicitMantissaWidth t + n - 62) =
        2 ^ (exponentMin t - explicitMantissaWidth t) := by
      rw [← zpow_natCast, ← zpow_add₀ two_ne_zero]
      congr 1
      push_cast [show n ≤ 62 by omega]
      ring
    rw [mul_assoc (fracRaw op : ℚ), hexponent]
  · change 2 ^ 62 ≤ (BitVec.ofNat 64 (fracRaw op) <<< (62 - n)).toNat
    rw [hmantissa, ← hpow]
    exact mul_le_mul_right _ hlow
  · change (BitVec.ofNat 64 (fracRaw op) <<< (62 - n)).toNat < 2 ^ 63
    have hdouble : 2 ^ (n + 1) * 2 ^ (62 - n) = 2 ^ 63 := by
      rw [pow_succ, mul_right_comm, hpow]
      rfl
    rw [hmantissa, ← hdouble]
    exact mul_lt_mul_of_pos_right hhigh (by positivity)
  · change _ ∣ (BitVec.ofNat 64 (fracRaw op) <<< (62 - n)).toNat
    rw [hmantissa]
    exact (pow_dvd_pow 2 (by omega)).mul_left _
  · show exponentMin t - explicitMantissaWidth t + n ≤ exponentBias t
    have hbias_pos : 0 < exponentBias t := by cases t <;> decide
    omega

lemma unpacks_normal (hexp : expRaw op ≠ 0) (hfinite : IsFinite op) :
    value op ≠ 0 ∧ Unpacks op ⟨signBit op, expRaw op - exponentBias t,
      BitVec.ofNat 64 (fracRaw op ||| implicitLeadingBit t) <<< (normalizedPointPosition - explicitMantissaWidth t)⟩ := by
  obtain ⟨h10, h52, hmin, hbias, hE, -⟩ := format_facts t
  have hlt := fracRaw_lt op
  have hexp_lt := expRaw_lt op
  have hor : fracRaw op ||| implicitLeadingBit t = 2 ^ explicitMantissaWidth t + fracRaw op := by
    have h := two_pow_add_eq_or_of_lt hlt 1
    rw [mul_one] at h
    rw [implicitLeadingBit, Nat.or_comm, h]
  have hpow : 2 ^ explicitMantissaWidth t * 2 ^ (62 - explicitMantissaWidth t) = 2 ^ 62 := by
    rw [← pow_add]
    congr 1
    omega
  have hlow : 2 ^ 62 ≤ (2 ^ explicitMantissaWidth t + fracRaw op) * 2 ^ (62 - explicitMantissaWidth t) := by
    rw [← hpow]
    exact mul_le_mul_right _ (by omega)
  have hhigh : (2 ^ explicitMantissaWidth t + fracRaw op) * 2 ^ (62 - explicitMantissaWidth t) < 2 ^ 63 := by
    have hdouble : 2 ^ 63 = (2 ^ explicitMantissaWidth t + 2 ^ explicitMantissaWidth t) * 2 ^ (62 - explicitMantissaWidth t) := by
      rw [Nat.add_mul, hpow]
      rfl
    rw [hdouble]
    exact mul_lt_mul_of_pos_right (by omega) (by positivity)
  have hmantissa : (BitVec.ofNat 64 (fracRaw op ||| implicitLeadingBit t) <<< (62 - explicitMantissaWidth t)).toNat =
      (2 ^ explicitMantissaWidth t + fracRaw op) * 2 ^ (62 - explicitMantissaWidth t) := by
    have hword : 2 ^ explicitMantissaWidth t ≤ 2 ^ 52 := Nat.pow_le_pow_right (by decide) h52
    rw [toNat_shiftLeft, Nat.shiftLeft_eq, hor, toNat_ofNat,
      Nat.mod_eq_of_lt (show 2 ^ explicitMantissaWidth t + fracRaw op < 2 ^ 64 by omega), Nat.mod_eq_of_lt (by omega)]
  have hvalue : value op ≠ 0 := by
    rw [value_normal hexp]
    exact mul_ne_zero (sgn_ne_zero _) (mul_ne_zero (by positivity) (zpow_ne_zero _ two_ne_zero))
  refine ⟨hvalue, rfl, ?_, fun h => absurd h hvalue, fun _ => ⟨hlow.trans_eq hmantissa.symm, hmantissa.trans_lt hhigh⟩, ?_,
    fun _ => ?_, fun _ => ?_⟩
  · rw [value_normal hexp, FPUnpacked.value]
    simp only [hmantissa, normalizedPointPosition]
    push_cast
    have hexponent : (2 : ℚ) ^ (62 - explicitMantissaWidth t) * 2 ^ ((expRaw op : ℤ) - exponentBias t - 62) =
        2 ^ ((expRaw op : ℤ) - exponentBias t - explicitMantissaWidth t) := by
      rw [← zpow_natCast, ← zpow_add₀ two_ne_zero]
      congr 1
      push_cast [show explicitMantissaWidth t ≤ 62 by omega]
      ring
    rw [mul_assoc ((2 : ℚ) ^ explicitMantissaWidth t + _), hexponent]
  · change _ ∣ (BitVec.ofNat 64 (fracRaw op ||| implicitLeadingBit t) <<< (62 - explicitMantissaWidth t)).toNat
    rw [hmantissa]
    exact Dvd.intro_left _ rfl
  · show exponentMin t - explicitMantissaWidth t ≤ (expRaw op : ℤ) - exponentBias t
    omega
  · show (expRaw op : ℤ) - exponentBias t ≤ exponentBias t
    have hcast : (2 ^ exponentWidth t : ℤ) = ((2 ^ exponentWidth t : ℕ) : ℤ) := by push_cast; rfl
    have hne : expRaw op ≠ 2 ^ exponentWidth t - 1 := hfinite
    omega

/-- **A finite operand is unpacked to its value**, without exceptions. -/
theorem fpUnpack_finite {fpcr : FPCR} (hop : IsFinite op) (hkeeps : fpcr.KeepsSubnormals) (fpsr : FPSR) :
    ∃ u, fpUnpack op fpcr fpsr = ((if value op = 0 then .zero else .nonzero, signBit op, u), fpsr) ∧ Unpacks op u := by
  have hones : ¬ expRaw op = 2 ^ exponentWidth t - 1 := hop
  by_cases hexp : expRaw op = 0
  · by_cases hfrac : fracRaw op = 0
    · have hvalue : value op = 0 := by simp [value_subnormal hexp, hfrac]
      exact ⟨_, by simp [fpUnpack, fpUnpackBase, hexp, hfrac, hvalue], unpacks_zero hexp hfrac⟩
    · obtain ⟨hvalue, hunpacks⟩ := unpacks_subnormal hexp hfrac
      exact ⟨_, by simp [fpUnpack, fpUnpackBase, hexp, hfrac, hvalue, hkeeps.1, hkeeps.2], hunpacks⟩
  · obtain ⟨hvalue, hunpacks⟩ := unpacks_normal hexp hop
    exact ⟨_, by simp [fpUnpack, fpUnpackBase, hexp, hones, hvalue], hunpacks⟩

lemma fpUnpack_infinity {fpcr : FPCR} (hop : IsInfinity op) (fpsr : FPSR) :
    fpUnpack op fpcr fpsr = ((.infinity, signBit op, ⟨signBit op, 1000000, BitVec.twoPow 64 62⟩), fpsr) := by
  have hpos : expRaw op ≠ 0 := by
    rw [hop.1]
    cases t <;> decide
  have hnormal : ∀ sign, toNormalized sign 1000000 1#64 = ⟨sign, 1000000, BitVec.twoPow 64 62⟩ := by decide
  rw [fpUnpack, fpUnpackBase, if_neg hpos]
  cases t <;> simp [hop.1, hop.2, hnormal]

end Voltemu.Dynarmic.FP
