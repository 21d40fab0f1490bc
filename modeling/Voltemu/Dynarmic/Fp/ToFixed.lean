import Voltemu.Dynarmic.Fp.Residual

/-!
# Conversions to fixed point

`FPToFixed` of `dynarmic/common/fp/op/FPToFixed.cpp`.

* `fpToFixed`: the function; the operand is rounded in two's complement, and overflow is found from the exponent.
* `FixedRight`: the result is the rounded value, or the bound of the range that is next to it, and the exceptions tell which.
* `fpToFixed_eq`: what the function does in terms of the rounded value.
* `fixedRight_iff`: this is right but for the operands that are rounded up from below a bound: to zero, when the result is unsigned, and
  to the number above the least one, when it is signed.
-/

namespace Voltemu.Dynarmic.FP

open FPInfo

/-! ## The source -/

/-- Whether the mode adds one, from the word that was rounded down and the error. -/
def fixedRoundUp (rounding : RoundingMode) (error : ResidualError) (intResult : BitVec 64) : Option Bool :=
  match rounding with
  | .toNearestTieEven => some (error = .greaterThanHalf || error = .half && intResult.getLsbD 0)
  | .towardsPlusInfinity => some (error ≠ .zero)
  | .towardsMinusInfinity => some false
  | .towardsZero => some (error ≠ .zero && intResult.msb)
  | .toNearestTieAwayFromZero => some (error = .greaterThanHalf || error = .half && !intResult.msb)
  | .toOdd => none

/-- `FPToFixed`, `none` for the mode that it does not have. -/
def fpToFixed {t : FPT} (ibits : ℕ) (op : BitVec (totalWidth t)) (fbits : ℕ) (unsigned : Bool) (fpcr : FPCR)
    (rounding : RoundingMode) (fpsr : FPSR) : Option (BitVec 64 × FPSR) :=
  let ((type, sign, value), fpsr) := fpUnpack op fpcr fpsr
  let fpsr := if type = .sNaN ∨ type = .qNaN then fpProcessException .invalidOp fpsr else fpsr
  if value.mantissa = 0 then some (0, fpsr)
  else if sign && unsigned then some (0, fpProcessException .invalidOp fpsr)
  else
    let exponent := value.exponent + fbits - normalizedPointPosition
    let intResult := if sign then negate value.mantissa else value.mantissa
    let error := residualErrorOnRightShift intResult (-exponent)
    let intResult := arithmeticShiftLeft intResult exponent
    (fixedRoundUp rounding error intResult).map fun roundUp =>
      let intResult := if roundUp then intResult + 1 else intResult
      let minExponentForOverflow : ℤ :=
        ibits - highestSetBit (value.mantissa + if roundUp then logicalShiftRight 1 exponent else 0) - if unsigned then 0 else 1
      let minValue := negate ((1 : BitVec 64) <<< (ibits - 1))
      if minExponentForOverflow ≤ exponent ∧ (unsigned || !sign) then
        (ones (ibits - if unsigned then 0 else 1), fpProcessException .invalidOp fpsr)
      else if minExponentForOverflow ≤ exponent ∧ ¬ (exponent = minExponentForOverflow ∧ intResult = minValue) then
        ((1 : BitVec 64) <<< (ibits - 1), fpProcessException .invalidOp fpsr)
      else (intResult &&& ones ibits, if error ≠ .zero then fpProcessException .inexact fpsr else fpsr)

/-! ## What is right -/

def minFixed (ibits : ℕ) (unsigned : Bool) : ℤ := if unsigned then 0 else -2 ^ (ibits - 1)

def maxFixed (ibits : ℕ) (unsigned : Bool) : ℤ := if unsigned then 2 ^ ibits - 1 else 2 ^ (ibits - 1) - 1

/-- The integer that `x` is rounded to when it is in the range, and else the bound next to it; `InvalidOp` is raised when it is not and
`Inexact` when it is in the range but is not `x`. -/
structure Converted (ibits : ℕ) (unsigned : Bool) (rounding : RoundingMode) (x : ℚ) (fpsr : FPSR) (result : BitVec 64) (fpsr' : FPSR) :
    Prop where
  value : (result.toNat : ℤ) = max (minFixed ibits unsigned) (min (rounding.round x) (maxFixed ibits unsigned)) % 2 ^ ibits
  invalidOp : fpsr'.raised .invalidOp = true ↔
    fpsr.raised .invalidOp = true ∨ ¬ (minFixed ibits unsigned ≤ rounding.round x ∧ rounding.round x ≤ maxFixed ibits unsigned)
  inexact : fpsr'.raised .inexact = true ↔
    fpsr.raised .inexact = true ∨
      minFixed ibits unsigned ≤ rounding.round x ∧ rounding.round x ≤ maxFixed ibits unsigned ∧ (rounding.round x : ℚ) ≠ x

/-- The bound next to an infinite operand, and `InvalidOp`. -/
structure Saturated (ibits : ℕ) (unsigned sign : Bool) (fpsr : FPSR) (result : BitVec 64) (fpsr' : FPSR) : Prop where
  value : (result.toNat : ℤ) = (if sign then minFixed ibits unsigned else maxFixed ibits unsigned) % 2 ^ ibits
  invalidOp : fpsr'.raised .invalidOp = true
  inexact : fpsr'.raised .inexact = fpsr.raised .inexact

/-- **The conversion is right**, whatever exceptions have been raised before. -/
def FixedRight {t : FPT} (ibits : ℕ) (op : BitVec (totalWidth t)) (fbits : ℕ) (unsigned : Bool) (fpcr : FPCR)
    (rounding : RoundingMode) : Prop :=
  ∀ fpsr, ∃ result fpsr', fpToFixed ibits op fbits unsigned fpcr rounding fpsr = some (result, fpsr') ∧
    (IsFinite op → Converted ibits unsigned rounding (value op * 2 ^ fbits) fpsr result fpsr') ∧
    (IsInfinity op → Saturated ibits unsigned (signBit op) fpsr result fpsr')

/-! ## Rounding up -/

/-- The bits that the modes look at are the parity and the sign of the integer below. -/
lemma fixedRoundUp_eq {rounding : RoundingMode} {x : ℚ} (hmode : rounding ≠ .toOdd)
    (hsign : Int.fract x ≠ 0 → ((BitVec.ofInt 64 ⌊x⌋).msb = true ↔ x < 0)) :
    fixedRoundUp rounding (.of x) (BitVec.ofInt 64 ⌊x⌋) = some (decide (rounding.RoundsUp x)) := by
  have hodd : (BitVec.ofInt 64 ⌊x⌋).getLsbD 0 = true ↔ ¬ Even ⌊x⌋ := by
    rw [BitVec.getLsbD, BitVec.toNat_ofInt, Nat.testBit_zero, decide_eq_true_iff, Int.not_even_iff]
    omega
  cases rounding with
  | toNearestTieEven =>
    refine congrArg some (Bool.eq_iff_iff.2 ?_)
    simp only [Bool.or_eq_true, Bool.and_eq_true, decide_eq_true_iff, ResidualError.of_eq_half,
      ResidualError.of_eq_greaterThanHalf, hodd]
    rfl
  | towardsPlusInfinity =>
    refine congrArg some (Bool.eq_iff_iff.2 ?_)
    simp only [decide_eq_true_iff, ne_eq, ResidualError.of_eq_zero]
    rfl
  | towardsMinusInfinity => rfl
  | towardsZero =>
    refine congrArg some (Bool.eq_iff_iff.2 ?_)
    simp only [Bool.and_eq_true, decide_eq_true_iff, ne_eq, ResidualError.of_eq_zero]
    exact and_congr_right hsign
  | toNearestTieAwayFromZero =>
    refine congrArg some (Bool.eq_iff_iff.2 ?_)
    simp only [Bool.or_eq_true, Bool.and_eq_true, decide_eq_true_iff, Bool.not_eq_true', ← Bool.not_eq_true,
      ResidualError.of_eq_half, ResidualError.of_eq_greaterThanHalf]
    refine or_congr_right (and_congr_right fun hhalf => ?_)
    rw [hsign (by rw [hhalf]; norm_num), not_lt]
  | toOdd => exact absurd rfl hmode

/-! ## Overflow -/

variable {m : BitVec 64}

/-- The exponents from which on a number is at least a power of two. -/
lemma sub_highestSetBit_le_iff (hm : m ≠ 0) (k e : ℤ) : k - highestSetBit m ≤ e ↔ (2 : ℚ) ^ k ≤ m.toNat * 2 ^ e := by
  obtain ⟨n, -, hbit, hlow, hhigh⟩ := exists_highestSetBit hm
  have hlow' : (2 : ℚ) ^ (n : ℤ) ≤ m.toNat := by exact_mod_cast hlow
  have hhigh' : (m.toNat : ℚ) < 2 ^ ((n : ℤ) + 1) := by exact_mod_cast hhigh
  have hpos : (0 : ℚ) < 2 ^ e := zpow_pos two_pos _
  rw [hbit]
  constructor
  · intro h
    calc (2 : ℚ) ^ k ≤ 2 ^ (n + e) := zpow_le_zpow_right₀ one_le_two (by omega)
      _ = 2 ^ (n : ℤ) * 2 ^ e := zpow_add₀ two_ne_zero _ _
      _ ≤ m.toNat * 2 ^ e := mul_le_mul_of_nonneg_right hlow' hpos.le
  · intro h
    by_contra hlt
    refine absurd h (not_le.2 ?_)
    calc (m.toNat : ℚ) * 2 ^ e < 2 ^ ((n : ℤ) + 1) * 2 ^ e := mul_lt_mul_of_pos_right hhigh' hpos
      _ = 2 ^ ((n : ℤ) + 1 + e) := (zpow_add₀ two_ne_zero _ _).symm
      _ ≤ 2 ^ k := zpow_le_zpow_right₀ one_le_two (by omega)

variable {e : ℤ} {k : ℕ}

/-- **What is compared**: the magnitude, with the one that has been added. -/
lemma overflow_iff {up : Bool} (hlow : 2 ^ 62 ≤ m.toNat) (hhigh : m.toNat < 2 ^ 63) (hk : 1 ≤ k)
    (hup : up = true → Int.fract ((m.toNat : ℚ) * 2 ^ e) ≠ 0) :
    (k : ℤ) - highestSetBit (m + if up then logicalShiftRight 1 e else 0) ≤ e ↔
      (2 : ℚ) ^ k ≤ m.toNat * 2 ^ e + if up then 1 else 0 := by
  have hne : m ≠ 0 := by
    rintro rfl
    simp at hlow
  cases up with
  | false =>
    rw [if_neg Bool.false_ne_true, if_neg Bool.false_ne_true, add_zero, add_zero, sub_highestSetBit_le_iff hne, zpow_natCast]
  | true =>
    rw [if_pos rfl, if_pos rfl]
    have hneg : e < 0 := by
      by_contra hnonneg
      obtain ⟨j, rfl⟩ := Int.eq_ofNat_of_zero_le (not_lt.1 hnonneg)
      refine hup rfl ?_
      have hint : (m.toNat : ℚ) * 2 ^ (j : ℤ) = ((m.toNat * 2 ^ j : ℕ) : ℚ) := by
        push_cast
        rfl
      rw [hint, Int.fract_natCast]
    obtain ⟨j, rfl⟩ : ∃ j : ℕ, e = -j := ⟨(-e).toNat, by omega⟩
    rw [logicalShiftRight, if_neg (by omega), if_pos hneg]
    by_cases hlarge : 64 ≤ - -(j : ℤ)
    · -- the number is less than a half, and its exponent is not enough with or without the one
      have hzero : m + 0 = m := BitVec.add_zero m
      have hsmall : (m.toNat : ℚ) * 2 ^ (-(j : ℤ)) ≤ 1 / 2 := by
        have hhigh' : (m.toNat : ℚ) ≤ 2 ^ 63 := by exact_mod_cast hhigh.le
        have hpow : (2 : ℚ) ^ (-(j : ℤ)) ≤ 2 ^ (-64 : ℤ) := zpow_le_zpow_right₀ one_le_two (by omega)
        calc (m.toNat : ℚ) * 2 ^ (-(j : ℤ)) ≤ 2 ^ 63 * 2 ^ (-64 : ℤ) :=
              mul_le_mul hhigh' hpow (zpow_pos two_pos _).le (by norm_num)
          _ = 1 / 2 := by norm_num
      have htwo : (2 : ℚ) ≤ 2 ^ k := by
        calc (2 : ℚ) = 2 ^ 1 := (pow_one _).symm
          _ ≤ 2 ^ k := pow_le_pow_right₀ one_le_two hk
      rw [if_pos hlarge, hzero, sub_highestSetBit_le_iff hne, zpow_natCast]
      constructor <;> intro h <;> linarith
    · have hj : (- -(j : ℤ)).toNat = j := by omega
      have hbit : ((1 : BitVec 64) <<< j).toNat = 2 ^ j := by
        have hlt : 2 ^ j < 2 ^ 64 := Nat.pow_lt_pow_right (by decide) (by omega)
        rw [BitVec.toNat_shiftLeft, Nat.shiftLeft_eq]
        simpa using hlt
      have hpow : 2 ^ j ≤ 2 ^ 63 := Nat.pow_le_pow_right (by decide) (by omega)
      have hsum : (m + (1 : BitVec 64) <<< j).toNat = m.toNat + 2 ^ j := by
        rw [BitVec.toNat_add, hbit, Nat.mod_eq_of_lt (by omega)]
      have hsum_ne : m + (1 : BitVec 64) <<< j ≠ 0 := by
        intro h
        rw [h] at hsum
        have hzero : (0 : BitVec 64).toNat = 0 := rfl
        omega
      have hone : (2 : ℚ) ^ j * 2 ^ (-(j : ℤ)) = 1 := by
        rw [zpow_neg, zpow_natCast]
        exact mul_inv_cancel₀ (by positivity)
      rw [if_neg hlarge, hj, sub_highestSetBit_le_iff hsum_ne, hsum, zpow_natCast]
      push_cast
      rw [add_mul, hone]

/-! ## The result in terms of the rounded value -/

variable {t : FPT} {op : BitVec (totalWidth t)} {ibits fbits : ℕ} {unsigned : Bool} {fpcr : FPCR} {rounding : RoundingMode}

def magnitudeBits (ibits : ℕ) (unsigned : Bool) : ℕ := ibits - if unsigned then 0 else 1

def increment (rounding : RoundingMode) (x : ℚ) : ℚ := if rounding.RoundsUp x then 1 else 0

lemma toInt_signed {sign : Bool} (hhigh : m.toNat < 2 ^ 63) :
    ((if sign then negate m else m).toInt : ℚ) = sgn sign * m.toNat := by
  cases sign with
  | false => simp [sgn, BitVec.toInt_eq_toNat_of_lt (show 2 * m.toNat < 2 ^ 64 by omega)]
  | true => simp [sgn, toInt_negate hhigh]

/-- The sign of the number below, which is a word. -/
lemma msb_floor (hfract : Int.fract ((m.toInt : ℚ) * 2 ^ e) ≠ 0) :
    (BitVec.ofInt 64 ⌊(m.toInt : ℚ) * 2 ^ e⌋).msb = true ↔ (m.toInt : ℚ) * 2 ^ e < 0 := by
  have hneg : e < 0 := by
    by_contra hnonneg
    obtain ⟨j, rfl⟩ := Int.eq_ofNat_of_zero_le (not_lt.1 hnonneg)
    have hint : (m.toInt : ℚ) * 2 ^ (j : ℤ) = ((m.toInt * 2 ^ j : ℤ) : ℚ) := by
      push_cast
      rfl
    exact hfract (by rw [hint, Int.fract_intCast])
  obtain ⟨j, rfl⟩ : ∃ j : ℕ, e = -j := ⟨(-e).toNat, by omega⟩
  rw [floor_toInt_zpow_neg, ← BitVec.toInt_sshiftRight, BitVec.ofInt_toInt, BitVec.msb_eq_toInt, decide_eq_true_iff,
    BitVec.toInt_sshiftRight, ← floor_toInt_zpow_neg, Int.floor_lt]
  simp

/-- **What the function does with a finite operand that is not zero.** -/
lemma fpToFixed_eq (hop : IsFinite op) (hkeeps : fpcr.KeepsSubnormals) (hibits : 2 ≤ ibits ∧ ibits ≤ 64)
    (hmode : rounding ≠ .toOdd) (hvalue : value op ≠ 0) (fpsr : FPSR) :
    fpToFixed ibits op fbits unsigned fpcr rounding fpsr = some (
      let x := value op * 2 ^ fbits
      let k := magnitudeBits ibits unsigned
      if signBit op && unsigned then (0, fpProcessException .invalidOp fpsr)
      else if 2 ^ k ≤ |x| + increment rounding x ∧ (unsigned || !signBit op) then (ones k, fpProcessException .invalidOp fpsr)
      else if 2 ^ k ≤ |x| + increment rounding x ∧
          ¬ (|x| + increment rounding x < 2 ^ (k + 1) ∧ BitVec.ofInt 64 (rounding.round x) = BitVec.ofInt 64 (-2 ^ (ibits - 1))) then
        ((1 : BitVec 64) <<< (ibits - 1), fpProcessException .invalidOp fpsr)
      else (BitVec.ofInt 64 (rounding.round x) &&& ones ibits, if Int.fract x ≠ 0 then fpProcessException .inexact fpsr else fpsr)) := by
  obtain ⟨u, hunpack, hu⟩ := fpUnpack_finite hop hkeeps fpsr
  obtain ⟨hlow, hhigh⟩ := hu.normalized hvalue
  have hne : u.mantissa ≠ 0 := by
    intro h
    rw [h] at hlow
    simp at hlow
  generalize he : u.exponent + fbits - (normalizedPointPosition : ℤ) = e
  generalize hword : (if signBit op then negate u.mantissa else u.mantissa) = word
  have hmagnitude : value op * 2 ^ fbits = sgn (signBit op) * (u.mantissa.toNat * 2 ^ e) := by
    have hpow : (2 : ℚ) ^ (u.exponent - (normalizedPointPosition : ℤ)) * 2 ^ fbits = 2 ^ e := by
      rw [← zpow_natCast, ← zpow_add₀ two_ne_zero, ← he]
      congr 1
      ring
    rw [← hu.value, FPUnpacked.value, hu.sign, mul_assoc, mul_assoc, hpow]
  have hx : value op * 2 ^ fbits = word.toInt * 2 ^ e := by
    rw [hmagnitude, ← hword, toInt_signed hhigh, mul_assoc]
  have habs : |value op * 2 ^ fbits| = u.mantissa.toNat * 2 ^ e := by
    rw [hmagnitude, abs_mul, abs_sgn, one_mul]
    exact abs_of_nonneg (mul_nonneg (Nat.cast_nonneg _) (zpow_pos two_pos _).le)
  have herror : residualErrorOnRightShift word (-e) = .of (value op * 2 ^ fbits) := by
    rw [residualErrorOnRightShift_eq, neg_neg, hx]
  have hfloor : arithmeticShiftLeft word e = BitVec.ofInt 64 ⌊value op * 2 ^ fbits⌋ := by rw [arithmeticShiftLeft_eq, hx]
  have hround : fixedRoundUp rounding (.of (value op * 2 ^ fbits)) (BitVec.ofInt 64 ⌊value op * 2 ^ fbits⌋) =
      some (decide (rounding.RoundsUp (value op * 2 ^ fbits))) := by
    refine fixedRoundUp_eq hmode fun hfract => ?_
    rw [hx] at hfract ⊢
    exact msb_floor hfract
  have hresult : (if decide (rounding.RoundsUp (value op * 2 ^ fbits)) = true then BitVec.ofInt 64 ⌊value op * 2 ^ fbits⌋ + 1
      else BitVec.ofInt 64 ⌊value op * 2 ^ fbits⌋) = BitVec.ofInt 64 (rounding.round (value op * 2 ^ fbits)) := by
    rw [RoundingMode.round_eq]
    by_cases hup : rounding.RoundsUp (value op * 2 ^ fbits)
    · rw [if_pos (decide_eq_true hup), if_pos hup, BitVec.ofInt_add]
      rfl
    · rw [if_neg (by simpa using hup), if_neg hup]
  have hk : (ibits : ℤ) - highestSetBit (u.mantissa + if decide (rounding.RoundsUp (value op * 2 ^ fbits)) = true then
      logicalShiftRight 1 e else 0) - (if unsigned = true then 0 else 1) = magnitudeBits ibits unsigned -
        highestSetBit (u.mantissa + if decide (rounding.RoundsUp (value op * 2 ^ fbits)) = true then logicalShiftRight 1 e else 0) := by
    have hbits : (magnitudeBits ibits unsigned : ℤ) = ibits - if unsigned = true then 0 else 1 := by
      cases unsigned with
      | false =>
        rw [magnitudeBits, if_neg Bool.false_ne_true, if_neg Bool.false_ne_true]
        omega
      | true => simp [magnitudeBits]
    rw [hbits]
    ring
  have hbits : 1 ≤ magnitudeBits ibits unsigned := by
    rw [magnitudeBits]
    split_ifs <;> omega
  have hup : ∀ k, 1 ≤ k → (((k : ℕ) : ℤ) - highestSetBit (u.mantissa +
      if decide (rounding.RoundsUp (value op * 2 ^ fbits)) = true then logicalShiftRight 1 e else 0) ≤ e ↔
        (2 : ℚ) ^ k ≤ |value op * 2 ^ fbits| + increment rounding (value op * 2 ^ fbits)) := by
    intro k hk
    rw [overflow_iff hlow hhigh hk, habs, increment]
    · simp only [decide_eq_true_iff]
    · intro hup
      have hfract := (of_decide_eq_true hup).fract_ne_zero
      rw [← habs]
      rcases abs_choice (value op * 2 ^ fbits) with h | h
      · rwa [h]
      · rw [h]
        exact mt Int.fract_neg_eq_zero.1 hfract
  have hmin : negate ((1 : BitVec 64) <<< (ibits - 1)) = BitVec.ofInt 64 (-2 ^ (ibits - 1)) := by
    have hneg : negate ((1 : BitVec 64) <<< (ibits - 1)) = -((1 : BitVec 64) <<< (ibits - 1)) := (BitVec.neg_eq_not_add _).symm
    rw [hneg, BitVec.ofInt_neg, ofInt_two_pow, BitVec.shiftLeft_eq_mul_twoPow]
    exact congrArg _ (BitVec.one_mul _)
  rw [if_neg hvalue] at hunpack
  rw [fpToFixed, hunpack]
  simp only [he, hword, herror, hfloor, hround, Option.map_some, hresult, hk, hmin]
  have hnan : ¬ (FPType.nonzero = .sNaN ∨ FPType.nonzero = .qNaN) := by decide
  rw [if_neg hne, if_neg hnan]
  by_cases hsign : (signBit op && unsigned) = true
  · rw [if_pos hsign, if_pos hsign]
  · have hexponent : e = magnitudeBits ibits unsigned - highestSetBit (u.mantissa +
        if decide (rounding.RoundsUp (value op * 2 ^ fbits)) = true then logicalShiftRight 1 e else 0) ↔
        2 ^ magnitudeBits ibits unsigned ≤ |value op * 2 ^ fbits| + increment rounding (value op * 2 ^ fbits) ∧
          |value op * 2 ^ fbits| + increment rounding (value op * 2 ^ fbits) < 2 ^ (magnitudeBits ibits unsigned + 1) := by
      rw [← not_le, ← hup _ hbits, ← hup (magnitudeBits ibits unsigned + 1) (by omega)]
      push_cast
      omega
    rw [if_neg hsign, if_neg hsign]
    refine congrArg some ?_
    simp only [hup _ hbits, hexponent, ne_eq, ResidualError.of_eq_zero]
    by_cases hover : 2 ^ magnitudeBits ibits unsigned ≤ |value op * 2 ^ fbits| + increment rounding (value op * 2 ^ fbits)
    · simp only [hover, true_and]
      rfl
    · simp only [hover, false_and, if_false]

/-! ## Rounded values -/

variable {x : ℚ}

/-- The integer below, or the one above of what is none. -/
lemma round_cases (rounding : RoundingMode) (x : ℚ) :
    (¬ rounding.RoundsUp x ∧ rounding.round x = ⌊x⌋ ∧ increment rounding x = 0) ∨
      (rounding.RoundsUp x ∧ rounding.round x = ⌊x⌋ + 1 ∧ increment rounding x = 1 ∧ (⌊x⌋ : ℚ) < x) := by
  rw [RoundingMode.round_eq, increment]
  by_cases hup : rounding.RoundsUp x
  · have hlt : (⌊x⌋ : ℚ) < x := lt_of_le_of_ne (Int.floor_le x) fun h => hup.fract_ne_zero (by rw [Int.fract, h, sub_self])
    exact .inr ⟨hup, if_pos hup, if_pos hup, hlt⟩
  · exact .inl ⟨hup, if_neg hup, if_neg hup⟩

lemma fract_ne_zero_iff (rounding : RoundingMode) (x : ℚ) : Int.fract x ≠ 0 ↔ (rounding.round x : ℚ) ≠ x := by
  refine not_congr ⟨fun hfract => ?_, fun hround => ?_⟩
  · have hx : (⌊x⌋ : ℚ) = x := by linarith [Int.self_sub_floor x]
    rcases round_cases rounding x with ⟨-, hround, -⟩ | ⟨-, -, -, hlt⟩
    · rw [hround, hx]
    · exact absurd hx hlt.ne
  · rw [← hround, Int.fract_intCast]

lemma round_nonneg (rounding : RoundingMode) (hx : 0 ≤ x) : 0 ≤ rounding.round x := by
  have hfloor := Int.floor_nonneg.2 hx
  rcases round_cases rounding x with ⟨-, hround, -⟩ | ⟨-, hround, -⟩ <;> omega

lemma round_nonpos (rounding : RoundingMode) (hx : x ≤ 0) : rounding.round x ≤ 0 := by
  rcases round_cases rounding x with ⟨-, hround, -⟩ | ⟨-, hround, -, hlt⟩
  · rw [hround]
    exact_mod_cast (Int.floor_le x).trans hx
  · have hneg : (⌊x⌋ : ℚ) < 0 := hlt.trans_le hx
    have hint : ⌊x⌋ < 0 := by exact_mod_cast hneg
    omega

/-- Overflow of what is not negative. -/
lemma le_add_increment_iff (rounding : RoundingMode) (x : ℚ) (n : ℤ) : (n : ℚ) ≤ x + increment rounding x ↔ n ≤ rounding.round x := by
  rcases round_cases rounding x with ⟨-, hround, hinc⟩ | ⟨-, hround, hinc, -⟩
  · rw [hround, hinc, add_zero, Int.le_floor]
  · rw [hround, hinc, ← Int.floor_add_one, Int.le_floor]

/-- Integers that are near each other are different words. -/
lemma ofInt_ne {a b : ℤ} (hlt : a < b) (hnear : b - a < 2 ^ 64) : BitVec.ofInt 64 a ≠ BitVec.ofInt 64 b := by
  intro h
  have htoNat := congrArg BitVec.toNat h
  rw [BitVec.toNat_ofInt, BitVec.toNat_ofInt] at htoNat
  omega

/-- **What is found to overflow below the range**: that, and what is rounded up from next to the least number. -/
lemma negative_overflow_iff (rounding : RoundingMode) (x : ℚ) {l : ℤ} (hl : 2 ≤ l) (hl' : l ≤ 2 ^ 63) :
    ((l : ℚ) ≤ -x + increment rounding x ∧
        ¬ (-x + increment rounding x < 2 * l ∧ BitVec.ofInt 64 (rounding.round x) = BitVec.ofInt 64 (-l))) ↔
      rounding.round x < -l ∨ (-l : ℚ) < x ∧ x < -l + 1 ∧ rounding.RoundsUp x := by
  have hl'' : (2 : ℚ) ≤ l := by exact_mod_cast hl
  have hlow := Int.floor_le x
  have hhigh := Int.lt_floor_add_one x
  rcases round_cases rounding x with ⟨hup, hround, hinc⟩ | ⟨hup, hround, hinc, hlt⟩
  · rw [hround, hinc, add_zero]
    constructor
    · rintro ⟨hover, hleast⟩
      have hle : ⌊x⌋ ≤ -l := by
        have hcast : (⌊x⌋ : ℚ) ≤ ((-l : ℤ) : ℚ) := by push_cast; linarith
        exact_mod_cast hcast
      refine .inl (lt_of_le_of_ne hle fun heq => hleast ⟨?_, by rw [heq]⟩)
      have hcast : (⌊x⌋ : ℚ) = -l := by rw [heq]; push_cast; rfl
      linarith
    · rintro (hbelow | ⟨-, -, hup'⟩)
      · have hcast : (⌊x⌋ : ℚ) + 1 ≤ -l := by exact_mod_cast hbelow
        refine ⟨by linarith, fun ⟨hnear, heq⟩ => ofInt_ne hbelow ?_ heq⟩
        have hdist : -(2 * l) < ⌊x⌋ + 1 := by
          have hcast' : ((-(2 * l) : ℤ) : ℚ) < ((⌊x⌋ + 1 : ℤ) : ℚ) := by push_cast; linarith
          exact_mod_cast hcast'
        omega
      · exact absurd hup' hup
  · rw [hround, hinc]
    constructor
    · rintro ⟨hover, hleast⟩
      have hle : ⌊x⌋ < 1 - l := by
        have hcast : (⌊x⌋ : ℚ) < ((1 - l : ℤ) : ℚ) := by push_cast; linarith
        exact_mod_cast hcast
      rcases lt_trichotomy ⌊x⌋ (-l - 1) with hfloor | hfloor | hfloor
      · exact .inl (by omega)
      · refine absurd ⟨?_, by rw [hfloor]; congr 1; ring⟩ hleast
        have hcast : (⌊x⌋ : ℚ) = -l - 1 := by rw [hfloor]; push_cast; rfl
        linarith
      · have hcast : (⌊x⌋ : ℚ) = -l := by
          rw [show ⌊x⌋ = -l by omega]
          push_cast
          rfl
        exact .inr ⟨by linarith, by linarith, hup⟩
    · rintro (hbelow | ⟨habove, hnext, -⟩)
      · have hint : ⌊x⌋ + 2 ≤ -l := by omega
        have hcast : (⌊x⌋ : ℚ) + 2 ≤ -l := by exact_mod_cast hint
        refine ⟨by linarith, fun ⟨hnear, heq⟩ => ofInt_ne hbelow ?_ heq⟩
        have hdist : 1 - 2 * l < ⌊x⌋ + 1 := by
          have hcast' : ((1 - 2 * l : ℤ) : ℚ) < ((⌊x⌋ + 1 : ℤ) : ℚ) := by push_cast; linarith
          exact_mod_cast hcast'
        omega
      · have hfloor : ⌊x⌋ = -l := by
          rw [Int.floor_eq_iff]
          push_cast
          exact ⟨habove.le, hnext⟩
        refine ⟨by linarith, fun ⟨_, heq⟩ => ofInt_ne (show -l < ⌊x⌋ + 1 by omega) ?_ heq.symm⟩
        omega

/-! ## When the conversion is right -/

lemma minFixed_le_maxFixed (unsigned : Bool) (hibits : 2 ≤ ibits) : minFixed ibits unsigned ≤ 0 ∧ 0 < maxFixed ibits unsigned := by
  have hpow : (2 : ℤ) ≤ 2 ^ (ibits - 1) := by
    calc (2 : ℤ) = 2 ^ 1 := (pow_one _).symm
      _ ≤ 2 ^ (ibits - 1) := pow_le_pow_right₀ (by norm_num) (by omega)
  have hpow' : (2 : ℤ) ^ (ibits - 1) ≤ 2 ^ ibits := pow_le_pow_right₀ (by norm_num) (by omega)
  cases unsigned <;> simp only [minFixed, maxFixed, if_true, if_false, Bool.false_eq_true] <;> omega

lemma maxFixed_eq (ibits : ℕ) (unsigned : Bool) : maxFixed ibits unsigned = 2 ^ magnitudeBits ibits unsigned - 1 := by
  cases unsigned <;> rfl

lemma converted_within (hibits : ibits ≤ 64) (fpsr : FPSR) (hmin : minFixed ibits unsigned ≤ rounding.round x)
    (hmax : rounding.round x ≤ maxFixed ibits unsigned) :
    Converted ibits unsigned rounding x fpsr (BitVec.ofInt 64 (rounding.round x) &&& ones ibits)
      (if Int.fract x ≠ 0 then fpProcessException .inexact fpsr else fpsr) := by
  refine ⟨?_, ?_, ?_⟩
  · have hdvd : ((2 : ℤ) ^ ibits) ∣ 2 ^ 64 := pow_dvd_pow 2 hibits
    have hword : ((BitVec.ofInt 64 (rounding.round x)).toNat : ℤ) = rounding.round x % 2 ^ 64 := by
      rw [BitVec.toNat_ofInt]
      omega
    rw [min_eq_left hmax, max_eq_right hmin, and_ones_toNat _ hibits]
    push_cast
    rw [hword, Int.emod_emod_of_dvd _ hdvd]
  · split_ifs <;> simp [hmin, hmax]
  · rw [← fract_ne_zero_iff]
    by_cases hfract : Int.fract x ≠ 0
    · simp [hfract, hmin, hmax]
    · simp [hfract]

variable {result : BitVec 64}

lemma converted_outside (fpsr : FPSR)
    (hout : ¬ (minFixed ibits unsigned ≤ rounding.round x ∧ rounding.round x ≤ maxFixed ibits unsigned))
    (hresult : (result.toNat : ℤ) = max (minFixed ibits unsigned) (min (rounding.round x) (maxFixed ibits unsigned)) % 2 ^ ibits) :
    Converted ibits unsigned rounding x fpsr result (fpProcessException .invalidOp fpsr) := by
  refine ⟨hresult, ?_, ?_⟩
  · simp [hout]
  · rw [← and_assoc]
    simp [hout]

lemma not_converted_within (hmin : minFixed ibits unsigned ≤ rounding.round x)
    (hmax : rounding.round x ≤ maxFixed ibits unsigned) :
    ¬ Converted ibits unsigned rounding x ⟨0⟩ result (fpProcessException .invalidOp ⟨0⟩) := by
  intro h
  have hraised := h.invalidOp.1 (by simp)
  have hnone : (FPSR.mk 0).raised .invalidOp ≠ true := by decide
  exact hraised.elim hnone fun hout => hout ⟨hmin, hmax⟩

lemma converted_zero (fbits : ℕ) (unsigned : Bool) (rounding : RoundingMode) (hop : IsFinite op) (hkeeps : fpcr.KeepsSubnormals)
    (hibits : 2 ≤ ibits ∧ ibits ≤ 64) (hvalue : value op = 0) (fpsr : FPSR) :
    fpToFixed ibits op fbits unsigned fpcr rounding fpsr = some (0, fpsr) ∧
      Converted ibits unsigned rounding (value op * 2 ^ fbits) fpsr 0 fpsr := by
  obtain ⟨u, hunpack, hu⟩ := fpUnpack_finite hop hkeeps fpsr
  have hround : rounding.round 0 = 0 := le_antisymm (round_nonpos _ le_rfl) (round_nonneg _ le_rfl)
  have hbounds := minFixed_le_maxFixed unsigned hibits.1
  constructor
  · rw [if_pos hvalue] at hunpack
    rw [fpToFixed, hunpack]
    simp [hu.zero hvalue]
  · have hwithin := converted_within (x := 0) hibits.2 fpsr (hround ▸ hbounds.1) (hround ▸ hbounds.2.le)
    rw [hround, Int.fract_zero, if_neg (not_not.2 rfl)] at hwithin
    rw [hvalue, zero_mul]
    have hzero : BitVec.ofInt 64 0 &&& ones ibits = 0 := BitVec.zero_and
    rwa [hzero] at hwithin

lemma ones_toNat_int (hk : k ≤ 64) : ((ones k).toNat : ℤ) = 2 ^ k - 1 := by
  rw [ones_toNat hk, Nat.cast_sub Nat.one_le_two_pow]
  push_cast
  rfl

lemma ones_eq_max (unsigned : Bool) (hibits : ibits ≤ 64) :
    ((ones (magnitudeBits ibits unsigned)).toNat : ℤ) = maxFixed ibits unsigned % 2 ^ ibits := by
  have hle : magnitudeBits ibits unsigned ≤ ibits := Nat.sub_le _ _
  have hpow : (2 : ℤ) ^ magnitudeBits ibits unsigned ≤ 2 ^ ibits := pow_le_pow_right₀ (by norm_num) hle
  have hpos : (0 : ℤ) < 2 ^ magnitudeBits ibits unsigned := by positivity
  rw [ones_toNat_int (hle.trans hibits), maxFixed_eq, Int.emod_eq_of_lt (by omega) (by omega)]

lemma one_shiftLeft_eq_min (hibits : 1 ≤ ibits ∧ ibits ≤ 64) :
    (((1 : BitVec 64) <<< (ibits - 1)).toNat : ℤ) = minFixed ibits false % 2 ^ ibits := by
  obtain ⟨k, rfl⟩ : ∃ k, ibits = k + 1 := ⟨ibits - 1, by omega⟩
  have hlt : 2 ^ k < 2 ^ 64 := Nat.pow_lt_pow_right (by decide) (by omega)
  have hone : ((1 : BitVec 64) <<< k).toNat = 2 ^ k := by
    rw [BitVec.toNat_shiftLeft, Nat.shiftLeft_eq]
    simpa using hlt
  have hpos : (0 : ℤ) < 2 ^ k := by positivity
  have hdouble : (2 : ℤ) ^ (k + 1) = 2 ^ k + 2 ^ k := by ring
  rw [Nat.add_sub_cancel, hone, minFixed, if_neg Bool.false_ne_true, Nat.add_sub_cancel, hdouble, ← Int.add_emod_right,
    Int.emod_eq_of_lt (by omega) (by omega)]
  push_cast
  ring

lemma saturated_infinity (fbits : ℕ) (hop : IsInfinity op) (hibits : 2 ≤ ibits ∧ ibits ≤ 64) (hmode : rounding ≠ .toOdd)
    (fpsr : FPSR) :
    ∃ result, fpToFixed ibits op fbits unsigned fpcr rounding fpsr = some (result, fpProcessException .invalidOp fpsr) ∧
      Saturated ibits unsigned (signBit op) fpsr result (fpProcessException .invalidOp fpsr) := by
  have hmantissa : ¬ BitVec.twoPow 64 62 = 0 := by decide
  have hbit : highestSetBit (BitVec.twoPow 64 62) = 62 := by decide
  have herror : ∀ word, residualErrorOnRightShift word (-(1000000 + (fbits : ℤ) - normalizedPointPosition)) = .zero :=
    fun word => if_pos (.inl (by rw [normalizedPointPosition]; omega))
  have hround : ∀ word, fixedRoundUp rounding .zero word = some false := by
    intro word
    cases rounding <;> first | rfl | exact absurd rfl hmode
  have hover : (ibits : ℤ) - 62 - (if unsigned = true then 0 else 1) ≤ 1000000 + (fbits : ℤ) - normalizedPointPosition := by
    rw [normalizedPointPosition]
    split_ifs <;> omega
  have hne : ¬ 1000000 + (fbits : ℤ) - normalizedPointPosition = ibits - 62 - 1 := by
    rw [normalizedPointPosition]
    omega
  have hnan : ¬ (FPType.infinity = .sNaN ∨ FPType.infinity = .qNaN) := by decide
  rw [fpToFixed, fpUnpack_infinity hop]
  simp only [if_neg hmantissa, if_neg hnan, herror, hround, Option.map_some, Bool.false_eq_true, if_false, add_zero, hbit]
  have hmax := ones_eq_max unsigned hibits.2
  have hmin := one_shiftLeft_eq_min (show 1 ≤ ibits ∧ ibits ≤ 64 from ⟨by omega, hibits.2⟩)
  have hraised : (fpProcessException .invalidOp fpsr).raised .invalidOp = true ∧
      (fpProcessException .invalidOp fpsr).raised .inexact = fpsr.raised .inexact := by simp
  cases hsign : signBit op with
  | false =>
    refine ⟨ones (magnitudeBits ibits unsigned), ?_, hmax, hraised.1, hraised.2⟩
    simp only [hover, Bool.false_and, Bool.not_false, Bool.or_true, and_self, if_true, Bool.false_eq_true, if_false]
    rfl
  | true =>
    cases unsigned with
    | false =>
      refine ⟨(1 : BitVec 64) <<< (ibits - 1), ?_, hmin, hraised.1, hraised.2⟩
      rw [if_neg Bool.false_ne_true] at hover
      simp [hover, hne]
    | true => exact ⟨0, by simp, by simp [minFixed], hraised.1, hraised.2⟩

/-- The bound that numbers are wrongly said to be outside of, from below or from above. -/
def edge (ibits : ℕ) (unsigned : Bool) : ℤ := if unsigned then -1 else -2 ^ (ibits - 1)

lemma edge_neg (ibits : ℕ) (unsigned : Bool) : (edge ibits unsigned : ℚ) + 1 ≤ 0 := by
  have hint : edge ibits unsigned + 1 ≤ 0 := by
    have hpos : (0 : ℤ) < 2 ^ (ibits - 1) := by positivity
    cases unsigned <;> simp only [edge, if_true, if_false, Bool.false_eq_true] <;> omega
  exact_mod_cast hint

lemma value_neg_iff (hvalue : value op ≠ 0) : value op < 0 ↔ signBit op = true := by
  rw [value] at hvalue ⊢
  have hnonneg : (0 : ℚ) ≤ if expRaw op = 0 then fracRaw op * (2 : ℚ) ^ (exponentMin t - explicitMantissaWidth t)
      else (2 ^ explicitMantissaWidth t + fracRaw op) * (2 : ℚ) ^ (expRaw op - exponentBias t - explicitMantissaWidth t) := by
    split_ifs
    · exact mul_nonneg (Nat.cast_nonneg _) (zpow_pos two_pos _).le
    · exact mul_nonneg (by positivity) (zpow_pos two_pos _).le
  cases hsign : signBit op with
  | false =>
    rw [sgn, if_neg Bool.false_ne_true, one_mul]
    exact iff_of_false hnonneg.not_gt Bool.false_ne_true
  | true =>
    rw [hsign] at hvalue
    have hpos := lt_of_le_of_ne hnonneg (right_ne_zero_of_mul hvalue).symm
    rw [sgn, if_pos rfl, neg_one_mul, neg_lt_zero]
    exact iff_of_true hpos rfl

lemma fixedRight_iff_converted (hop : IsFinite op) {result : FPSR → BitVec 64 × FPSR}
    (hresult : ∀ fpsr, fpToFixed ibits op fbits unsigned fpcr rounding fpsr = some (result fpsr)) :
    FixedRight ibits op fbits unsigned fpcr rounding ↔
      ∀ fpsr, Converted ibits unsigned rounding (value op * 2 ^ fbits) fpsr (result fpsr).1 (result fpsr).2 := by
  have hinf : ¬ IsInfinity op := fun h => hop h.1
  constructor
  · intro h fpsr
    obtain ⟨word, fpsr', heq, hconverted, -⟩ := h fpsr
    rw [hresult] at heq
    obtain ⟨rfl, rfl⟩ := Prod.mk.inj (Option.some.inj heq)
    exact hconverted hop
  · exact fun h fpsr => ⟨_, _, hresult fpsr, fun _ => h fpsr, fun h' => absurd h' hinf⟩

lemma converted_nonneg (unsigned : Bool) (rounding : RoundingMode) (hibits : 2 ≤ ibits ∧ ibits ≤ 64) (hx : 0 ≤ x) (fpsr : FPSR) :
    ((2 : ℚ) ^ magnitudeBits ibits unsigned ≤ x + increment rounding x →
        Converted ibits unsigned rounding x fpsr (ones (magnitudeBits ibits unsigned)) (fpProcessException .invalidOp fpsr)) ∧
      (¬ (2 : ℚ) ^ magnitudeBits ibits unsigned ≤ x + increment rounding x →
        Converted ibits unsigned rounding x fpsr (BitVec.ofInt 64 (rounding.round x) &&& ones ibits)
          (if Int.fract x ≠ 0 then fpProcessException .inexact fpsr else fpsr)) := by
  have hround := round_nonneg rounding hx
  obtain ⟨hmin, hmax⟩ := minFixed_le_maxFixed unsigned hibits.1
  have hover : (2 : ℚ) ^ magnitudeBits ibits unsigned ≤ x + increment rounding x ↔ maxFixed ibits unsigned < rounding.round x := by
    have hiff := le_add_increment_iff rounding x (2 ^ magnitudeBits ibits unsigned)
    push_cast at hiff
    rw [hiff, maxFixed_eq]
    omega
  rw [hover, not_lt]
  refine ⟨fun habove => converted_outside fpsr (fun h => absurd h.2 habove.not_ge) ?_, fun hle =>
    converted_within hibits.2 fpsr (hmin.trans hround) hle⟩
  rw [min_eq_right habove.le, max_eq_right (hmin.trans hmax.le), ones_eq_max _ hibits.2]

/-- Negative numbers are not converted to an unsigned result: zero is right below the range, but it may be in it. -/
lemma converted_negative_unsigned (hibits : 2 ≤ ibits) (hx : x < 0) :
    (∀ fpsr, Converted ibits true rounding x fpsr 0 (fpProcessException .invalidOp fpsr)) ↔
      ¬ ((edge ibits true : ℚ) < x ∧ x < edge ibits true + 1 ∧ rounding.RoundsUp x) := by
  have hbounds := minFixed_le_maxFixed true hibits
  have hnonpos := round_nonpos rounding hx.le
  have hnegative : rounding.round x < 0 ↔ ¬ ((edge ibits true : ℚ) < x ∧ x < edge ibits true + 1 ∧ rounding.RoundsUp x) := by
    simp only [edge, if_true, Int.cast_neg, Int.cast_one, neg_add_cancel, hx, true_and]
    rcases round_cases rounding x with ⟨hup, hround, -⟩ | ⟨hup, hround, -, hlt⟩
    · rw [hround, Int.floor_lt, Int.cast_zero]
      exact iff_of_true hx fun h => hup h.2
    · have hfloor : -1 ≤ ⌊x⌋ ↔ -1 < x := by
        rw [Int.le_floor]
        push_cast
        refine ⟨fun h => lt_of_le_of_ne h fun heq => hup.fract_ne_zero ?_, le_of_lt⟩
        rw [← heq]
        norm_num
      rw [hround, and_iff_left hup, ← hfloor]
      omega
  rw [← hnegative]
  constructor
  · intro h
    by_contra hzero
    have hmin : minFixed ibits true ≤ rounding.round x := hbounds.1.trans (by omega)
    exact not_converted_within hmin (hnonpos.trans hbounds.2.le) (h ⟨0⟩)
  · intro hneg fpsr
    refine converted_outside fpsr (fun h => absurd h.1 hneg.not_ge) ?_
    rw [min_eq_left (hnonpos.trans hbounds.2.le), minFixed, if_pos rfl, max_eq_left hneg.le]
    rfl

/-- Negative numbers are converted to a signed result, but for those that are rounded up to the second number. -/
lemma converted_negative_signed (rounding : RoundingMode) (hibits : 2 ≤ ibits ∧ ibits ≤ 64) (hx : x < 0) {beyond : Prop}
    (hover : beyond ↔ (2 : ℚ) ^ (ibits - 1) ≤ -x + increment rounding x ∧ ¬ (-x + increment rounding x < 2 ^ (ibits - 1 + 1) ∧
      BitVec.ofInt 64 (rounding.round x) = BitVec.ofInt 64 (-2 ^ (ibits - 1)))) :
    (beyond → ((∀ fpsr, Converted ibits false rounding x fpsr ((1 : BitVec 64) <<< (ibits - 1)) (fpProcessException .invalidOp fpsr)) ↔
        ¬ ((edge ibits false : ℚ) < x ∧ x < edge ibits false + 1 ∧ rounding.RoundsUp x))) ∧
      (¬ beyond → (∀ fpsr, Converted ibits false rounding x fpsr (BitVec.ofInt 64 (rounding.round x) &&& ones ibits)
          (if Int.fract x ≠ 0 then fpProcessException .inexact fpsr else fpsr)) ∧
        ¬ ((edge ibits false : ℚ) < x ∧ x < edge ibits false + 1 ∧ rounding.RoundsUp x)) := by
  obtain ⟨-, hmax⟩ := minFixed_le_maxFixed false hibits.1
  have hnonpos := round_nonpos rounding hx.le
  have hmin : minFixed ibits false = -2 ^ (ibits - 1) := rfl
  have hlow : (2 : ℤ) ≤ 2 ^ (ibits - 1) := by
    calc (2 : ℤ) = 2 ^ 1 := (pow_one _).symm
      _ ≤ 2 ^ (ibits - 1) := pow_le_pow_right₀ (by norm_num) (by omega)
  have hhigh : (2 : ℤ) ^ (ibits - 1) ≤ 2 ^ 63 := pow_le_pow_right₀ (by norm_num) (by omega)
  have hiff := negative_overflow_iff rounding x hlow hhigh
  have hdouble : (2 : ℚ) ^ (ibits - 1 + 1) = 2 * 2 ^ (ibits - 1) := by ring
  push_cast at hiff
  have hedge : ((edge ibits false : ℚ) < x ∧ x < edge ibits false + 1 ∧ rounding.RoundsUp x) ↔
      (-2 ^ (ibits - 1) < x ∧ x < -2 ^ (ibits - 1) + 1 ∧ rounding.RoundsUp x) := by
    simp [edge]
  rw [hdouble, hiff, ← hedge] at hover
  constructor
  · intro h
    constructor
    · intro hconverted hnext
      have hfloor : ⌊x⌋ = -2 ^ (ibits - 1) := by
        rw [Int.floor_eq_iff]
        push_cast
        exact ⟨(hedge.1 hnext).1.le, (hedge.1 hnext).2.1⟩
      have hround : rounding.round x = -2 ^ (ibits - 1) + 1 := by
        rw [RoundingMode.round_eq, if_pos hnext.2.2, hfloor]
      exact not_converted_within (by rw [hmin]; omega) (hnonpos.trans hmax.le) (hconverted ⟨0⟩)
    · intro hnext fpsr
      have hbelow := (hover.1 h).resolve_right hnext
      refine converted_outside fpsr (fun h => absurd h.1 hbelow.not_ge) ?_
      rw [min_eq_left (hnonpos.trans hmax.le), max_eq_left (hmin ▸ hbelow.le), one_shiftLeft_eq_min ⟨by omega, hibits.2⟩]
  · intro h
    rw [hover, not_or, not_lt] at h
    exact ⟨fun fpsr => converted_within hibits.2 fpsr h.1 (hnonpos.trans hmax.le), h.2⟩

/-- **The conversion is right** but for numbers that are rounded up to zero, to an unsigned result, and those that are rounded up to
the second number of the range, to a signed one. -/
theorem fixedRight_iff (op : BitVec (totalWidth t)) (ibits fbits : ℕ) (unsigned : Bool) (fpcr : FPCR) (rounding : RoundingMode)
    (hnan : ¬ IsNaN op) (hkeeps : fpcr.KeepsSubnormals) (hibits : ibits ∈ [16, 32, 64]) (hmode : rounding ≠ .toOdd) :
    FixedRight ibits op fbits unsigned fpcr rounding ↔
      ¬ (IsFinite op ∧ (edge ibits unsigned : ℚ) < value op * 2 ^ fbits ∧ value op * 2 ^ fbits < edge ibits unsigned + 1 ∧
        rounding.RoundsUp (value op * 2 ^ fbits)) := by
  have hbits : 2 ≤ ibits ∧ ibits ≤ 64 := by
    have hall : ∀ n ∈ [16, 32, 64], 2 ≤ n ∧ n ≤ 64 := by decide
    exact hall ibits hibits
  by_cases hop : IsFinite op
  · rw [and_iff_right hop]
    by_cases hvalue : value op = 0
    · refine iff_of_true (fun fpsr => ?_) ?_
      · obtain ⟨hresult, hconverted⟩ := converted_zero fbits unsigned rounding hop hkeeps hbits hvalue fpsr
        exact ⟨0, fpsr, hresult, fun _ => hconverted, fun h => absurd h.1 hop⟩
      · rintro ⟨-, -, hup⟩
        refine hup.fract_ne_zero ?_
        rw [hvalue, zero_mul, Int.fract_zero]
    · rw [fixedRight_iff_converted hop (fpToFixed_eq hop hkeeps hbits hmode hvalue)]
      have hneg := value_neg_iff hvalue
      have hpow : (0 : ℚ) < 2 ^ fbits := by positivity
      cases hsign : signBit op with
      | false =>
        have hx : 0 ≤ value op * 2 ^ fbits := mul_nonneg (not_lt.1 (mt hneg.1 (by simp [hsign]))) hpow.le
        have hconverted := converted_nonneg unsigned rounding hbits hx
        refine iff_of_true (fun fpsr => ?_) fun h => absurd (h.2.1.trans_le (edge_neg ibits unsigned)) hx.not_gt
        simp only [Bool.false_and, Bool.false_eq_true, if_false, abs_of_nonneg hx, Bool.not_false, Bool.or_true, and_true]
        by_cases hover : 2 ^ magnitudeBits ibits unsigned ≤ value op * 2 ^ fbits + increment rounding (value op * 2 ^ fbits)
        · rw [if_pos hover]
          exact (hconverted fpsr).1 hover
        · rw [if_neg hover, if_neg (fun h => hover h.1)]
          exact (hconverted fpsr).2 hover
      | true =>
        have hx : value op * 2 ^ fbits < 0 := mul_neg_of_neg_of_pos (hneg.2 hsign) hpow
        cases unsigned with
        | true =>
          simp only [Bool.and_self, if_true]
          exact converted_negative_unsigned hbits.1 hx
        | false =>
          simp only [Bool.and_false, Bool.false_eq_true, if_false, abs_of_neg hx, Bool.not_true, Bool.or_false, and_false]
          have hconverted := converted_negative_signed rounding hbits hx Iff.rfl
          by_cases hover : 2 ^ magnitudeBits ibits false ≤ -(value op * 2 ^ fbits) + increment rounding (value op * 2 ^ fbits) ∧
              ¬ (-(value op * 2 ^ fbits) + increment rounding (value op * 2 ^ fbits) < 2 ^ (magnitudeBits ibits false + 1) ∧
                BitVec.ofInt 64 (rounding.round (value op * 2 ^ fbits)) = BitVec.ofInt 64 (-2 ^ (ibits - 1)))
          · simp only [if_pos hover]
            exact hconverted.1 hover
          · simp only [if_neg hover]
            exact iff_of_true (hconverted.2 hover).1 (hconverted.2 hover).2
  · have hinf : IsInfinity op := by
      have hexp : expRaw op = 2 ^ exponentWidth t - 1 := not_not.1 hop
      exact ⟨hexp, not_not.1 fun hfrac => hnan ⟨hexp, hfrac⟩⟩
    refine iff_of_true (fun fpsr => ?_) fun h => hop h.1
    obtain ⟨result, hresult, hsaturated⟩ := saturated_infinity fbits hinf hbits hmode fpsr
    exact ⟨result, _, hresult, fun h => absurd h hop, fun _ => hsaturated⟩

/-- -32768.25 is converted to the least of 16 bits. -/
theorem fixedRight_least :
    FixedRight (t := .u64) 16 (BitVec.ofNat _ 0xC0E0000800000000) 0 false ⟨0⟩ .toNearestTieEven := by
  refine (fixedRight_iff (t := .u64) (BitVec.ofNat _ 0xC0E0000800000000) 16 0 false ⟨0⟩ .toNearestTieEven (by decide) ⟨by decide, by decide⟩
    (by decide) (by decide)).2 ?_
  decide +kernel

/-- -32767.25 is not converted to -32767 of 16 bits, and -0.25 raises `InvalidOp` although it is rounded to zero. -/
theorem fixed_wrong :
    ¬ FixedRight (t := .u64) 16 (BitVec.ofNat _ 0xC0DFFFD000000000) 0 false ⟨0⟩ .toNearestTieEven ∧
      ¬ FixedRight (t := .u32) 32 (BitVec.ofNat _ 0xBE800000) 0 true ⟨0⟩ .toNearestTieEven := by
  have hsigned : fpToFixed (t := .u64) 16 (BitVec.ofNat _ 0xC0DFFFD000000000) 0 false ⟨0⟩ .toNearestTieEven ⟨0⟩ = some (0x8000, ⟨1⟩) := by
    decide +kernel
  have hunsigned : fpToFixed (t := .u32) 32 (BitVec.ofNat _ 0xBE800000) 0 true ⟨0⟩ .toNearestTieEven ⟨0⟩ = some (0, ⟨1⟩) := by decide +kernel
  constructor
  · intro h
    obtain ⟨result, fpsr', heq, hconverted, -⟩ := h ⟨0⟩
    rw [hsigned] at heq
    obtain ⟨rfl, rfl⟩ := Prod.mk.inj (Option.some.inj heq)
    have hvalue := (hconverted (by decide)).value
    revert hvalue
    decide +kernel
  · intro h
    obtain ⟨result, fpsr', heq, hconverted, -⟩ := h ⟨0⟩
    rw [hunsigned] at heq
    obtain ⟨rfl, rfl⟩ := Prod.mk.inj (Option.some.inj heq)
    have hraised := (hconverted (by decide)).invalidOp
    revert hraised
    decide +kernel

end Voltemu.Dynarmic.FP
