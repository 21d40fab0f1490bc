import Voltemu.Dynarmic.Fp.Unpacked

/-!
# Shifts and what they lose

`dynarmic/common/fp/mantissa_util.h` and `dynarmic/common/safe_ops.h`.

* `residualErrorOnRightShift_eq`: the error that is classified is the fractional part of the quotient, of a word in two's complement.
* `arithmeticShiftLeft_eq`: the shifted word is the quotient rounded down.
* `RoundingMode.round`: what the modes are, and `RoundingMode.RoundsUp`: when they take a number to the integer above.
-/

namespace Voltemu.Dynarmic.FP

open Rounding BitVec

/-! ## The source -/

inductive ResidualError
  | zero
  | lessThanHalf
  | half
  | greaterThanHalf
deriving DecidableEq

def residualErrorOnRightShift (mantissa : BitVec 64) (shiftAmount : ℤ) : ResidualError :=
  if shiftAmount ≤ 0 ∨ mantissa = 0 then .zero
  else if 64 < shiftAmount then if mantissa.msb then .greaterThanHalf else .lessThanHalf
  else
    let half := BitVec.twoPow 64 (shiftAmount - 1).toNat
    let errorMask := ones shiftAmount.toNat
    let error := mantissa &&& errorMask
    if error = 0 then .zero
    else if error < half then .lessThanHalf
    else if error = half then .half
    else .greaterThanHalf

def logicalShiftRight (value : BitVec 64) (shiftAmount : ℤ) : BitVec 64 :=
  if 64 ≤ shiftAmount then 0
  else if shiftAmount < 0 then if 64 ≤ -shiftAmount then 0 else value <<< (-shiftAmount).toNat
  else value >>> shiftAmount.toNat

def arithmeticShiftLeft (value : BitVec 64) (shiftAmount : ℤ) : BitVec 64 :=
  if 64 ≤ shiftAmount then 0
  else if shiftAmount < 0 then
    if 64 ≤ -shiftAmount then if value.msb then ~~~0 else 0 else value.sshiftRight (-shiftAmount).toNat
  else value <<< shiftAmount.toNat

def negate (value : BitVec 64) : BitVec 64 := ~~~value + 1

/-! ## The modes -/

/-- **What a mode rounds a number to.** -/
def RoundingMode.round : RoundingMode → ℚ → ℤ
  | .toNearestTieEven, x => nearestEven x
  | .towardsPlusInfinity, x => ⌈x⌉
  | .towardsMinusInfinity, x => ⌊x⌋
  | .towardsZero, x => truncate x
  | .toNearestTieAwayFromZero, x => nearestAway x
  | .toOdd, x => jam x

/-- A mode takes a number to the integer above. -/
def RoundingMode.RoundsUp : RoundingMode → ℚ → Prop
  | .toNearestTieEven, x => 1 / 2 < Int.fract x ∨ Int.fract x = 1 / 2 ∧ ¬ Even ⌊x⌋
  | .towardsPlusInfinity, x => Int.fract x ≠ 0
  | .towardsMinusInfinity, _ => False
  | .towardsZero, x => Int.fract x ≠ 0 ∧ x < 0
  | .toNearestTieAwayFromZero, x => 1 / 2 < Int.fract x ∨ Int.fract x = 1 / 2 ∧ 0 ≤ x
  | .toOdd, x => Int.fract x ≠ 0 ∧ Even ⌊x⌋

instance : (mode : RoundingMode) → (x : ℚ) → Decidable (mode.RoundsUp x)
  | .toNearestTieEven, _ => inferInstanceAs (Decidable (_ ∨ _ ∧ _))
  | .towardsPlusInfinity, _ => inferInstanceAs (Decidable (_ ≠ _))
  | .towardsMinusInfinity, _ => inferInstanceAs (Decidable False)
  | .towardsZero, _ => inferInstanceAs (Decidable (_ ∧ _))
  | .toNearestTieAwayFromZero, _ => inferInstanceAs (Decidable (_ ∨ _ ∧ _))
  | .toOdd, _ => inferInstanceAs (Decidable (_ ∧ _))

lemma RoundingMode.round_eq (mode : RoundingMode) (x : ℚ) : mode.round x = if mode.RoundsUp x then ⌊x⌋ + 1 else ⌊x⌋ := by
  cases mode with
  | toNearestTieEven => exact nearestEven_eq x
  | towardsPlusInfinity =>
    rw [round, ceil_eq]
    by_cases hx : Int.fract x = 0
    · rw [if_pos hx]
      exact (if_neg (not_not.2 hx)).symm
    · rw [if_neg hx]
      exact (if_pos hx).symm
  | towardsMinusInfinity => exact (if_neg id).symm
  | towardsZero => exact truncate_eq x
  | toNearestTieAwayFromZero => exact nearestAway_eq x
  | toOdd => exact jam_eq x

lemma RoundingMode.RoundsUp.fract_ne_zero {mode : RoundingMode} {x : ℚ} (h : mode.RoundsUp x) : Int.fract x ≠ 0 := by
  intro hx
  cases mode <;> simp [RoundsUp, hx] at h <;> norm_num at h

/-! ## Errors -/

/-- **The classes of fractional parts.** -/
def ResidualError.of (x : ℚ) : ResidualError :=
  if Int.fract x = 0 then .zero
  else if Int.fract x < 1 / 2 then .lessThanHalf
  else if Int.fract x = 1 / 2 then .half
  else .greaterThanHalf

namespace ResidualError

variable {x : ℚ}

lemma of_eq_zero : of x = .zero ↔ Int.fract x = 0 := by
  rw [of]
  split_ifs <;> simp_all

lemma of_eq_half : of x = .half ↔ Int.fract x = 1 / 2 := by
  rw [of]
  split_ifs with hzero hsmall hhalf
  · exact ⟨nofun, fun h => absurd (hzero.symm.trans h) (by norm_num)⟩
  · exact ⟨nofun, fun h => absurd h hsmall.ne⟩
  · exact ⟨fun _ => hhalf, fun _ => rfl⟩
  · exact ⟨nofun, fun h => absurd h hhalf⟩

lemma of_eq_greaterThanHalf : of x = .greaterThanHalf ↔ 1 / 2 < Int.fract x := by
  rw [of]
  split_ifs with hzero hsmall hhalf
  · exact ⟨nofun, fun h => absurd (hzero ▸ h : 1 / 2 < (0 : ℚ)) (by norm_num)⟩
  · exact ⟨nofun, fun h => absurd h hsmall.not_gt⟩
  · exact ⟨nofun, fun h => absurd hhalf h.ne'⟩
  · exact ⟨fun _ => lt_of_le_of_ne (not_lt.1 hsmall) (Ne.symm hhalf), fun _ => rfl⟩

lemma of_ediv (a : ℤ) (s : ℕ) :
    of (a / 2 ^ (s + 1)) = if a % 2 ^ (s + 1) = 0 then .zero else if a % 2 ^ (s + 1) < 2 ^ s then .lessThanHalf
      else if a % 2 ^ (s + 1) = 2 ^ s then .half else .greaterThanHalf := by
  have hfract : Int.fract ((a : ℚ) / 2 ^ (s + 1)) = (a % 2 ^ (s + 1) : ℤ) / 2 ^ (s + 1) := by
    have h := Int.fract_div_intCast_eq_div_intCast_mod (k := ℚ) (m := a) (n := 2 ^ (s + 1))
    exact_mod_cast h
  have hpos : (0 : ℚ) < 2 ^ (s + 1) := by positivity
  have hhalf : (1 : ℚ) / 2 = 2 ^ s / 2 ^ (s + 1) := by
    rw [pow_succ]
    field_simp
  simp only [of, hfract, hhalf, div_eq_zero_iff, or_iff_left hpos.ne', div_lt_div_iff_of_pos_right hpos, div_left_inj' hpos.ne']
  norm_cast

end ResidualError

variable {k : ℕ}

lemma ones_toNat (hk : k ≤ 64) : (ones k).toNat = 2 ^ k - 1 := by
  rw [ones]
  split_ifs with h
  · rw [h]
    rfl
  · have hpow : 2 ^ (64 - k) * 2 ^ k = 2 ^ 64 := by
      rw [← Nat.pow_add]
      congr 1
      omega
    have hones : (~~~0 : BitVec 64).toNat = 2 ^ 64 - 1 := by decide
    rw [toNat_ushiftRight, Nat.shiftRight_eq_div_pow, hones, ← hpow, Nat.mul_sub_div 0 _ _ (by positivity), Nat.zero_div]

lemma and_ones_toNat (m : BitVec 64) (hk : k ≤ 64) : (m &&& ones k).toNat = m.toNat % 2 ^ k := by
  rw [toNat_and, ones_toNat hk, Nat.and_two_pow_sub_one_eq_mod]

/-- Two's complement does not change remainders. -/
lemma toInt_emod (m : BitVec 64) (hk : k ≤ 64) : m.toInt % 2 ^ k = (m.toNat % 2 ^ k : ℕ) := by
  have hdvd : ((2 : ℤ) ^ k) ∣ 2 ^ 64 := pow_dvd_pow 2 hk
  have hcong : m.toInt % 2 ^ 64 = (m.toNat : ℤ) % 2 ^ 64 := by
    rw [toInt_eq_toNat_bmod]
    exact Int.bmod_emod
  rw [← Int.emod_emod_of_dvd m.toInt hdvd, hcong, Int.emod_emod_of_dvd _ hdvd]
  push_cast
  rfl

/-- A word is small beside a power of two that is larger than it. -/
lemma abs_quotient_le (m : BitVec 64) {s : ℤ} (hs : 64 < s) : |(m.toInt : ℚ) * 2 ^ (-s)| ≤ 1 / 4 := by
  obtain ⟨k, rfl⟩ : ∃ k : ℕ, s = k + 65 := ⟨(s - 65).toNat, by omega⟩
  have hlow := m.le_toInt
  have hhigh := m.toInt_lt (w := 64)
  simp only [Nat.reduceSub] at hlow hhigh
  have habs : |(m.toInt : ℚ)| ≤ 2 ^ 63 := by
    have hint : |m.toInt| ≤ 2 ^ 63 := by
      rw [abs_le]
      omega
    exact_mod_cast hint
  have hpow : (2 : ℚ) ^ (-((k : ℤ) + 65)) ≤ 2 ^ (-65 : ℤ) := zpow_le_zpow_right₀ (by norm_num) (by omega)
  have hpos : (0 : ℚ) < 2 ^ (-((k : ℤ) + 65)) := zpow_pos two_pos _
  rw [abs_mul, abs_of_pos hpos]
  calc |(m.toInt : ℚ)| * 2 ^ (-((k : ℤ) + 65)) ≤ 2 ^ 63 * 2 ^ (-65 : ℤ) := mul_le_mul habs hpow hpos.le (by positivity)
    _ = 1 / 4 := by norm_num

/-- **The error of a shift is the fractional part of the quotient.** -/
lemma residualErrorOnRightShift_eq (m : BitVec 64) (s : ℤ) :
    residualErrorOnRightShift m s = .of ((m.toInt : ℚ) * 2 ^ (-s)) := by
  rw [residualErrorOnRightShift]
  split_ifs with htrivial hlarge hmsb
  · symm
    rw [ResidualError.of_eq_zero]
    rcases htrivial with hs | rfl
    · obtain ⟨k, hk⟩ := Int.eq_ofNat_of_zero_le (show 0 ≤ -s by omega)
      rw [hk, zpow_natCast]
      have hint : (m.toInt : ℚ) * 2 ^ k = ((m.toInt * 2 ^ k : ℤ) : ℚ) := by push_cast; rfl
      rw [hint]
      exact Int.fract_intCast _
    · simp
  · have hneg : m.toInt < 0 := by simpa [msb_eq_toInt] using hmsb
    have hsmall := abs_le.1 (abs_quotient_le m hlarge)
    have hx : (m.toInt : ℚ) * 2 ^ (-s) < 0 := mul_neg_of_neg_of_pos (by exact_mod_cast hneg) (zpow_pos two_pos _)
    have hfloor : ⌊(m.toInt : ℚ) * 2 ^ (-s)⌋ = -1 := by
      rw [Int.floor_eq_iff]
      push_cast
      constructor <;> linarith
    symm
    rw [ResidualError.of_eq_greaterThanHalf, Int.fract, hfloor]
    push_cast
    linarith
  · have hnonneg : 0 ≤ m.toInt := by simpa [msb_eq_toInt] using hmsb
    have hne : m.toInt ≠ 0 := fun h => htrivial (.inr (eq_of_toInt_eq (by rw [h]; rfl)))
    have hsmall := abs_le.1 (abs_quotient_le m hlarge)
    have hx : 0 < (m.toInt : ℚ) * 2 ^ (-s) := mul_pos (by exact_mod_cast lt_of_le_of_ne hnonneg hne.symm) (zpow_pos two_pos _)
    have hfract : Int.fract ((m.toInt : ℚ) * 2 ^ (-s)) = (m.toInt : ℚ) * 2 ^ (-s) :=
      Int.fract_eq_self.2 ⟨hx.le, by linarith⟩
    rw [ResidualError.of, hfract, if_neg hx.ne', if_pos (by linarith)]
  · obtain ⟨k, rfl⟩ : ∃ k : ℕ, s = k + 1 := ⟨(s - 1).toNat, by omega⟩
    have hk : k + 1 ≤ 64 := by omega
    have hquotient : (m.toInt : ℚ) * 2 ^ (-((k : ℤ) + 1)) = m.toInt / 2 ^ (k + 1) := by
      rw [zpow_neg, ← div_eq_mul_inv]
      norm_cast
    have htoNat : ((k : ℤ) + 1 - 1).toNat = k ∧ ((k : ℤ) + 1).toNat = k + 1 := by omega
    have hhalf : (BitVec.twoPow 64 k).toNat = 2 ^ k := toNat_twoPow_of_lt (by omega)
    rw [hquotient, ResidualError.of_ediv, toInt_emod m hk]
    simp only [htoNat.1, htoNat.2, lt_def, ← toNat_inj, and_ones_toNat m hk, hhalf]
    norm_cast

/-! ## Shifts -/

lemma floor_toInt_zpow_neg (m : BitVec 64) (k : ℕ) : ⌊(m.toInt : ℚ) * 2 ^ (-(k : ℤ))⌋ = m.toInt >>> k := by
  have hquotient : (m.toInt : ℚ) * 2 ^ (-(k : ℤ)) = m.toInt / ((2 ^ k : ℕ) : ℚ) := by
    rw [zpow_neg, zpow_natCast, ← div_eq_mul_inv]
    push_cast
    rfl
  rw [hquotient, Rat.floor_intCast_div_natCast, Int.shiftRight_eq_div_pow]

/-- Shifting by the width or more leaves the sign. -/
lemma sshiftRight_of_le (m : BitVec 64) (hk : 64 ≤ k) : m.sshiftRight k = if m.msb then ~~~0 else 0 := by
  have hlow := m.le_toInt
  have hhigh := m.toInt_lt (w := 64)
  simp only [Nat.reduceSub] at hlow hhigh
  have hpow : (2 : ℤ) ^ 64 ≤ 2 ^ k := pow_le_pow_right₀ (by norm_num) hk
  refine eq_of_toInt_eq ?_
  rw [toInt_sshiftRight, Int.shiftRight_eq_div_pow]
  split_ifs with hmsb
  · have hneg : m.toInt < 0 := by simpa [msb_eq_toInt] using hmsb
    have hones : (~~~0 : BitVec 64).toInt = -1 := by decide
    rw [hones]
    push_cast
    exact Int.ediv_eq_neg_one_of_neg_of_le hneg (by omega)
  · have hnonneg : 0 ≤ m.toInt := by simpa [msb_eq_toInt] using hmsb
    push_cast
    exact Int.ediv_eq_zero_of_lt hnonneg (by omega)

lemma ofInt_two_pow (k : ℕ) : BitVec.ofInt 64 (2 ^ k) = BitVec.twoPow 64 k := by
  refine eq_of_toNat_eq ?_
  rw [toNat_ofInt, toNat_twoPow]
  norm_cast

/-- **A shift multiplies by a power of two and rounds down.** -/
lemma arithmeticShiftLeft_eq (m : BitVec 64) (e : ℤ) :
    arithmeticShiftLeft m e = BitVec.ofInt 64 ⌊(m.toInt : ℚ) * 2 ^ e⌋ := by
  rcases lt_or_ge e 0 with hneg | hnonneg
  · obtain ⟨k, rfl⟩ : ∃ k : ℕ, e = -k := ⟨(-e).toNat, by omega⟩
    have hk : (- -(k : ℤ)).toNat = k := by omega
    rw [floor_toInt_zpow_neg, ← toInt_sshiftRight, ofInt_toInt, arithmeticShiftLeft, if_neg (by omega), if_pos hneg, hk]
    split_ifs with hlarge hmsb
    · rw [sshiftRight_of_le m (by omega), if_pos hmsb]
    · rw [sshiftRight_of_le m (by omega), if_neg hmsb]
    · rfl
  · obtain ⟨k, rfl⟩ := Int.eq_ofNat_of_zero_le hnonneg
    have hint : (m.toInt : ℚ) * 2 ^ (k : ℤ) = ((m.toInt * 2 ^ k : ℤ) : ℚ) := by
      push_cast
      rfl
    have hmul : BitVec.ofInt 64 (m.toInt * 2 ^ k) = m <<< k := by
      rw [ofInt_mul, ofInt_toInt, shiftLeft_eq_mul_twoPow, ofInt_two_pow]
    rw [hint, Int.floor_intCast, hmul, arithmeticShiftLeft, if_neg (show ¬ (k : ℤ) < 0 by omega), Int.toNat_natCast]
    split_ifs with hlarge
    · rw [shiftLeft_eq_zero (by omega)]
      rfl
    · rfl

lemma toInt_negate {m : BitVec 64} (hm : m.toNat < 2 ^ 63) : (negate m).toInt = -m.toNat := by
  have hneg : negate m = -m := neg_eq_not_add m |>.symm
  rw [hneg, toInt_neg, toInt_eq_toNat_of_lt (by omega)]
  exact Int.bmod_eq_of_le (by omega) (by omega)

end Voltemu.Dynarmic.FP
