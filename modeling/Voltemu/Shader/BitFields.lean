import Voltemu.Shader.IntegerOpcodes
import Mathlib.Tactic.Ring

/-!
# Bit fields and products of halves

The arithmetic behind the folds of constant propagation: a bit field taken out by shifts and masks, and a product put
together from the 16-bit halves of a factor.
-/

namespace Voltemu.Shader

open BitVec

variable {count offset bits : ℕ}

lemma toNat_extractUnsigned (x : BitVec 32) (offset : ℕ) (h : count ≤ 32) :
    (extractUnsigned x offset count).toNat = x.toNat / 2 ^ offset % 2 ^ count := by
  rw [extractUnsigned, toNat_ofNat]
  apply Nat.mod_eq_of_lt
  calc x.toNat / 2 ^ offset % 2 ^ count < 2 ^ count := Nat.mod_lt _ (Nat.two_pow_pos count)
    _ ≤ 2 ^ 32 := Nat.pow_le_pow_right (by decide) h

lemma getLsbD_extractUnsigned (x : BitVec 32) (offset count k : ℕ) :
    (extractUnsigned x offset count).getLsbD k = (decide (k < 32) && (decide (k < count) && x.getLsbD (offset + k))) := by
  rw [extractUnsigned, getLsbD_ofNat, Nat.testBit_mod_two_pow, Nat.testBit_div_two_pow]
  rw [Nat.add_comm]
  rfl

lemma getLsbD_fieldMask (offset bits k : ℕ) :
    (fieldMask offset bits).getLsbD k = (decide (k < 32) && decide (offset ≤ k) && decide (k - offset < bits)) := by
  rw [fieldMask, getLsbD_shiftLeft, getLsbD_ofNat, Nat.testBit_two_pow_sub_one]
  by_cases ho : offset ≤ k
  · have hlt : k < 32 → k - offset < 32 := by omega
    have hnot : ¬ k < offset := by omega
    by_cases hk : k < 32 <;> simp [hk, ho, hnot, hlt]
  · simp [ho, Nat.lt_of_not_le ho]

lemma shift_mask_eq_extractUnsigned (base : BitVec 32) (offset : ℕ) (hc : count < 32) :
    base >>> offset &&& ((1 : BitVec 32) <<< count - 1) = extractUnsigned base offset count := by
  have hmask : ((1 : BitVec 32) <<< count - 1) = BitVec.ofNat 32 (2 ^ count - 1) := by
    have hlt : 2 ^ count < 2 ^ 32 := Nat.pow_lt_pow_right (by decide) hc
    apply eq_of_toNat_eq
    have hpos : 0 < 2 ^ count := Nat.two_pow_pos count
    simp only [toNat_sub, toNat_shiftLeft, toNat_ofNat, Nat.shiftLeft_eq]
    simp only [show (BitVec.toNat (1 : BitVec 32)) = 1 from rfl, one_mul]
    omega
  rw [hmask]
  apply eq_of_getLsbD_eq
  intro k hk
  rw [getLsbD_extractUnsigned, getLsbD_and, getLsbD_ushiftRight, getLsbD_ofNat, Nat.testBit_two_pow_sub_one]
  cases base.getLsbD (offset + k) <;> simp [hk]

lemma shifts_eq_extractSigned (base : BitVec 32) (hle : offset + count ≤ 32) (hc : 0 < count) :
    (base <<< (32 - (offset + count))).sshiftRight (32 - count) = extractSigned base offset count := by
  apply eq_of_getLsbD_eq
  intro k hk
  rw [extractSigned]
  simp only [getLsbD_sshiftRight, getLsbD_signExtend, getLsbD_shiftLeft, hk,
    getLsbD_setWidth, getLsbD_ushiftRight, msb_eq_getLsbD_last]
  by_cases hk' : k < count
  · have h1 : 32 - count + k < 32 := by omega
    have h2 : ¬ 32 - count + k < 32 - (offset + count) := by omega
    have h3 : 32 - count + k - (32 - (offset + count)) = offset + k := by omega
    have h4 : ¬ 32 ≤ k := by omega
    simp [hk', h1, h2, h3, h4]
  · have h1 : ¬ 32 - count + k < 32 := by omega
    have h3 : 31 - (32 - (offset + count)) = offset + (count - 1) := by omega
    have h4 : ¬ 32 ≤ k := by omega
    have h5 : ¬ 31 < 32 - (offset + count) := by omega
    have h6 : count - 1 < count := by omega
    simp [hk', h1, h3, h4, h5, h6]

lemma mask_eq_fieldMask (offset : ℕ) (hb : bits < 32) :
    ~~~(BitVec.allOnes 32 <<< bits) <<< offset = fieldMask offset bits := by
  apply eq_of_getLsbD_eq
  intro k hk
  rw [getLsbD_fieldMask]
  simp only [getLsbD_shiftLeft, getLsbD_not, getLsbD_allOnes, hk]
  by_cases ho : offset ≤ k
  · have h1 : k - offset < 32 := by omega
    have h2 : ¬ k < offset := by omega
    have h3 : k - offset - bits < 32 := by omega
    simp [ho, h1, h2, h3]
  · have h1 : k < offset := by omega
    simp [ho, h1]

lemma insert_eq_insertField {base insert : BitVec 32}
    (h : insert <<< offset &&& ~~~fieldMask offset bits &&& ~~~base = 0) :
    (base &&& ~~~fieldMask offset bits) ||| insert <<< offset = insertField base insert offset bits := by
  rw [insertField]
  apply eq_of_getLsbD_eq
  intro k hk
  have hbit := congrArg (fun v => v.getLsbD k) h
  simp only [getLsbD_and, getLsbD_not, hk, decide_true, Bool.true_and] at hbit
  simp only [getLsbD_and, getLsbD_or, getLsbD_not, hk, decide_true, Bool.true_and]
  have hzero : (0 : BitVec 32).getLsbD k = false := by simp
  rw [hzero] at hbit
  revert hbit
  cases (insert <<< offset).getLsbD k <;> cases (fieldMask offset bits).getLsbD k <;>
    cases base.getLsbD k <;> simp

section Halves

lemma shift16_eq (x : BitVec 32) : x <<< 16 = x * 65536#32 := by
  rw [shiftLeft_eq_mul_twoPow]
  rfl

lemma halves (x : BitVec 32) : x = extractUnsigned x 16 16 * 65536#32 + extractUnsigned x 0 16 := by
  apply eq_of_toNat_eq
  have hlo := toNat_extractUnsigned x 0 (show 16 ≤ 32 by decide)
  have hhi := toNat_extractUnsigned x 16 (show 16 ≤ 32 by decide)
  have hx := x.isLt
  rw [toNat_add, toNat_mul, hlo, hhi]
  simp only [toNat_ofNat]
  omega

lemma xmad_multiply (x y : BitVec 32) : (extractUnsigned x 16 16 * y) <<< 16 + extractUnsigned x 0 16 * y = x * y := by
  rw [shift16_eq]
  conv => rhs; rw [halves x]
  ring

/-- What `XMAD.MRG` keeps of a product: its low half, below the low half of a factor. -/
lemma shift16_insertField (x y : BitVec 32) : insertField x y 16 16 <<< 16 = x <<< 16 := by
  apply eq_of_getLsbD_eq
  intro k hk
  simp only [getLsbD_shiftLeft, insertField, getLsbD_or, getLsbD_and, getLsbD_not, getLsbD_fieldMask, hk]
  have h1 : k - 16 < 16 := by omega
  have h2 : ¬ 16 ≤ k - 16 := by omega
  have h3 : k - 16 < 32 := by omega
  simp [h1, h2, h3]

lemma extract16_insertField (x y : BitVec 32) :
    extractUnsigned (insertField x (extractUnsigned y 0 16) 16 16) 16 16 = extractUnsigned y 0 16 := by
  apply eq_of_getLsbD_eq
  intro k hk
  simp only [getLsbD_extractUnsigned, insertField, getLsbD_or, getLsbD_and,
    getLsbD_not, getLsbD_fieldMask, getLsbD_shiftLeft, hk]
  by_cases hk' : k < 16
  · have h1 : 16 + k < 32 := by omega
    simp [hk', h1, hk]
  · simp [hk']

lemma xmad_multiply_add (a b c : BitVec 32) :
    (extractUnsigned b 16 16 * extractUnsigned a 0 16) <<< 16 +
        ((extractUnsigned b 0 16 * extractUnsigned a 16 16) <<< 16 +
          (extractUnsigned b 0 16 * extractUnsigned a 0 16 + c)) =
      a * b + c := by
  simp only [shift16_eq]
  conv => rhs; rw [halves a, halves b]
  have hsq : (65536#32 * 65536#32 : BitVec 32) = 0#32 := by decide
  generalize extractUnsigned a 16 16 = a1
  generalize extractUnsigned a 0 16 = a0
  generalize extractUnsigned b 16 16 = b1
  generalize extractUnsigned b 0 16 = b0
  have hhigh : a1 * 65536#32 * (b1 * 65536#32) = 0 := by
    calc a1 * 65536#32 * (b1 * 65536#32) = a1 * b1 * (65536#32 * 65536#32) := by ring
      _ = 0 := by rw [hsq]; simp
  calc b1 * a0 * 65536#32 + (b0 * a1 * 65536#32 + (b0 * a0 + c))
      = a1 * 65536#32 * (b1 * 65536#32) + (b1 * a0 * 65536#32 + (b0 * a1 * 65536#32 + (b0 * a0 + c))) := by
        rw [hhigh]; simp
    _ = (a1 * 65536#32 + a0) * (b1 * 65536#32 + b0) + c := by ring

end Halves

end Voltemu.Shader
