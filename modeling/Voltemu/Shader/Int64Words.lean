import Voltemu.Shader.LowerInt64
import Voltemu.Shader.BitFields

/-!
# The words of 64-bit results

What the two words of a sum, a difference, a negation or a shift are in terms of the words of the operands.  Carries
are comparisons of low words.  A shift is *long* when it moves one word into the other as a whole (32 and more), and
*short* otherwise.
-/

namespace Voltemu.Shader.LowerInt64

open BitVec

lemma toNat_one32 : BitVec.toNat (1 : BitVec 32) = 1 := rfl

lemma toNat_zero32 : BitVec.toNat (0 : BitVec 32) = 0 := rfl

@[simp] lemma toNat_loWord (x : BitVec 64) : (loWord x).toNat = x.toNat % 2 ^ 32 := by
  simp [loWord]

@[simp] lemma toNat_hiWord (x : BitVec 64) : (hiWord x).toNat = x.toNat / 2 ^ 32 := by
  have := x.isLt
  simp only [hiWord, toNat_setWidth, toNat_ushiftRight, Nat.shiftRight_eq_div_pow]
  exact Nat.mod_eq_of_lt (by omega)

lemma getLsbD_loWord (x : BitVec 64) (k : ℕ) : (loWord x).getLsbD k = (decide (k < 32) && x.getLsbD k) := by
  simp [loWord]

lemma getLsbD_hiWord (x : BitVec 64) (k : ℕ) : (hiWord x).getLsbD k = (decide (k < 32) && x.getLsbD (32 + k)) := by
  simp [hiWord]

lemma halves_append (hi lo : BitVec 32) : halves (hi ++ lo) = words lo hi := by
  have hlo : loWord (hi ++ lo) = lo := by
    apply eq_of_getLsbD_eq
    intro k hk
    rw [getLsbD_loWord, getLsbD_append]
    simp [hk]
  have hhi : hiWord (hi ++ lo) = hi := by
    apply eq_of_getLsbD_eq
    intro k hk
    rw [getLsbD_hiWord, getLsbD_append]
    simp [hk]
  rw [halves, hlo, hhi]

lemma loWord_add (x y : BitVec 64) : loWord (x + y) = loWord x + loWord y := by
  apply eq_of_toNat_eq
  simp only [toNat_loWord, toNat_add]
  omega

lemma hiWord_add (x y : BitVec 64) : hiWord (x + y) = hiWord x + hiWord y +
    if 2 ^ 32 ≤ (loWord x).toNat + (loWord y).toNat then 1 else 0 := by
  apply eq_of_toNat_eq
  have hx := x.isLt
  have hy := y.isLt
  split <;> rename_i h <;> simp only [toNat_loWord] at h <;>
    simp only [toNat_hiWord, toNat_add, toNat_one32, toNat_zero32] <;> omega

lemma loWord_sub (x y : BitVec 64) : loWord (x - y) = loWord x - loWord y := by
  apply eq_of_toNat_eq
  have hx := x.isLt
  have hy := y.isLt
  simp only [toNat_loWord, toNat_sub]
  omega

lemma hiWord_sub (x y : BitVec 64) : hiWord (x - y) = hiWord x - hiWord y -
    if (loWord x).ult (loWord x - loWord y) then 1 else 0 := by
  apply eq_of_toNat_eq
  have hx := x.isLt
  have hy := y.isLt
  split <;> rename_i h <;> simp only [BitVec.ult, decide_eq_true_eq, toNat_loWord, toNat_sub] at h <;>
    simp only [toNat_hiWord, toNat_sub, toNat_one32, toNat_zero32] <;> omega

lemma loWord_neg (x : BitVec 64) : loWord (-x) = ~~~loWord x + 1 := by
  apply eq_of_toNat_eq
  have hx := x.isLt
  simp only [toNat_loWord, toNat_neg, toNat_add, toNat_not, toNat_one32]
  omega

lemma hiWord_neg (x : BitVec 64) : hiWord (-x) = ~~~hiWord x +
    if 2 ^ 32 ≤ (~~~loWord x).toNat + (1 : BitVec 32).toNat then 1 else 0 := by
  apply eq_of_toNat_eq
  have hx := x.isLt
  split <;> rename_i h <;> simp only [toNat_not, toNat_loWord, toNat_one32] at h <;>
    simp only [toNat_hiWord, toNat_neg, toNat_add, toNat_not, toNat_one32, toNat_zero32] <;> omega

variable {s : ℕ}

section

variable (x : BitVec 64)
include x

lemma loWord_shl_long (h : 32 ≤ s) : loWord (x <<< s) = 0 := by
  apply eq_of_getLsbD_eq
  intro k hk
  simp [getLsbD_loWord]
  omega

lemma hiWord_shl_long (h : 32 ≤ s) : hiWord (x <<< s) = loWord x <<< (s - 32) := by
  apply eq_of_getLsbD_eq
  intro k hk
  simp only [getLsbD_hiWord, getLsbD_loWord, getLsbD_shiftLeft]
  grind

lemma loWord_shl_short : loWord (x <<< s) = loWord x <<< s := by
  apply eq_of_getLsbD_eq
  intro k hk
  simp only [getLsbD_loWord, getLsbD_shiftLeft]
  grind

lemma hiWord_shl_short (h : s < 32) : hiWord (x <<< s) = hiWord x <<< s ||| extractUnsigned (loWord x) (32 - s) s := by
  apply eq_of_getLsbD_eq
  intro k hk
  simp only [getLsbD_hiWord, getLsbD_loWord, getLsbD_shiftLeft, getLsbD_or, getLsbD_extractUnsigned]
  grind

lemma hiWord_shr_long (h : 32 ≤ s) : hiWord (x >>> s) = 0 := by
  apply eq_of_getLsbD_eq
  intro k hk
  simp only [getLsbD_hiWord, getLsbD_ushiftRight]
  grind

lemma loWord_shr_long (h : 32 ≤ s) : loWord (x >>> s) = hiWord x >>> (s - 32) := by
  apply eq_of_getLsbD_eq
  intro k hk
  simp only [getLsbD_hiWord, getLsbD_loWord, getLsbD_ushiftRight]
  grind

lemma hiWord_shr_short : hiWord (x >>> s) = hiWord x >>> s := by
  apply eq_of_getLsbD_eq
  intro k hk
  simp only [getLsbD_hiWord, getLsbD_ushiftRight]
  grind

lemma loWord_shr_short (h : s < 32) : loWord (x >>> s) =
    insertField (loWord x >>> s) (extractUnsigned (hiWord x) 0 s) (32 - s) s := by
  apply eq_of_getLsbD_eq
  intro k hk
  simp only [insertField, getLsbD_hiWord, getLsbD_loWord, getLsbD_ushiftRight, getLsbD_or, getLsbD_and,
    getLsbD_not, getLsbD_fieldMask, getLsbD_shiftLeft, getLsbD_extractUnsigned]
  grind

lemma msb_hiWord : (hiWord x).msb = x.msb := by
  rw [msb_eq_getLsbD_last, msb_eq_getLsbD_last, getLsbD_hiWord]
  rfl

lemma hiWord_asr_long (h : 32 ≤ s) : hiWord (x.sshiftRight s) = (hiWord x).sshiftRight 31 := by
  apply eq_of_getLsbD_eq
  intro k hk
  simp only [getLsbD_hiWord, getLsbD_sshiftRight, msb_hiWord]
  grind [msb_eq_getLsbD_last]

lemma loWord_asr_long (h : 32 ≤ s) : loWord (x.sshiftRight s) = (hiWord x).sshiftRight (s - 32) := by
  apply eq_of_getLsbD_eq
  intro k hk
  simp only [getLsbD_hiWord, getLsbD_loWord, getLsbD_sshiftRight, msb_hiWord]
  grind

lemma hiWord_asr_short : hiWord (x.sshiftRight s) = (hiWord x).sshiftRight s := by
  apply eq_of_getLsbD_eq
  intro k hk
  simp only [getLsbD_hiWord, getLsbD_sshiftRight, msb_hiWord]
  grind

lemma loWord_asr_short (h : s < 32) : loWord (x.sshiftRight s) =
    insertField (loWord x >>> s) (extractUnsigned (hiWord x) 0 s) (32 - s) s := by
  rw [← loWord_shr_short x h]
  apply eq_of_getLsbD_eq
  intro k hk
  simp only [getLsbD_loWord, getLsbD_sshiftRight, getLsbD_ushiftRight]
  grind

end

/-! ## The conditions of a shift -/

lemma isLong_eq {s : BitVec 32} (h : s.toNat < 64) :
    Comparison.eval (s - 32) 0 .SGreaterThanEqual = decide (32 ≤ s.toNat) := by
  have hsub : (s - 32).toInt = (s.toNat : ℤ) - 32 := by
    rw [toInt_eq_toNat_bmod, toNat_sub]
    simp only [show BitVec.toNat (32 : BitVec 32) = 32 from rfl, Int.bmod]
    omega
  simp only [Comparison.eval, BitVec.sle, hsub, show BitVec.toInt (0 : BitVec 32) = 0 from rfl,
    decide_eq_decide]
  omega

lemma toNat_inv {s : BitVec 32} (h : 32 ≤ s.toNat) : (s - 32).toNat = s.toNat - 32 := by
  have hlt := s.isLt
  simp only [toNat_sub, show BitVec.toNat (32 : BitVec 32) = 32 from rfl]
  omega

lemma toNat_complement {s : BitVec 32} (h : s.toNat ≤ 32) : (32 - s).toNat = 32 - s.toNat := by
  simp only [toNat_sub, show BitVec.toNat (32 : BitVec 32) = 32 from rfl]
  omega

lemma shift_cases (s : BitVec 32) :
    (s.toNat = 0) ∨
      (s.toNat ≠ 0 ∧ 32 ≤ s.toNat ∧ (s - 32).toNat = s.toNat - 32) ∨
      (s.toNat ≠ 0 ∧ s.toNat < 32 ∧ (32 - s).toNat = 32 - s.toNat) := by
  rcases Nat.eq_zero_or_pos s.toNat with h | h
  · exact .inl h
  · rcases Nat.lt_or_ge s.toNat 32 with hlt | hge
    · exact .inr (.inr ⟨h.ne', hlt, toNat_complement hlt.le⟩)
    · exact .inr (.inl ⟨h.ne', hge, toNat_inv hge⟩)

lemma isZero_eq (s : BitVec 32) : Comparison.eval s 0 .IEqual = decide (s.toNat = 0) := by
  rw [Comparison.eval, Bool.eq_iff_iff, beq_iff_eq, decide_eq_true_eq]
  exact ⟨fun h => h ▸ rfl, fun h => eq_of_toNat_eq h⟩

end Voltemu.Shader.LowerInt64
