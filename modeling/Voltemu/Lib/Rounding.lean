import Mathlib.Algebra.Order.Round
import Mathlib.Tactic.Ring

/-!
# Rounding to integers

* `truncate`, `nearestEven`, `nearestAway`, `jam`: rounding towards zero, to the nearest integer with either rule for ties, and to odd.
  What goes beside these, `⌊x⌋` and `⌈x⌉`, is in the library.
* Each of them is `⌊x⌋` or `⌊x⌋ + 1`, which of the two is decided by the fractional part of `x` (`ceil_eq`, `truncate_eq`, …).
-/

namespace Rounding

variable {α : Type*} [Field α] [LinearOrder α] [IsStrictOrderedRing α] [FloorRing α]

def truncate (x : α) : ℤ := if x < 0 then ⌈x⌉ else ⌊x⌋

/-- To the nearest integer, and to the even one of two. -/
def nearestEven (x : α) : ℤ := if Int.fract x = 1 / 2 then if Even ⌊x⌋ then ⌊x⌋ else ⌈x⌉ else round x

/-- To the nearest integer, and to the one away from zero of two. -/
def nearestAway (x : α) : ℤ := if Int.fract x = 1 / 2 then if x < 0 then ⌊x⌋ else ⌈x⌉ else round x

/-- To the odd one of the two integers next to what is none. -/
def jam (x : α) : ℤ := if Even ⌊x⌋ then ⌈x⌉ else ⌊x⌋

variable {x : α}

lemma ceil_eq (x : α) : ⌈x⌉ = if Int.fract x = 0 then ⌊x⌋ else ⌊x⌋ + 1 := by
  split_ifs with h
  · have hx : x = ⌊x⌋ := by linarith [Int.self_sub_floor x]
    rw [hx, Int.ceil_intCast, Int.floor_intCast]
  · refine (Int.ceil_eq_floor_add_one_iff_notMem x).2 ?_
    rintro ⟨n, rfl⟩
    exact h (Int.fract_intCast n)

lemma truncate_eq (x : α) : truncate x = if Int.fract x ≠ 0 ∧ x < 0 then ⌊x⌋ + 1 else ⌊x⌋ := by
  rw [truncate, ceil_eq]
  split_ifs <;> first | rfl | tauto

lemma round_eq (hx : Int.fract x ≠ 1 / 2) : round x = if 1 / 2 < Int.fract x then ⌊x⌋ + 1 else ⌊x⌋ := by
  rw [round, ceil_eq]
  split_ifs with hsmall hlarge hlarge hzero
  · exact absurd hsmall (by linarith)
  · rfl
  · linarith
  · linarith
  · rfl
  · exact absurd (lt_of_le_of_ne (by linarith) hx.symm) ‹¬ 1 / 2 < Int.fract x›

lemma nearestEven_eq (x : α) :
    nearestEven x = if 1 / 2 < Int.fract x ∨ Int.fract x = 1 / 2 ∧ ¬ Even ⌊x⌋ then ⌊x⌋ + 1 else ⌊x⌋ := by
  rw [nearestEven]
  by_cases htie : Int.fract x = 1 / 2
  · have hhalf : ¬ (0 : α) = 1 / 2 := by norm_num
    by_cases heven : Even ⌊x⌋
    · simp [htie, heven]
    · rw [if_pos htie, if_neg heven, if_pos (.inr ⟨htie, heven⟩), ceil_eq, htie, if_neg (by norm_num)]
  · rw [if_neg htie, round_eq htie]
    simp only [htie, false_and, or_false]

lemma nearestAway_eq (x : α) :
    nearestAway x = if 1 / 2 < Int.fract x ∨ Int.fract x = 1 / 2 ∧ 0 ≤ x then ⌊x⌋ + 1 else ⌊x⌋ := by
  rw [nearestAway]
  by_cases htie : Int.fract x = 1 / 2
  · by_cases hneg : x < 0
    · rw [if_pos htie, if_pos hneg, if_neg (by rw [htie]; simp [hneg])]
    · rw [if_pos htie, if_neg hneg, if_pos (.inr ⟨htie, not_lt.1 hneg⟩), ceil_eq, htie, if_neg (by norm_num)]
  · rw [if_neg htie, round_eq htie]
    simp only [htie, false_and, or_false]

lemma jam_eq (x : α) : jam x = if Int.fract x ≠ 0 ∧ Even ⌊x⌋ then ⌊x⌋ + 1 else ⌊x⌋ := by
  rw [jam, ceil_eq]
  split_ifs <;> first | rfl | tauto

end Rounding
