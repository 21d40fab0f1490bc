import Mathlib.Tactic.Common

/-!
# Overwritten memory

A memory is a function on addresses, and an access of a range replaces the elements in it.

* `overwrite`: one access.
* `Filled`: a range that is filled from its start on, possibly with something else behind what is filled so far.
* `Patched`: a range that is replaced, with everything else as it was.
* `scatter`: elements that are written one after another to where a partial function sends them.
-/

namespace Overwrite

open Function

variable {α : Type*}

/-- The `n` elements from `start` on are those of `src`. -/
def overwrite (m : ℕ → α) (start n : ℕ) (src : ℕ → α) : ℕ → α :=
  fun a => if start ≤ a ∧ a < start + n then src (a - start) else m a

variable {m m0 src : ℕ → α} {start n size a : ℕ}

lemma overwrite_inside (h : start ≤ a ∧ a < start + n) : overwrite m start n src a = src (a - start) := if_pos h

lemma overwrite_outside (h : ¬ (start ≤ a ∧ a < start + n)) : overwrite m start n src a = m a := if_neg h

lemma overwrite_congr {src' : ℕ → α} (h : ∀ i < n, src i = src' i) : overwrite m start n src = overwrite m start n src' := by
  funext a
  by_cases ha : start ≤ a ∧ a < start + n
  · rw [overwrite_inside ha, overwrite_inside ha, h _ (by omega)]
  · rw [overwrite_outside ha, overwrite_outside ha]

lemma update_eq_overwrite (m : ℕ → α) (start : ℕ) (v : α) : update m start v = overwrite m start 1 fun _ => v := by
  funext a
  by_cases ha : a = start
  · rw [ha, update_self, overwrite_inside (by omega)]
  · rw [update_of_ne ha, overwrite_outside (by omega)]

/-- **A range of `size` elements is filled up to `n`**, and nothing outside of it has changed. -/
structure Filled (m0 m : ℕ → α) (start size n : ℕ) (src : ℕ → α) : Prop where
  done : ∀ i < n, m (start + i) = src i
  frame : ∀ a, ¬ (start ≤ a ∧ a < start + size) → m a = m0 a

lemma Filled.refl (m : ℕ → α) (start size : ℕ) (src : ℕ → α) : Filled m m start size 0 src :=
  ⟨fun _ hi => absurd hi (Nat.not_lt_zero _), fun _ _ => rfl⟩

variable {piece : ℕ → α}

lemma Filled.append {k : ℕ} (h : Filled m0 m start size n src) (hsize : n + k ≤ size)
    (hpiece : ∀ i < k, piece i = src (n + i)) :
    Filled m0 (overwrite m (start + n) k piece) start size (n + k) src := by
  refine ⟨?_, ?_⟩
  · intro i hi
    by_cases hn : i < n
    · rw [overwrite_outside (by omega), h.done i hn]
    · rw [overwrite_inside (by omega), hpiece _ (by omega)]
      congr 1
      omega
  · intro a ha
    rw [overwrite_outside (by omega), h.frame a ha]

lemma Filled.eq_overwrite (h : Filled m0 m start n n src) : m = overwrite m0 start n src := by
  funext a
  by_cases ha : start ≤ a ∧ a < start + n
  · rw [overwrite_inside ha, ← h.done (a - start) (by omega)]
    congr 1
    omega
  · rw [overwrite_outside ha, h.frame a ha]

/-- **A range is replaced.** -/
def Patched (m0 m : ℕ → α) (start n : ℕ) (src : ℕ → α) : Prop := m = overwrite m0 start n src

lemma Patched.filled (h : Patched m0 m start n src) (hsize : n ≤ size) : Filled m0 m start size n src := by
  refine ⟨?_, ?_⟩
  · intro i hi
    rw [h, overwrite_inside (by omega), Nat.add_sub_cancel_left]
  · intro a ha
    rw [h, overwrite_outside (by omega)]

lemma Patched.refl (m : ℕ → α) (start : ℕ) (src : ℕ → α) : Patched m m start 0 src := by
  funext a
  rw [overwrite_outside (by omega)]

lemma Patched.append {k : ℕ} (h : Patched m0 m start n src) (hpiece : ∀ i < k, piece i = src (n + i)) :
    Patched m0 (overwrite m (start + n) k piece) start (n + k) src := by
  funext a
  by_cases hlow : start ≤ a ∧ a < start + n
  · rw [overwrite_outside (by omega), overwrite_inside (by omega), h, overwrite_inside hlow]
  · by_cases hhigh : start + n ≤ a ∧ a < start + n + k
    · rw [overwrite_inside hhigh, overwrite_inside (by omega), hpiece _ (by omega)]
      congr 1
      omega
    · rw [overwrite_outside hhigh, overwrite_outside (by omega), h, overwrite_outside hlow]

lemma Patched.prepend {k : ℕ} (h : Patched m0 m (start + k) n fun i => src (k + i))
    (hpiece : ∀ i < k, piece i = src i) : Patched m0 (overwrite m start k piece) start (k + n) src := by
  funext a
  by_cases hlow : start ≤ a ∧ a < start + k
  · rw [overwrite_inside hlow, overwrite_inside (by omega), hpiece _ (by omega)]
  · by_cases hhigh : start + k ≤ a ∧ a < start + k + n
    · rw [overwrite_outside hlow, overwrite_inside (by omega), h, overwrite_inside hhigh]
      congr 1
      omega
    · rw [overwrite_outside hlow, overwrite_outside (by omega), h, overwrite_outside hhigh]

/-- A block that is read, changed in part and written back is changed in that part. -/
lemma overwrite_block {block width at' : ℕ} (hin : block ≤ at' ∧ at' + n ≤ block + width) :
    overwrite m block width (overwrite (fun i => m (block + i)) (at' - block) n src) = overwrite m at' n src := by
  funext a
  by_cases hblock : block ≤ a ∧ a < block + width
  · by_cases hpart : at' ≤ a ∧ a < at' + n
    · rw [overwrite_inside hblock, overwrite_inside (by omega), overwrite_inside hpart]
      congr 1
      omega
    · rw [overwrite_inside hblock, overwrite_outside (by omega), overwrite_outside hpart]
      congr 1
      omega
  · rw [overwrite_outside hblock, overwrite_outside (by omega)]

/-! ## Scattered writes -/

/-- The first `n` elements of `src`, written one after another to where `target` sends them. -/
def scatter (target : ℕ → Option ℕ) (src : ℕ → α) : (n : ℕ) → (ℕ → α) → ℕ → α
  | 0, m => m
  | n + 1, m =>
      match target n with
      | none => scatter target src n m
      | some a => update (scatter target src n m) a (src n)

variable {target : ℕ → Option ℕ} {k : ℕ}

lemma scatter_some (h : target n = some a) :
    scatter target src (n + 1) m = update (scatter target src n m) a (src n) := by
  rw [scatter, h]

lemma scatter_skip (h : target n = none) : scatter target src (n + 1) m = scatter target src n m := by
  rw [scatter, h]

lemma scatter_untouched (h : ∀ i < n, target i ≠ some a) : scatter target src n m a = m a := by
  induction n with
  | zero => rfl
  | succ n ih =>
    have hrest := ih fun i hi => h i (by omega)
    cases htarget : target n with
    | none => rw [scatter_skip htarget, hrest]
    | some b =>
      have hne : a ≠ b := by
        rintro rfl
        exact h n (by omega) htarget
      rw [scatter_some htarget, update_of_ne hne, hrest]

lemma scatter_last {i : ℕ} (hi : i < n) (h : target i = some a) (hlast : ∀ j, i < j → j < n → target j ≠ some a) :
    scatter target src n m a = src i := by
  induction n with
  | zero => omega
  | succ n ih =>
    by_cases hin : i = n
    · subst hin
      rw [scatter_some h, update_self]
    · have hrest := ih (by omega) fun j hij hj => hlast j hij (by omega)
      cases htarget : target n with
      | none => rw [scatter_skip htarget, hrest]
      | some b =>
        have hne : a ≠ b := by
          rintro rfl
          exact hlast n (by omega) (by omega) htarget
        rw [scatter_some htarget, update_of_ne hne, hrest]

lemma scatter_range (h : ∀ i < k, target (n + i) = some (a + i)) :
    scatter target src (n + k) m = overwrite (scatter target src n m) a k fun i => src (n + i) := by
  induction k with
  | zero => exact Patched.refl _ a _
  | succ k ih =>
    have hpatched : Patched (scatter target src n m) (scatter target src (n + k) m) a k fun i => src (n + i) :=
      ih fun i hi => h i (by omega)
    rw [← Nat.add_assoc, scatter_some (h k (by omega)), update_eq_overwrite]
    exact hpatched.append fun i hi => by rw [show i = 0 by omega, Nat.add_zero]

lemma scatter_none (h : ∀ i < k, target (n + i) = none) : scatter target src (n + k) m = scatter target src n m := by
  induction k with
  | zero => rfl
  | succ k ih => rw [← Nat.add_assoc, scatter_skip (h k (by omega)), ih fun i hi => h i (by omega)]

end Overwrite
