import Mathlib.Data.List.Basic
import Mathlib.Order.Basic

/-!
# Step functions given by breakpoints

A sorted list of breakpoints describes a function that is given, at each position, by the last
breakpoint at or before it.

* `inForce key l a` — that breakpoint;
* `Split` — a sorted list cut at the two ends of a range;
* `lowerBound` — the position of the first breakpoint that is not below a value.
-/

namespace Voltemu.Lib

open List

variable {α : Type*} (key : α → ℕ)

/-- The breakpoint in force at `a`: the last one that is not above `a`. -/
def inForce (l : List α) (a : ℕ) : Option α := (l.filter (fun x => key x ≤ a)).getLast?

/-- `std::lower_bound`, as a position. -/
def lowerBound (l : List α) (a : ℕ) : ℕ := (l.takeWhile (fun x => key x < a)).length

variable {key} {l r : List α} {x : α} {a lo hi : ℕ}

lemma inForce_append_of_lt (h : ∀ x ∈ r, a < key x) : inForce key (l ++ r) a = inForce key l a := by
  have hnil : r.filter (fun x => key x ≤ a) = [] := by
    rw [filter_eq_nil_iff]
    intro x hx
    simpa using h x hx
  rw [inForce, filter_append, hnil, append_nil, inForce]

lemma inForce_append_of_le (h : ∃ x ∈ r, key x ≤ a) : inForce key (l ++ r) a = inForce key r a := by
  obtain ⟨x, hx, hle⟩ := h
  have hmem : x ∈ r.filter (fun x => key x ≤ a) := mem_filter.2 ⟨hx, by simpa using hle⟩
  rw [inForce, filter_append, getLast?_append_of_ne_nil _ (ne_nil_of_mem hmem), inForce]

lemma inForce_concat (h : key x ≤ a) : inForce key (l ++ [x]) a = some x := by
  rw [inForce_append_of_le ⟨x, mem_singleton_self x, h⟩]
  simp [inForce, h]

lemma inForce_cons_of_lt (hx : key x ≤ a) (h : ∀ y ∈ r, a < key y) : inForce key (l ++ x :: r) a = some x := by
  have hsplit : l ++ x :: r = (l ++ [x]) ++ r := by simp
  rw [hsplit, inForce_append_of_lt h, inForce_concat hx]

lemma inForce_of_le {b : ℕ} (h : inForce key l b = some x) (hx : key x ≤ a) (hab : a ≤ b) : inForce key l a = some x := by
  have hfilter : l.filter (fun y => key y ≤ a) = (l.filter (fun y => key y ≤ b)).filter (fun y => key y ≤ a) := by
    rw [filter_filter]
    refine filter_congr fun y _ => ?_
    by_cases hy : key y ≤ a
    · have hyb : key y ≤ b := Nat.le_trans hy hab
      simp [hy, hyb]
    · simp [hy]
  obtain ⟨l', hl'⟩ := getLast?_eq_some_iff.1 h
  rw [inForce, hfilter, hl', filter_append, filter_singleton]
  simp [hx]

lemma inForce_of_mem (h : l.Pairwise fun x y => key x < key y) (hx : x ∈ l) : inForce key l (key x) = some x := by
  obtain ⟨l₁, l₂, rfl⟩ := append_of_mem hx
  exact inForce_cons_of_lt (Nat.le_refl _) (pairwise_cons.1 (pairwise_append.1 h).2.1).1

lemma inForce_eq_pred (h : ∀ x ∈ l, key x ≠ a) : inForce key l a = inForce key l (a - 1) := by
  have hfilter : l.filter (fun x => key x ≤ a) = l.filter (fun x => key x ≤ a - 1) := by
    refine filter_congr fun x hx => ?_
    have := h x hx
    simp
    omega
  rw [inForce, inForce, hfilter]

/-! ## Cutting a list at a range -/

/-- `L`, `M` and `R` are below, inside and above the range from `lo` to `hi`. -/
structure Split (key : α → ℕ) (lo hi : ℕ) (L M R : List α) : Prop where
  below : ∀ x ∈ L, key x < lo
  inside : ∀ x ∈ M, lo ≤ key x ∧ key x < hi
  above : ∀ x ∈ R, hi ≤ key x

lemma exists_split (h : l.Pairwise (fun x y => key x < key y)) (lo hi : ℕ) :
    ∃ L M R, l = L ++ M ++ R ∧ Split key lo hi L M R := by
  induction l with
  | nil => exact ⟨[], [], [], rfl, by simp, by simp, by simp⟩
  | cons x l ih =>
    obtain ⟨hx, hl⟩ := pairwise_cons.1 h
    obtain ⟨L, M, R, rfl, hs⟩ := ih hl
    by_cases hlo : key x < lo
    · refine ⟨x :: L, M, R, by simp, ?_, hs.inside, hs.above⟩
      simpa [hlo] using hs.below
    · have hL : L = [] := by
        rw [eq_nil_iff_forall_not_mem]
        intro y hy
        have hlt := hx y (by simp [hy])
        have hbelow := hs.below y hy
        omega
      subst hL
      by_cases hhi : key x < hi
      · refine ⟨[], x :: M, R, by simp, by simp, ?_, hs.above⟩
        intro y hy
        rcases mem_cons.1 hy with rfl | hy
        · exact ⟨Nat.not_lt.1 hlo, hhi⟩
        · exact hs.inside y hy
      · have hM : M = [] := by
          rw [eq_nil_iff_forall_not_mem]
          intro y hy
          have hlt := hx y (by simp [hy])
          have hinside := hs.inside y hy
          omega
        subst hM
        refine ⟨[], [], x :: R, by simp, by simp, by simp, ?_⟩
        intro y hy
        rcases mem_cons.1 hy with rfl | hy
        · exact Nat.not_lt.1 hhi
        · exact hs.above y hy

lemma lowerBound_append (hl : ∀ x ∈ l, key x < a) (hr : ∀ x ∈ r, a ≤ key x) : lowerBound key (l ++ r) a = l.length := by
  rw [lowerBound, takeWhile_append_of_pos (by simpa using hl)]
  cases r with
  | nil => simp
  | cons y r =>
    have hy : ¬ key y < a := Nat.not_lt.2 (hr y mem_cons_self)
    simp [hy]

end Voltemu.Lib
