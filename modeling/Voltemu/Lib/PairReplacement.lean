import Mathlib.Data.List.Basic
import Mathlib.Algebra.Ring.Parity

/-!
# Replacing pairs that start with one mark

`replacePair a b r` replaces each pair `a b` of a list by `r`, from left to right, without looking at `r` again.  The passes here
all replace pairs that start with the same mark `e`.

A list is a sequence of **blocks**: a run of marks and the element behind it, which is no mark (`blocks_induction`).

* A pass for a pair `e x` with `x ≠ e` shortens the run in front of each `x` by one (`replacePair_block`).
* Several such passes do what one of them does to each block, if no element that one pass writes is looked for by a later one
  (`replacePairs_block`).
* The pass for the pair `e e` halves each run (`replacePair_mark_block`).
* Two lists that start with a block are equal only if the blocks are (`block_inj`).
-/

namespace Voltemu.Lib

open List

variable {α : Type*} [DecidableEq α] {a b r e x c d : α} {k m : ℕ} {s t : List α}

/-- Every pair `a b` replaced by `r`, from left to right. -/
def replacePair (a b r : α) : List α → List α
  | x :: y :: t => if x = a ∧ y = b then r :: replacePair a b r t else x :: replacePair a b r (y :: t)
  | t => t

/-- The position of the first pair `a b`. -/
def firstPair (a b : α) : List α → Option ℕ
  | x :: y :: t => if x = a ∧ y = b then some 0 else (firstPair a b (y :: t)).map (· + 1)
  | _ => none

lemma replacePair_of_firstPair_none {s : List α} (h : firstPair a b s = none) (r : α) : replacePair a b r s = s := by
  induction s using firstPair.induct (a := a) (b := b) with
  | case1 x y t hxy => simp [firstPair, hxy] at h
  | case2 x y t hxy ih =>
    rw [firstPair, if_neg hxy, Option.map_eq_none_iff] at h
    rw [replacePair, if_neg hxy, ih h]
  | case3 s hs =>
    rw [replacePair]
    exact hs

lemma replacePair_of_firstPair {s : List α} {j : ℕ} (h : firstPair a b s = some j) (r : α) :
    j + 2 ≤ s.length ∧ replacePair a b r s = s.take j ++ r :: replacePair a b r (s.drop (j + 2)) := by
  induction s using firstPair.induct (a := a) (b := b) generalizing j with
  | case1 x y t hxy =>
    rw [firstPair, if_pos hxy] at h
    cases h
    refine ⟨by simp, ?_⟩
    rw [replacePair, if_pos hxy]
    rfl
  | case2 x y t hxy ih =>
    rw [firstPair, if_neg hxy, Option.map_eq_some_iff] at h
    obtain ⟨i, hi, rfl⟩ := h
    obtain ⟨hlength, hreplace⟩ := ih hi
    refine ⟨Nat.succ_le_succ hlength, ?_⟩
    rw [replacePair, if_neg hxy, hreplace]
    rfl
  | case3 s hs =>
    rw [firstPair] at h
    · cases h
    · exact hs

/-! ## Blocks -/

lemma blocks_induction (e : α) {P : List α → Prop} (hend : ∀ k, P (replicate k e))
    (hblock : ∀ k c t, c ≠ e → P t → P (replicate k e ++ c :: t)) (s : List α) : P s := by
  suffices h : ∀ k, P (replicate k e ++ s) from h 0
  induction s with
  | nil =>
    intro k
    rw [append_nil]
    exact hend k
  | cons x t ih =>
    intro k
    by_cases hx : x = e
    · have hrun : replicate k e ++ x :: t = replicate (k + 1) e ++ t := by
        rw [hx, replicate_succ', append_assoc, singleton_append]
      rw [hrun]
      exact ih (k + 1)
    · exact hblock k x t hx (ih 0)

omit [DecidableEq α] in
lemma block_inj (hc : c ≠ e) (hd : d ≠ e) :
    replicate k e ++ c :: s = replicate m e ++ d :: t ↔ k = m ∧ c = d ∧ s = t := by
  induction k generalizing m with
  | zero =>
    cases m with
    | zero => simp
    | succ m =>
      rw [replicate_succ]
      simp [hc]
  | succ k ih =>
    cases m with
    | zero =>
      rw [replicate_succ]
      simp [hd.symm]
    | succ m =>
      rw [replicate_succ, replicate_succ, cons_append, cons_append, cons.injEq, ih]
      simp

/-! ## Passes over blocks -/

lemma replacePair_cons_of_ne (hc : c ≠ e) : replacePair e b r (c :: t) = c :: replacePair e b r t := by
  cases t with
  | nil => rfl
  | cons y t =>
    rw [replacePair, if_neg]
    exact fun h => hc h.1

lemma replacePair_marks (hx : x ≠ e) (k : ℕ) : replacePair e x r (replicate k e) = replicate k e := by
  induction k with
  | zero => rfl
  | succ k ih =>
    cases k with
    | zero => rfl
    | succ k =>
      rw [replicate_succ, replicate_succ, replacePair, if_neg fun h => hx h.2.symm, ← replicate_succ, ih]

lemma replacePair_block (hx : x ≠ e) (hc : c ≠ e) (k : ℕ) (t : List α) :
    replacePair e x r (replicate k e ++ c :: t) =
      if 0 < k ∧ c = x then replicate (k - 1) e ++ r :: replacePair e x r t
      else replicate k e ++ c :: replacePair e x r t := by
  induction k with
  | zero =>
    rw [if_neg fun h => absurd h.1 (Nat.lt_irrefl 0)]
    exact replacePair_cons_of_ne hc
  | succ k ih =>
    cases k with
    | zero =>
      rw [replicate_one, singleton_append, replacePair]
      by_cases hcx : c = x
      · rw [if_pos ⟨rfl, hcx⟩, if_pos ⟨Nat.one_pos, hcx⟩]
        rfl
      · rw [if_neg fun h => hcx h.2, if_neg fun h => hcx h.2, replacePair_cons_of_ne hc]
        rfl
    | succ k =>
      rw [replicate_succ, replicate_succ, cons_append, cons_append, replacePair,
        if_neg fun h => hx h.2.symm, ← cons_append, ← replicate_succ, ih]
      by_cases hcx : c = x
      · rw [if_pos ⟨Nat.succ_pos _, hcx⟩, if_pos ⟨Nat.succ_pos _, hcx⟩]
        rfl
      · rw [if_neg fun h => hcx h.2, if_neg fun h => hcx h.2]
        rfl

/-- Passes for several pairs that start with `e`: the second elements and what the pairs become. -/
def replacePairs (e : α) (passes : List (α × α)) (s : List α) : List α :=
  passes.foldl (fun s p => replacePair e p.1 p.2 s) s

/-- No pass looks for a mark or for what an earlier pass writes, and none writes a mark. -/
structure Independent (e : α) (passes : List (α × α)) : Prop where
  keys : ∀ p ∈ passes, p.1 ≠ e
  values : ∀ p ∈ passes, p.2 ≠ e
  later : passes.Pairwise fun p q => p.2 ≠ q.1

omit [DecidableEq α] in
lemma Independent.tail {p : α × α} {passes : List (α × α)} (h : Independent e (p :: passes)) : Independent e passes where
  keys q hq := h.keys q (mem_cons_of_mem _ hq)
  values q hq := h.values q (mem_cons_of_mem _ hq)
  later := (pairwise_cons.1 h.later).2

variable {passes : List (α × α)}

lemma replacePairs_marks (h : Independent e passes) (k : ℕ) : replacePairs e passes (replicate k e) = replicate k e := by
  induction passes with
  | nil => rfl
  | cons p passes ih =>
    rw [replacePairs, foldl_cons, replacePair_marks (h.keys p mem_cons_self)]
    exact ih h.tail

/-- An element that no pass looks for, or without a run in front of it, stays. -/
lemma replacePairs_block_of_kept (h : Independent e passes) (hc : c ≠ e)
    (hkept : 0 < k → ∀ p ∈ passes, p.1 ≠ c) (t : List α) :
    replacePairs e passes (replicate k e ++ c :: t) = replicate k e ++ c :: replacePairs e passes t := by
  induction passes generalizing t with
  | nil => rfl
  | cons p passes ih =>
    have hp : ¬ (0 < k ∧ c = p.1) := fun hcp => hkept hcp.1 p mem_cons_self hcp.2.symm
    rw [replacePairs, foldl_cons, replacePair_block (h.keys p mem_cons_self) hc, if_neg hp]
    exact ih h.tail (fun hk q hq => hkept hk q (mem_cons_of_mem _ hq)) _

/-- An element that a pass looks for takes one mark of its run with it: only that pass changes the block. -/
lemma replacePairs_block_of_mem (h : Independent e passes) (hc : c ≠ e) (hk : 0 < k)
    (hfirst : passes.find? (·.1 = c) = some (c, d)) (t : List α) :
    replacePairs e passes (replicate k e ++ c :: t) = replicate (k - 1) e ++ d :: replacePairs e passes t := by
  induction passes generalizing t with
  | nil => cases hfirst
  | cons p passes ih =>
    rw [replacePairs, foldl_cons, replacePair_block (h.keys p mem_cons_self) hc]
    by_cases hpc : p.1 = c
    · rw [find?_cons_of_pos (by simpa using hpc)] at hfirst
      have hp : p = (c, d) := Option.some.inj hfirst
      subst hp
      rw [if_pos ⟨hk, rfl⟩]
      -- what this pass writes is kept by the later ones
      exact replacePairs_block_of_kept h.tail (h.values _ mem_cons_self)
        (fun _ q hq heq => (pairwise_cons.1 h.later).1 q hq heq.symm) _
    · rw [find?_cons_of_neg (by simpa using hpc)] at hfirst
      rw [if_neg fun hcp => hpc hcp.2.symm]
      exact ih h.tail hfirst _

/-- The pass for `e e` on a run: it takes the marks two at a time. -/
lemma replacePair_mark_marks (e : α) (k : ℕ) : replacePair e e e (replicate k e) = replicate (k - k / 2) e := by
  induction k using Nat.twoStepInduction with
  | zero => rfl
  | one => rfl
  | more k ih _ =>
    rw [replicate_succ, replicate_succ, replacePair, if_pos ⟨rfl, rfl⟩, ih, ← replicate_succ]
    congr 1
    omega

lemma replacePair_mark_block (hc : c ≠ e) (k : ℕ) (t : List α) :
    replacePair e e e (replicate k e ++ c :: t) = replicate (k - k / 2) e ++ c :: replacePair e e e t := by
  induction k using Nat.twoStepInduction with
  | zero => exact replacePair_cons_of_ne hc
  | one =>
    rw [replicate_one, singleton_append, replacePair, if_neg fun h => hc h.2, replacePair_cons_of_ne hc]
    rfl
  | more k ih _ =>
    rw [replicate_succ, replicate_succ, cons_append, cons_append, replacePair, if_pos ⟨rfl, rfl⟩, ih,
      ← cons_append, ← replicate_succ]
    congr 2
    omega

end Voltemu.Lib
