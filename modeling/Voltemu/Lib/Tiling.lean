import Mathlib.Tactic

/-!
# Tilings of an interval by a list of pieces

A list of pieces, each with a first position `lo b` and an end `hi b`, *tiles* `[s, e)` when the
pieces are non-empty, the first starts at `s`, each next one starts where the previous one ends
and the last ends at `e`.  This is the shape of every address map kept as a sorted container of
blocks.

The rules a development about such a map uses:

* `tiles_append` cuts a tiling in two, `Tiles.exists_cover` finds the piece over a position;
* `Tiles.flatMap` replaces every piece by a tiling of that piece;
* `Tiles.isChain_flatMap` transports a property of neighbours through such a replacement.
-/

namespace Tiling

open List

variable {β : Type*} {lo hi : β → ℕ}

/-- The pieces lie end to end from `s` to `e`, none of them empty. -/
def Tiles (lo hi : β → ℕ) : ℕ → List β → ℕ → Prop
  | s, [], e => s = e
  | s, b :: bs, e => lo b = s ∧ s < hi b ∧ Tiles lo hi (hi b) bs e

variable {e s x : ℕ}

@[simp] lemma tiles_nil : Tiles lo hi s [] e ↔ s = e := Iff.rfl

variable {bs : List β}

@[simp] lemma tiles_cons {b : β} : Tiles lo hi s (b :: bs) e ↔ lo b = s ∧ s < hi b ∧ Tiles lo hi (hi b) bs e := Iff.rfl

lemma tiles_append {xs ys : List β} : Tiles lo hi s (xs ++ ys) e ↔ ∃ m, Tiles lo hi s xs m ∧ Tiles lo hi m ys e := by
  induction xs generalizing s with
  | nil => simp
  | cons b bs ih =>
    simp only [cons_append, tiles_cons, ih]
    constructor
    · rintro ⟨h1, h2, m, h3, h4⟩
      exact ⟨m, ⟨h1, h2, h3⟩, h4⟩
    · rintro ⟨m, ⟨h1, h2, h3⟩, h4⟩
      exact ⟨h1, h2, m, h3, h4⟩

namespace Tiles

section

variable (h : Tiles lo hi s bs e)
include h

lemma start_le : s ≤ e := by
  induction bs generalizing s with
  | nil => exact Nat.le_of_eq h
  | cons b bs ih =>
    obtain ⟨-, hlt, hrest⟩ := h
    exact hlt.le.trans (ih hrest)

lemma bounds {b : β} (hb : b ∈ bs) : s ≤ lo b ∧ lo b < hi b ∧ hi b ≤ e := by
  induction bs generalizing s with
  | nil => simp at hb
  | cons c cs ih =>
    obtain ⟨hlo, hlt, hrest⟩ := h
    rcases mem_cons.1 hb with rfl | hb
    · exact ⟨hlo.ge, hlo ▸ hlt, hrest.start_le⟩
    · obtain ⟨h1, h2, h3⟩ := ih hrest hb
      exact ⟨hlt.le.trans h1, h2, h3⟩

lemma ne_nil (hse : s < e) : bs ≠ [] := by
  rintro rfl
  exact hse.ne (tiles_nil.1 h)

lemma isChain : bs.IsChain fun b c => hi b = lo c := by
  induction bs generalizing s with
  | nil => exact isChain_nil
  | cons b bs ih =>
    obtain ⟨-, -, hrest⟩ := h
    cases bs with
    | nil => exact isChain_singleton _
    | cons c cs => exact isChain_cons_cons.2 ⟨hrest.1.symm, ih hrest⟩

end

/-- Some piece lies over every position of the interval, and the pieces before it end at or
before that position. -/
lemma exists_cover {s e a : ℕ} (h : Tiles lo hi s bs e) (hsa : s ≤ a) (hae : a < e) :
    ∃ pre b post, bs = pre ++ b :: post ∧ lo b ≤ a ∧ a < hi b ∧ ∀ c ∈ pre, hi c ≤ a := by
  induction bs generalizing s with
  | nil => exact absurd h (by simp; omega)
  | cons c cs ih =>
    obtain ⟨hlo, -, hrest⟩ := h
    rcases lt_or_ge a (hi c) with hac | hca
    · exact ⟨[], c, cs, rfl, hlo.le.trans hsa, hac, by simp⟩
    · obtain ⟨pre, b, post, rfl, h1, h2, h3⟩ := ih hrest hca
      refine ⟨c :: pre, b, post, rfl, h1, h2, ?_⟩
      intro x hx
      rcases mem_cons.1 hx with rfl | hx
      · exact hca
      · exact h3 x hx

variable {f : β → List β}

lemma flatMap (h : Tiles lo hi s bs e)
    (hf : ∀ b ∈ bs, Tiles lo hi (lo b) (f b) (hi b)) : Tiles lo hi s (bs.flatMap f) e := by
  induction bs generalizing s with
  | nil => exact h
  | cons b bs ih =>
    obtain ⟨hlo, -, hrest⟩ := h
    rw [flatMap_cons, tiles_append]
    refine ⟨hi b, hlo ▸ hf b (by simp), ih hrest ?_⟩
    intro c hc
    exact hf c (mem_cons_of_mem _ hc)

/-- **Neighbours after a replacement.**  If neighbours of `bs` are related by `R`, the neighbours
inside each replacement by `S`, and the two neighbours at a seam by `S` whenever the pieces they
come from meet there and are related by `R`, then the neighbours of the whole are related by
`S`. -/
lemma isChain_flatMap {R S : β → β → Prop} (htiles : Tiles lo hi s bs e) (h : bs.IsChain R) (hne : ∀ b ∈ bs, f b ≠ [])
    (hin : ∀ b ∈ bs, (f b).IsChain S)
    (hseam : ∀ b ∈ bs, ∀ c ∈ bs, R b c → hi b = lo c → ∀ x ∈ (f b).getLast?, ∀ y ∈ (f c).head?, S x y) :
    (bs.flatMap f).IsChain S := by
  induction bs generalizing s with
  | nil => simp
  | cons b bs ih =>
    obtain ⟨-, -, hrest⟩ := htiles
    rw [flatMap_cons, isChain_append]
    refine ⟨hin b (by simp), ?_, ?_⟩
    · refine ih hrest h.of_cons (fun c hc => hne c (by simp [hc]))
        (fun c hc => hin c (by simp [hc])) ?_
      intro c hc d hd
      exact hseam c (by simp [hc]) d (by simp [hd])
    · intro x hx y hy
      cases bs with
      | nil => simp at hy
      | cons c cs =>
        have hc : f c ≠ [] := hne c (by simp)
        rw [flatMap_cons, head?_append_of_ne_nil _ hc] at hy
        exact hseam b (by simp) c (by simp) (isChain_cons_cons.1 h).1 hrest.1.symm
          x hx y hy

lemma covered_iff {s e x : ℕ} (h : Tiles lo hi s bs e) : (∃ b ∈ bs, lo b ≤ x ∧ x < hi b) ↔ s ≤ x ∧ x < e := by
  constructor
  · rintro ⟨b, hb, hle, hlt⟩
    have := h.bounds hb
    omega
  · rintro ⟨hle, hlt⟩
    obtain ⟨pre, b, post, rfl, hbx, hxb, -⟩ := h.exists_cover hle hlt
    exact ⟨b, by simp, hbx, hxb⟩

end Tiles

/-! ## The value of a position -/

/-- The value `v` gives to the piece over position `x`. -/
def valueAt {γ : Type*} (lo hi : β → ℕ) (v : β → γ) (bs : List β) (x : ℕ) : Option γ :=
  (bs.find? fun b => decide (lo b ≤ x ∧ x < hi b)).map v

/-- In a tiling there is one piece over a position, so looking it up finds that one. -/
lemma Tiles.valueAt_eq_some_iff {γ : Type*} {v : β → γ} {c : γ} (h : Tiles lo hi s bs e) :
    valueAt lo hi v bs x = some c ↔ ∃ b ∈ bs, lo b ≤ x ∧ x < hi b ∧ v b = c := by
  induction bs generalizing s with
  | nil => simp [valueAt]
  | cons b bs ih =>
    obtain ⟨hlo, hlt, hrest⟩ := h
    rw [valueAt, find?_cons]
    by_cases hx : lo b ≤ x ∧ x < hi b
    · simp only [hx, and_self, decide_true, Option.map_some, Option.some.injEq, mem_cons, exists_eq_or_imp, true_and]
      refine (or_iff_left ?_).symm
      rintro ⟨d, hd, hdx, -, -⟩
      have := hrest.bounds hd
      omega
    · have hfalse : decide (lo b ≤ x ∧ x < hi b) = false := decide_eq_false hx
      simp only [hfalse, mem_cons, exists_eq_or_imp]
      rw [← valueAt, ih hrest]
      refine (or_iff_right ?_).symm
      rintro ⟨h1, h2, -⟩
      exact hx ⟨h1, h2⟩

lemma Tiles.eq_of_mem {b c : β} (h : Tiles lo hi s bs e) (hb : b ∈ bs) (hbx : lo b ≤ x)
    (hxb : x < hi b) (hc : c ∈ bs) (hcx : lo c ≤ x) (hxc : x < hi c) : b = c := by
  have h1 := (h.valueAt_eq_some_iff (v := id) (x := x)).2 ⟨b, hb, hbx, hxb, rfl⟩
  have h2 := (h.valueAt_eq_some_iff (v := id) (x := x)).2 ⟨c, hc, hcx, hxc, rfl⟩
  exact Option.some.inj (h1.symm.trans h2)

end Tiling
