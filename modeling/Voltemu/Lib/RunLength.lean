import Mathlib.Tactic

/-!
# Run-length encodings with marked ends

A `Run` stands for `len` consecutive cells, `step` apart, that carry the same value `mid`; the
first cell also carries the mark `left` and the last one the mark `right`.  `0` is "no mark".
`cells` spells a run out, so that two encodings of one sequence can be compared.

* `cells_add` — a run of `k + m` cells is a run of `k` followed by a run of `m`; read from left
  to right it is the splitting rule, from right to left the merging rule.
* `Fused` — two neighbouring runs that could be one.
* **`cells_injective`** — an encoding without fused neighbours is determined by its cells, so
  the encoding is a canonical form.
-/

namespace RunLength

open List

/-- `len` cells with value `mid`, the first one marked `left` and the last one `right`. -/
@[ext] structure Run (M L R : Type*) where
  start : ℕ
  len : ℕ
  mid : M
  left : L
  right : R

/-- One cell of the sequence a list of runs stands for. -/
@[ext] structure Cell (M L R : Type*) where
  pos : ℕ
  mid : M
  left : L
  right : R

variable {M L R : Type*} [Zero L] [Zero R]

/-- The cells of a run, `step` apart. -/
def Run.cells (step : ℕ) (r : Run M L R) : List (Cell M L R) :=
  (range r.len).map fun i =>
    { pos := r.start + i * step
      mid := r.mid
      left := if i = 0 then r.left else 0
      right := if i + 1 = r.len then r.right else 0 }

variable {step : ℕ}

@[simp] lemma Run.cells_length (r : Run M L R) : (r.cells step).length = r.len := by
  simp [Run.cells]

lemma Run.cells_getElem (r : Run M L R) (i : ℕ) (h : i < (r.cells step).length) :
    (r.cells step)[i] = { pos := r.start + i * step, mid := r.mid,
                          left := if i = 0 then r.left else 0,
                          right := if i + 1 = r.len then r.right else 0 } := by
  simp [Run.cells]

lemma Run.mem_cells {r : Run M L R} {c : Cell M L R} (h : c ∈ r.cells step) :
    ∃ i < r.len, c = { pos := r.start + i * step, mid := r.mid,
                       left := if i = 0 then r.left else 0,
                       right := if i + 1 = r.len then r.right else 0 } := by
  simp only [Run.cells, mem_map, mem_range] at h
  obtain ⟨i, hi, rfl⟩ := h
  exact ⟨i, hi, rfl⟩

/-- A run cut after `k` cells: the left mark goes with the first part, the right mark with the
second. -/
lemma Run.cells_add (step s k m : ℕ) (v : M) (l : L) (r : R) (hk : 0 < k) (hm : 0 < m) :
    (Run.mk s (k + m) v l r).cells step
      = (Run.mk s k v l 0).cells step ++ (Run.mk (s + k * step) m v 0 r).cells step := by
  simp only [Run.cells, range_add, map_append, map_map]
  congr 1
  · refine map_congr_left fun i hi => ?_
    have hi' : i < k := mem_range.1 hi
    rw [if_neg (by omega : ¬ i + 1 = k + m)]
    simp
  · refine map_congr_left fun i _ => ?_
    have hpos : s + (k + i) * step = s + k * step + i * step := by ring
    simp only [Function.comp, hpos, if_neg (by omega : ¬ k + i = 0), ite_self]
    congr 1
    exact if_congr (by omega) rfl rfl

/-- Applying a cell transformation to a run, when it sends unmarked cells to unmarked ones. -/
lemma Run.cells_map (r r' : Run M L R) (g : Cell M L R → Cell M L R) (hs : r'.start = r.start) (hlen : r'.len = r.len)
    (hg : ∀ i < r.len,
      g { pos := r.start + i * step, mid := r.mid, left := if i = 0 then r.left else 0,
          right := if i + 1 = r.len then r.right else 0 }
        = { pos := r.start + i * step, mid := r'.mid, left := if i = 0 then r'.left else 0,
            right := if i + 1 = r.len then r'.right else 0 }) :
    r'.cells step = (r.cells step).map g := by
  simp only [Run.cells, map_map, hlen, hs]
  refine map_congr_left fun i hi => ?_
  exact (hg i (mem_range.1 hi)).symm

/-- Neighbours that could be one run: same value, and no mark at the seam. -/
def Fused (a b : Run M L R) : Prop := a.mid = b.mid ∧ a.right = 0 ∧ b.left = 0

variable {rs rs' : List (Run M L R)}

/-- In a canonical encoding the first run is as long as the sequence allows: it is not shorter
than the first run of another encoding of the same cells. -/
private lemma head_len_le {r r' : Run M L R} (hr : 0 < r.len)
    (hpos : ∀ x ∈ rs, 0 < x.len) (hcan : (r :: rs).IsChain fun a b => ¬ Fused a b)
    (hcells : (r :: rs).flatMap (Run.cells step) = (r' :: rs').flatMap (Run.cells step)) :
    r'.len ≤ r.len := by
  by_contra hlt
  push Not at hlt
  simp only [flatMap_cons] at hcells
  -- cell `r.len - 1` closes `r` but lies inside `r'`; cell `r.len` opens the next run of `rs`
  have hlast := congrArg (fun l => l[r.len - 1]?) hcells
  have hnext := congrArg (fun l => l[r.len]?) hcells
  rw [getElem?_append_left (by simp; omega), getElem?_append_left (by simp; omega)] at hlast
  rw [getElem?_append_right (by simp), getElem?_append_left (by simp; omega)] at hnext
  simp only [Run.cells_length, Nat.sub_self] at hnext
  rw [getElem?_eq_getElem (by simp; omega), getElem?_eq_getElem (by simp; omega),
    Run.cells_getElem, Run.cells_getElem, Option.some.injEq, Cell.mk.injEq] at hlast
  rw [getElem?_eq_getElem (by simpa using hlt : r.len < _), Run.cells_getElem] at hnext
  obtain ⟨-, hmid, -, hright⟩ := hlast
  rw [if_pos (by omega), if_neg (by omega)] at hright
  cases rs with
  | nil => simp at hnext
  | cons q qs =>
    have hq : 0 < q.len := hpos q (by simp)
    rw [flatMap_cons, getElem?_append_left (by simpa using hq),
      getElem?_eq_getElem (by simpa using hq), Run.cells_getElem, Option.some.injEq,
      Cell.mk.injEq] at hnext
    obtain ⟨-, hqmid, hqleft, -⟩ := hnext
    rw [if_pos rfl, if_neg (by omega)] at hqleft
    exact (isChain_cons_cons.1 hcan).1 ⟨hmid.trans hqmid.symm, hright, hqleft⟩

/-- **Canonical form.**  Two encodings without fused neighbours that spell out the same cells are
the same encoding. -/
theorem cells_injective (step : ℕ) (hpos : ∀ x ∈ rs, 0 < x.len)
    (hpos' : ∀ x ∈ rs', 0 < x.len) (hcan : rs.IsChain fun a b => ¬ Fused a b)
    (hcan' : rs'.IsChain fun a b => ¬ Fused a b)
    (hcells : rs.flatMap (Run.cells step) = rs'.flatMap (Run.cells step)) : rs = rs' := by
  induction rs generalizing rs' with
  | nil =>
    cases rs' with
    | nil => rfl
    | cons r' rs' =>
      have h := congrArg length hcells
      have hr' := hpos' r' (by simp)
      simp only [flatMap_nil, length_nil, flatMap_cons, length_append, Run.cells_length] at h
      omega
  | cons r rs ih =>
    have hr := hpos r (by simp)
    cases rs' with
    | nil =>
      have h := congrArg length hcells
      simp only [flatMap_nil, length_nil, flatMap_cons, length_append, Run.cells_length] at h
      omega
    | cons r' rs' =>
      have hr' := hpos' r' (by simp)
      have hlen : r.len = r'.len := by
        refine le_antisymm ?_ ?_
        · exact head_len_le hr' (fun x hx => hpos' x (by simp [hx])) hcan' hcells.symm
        · exact head_len_le hr (fun x hx => hpos x (by simp [hx])) hcan hcells
      simp only [flatMap_cons] at hcells
      obtain ⟨hhead, htail⟩ := append_inj hcells (by simp [hlen])
      have hr_eq : r = r' := by
        have h0 := congrArg (fun l => l[0]?) hhead
        have h1 := congrArg (fun l => l[r.len - 1]?) hhead
        rw [getElem?_eq_getElem (by simpa using hr), getElem?_eq_getElem (by simpa using hr'), Run.cells_getElem,
          Run.cells_getElem, Option.some.injEq, Cell.mk.injEq] at h0
        rw [getElem?_eq_getElem (by simp; omega), getElem?_eq_getElem (by simp; omega), Run.cells_getElem,
          Run.cells_getElem, Option.some.injEq, Cell.mk.injEq] at h1
        obtain ⟨hstart, hmid, hleft, -⟩ := h0
        obtain ⟨-, -, -, hright⟩ := h1
        rw [if_pos (by omega), if_pos (by omega)] at hright
        rw [if_pos rfl, if_pos rfl] at hleft
        simp only [zero_mul, add_zero] at hstart
        exact Run.ext hstart hlen hmid hleft hright
      rw [hr_eq, ih (fun x hx => hpos x (by simp [hx])) (fun x hx => hpos' x (by simp [hx]))
        hcan.of_cons hcan'.of_cons htail]

end RunLength
