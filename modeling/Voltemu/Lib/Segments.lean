import Mathlib.Data.List.Basic

/-!
# Segments of a partial map

A partial map `f` of addresses, and lists of segments, each a start with a length.

* `IsSegmentation f start size segs`: the segments are ascending, disjoint and not empty, they cover the addresses of
  `[start, start + size)` where `f` is defined, `f` counts up in each of them, and does not go on from one to the next.
* A segmentation is extended by a range where `f` is not defined (`hole`), by a new segment (`append`) and by more of its last
  segment (`extend`).
* There is only one first segment: `firstLength_eq` finds its length from the range where `f` counts up.
-/

namespace Voltemu.Lib

open List

variable {f g : ℕ → Option ℕ} {start size k n a m d : ℕ} {segs : List (ℕ × ℕ)}

structure IsSegmentation (f : ℕ → Option ℕ) (start size : ℕ) (segs : List (ℕ × ℕ)) : Prop where
  ascending : segs.Pairwise fun s t => s.1 + s.2 ≤ t.1
  nonempty : ∀ s ∈ segs, 0 < s.2
  covers : ∀ a, (∃ s ∈ segs, s.1 ≤ a ∧ a < s.1 + s.2) ↔ (start ≤ a ∧ a < start + size) ∧ (f a).isSome
  contiguous : ∀ s ∈ segs, ∃ d, ∀ i < s.2, f (s.1 + i) = some (d + i)
  maximal : ∀ s ∈ segs, ∀ t ∈ segs, s.1 + s.2 = t.1 → ∀ d, f (t.1 - 1) = some d → f t.1 ≠ some (d + 1)

lemma IsSegmentation.nil (f : ℕ → Option ℕ) (start : ℕ) : IsSegmentation f start 0 [] where
  ascending := .nil
  nonempty := by simp
  covers a := by
    constructor
    · rintro ⟨s, hs, -⟩
      cases hs
    · rintro ⟨⟨h, h'⟩, -⟩
      omega
  contiguous := by simp
  maximal := by simp

lemma IsSegmentation.inside (h : IsSegmentation f start size segs) {s : ℕ × ℕ} (hs : s ∈ segs) :
    start ≤ s.1 ∧ s.1 + s.2 ≤ start + size := by
  have hpos := h.nonempty s hs
  have hfirst := ((h.covers s.1).1 ⟨s, hs, Nat.le_refl _, by omega⟩).1
  have hlast := ((h.covers (s.1 + s.2 - 1)).1 ⟨s, hs, by omega, by omega⟩).1
  omega

/-- Only the values of the map on the range count. -/
lemma IsSegmentation.congr (hfg : ∀ a, start ≤ a → a < start + size → f a = g a) (h : IsSegmentation f start size segs) :
    IsSegmentation g start size segs where
  ascending := h.ascending
  nonempty := h.nonempty
  covers a := by
    rw [h.covers a]
    exact and_congr_right fun ha => by rw [hfg a ha.1 ha.2]
  contiguous s hs := by
    obtain ⟨hlow, hhigh⟩ := h.inside hs
    obtain ⟨d, hd⟩ := h.contiguous s hs
    exact ⟨d, fun i hi => by rw [← hfg _ (by omega) (by omega), hd i hi]⟩
  maximal s hs t ht htouch d hd := by
    obtain ⟨hlow, hhigh⟩ := h.inside hs
    obtain ⟨hlow', hhigh'⟩ := h.inside ht
    have hpos := h.nonempty s hs
    have hpos' := h.nonempty t ht
    rw [← hfg _ (by omega) (by omega)] at hd ⊢
    exact h.maximal s hs t ht htouch d hd

/-! ## Extensions -/

/-- Behind the range the map is not defined. -/
lemma IsSegmentation.hole (h : IsSegmentation f start k segs) (hnone : ∀ i < n, f (start + k + i) = none) :
    IsSegmentation f start (k + n) segs where
  ascending := h.ascending
  nonempty := h.nonempty
  covers a := by
    rw [h.covers a]
    refine and_congr_left fun hsome => ⟨by omega, fun hin => ⟨hin.1, ?_⟩⟩
    by_contra hbehind
    have ha := hnone (a - (start + k)) (by omega)
    rw [Nat.add_sub_cancel' (by omega)] at ha
    rw [ha] at hsome
    exact absurd hsome (by simp)
  contiguous := h.contiguous
  maximal := h.maximal

/-- **A new segment** behind the range, from which the map does not go on. -/
lemma IsSegmentation.append (h : IsSegmentation f start k segs) (hn : 0 < n) (hmap : ∀ i < n, f (start + k + i) = some (d + i))
    (hbreak : 0 < k → ∀ e, f (start + k - 1) = some e → e + 1 ≠ d) : IsSegmentation f start (k + n) (segs ++ [(start + k, n)]) where
  ascending := by
    rw [pairwise_append]
    refine ⟨h.ascending, pairwise_singleton _ _, fun s hs t ht => ?_⟩
    rw [mem_singleton.1 ht]
    exact (h.inside hs).2
  nonempty s hs := by
    rcases mem_append.1 hs with hs | hs
    · exact h.nonempty s hs
    · rw [mem_singleton.1 hs]
      exact hn
  covers a := by
    have hnew : (start + k ≤ a ∧ a < start + k + n) → (f a).isSome := by
      rintro ⟨hlow, hhigh⟩
      have ha := hmap (a - (start + k)) (by omega)
      rw [Nat.add_sub_cancel' hlow] at ha
      rw [ha]
      rfl
    have hold := h.covers a
    constructor
    · rintro ⟨s, hs, hlow, hhigh⟩
      rcases mem_append.1 hs with hs | hs
      · obtain ⟨hin, hsome⟩ := hold.1 ⟨s, hs, hlow, hhigh⟩
        exact ⟨by omega, hsome⟩
      · rw [mem_singleton.1 hs] at hlow hhigh
        exact ⟨⟨by dsimp only at hlow; omega, by dsimp only at hhigh; omega⟩, hnew ⟨hlow, hhigh⟩⟩
    · rintro ⟨hin, hsome⟩
      by_cases hk : a < start + k
      · obtain ⟨s, hs, hsa⟩ := hold.2 ⟨⟨hin.1, hk⟩, hsome⟩
        exact ⟨s, mem_append_left _ hs, hsa⟩
      · exact ⟨_, mem_append_right _ mem_cons_self, by dsimp only; omega, by dsimp only; omega⟩
  contiguous s hs := by
    rcases mem_append.1 hs with hs | hs
    · exact h.contiguous s hs
    · rw [mem_singleton.1 hs]
      exact ⟨d, hmap⟩
  maximal s hs t ht htouch e he := by
    rcases mem_append.1 hs with hs | hs
    · rcases mem_append.1 ht with ht | ht
      · exact h.maximal s hs t ht htouch e he
      · rw [mem_singleton.1 ht] at htouch he ⊢
        have hpos := h.nonempty s hs
        have hinside := h.inside hs
        have hfirst := hmap 0 hn
        rw [Nat.add_zero, Nat.add_zero] at hfirst
        dsimp only at htouch he ⊢
        rw [hfirst, ne_eq, Option.some.injEq]
        exact fun heq => hbreak (by omega) e he heq.symm
    · -- nothing follows the new segment
      rw [mem_singleton.1 hs] at htouch
      dsimp only at htouch
      rcases mem_append.1 ht with ht | ht
      · have hinside := h.inside ht
        have hpos := h.nonempty t ht
        omega
      · rw [mem_singleton.1 ht] at htouch
        dsimp only at htouch
        omega

/-- **More of the last segment**: the map goes on. -/
lemma IsSegmentation.extend (h : IsSegmentation f start k (segs ++ [(a, m)])) (hend : a + m = start + k)
    (hlast : f (start + k - 1) = some d) (hmap : ∀ i < n, f (start + k + i) = some (d + 1 + i)) :
    IsSegmentation f start (k + n) (segs ++ [(a, m + n)]) where
  ascending := by
    have hold := pairwise_append.1 h.ascending
    rw [pairwise_append]
    refine ⟨hold.1, pairwise_singleton _ _, fun s hs t ht => ?_⟩
    rw [mem_singleton.1 ht]
    exact hold.2.2 s hs (a, m) mem_cons_self
  nonempty s hs := by
    rcases mem_append.1 hs with hs | hs
    · exact h.nonempty s (mem_append_left _ hs)
    · rw [mem_singleton.1 hs]
      exact Nat.lt_of_lt_of_le (h.nonempty (a, m) (mem_append_right _ mem_cons_self)) (Nat.le_add_right _ _)
  covers x := by
    have hnew : (start + k ≤ x ∧ x < start + k + n) → (f x).isSome := by
      rintro ⟨hlow, hhigh⟩
      have hx := hmap (x - (start + k)) (by omega)
      rw [Nat.add_sub_cancel' hlow] at hx
      rw [hx]
      rfl
    have hold := h.covers x
    constructor
    · rintro ⟨s, hs, hlow, hhigh⟩
      rcases mem_append.1 hs with hs | hs
      · obtain ⟨hin, hsome⟩ := hold.1 ⟨s, mem_append_left _ hs, hlow, hhigh⟩
        exact ⟨by omega, hsome⟩
      · rw [mem_singleton.1 hs] at hlow hhigh
        dsimp only at hlow hhigh
        by_cases hx : x < a + m
        · obtain ⟨hin, hsome⟩ := hold.1 ⟨(a, m), mem_append_right _ mem_cons_self, hlow, hx⟩
          exact ⟨by omega, hsome⟩
        · have hinside := h.inside (mem_append_right segs mem_cons_self)
          exact ⟨by omega, hnew ⟨by omega, by omega⟩⟩
    · rintro ⟨hin, hsome⟩
      by_cases hx : x < start + k
      · obtain ⟨s, hs, hlow, hhigh⟩ := hold.2 ⟨⟨hin.1, hx⟩, hsome⟩
        rcases mem_append.1 hs with hs | hs
        · exact ⟨s, mem_append_left _ hs, hlow, hhigh⟩
        · rw [mem_singleton.1 hs] at hlow hhigh
          exact ⟨_, mem_append_right _ mem_cons_self, hlow, by dsimp only at hhigh ⊢; omega⟩
      · exact ⟨_, mem_append_right _ mem_cons_self, by dsimp only; omega, by dsimp only; omega⟩
  contiguous s hs := by
    rcases mem_append.1 hs with hs | hs
    · exact h.contiguous s (mem_append_left _ hs)
    · rw [mem_singleton.1 hs]
      have hpos : 0 < m := h.nonempty (a, m) (mem_append_right _ mem_cons_self)
      obtain ⟨e, he⟩ := h.contiguous (a, m) (mem_append_right _ mem_cons_self)
      dsimp only at he ⊢
      -- the value at the end of the old segment
      have hvalue : e + (m - 1) = d := by
        have hat := he (m - 1) (by omega)
        rw [show a + (m - 1) = start + k - 1 by omega, hlast, Option.some.injEq] at hat
        exact hat.symm
      refine ⟨e, fun i hi => ?_⟩
      by_cases him : i < m
      · exact he i him
      · have hnew := hmap (i - m) (by omega)
        rw [show start + k + (i - m) = a + i by omega] at hnew
        rw [hnew, Option.some.injEq]
        omega
  maximal s hs t ht htouch e he := by
    have hinside := fun u hu => h.inside (s := u) hu
    have hlen : ∀ u ∈ segs ++ [(a, m + n)], u = (a, m + n) ∨ u ∈ segs := by
      intro u hu
      rcases mem_append.1 hu with hu | hu
      · exact .inr hu
      · exact .inl (mem_singleton.1 hu)
    have hold : (a, m) ∈ segs ++ [(a, m)] := mem_append_right _ mem_cons_self
    have hpos : 0 < m := h.nonempty (a, m) hold
    rcases hlen s hs with rfl | hs
    · -- nothing follows the last segment
      dsimp only at htouch
      rcases hlen t ht with rfl | ht
      · dsimp only at htouch
        omega
      · have := hinside t (mem_append_left _ ht)
        have := h.nonempty t (mem_append_left _ ht)
        omega
    · rcases hlen t ht with rfl | ht
      · exact h.maximal s (mem_append_left _ hs) (a, m) hold htouch e he
      · exact h.maximal s (mem_append_left _ hs) t (mem_append_left _ ht) htouch e he

/-! ## The first segment -/

/-- The length of the first segment, if it starts at the start of the range. -/
def firstLength (start : ℕ) (segs : List (ℕ × ℕ)) : ℕ :=
  match segs with
  | [] => 0
  | (a, n) :: _ => if a = start then n else 0

/-- **The first segment** is as long as the map counts up from the start of the range. -/
theorem IsSegmentation.firstLength_eq (h : IsSegmentation f start size segs) (hk : k ≤ size)
    (hmap : ∀ i < k, f (start + i) = some (d + i)) (hstop : 0 < k → k < size → f (start + k) ≠ some (d + k))
    (hzero : k = 0 → f start = none) : firstLength start segs = k := by
  cases segs with
  | nil =>
    by_contra hne
    have hpos : 0 < k := Nat.pos_of_ne_zero fun h0 => hne h0.symm
    have hcovered := (h.covers start).2 ⟨⟨Nat.le_refl _, by omega⟩, by rw [← Nat.add_zero start, hmap 0 hpos]; rfl⟩
    obtain ⟨s, hs, -⟩ := hcovered
    cases hs
  | cons s rest =>
    obtain ⟨a, n⟩ := s
    have hmem : (a, n) ∈ (a, n) :: rest := mem_cons_self
    have hn : 0 < n := h.nonempty _ hmem
    have hinside := h.inside hmem
    dsimp only at hinside
    rw [firstLength]
    rcases Nat.eq_zero_or_pos k with rfl | hpos
    · rw [if_neg]
      rintro rfl
      have hsome := ((h.covers a).1 ⟨_, hmem, Nat.le_refl _, by dsimp only; omega⟩).2
      rw [hzero rfl] at hsome
      exact absurd hsome (by simp)
    · have hfirst : ∀ t ∈ rest, a + n ≤ t.1 := (pairwise_cons.1 h.ascending).1
      have ha : a = start := by
        obtain ⟨s, hs, hlow, hhigh⟩ :=
          (h.covers start).2 ⟨⟨Nat.le_refl _, by omega⟩, by rw [← Nat.add_zero start, hmap 0 hpos]; rfl⟩
        rcases mem_cons.1 hs with rfl | hs
        · dsimp only at hlow
          omega
        · have := hfirst s hs
          omega
      subst ha
      rw [if_pos rfl]
      obtain ⟨e, he⟩ := h.contiguous _ hmem
      dsimp only at he
      have hed : e = d := by
        have hstart := he 0 hn
        rw [hmap 0 hpos, Option.some.injEq] at hstart
        omega
      subst hed
      rcases Nat.lt_trichotomy n k with hlt | rfl | hgt
      · -- another segment would have to go on
        exfalso
        obtain ⟨t, ht, hlow, hhigh⟩ := (h.covers (a + n)).2 ⟨⟨by omega, by omega⟩, by rw [hmap n hlt]; rfl⟩
        rcases mem_cons.1 ht with rfl | ht'
        · dsimp only at hhigh
          omega
        · have htouch : a + n = t.1 := Nat.le_antisymm (hfirst t ht') hlow
          refine h.maximal _ hmem t ht htouch (e + (n - 1)) ?_ ?_
          · rw [← htouch, show a + n - 1 = a + (n - 1) by omega]
            exact he (n - 1) (by omega)
          · rw [← htouch, hmap n hlt, Option.some.injEq]
            omega
      · rfl
      · exact absurd (he k hgt) (hstop hpos (by omega))

/-- A single segment is the whole range exactly if the map counts up on all of it. -/
theorem IsSegmentation.eq_singleton_iff (h : IsSegmentation f start size segs) (hsize : 0 < size) :
    segs = [(start, size)] ↔ ∃ d, ∀ i < size, f (start + i) = some (d + i) := by
  constructor
  · rintro rfl
    exact h.contiguous _ mem_cons_self
  · rintro ⟨d, hd⟩
    have hlength := h.firstLength_eq (Nat.le_refl size) hd (fun _ hlt => absurd hlt (Nat.lt_irrefl _)) (by omega)
    cases segs with
    | nil => exact absurd hlength (by rw [firstLength]; omega)
    | cons s rest =>
      obtain ⟨a, n⟩ := s
      rw [firstLength] at hlength
      by_cases ha : a = start
      · rw [if_pos ha] at hlength
        subst ha hlength
        cases rest with
        | nil => rfl
        | cons t rest =>
          have hbehind : a + n ≤ t.1 := (pairwise_cons.1 h.ascending).1 t mem_cons_self
          have hinside := h.inside (mem_cons_of_mem (a, n) (mem_cons_self (a := t) (l := rest)))
          have hpos := h.nonempty t (mem_cons_of_mem _ mem_cons_self)
          omega
      · rw [if_neg ha] at hlength
        omega

end Voltemu.Lib
