import Mathlib.Data.List.Basic
import Mathlib.Data.Nat.ModEq

/-!
# Windows of a ring

A ring of `n` slots is read from a position on.  Positions count on and never wrap; the slot of position `p` is
`p % n`.  Adjacent windows are cut out of one long window by their lengths alone.

* `window` — the entries of `count` slots from a position on;
* `back` — the slot that lies `count` before an index, with one correction by `n`;
* `window_update` — a write inside of the window is a `List.set`.
-/

namespace Voltemu.Lib.Ring

open Function List Nat

variable {α : Type*} {n : ℕ} {buf : ℕ → α} {p count k : ℕ} {x : α}

/-- The entries of the `count` slots from position `p` on. -/
def window (n : ℕ) (buf : ℕ → α) (p count : ℕ) : List α :=
  (List.range count).map fun i => buf ((p + i) % n)

/-- The slot `count` before `index`. -/
def back (n index count : ℕ) : ℕ :=
  let i : ℤ := index - count
  (if i < 0 then i + n else i).toNat

@[simp]
lemma window_length : (window n buf p count).length = count := by
  simp [window]

lemma window_getElem? (hk : k < count) : (window n buf p count)[k]? = some (buf ((p + k) % n)) := by
  simp [window, hk]

lemma window_succ : window n buf p (count + 1) = buf (p % n) :: window n buf (p + 1) count := by
  simp only [window, range_succ_eq_map, map_cons, map_map, add_zero]
  congr 1
  refine map_congr_left fun i _ => ?_
  simp only [comp_apply]
  rw [show p + i.succ = p + 1 + i by omega]

lemma window_concat : window n buf p (count + 1) = window n buf p count ++ [buf ((p + count) % n)] := by
  simp [window, range_succ]

/-- Less than one turn apart, two positions have different slots. -/
lemma slot_ne {i j : ℕ} (hi : i < n) (hj : j < n) (hij : i ≠ j) : (p + i) % n ≠ (p + j) % n := by
  intro heq
  have hmod : i ≡ j [MOD n] := Nat.ModEq.add_left_cancel' p heq
  exact hij (hmod.eq_of_lt_of_lt hi hj)

/-- **A write inside of the window.** -/
lemma window_update (hcount : count ≤ n) (hk : k < count) :
    window n (update buf ((p + k) % n) x) p count = (window n buf p count).set k x := by
  refine ext_getElem? fun i => ?_
  rw [getElem?_set]
  by_cases hi : i < count
  · rw [window_getElem? hi, window_getElem? hi, window_length]
    split_ifs with heq
    · rw [heq, update_self]
    · rw [update_of_ne (slot_ne (by omega) (by omega) (Ne.symm heq))]
  · rw [if_neg (by omega), getElem?_eq_none (by simpa using hi), getElem?_eq_none (by simpa using hi)]

lemma window_update_end (hcount : count < n) :
    window n (update buf ((p + count) % n) x) p (count + 1) = window n buf p count ++ [x] := by
  rw [window_update hcount (lt_succ_self count), window_concat]
  simp

/-- A write to the first slot does not touch the others. -/
lemma window_update_start (hcount : count + 1 ≤ n) :
    window n (update buf (p % n) x) (p + 1) count = window n buf (p + 1) count := by
  refine map_congr_left fun i hi => ?_
  have hi : i < count := mem_range.1 hi
  have hne : (p + 1 + i) % n ≠ p % n := by
    have hne' := slot_ne (p := p) (show i + 1 < n by omega) (show 0 < n by omega) (succ_ne_zero i)
    rwa [add_zero, show p + (i + 1) = p + 1 + i by omega] at hne'
  rw [update_of_ne hne]

/-- **`count` before the end of a window of `count` slots is its start.** -/
lemma back_eq (hn : 0 < n) (hcount : count ≤ n) : back n ((p + count) % n) count = p % n := by
  have hdiv := div_add_mod (p + count) n
  have hlt := mod_lt (p + count) hn
  generalize (p + count) % n = x at hdiv hlt ⊢
  generalize (p + count) / n = c at hdiv
  by_cases hx : count ≤ x
  · have hback : back n x count = x - count := by
      unfold back
      dsimp only
      rw [if_neg (by omega)]
      omega
    have hp : p = x - count + n * c := by omega
    rw [hback, hp, add_mul_mod_self_left, mod_eq_of_lt (by omega)]
  · have hback : back n x count = x + n - count := by
      unfold back
      dsimp only
      rw [if_pos (by omega)]
      omega
    rw [hback]
    cases c with
    | zero =>
      rw [mul_zero] at hdiv
      omega
    | succ c =>
      rw [mul_succ] at hdiv
      have hp : p = x + n - count + n * c := by omega
      rw [hp, add_mul_mod_self_left, mod_eq_of_lt (by omega)]

end Voltemu.Lib.Ring
