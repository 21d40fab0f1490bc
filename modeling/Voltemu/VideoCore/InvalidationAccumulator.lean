import Mathlib.Tactic.Common

/-!
# Writes waiting for an invalidation

`video_core/invalidation_accumulator.h`: written ranges are rounded to units of 32 bytes and handed out together.
Sums of addresses and sizes are taken not to overflow.

* The end of a range is rounded up, but its size is counted from the address before that is rounded down, so a range
  is cut short by what its address lies behind a unit.
* A start address of zero stands for an empty accumulator, so the first unit is lost.
* `covered_of_kept` — otherwise no write is lost, over any sequence of calls.
-/

namespace Voltemu.VideoCore

structure InvalidationAccumulator where
  buffer : List (ℕ × ℕ)
  startAddress : ℕ
  accumulatedSize : ℕ
deriving DecidableEq

namespace InvalidationAccumulator

def init : InvalidationAccumulator := ⟨[], 0, 0⟩

def unitOf (address : ℕ) : ℕ := address / 32 * 32

/-- The range lies in the current run. -/
def Holds (a : InvalidationAccumulator) (address size : ℕ) : Prop :=
  a.startAddress ≤ address ∧ address + size ≤ a.startAddress + a.accumulatedSize

instance (a : InvalidationAccumulator) (address size : ℕ) : Decidable (a.Holds address size) :=
  inferInstanceAs (Decidable (_ ∧ _))

def add (a : InvalidationAccumulator) (address size : ℕ) : InvalidationAccumulator :=
  if a.Holds address size then a
  else
    let size := unitOf (address + size + 31) - address
    let address := unitOf address
    if a.startAddress = 0 then { a with startAddress := address, accumulatedSize := size }
    else if address = a.startAddress + a.accumulatedSize then
      { a with accumulatedSize := a.accumulatedSize + size }
    else ⟨a.buffer ++ [(a.startAddress, a.accumulatedSize)], address, size⟩

/-- `InvalidateAll`: what it returns, the ranges it calls back with, and the accumulator after it. -/
def invalidateAll (a : InvalidationAccumulator) : Bool × List (ℕ × ℕ) × InvalidationAccumulator :=
  if a.startAddress > 0 then (true, a.buffer ++ [(a.startAddress, a.accumulatedSize)], init)
  else (false, [], a)

def run (a : InvalidationAccumulator) : List (ℕ × ℕ) → InvalidationAccumulator
  | [] => a
  | (address, size) :: calls => (a.add address size).run calls

/-- Every byte of the added ranges is in a range that is handed out, after which nothing is. -/
def Flushed (a : InvalidationAccumulator) (added : List (ℕ × ℕ)) : Prop :=
  (∀ r ∈ added, ∀ x, r.1 ≤ x → x < r.1 + r.2 → ∃ p ∈ a.invalidateAll.2.1, p.1 ≤ x ∧ x < p.1 + p.2) ∧
    a.invalidateAll.2.2.invalidateAll.1 = false

/-- The range is kept whole: it is in the current run, or it lies behind the first unit and its end leaves room, in its
last unit, for what its address lies behind its first one. -/
def Kept (a : InvalidationAccumulator) (address size : ℕ) : Prop :=
  a.Holds address size ∨ 32 ≤ address ∧ address + size + address % 32 ≤ unitOf (address + size + 31)

def AllKept (a : InvalidationAccumulator) : List (ℕ × ℕ) → Prop
  | [] => True
  | (address, size) :: calls => a.Kept address size ∧ (a.add address size).AllKept calls

/-- The ranges that wait, the current run last. -/
def waiting (a : InvalidationAccumulator) : List (ℕ × ℕ) :=
  if a.startAddress = 0 then [] else a.buffer ++ [(a.startAddress, a.accumulatedSize)]

def Covers (ranges : List (ℕ × ℕ)) (x : ℕ) : Prop := ∃ p ∈ ranges, p.1 ≤ x ∧ x < p.1 + p.2

variable {a : InvalidationAccumulator} {address size x : ℕ}

lemma covers_run (hstart : a.startAddress ≠ 0) (hx : a.startAddress ≤ x ∧ x < a.startAddress + a.accumulatedSize) :
    Covers a.waiting x :=
  ⟨(a.startAddress, a.accumulatedSize), by rw [waiting, if_neg hstart]; exact List.mem_concat_self, hx⟩

lemma covers_buffer (hstart : a.startAddress ≠ 0) (h : Covers a.buffer x) : Covers a.waiting x := by
  obtain ⟨p, hp, hx⟩ := h
  exact ⟨p, by rw [waiting, if_neg hstart]; exact List.mem_append_left _ hp, hx⟩

section

variable (hkept : a.Kept address size) (hempty : a.startAddress = 0 → a.accumulatedSize = 0)
include hkept hempty

lemma covers_add (h : Covers a.waiting x ∨ address ≤ x ∧ x < address + size) : Covers (a.add address size).waiting x := by
  by_cases hholds : a.Holds address size
  · rw [add, if_pos hholds]
    refine h.elim id fun hx => ?_
    have hrun : a.startAddress ≤ address ∧ address + size ≤ a.startAddress + a.accumulatedSize := hholds
    refine covers_run (fun hzero => ?_) (by omega)
    have := hempty hzero
    omega
  · obtain ⟨haddress, hroom⟩ := hkept.resolve_left hholds
    have hunit : unitOf address + address % 32 = address ∧ unitOf address ≠ 0 := by
      unfold unitOf
      omega
    rw [add, if_neg hholds]
    dsimp only
    split_ifs with hstart hnext
    · have hnew : address ≤ x ∧ x < address + size := h.resolve_left (by simp [waiting, hstart, Covers])
      exact covers_run hunit.2 (by dsimp only; omega)
    · rcases h with ⟨p, hp, hx⟩ | hx
      · rw [waiting, if_neg hstart, List.mem_append, List.mem_singleton] at hp
        rcases hp with hp | rfl
        · exact covers_buffer hstart ⟨p, hp, hx⟩
        · exact covers_run hstart (by dsimp only at hx ⊢; omega)
      · exact covers_run hstart (by dsimp only; omega)
    · rcases h with h | hx
      · rw [waiting, if_neg hstart] at h
        exact covers_buffer hunit.2 h
      · exact covers_run hunit.2 (by dsimp only; omega)

lemma empty_add : (a.add address size).startAddress = 0 → (a.add address size).accumulatedSize = 0 := by
  by_cases hholds : a.Holds address size
  · rwa [add, if_pos hholds]
  · have haddress := (hkept.resolve_left hholds).1
    have hunit : unitOf address ≠ 0 := by
      unfold unitOf
      omega
    rw [add, if_neg hholds]
    dsimp only
    split_ifs with hstart <;> intro hzero
    · exact absurd hzero hunit
    · exact absurd hzero hstart
    · exact absurd hzero hunit

end

lemma waiting_run {calls : List (ℕ × ℕ)} (hkept : a.AllKept calls) (hempty : a.startAddress = 0 → a.accumulatedSize = 0)
    (h : Covers a.waiting x ∨ ∃ r ∈ calls, r.1 ≤ x ∧ x < r.1 + r.2) : Covers (a.run calls).waiting x := by
  induction calls generalizing a with
  | nil => simpa [run] using h
  | cons r calls ih =>
    refine ih hkept.2 (empty_add hkept.1 hempty) ?_
    rcases h with h | ⟨r', hr', hx⟩
    · exact .inl (covers_add hkept.1 hempty (.inl h))
    · rcases List.mem_cons.1 hr' with rfl | hr'
      · exact .inl (covers_add hkept.1 hempty (.inr hx))
      · exact .inr ⟨r', hr', hx⟩

/-- **No write is lost** in a sequence of calls whose ranges are kept whole. -/
theorem covered_of_kept (calls : List (ℕ × ℕ)) (hkept : init.AllKept calls) : (init.run calls).Flushed calls := by
  refine ⟨fun r hr x hle hlt => ?_, ?_⟩
  · obtain ⟨p, hp, hx⟩ := waiting_run (x := x) hkept (fun _ => rfl) (.inr ⟨r, hr, hle, hlt⟩)
    refine ⟨p, ?_, hx⟩
    unfold waiting at hp
    split_ifs at hp with hstart
    · simp at hp
    · rwa [invalidateAll, if_pos (Nat.pos_of_ne_zero hstart)]
  · by_cases hstart : (init.run calls).startAddress > 0
    · rw [invalidateAll, invalidateAll, if_pos hstart]
      rfl
    · rw [invalidateAll, invalidateAll, if_neg hstart]
      exact congrArg Prod.fst (if_neg hstart)

theorem covered_three : (init.run [(64, 32), (96, 5), (256, 64)]).Flushed [(64, 32), (96, 5), (256, 64)] :=
  covered_of_kept [(64, 32), (96, 5), (256, 64)] ⟨.inr (by decide), .inr (by decide), .inr (by decide), trivial⟩

/-- The last byte of a range from the end of a unit is lost. -/
theorem last_byte_lost : ¬ (init.run [(63, 33)]).Flushed [(63, 33)] := by
  intro h
  obtain ⟨p, hp, hx⟩ := h.1 (63, 33) (List.mem_singleton_self _) 95 (by decide) (by decide)
  have hout : (init.run [(63, 33)]).invalidateAll.2.1 = [(32, 33)] := by decide
  rw [hout, List.mem_singleton] at hp
  subst hp
  omega

end InvalidationAccumulator

end Voltemu.VideoCore
