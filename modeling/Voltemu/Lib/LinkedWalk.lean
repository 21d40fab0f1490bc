import Mathlib.Tactic

/-!
# Walks along links

A walk that does not remember where it has been.  From every place it goes to all places in `next`, and it comes back from a place
when it has come back from all of these.

* `Acyclic`: no place that can be reached is on a cycle.
* `acc_iff_acyclic`: if there are finitely many places, then accessibility is the absence of cycles.
* `halts_iff_acyclic`: a function with fuel that goes along the links ends, for some fuel, if and only if there is no cycle.
-/

namespace Voltemu.Lib

open Relation

variable {α : Type*} {next : α → List α} {start : α}

def Link (next : α → List α) (x y : α) : Prop := y ∈ next x

/-- **No place that can be reached is on a cycle.** -/
def Acyclic (next : α → List α) (start : α) : Prop := ∀ x, ReflTransGen (Link next) start x → ¬ TransGen (Link next) x x

/-- Nothing that is accessible precedes itself. -/
lemma not_self_of_acc {r : α → α → Prop} (h : Acc r start) : ¬ r start start := by
  induction h with
  | intro x _ ih => exact fun hself => ih x hself hself

/-- What follows an accessible place is accessible. -/
lemma acc_of_reaches {x : α} (h : Acc (fun y x => Link next x y) start) (hx : ReflTransGen (Link next) start x) :
    Acc (fun y x => Link next x y) x := by
  induction hx with
  | refl => exact h
  | tail _ hlink ih => exact ih.inv hlink

theorem acc_iff_acyclic [Finite α] : Acc (fun y x => Link next x y) start ↔ Acyclic next start := by
  constructor
  · intro h x hx hcycle
    have hacc : Acc (TransGen fun y x => Link next x y) x := (acc_of_reaches h hx).transGen
    exact not_self_of_acc hacc (transGen_swap.1 hcycle)
  · intro h
    -- the places that can be reached, and what is behind each of them
    let Place := { x : α // ReflTransGen (Link next) start x }
    let behind : Place → Place → Prop := fun y x => TransGen (Link next) x.1 y.1
    have htrans : IsTrans Place behind := ⟨fun _ _ _ hab hbc => hbc.trans hab⟩
    have hirrefl : Std.Irrefl behind := ⟨fun x => h x.1 x.2⟩
    have hwell : WellFounded behind := Finite.wellFounded_of_trans_of_irrefl behind
    have hplaces : ∀ x : Place, Acc (fun y x => Link next x y) x.1 := by
      intro x
      induction x using hwell.induction with
      | h x ih => exact .intro _ fun y hlink => ih ⟨y, x.2.tail hlink⟩ (.single hlink)
    exact hplaces ⟨start, .refl⟩

section Fuel

variable {halts : ℕ → α → Prop}

lemma halts_mono (hzero : ∀ x, ¬ halts 0 x) (hsucc : ∀ n x, halts (n + 1) x ↔ ∀ y ∈ next x, halts n y) {n k : ℕ} {x : α}
    (hle : n ≤ k) (h : halts n x) : halts k x := by
  induction n generalizing k x with
  | zero => exact absurd h (hzero x)
  | succ n ih =>
    obtain ⟨k, rfl⟩ : ∃ j, k = j + 1 := ⟨k - 1, by omega⟩
    exact (hsucc k x).2 fun y hy => ih (by omega) ((hsucc n x).1 h y hy)

lemma halts_all (halts : ℕ → α → Prop) (hmono : ∀ {n k x}, n ≤ k → halts n x → halts k x) {places : List α} (h : ∀ x ∈ places, ∃ n, halts n x) :
    ∃ n, ∀ x ∈ places, halts n x := by
  induction places with
  | nil => exact ⟨0, nofun⟩
  | cons x places ih =>
    obtain ⟨n, hn⟩ := h x List.mem_cons_self
    obtain ⟨k, hk⟩ := ih fun y hy => h y (List.mem_cons_of_mem x hy)
    refine ⟨max n k, fun y hy => ?_⟩
    rcases List.mem_cons.1 hy with rfl | hy
    · exact hmono (Nat.le_max_left n k) hn
    · exact hmono (Nat.le_max_right n k) (hk y hy)

/-- **A walk ends** if and only if it does not come to a cycle. -/
theorem halts_iff_acyclic [Finite α] (hzero : ∀ x, ¬ halts 0 x)
    (hsucc : ∀ n x, halts (n + 1) x ↔ ∀ y ∈ next x, halts n y) : (∃ n, halts n start) ↔ Acyclic next start := by
  rw [← acc_iff_acyclic]
  constructor
  · rintro ⟨n, h⟩
    induction n generalizing start with
    | zero => exact absurd h (hzero start)
    | succ n ih => exact .intro _ fun y hy => ih ((hsucc n start).1 h y hy)
  · intro h
    induction h with
    | intro x _ ih =>
      have hall : ∀ y ∈ next x, ∃ n, halts n y := ih
      obtain ⟨n, hn⟩ := halts_all halts (halts_mono hzero hsucc) hall
      exact ⟨n + 1, (hsucc n x).2 hn⟩

end Fuel

end Voltemu.Lib
