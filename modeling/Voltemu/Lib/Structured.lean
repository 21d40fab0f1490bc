import Mathlib.Logic.Relation
import Mathlib.Tactic.Common

/-!
# Structured programs

Blocks of actions, conditionals and loops whose body comes before the test.  What actions and tests do to a store is
left to a `Semantics`; either may fail.

* `Runs` — the meaning of a block that ends, by recursion on the block and on the passes of its loops;
* `State`, `step` — a machine that goes through a block, with a stack of the constructs that it is inside of;
* `reaches_iff_runs`, `steps_end_iff` — the machine comes to the end of a block with just the stores that the block
  runs to.
-/

namespace Voltemu.Lib.Structured

/-- Actions `α`, conditions `β` and loops `γ`, each followed by the rest of the block. -/
inductive Block (α β γ : Type*)
  | done
  | act (a : α) (rest : Block α β γ)
  | branch (b : β) (yes rest : Block α β γ)
  | branchElse (b : β) (yes no rest : Block α β γ)
  | loop (c : γ) (body rest : Block α β γ)

/-- What is done to a store.  A loop is entered once, and asks after every pass whether there is another. -/
structure Semantics (α β γ ε S : Type*) where
  act : α → S → Except ε S
  test : β → S → Except ε (Bool × S)
  enter : γ → S → Except ε S
  again : γ → S → Except ε (Bool × S)

variable {α β γ ε S : Type*}

/-- A block, or the passes of a loop from the next one on. -/
inductive Task (α β γ : Type*)
  | block (b : Block α β γ)
  | passes (c : γ) (body : Block α β γ)

/-- **The meaning of blocks.** -/
inductive Runs (M : Semantics α β γ ε S) : Task α β γ → S → S → Prop
  | done {s} : Runs M (.block .done) s s
  | act {a rest s s1 t} : M.act a s = .ok s1 → Runs M (.block rest) s1 t → Runs M (.block (.act a rest)) s t
  | yes {b yes rest s s1 s2 t} : M.test b s = .ok (true, s1) → Runs M (.block yes) s1 s2 →
      Runs M (.block rest) s2 t → Runs M (.block (.branch b yes rest)) s t
  | skip {b yes rest s s1 t} : M.test b s = .ok (false, s1) → Runs M (.block rest) s1 t →
      Runs M (.block (.branch b yes rest)) s t
  | yesElse {b yes no rest s s1 s2 t} : M.test b s = .ok (true, s1) → Runs M (.block yes) s1 s2 →
      Runs M (.block rest) s2 t → Runs M (.block (.branchElse b yes no rest)) s t
  | noElse {b yes no rest s s1 s2 t} : M.test b s = .ok (false, s1) → Runs M (.block no) s1 s2 →
      Runs M (.block rest) s2 t → Runs M (.block (.branchElse b yes no rest)) s t
  | loop {c body rest s s1 s2 t} : M.enter c s = .ok s1 → Runs M (.passes c body) s1 s2 →
      Runs M (.block rest) s2 t → Runs M (.block (.loop c body rest)) s t
  | last {c body s s1 t} : Runs M (.block body) s s1 → M.again c s1 = .ok (false, t) → Runs M (.passes c body) s t
  | next {c body s s1 s2 t} : Runs M (.block body) s s1 → M.again c s1 = .ok (true, s2) →
      Runs M (.passes c body) s2 t → Runs M (.passes c body) s t

/-! ## The machine -/

/-- What follows the block that is run: the rest behind a conditional, the same with an arm to be passed over, or the
test of a loop. -/
inductive Frame (α β γ : Type*)
  | close (rest : Block α β γ)
  | pass (no rest : Block α β γ)
  | again (c : γ) (body rest : Block α β γ)

structure State (α β γ S : Type*) where
  block : Block α β γ
  frames : List (Frame α β γ)
  store : S

/-- One step.  There is none at the end of the program. -/
def step (M : Semantics α β γ ε S) (x : State α β γ S) : Except ε (Option (State α β γ S)) :=
  match x.block, x.frames with
  | .done, [] => .ok none
  | .done, .close rest :: frames => .ok (some ⟨rest, frames, x.store⟩)
  | .done, .pass _ rest :: frames => .ok (some ⟨rest, frames, x.store⟩)
  | .done, .again c body rest :: frames => (M.again c x.store).map fun (more, store) =>
      some (if more then ⟨body, .again c body rest :: frames, store⟩ else ⟨rest, frames, store⟩)
  | .act a rest, frames => (M.act a x.store).map fun store => some ⟨rest, frames, store⟩
  | .branch b yes rest, frames => (M.test b x.store).map fun (met, store) =>
      some (if met then ⟨yes, .close rest :: frames, store⟩ else ⟨rest, frames, store⟩)
  | .branchElse b yes no rest, frames => (M.test b x.store).map fun (met, store) =>
      some (if met then ⟨yes, .pass no rest :: frames, store⟩ else ⟨no, .close rest :: frames, store⟩)
  | .loop c body rest, frames => (M.enter c x.store).map fun store =>
      some ⟨body, .again c body rest :: frames, store⟩

section Reaches

variable (M : Semantics α β γ ε S)

/-- Some steps lead from a state to a state. -/
def Reaches : State α β γ S → State α β γ S → Prop :=
  Relation.ReflTransGen fun x y => step M x = .ok (some y)

/-- What the stack goes on to, from the end of the current block. -/
def Finishes : List (Frame α β γ) → S → S → Prop
  | [], s, t => s = t
  | .close rest :: frames, s, t => ∃ u, Runs M (.block rest) s u ∧ Finishes frames u t
  | .pass _ rest :: frames, s, t => ∃ u, Runs M (.block rest) s u ∧ Finishes frames u t
  | .again c body rest :: frames, s, t => ∃ s1 u,
      (M.again c s = .ok (false, s1) ∨ ∃ s2, M.again c s = .ok (true, s2) ∧ Runs M (.passes c body) s2 s1) ∧
      Runs M (.block rest) s1 u ∧ Finishes frames u t

variable {M}

variable {s t : S}

/-- A task is gone through, whatever the stack below it. -/
lemma Runs.reaches {task : Task α β γ} (h : Runs M task s t) :
    match task with
    | .block b => ∀ frames, Reaches M ⟨b, frames, s⟩ ⟨.done, frames, t⟩
    | .passes c body => ∀ frames rest, Reaches M ⟨body, .again c body rest :: frames, s⟩ ⟨rest, frames, t⟩ := by
  induction h with
  | done => exact fun _ => .refl
  | act ha _ ih => exact fun frames => .head (by simp only [step, ha]; rfl) (ih frames)
  | yes hb _ _ ih ih' =>
    intro frames
    refine .head (by simp only [step, hb]; rfl) ((ih _).trans ?_)
    exact .head rfl (ih' frames)
  | skip hb _ ih => exact fun frames => .head (by simp only [step, hb]; rfl) (ih frames)
  | yesElse hb _ _ ih ih' =>
    intro frames
    refine .head (by simp only [step, hb]; rfl) ((ih _).trans ?_)
    exact .head rfl (ih' frames)
  | noElse hb _ _ ih ih' =>
    intro frames
    refine .head (by simp only [step, hb]; rfl) ((ih _).trans ?_)
    exact .head rfl (ih' frames)
  | loop hc _ _ ih ih' =>
    intro frames
    exact .head (by simp only [step, hc]; rfl) ((ih frames _).trans (ih' frames))
  | last _ hc ih =>
    intro frames rest
    exact (ih _).trans (.head (by simp only [step, hc]; rfl) .refl)
  | next _ hc _ ih ih' =>
    intro frames rest
    exact (ih _).trans (.head (by simp only [step, hc]; rfl) (ih' frames rest))

lemma map_eq_ok {A B : Type*} {m : Except ε A} {f : A → B} {y : B} (h : m.map f = .ok y) : ∃ a, m = .ok a ∧ f a = y := by
  cases m with
  | error e => cases h
  | ok a => exact ⟨a, rfl, Except.ok.inj h⟩

/-- What a state goes on to. -/
def Means (M : Semantics α β γ ε S) (x : State α β γ S) (t : S) : Prop :=
  ∃ u, Runs M (.block x.block) x.store u ∧ Finishes M x.frames u t

/-- A pass of a loop, and what its stack goes on to. -/
lemma passes_of_finishes {c : γ} {body rest : Block α β γ} {frames : List (Frame α β γ)}
    {u : S} (hbody : Runs M (.block body) s u)
    (h : Finishes M (.again c body rest :: frames) u t) :
    ∃ s1 u', Runs M (.passes c body) s s1 ∧ Runs M (.block rest) s1 u' ∧ Finishes M frames u' t := by
  obtain ⟨s1, u', hpass, hrest, hf⟩ := h
  refine ⟨s1, u', ?_, hrest, hf⟩
  rcases hpass with hlast | ⟨s2, hnext, hpass⟩
  · exact .last hbody hlast
  · exact .next hbody hnext hpass

lemma Means.of_step {x y : State α β γ S} (h : step M x = .ok (some y)) (hy : Means M y t) : Means M x t := by
  obtain ⟨block, frames, s⟩ := x
  obtain ⟨u, hu, hf⟩ := hy
  cases block with
  | done =>
    cases frames with
    | nil => cases h
    | cons frame frames =>
      cases frame with
      | close rest =>
        cases h
        exact ⟨s, .done, u, hu, hf⟩
      | pass no rest =>
        cases h
        exact ⟨s, .done, u, hu, hf⟩
      | again c body rest =>
        obtain ⟨⟨more, s1⟩, hc, heq⟩ := map_eq_ok h
        cases more with
        | false =>
          cases heq
          exact ⟨s, .done, s1, u, .inl hc, hu, hf⟩
        | true =>
          cases heq
          obtain ⟨s2, u', hpass, hrest, hf⟩ := passes_of_finishes hu hf
          exact ⟨s, .done, s2, u', .inr ⟨s1, hc, hpass⟩, hrest, hf⟩
  | act a rest =>
    obtain ⟨s1, ha, heq⟩ := map_eq_ok h
    cases heq
    exact ⟨u, .act ha hu, hf⟩
  | branch b yes rest =>
    obtain ⟨⟨met, s1⟩, hb, heq⟩ := map_eq_ok h
    cases met with
    | false =>
      cases heq
      exact ⟨u, .skip hb hu, hf⟩
    | true =>
      cases heq
      obtain ⟨u', hrest, hf⟩ := hf
      exact ⟨u', .yes hb hu hrest, hf⟩
  | branchElse b yes no rest =>
    obtain ⟨⟨met, s1⟩, hb, heq⟩ := map_eq_ok h
    cases met with
    | false =>
      cases heq
      obtain ⟨u', hrest, hf⟩ := hf
      exact ⟨u', .noElse hb hu hrest, hf⟩
    | true =>
      cases heq
      obtain ⟨u', hrest, hf⟩ := hf
      exact ⟨u', .yesElse hb hu hrest, hf⟩
  | loop c body rest =>
    obtain ⟨s1, hc, heq⟩ := map_eq_ok h
    cases heq
    obtain ⟨s2, u', hpass, hrest, hf⟩ := passes_of_finishes hu hf
    exact ⟨u', .loop hc hpass hrest, hf⟩

variable {b : Block α β γ}

/-- **The machine comes to the end of a block with just the stores that the block runs to.** -/
theorem reaches_iff_runs : Reaches M ⟨b, [], s⟩ ⟨.done, [], t⟩ ↔ Runs M (.block b) s t := by
  constructor
  · intro h
    have hmeans : Means M ⟨b, [], s⟩ t := by
      generalize (⟨b, [], s⟩ : State α β γ S) = x at h
      induction h using Relation.ReflTransGen.head_induction_on with
      | refl => exact ⟨t, .done, rfl⟩
      | head hstep _ ih => exact ih.of_step hstep
    obtain ⟨u, hu, rfl⟩ := hmeans
    exact hu
  · exact fun h => h.reaches []

/-- So many steps, and whether the program goes on behind them. -/
def steps (M : Semantics α β γ ε S) : ℕ → State α β γ S → Except ε (State α β γ S × Bool)
  | 0, x => .ok (x, true)
  | n + 1, x =>
      match step M x with
      | .error e => .error e
      | .ok none => .ok (x, false)
      | .ok (some y) => steps M n y

lemma step_eq_none_iff {x : State α β γ S} : step M x = .ok none ↔ x.block = .done ∧ x.frames = [] := by
  obtain ⟨block, frames, s⟩ := x
  constructor
  · intro h
    cases block with
    | done =>
      cases frames with
      | nil => exact ⟨rfl, rfl⟩
      | cons frame frames =>
        cases frame with
        | close rest => cases h
        | pass no rest => cases h
        | again c body rest =>
          obtain ⟨_, _, heq⟩ := map_eq_ok h
          cases heq
    | act | branch | branchElse | loop =>
      obtain ⟨_, _, heq⟩ := map_eq_ok h
      cases heq
  · rintro ⟨rfl, rfl⟩
    rfl

/-- **The steps of a block come to an end with just the stores that the block runs to.** -/
theorem steps_end_iff : (∃ n x, steps M n ⟨b, [], s⟩ = .ok (x, false) ∧ x.store = t) ↔ Runs M (.block b) s t := by
  rw [← reaches_iff_runs]
  generalize (⟨b, [], s⟩ : State α β γ S) = x
  constructor
  · rintro ⟨n, y, hrun, rfl⟩
    induction n generalizing x with
    | zero => cases hrun
    | succ n ih =>
      rw [steps] at hrun
      split at hrun
      · cases hrun
      · rename_i hnone
        cases hrun
        obtain ⟨hblock, hframes⟩ := step_eq_none_iff.1 hnone
        rw [← hblock, ← hframes]
        exact .refl
      · rename_i z hstep
        exact .head hstep (ih z hrun)
  · intro h
    induction h using Relation.ReflTransGen.head_induction_on with
    | refl => exact ⟨1, _, rfl, rfl⟩
    | head hstep _ ih =>
      obtain ⟨n, y, hrun, hy⟩ := ih
      refine ⟨n + 1, y, ?_, hy⟩
      rw [steps, hstep]
      exact hrun

end Reaches

end Voltemu.Lib.Structured
