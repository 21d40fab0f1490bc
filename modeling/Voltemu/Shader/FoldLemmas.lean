import Voltemu.Shader.ConstantPropagation
import Voltemu.Shader.BitFields

/-!
# What a fold knows

A visit knows that the valuation fits the instructions before it and the visited one.

* `Knows` — that, and that all names are below the next free one;
* `value_*`, `below_*` — the values of what the patterns look for, and that the patterns give values they may use;
* `Keeps` — the result of a visit keeps the value of the visited instruction.
-/

namespace Voltemu.Shader

open Lib List

def Below (N : ℕ) (v : Value) : Prop := ∀ id, v = .inst id → id < N

/-- **What holds when an instruction is visited.** -/
structure Knows (env : Inputs) (ν : ℕ → Val) (before : Before) (fresh : ℕ) : Prop where
  below : ∀ j ∈ before, j.Below fresh
  fits : env.meaning.Fits ν before

/-- **The visit keeps the value of the visited instruction.** -/
def Keeps (env : Inputs) (ν : ℕ → Val) (fresh : ℕ) (r : Option (List Inst × Inst)) : Prop :=
  ∃ new i' ν', r = some (new, i') ∧ KeepsValue env.meaning fresh ν new i' ν'

variable {env : Inputs} {ν : ℕ → Val} {before : Before} {fresh : ℕ} {inst : Inst}

section Below

lemma below_imm (k : Scalar) : Below fresh (.imm k) := by
  intro id h
  cases h

variable {i : Inst}

lemma below_arg (h : i.Below fresh) (k : ℕ) : Below fresh (arg i k) := by
  intro id hid
  refine h.2 id ?_
  rw [arg, getD_eq_getElem?_getD] at hid
  cases hk : i.args[k]? with
  | none => simp [hk] at hid
  | some v =>
    rw [hk, Option.getD_some] at hid
    exact hid ▸ mem_of_getElem? hk

variable {v : Value}

lemma below_resolve (h : ∀ j ∈ before, j.Below fresh) (hv : Below fresh v) : Below fresh (resolve before v) := by
  induction before generalizing v with
  | nil => cases v <;> exact hv
  | cons i older ih =>
    have holder : ∀ j ∈ older, j.Below fresh := fun j hj => h j (mem_cons_of_mem _ hj)
    cases v with
    | imm k => exact hv
    | inst id =>
      rw [resolve]
      split
      · split
        · rename_i w rest _ hargs
          refine ih holder fun id' hid' => ?_
          exact (h i mem_cons_self).2 id' (by rw [hargs, hid']; exact mem_cons_self)
        · exact hv
      · exact ih holder hv

lemma mem_of_source (h : source before v = some i) : i ∈ before := by
  unfold source at h
  split at h
  · cases h
  · exact mem_of_find?_eq_some h

lemma below_source (h : Knows env ν before fresh) (hi : source before v = some i) : i.Below fresh :=
  h.below i (mem_of_source hi)

end Below

section Values

variable {i : Inst}

lemma value_arg {args : List Val} (h : i.args.map (env.meaning.value ν) = args) {k : ℕ}
    {x : Val} (hk : args[k]? = some x) : env.meaning.value ν (arg i k) = x := by
  rw [← h, getElem?_map] at hk
  rw [arg, getD_eq_getElem?_getD]
  cases hv : i.args[k]? with
  | none => simp [hv] at hk
  | some v =>
    rw [hv, Option.map_some, Option.some.injEq] at hk
    exact hk

lemma args_two {x y : Val} (h : i.args.map (env.meaning.value ν) = [x, y]) :
    i.args = [arg i 0, arg i 1] ∧ env.meaning.value ν (arg i 0) = x ∧ env.meaning.value ν (arg i 1) = y := by
  refine ⟨?_, value_arg h rfl, value_arg h rfl⟩
  have hlength : i.args.length = 2 := by simpa using congrArg List.length h
  obtain ⟨a, b, hab⟩ := length_eq_two.1 hlength
  simp [arg, hab]

lemma holds_of_instOf (h : Knows env ν before fresh) {op : Opcode} {v : Value} (hi : instOf before op v = some i) :
    i.Below fresh ∧ i.code = .op op ∧ env.meaning.value ν v = ν i.id ∧
      env.holds i.id op (i.args.map (env.meaning.value ν)) (ν i.id) := by
  unfold instOf at hi
  obtain ⟨hsource, hcode⟩ := Option.filter_eq_some_iff.1 hi
  obtain ⟨hholds, hvalue⟩ := holds_of_source h.fits hsource
  have hcode : i.code = .op op := by simpa using hcode
  rw [Meaning.Holds, hcode] at hholds
  exact ⟨below_source h hsource, hcode, hvalue, hholds⟩

lemma args_constant (h : env.meaning.Fits ν before) {args : List Value} {ks : List Scalar}
    (hks : args.mapM (constant before) = some ks) :
    args.map (env.meaning.value ν) = ks.map .scalar := by
  induction args generalizing ks with
  | nil =>
    simp only [mapM_nil, Option.pure_def, Option.some.injEq] at hks
    subst hks
    rfl
  | cons v args ih =>
    simp only [mapM_cons, Option.bind_eq_bind, Option.bind_eq_some_iff, Option.pure_def, Option.some.injEq] at hks
    obtain ⟨k, hk, ks', hks', rfl⟩ := hks
    rw [map_cons, map_cons, ih hks', value_of_constant h hk]
    rfl

end Values

section Results

/-- The visited instruction is left alone, or gets other operands. -/
lemma keeps_changed {i' : Inst} (hb : i'.Below fresh) (hholds : env.meaning.Holds ν i') :
    Keeps env ν fresh (some ([], i')) := by
  refine ⟨[], i', ν, rfl, ?_, fun _ _ => rfl, ?_⟩
  · intro j hj
    rw [mem_singleton.1 hj]
    exact hb
  · intro j hj
    rw [mem_singleton.1 hj]
    exact hholds

variable {v : Value}

lemma holds_replaceUsesWith (hvalue : env.meaning.value ν v = ν inst.id) :
    env.meaning.Holds ν (replaceUsesWith inst v) := by
  intro w hw
  cases hw
  exact hvalue.symm

lemma below_replaceUsesWith (hid : inst.id < fresh) (hv : Below fresh v) : (replaceUsesWith inst v).Below fresh :=
  ⟨hid, fun id h => hv id (mem_singleton.1 h).symm⟩

lemma keeps_replaced (hid : inst.id < fresh) (hv : Below fresh v) (hvalue : env.meaning.value ν v = ν inst.id) :
    Keeps env ν fresh (some ([], replaceUsesWith inst v)) :=
  keeps_changed (below_replaceUsesWith hid hv) (holds_replaceUsesWith hvalue)

lemma keeps_constant {k : Scalar} (hid : inst.id < fresh) (hvalue : ν inst.id = .scalar k) :
    Keeps env ν fresh (some ([], replaceUsesWith inst (.imm k))) :=
  keeps_replaced hid (below_imm k) hvalue.symm

end Results

end Voltemu.Shader
