import Mathlib.Data.BitVec
import Voltemu.Lib.StraightLine

/-!
# Microinstructions and their use counts

`ir/microinstruction.cpp`, `ir/value.cpp` and `DeadCodeElimination` of `ir/opt_passes.cpp`.  A pass works
on an intrusive list of instructions; here the instructions before the current one stand in a list with
the latest first.

* An instruction that is replaced becomes an `Identity`; one that is removed becomes a `Void`.
* `IsImmediate` looks through identities.  Uses of immediates are not counted, so the counts of
  instructions that become immediates are not exact afterwards; `CountsFor` is what remains true.
* `deadCodeElimination_sound` — the removal of instructions with a count of zero changes nothing.
-/

namespace Voltemu.Dynarmic

open Voltemu.Lib Machine List

variable {Op K S R : Type*}

/-- The immediate behind a value, through identities.  The instructions stand with the latest first. -/
def resolve : List (Inst Op K) → Value K → Option K
  | _, .imm k => some k
  | [], .inst _ => none
  | i :: before, .inst id =>
      if i.id = id then
        match i.code, i.args with
        | .identity, v :: _ => resolve before v
        | _, _ => none
      else resolve before (.inst id)

/-- `Value::GetInstRecursive`: the instruction behind a value, through identities. -/
def getInstRecursive : List (Inst Op K) → Value K → Option (Inst Op K)
  | _, .imm _ => none
  | [], .inst _ => none
  | i :: before, .inst id =>
      if i.id = id then
        match i.code, i.args with
        | .identity, v :: _ => getInstRecursive before v
        | _, _ => some i
      else getInstRecursive before (.inst id)

def isImmediate (before : List (Inst Op K)) (v : Value K) : Bool := (resolve before v).isSome

/-- `Inst::Use`, for a value that is not an immediate. -/
def use (before : List (Inst Op K)) (uses : ℕ → ℕ) (v : Value K) : ℕ → ℕ :=
  match v with
  | .imm _ => uses
  | .inst id => if isImmediate before v then uses else Function.update uses id (uses id + 1)

/-- `Inst::UndoUse`, for a value that is not an immediate. -/
def undoUse (before : List (Inst Op K)) (uses : ℕ → ℕ) (v : Value K) : ℕ → ℕ :=
  match v with
  | .imm _ => uses
  | .inst id => if isImmediate before v then uses else Function.update uses id (uses id - 1)

/-- `Inst::ClearArgs`, as far as the counts are concerned. -/
def clearArgs (before : List (Inst Op K)) (uses : ℕ → ℕ) (args : List (Value K)) : ℕ → ℕ :=
  args.foldl (undoUse before) uses

/-- `MayHaveSideEffects`, which is false of `Void` and `Identity`. -/
def sideEffects (mayHaveSideEffects : Op → Bool) : Code Op → Bool
  | .op o => mayHaveSideEffects o
  | .void | .identity => false

/-- `DeadCodeElimination`: from the last instruction to the first. -/
def deadCodeElimination (mayHaveSideEffects : Op → Bool) : List (Inst Op K) → (ℕ → ℕ) → List (Inst Op K)
  | [], _ => []
  | i :: before, uses =>
      if uses i.id = 0 ∧ sideEffects mayHaveSideEffects i.code = false then
        ⟨i.id, .void, []⟩ :: deadCodeElimination mayHaveSideEffects before (clearArgs before uses i.args)
      else i :: deadCodeElimination mayHaveSideEffects before uses

/-! ## Single assignment -/

/-- Every name is given once, and an argument refers to an earlier instruction. -/
def Ssa : List (Inst Op K) → Prop
  | [] => True
  | i :: before => Ssa before ∧ (∀ j ∈ before, j.id ≠ i.id) ∧ ∀ id, Refers i id → ∃ j ∈ before, j.id = id

/-- What is left of single assignment once instructions are removed: names are different, and no
instruction refers to itself or to a later one. -/
structure Ordered (L : List (Inst Op K)) : Prop where
  later : L.Pairwise fun i j => i.id ≠ j.id ∧ ¬ Refers j i.id
  self : ∀ i ∈ L, ¬ Refers i i.id

lemma Ssa.ordered {L : List (Inst Op K)} (h : Ssa L) : Ordered L ∧ ∀ i ∈ L, ∀ id, Refers i id → ∃ j ∈ L, j.id = id := by
  induction L with
  | nil => exact ⟨⟨List.Pairwise.nil, by simp⟩, by simp⟩
  | cons i before ih =>
    obtain ⟨hbefore, hne, hrefs⟩ := h
    obtain ⟨hord, hmem⟩ := ih hbefore
    refine ⟨⟨pairwise_cons.2 ⟨fun j hj => ⟨(hne j hj).symm, fun hji => ?_⟩, hord.later⟩,
      forall_mem_cons.2 ⟨fun hii => ?_, hord.self⟩⟩,
      forall_mem_cons.2 ⟨fun id hid => ?_, fun j hj id hid => ?_⟩⟩
    · obtain ⟨k, hk, hki⟩ := hmem j hj _ hji
      exact hne k hk hki
    · obtain ⟨k, hk, hki⟩ := hrefs _ hii
      exact hne k hk hki
    · obtain ⟨k, hk, hki⟩ := hrefs id hid
      exact ⟨k, mem_cons_of_mem _ hk, hki⟩
    · obtain ⟨k, hk, hki⟩ := hmem j hj id hid
      exact ⟨k, mem_cons_of_mem _ hk, hki⟩

variable {before : List (Inst Op K)} {i : Inst Op K} {v : Value K} {id : ℕ}

lemma Ordered.tail (h : Ordered (i :: before)) : Ordered before :=
  ⟨(pairwise_cons.1 h.later).2, fun j hj => h.self j (mem_cons_of_mem _ hj)⟩

lemma Ordered.ne {i j : Inst Op K} (h : Ordered (i :: before)) (hj : j ∈ before) : j.id ≠ i.id :=
  ((pairwise_cons.1 h.later).1 j hj).1.symm

lemma resolve_cons_of_ne (h : v ≠ .inst i.id) : resolve (i :: before) v = resolve before v := by
  cases v with
  | imm k => cases before <;> rfl
  | inst id =>
    rw [resolve, if_neg]
    rintro rfl
    exact h rfl

/-- Later instructions do not change what an earlier name stands for. -/
lemma resolve_append {later before : List (Inst Op K)}
    (h : ∀ i ∈ later, v ≠ .inst i.id) : resolve (later ++ before) v = resolve before v := by
  induction later with
  | nil => rfl
  | cons i later ih =>
    rw [cons_append, resolve_cons_of_ne (h i mem_cons_self), ih fun j hj => h j (mem_cons_of_mem _ hj)]

/-! ## Counts -/

def isRef (id : ℕ) : Value K → Bool
  | .imm _ => false
  | .inst id' => id' == id

def refs (l : List (Inst Op K)) (id : ℕ) : ℕ := (l.map fun i => i.args.countP (isRef id)).sum

@[simp] lemma refs_nil (id : ℕ) : refs ([] : List (Inst Op K)) id = 0 := rfl

@[simp] lemma refs_cons (i : Inst Op K) (l : List (Inst Op K)) (id : ℕ) :
    refs (i :: l) id = i.args.countP (isRef id) + refs l id := by
  simp [refs]

@[simp] lemma refs_append (l l' : List (Inst Op K)) (id : ℕ) : refs (l ++ l') id = refs l id + refs l' id := by
  simp [refs]

lemma isRef_iff : isRef id v = true ↔ v = .inst id := by
  cases v with
  | imm k => simp [isRef]
  | inst id' => simp [isRef]

lemma refers_iff : Refers i id ↔ 0 < i.args.countP (isRef id) := by
  simp only [Refers, countP_pos_iff, isRef_iff, exists_eq_right]

lemma refs_pos_of_refers {l : List (Inst Op K)} (hi : i ∈ l) (h : Refers i id) : 0 < refs l id := by
  induction l with
  | nil => simp at hi
  | cons j l ih =>
    rw [refs_cons]
    rcases mem_cons.1 hi with rfl | hi
    · exact Nat.add_pos_left (refers_iff.1 h) _
    · exact Nat.add_pos_right _ (ih hi)

/-- **What the counts say** about the references in `L` and in `D`: they are enough as long as the
instruction is not an immediate, and not zero in any case. -/
structure CountsFor (L D : List (Inst Op K)) (uses : ℕ → ℕ) : Prop where
  counted : ∀ i ∈ L, isImmediate L (.inst i.id) = false → refs L i.id + refs D i.id ≤ uses i.id
  kept : ∀ i ∈ L, 0 < refs L i.id + refs D i.id → 0 < uses i.id

variable {uses : ℕ → ℕ}

lemma undoUse_apply : undoUse before uses v id =
      if isRef id v ∧ isImmediate before v = false then uses id - 1 else uses id := by
  cases v with
  | imm k => simp [undoUse, isRef]
  | inst id' =>
    by_cases himm : isImmediate before (.inst id') = true
    · simp [undoUse, himm]
    · by_cases hid : id' = id
      · subst hid
        simp [undoUse, isRef, himm]
      · simp [undoUse, isRef, himm, hid, Function.update_of_ne (Ne.symm hid)]

lemma clearArgs_apply {args : List (Value K)} : clearArgs before uses args id =
      if isImmediate before (.inst id) = true then uses id
      else uses id - args.countP (isRef id) := by
  induction args generalizing uses with
  | nil => simp [clearArgs]
  | cons v args ih =>
    have hstep : clearArgs before uses (v :: args) = clearArgs before (undoUse before uses v) args :=
      rfl
    rw [hstep, ih, undoUse_apply]
    by_cases hv : isRef id v = true
    · obtain rfl := isRef_iff.1 hv
      by_cases himm : isImmediate before (.inst id : Value K) = true
      · simp [himm]
      · simp [himm, hv]
        omega
    · simp [hv]

/-! ## Dead code -/

section DeadCode

variable {M : Machine Op K S R} {mayHaveSideEffects : Op → Bool}

lemma execInst_pure (hpure : ∀ o, mayHaveSideEffects o = false → ∀ rs s r s',
      M.step o rs s = some (r, s') → s' = s) (hi : sideEffects mayHaveSideEffects i.code = false) {s s' : S}
    {env env' : ℕ → Option R} (h : M.execInst i (s, env) = some (s', env')) :
    s' = s ∧ ∀ id, id ≠ i.id → env' id = env id := by
  obtain ⟨r, hr, rfl⟩ := execInst_eq_some.1 h
  refine ⟨?_, fun id hid => bindResult_of_ne hid r⟩
  cases hcode : i.code with
  | void =>
    simp only [result, hcode, Option.some.injEq, Prod.mk.injEq] at hr
    exact hr.2.symm
  | identity =>
    simp only [result, hcode, Option.map_eq_some_iff, Prod.mk.injEq] at hr
    obtain ⟨_, -, -, hs⟩ := hr
    exact hs.symm
  | op o =>
    rw [hcode] at hi
    simp only [result, hcode, Option.bind_eq_some_iff] at hr
    obtain ⟨rs, -, hstep⟩ := hr
    exact hpure o hi rs s r s' hstep

/-- An instruction that stays joins those that are done. -/
lemma CountsFor.keep {before D : List (Inst Op K)}
    (h : CountsFor (i :: before) D uses) (hne : ∀ j ∈ before, j.id ≠ i.id) :
    CountsFor before (i :: D) uses := by
  refine ⟨fun j hj himm => ?_, fun j hj hpos => ?_⟩
  · have hresolve : resolve (i :: before) (.inst j.id) = resolve before (.inst j.id) :=
      resolve_cons_of_ne (by simpa using hne j hj)
    have := h.counted j (mem_cons_of_mem _ hj) (by rw [isImmediate, hresolve]; exact himm)
    simp only [refs_cons] at this ⊢
    omega
  · refine h.kept j (mem_cons_of_mem _ hj) ?_
    simp only [refs_cons] at hpos ⊢
    omega

lemma CountsFor.remove {before D : List (Inst Op K)}
    (h : CountsFor (i :: before) D uses) (hne : ∀ j ∈ before, j.id ≠ i.id) :
    CountsFor before D (clearArgs before uses i.args) := by
  refine ⟨fun j hj himm => ?_, fun j hj hpos => ?_⟩
  · have hresolve : resolve (i :: before) (.inst j.id) = resolve before (.inst j.id) :=
      resolve_cons_of_ne (by simpa using hne j hj)
    have := h.counted j (mem_cons_of_mem _ hj) (by rw [isImmediate, hresolve]; exact himm)
    rw [clearArgs_apply, if_neg (by simp [himm])]
    simp only [refs_cons] at this
    omega
  · rw [clearArgs_apply]
    have hresolve : resolve (i :: before) (.inst j.id) = resolve before (.inst j.id) :=
      resolve_cons_of_ne (by simpa using hne j hj)
    split_ifs with himm
    · refine h.kept j (mem_cons_of_mem _ hj) ?_
      rw [refs_cons]
      omega
    · have := h.counted j (mem_cons_of_mem _ hj) (by rw [isImmediate, hresolve]; exact Bool.eq_false_iff.2 himm)
      rw [refs_cons] at this
      omega

section

variable
  (hpure : ∀ o, mayHaveSideEffects o = false → ∀ rs s r s', M.step o rs s = some (r, s') → s' = s)
include hpure

variable {st : S × (ℕ → Option R)} {s' : S} {env' : ℕ → Option R}

/-- **`DeadCodeElimination`**, with the instructions `D` that are already done: the state is the same,
and so are the results to which `D` refers. -/
lemma exec_deadCodeElimination
    {L D : List (Inst Op K)} (hord : Ordered L) (hcounts : CountsFor L D uses)
    (h : M.exec L.reverse st = some (s', env')) :
    ∃ env'', M.exec (deadCodeElimination mayHaveSideEffects L uses).reverse st = some (s', env'') ∧
      ∀ id, 0 < refs D id → env'' id = env' id := by
  induction L generalizing D uses s' env' with
  | nil => exact ⟨env', h, fun _ _ => rfl⟩
  | cons i before ih =>
    have hbefore := hord.tail
    have hne : ∀ j ∈ before, j.id ≠ i.id := fun j hj => hord.ne hj
    rw [reverse_cons, exec_concat_eq_some] at h
    obtain ⟨⟨s1, env1⟩, hexec, hi⟩ := h
    rw [deadCodeElimination]
    split_ifs with hdead
    · -- nothing refers to the instruction
      obtain ⟨hzero, hside⟩ := hdead
      have hnoref : refs D i.id = 0 := by
        by_contra hpos
        have := hcounts.kept i mem_cons_self (by omega)
        omega
      obtain ⟨rfl, henv⟩ := execInst_pure hpure hside hi
      obtain ⟨env'', hexec', hagree⟩ := ih hbefore (hcounts.remove hne) hexec
      refine ⟨env'', ?_, fun id hid => ?_⟩
      · rw [reverse_cons, exec_concat_eq_some]
        exact ⟨_, hexec', rfl⟩
      · rw [hagree id hid, henv id]
        rintro rfl
        omega
    · obtain ⟨env1', hexec', hagree⟩ := ih hbefore (hcounts.keep hne) hexec
      have hagree' : ∀ id, 0 < refs (i :: D) id → env1' id = env1 id := hagree
      obtain ⟨env'', hi', hagree''⟩ := execInst_congr (A := fun id => 0 < refs (i :: D) id)
        (fun id hid => refs_pos_of_refers mem_cons_self hid) hagree' hi
      refine ⟨env'', ?_, fun id hid => hagree'' id ?_⟩
      · rw [reverse_cons, exec_concat_eq_some]
        exact ⟨_, hexec', hi'⟩
      · rw [refs_cons]
        omega

/-- `DeadCodeElimination` of a whole block. -/
theorem deadCodeElimination_sound
    {L : List (Inst Op K)} (hord : Ordered L) (hcounts : CountsFor L [] uses)
    (h : M.exec L.reverse st = some (s', env')) :
    ∃ env'', M.exec (deadCodeElimination mayHaveSideEffects L uses).reverse st = some (s', env'') := by
  obtain ⟨env'', hexec, -⟩ := exec_deadCodeElimination hpure hord hcounts h
  exact ⟨env'', hexec⟩

end

end DeadCode

end Voltemu.Dynarmic
