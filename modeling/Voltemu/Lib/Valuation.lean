import Voltemu.Lib.StraightLine

/-!
# Valuations of a program in single assignment form

A valuation gives every instruction one value.  It fits a program when each instruction's value is one that its
operation may have on the values of its arguments.  Instructions may refer to later ones, as the operands of a phi
do: nothing is executed here.

* `resolve` follows copies back to the value that is copied, among the instructions before;
* `walk` — a pass that visits the instructions in order and may change the one it visits and put others before it;
* `walk_sound` — when each visit keeps the value of what it visits, the whole pass keeps every value.
-/

namespace Voltemu.Lib

open List

/-- What constants stand for, and which values an operation may have.  The name of the instruction is given too, so
that an operation may have an input of its own. -/
structure Meaning (Op K R : Type*) where
  ofImm : K → R
  holds : ℕ → Op → List R → R → Prop

namespace Meaning

variable {Op K R : Type*} (M : Meaning Op K R)

def value (ν : ℕ → R) : Value K → R
  | .imm k => M.ofImm k
  | .inst id => ν id

def Holds (ν : ℕ → R) (i : Inst Op K) : Prop :=
  match i.code with
  | .void => True
  | .identity => ∀ v ∈ i.args.head?, ν i.id = M.value ν v
  | .op o => M.holds i.id o (i.args.map (M.value ν)) (ν i.id)

def Fits (ν : ℕ → R) (l : List (Inst Op K)) : Prop := ∀ i ∈ l, M.Holds ν i

end Meaning

section Resolve

variable {Op K R : Type*}

/-- Copies are followed back.  The instructions are given latest first. -/
def resolve : List (Inst Op K) → Value K → Value K
  | _, .imm k => .imm k
  | [], .inst id => .inst id
  | i :: l, .inst id =>
      if i.id = id then
        match i.code, i.args with
        | .identity, v :: _ => resolve l v
        | _, _ => .inst id
      else resolve l (.inst id)

def constant (l : List (Inst Op K)) (v : Value K) : Option K :=
  match resolve l v with
  | .imm k => some k
  | .inst _ => none

def source (l : List (Inst Op K)) (v : Value K) : Option (Inst Op K) :=
  match resolve l v with
  | .imm _ => none
  | .inst id => l.find? (·.id = id)

variable {M : Meaning Op K R} {ν : ℕ → R} {l : List (Inst Op K)} {v : Value K}

lemma value_resolve (h : M.Fits ν l) (v : Value K) : M.value ν (resolve l v) = M.value ν v := by
  induction l generalizing v with
  | nil => cases v <;> rfl
  | cons i l ih =>
    have hl : M.Fits ν l := fun j hj => h j (mem_cons_of_mem _ hj)
    cases v with
    | imm k => rfl
    | inst id =>
      rw [resolve]
      split
      · rename_i hid
        split
        · rename_i w rest hcode hargs
          have hi := h i mem_cons_self
          simp only [Meaning.Holds, hcode, hargs, head?_cons] at hi
          rw [ih hl]
          exact (hid ▸ (hi w rfl).symm :)
        · rfl
      · exact ih hl _

lemma value_of_constant (h : M.Fits ν l) {k : K} (hk : constant l v = some k) : M.value ν v = M.ofImm k := by
  rw [← value_resolve h v]
  unfold constant at hk
  split at hk
  · rename_i heq
    cases hk
    rw [heq]
    rfl
  · cases hk

lemma holds_of_source (h : M.Fits ν l) {i : Inst Op K} (hi : source l v = some i) :
    M.Holds ν i ∧ M.value ν v = ν i.id := by
  rw [← value_resolve h v]
  unfold source at hi
  split at hi
  · cases hi
  · rename_i id heq
    have hid : i.id = id := by simpa using find?_some hi
    rw [heq, hid]
    exact ⟨h i (mem_of_find?_eq_some hi), rfl⟩

end Resolve

section Walk

variable {Op K R : Type*}

/-- The names in an instruction are below a bound. -/
def Inst.Below (N : ℕ) (i : Inst Op K) : Prop :=
  i.id < N ∧ ∀ id, Value.inst id ∈ i.args → id < N

variable {i : Inst Op K}

variable {N fresh : ℕ}

lemma Inst.Below.mono {N' : ℕ} (h : i.Below N) (hle : N ≤ N') : i.Below N' :=
  ⟨Nat.lt_of_lt_of_le h.1 hle, fun id hid => Nat.lt_of_lt_of_le (h.2 id hid) hle⟩

lemma Meaning.Holds.congr {M : Meaning Op K R} {ν ν' : ℕ → R}
    (h : M.Holds ν i) (hb : i.Below N) (hν : ∀ id < N, ν' id = ν id) : M.Holds ν' i := by
  have hvalue : ∀ v ∈ i.args, M.value ν' v = M.value ν v := by
    intro v hv
    cases v with
    | imm k => rfl
    | inst id => exact hν id (hb.2 id hv)
  unfold Meaning.Holds at h ⊢
  cases hcode : i.code with
  | void => trivial
  | identity =>
    rw [hcode] at h
    intro v hv
    rw [hν i.id hb.1, hvalue v (mem_of_mem_head? hv)]
    exact h v hv
  | op o =>
    rw [hcode] at h
    dsimp only at h ⊢
    rw [hν i.id hb.1, map_congr_left hvalue]
    exact h

/-- A pass visits an instruction, given those before it and the next free name.  It fails, or gives new instructions
and what the visited one becomes. -/
abbrev Visit (Op K : Type*) :=
  List (Inst Op K) → ℕ → Inst Op K → Option (List (Inst Op K) × Inst Op K)

/-- The pass over the instructions that are left.  Those before are given latest first. -/
def walk (visit : Visit Op K) : List (Inst Op K) → List (Inst Op K) → ℕ → Option (List (Inst Op K))
  | [], before, _ => some before.reverse
  | i :: rest, before, fresh =>
      match visit before fresh i with
      | none => none
      | some (new, i') => walk visit rest (i' :: (new.reverse ++ before)) (fresh + new.length)

/-- A condition on every visit of a pass. -/
def walkAll (visit : Visit Op K) (ok : List (Inst Op K) → Inst Op K → Bool) :
    List (Inst Op K) → List (Inst Op K) → ℕ → Bool
  | [], _, _ => true
  | i :: rest, before, fresh =>
      ok before i && match visit before fresh i with
        | none => true
        | some (new, i') =>
            walkAll visit ok rest (i' :: (new.reverse ++ before)) (fresh + new.length)

/-- **A visit keeps the value of the instruction it visits**: it succeeds, what it puts in has new names, and the
valuation extends to them. -/
structure KeepsValue (M : Meaning Op K R) (fresh : ℕ) (ν : ℕ → R) (new : List (Inst Op K))
    (i' : Inst Op K) (ν' : ℕ → R) : Prop where
  below : ∀ j ∈ i' :: new, j.Below (fresh + new.length)
  agree : ∀ id < fresh, ν' id = ν id
  fits : M.Fits ν' (i' :: new)

variable {M : Meaning Op K R} {visit : Visit Op K} {ok : List (Inst Op K) → Inst Op K → Bool}

/-- **A pass whose visits keep the values keeps all values.** -/
theorem walk_sound
    (hvisit : ∀ before fresh i ν, (∀ j ∈ i :: before, j.Below fresh) → M.Fits ν before →
      M.Holds ν i → ok before i = true →
      ∃ new i' ν', visit before fresh i = some (new, i') ∧ KeepsValue M fresh ν new i' ν')
    {rest before : List (Inst Op K)} {ν : ℕ → R}
    (hb : ∀ j ∈ rest ++ before, j.Below fresh) (hfits : M.Fits ν (rest ++ before))
    (hok : walkAll visit ok rest before fresh = true) :
    ∃ l ν', walk visit rest before fresh = some l ∧ (∀ id < fresh, ν' id = ν id) ∧
      M.Fits ν' l := by
  induction rest generalizing before fresh ν with
  | nil =>
    refine ⟨before.reverse, ν, rfl, fun _ _ => rfl, fun i hi => ?_⟩
    exact hfits i (by simpa using hi)
  | cons i rest ih =>
    rw [walkAll, Bool.and_eq_true] at hok
    have hcurrent : ∀ j ∈ i :: before, j ∈ i :: rest ++ before := by
      intro j hj
      simp only [mem_append, mem_cons] at hj ⊢
      tauto
    obtain ⟨new, i', ν1, heq, hkeep⟩ := hvisit before fresh i ν
      (fun j hj => hb j (hcurrent j hj)) (fun j hj => hfits j (mem_append_right _ hj))
      (hfits i mem_cons_self) hok.1
    have hle : fresh ≤ fresh + new.length := Nat.le_add_right _ _
    -- everything else does not know the new names
    have hold : ∀ j ∈ rest ++ before, M.Holds ν1 j := fun j hj =>
      (hfits j (mem_cons_of_mem _ hj)).congr (hb j (mem_cons_of_mem _ hj)) hkeep.agree
    have hmem : ∀ j ∈ rest ++ i' :: (new.reverse ++ before), j ∈ rest ++ before ∨ j ∈ i' :: new := by
      intro j hj
      simp only [mem_append, mem_cons, mem_reverse] at hj ⊢
      tauto
    rw [heq] at hok
    obtain ⟨l, ν', hwalk, hagree, hfits'⟩ := ih
      (fun j hj => (hmem j hj).elim
        (fun hj => (hb j (mem_cons_of_mem _ hj)).mono hle) (hkeep.below j))
      (fun j hj => (hmem j hj).elim (hold j) (hkeep.fits j)) hok.2
    refine ⟨l, ν', ?_, fun id hid => ?_, hfits'⟩
    · rw [walk, heq]
      exact hwalk
    · rw [hagree id (Nat.lt_of_lt_of_le hid hle), hkeep.agree id hid]

/-- An instruction that its visit leaves alone is in the result. -/
theorem walk_fixed {fixed : Inst Op K → Prop} (hvisit : ∀ before fresh i new i', ok before i = true → fixed i →
      visit before fresh i = some (new, i') → i' = i)
    {rest before l : List (Inst Op K)}
    (hok : walkAll visit ok rest before fresh = true) (hwalk : walk visit rest before fresh = some l) (hi : i ∈ rest ∧ fixed i ∨ i ∈ before) : i ∈ l := by
  induction rest generalizing before fresh with
  | nil =>
    cases hwalk
    exact mem_reverse.2 (hi.resolve_left fun h => by simp at h)
  | cons j rest ih =>
    rw [walkAll, Bool.and_eq_true] at hok
    rw [walk] at hwalk
    cases heq : visit before fresh j with
    | none => simp [heq] at hwalk
    | some r =>
      obtain ⟨new, j'⟩ := r
      rw [heq] at hok hwalk
      refine ih hok.2 hwalk ?_
      rcases hi with ⟨hi, hfixed⟩ | hi
      · rcases mem_cons.1 hi with rfl | hi
        · rw [hvisit before fresh i new j' hok.1 hfixed heq]
          exact .inr mem_cons_self
        · exact .inl ⟨hi, hfixed⟩
      · exact .inr (mem_cons_of_mem _ (mem_append_right _ hi))

end Walk

end Voltemu.Lib
