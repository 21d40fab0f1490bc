import Voltemu.Lib.Valuation

/-!
# Passes that put instructions in

A pass that replaces an instruction by others names the ones that it puts in.  An `Emitter` is code that does so: what
it returns, and the instructions that it has put in by then.

* `Ensures` — what is known of the result from the values of what was put in, whatever the names are;
* `Scoped` — the new names are the next free ones, and no instruction refers to a later one;
* `keeps_of_emitter` — a visit that replaces an instruction by what an emitter returns keeps its value;
* `walk_establishes` — the pass, when something else is known of the instructions than that the valuation fits them.
-/

namespace Voltemu.Lib

open List

universe u

/-- Code that puts instructions in, given the next free name. -/
def Emitter (Op K α : Type u) := ℕ → α × List (Inst Op K)

instance {Op K : Type u} : Monad (Emitter Op K) where
  pure a := fun _ => (a, [])
  bind m k := fun fresh =>
    ((k (m fresh).1 (fresh + (m fresh).2.length)).1, (m fresh).2 ++ (k (m fresh).1 (fresh + (m fresh).2.length)).2)

def emit {Op K : Type u} (op : Op) (args : List (Value K)) : Emitter Op K (Value K) := fun fresh =>
  (.inst fresh, [⟨fresh, .op op, args⟩])

section Emitter

variable {Op K α β : Type u} {R : Type*} {M : Meaning Op K R} {ν : ℕ → R}

/-- The result, when the valuation fits what was put in. -/
def Ensures (M : Meaning Op K R) (ν : ℕ → R) (m : Emitter Op K α) (P : α → Prop) : Prop :=
  ∀ fresh, M.Fits ν (m fresh).2 → P (m fresh).1

variable {l l' : List (Inst Op K)}

lemma Meaning.fits_append : M.Fits ν (l ++ l') ↔ M.Fits ν l ∧ M.Fits ν l' := by
  simp only [Meaning.Fits, mem_append]
  exact ⟨fun h => ⟨fun i hi => h i (.inl hi), fun i hi => h i (.inr hi)⟩,
    fun h i hi => hi.elim (h.1 i) (h.2 i)⟩

variable {a : α} {P : α → Prop}

lemma Ensures.pure (h : P a) : Ensures M ν (Pure.pure a : Emitter Op K α) P := fun _ _ => h

variable {fresh : ℕ} {m : Emitter Op K α}

variable {k : α → Emitter Op K β}

lemma Ensures.bind {Q : β → Prop}
    (hm : Ensures M ν m P) (hk : ∀ a, P a → Ensures M ν (k a) Q) : Ensures M ν (m >>= k) Q := by
  intro fresh hfits
  obtain ⟨hfirst, hsecond⟩ := Meaning.fits_append.1 hfits
  exact hk _ (hm fresh hfirst) _ hsecond

lemma Ensures.mono {Q : α → Prop} (hm : Ensures M ν m P)
    (h : ∀ a, P a → Q a) : Ensures M ν m Q := fun fresh hfits => h _ (hm fresh hfits)

lemma Ensures.emit (op : Op) (args : List (Value K)) :
    Ensures M ν (emit op args) fun v => ∃ id, M.holds id op (args.map (M.value ν)) (M.value ν v) :=
  fun fresh hfits => ⟨fresh, hfits _ mem_cons_self⟩

def Value.Below (N : ℕ) (v : Value K) : Prop := ∀ id, v = .inst id → id < N

@[simp] lemma Value.below_imm {N : ℕ} (k : K) : Value.Below N (.imm k) := by
  intro id h
  cases h

@[simp] lemma Value.below_inst {N id : ℕ} : (Value.inst id : Value K).Below N ↔ id < N :=
  ⟨fun h => h id rfl, fun h id' h' => by cases h'; exact h⟩

lemma Value.Below.mono {N N' : ℕ} {v : Value K} (h : v.Below N) (hle : N ≤ N') : v.Below N' :=
  fun id hid => Nat.lt_of_lt_of_le (h id hid) hle

/-- An operation that has a value whatever its arguments are. -/
def Meaning.Total (M : Meaning Op K R) (op : Op) : Prop := ∀ id rs, ∃ r, M.holds id op rs r

/-- Instructions with the names from one on, whose arguments come before them and that have values. -/
def InOrder (M : Meaning Op K R) : ℕ → List (Inst Op K) → Prop
  | _, [] => True
  | fresh, i :: l =>
      i.id = fresh ∧ (∀ v ∈ i.args, v.Below fresh) ∧ (∃ op, i.code = .op op ∧ M.Total op) ∧ InOrder M (fresh + 1) l

lemma inOrder_append : InOrder M fresh (l ++ l') ↔ InOrder M fresh l ∧ InOrder M (fresh + l.length) l' := by
  induction l generalizing fresh with
  | nil => simp [InOrder]
  | cons i l ih =>
    simp only [cons_append, InOrder, ih, length_cons, and_assoc]
    rw [show fresh + 1 + l.length = fresh + (l.length + 1) by omega]

/-- What is put in is in order, and of the result and the next free name something is known. -/
def Scoped (M : Meaning Op K R) (fresh : ℕ) (m : Emitter Op K α) (P : α → ℕ → Prop) : Prop :=
  InOrder M fresh (m fresh).2 ∧ P (m fresh).1 (fresh + (m fresh).2.length)

@[simp] lemma scoped_pure {fresh : ℕ} {P : α → ℕ → Prop} : Scoped M fresh (pure a) P ↔ P a fresh := by
  change True ∧ P a (fresh + 0) ↔ _
  rw [true_and, Nat.add_zero]

lemma scoped_bind {Q : β → ℕ → Prop} :
    Scoped M fresh (m >>= k) Q ↔ Scoped M fresh m fun a next => Scoped M next (k a) Q := by
  have hbind : (m >>= k) fresh = ((k (m fresh).1 (fresh + (m fresh).2.length)).1,
      (m fresh).2 ++ (k (m fresh).1 (fresh + (m fresh).2.length)).2) := rfl
  rw [Scoped, Scoped, Scoped, hbind, inOrder_append, length_append, ← Nat.add_assoc, and_assoc]

lemma scoped_emit {op : Op} {args : List (Value K)} {P : Value K → ℕ → Prop} (hop : M.Total op) :
    Scoped M fresh (emit op args) P ↔ (∀ v ∈ args, v.Below fresh) ∧ P (.inst fresh) (fresh + 1) := by
  constructor
  · rintro ⟨⟨-, hargs, -, -⟩, hp⟩
    exact ⟨hargs, hp⟩
  · rintro ⟨hargs, hp⟩
    exact ⟨⟨rfl, hargs, ⟨op, rfl, hop⟩, trivial⟩, hp⟩

/-- **Instructions in order can be given values.** -/
lemma InOrder.exists_fits (h : InOrder M fresh l) (ν : ℕ → R) :
    ∃ ν', (∀ id < fresh, ν' id = ν id) ∧ M.Fits ν' l ∧ ∀ i ∈ l, i.Below (fresh + l.length) := by
  induction l generalizing fresh ν with
  | nil => exact ⟨ν, fun _ _ => rfl, fun i hi => by simp at hi, fun i hi => by simp at hi⟩
  | cons i l ih =>
    obtain ⟨hid, hargs, ⟨op, hcode, hop⟩, hl⟩ := h
    obtain ⟨r, hr⟩ := hop i.id (i.args.map (M.value ν))
    obtain ⟨ν', hagree, hfits, hbelow⟩ := ih hl (Function.update ν fresh r)
    have hold : ∀ id < fresh, ν' id = ν id := fun id hlt => by
      rw [hagree id (Nat.lt_succ_of_lt hlt), Function.update_of_ne (Nat.ne_of_lt hlt)]
    have hvalue : ∀ v ∈ i.args, M.value ν' v = M.value ν v := by
      intro v hv
      cases v with
      | imm k => rfl
      | inst id => exact hold id (hargs _ hv id rfl)
    have hnew : ν' i.id = r := by
      rw [hid, hagree fresh (Nat.lt_succ_self _), Function.update_self]
    refine ⟨ν', hold, ?_, ?_⟩
    · intro j hj
      rcases mem_cons.1 hj with rfl | hj
      · rw [Meaning.Holds, hcode]
        change M.holds j.id op (j.args.map (M.value ν')) (ν' j.id)
        rw [hnew, map_congr_left hvalue]
        exact hr
      · exact hfits j hj
    · have hle : fresh + 1 + l.length = fresh + (i :: l).length := by
        rw [length_cons]
        omega
      intro j hj
      rcases mem_cons.1 hj with rfl | hj
      · refine ⟨by rw [hid, ← hle]; omega, fun id hmem => ?_⟩
        have hlt := hargs _ hmem id rfl
        omega
      · exact hle ▸ hbelow j hj

/-- **A visit that makes an instruction a copy of what an emitter returns keeps its value.** -/
theorem keeps_of_emitter {i : Inst Op K} {m : Emitter Op K (Value K)}
    (hi : i.id < fresh) (hscoped : Scoped M fresh m fun v next => v.Below next)
    (hvalue : ∀ ν', (∀ id < fresh, ν' id = ν id) → Ensures M ν' m fun v => M.value ν' v = ν i.id) :
    ∃ ν', KeepsValue M fresh ν (m fresh).2 ⟨i.id, .identity, [(m fresh).1]⟩ ν' := by
  obtain ⟨hordered, hresult⟩ := hscoped
  obtain ⟨ν', hagree, hfits, hbelow⟩ := hordered.exists_fits ν
  refine ⟨ν', ?_, hagree, ?_⟩
  · intro j hj
    rcases mem_cons.1 hj with rfl | hj
    · refine ⟨Nat.lt_of_lt_of_le hi (Nat.le_add_right _ _), fun id hid => ?_⟩
      exact hresult id (mem_singleton.1 hid).symm
    · exact hbelow j hj
  · intro j hj
    rcases mem_cons.1 hj with rfl | hj
    · intro v hv
      cases hv
      change ν' i.id = _
      rw [hagree i.id hi]
      exact (hvalue ν' hagree fresh hfits).symm
    · exact hfits j hj

end Emitter

section Walk

variable {Op K R : Type*} {M : Meaning Op K R} {visit : Visit Op K}

/-- **A pass makes the valuation fit** when each visit makes it fit what the visited instruction becomes.  What is
known of the instructions that are left does not depend on new names. -/
theorem walk_establishes (Q : (ℕ → R) → Inst Op K → Prop)
    (hcongr : ∀ {N i ν ν'}, Q ν i → i.Below N → (∀ id < N, ν' id = ν id) → Q ν' i)
    (hvisit : ∀ before fresh i ν, (∀ j ∈ i :: before, j.Below fresh) → M.Fits ν before → Q ν i →
      ∃ new i' ν', visit before fresh i = some (new, i') ∧ KeepsValue M fresh ν new i' ν')
    {rest before : List (Inst Op K)} {fresh : ℕ} {ν : ℕ → R}
    (hb : ∀ j ∈ rest ++ before, j.Below fresh) (hfits : M.Fits ν before)
    (hrest : ∀ i ∈ rest, Q ν i) :
    ∃ l ν', walk visit rest before fresh = some l ∧ (∀ id < fresh, ν' id = ν id) ∧
      M.Fits ν' l := by
  induction rest generalizing before fresh ν with
  | nil => exact ⟨before.reverse, ν, rfl, fun _ _ => rfl, fun i hi => hfits i (by simpa using hi)⟩
  | cons i rest ih =>
    obtain ⟨new, i', ν1, heq, hkeep⟩ := hvisit before fresh i ν
      (fun j hj => hb j (by simp only [mem_append, mem_cons] at hj ⊢; tauto)) hfits
      (hrest i mem_cons_self)
    have hle : fresh ≤ fresh + new.length := Nat.le_add_right _ _
    have hmem : ∀ j ∈ i' :: (new.reverse ++ before), j ∈ before ∨ j ∈ i' :: new := by
      intro j hj
      simp only [mem_append, mem_cons, mem_reverse] at hj ⊢
      tauto
    have hbefore : ∀ j ∈ before, j.Below fresh := fun j hj =>
      hb j (mem_append_right _ hj)
    have hleft : ∀ j ∈ rest, j.Below fresh := fun j hj =>
      hb j (mem_append_left _ (mem_cons_of_mem _ hj))
    obtain ⟨l, ν', hwalk, hagree, hfits'⟩ : ∃ l ν',
        walk visit rest (i' :: (new.reverse ++ before)) (fresh + new.length) = some l ∧
          (∀ id < fresh + new.length, ν' id = ν1 id) ∧ M.Fits ν' l := ih
      (fun j hj => (mem_append.1 hj).elim (fun hj => (hleft j hj).mono hle) fun hj =>
        (hmem j hj).elim (fun hj => (hbefore j hj).mono hle) (hkeep.below j))
      (fun j hj => (hmem j hj).elim
        (fun hj => (hfits j hj).congr (hbefore j hj) hkeep.agree) (hkeep.fits j))
      (fun j hj => hcongr (hrest j (mem_cons_of_mem _ hj)) (hleft j hj) hkeep.agree)
    refine ⟨l, ν', ?_, fun id hid => ?_, hfits'⟩
    · rw [walk, heq]
      exact hwalk
    · rw [hagree id (Nat.lt_of_lt_of_le hid hle), hkeep.agree id hid]

end Walk

end Voltemu.Lib
