import Voltemu.VideoCore.MacroJit

/-!
# The path through a macro

The instructions that the interpreter executes and those that the emitted code executes, for every sequence of branch
outcomes.

* `outcomes` says of the `k`-th branch executed whether its register is zero.  Both sides forget everything else.
* Between two calls of `Step` the machine stands at the label of the interpreter's instruction, with an empty
  `BRANCH_HOLDER`.  In a delay slot `BRANCH_HOLDER` is set: it holds the address of the jump that is still to come,
  or marks that the program ends.
* In a program with delayed branches, an instruction with the exit bit does not look at a `BRANCH_HOLDER` that is set
  already: the code falls through to the next instruction.
-/

namespace Voltemu.VideoCore

open List

section Labels

variable {opt : Optimizer} {code : List Opcode}

def Label.owner : Label → Option ℕ
  | .instr i | .delaySkip i | .branchEnd i | .handlePostExit i | .skip i | .noDelaySlot i => some i
  | .endOfCode => none

/-- The emitted code from instruction `i` on. -/
def codeFrom (code : List Opcode) (i : ℕ) : List Asm :=
  compileFrom (scanFlags code) i (code.drop i) ++ epilogue

/-- A label of instruction `i`, or no label. -/
def Asm.owned (i : ℕ) : Asm → Bool
  | .label l => l.owner == some i
  | _ => true

lemma owned_branch (i : ℕ) (op : Opcode) : (compileBranch opt i op).all (Asm.owned i) = true := by
  unfold compileBranch
  cases op.branchCondition <;> split_ifs <;> simp [Asm.owned, Label.owner]

lemma owned_tail (i : ℕ) (op : Opcode) : (compileTail opt i op).all (Asm.owned i) = true := by
  unfold compileTail
  split_ifs <;> simp [Asm.owned, Label.owner]

variable {l : Label}

lemma owner_of_mem {i : ℕ} {op : Opcode} {next : Option Opcode}
    (h : Asm.label l ∈ compileNextInstruction opt i op next) : l.owner = some i := by
  have hall : (compileNextInstruction opt i op next).all (Asm.owned i) = true := by
    unfold compileNextInstruction
    split
    · simp [owned_branch, owned_tail, Asm.owned, Label.owner]
    · simp [owned_tail, Asm.owned, Label.owner]
  have hl := all_eq_true.1 hall _ h
  simpa [Asm.owned] using hl

/-- A jump skips code that does not contain the label. -/
lemma goto_append {xs ys : List Asm} (h : Asm.label l ∉ xs) : goto (xs ++ ys) l = goto ys l := by
  induction xs with
  | nil => rfl
  | cons x xs ih =>
    have hx : x ≠ .label l := fun hx => h (hx ▸ mem_cons_self)
    rw [cons_append, goto, dropWhile_cons_of_pos (by simpa using hx)]
    exact ih fun hm => h (mem_cons_of_mem _ hm)

lemma goto_compileFrom (tail : List Asm) : ∀ (j k : ℕ) (ops : List Opcode), l.owner = some (k + j) →
      goto (compileFrom opt k ops ++ tail) l = goto (compileFrom opt (k + j) (ops.drop j) ++ tail) l
  | 0, _, _, _ => rfl
  | j + 1, k, [], _ => by simp [compileFrom]
  | j + 1, k, op :: rest, h => by
    have hne : Asm.label l ∉ compileNextInstruction opt k op rest.head? := by
      intro hm
      have hk := owner_of_mem hm
      rw [h, Option.some.injEq] at hk
      omega
    have ih := goto_compileFrom tail j (k + 1) rest (by rw [h]; congr 1; omega)
    rw [compileFrom, List.append_assoc, goto_append hne, ih, drop_succ_cons]
    congr 3
    omega

lemma goto_prologue {tail : List Asm} : goto (prologue ++ tail) l = goto tail l :=
  goto_append (by simp [prologue])

lemma goto_compile {i : ℕ} (h : l.owner = some i) : goto (compile code) l = goto (codeFrom code i) l := by
  rw [compile, goto_prologue, goto_compileFrom _ i 0 code (by rw [Nat.zero_add]; exact h), Nat.zero_add]
  rfl

lemma codeFrom_eq {i : ℕ} {op : Opcode} (h : code[i]? = some op) :
    codeFrom code i = compileNextInstruction (scanFlags code) i op code[i + 1]? ++ codeFrom code (i + 1) := by
  obtain ⟨hi, rfl⟩ := List.getElem?_eq_some_iff.1 h
  rw [codeFrom, List.drop_eq_getElem_cons hi, compileFrom, List.append_assoc, List.head?_drop]
  rfl

lemma goto_instr {i : ℕ} (h : i < code.length) : goto (compile code) (.instr i) = codeFrom code i := by
  rw [goto_compile rfl, codeFrom_eq (getElem?_eq_getElem h), compileNextInstruction,
    cons_append, goto, dropWhile_cons_of_neg (by simp)]

lemma goto_endOfCode : goto (compile code) .endOfCode = epilogue := by
  have hfrom : ∀ (ops : List Opcode) (k : ℕ),
      goto (compileFrom (scanFlags code) k ops ++ epilogue) .endOfCode = epilogue := by
    intro ops
    induction ops with
    | nil => exact fun _ => rfl
    | cons op rest ih =>
      intro k
      rw [compileFrom, List.append_assoc, goto_append, ih]
      intro hm
      have howner := owner_of_mem hm
      cases howner
  rw [compile, goto_prologue, hfrom]

variable {i : ℕ} {op : Opcode}

/-- The end of an instruction's code, behind the body. -/
def tailFrom (code : List Opcode) (i : ℕ) (op : Opcode) : List Asm :=
  compileTail (scanFlags code) i op ++ codeFrom code (i + 1)

section

variable (h : code[i]? = some op)
include h

lemma codeFrom_plain (hb : op.operation ≠ .Branch) : codeFrom code i = .label (.instr i) ::
      .block (compileData (scanFlags code) op code[i + 1]?) :: tailFrom code i op := by
  rw [codeFrom_eq h, compileNextInstruction, if_neg hb]
  rfl

lemma codeFrom_branch (hb : op.operation = .Branch) : codeFrom code i = .label (.instr i) ::
      (compileBranch (scanFlags code) i op ++ tailFrom code i op) := by
  rw [codeFrom_eq h, compileNextInstruction, if_pos hb, cons_append, List.append_assoc]
  rfl

lemma goto_tail (hl : l = .noDelaySlot i ∨ l = .delaySkip i) : goto (compile code) l = goto (tailFrom code i op) l := by
  have howner : l.owner = some i := by rcases hl with rfl | rfl <;> rfl
  rw [goto_compile howner]
  by_cases hb : op.operation = .Branch
  · rw [codeFrom_branch h hb, ← cons_append, goto_append]
    unfold compileBranch
    cases op.branchCondition <;> split_ifs <;> rcases hl with rfl | rfl <;> simp
  · rw [codeFrom_plain h hb]
    rcases hl with rfl | rfl <;> simp [goto]

lemma goto_noDelaySlot (hd : (scanFlags code).hasDelayedPc = true) (he : op.isExit = false) :
    goto (compile code) (.noDelaySlot i) = .label (.noDelaySlot i) :: .label (.delaySkip i) :: codeFrom code (i + 1) := by
  rw [goto_tail h (.inl rfl), tailFrom, compileTail, if_pos hd, he]
  simp [goto]

lemma goto_delaySkip (hd : (scanFlags code).hasDelayedPc = true) :
    goto (compile code) (.delaySkip i) = .label (.delaySkip i) :: codeFrom code (i + 1) := by
  rw [goto_tail h (.inr rfl), tailFrom, compileTail, if_pos hd]
  split_ifs <;> simp [goto]

lemma goto_branchEnd (hb : op.operation = .Branch) :
    goto (compile code) (.branchEnd i) = .label (.branchEnd i) :: tailFrom code i op := by
  rw [goto_compile rfl, codeFrom_branch h hb]
  unfold compileBranch
  cases op.branchCondition <;> split_ifs <;> simp [goto]

lemma goto_skip (hb : op.operation = .Branch) (hd : (scanFlags code).hasDelayedPc = true) (ha : op.branchAnnul = false) :
    ∃ rest, goto (compile code) (.skip i) =
      .label (.skip i) :: .movHolder (.handlePostExit i) :: .jmp (.delaySkip i) :: rest := by
  rw [goto_compile rfl, codeFrom_branch h hb, compileBranch, if_pos hd, ha]
  cases op.branchCondition <;> simp [goto]

lemma goto_handlePostExit (hb : op.operation = .Branch)
    (hd : (scanFlags code).hasDelayedPc = true) (ha : op.branchAnnul = false) :
    ∃ rest, goto (compile code) (.handlePostExit i) =
      .label (.handlePostExit i) :: .xorHolder :: .jmp (.instr (jumpAddress op i)) :: rest := by
  rw [goto_compile rfl, codeFrom_branch h hb, compileBranch, if_pos hd, ha]
  cases op.branchCondition <;> simp [goto]

end

end Labels

section Reaches

variable {δ : Type} {sem : MachineSem δ} {all : List Asm}

def Reaches (sem : MachineSem δ) (all : List Asm) (m m' : Machine δ) : Prop :=
  ∃ n, machineRun sem all n m = m'

lemma Reaches.refl (m : Machine δ) : Reaches sem all m m := ⟨0, rfl⟩

lemma machineRun_stuck {m : Machine δ} (h : machineStep sem all m = none) (n : ℕ) : machineRun sem all n m = m := by
  cases n with
  | zero => rfl
  | succ n => rw [machineRun, h]

lemma machineRun_add (n k : ℕ) (m : Machine δ) :
    machineRun sem all (n + k) m = machineRun sem all k (machineRun sem all n m) := by
  induction n generalizing m with
  | zero => rw [Nat.zero_add]; rfl
  | succ n ih =>
    rw [Nat.succ_add, machineRun, machineRun]
    cases h : machineStep sem all m with
    | none => exact (machineRun_stuck h k).symm
    | some m' => exact ih m'

variable {m1 m2 m3 : Machine δ}

lemma Reaches.trans (h1 : Reaches sem all m1 m2) (h2 : Reaches sem all m2 m3) : Reaches sem all m1 m3 := by
  obtain ⟨n, rfl⟩ := h1
  obtain ⟨k, rfl⟩ := h2
  exact ⟨n + k, machineRun_add n k m1⟩

lemma Reaches.head (h1 : machineStep sem all m1 = some m2) (h2 : Reaches sem all m2 m3) : Reaches sem all m1 m3 := by
  obtain ⟨n, rfl⟩ := h2
  exact ⟨n + 1, by rw [machineRun, h1]⟩

/-- One instruction to a state that is given. -/
lemma Reaches.via (m2 : Machine δ) (h1 : machineStep sem all m1 = some m2)
    (h2 : Reaches sem all m2 m3) : Reaches sem all m1 m3 :=
  .head h1 h2

end Reaches

section Instructions

variable {δ : Type} (sem : MachineSem δ) (code : List Opcode)

structure At (i : ℕ) (h : Holder) (d : δ) (t : List ℕ) (m : Machine δ) : Prop where
  code_eq : m.code = codeFrom code i
  holder : m.holder = h
  data : m.data = d
  trace : m.trace = t

/-- The machine stands behind the body of an instruction. -/
structure AtTail (i : ℕ) (op : Opcode) (h : Holder) (d : δ) (t : List ℕ) (m : Machine δ) :
    Prop where
  code_eq : m.code = tailFrom code i op
  holder : m.holder = h
  data : m.data = d
  trace : m.trace = t

structure AtEnd (d : δ) (t : List ℕ) (m : Machine δ) : Prop where
  returned : m.Returned
  data : m.data = d
  trace : m.trace = t

/-- From every state of one kind the machine gets to a state of another. -/
def Goes (p q : Machine δ → Prop) : Prop :=
  ∀ m, p m → ∃ m', Reaches sem (compile code) m m' ∧ q m'

variable {sem code} {p q r : Machine δ → Prop}

lemma Goes.trans (h1 : Goes sem code p q) (h2 : Goes sem code q r) : Goes sem code p r := by
  intro m hm
  obtain ⟨m1, hr1, hq⟩ := h1 m hm
  obtain ⟨m2, hr2, hr⟩ := h2 m1 hq
  exact ⟨m2, hr1.trans hr2, hr⟩

variable {i : ℕ} {op : Opcode} {d : δ} {t : List ℕ} {h : Holder}

lemma goes_plain (hop : code[i]? = some op) (hb : op.operation ≠ .Branch) :
    Goes sem code (At code i h d t) (AtTail code i op h
      (sem.exec (compileData (scanFlags code) op code[i + 1]?) d) (t ++ [i])) := by
  rintro ⟨c, _, rax, zf, _, _⟩ ⟨hc, rfl, rfl, rfl⟩
  rw [codeFrom_plain hop hb] at hc
  subst hc
  exact ⟨_, .head rfl (.head rfl (.refl _)), rfl, rfl, rfl, rfl⟩

lemma goes_tail (hop : code[i]? = some op) (he : op.isExit = false) :
    Goes sem code (AtTail code i op .zero d t) (At code (i + 1) .zero (sem.clearCarry d) t) := by
  rintro ⟨c, _, rax, zf, _, _⟩ ⟨hc, rfl, rfl, rfl⟩
  rename_i d t
  refine ⟨⟨codeFrom code (i + 1), .zero, rax, true, sem.clearCarry d, t⟩, ?_, rfl, rfl, rfl, rfl⟩
  by_cases hd : (scanFlags code).hasDelayedPc = true
  · rw [tailFrom, compileTail, if_pos hd, he] at hc
    subst hc
    refine .head rfl (.head rfl ?_)
    change Reaches sem _ ⟨goto (compile code) (.noDelaySlot i), .zero, rax, true, sem.clearCarry d, t⟩ _
    rw [goto_noDelaySlot hop hd he]
    exact .head rfl (.head rfl (.refl _))
  · rw [tailFrom, compileTail, if_neg hd, he] at hc
    subst hc
    exact .head rfl (.head rfl (.refl _))

/-- What `BRANCH_HOLDER` is while the delay slot of an exit is executed. -/
def exitHolder (code : List Opcode) : Holder :=
  if (scanFlags code).hasDelayedPc then .address .endOfCode else .count 1

lemma goes_exit (he : op.isExit = true) (hi : i + 1 < code.length) :
    Goes sem code (AtTail code i op .zero d t) (At code (i + 1) (exitHolder code) (sem.clearCarry d) t) := by
  rintro ⟨c, _, rax, zf, _, _⟩ ⟨hc, rfl, rfl, rfl⟩
  rename_i d t
  by_cases hd : (scanFlags code).hasDelayedPc = true
  · refine ⟨⟨codeFrom code (i + 1), .address .endOfCode, .address .endOfCode, true,
      sem.clearCarry d, t⟩, ?_, rfl, (if_pos hd).symm, rfl, rfl⟩
    rw [tailFrom, compileTail, if_pos hd, he] at hc
    subst hc
    refine .head rfl (.head rfl (.head rfl (.head rfl ?_)))
    change Reaches sem _ ⟨goto (compile code) (.instr (i + 1)), .address .endOfCode,
      .address .endOfCode, true, sem.clearCarry d, t⟩ _
    rw [goto_instr hi]
    exact .refl _
  · refine ⟨⟨codeFrom code (i + 1), .count 1, rax, false, sem.clearCarry d, t⟩, ?_, rfl, (if_neg hd).symm, rfl, rfl⟩
    rw [tailFrom, compileTail, if_neg hd, he] at hc
    subst hc
    exact .head rfl (.head rfl (.head rfl (.refl _)))

/-- The tail in the delay slot of an exit.  In a program with delayed branches the exit bit must not be set. -/
lemma goes_end (he : (scanFlags code).hasDelayedPc = true → op.isExit = false) :
    Goes sem code (AtTail code i op (exitHolder code) d t)
      (fun m => ∃ n, AtEnd (sem.clearCarry^[n] d) t m) := by
  rintro ⟨c, _, rax, zf, _, _⟩ ⟨hc, rfl, rfl, rfl⟩
  rename_i d t
  by_cases hd : (scanFlags code).hasDelayedPc = true
  · rw [tailFrom, compileTail, if_pos hd, he hd] at hc
    subst hc
    rw [exitHolder, if_pos hd]
    refine ⟨⟨[.ret], .zero, .address .endOfCode, true, sem.clearCarry (sem.clearCarry d), t⟩, ?_, 2, rfl, rfl, rfl⟩
    refine .head rfl (.head rfl (.head rfl (.head rfl (.head rfl ?_))))
    change Reaches sem _ ⟨goto (compile code) .endOfCode, .zero, .address .endOfCode, true,
      sem.clearCarry (sem.clearCarry d), t⟩ _
    rw [goto_endOfCode]
    exact .head rfl (.refl _)
  · rw [tailFrom, compileTail, if_neg hd] at hc
    subst hc
    rw [exitHolder, if_neg hd]
    refine ⟨⟨[.ret], .count 1, rax, false, sem.clearCarry d, t⟩, ?_, 1, rfl, rfl, rfl⟩
    refine .head rfl (.head rfl ?_)
    change Reaches sem _ ⟨goto (compile code) .endOfCode, .count 1, rax, false, sem.clearCarry d, t⟩ _
    rw [goto_endOfCode]
    exact .head rfl (.refl _)

/-- The tail in the delay slot of a branch: the jump that was pending is made. -/
lemma goes_pending {j : ℕ} {branch : Opcode} (hbr : code[j]? = some branch)
    (hb : branch.operation = .Branch) (ha : branch.branchAnnul = false)
    (hd : (scanFlags code).hasDelayedPc = true) (he : op.isExit = false)
    (hj : jumpAddress branch j < code.length) :
    Goes sem code (AtTail code i op (.address (.handlePostExit j)) d t)
      (At code (jumpAddress branch j) .zero (sem.clearCarry^[3] d) t) := by
  rintro ⟨c, _, rax, zf, _, _⟩ ⟨hc, rfl, rfl, rfl⟩
  rename_i d t
  rw [tailFrom, compileTail, if_pos hd, he] at hc
  subst hc
  refine ⟨⟨codeFrom code (jumpAddress branch j), .zero, .address (.handlePostExit j), true,
    sem.clearCarry (sem.clearCarry (sem.clearCarry d)), t⟩, ?_, rfl, rfl, rfl, rfl⟩
  obtain ⟨rest, hgoto⟩ := goto_handlePostExit hbr hb hd ha
  refine .head rfl (.head rfl (.head rfl (.head rfl (.head rfl ?_))))
  change Reaches sem _ ⟨goto (compile code) (.handlePostExit j), .zero,
    .address (.handlePostExit j), true, sem.clearCarry (sem.clearCarry d), t⟩ _
  rw [hgoto]
  refine .head rfl (.head rfl (.head rfl ?_))
  change Reaches sem _ ⟨goto (compile code) (.instr (jumpAddress branch j)), .zero,
    .address (.handlePostExit j), true, sem.clearCarry (sem.clearCarry (sem.clearCarry d)), t⟩ _
  rw [goto_instr hj]
  exact .refl _

section

variable (hop : code[i]? = some op) (hb : op.operation = .Branch)
include hop hb

lemma goes_not_taken (ht : op.taken (sem.cmpZero op.srcA d).1 = false) :
    Goes sem code (At code i h d t) (AtTail code i op h (sem.cmpZero op.srcA d).2 (t ++ [i])) := by
  rintro ⟨c, _, rax, zf, _, _⟩ ⟨hc, rfl, rfl, rfl⟩
  rename_i h d t
  rw [codeFrom_branch hop hb] at hc
  subst hc
  refine ⟨⟨tailFrom code i op, h, rax, (sem.cmpZero op.srcA d).1, (sem.cmpZero op.srcA d).2,
    t ++ [i]⟩, ?_, rfl, rfl, rfl, rfl⟩
  refine .head rfl (.head rfl ?_)
  by_cases hd : (scanFlags code).hasDelayedPc = true
  · rw [if_pos hd]
    refine .via ⟨goto (compile code) (.branchEnd i), h, rax, (sem.cmpZero op.srcA d).1,
      (sem.cmpZero op.srcA d).2, t ++ [i]⟩ ?_ ?_
    · unfold Opcode.taken at ht
      cases hbc : op.branchCondition <;> rw [hbc] at ht <;> simp_all [machineStep]
    · rw [goto_branchEnd hop hb]
      exact .head rfl (.refl _)
  · rw [if_neg hd]
    refine .via ⟨.label (.branchEnd i) :: tailFrom code i op, h, rax,
      (sem.cmpZero op.srcA d).1, (sem.cmpZero op.srcA d).2, t ++ [i]⟩ ?_
      (.head rfl (.refl _))
    unfold Opcode.taken at ht
    cases hbc : op.branchCondition <;> rw [hbc] at ht <;> simp_all [machineStep]

lemma goes_annul (ht : op.taken (sem.cmpZero op.srcA d).1 = true) (ha : op.branchAnnul = true)
    (hj : jumpAddress op i < code.length) :
    Goes sem code (At code i .zero d t) (fun m => ∃ n, At code (jumpAddress op i) .zero
      (sem.clearCarry^[n] (sem.cmpZero op.srcA d).2) (t ++ [i]) m) := by
  rintro ⟨c, _, rax, zf, _, _⟩ ⟨hc, rfl, rfl, rfl⟩
  rename_i d t
  rw [codeFrom_branch hop hb] at hc
  subst hc
  by_cases hd : (scanFlags code).hasDelayedPc = true
  · refine ⟨⟨codeFrom code (jumpAddress op i), .zero, rax, true,
      sem.clearCarry (sem.cmpZero op.srcA d).2, t ++ [i]⟩, ?_, 1, rfl, rfl, rfl, rfl⟩
    refine .head rfl (.head rfl ?_)
    rw [if_pos hd, ha]
    refine .via ⟨.xorHolder :: .jmp (.instr (jumpAddress op i)) ::
      .label (.branchEnd i) :: tailFrom code i op, .zero, rax, (sem.cmpZero op.srcA d).1,
      (sem.cmpZero op.srcA d).2, t ++ [i]⟩ ?_ ?_
    · unfold Opcode.taken at ht
      cases hbc : op.branchCondition <;> rw [hbc] at ht <;> simp_all [machineStep]
    · refine .head rfl (.head rfl ?_)
      change Reaches sem _ ⟨goto (compile code) (.instr (jumpAddress op i)), .zero, rax, true,
        sem.clearCarry (sem.cmpZero op.srcA d).2, t ++ [i]⟩ _
      rw [goto_instr hj]
      exact .refl _
  · refine ⟨⟨codeFrom code (jumpAddress op i), .zero, rax, (sem.cmpZero op.srcA d).1,
      (sem.cmpZero op.srcA d).2, t ++ [i]⟩, ?_, 0, rfl, rfl, rfl, rfl⟩
    refine .head rfl (.head rfl ?_)
    rw [if_neg hd, ← goto_instr hj]
    refine .head ?_ (.refl _)
    unfold Opcode.taken at ht
    cases hbc : op.branchCondition <;> rw [hbc] at ht <;> simp_all [machineStep]

lemma hasDelayedPc_of_branch (ha : op.branchAnnul = false) : (scanFlags code).hasDelayedPc = true := by
  refine any_eq_true.2 ⟨op, mem_of_getElem? hop, ?_⟩
  simp [hb, ha]

/-- A taken branch with a delay slot: the jump is pending in the slot. -/
lemma goes_delayed (ht : op.taken (sem.cmpZero op.srcA d).1 = true) (ha : op.branchAnnul = false) :
    Goes sem code (At code i .zero d t) (At code (i + 1) (.address (.handlePostExit i))
      (sem.cmpZero op.srcA d).2 (t ++ [i])) := by
  rintro ⟨c, _, rax, zf, _, _⟩ ⟨hc, rfl, rfl, rfl⟩
  rename_i d t
  have hd := hasDelayedPc_of_branch hop hb ha
  rw [codeFrom_branch hop hb] at hc
  subst hc
  refine ⟨⟨codeFrom code (i + 1), .address (.handlePostExit i), rax, (sem.cmpZero op.srcA d).1,
    (sem.cmpZero op.srcA d).2, t ++ [i]⟩, ?_, rfl, rfl, rfl, rfl⟩
  obtain ⟨rest, hskip⟩ := goto_skip hop hb hd ha
  refine .head rfl (.head rfl ?_)
  rw [if_pos hd, ha]
  refine .via ⟨.jmp (.skip i) :: .label (.handlePostExit i) :: .xorHolder ::
    .jmp (.instr (jumpAddress op i)) :: .label (.skip i) :: .movHolder (.handlePostExit i) ::
    .jmp (.delaySkip i) :: .label (.branchEnd i) :: tailFrom code i op, .zero, rax,
    (sem.cmpZero op.srcA d).1, (sem.cmpZero op.srcA d).2, t ++ [i]⟩ ?_ (.head rfl ?_)
  · unfold Opcode.taken at ht
    cases hbc : op.branchCondition <;> rw [hbc] at ht <;> simp_all [machineStep]
  · change Reaches sem _ ⟨goto (compile code) (.skip i), .zero, rax, (sem.cmpZero op.srcA d).1,
      (sem.cmpZero op.srcA d).2, t ++ [i]⟩ _
    rw [hskip]
    refine .head rfl (.head rfl (.head rfl ?_))
    change Reaches sem _ ⟨goto (compile code) (.delaySkip i), .address (.handlePostExit i), rax,
      (sem.cmpZero op.srcA d).1, (sem.cmpZero op.srcA d).2, t ++ [i]⟩ _
    rw [goto_delaySkip hop hd]
    exact .head rfl (.refl _)

end

end Instructions

/-- The instruction has a delay slot: it is an exit, or a branch that is not annulled. -/
def Opcode.HasSlot (op : Opcode) : Prop :=
  op.isExit = true ∨ op.operation = .Branch ∧ op.branchAnnul = false

/-- The programs considered: branches stay inside the code, there is no branch in a delay slot, and the last
instruction is not an exit. -/
structure WellFormed (code : List Opcode) : Prop where
  inside : ∀ (i : ℕ) op, code[i]? = some op → op.operation = .Branch →
    0 ≤ (i : ℤ) + op.immediate ∧ (i : ℤ) + op.immediate < code.length
  slots : ∀ (i : ℕ) op next, code[i]? = some op → code[i + 1]? = some next → op.HasSlot → next.operation ≠ .Branch
  last : ∀ (i : ℕ) op, code[i]? = some op → i + 1 = code.length → op.isExit = false

/-- The interpreter when only the branch outcomes are known: whether the register of the `k`-th branch is zero. -/
def outcomeSem (outcomes : ℕ → Bool) : InterpreterSem ℕ where
  execute _ k := some k
  isZero _ k := (outcomes k, k + 1)

/-- The machine with the same outcomes. -/
def outcomeMachine (outcomes : ℕ → Bool) : MachineSem ℕ where
  exec _ k := k
  cmpZero _ k := (outcomes k, k + 1)
  clearCarry k := k

/-- The delay slot of the instruction is executed. -/
def slotFollows (op : Opcode) (zero : Bool) : Bool :=
  if op.operation = .Branch ∧ op.taken zero = true then !op.branchAnnul else op.isExit

/-- The step that comes executes no instruction with the exit bit in a delay slot, or the program has no delayed
branches. -/
def slotHasNoExit (code : List Opcode) (outcomes : ℕ → Bool) (c : Control ℕ) : Bool :=
  !(scanFlags code).hasDelayedPc || match code[c.pc / 4]?, code[c.pc / 4 + 1]? with
    | some op, some next => !(slotFollows op (outcomes c.data) && next.isExit)
    | _, _ => true

/-- The same for every step of a run. -/
def runHasNoExitSlot (code : List Opcode) (outcomes : ℕ → Bool) (depth : ℕ) : ℕ → Control ℕ → Bool
  | 0, _ => true
  | n + 1, c => slotHasNoExit code outcomes c &&
      match step (outcomeSem outcomes) code depth c false with
      | some (c', true) => runHasNoExitSlot code outcomes depth n c'
      | _ => true

section Simulation

variable {code : List Opcode} {outcomes : ℕ → Bool} {depth i k : ℕ} {t : List ℕ} {op : Opcode}

variable {target : Option ℕ}

lemma step_slot (hop : code[i]? = some op) (hb : op.operation ≠ .Branch) :
    step (outcomeSem outcomes) code (depth + 1) ⟨4 * i, target, k, t⟩ true =
      some (⟨target.getD (4 * i + 4), none, k, t ++ [i]⟩, true) := by
  have hdiv : 4 * i / 4 = i := by omega
  unfold step
  simp only [hdiv, hop, if_neg hb, outcomeSem, Bool.not_true, Bool.and_false, Bool.false_eq_true, if_false]
  cases target <;> rfl

/-- The end of a step whose instruction does not jump. -/
lemma step_finish (hop : code[i]? = some op) (hb : op.operation = .Branch → op.taken (outcomes k) = false) :
    step (outcomeSem outcomes) code (depth + 2) ⟨4 * i, none, k, t⟩ false =
      if op.isExit then
        (step (outcomeSem outcomes) code (depth + 1) ⟨4 * (i + 1), none,
          if op.operation = .Branch then k + 1 else k, t ++ [i]⟩ true).map fun r => (r.1, false)
      else some (⟨4 * (i + 1), none, if op.operation = .Branch then k + 1 else k, t ++ [i]⟩, true) := by
  have hdiv : 4 * i / 4 = i := by omega
  have hnext : 4 * i + 4 = 4 * (i + 1) := by omega
  rw [step]
  by_cases hbr : op.operation = .Branch
  · simp [hdiv, hop, hbr, outcomeSem, hb hbr, hnext]
  · simp [hdiv, hop, hbr, outcomeSem, hnext]

lemma step_taken (hop : code[i]? = some op) (hb : op.operation = .Branch) (ht : op.taken (outcomes k) = true) :
    step (outcomeSem outcomes) code (depth + 2) ⟨4 * i, none, k, t⟩ false =
      if op.branchAnnul then some (⟨op.branchTarget (4 * i), none, k + 1, t ++ [i]⟩, true)
      else step (outcomeSem outcomes) code (depth + 1)
        ⟨4 * (i + 1), some (op.branchTarget (4 * i)), k + 1, t ++ [i]⟩ true := by
  have hdiv : 4 * i / 4 = i := by omega
  have hnext : 4 * i + 4 = 4 * (i + 1) := by omega
  rw [step]
  simp [hdiv, hop, hb, outcomeSem, ht, hnext]

lemma branchTarget_eq (h : 0 ≤ (i : ℤ) + op.immediate) : op.branchTarget (4 * i) = 4 * jumpAddress op i := by
  unfold Opcode.branchTarget jumpAddress
  omega

lemma slot_exists {r : Control ℕ × Bool}
    (h : step (outcomeSem outcomes) code (depth + 1) ⟨4 * i, target, k, t⟩ true = some r) :
    ∃ next, code[i]? = some next := by
  have hdiv : 4 * i / 4 = i := by omega
  cases hn : code[i]? with
  | some next => exact ⟨next, rfl⟩
  | none =>
    rw [step] at h
    simp [hdiv, hn] at h

@[simp] lemma clearCarry_iterate (n k : ℕ) : (outcomeMachine outcomes).clearCarry^[n] k = k :=
  Function.iterate_fixed rfl n

/-- What a step of the interpreter means for the machine. -/
def Simulates (code : List Opcode) (outcomes : ℕ → Bool) (i k : ℕ) (t : List ℕ) (c : Control ℕ) : Bool → Prop
  | true => ∃ i', c.pc = 4 * i' ∧ c.delayedPc = none ∧
      Goes (outcomeMachine outcomes) code (At code i .zero k t) (At code i' .zero c.data c.trace)
  | false => Goes (outcomeMachine outcomes) code (At code i .zero k t) (AtEnd c.data c.trace)

variable {c : Control ℕ} {keep : Bool}

lemma simulates_finish (wf : WellFormed code) {k' : ℕ} (hop : code[i]? = some op)
    (hgo : Goes (outcomeMachine outcomes) code (At code i .zero k t) (AtTail code i op .zero k' (t ++ [i])))
    (hslot : ∀ next, code[i + 1]? = some next → op.isExit = true →
      (scanFlags code).hasDelayedPc = true → next.isExit = false)
    (h : (if op.isExit then
        (step (outcomeSem outcomes) code (depth + 1) ⟨4 * (i + 1), none, k', t ++ [i]⟩ true).map
          fun r => (r.1, false)
      else some (⟨4 * (i + 1), none, k', t ++ [i]⟩, true)) = some (c, keep)) :
    Simulates code outcomes i k t c keep := by
  cases he : op.isExit with
  | false =>
    rw [he] at h
    cases h
    exact ⟨i + 1, rfl, rfl, hgo.trans (goes_tail hop he)⟩
  | true =>
    rw [if_pos he, Option.map_eq_some_iff] at h
    obtain ⟨r, hr, heq⟩ := h
    obtain ⟨next, hnext⟩ := slot_exists hr
    have hplain := wf.slots i op next hop hnext (.inl he)
    rw [step_slot hnext hplain] at hr
    cases hr
    cases heq
    have hlen : i + 1 < code.length := (List.getElem?_eq_some_iff.1 hnext).1
    have hend := (hgo.trans (goes_exit he hlen)).trans ((goes_plain hnext hplain).trans (goes_end (hslot next hnext he)))
    intro m hm
    obtain ⟨m', hreach, n, hat⟩ := hend m hm
    rw [clearCarry_iterate] at hat
    exact ⟨m', hreach, hat⟩

/-- **One step of the interpreter is simulated by the machine.** -/
lemma simulates_step (wf : WellFormed code)
    (h : step (outcomeSem outcomes) code (depth + 2) ⟨4 * i, none, k, t⟩ false = some (c, keep))
    (hs : slotHasNoExit code outcomes ⟨4 * i, none, k, t⟩ = true) :
    Simulates code outcomes i k t c keep := by
  have hdiv : 4 * i / 4 = i := by omega
  cases hop : code[i]? with
  | none =>
    rw [step] at h
    simp [hdiv, hop] at h
  | some op =>
    -- what the condition says about the slot
    have hslot : ∀ next, code[i + 1]? = some next → slotFollows op (outcomes k) = true →
        (scanFlags code).hasDelayedPc = true → next.isExit = false := by
      intro next hnext hfollows hd
      simpa [slotHasNoExit, hd, hdiv, hop, hnext, hfollows] using hs
    by_cases hb : op.operation = .Branch
    · cases ht : op.taken (outcomes k) with
      | false =>
        rw [step_finish hop fun _ => ht, if_pos hb] at h
        refine simulates_finish wf hop (goes_not_taken hop hb ht) (fun next hn he hd => ?_) h
        exact hslot next hn (by simp [slotFollows, ht, he]) hd
      | true =>
        obtain ⟨hlo, hhi⟩ := wf.inside i op hop hb
        have hj : jumpAddress op i < code.length := by
          unfold jumpAddress
          omega
        have ht' : op.taken ((outcomeMachine outcomes).cmpZero op.srcA k).1 = true := ht
        rw [step_taken hop hb ht] at h
        cases ha : op.branchAnnul with
        | true =>
          rw [ha] at h
          cases h
          refine ⟨jumpAddress op i, branchTarget_eq hlo, rfl, fun m hm => ?_⟩
          obtain ⟨m', hreach, n, hat⟩ := goes_annul hop hb ht' ha hj m hm
          rw [clearCarry_iterate] at hat
          exact ⟨m', hreach, hat⟩
        | false =>
          rw [ha] at h
          obtain ⟨next, hnext⟩ := slot_exists h
          have hplain := wf.slots i op next hop hnext (.inr ⟨hb, ha⟩)
          have hd := hasDelayedPc_of_branch hop hb ha
          have hexit := hslot next hnext (by simp [slotFollows, hb, ht, ha]) hd
          rw [if_neg (by simp), step_slot hnext hplain] at h
          cases h
          exact ⟨jumpAddress op i, branchTarget_eq hlo, rfl,
            (goes_delayed (t := t) hop hb ht' ha).trans
              ((goes_plain hnext hplain).trans (goes_pending hop hb ha hd hexit hj))⟩
    · rw [step_finish hop fun hc => absurd hc hb, if_neg hb] at h
      refine simulates_finish wf hop (goes_plain hop hb) (fun next hn he hd => ?_) h
      exact hslot next hn (by simp [slotFollows, hb, he]) hd

lemma simulates_run (wf : WellFormed code) {n : ℕ}
    (h : run (outcomeSem outcomes) code (depth + 2) n ⟨4 * i, none, k, t⟩ = some (c, keep))
    (hs : runHasNoExitSlot code outcomes (depth + 2) n ⟨4 * i, none, k, t⟩ = true) :
    Simulates code outcomes i k t c keep := by
  induction n generalizing i k t with
  | zero =>
    cases h
    exact ⟨i, rfl, rfl, fun m hm => ⟨m, .refl m, hm⟩⟩
  | succ n ih =>
    rw [run] at h
    rw [runHasNoExitSlot, Bool.and_eq_true] at hs
    cases hstep : step (outcomeSem outcomes) code (depth + 2) ⟨4 * i, none, k, t⟩ false with
    | none => simp [hstep] at h
    | some r =>
      obtain ⟨c', keep'⟩ := r
      have hsim := simulates_step wf hstep hs.1
      rw [hstep] at h hs
      cases keep' with
      | false =>
        cases h
        exact hsim
      | true =>
        obtain ⟨i', hpc, hdelayed, hgo⟩ := hsim
        obtain ⟨pc, delayedPc, k', t'⟩ := c'
        subst hpc hdelayed
        have hrest := ih h hs.2
        cases keep with
        | true =>
          obtain ⟨i'', hpc, hdelayed, hgo'⟩ := hrest
          exact ⟨i'', hpc, hdelayed, hgo.trans hgo'⟩
        | false => exact hgo.trans hrest

lemma goes_prologue : Goes (outcomeMachine outcomes) code
    (fun m => m = Machine.initial code 0) (At code 0 .zero 0 []) := by
  rintro m rfl
  exact ⟨_, .head rfl (.head rfl (.head rfl (.refl _))), rfl, rfl, rfl, rfl⟩

lemma machineStep_trace {δ : Type} {sem : MachineSem δ} {all : List Asm} {m m' : Machine δ}
    (h : machineStep sem all m = some m') : m.trace.length ≤ m'.trace.length := by
  obtain ⟨c, holder, rax, zf, d, t⟩ := m
  cases c with
  | nil => cases h
  | cons x rest =>
    cases x with
    | label l =>
      cases l <;> cases h
      all_goals simp
    | je l =>
      cases h
      cases zf <;> simp
    | jne l =>
      cases h
      cases zf <;> simp
    | jmpRax =>
      cases rax <;> cases h
      simp
    | ret => cases h
    | _ =>
      cases h
      simp

lemma machineRun_trace {δ : Type} {sem : MachineSem δ} {all : List Asm} (n : ℕ) (m : Machine δ) :
    m.trace.length ≤ (machineRun sem all n m).trace.length := by
  induction n generalizing m with
  | zero => exact le_rfl
  | succ n ih =>
    rw [machineRun]
    cases h : machineStep sem all m with
    | none => exact le_rfl
    | some m' => exact (machineStep_trace h).trans (ih m')

lemma step_trace {ι : Type} {sem : InterpreterSem ι} (depth : ℕ) (c : Control ι) (slot : Bool)
    {r : Control ι × Bool} (h : step sem code depth c slot = some r) :
    c.trace.length < r.1.trace.length := by
  induction depth generalizing c slot r with
  | zero => cases h
  | succ depth ih =>
    have hgrow : c.trace.length < (c.trace ++ [c.pc / 4]).length := by simp
    rw [step] at h
    split at h
    · cases h
    · rename_i op _
      dsimp only at h
      split at h
      · split at h
        · split at h
          · cases h
            exact hgrow
          · exact hgrow.trans (ih _ _ h)
        · split at h
          · obtain ⟨r', hr, rfl⟩ := Option.map_eq_some_iff.1 h
            exact hgrow.trans (ih _ _ hr)
          · cases h
            exact hgrow
      · split at h
        · cases h
        · split at h
          · obtain ⟨r', hr, rfl⟩ := Option.map_eq_some_iff.1 h
            exact hgrow.trans (ih _ _ hr)
          · cases h
            exact hgrow

lemma run_trace {ι : Type} {sem : InterpreterSem ι} (n : ℕ) (c : Control ι) {c' : Control ι}
    (h : run sem code depth n c = some (c', true)) : c.trace.length + n ≤ c'.trace.length := by
  induction n generalizing c with
  | zero =>
    cases h
    exact le_rfl
  | succ n ih =>
    rw [run] at h
    cases hs : step sem code depth c false with
    | none => simp [hs] at h
    | some r =>
      obtain ⟨c1, keep⟩ := r
      have hgrow := step_trace depth c false hs
      rw [hs] at h
      cases keep with
      | false => cases h
      | true =>
        have hrest := ih c1 h
        dsimp only at hgrow
        omega

/-- At an instruction the machine has not returned. -/
lemma codeFrom_ne_ret (code : List Opcode) (i : ℕ) : codeFrom code i ≠ [.ret] := by
  by_cases hi : i < code.length
  · rw [codeFrom_eq (getElem?_eq_getElem hi), compileNextInstruction]
    simp
  · rw [codeFrom, drop_eq_nil_of_le (by omega), compileFrom]
    simp [epilogue]

end Simulation

def Control.start : Control ℕ := Control.initial 0

/-- The state of the emitted code after a number of x86 instructions. -/
def jitAfter (code : List Opcode) (outcomes : ℕ → Bool) (m : ℕ) : Machine ℕ :=
  machineRun (outcomeMachine outcomes) (compile code) m (Machine.initial code 0)

/-- **Interpreter and emitted code follow the same path**, for every well-formed program and every sequence of branch
outcomes, as long as no instruction with the exit bit is executed in a delay slot of a program with delayed branches.
The code has executed the instructions that the interpreter has executed; it returns when the interpreter ends, and
does not return while the interpreter keeps running. -/
theorem same_path {code : List Opcode} (wf : WellFormed code) (outcomes : ℕ → Bool) (depth : ℕ)
    (hs : ∀ n, runHasNoExitSlot code outcomes (depth + 2) n Control.start = true) :
    (∀ n c keep, run (outcomeSem outcomes) code (depth + 2) n Control.start = some (c, keep) →
      ∃ m, (jitAfter code outcomes m).trace = c.trace ∧ ((jitAfter code outcomes m).Returned ↔ keep = false)) ∧
    ((∀ n, ∃ c, run (outcomeSem outcomes) code (depth + 2) n Control.start = some (c, true)) →
      ∀ m, ¬ (jitAfter code outcomes m).Returned) := by
  have hpath : ∀ n c keep, run (outcomeSem outcomes) code (depth + 2) n Control.start = some (c, keep) →
      ∃ m, (jitAfter code outcomes m).trace = c.trace ∧ ((jitAfter code outcomes m).Returned ↔ keep = false) := by
    intro n c keep h
    have hsim : Simulates code outcomes 0 0 [] c keep := simulates_run wf h (hs n)
    cases keep with
    | true =>
      obtain ⟨i, -, -, hgo⟩ := hsim
      obtain ⟨m', ⟨m, rfl⟩, hat⟩ := (goes_prologue.trans hgo) _ rfl
      refine ⟨m, hat.trace, ⟨fun hret => ?_, fun hc => by cases hc⟩⟩
      exact absurd (hat.code_eq.symm.trans hret) (codeFrom_ne_ret code i)
    | false =>
      obtain ⟨m', ⟨m, rfl⟩, hat⟩ := (goes_prologue.trans hsim) _ rfl
      exact ⟨m, hat.trace, ⟨fun _ => rfl, fun _ => hat.returned⟩⟩
  refine ⟨hpath, fun hforever m hret => ?_⟩
  -- a run that is longer than the trace of the machine that has returned
  obtain ⟨c, hc⟩ := hforever ((jitAfter code outcomes m).trace.length + 1)
  obtain ⟨m', htrace, -⟩ := hpath _ c true hc
  have hlong := run_trace _ _ hc
  rw [← htrace] at hlong
  have hshort : (jitAfter code outcomes m').trace.length ≤ (jitAfter code outcomes m).trace.length := by
    rcases Nat.le_total m' m with hle | hle
    · obtain ⟨k, rfl⟩ := Nat.exists_eq_add_of_le hle
      rw [jitAfter, jitAfter, machineRun_add]
      exact machineRun_trace k _
    · obtain ⟨k, rfl⟩ := Nat.exists_eq_add_of_le hle
      rw [jitAfter, machineRun_add]
      have hstuck : machineStep (outcomeMachine outcomes) (compile code) (jitAfter code outcomes m) = none := by
        rw [machineStep, show (jitAfter code outcomes m).code = [.ret] from hret]
      rw [← jitAfter, machineRun_stuck hstuck]
  omega

instance neZero_word : NeZero 32 := ⟨by decide⟩

def nop : Opcode where
  operation := .AddImmediate
  resultOperation := .Move
  branchCondition := .Zero
  branchAnnul := false
  isExit := false
  dst := 0
  srcA := 0
  srcB := 0
  immediate := 0
  aluOperation := .Add
  bfSrcBit := 0
  bfSize := 0
  bfDstBit := 0

/-- A delayed branch over two instructions, and an exit with its delay slot.  `slotExit` is the exit bit of the
branch's delay slot. -/
def branchOver (slotExit : Bool) : List Opcode :=
  [{ nop with operation := .Branch, immediate := 3 }, { nop with isExit := slotExit }, nop,
    { nop with isExit := true }, nop]

lemma branchOver_wellFormed (slotExit : Bool) : WellFormed (branchOver slotExit) where
  inside i op h hb := by
    rcases i with _ | _ | _ | _ | _ | i <;> simp [branchOver, nop] at h <;> subst h <;>
      simp [branchOver] at hb ⊢
  slots i op next h hnext hslot := by
    rcases i with _ | _ | _ | _ | _ | i <;> simp [branchOver, nop] at hnext <;> subst hnext <;>
      simp
  last i op h hlast := by
    have hlen : (branchOver slotExit).length = 5 := rfl
    rw [hlen] at hlast
    have hi : i = 4 := by omega
    subst hi
    cases h
    rfl

/-- Without the exit bit in the slot both sides execute the branch, its slot, the exit and its slot. -/
theorem same_path_branch_over :
    (run (outcomeSem fun _ => true) (branchOver false) 2 5 Control.start).map
        (fun r => (r.1.trace, r.2)) = some ([0, 1, 3, 4], false) ∧
    ∃ m, (jitAfter (branchOver false) (fun _ => true) m).trace = [0, 1, 3, 4] ∧
      (jitAfter (branchOver false) (fun _ => true) m).Returned := by
  refine ⟨by decide +kernel, ?_⟩
  have hslots : ∀ n, runHasNoExitSlot (branchOver false) (fun _ => true) 2 n Control.start = true := by
    intro n
    match n with
    | 0 => rfl
    | 1 => rfl
    | n + 2 => rfl
  obtain ⟨m, htrace, hret⟩ := (same_path (branchOver_wellFormed false) (fun _ => true) 0
    hslots).1 5 ⟨20, none, 1, [0, 1, 3, 4]⟩ false rfl
  exact ⟨m, htrace, hret.2 rfl⟩

/-- With the exit bit in the slot the emitted code falls through to the instruction behind it, which the interpreter
skips. -/
theorem exit_slot_overruns : WellFormed (branchOver true) ∧
    (run (outcomeSem fun _ => true) (branchOver true) 2 5 Control.start).map
        (fun r => (r.1.trace, r.2)) = some ([0, 1, 3, 4], false) ∧
    (jitAfter (branchOver true) (fun _ => true) 60).trace = [0, 1, 2, 3, 4] ∧
    (jitAfter (branchOver true) (fun _ => true) 60).code = [.ret] :=
  ⟨branchOver_wellFormed true, by decide +kernel, by decide +kernel, by decide +kernel⟩

end Voltemu.VideoCore
