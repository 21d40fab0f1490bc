import Voltemu.VideoCore.MacroData

/-!
# The data of a macro, over a whole run

* `data_computed` puts the operations together: before `Compile_ProcessResult` the emitted code has computed the
  interpreter's result.
* `agree_step` is one instruction; `run_agrees` is the program, by induction on the code that is left.
* Without branches a program executes its instructions in order, up to the instruction behind the first exit.
-/

namespace Voltemu.VideoCore

open List

section Step

variable {γ : Type} {env : Env γ} {scratch : ℕ → BitVec 32} {opt : Optimizer} {p : Polarity}
  {d d' : Data γ} {s : X86State γ} {op : Opcode} {next : Option Opcode} {dirty : Option (Fin 8)}

/-- What the code of an instruction finds. -/
structure Ready (opt : Optimizer) (p : Polarity) (op : Opcode) (d : Data γ) (s : X86State γ) :
    Prop where
  zeroRegSkip : opt.zeroRegSkip = true
  zero : d.registers 0 = 0#32
  zero' : s.registers 0 = 0#32
  cf : s.cf = false
  reads : ∀ r, op.reads r = true → s.registers r = d.registers r
  gpu : s.gpu = d.gpu
  carry : opt.canSkipCarry = true ∨ p.Holds (s.carryFlag.getLsbD 0) d.carryFlag
  uses : opt.canSkipCarry = true → op.operation = .ALU → op.usesCarry = false

/-- The instruction is emitted as a computation and `Compile_ProcessResult`. -/
def Computes (env : Env γ) (scratch : ℕ → BitVec 32) (opt : Optimizer) (p : Polarity)
    (op : Opcode) (next : Option Opcode) (d : Data γ) (s : X86State γ) : Prop :=
  ∃ xs, compileData opt op next = xs ++ compileProcessResult op.resultOperation op.dst ∧
    Closed env scratch xs ∧ Computed env opt p op d s (X86State.exec env scratch xs 0 s)

/-- A computation that leaves everything but the result alone, the carry of the interpreter included. -/
lemma Ready.computes (h : Ready opt p op d s) (xs : List X86)
    (hcode : compileData opt op next = xs ++ compileProcessResult op.resultOperation op.dst)
    (hclosed : Closed env scratch xs) (hf : Frame s (X86State.exec env scratch xs 0 s))
    (hop : op.operation ≠ .ALU)
    (hres : resultSafe op p d = true → (X86State.exec env scratch xs 0 s).result = (d.compute env op).1) :
    Computes env scratch opt p op next d s := by
  refine ⟨xs, hcode, hclosed, .of_frame hf hres ?_ ?_ h.carry⟩
  · simp [Polarity.after, hop]
  · unfold Data.compute
    cases ho : op.operation <;> first | rfl | exact absurd ho hop

lemma no_jump_aluOperation (opt : Optimizer) (op : Opcode) :
    (compileAluOperation opt op).all (fun x => !x.isJump) = true := by
  unfold compileAluOperation
  cases op.aluOperation <;> dsimp only <;> first | rfl | (split_ifs <;> rfl)

section

variable (h : Ready opt p op d s)
include h

lemma computes_alu (hop : op.operation = .ALU) : Computes env scratch opt p op next d s := by
  have hops : Operands op s (X86State.exec env scratch (compileOperands opt op) 0 s) :=
    operands_spec h.zeroRegSkip h.zero' h.cf
  have same : SameOperands opt p op d s :=
    ⟨hop, h.zeroRegSkip, h.zero, h.reads _ (by simp [Opcode.reads, hop]),
      h.reads _ (by simp [Opcode.reads, hop]), h.carry⟩
  refine ⟨compileOperands opt op ++ compileAluOperation opt op, ?_, ?_, ?_⟩
  · simp [compileData, hop, compileALU]
  · refine closed_operands.append (closed_of_no_jump fun x hx => ?_)
    simpa using all_eq_true.1 (no_jump_aluOperation opt op) x hx
  · rw [closed_operands]
    exact alu_computed same hops fun hskip => h.uses hskip hop

lemma Ready.immediateSum (hread : op.reads op.srcA = true) (hsafe : (op.immediate != 2 || op.srcA == 0) = true) :
    (X86State.exec env scratch (compileImmediateSum opt op) 0 s).result =
      d.registers op.srcA + BitVec.ofInt 32 op.immediate := by
  rw [← h.reads _ hread]
  exact (immediate_spec h.zeroRegSkip h.zero').2 (by simpa using hsafe)

lemma computes_addImmediate (hop : op.operation = .AddImmediate) (hdummy : ¬ (op.resultOperation = .Move ∧ op.dst = 0))
    (hskip : redundantMove opt op next = false) : Computes env scratch opt p op next d s := by
  refine h.computes (compileImmediateSum opt op) ?_ closed_immediate
    (immediate_spec h.zeroRegSkip h.zero').1 (by simp [hop]) fun hsafe => ?_
  · simp only [compileData, hop, compileAddImmediate, hskip]
    rw [if_neg fun hd => hdummy hd.2]
    simp
  · rw [h.immediateSum (by simp [Opcode.reads, hop]) (by simpa [resultSafe, hop] using hsafe)]
    simp [Data.compute, hop]

lemma computes_read (hop : op.operation = .Read) : Computes env scratch opt p op next d s := by
  have hload : Closed env scratch [X86.loadGpu, .readGpu] :=
    closed_of_no_jump (by simp [X86.isJump])
  have hf : Frame s (X86State.exec env scratch (compileImmediateSum opt op) 0 s) :=
    (immediate_spec h.zeroRegSkip h.zero').1
  have hexec : X86State.exec env scratch (compileImmediateSum opt op ++ [.loadGpu, .readGpu]) 0 s =
      X86State.exec env scratch [.loadGpu, .readGpu] 0
        (X86State.exec env scratch (compileImmediateSum opt op) 0 s) := closed_immediate _ _
  refine h.computes (compileImmediateSum opt op ++ [.loadGpu, .readGpu]) ?_
    (closed_immediate.append hload) ?_ (by simp [hop]) fun hsafe => ?_
  · simp [compileData, hop, compileRead]
  · rw [hexec]
    exact hf.trans ⟨rfl, rfl, rfl, rfl, rfl, rfl⟩
  · rw [hexec]
    have hsum : (X86State.exec env scratch (compileImmediateSum opt op) 0 s).result =
        d.registers op.srcA + BitVec.ofInt 32 op.immediate :=
      h.immediateSum (by simp [Opcode.reads, hop]) (by simpa [resultSafe, hop] using hsafe)
    simp only [X86State.exec, X86State.step, hsum, hf.gpu, h.gpu, Data.compute, hop]

lemma computes_extractInsert (hop : op.operation = .ExtractInsert) :
    Computes env scratch opt p op next d s := by
  refine h.computes (extractInsertBody op) ?_ ?_ (extractInsert_spec h.zero').1 (by simp [hop]) fun _ => ?_
  · simp [compileData, hop, compileExtractInsert, extractInsertBody]
  · exact ((closed_getRegister _ _).append (closed_getRegister _ _)).append (closed_of_no_jump (by simp [X86.isJump]))
  · rw [(extractInsert_spec h.zero').2, h.reads op.srcA (by simp [Opcode.reads, hop]),
      h.reads op.srcB (by simp [Opcode.reads, hop])]
    simp [Data.compute, hop]

lemma computes_shiftImmediate (hop : op.operation = .ExtractShiftLeftImmediate) :
    Computes env scratch opt p op next d s := by
  refine h.computes (shiftImmediateBody op) ?_ ?_ (shiftImmediate_spec h.zero').1 (by simp [hop]) fun hsafe => ?_
  · simp [compileData, hop, compileExtractShiftLeftImmediate, shiftImmediateBody]
  · exact ((closed_getRegister _ _).append (closed_getRegister _ _)).append (closed_of_no_jump (by simp [X86.isJump]))
  · have hlt : (d.registers op.srcA).toNat < 32 := by simpa [resultSafe, hop] using hsafe
    have hA := h.reads op.srcA (by simp [Opcode.reads, hop])
    rw [(shiftImmediate_spec h.zero').2 (by rw [hA]; exact hlt), hA, h.reads op.srcB (by simp [Opcode.reads, hop])]
    simp [Data.compute, hop, Data.shiftRight, hlt]

lemma computes_shiftRegister (hop : op.operation = .ExtractShiftLeftRegister) :
    Computes env scratch opt p op next d s := by
  refine h.computes (shiftRegisterBody op) ?_ ?_ (shiftRegister_spec h.zero').1 (by simp [hop]) fun hsafe => ?_
  · simp [compileData, hop, compileExtractShiftLeftRegister, shiftRegisterBody]
  · exact ((closed_getRegister _ _).append (closed_getRegister _ _)).append (closed_of_no_jump (by simp [X86.isJump]))
  · have hlt : (d.registers op.srcA).toNat < 32 := by simpa [resultSafe, hop] using hsafe
    have hA := h.reads op.srcA (by simp [Opcode.reads, hop])
    rw [(shiftRegister_spec h.zero').2 (by rw [hA]; exact hlt), hA, h.reads op.srcB (by simp [Opcode.reads, hop])]
    simp [Data.compute, hop, Data.shiftLeft, hlt]

/-- **Every instruction that is emitted computes the interpreter's result.** -/
lemma data_computed (hres : op.hasResult = true)
    (hdummy : ¬ (op.operation = .AddImmediate ∧ op.resultOperation = .Move ∧ op.dst = 0))
    (hskip : skipped opt op next = false) : Computes env scratch opt p op next d s := by
  cases hop : op.operation with
  | ALU => exact computes_alu h hop
  | AddImmediate =>
    refine computes_addImmediate h hop (fun hd => hdummy ⟨hop, hd⟩) ?_
    simpa [skipped, hop] using hskip
  | ExtractInsert => exact computes_extractInsert h hop
  | ExtractShiftLeftImmediate => exact computes_shiftImmediate h hop
  | ExtractShiftLeftRegister => exact computes_shiftRegister h hop
  | Read => exact computes_read h hop
  | Unused => simp [Opcode.hasResult, hop] at hres
  | Branch => simp [Opcode.hasResult, hop] at hres

end

lemma compute_data (env : Env γ) (d : Data γ) (op : Opcode) :
    (d.compute env op).2 = { d with carryFlag := (d.compute env op).2.carryFlag } := by
  unfold Data.compute
  cases op.operation <;> rfl

lemma Agree.computed {s' : X86State γ} (h : Agree opt p dirty d s) (hc : Computed env opt p op d s s') :
    Agree opt (p.after op) dirty (d.compute env op).2 s' := by
  have hd := compute_data env d op
  refine ⟨fun r hr => ?_, ?_, ?_, fun hnone => ?_, ?_, ?_, hc.carry⟩
  · rw [hc.registers, hd]
    exact h.registers r hr
  · rw [hd]
    exact h.zero
  · rw [hc.parameter, hd]
    exact h.parameter
  · rw [hc.methodAddress, hd]
    exact h.method hnone
  · rw [hc.gpu, hd]
    exact h.gpu
  · rw [hc.sends, hd]
    exact h.sends

lemma Agree.skip (h : Agree opt p dirty d s) (hdirty : ∀ r, dirty = some r → op.dst = r)
    (v : BitVec 32) : Agree opt p (some op.dst) ((d.setRegister op.dst v).setMethodAddress v) s := by
  have hkeep : ∀ r, r = 0 ∨ some op.dst ≠ some r →
      ((d.setRegister op.dst v).setMethodAddress v).registers r = d.registers r := by
    intro r hr
    unfold Data.setRegister Data.setMethodAddress
    split
    · rfl
    · rename_i hne
      refine Function.update_of_ne ?_ ..
      rintro rfl
      rcases hr with hr | hr
      · exact hne hr
      · exact hr rfl
  refine ⟨fun r hr => ?_, ?_, ?_, fun hnone => (by cases hnone), ?_, ?_, ?_⟩
  · rw [hkeep r hr]
    refine h.registers r (hr.imp_right fun hne hd => ?_)
    exact hne (congrArg some (hdirty r hd))
  · rw [hkeep 0 (.inl rfl)]
    exact h.zero
  all_goals
    unfold Data.setRegister Data.setMethodAddress
    split
    all_goals first | exact h.parameter | exact h.gpu | exact h.sends | exact h.carry

lemma execute_eq (hres : op.hasResult = true) :
    d.execute env op = (d.compute env op).2.processResult env op.resultOperation op.dst (d.compute env op).1 := by
  unfold Data.execute
  cases hop : op.operation <;> first | rfl | simp [Opcode.hasResult, hop] at hres

/-- The flags of the optimizer that `Compile` sets for every program. -/
structure Enabled (opt : Optimizer) : Prop where
  zeroRegSkip : opt.zeroRegSkip = true
  skipDummyAddImmediate : opt.skipDummyAddImmediate = true

/-- The register that the instruction before left dirty is written by this one. -/
def Overwritten (dirty : Option (Fin 8)) (op : Opcode) : Prop :=
  ∀ r, dirty = some r → op.resultOperation = .MoveAndSetMethod ∧ op.dst = r

section

variable (hopt : Enabled opt) (h : Agree opt p dirty d s) (hcf : s.cf = false)
  (hdirty : Overwritten dirty op)
include hopt h hcf hdirty

lemma agree_result (huses : opt.canSkipCarry = true → op.operation = .ALU → op.usesCarry = false)
    (hres : op.hasResult = true) (hskip : skipped opt op next = false)
    (hdummy : ¬ (op.operation = .AddImmediate ∧ op.resultOperation = .Move ∧ op.dst = 0))
    (hsafe : safeStep env opt op next p dirty d = true) (hx : d.execute env op = some d') :
    Agree opt (p.after op) none d' (X86State.exec env scratch (compileData opt op next) 0 s) := by
  simp only [safeStep, hskip, hres, Bool.false_or, Bool.not_true, Bool.and_eq_true] at hsafe
  obtain ⟨hreads, hresult, hmethod⟩ := hsafe
  have hready : Ready opt p op d s := by
    refine ⟨hopt.zeroRegSkip, h.zero, ?_, hcf, fun r hr => ?_, h.gpu, h.carry, huses⟩
    · exact (h.registers 0 (.inl rfl)).trans h.zero
    · refine h.registers r ?_
      by_cases hr0 : r = 0
      · exact .inl hr0
      · refine .inr fun hd => ?_
        subst hd
        simp [hr, hr0] at hreads
  have hcomputes : Computes env scratch opt p op next d s :=
    data_computed hready hres hdummy hskip
  obtain ⟨xs, hcode, hclosed, hcomp⟩ := hcomputes
  rw [execute_eq hres] at hx
  rw [hcode, hclosed]
  refine process_agrees (h.computed hcomp) hdirty (fun hne hmove => ?_) (fun hr => ?_)
    (fun hr => ?_) hx
  · refine hcomp.result ?_
    have hused : op.resultUsed = true := by
      simp only [Opcode.resultUsed, Bool.and_eq_true, bne_iff_ne, Bool.not_eq_true',
        Bool.and_eq_false_iff, beq_eq_false_iff_ne]
      refine ⟨hne, ?_⟩
      by_cases hm : op.resultOperation = .Move
      · exact .inr (hmove hm)
      · exact .inl hm
    simpa [hused] using hresult
  · rw [compute_data]
    rcases hr with hr | hr <;> simpa [sendAddress, hr] using hmethod
  · rcases hr with hr | hr <;> simpa [sendAddress, hr] using hmethod

/-- **One instruction keeps the two sides in agreement.** -/
lemma agree_step (hb : op.operation ≠ .Branch)
    (huses : opt.canSkipCarry = true → op.operation = .ALU → op.usesCarry = false)
    (hsafe : safeStep env opt op next p dirty d = true) (hx : d.execute env op = some d') :
    Agree opt (p.after op) (dirtyAfter opt op next) d' (X86State.exec env scratch (compileData opt op next) 0 s) := by
  cases hskip : skipped opt op next with
  | true =>
    obtain ⟨hop, hmove⟩ : op.operation = .AddImmediate ∧ redundantMove opt op next = true := by
      simpa [skipped] using hskip
    have hrop : op.resultOperation = .MoveAndSetMethod := by
      simp only [redundantMove, Bool.and_eq_true, beq_iff_eq] at hmove
      exact hmove.1.2
    have hcode : compileData opt op next = [] := by
      simp [compileData, hop, compileAddImmediate, hmove, hrop]
    have hafter : p.after op = p := by simp [Polarity.after, hop]
    rw [execute_eq (by simp [Opcode.hasResult, hop]), hrop] at hx
    cases hx
    rw [hcode, hafter, dirtyAfter, if_pos hskip]
    have hcompute : (d.compute env op).2 = d := by simp [Data.compute, hop]
    rw [hcompute]
    exact h.skip (fun r hr => (hdirty r hr).2) _
  | false =>
    rw [dirtyAfter, if_neg (by simp [hskip])]
    cases hres : op.hasResult with
    | false =>
      have hop : op.operation = .Unused := by
        simpa [Opcode.hasResult, hb] using hres
      have hclean : dirty = none := by
        cases dirty with
        | none => rfl
        | some r => simp [safeStep, hskip, hop] at hsafe
      have hcode : compileData opt op next = [] := by simp [compileData, hop]
      have hafter : p.after op = p := by simp [Polarity.after, hop]
      have heq : d' = d := by simpa [Data.execute, hop] using hx.symm
      rw [hcode, hafter, heq, ← hclean]
      exact h
    | true =>
      by_cases hdummy : op.operation = .AddImmediate ∧ op.resultOperation = .Move ∧ op.dst = 0
      · obtain ⟨hop, hrop, hdst⟩ := hdummy
        have hclean : dirty = none := by
          cases dirty with
          | none => rfl
          | some r =>
            have hm := (hdirty r rfl).1
            rw [hrop] at hm
            cases hm
        have hcode : compileData opt op next = [] := by
          simp [compileData, hop, compileAddImmediate, hrop, hdst, hopt.skipDummyAddImmediate]
        have hafter : p.after op = p := by simp [Polarity.after, hop]
        have heq : d' = d := by
          rw [execute_eq hres, hrop, hdst] at hx
          simpa [Data.processResult, Data.setRegister, Data.compute, hop] using hx.symm
        rw [hcode, hafter, heq, ← hclean]
        exact h
      · exact agree_result hopt h hcf hdirty huses hres hskip hdummy hsafe hx

end

end Step

def Opcode.fetches (op : Opcode) : ℕ :=
  if op.hasResult then
    match op.resultOperation with
    | .IgnoreAndFetch | .FetchAndSend | .FetchAndSetMethod | .MoveAndSetMethodFetchAndSend => 1
    | _ => 0
  else 0

/-- The parameters that a program without branches fetches, if it has an exit with a delay slot.  `slot` says that the
next instruction is that slot. -/
def fetchesFrom : List Opcode → Bool → Option ℕ
  | [], _ => none
  | op :: _, true => some op.fetches
  | op :: rest, false => (fetchesFrom rest op.isExit).map (op.fetches + ·)

/-- **The condition on a program**, from the current state on: every step is safe, and no dirty register is left at
the end. -/
def safeFrom {γ : Type} (env : Env γ) (opt : Optimizer) : List Opcode → Bool → Polarity → Option (Fin 8) → Data γ → Bool
  | [], _, _, _, _ => true
  | op :: rest, slot, p, dirty, d =>
      safeStep env opt op rest.head? p dirty d &&
        match d.execute env op with
        | none => true
        | some d' =>
            if slot then
              match dirtyAfter opt op rest.head? with
              | none => true
              | some r => r == 0
            else safeFrom env opt rest op.isExit (p.after op) (dirtyAfter opt op rest.head?) d'

section Run

variable {γ : Type} {env : Env γ} {scratch : ℕ → BitVec 32} {code : List Opcode} {p : Polarity}
  {d d' : Data γ} {s : X86State γ} {op : Opcode} {dirty : Option (Fin 8)} {i depth : ℕ}
  {t : List ℕ}

lemma enabled_scanFlags (code : List Opcode) : Enabled (scanFlags code) := ⟨rfl, rfl⟩

lemma uses_scanFlags (hop : code[i]? = some op) (hskip : (scanFlags code).canSkipCarry = true)
    (halu : op.operation = .ALU) : op.usesCarry = false := by
  have hall := all_eq_true.1 hskip op (mem_of_getElem? hop)
  simpa [halu, Opcode.usesCarry] using hall

variable {opt : Optimizer}

lemma overwritten_next {next : Opcode} : Overwritten (dirtyAfter opt op (some next)) next := by
  intro r hr
  unfold dirtyAfter at hr
  split at hr
  · rename_i hskip
    cases hr
    simp only [skipped, redundantMove, Bool.and_eq_true, beq_iff_eq] at hskip
    exact ⟨hskip.2.2.1, hskip.2.2.2.symm⟩
  · cases hr

lemma fetchParameter_of_lt (h : d.nextParameterIndex < env.parameters.length) :
    ∃ v, d.fetchParameter env = some (v, { d with nextParameterIndex := d.nextParameterIndex + 1 }) :=
  ⟨_, by rw [Data.fetchParameter, getElem?_eq_getElem h]; rfl⟩

@[simp] lemma setRegister_nextParameterIndex (reg : Fin 8) (v : BitVec 32) :
    (d.setRegister reg v).nextParameterIndex = d.nextParameterIndex := by
  unfold Data.setRegister
  split <;> rfl

lemma execute_of_parameters (h : d.nextParameterIndex + op.fetches ≤ env.parameters.length) :
    ∃ d', d.execute env op = some d' ∧ d'.nextParameterIndex = d.nextParameterIndex + op.fetches := by
  cases hres : op.hasResult with
  | false =>
    refine ⟨d, ?_, by simp [Opcode.fetches, hres]⟩
    cases hop : op.operation <;> simp_all [Data.execute, Opcode.hasResult]
  | true =>
    have hd := compute_data env d op
    have hindex : (d.compute env op).2.nextParameterIndex = d.nextParameterIndex := by rw [hd]
    rw [execute_eq hres]
    simp only [Opcode.fetches, hres, if_true] at h ⊢
    generalize (d.compute env op).2 = e at hindex ⊢
    generalize (d.compute env op).1 = v
    rw [← hindex] at h ⊢
    cases hrop : op.resultOperation <;> rw [hrop] at h <;> dsimp only at h
    case IgnoreAndFetch =>
      obtain ⟨w, hw⟩ := fetchParameter_of_lt h
      exact ⟨_, by rw [Data.processResult, hw]; rfl, setRegister_nextParameterIndex ..⟩
    case FetchAndSend =>
      obtain ⟨w, hw⟩ := fetchParameter_of_lt h
      exact ⟨_, by rw [Data.processResult, hw]; rfl, setRegister_nextParameterIndex ..⟩
    case FetchAndSetMethod =>
      obtain ⟨w, hw⟩ := fetchParameter_of_lt h
      exact ⟨_, by rw [Data.processResult, hw]; rfl, setRegister_nextParameterIndex ..⟩
    case MoveAndSetMethodFetchAndSend =>
      have hkeep : ((e.setRegister op.dst v).setMethodAddress v).nextParameterIndex =
          e.nextParameterIndex := setRegister_nextParameterIndex ..
      rw [← hkeep] at h ⊢
      obtain ⟨w, hw⟩ := fetchParameter_of_lt h
      exact ⟨_, by rw [Data.processResult, hw]; rfl, rfl⟩
    all_goals exact ⟨_, rfl, setRegister_nextParameterIndex ..⟩

lemma step_data (hop : code[i]? = some op) (hb : op.operation ≠ .Branch) (slot : Bool) (hx : d.execute env op = some d') :
    step (dataSem env) code (depth + 1) ⟨4 * i, none, d, t⟩ slot =
      if op.isExit && !slot then
        (step (dataSem env) code depth ⟨4 * (i + 1), none, d', t ++ [i]⟩ true).map
          fun r => (r.1, false)
      else some (⟨4 * (i + 1), none, d', t ++ [i]⟩, true) := by
  have hdiv : 4 * i / 4 = i := by omega
  have hnext : 4 * i + 4 = 4 * (i + 1) := by omega
  have hx' : (dataSem env).execute op d = some d' := hx
  rw [step]
  simp only [hdiv, hop, if_neg hb, hx', hnext]

/-- What the two sides have in common at the end. -/
structure SameResult (d : Data γ) (s : X86State γ) : Prop where
  registers : s.registers = d.registers
  zero : d.registers 0 = 0
  sends : s.sends = d.sends
  gpu : s.gpu = d.gpu

/-- The emitted code has returned with the interpreter's result. -/
structure Ends (c : Control (Data γ)) (m : Machine (X86State γ)) : Prop where
  returned : m.Returned
  trace : m.trace = c.trace
  result : SameResult c.data m.data

lemma Agree.sameResult (h : Agree opt p dirty d s) (hd : ∀ r, dirty = some r → r = 0) : SameResult d s := by
  refine ⟨funext fun r => h.registers r ?_, h.zero, h.sends, h.gpu⟩
  by_cases hr : r = 0
  · exact .inl hr
  · exact .inr fun hdirty => hr (hd r hdirty)

lemma frame_clearCarry (n : ℕ) (s : X86State γ) : Frame s ((x86Sem env scratch).clearCarry^[n] s) := by
  induction n generalizing s with
  | zero => exact .refl s
  | succ n ih =>
    have hclear : Frame s ((x86Sem env scratch).clearCarry s) := ⟨rfl, rfl, rfl, rfl, rfl, rfl⟩
    exact hclear.trans (ih _)

variable {rest : List Opcode}

/-- The condition on one instruction, taken apart. -/
lemma safeFrom_cons {slot : Bool}
    (h : safeFrom env opt (op :: rest) slot p dirty d = true) (hx : d.execute env op = some d') :
    safeStep env opt op rest.head? p dirty d = true ∧ (slot = true → ∀ r, dirtyAfter opt op rest.head? = some r → r = 0) ∧
      (slot = false → safeFrom env opt rest op.isExit (p.after op) (dirtyAfter opt op rest.head?) d' = true) := by
  rw [safeFrom, Bool.and_eq_true, hx] at h
  refine ⟨h.1, fun hs r hr => ?_, fun hs => ?_⟩
  · rw [hs, hr] at h
    simpa using h.2
  · rw [hs] at h
    simpa using h.2

lemma getElem?_of_drop (h : code.drop i = op :: rest) :
    code[i]? = some op ∧ code[i + 1]? = rest.head? ∧ code.drop (i + 1) = rest := by
  refine ⟨?_, ?_, ?_⟩
  · rw [← head?_drop, h]
    rfl
  · rw [← head?_drop, ← drop_drop, h]
    rfl
  · rw [← drop_drop, h]
    rfl

/-- The data of the emitted code behind the body of an instruction. -/
def afterBody (env : Env γ) (scratch : ℕ → BitVec 32) (code : List Opcode) (op : Opcode)
    (rest : List Opcode) (s : X86State γ) : X86State γ :=
  X86State.exec env scratch (compileData (scanFlags code) op rest.head?) 0 s

lemma goes_body {h : Holder} (hcode : code.drop i = op :: rest) (hb : op.operation ≠ .Branch) :
    Goes (x86Sem env scratch) code (At code i h s t)
      (AtTail code i op h (afterBody env scratch code op rest s) (t ++ [i])) := by
  obtain ⟨hop, hnext, -⟩ := getElem?_of_drop hcode
  rw [afterBody, ← hnext]
  exact goes_plain hop hb

variable {k : ℕ}

/-- The instruction in the delay slot of the exit: the program ends behind it. -/
lemma slot_agrees (depth : ℕ) (t : List ℕ) (hcode : code.drop i = op :: rest)
    (hb : op.operation ≠ .Branch) (hdelayed : (scanFlags code).hasDelayedPc = false)
    (h : Agree (scanFlags code) p dirty d s) (hcf : s.cf = false) (hdirty : Overwritten dirty op)
    (hk : fetchesFrom (op :: rest) true = some k)
    (hlen : d.nextParameterIndex + k ≤ env.parameters.length)
    (hsafe : safeFrom env (scanFlags code) (op :: rest) true p dirty d = true) :
    ∃ c, step (dataSem env) code (depth + 1) ⟨4 * i, none, d, t⟩ true = some (c, true) ∧
      Goes (x86Sem env scratch) code (At code i (exitHolder code) s t) (Ends c) := by
  obtain ⟨hop, -, -⟩ := getElem?_of_drop hcode
  rw [fetchesFrom, Option.some.injEq] at hk
  obtain ⟨d', hx, -⟩ := execute_of_parameters (hk ▸ hlen)
  obtain ⟨hstep, hend, -⟩ := safeFrom_cons hsafe hx
  have hag : Agree (scanFlags code) (p.after op) (dirtyAfter (scanFlags code) op rest.head?) d'
      (afterBody env scratch code op rest s) :=
    agree_step (enabled_scanFlags code) h hcf hdirty hb (uses_scanFlags hop) hstep hx
  refine ⟨⟨4 * (i + 1), none, d', t ++ [i]⟩, ?_, fun m hm => ?_⟩
  · rw [step_data hop hb true hx]
    simp
  · have hgo : Goes (x86Sem env scratch) code (At code i (exitHolder code) s t) fun m => ∃ n,
        AtEnd ((x86Sem env scratch).clearCarry^[n] (afterBody env scratch code op rest s)) (t ++ [i]) m :=
      (goes_body hcode hb).trans (goes_end (by simp [hdelayed]))
    obtain ⟨m', hreach, n, hat⟩ := hgo m hm
    refine ⟨m', hreach, hat.returned, hat.trace, ?_⟩
    rw [hat.data]
    exact (hag.congr (frame_clearCarry n _)).sameResult (hend rfl)

lemma fetchesFrom_cons (h : fetchesFrom (op :: rest) false = some k) :
    ∃ k' next rest', fetchesFrom rest op.isExit = some k' ∧ k = op.fetches + k' ∧ rest = next :: rest' := by
  rw [fetchesFrom, Option.map_eq_some_iff] at h
  obtain ⟨k', hk', rfl⟩ := h
  cases rest with
  | nil => cases hk'
  | cons next rest' => exact ⟨k', next, rest', hk', rfl, rfl⟩

/-- **The rest of a program**: the interpreter ends, and the emitted code returns with the same result.  The induction
is on the code that is left. -/
lemma run_agrees (depth : ℕ) (t : List ℕ) (hb : ∀ op ∈ code, op.operation ≠ .Branch)
    {ops : List Opcode} (hcode : code.drop i = ops)
    (h : Agree (scanFlags code) p dirty d s) (hcf : s.cf = false)
    (hdirty : ∀ op ∈ ops.head?, Overwritten dirty op) (hk : fetchesFrom ops false = some k)
    (hlen : d.nextParameterIndex + k ≤ env.parameters.length)
    (hsafe : safeFrom env (scanFlags code) ops false p dirty d = true) :
    ∃ c, run (dataSem env) code (depth + 2) ops.length ⟨4 * i, none, d, t⟩ = some (c, false) ∧
      Goes (x86Sem env scratch) code (At code i .zero s t) (Ends c) := by
  have hdelayed : (scanFlags code).hasDelayedPc = false := by
    refine any_eq_false.2 fun op hop => ?_
    simp [hb op hop]
  induction ops generalizing i p dirty d s t k with
  | nil => cases hk
  | cons op rest ih =>
    obtain ⟨hop, -, hdrop⟩ := getElem?_of_drop hcode
    have hplain := hb op (mem_of_getElem? hop)
    obtain ⟨k', next, rest', hk', rfl, rfl⟩ := fetchesFrom_cons hk
    have hfetch : d.nextParameterIndex + op.fetches ≤ env.parameters.length := by omega
    obtain ⟨d', hx, hindex⟩ := execute_of_parameters hfetch
    obtain ⟨hstep, -, hrest⟩ := safeFrom_cons hsafe hx
    have hag : Agree (scanFlags code) (p.after op) (dirtyAfter (scanFlags code) op (some next)) d'
        ((x86Sem env scratch).clearCarry (afterBody env scratch code op (next :: rest') s)) :=
      Agree.congr (agree_step (enabled_scanFlags code) h hcf (hdirty op rfl) hplain
        (uses_scanFlags hop) hstep hx) ⟨rfl, rfl, rfl, rfl, rfl, rfl⟩
    have hlen' : d'.nextParameterIndex + k' ≤ env.parameters.length := by omega
    rw [length_cons, run, step_data hop hplain false hx]
    cases he : op.isExit with
    | true =>
      rw [he] at hk' hrest
      have hnext := hb next (mem_of_getElem? (getElem?_of_drop hdrop).1)
      obtain ⟨c, hc, hgo⟩ := slot_agrees depth (t ++ [i]) hdrop hnext hdelayed hag rfl
        overwritten_next hk' hlen' (hrest rfl)
      have hlt : i + 1 < code.length :=
        (List.getElem?_eq_some_iff.1 (getElem?_of_drop hdrop).1).1
      refine ⟨c, ?_, ?_⟩
      · simp [hc]
      · exact (goes_body hcode hplain).trans ((goes_exit he hlt).trans hgo)
    | false =>
      rw [he] at hk' hrest
      obtain ⟨c, hc, hgo⟩ := ih (t := t ++ [i]) hdrop hag rfl
        (fun o ho => by cases ho; exact overwritten_next) hk' hlen' (hrest rfl)
      refine ⟨c, ?_, ?_⟩
      · simpa using hc
      · exact (goes_body hcode hplain).trans ((goes_tail hop he).trans hgo)

/-- Before the first instruction the emitted code clears its registers and fetches a parameter. -/
def prologueData (env : Env γ) (scratch : ℕ → BitVec 32) (s : X86State γ) : X86State γ :=
  (x86Sem env scratch).exec (compileFetchParameter ++ [.storeRegister 1 .eax])
    ((x86Sem env scratch).clearCarry ((x86Sem env scratch).exec
      [.xor .result .result, .xor .methodAddress .methodAddress] s))

lemma goes_prologueData (code : List Opcode) (s : X86State γ) : Goes (x86Sem env scratch) code
    (fun m => m = Machine.initial code s) (At code 0 .zero (prologueData env scratch s) []) := by
  rintro m rfl
  exact ⟨_, .head rfl (.head rfl (.head rfl (.refl _))), rfl, rfl, rfl, rfl⟩

lemma prologue_agrees (junk : Reg → BitVec 32) (g : γ) (h : 0 < env.parameters.length) :
    Agree (scanFlags code) .clear none (Data.initial env g) (prologueData env scratch (X86State.initial junk g)) ∧
      (prologueData env scratch (X86State.initial junk g)).cf = false := by
  have hhead : env.parameters.headD 0 = env.parameters[0] := by
    simp [headD_eq_head?_getD, head?_eq_getElem?, getElem?_eq_getElem h]
  have hdata : prologueData env scratch (X86State.initial junk g) =
      { X86State.initial junk g with
        eax := env.parameters[0], result := 0, methodAddress := 0, parameter := 1
        registers := Function.update (fun _ => 0) 1 env.parameters[0] } := by
    unfold prologueData
    simp only [x86Sem]
    rw [closed_fetch, exec_fetch (by exact h)]
    simp [X86State.exec, X86State.step, X86State.put, X86State.set, X86State.get, X86State.initial]
  rw [hdata]
  refine ⟨⟨fun r _ => ?_, ?_, rfl, fun _ => rfl, rfl, rfl, .inr ⟨?_, rfl⟩⟩, rfl⟩
  · simp only [Data.initial, hhead]
  · rfl
  · simp [X86State.initial]

end Run

/-- The emitted code after a number of x86 instructions, on the data of a macro. -/
def jitDataAfter {γ : Type} (env : Env γ) (scratch : ℕ → BitVec 32) (code : List Opcode)
    (s : X86State γ) (m : ℕ) : Machine (X86State γ) :=
  machineRun (x86Sem env scratch) (compile code) m (Machine.initial code s)

/-- **Interpreter and emitted code compute the same data**, for every program without branches that has an exit with a
delay slot, every GPU and every list of parameters that is long enough for the fetches, as long as every step is safe.
The interpreter ends, the emitted code returns, the eight registers and the sequence of sends are the same, and
register zero is zero. -/
theorem same_data {γ : Type} (env : Env γ) (scratch : ℕ → BitVec 32) (junk : Reg → BitVec 32)
    (g : γ) (depth : ℕ) {code : List Opcode} (hb : ∀ op ∈ code, op.operation ≠ .Branch) {k : ℕ}
    (hk : fetchesFrom code false = some k) (hlen : 1 + k ≤ env.parameters.length)
    (hsafe : safeFrom env (scanFlags code) code false .clear none (Data.initial env g) = true) :
    ∃ c m, run (dataSem env) code (depth + 2) code.length (Control.initial (Data.initial env g)) = some (c, false) ∧
      Ends c (jitDataAfter env scratch code (X86State.initial junk g) m) := by
  have hpos : 0 < env.parameters.length := by omega
  obtain ⟨hstart, hcf⟩ : Agree (scanFlags code) .clear none (Data.initial env g)
        (prologueData env scratch (X86State.initial junk g)) ∧ _ :=
    prologue_agrees junk g hpos
  have hall : code.drop 0 = code := rfl
  obtain ⟨c, hrun, hgo⟩ := run_agrees depth [] hb hall hstart hcf
    (fun _ _ r hr => by cases hr) hk hlen hsafe
  obtain ⟨_, ⟨m, rfl⟩, hends⟩ := ((goes_prologueData code _).trans hgo) _ rfl
  exact ⟨c, m, hrun, hends⟩

/-- A GPU whose state is its registers. -/
def registerFile : Gpu (BitVec 32 → BitVec 32) where
  callMethod g method value := Function.update g (method.zeroExtend 32) value
  getRegisterValue g reg := g reg

/-- The method is set twice, a sum is sent, what was sent is read back and sent on with a parameter, and the exit has
its delay slot. -/
def sendSum : List Opcode :=
  [{ nop with resultOperation := .MoveAndSetMethod, dst := 2, immediate := 7 },
    { nop with resultOperation := .MoveAndSetMethod, dst := 2, immediate := 0x1005 },
    { nop with operation := .ALU, resultOperation := .MoveAndSend, dst := 3, srcA := 1, srcB := 2 },
    { nop with
      operation := .Read, resultOperation := .FetchAndSend, dst := 4, immediate := 5, isExit := true },
    { nop with dst := 5, immediate := -1, srcA := 4 }]

/-- What a run of a macro is given here. -/
def sendEnv : Env (BitVec 32 → BitVec 32) := ⟨registerFile, [10, 20], fun _ _ => 0⟩

/-- On a concrete program both sides send the sum twice. -/
theorem same_data_send_sum :
    safeFrom sendEnv (scanFlags sendSum) sendSum false .clear none (Data.initial sendEnv fun _ => 0) = true ∧
    (run (dataSem sendEnv) sendSum 2 5 (Control.initial (Data.initial sendEnv fun _ => 0))).map
      (fun r => (r.1.data.sends, r.1.data.registers 5)) = some ([(5, 0x100f), (6, 0x100f)], 19) ∧
    ∃ c m, run (dataSem sendEnv) sendSum 2 sendSum.length
        (Control.initial (Data.initial sendEnv fun _ => 0)) = some (c, false) ∧
      Ends c (jitDataAfter sendEnv (fun _ => 0) sendSum (X86State.initial (fun _ => 0) fun _ => 0) m) := by
  refine ⟨by decide +kernel, by decide +kernel, ?_⟩
  exact same_data sendEnv (fun _ => 0) (fun _ => 0) (fun _ => 0) 0 (by decide) (k := 1)
    (by decide) (by decide) (by decide +kernel)

/-- The sum of register zero and another register, behind an instruction with another result. -/
def addZero : List Opcode :=
  [{ nop with dst := 2, immediate := 5 }, { nop with dst := 4, immediate := 7 },
    { nop with operation := .ALU, dst := 3, srcA := 0, srcB := 2, isExit := true }, nop]

/-- `0 + 5` is five in the interpreter.  The emitted code adds nothing and stores the result of the instruction before. -/
theorem add_zero_keeps_stale_result : (∀ op ∈ addZero, op.operation ≠ .Branch) ∧ fetchesFrom addZero false = some 0 ∧
    (run (dataSem sendEnv) addZero 2 4 (Control.initial (Data.initial sendEnv fun _ => 0))).map
      (fun r => (r.1.data.registers 3, r.2)) = some (5, false) ∧
    (jitDataAfter sendEnv (fun _ => 0) addZero (X86State.initial (fun _ => 0) fun _ => 0) 40).code = [.ret] ∧
    (jitDataAfter sendEnv (fun _ => 0) addZero (X86State.initial (fun _ => 0) fun _ => 0) 40).data.registers 3 = 7 :=
  ⟨by decide, by decide, by decide +kernel, by decide +kernel, by decide +kernel⟩

end Voltemu.VideoCore
