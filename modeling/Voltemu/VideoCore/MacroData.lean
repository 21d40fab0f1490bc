import Voltemu.VideoCore.MacroX86

/-!
# The data of a macro

Interpreter and emitted code on the same data, for programs without branches.

* `Agree` relates the two.  While a redundant method move is skipped, one register is *dirty*: it and the method
  address are not up to date in the emitted code.
* The carry of a subtraction is a borrow on the host and its complement in the interpreter.  `Polarity` follows what is
  known about the two flags along the program.
* `safeStep` names the steps on which the shortcuts of the emitted code compute what the interpreter computes.
-/

namespace Voltemu.VideoCore

open Function X86State

/-- What is known of the carry flag of the emitted code and that of the interpreter. -/
inductive Polarity
  /-- Both are clear. -/
  | clear
  /-- They are equal. -/
  | carry
  /-- They are opposite. -/
  | borrow
  /-- The host's is clear and the interpreter's is set. -/
  | noBorrow
  | unknown
deriving DecidableEq

namespace Polarity

/-- The relation between the two flags. -/
def Holds : Polarity → Bool → Bool → Prop
  | .clear, host, guest => host = false ∧ guest = false
  | .carry, host, guest => host = guest
  | .borrow, host, guest => host = !guest
  | .noBorrow, host, guest => host = false ∧ guest = true
  | .unknown, _, _ => True

/-- The host adds the carry that the interpreter adds. -/
def adds : Polarity → Bool
  | .clear | .carry => true
  | _ => false

/-- The host subtracts the borrow that the interpreter subtracts. -/
def subtracts : Polarity → Bool
  | .borrow | .noBorrow => true
  | _ => false

def after (p : Polarity) (op : Opcode) : Polarity :=
  if op.operation ≠ .ALU then p
  else match op.aluOperation with
    | .Add => if op.srcA ≠ 0 ∧ op.srcB ≠ 0 then .carry else .clear
    | .AddWithCarry => if p.adds then .carry else .unknown
    | .Subtract =>
        if op.srcA ≠ 0 ∧ op.srcB ≠ 0 then .borrow
        -- nothing is emitted: the host's flag keeps its value
        else if op.srcB = 0 ∧ (p = .clear ∨ p = .noBorrow) then .noBorrow
        else .unknown
    | .SubtractWithBorrow => if p.subtracts then .borrow else .unknown
    | _ => p

variable {p : Polarity} {guest host : Bool}

lemma Holds.adds (h : p.Holds host guest) (ha : p.adds = true) : host = guest := by
  cases p with
  | clear => exact h.1.trans h.2.symm
  | carry => exact h
  | _ => cases ha

lemma Holds.subtracts (h : p.Holds host guest) (hs : p.subtracts = true) : host = !guest := by
  cases p with
  | borrow => exact h
  | noBorrow => rw [h.1, h.2]; rfl
  | _ => cases hs

end Polarity

/-- The instruction goes through `ProcessResult`. -/
def Opcode.hasResult (op : Opcode) : Bool :=
  op.operation != .Unused && op.operation != .Branch

/-- The result of the instruction goes somewhere. -/
def Opcode.resultUsed (op : Opcode) : Bool :=
  op.resultOperation != .IgnoreAndFetch && !(op.resultOperation == .Move && op.dst == 0)

def Opcode.reads (op : Opcode) (r : Fin 8) : Bool :=
  match op.operation with
  | .AddImmediate | .Read => op.srcA == r
  | .Unused | .Branch => false
  | _ => op.srcA == r || op.srcB == r

/-- The emitted code skips the instruction as a redundant method move. -/
def skipped (opt : Optimizer) (op : Opcode) (next : Option Opcode) : Bool :=
  op.operation == .AddImmediate && redundantMove opt op next

/-- The result that the emitted code computes is the interpreter's. -/
def resultSafe {γ : Type} (op : Opcode) (p : Polarity) (d : Data γ) : Bool :=
  match op.operation with
  | .ALU =>
      match op.aluOperation with
      | .Add | .Subtract | .Xor | .Or => op.srcA != 0
      | .And | .AndNot | .Nand => op.srcA != 0 && op.srcB != 0
      | .AddWithCarry => p.adds
      | .SubtractWithBorrow => p.subtracts
      | .invalid => false
  | .AddImmediate | .Read => op.immediate != 2 || op.srcA == 0
  | .ExtractShiftLeftImmediate | .ExtractShiftLeftRegister =>
      decide ((d.registers op.srcA).toNat < 32)
  | _ => true

/-- The method address of the value that an instruction sends, if it sends one. -/
def sendAddress {γ : Type} (env : Env γ) (op : Opcode) (d : Data γ) : Option (BitVec 32) :=
  match op.resultOperation with
  | .FetchAndSend | .MoveAndSend => some d.methodAddress
  | .MoveAndSetMethodFetchAndSend | .MoveAndSetMethodSend => some (d.compute env op).1
  | _ => none

/-- **The steps on which the emitted code does what the interpreter does.** -/
def safeStep {γ : Type} (env : Env γ) (opt : Optimizer) (op : Opcode) (next : Option Opcode)
    (p : Polarity) (dirty : Option (Fin 8)) (d : Data γ) : Bool :=
  skipped opt op next ||
    (match dirty with
      | none => true
      | some r => op.operation != .Unused && (r == 0 || !op.reads r)) &&
    (!op.hasResult || ((!op.resultUsed || resultSafe op p d) &&
      (match sendAddress env op d with
        | none => true
        | some raw => methodSafe raw)))

def dirtyAfter (opt : Optimizer) (op : Opcode) (next : Option Opcode) : Option (Fin 8) :=
  if skipped opt op next then some op.dst else none

/-- **The data of the interpreter and of the emitted code agree**, up to a dirty register. -/
structure Agree {γ : Type} (opt : Optimizer) (p : Polarity) (dirty : Option (Fin 8)) (d : Data γ)
    (s : X86State γ) : Prop where
  registers : ∀ r, r = 0 ∨ dirty ≠ some r → s.registers r = d.registers r
  zero : d.registers 0 = 0
  parameter : s.parameter = d.nextParameterIndex
  method : dirty = none → lowBits s.methodAddress = lowBits d.methodAddress
  gpu : s.gpu = d.gpu
  sends : s.sends = d.sends
  carry : opt.canSkipCarry = true ∨ p.Holds (s.carryFlag.getLsbD 0) d.carryFlag

section Process

variable {γ : Type} {env : Env γ} {scratch : ℕ → BitVec 32} {opt : Optimizer} {p : Polarity}
  {d d' : Data γ} {s s' : X86State γ}

variable {dirty : Option (Fin 8)} {v : BitVec 32}

/-- The relation looks at the lasting parts of the state only. -/
lemma Agree.congr (h : Agree opt p dirty d s) (hf : Frame s s') : Agree opt p dirty d s' where
  registers r hr := hf.registers ▸ h.registers r hr
  zero := h.zero
  parameter := hf.parameter.trans h.parameter
  method hd := hf.methodAddress ▸ h.method hd
  gpu := hf.gpu.trans h.gpu
  sends := hf.sends.trans h.sends
  carry := hf.carryFlag ▸ h.carry

lemma Agree.setRegister (h : Agree opt p none d s) (reg : Fin 8) (v : BitVec 32) :
    Agree opt p none (d.setRegister reg v)
      { s with registers := if reg = 0 then s.registers else update s.registers reg v } := by
  have hregs : s.registers = d.registers := funext fun r => h.registers r (.inr (by simp))
  unfold Data.setRegister
  by_cases hr : reg = 0
  · rw [if_pos hr]
    exact ⟨fun r _ => by simp [hr, hregs], h.zero, h.parameter, h.method, h.gpu, h.sends, h.carry⟩
  · rw [if_neg hr]
    refine ⟨fun r _ => by simp [hr, hregs], ?_, h.parameter, h.method, h.gpu, h.sends, h.carry⟩
    exact (update_of_ne (Ne.symm hr) ..).trans h.zero

lemma Agree.moveAndSetMethod (h : Agree opt p dirty d s) (reg : Fin 8)
    (v : BitVec 32) (hd : ∀ r, dirty = some r → reg = r) :
    Agree opt p none ((d.setRegister reg v).setMethodAddress v)
      { s with
        registers := if reg = 0 then s.registers else update s.registers reg v
        methodAddress := v } := by
  have hclean : ∀ r, r ≠ reg ∨ r = 0 → s.registers r = d.registers r := by
    intro r hr
    refine h.registers r (hr.symm.imp_right fun hne hdirty => ?_)
    exact hne (hd r hdirty).symm
  unfold Data.setRegister Data.setMethodAddress
  by_cases hr : reg = 0
  · simp only [if_pos hr]
    refine ⟨fun r _ => ?_, h.zero, h.parameter, fun _ => rfl, h.gpu, h.sends, h.carry⟩
    by_cases hr' : r = 0
    · exact hclean r (.inr hr')
    · exact hclean r (.inl (hr ▸ hr'))
  · simp only [if_neg hr]
    refine ⟨fun r _ => ?_, ?_, h.parameter, fun _ => rfl, h.gpu, h.sends, h.carry⟩
    · by_cases hr' : r = reg
      · subst hr'
        simp
      · simp [update_of_ne hr', hclean r (.inl hr')]
    · exact (update_of_ne (Ne.symm hr) ..).trans h.zero

lemma Agree.setMethodAddress (h : Agree opt p none d s) (v : BitVec 32) :
    Agree opt p none (d.setMethodAddress v) { s with methodAddress := v } :=
  ⟨h.registers, h.zero, h.parameter, fun _ => rfl, h.gpu, h.sends, h.carry⟩

variable {value : BitVec 32}

lemma Agree.fetch (h : Agree opt p none d s) (hf : d.fetchParameter env = some (value, d')) :
    (X86State.exec env scratch compileFetchParameter 0 s).eax = value ∧
      (X86State.exec env scratch compileFetchParameter 0 s).result = s.result ∧
      Agree opt p none d' (X86State.exec env scratch compileFetchParameter 0 s) := by
  unfold Data.fetchParameter at hf
  obtain ⟨v, hv, heq⟩ := Option.map_eq_some_iff.1 hf
  cases heq
  obtain ⟨hlt, rfl⟩ := List.getElem?_eq_some_iff.1 hv
  have hlt' : s.parameter < env.parameters.length := by
    rw [h.parameter]
    exact hlt
  rw [exec_fetch hlt']
  refine ⟨by simp only [h.parameter], rfl, ?_⟩
  exact ⟨h.registers, h.zero, congrArg (· + 1) h.parameter, h.method, h.gpu, h.sends, h.carry⟩

lemma methodSafe_congr {x y : BitVec 32} (h : lowBits x = lowBits y) : methodSafe x = methodSafe y := by
  simp only [methodSafe, address_toNat, increment_toNat, h]

lemma Agree.send (h : Agree opt p none d s) (hs : methodSafe d.methodAddress = true) (hspec : SendSpec env value s s') :
    Agree opt p none (d.send env value) s' := by
  have hlow := h.method rfl
  have haddr : Data.address s.methodAddress = Data.address d.methodAddress :=
    BitVec.eq_of_toNat_eq (by rw [address_toNat, address_toNat, hlow])
  refine ⟨fun r hr => ?_, h.zero, hspec.parameter.trans h.parameter, fun _ => ?_, ?_, ?_, ?_⟩
  · exact (congrFun hspec.registers r).trans (h.registers r hr)
  · rw [hspec.methodAddress, lowBits_nextMethod ((methodSafe_congr hlow).trans hs), lowBits_send, hlow]
  · rw [hspec.gpu, haddr, h.gpu]
    rfl
  · rw [hspec.sends, haddr, h.sends]
    rfl
  · rw [hspec.carryFlag]
    exact h.carry

@[simp] lemma setRegister_methodAddress (reg : Fin 8) (v : BitVec 32) :
    (d.setRegister reg v).methodAddress = d.methodAddress := by
  unfold Data.setRegister
  split <;> rfl

lemma fetchParameter_methodAddress (h : d.fetchParameter env = some (v, d')) : d'.methodAddress = d.methodAddress := by
  obtain ⟨w, -, hw⟩ := Option.map_eq_some_iff.1 h
  cases hw
  rfl

lemma Agree.setRegister_block (h : Agree opt p none d s) (reg : Fin 8) (src : Reg) (hv : s.get src = v) :
    Agree opt p none (d.setRegister reg v) (X86State.exec env scratch (compileSetRegister reg src) 0 s) ∧
      (X86State.exec env scratch (compileSetRegister reg src) 0 s).result = s.result := by
  rw [exec_setRegister, hv]
  exact ⟨h.setRegister reg v, rfl⟩

lemma Agree.send_block (h : Agree opt p none d s) (src : Reg) (hv : s.get src = v)
    (hs : methodSafe d.methodAddress = true) :
    Agree opt p none (d.send env v) (X86State.exec env scratch (compileSend src) 0 s) :=
  h.send hs (hv ▸ exec_send src s)

lemma closed_moveAndSetMethod (reg : Fin 8) :
    Closed env scratch (compileSetRegister reg .result ++ [.movReg .methodAddress .result]) :=
  (closed_setRegister reg .result).append (closed_of_no_jump (by simp [X86.isJump]))

lemma Agree.move_block (h : Agree opt p dirty d s)
    (reg : Fin 8) (hv : s.result = v) (hd : ∀ r, dirty = some r → reg = r) :
    Agree opt p none ((d.setRegister reg v).setMethodAddress v)
        (X86State.exec env scratch (compileSetRegister reg .result ++ [.movReg .methodAddress .result]) 0 s) ∧
      (X86State.exec env scratch
        (compileSetRegister reg .result ++ [.movReg .methodAddress .result]) 0 s).result = v := by
  have hexec : X86State.exec env scratch (compileSetRegister reg .result ++ [.movReg .methodAddress .result]) 0 s =
      { s with
        registers := if reg = 0 then s.registers else update s.registers reg s.result
        methodAddress := s.result } := by
    rw [closed_setRegister, exec_setRegister]
    rfl
  have hmove := h.moveAndSetMethod reg v hd
  rw [← hv] at hmove ⊢
  rw [hexec]
  exact ⟨hmove, rfl⟩

/-- **`Compile_ProcessResult` does what `ProcessResult` does**, given the same result. -/
lemma process_agrees {rop : ResultOperation} {reg : Fin 8} {result : BitVec 32} (h : Agree opt p dirty d s)
    (hdirty : ∀ r, dirty = some r → rop = .MoveAndSetMethod ∧ reg = r)
    (hres : rop ≠ .IgnoreAndFetch → (rop = .Move → reg ≠ 0) → s.result = result)
    (hsafe : rop = .FetchAndSend ∨ rop = .MoveAndSend → methodSafe d.methodAddress = true)
    (hsafe' : rop = .MoveAndSetMethodFetchAndSend ∨ rop = .MoveAndSetMethodSend → methodSafe result = true)
    (hx : d.processResult env rop reg result = some d') :
    Agree opt p none d' (X86State.exec env scratch (compileProcessResult rop reg) 0 s) := by
  have hclean : rop ≠ .MoveAndSetMethod → dirty = none := by
    intro hne
    cases dirty with
    | none => rfl
    | some r => exact absurd (hdirty r rfl).1 hne
  cases rop with
  | IgnoreAndFetch =>
    obtain ⟨⟨v, d1⟩, hfetch, rfl⟩ := Option.map_eq_some_iff.1 hx
    rw [hclean (by simp)] at h
    obtain ⟨heax, -, hag⟩ := h.fetch hfetch
    rw [compileProcessResult, closed_fetch]
    exact (hag.setRegister_block reg .eax heax).1
  | Move =>
    cases hx
    rw [hclean (by simp)] at h
    rw [compileProcessResult]
    by_cases hr : reg = 0
    · rw [exec_setRegister]
      simpa [Data.setRegister, hr] using h
    · exact (h.setRegister_block reg .result (hres (by simp) fun _ => hr)).1
  | MoveAndSetMethod =>
    cases hx
    rw [compileProcessResult]
    exact (h.move_block reg (hres (by simp) (by simp)) fun r hr => (hdirty r hr).2).1
  | FetchAndSend =>
    obtain ⟨⟨v, d1⟩, hfetch, rfl⟩ := Option.map_eq_some_iff.1 hx
    rw [hclean (by simp)] at h
    obtain ⟨heax, hkeep, hag⟩ := h.fetch hfetch
    obtain ⟨hset, hkeep'⟩ := hag.setRegister_block reg .eax heax
    rw [compileProcessResult, closed_fetch.append (closed_setRegister reg .eax), closed_fetch]
    refine hset.send_block .result ?_ ?_
    · exact (hkeep'.trans hkeep).trans (hres (by simp) (by simp))
    · rw [setRegister_methodAddress, fetchParameter_methodAddress hfetch]
      exact hsafe (.inl rfl)
  | MoveAndSend =>
    cases hx
    rw [hclean (by simp)] at h
    have hresult := hres (by simp) (by simp)
    obtain ⟨hset, hkeep⟩ := h.setRegister_block reg .result hresult
    rw [compileProcessResult, closed_setRegister]
    refine hset.send_block .result (hkeep.trans hresult) ?_
    rw [setRegister_methodAddress]
    exact hsafe (.inr rfl)
  | FetchAndSetMethod =>
    obtain ⟨⟨v, d1⟩, hfetch, rfl⟩ := Option.map_eq_some_iff.1 hx
    rw [hclean (by simp)] at h
    obtain ⟨heax, hkeep, hag⟩ := h.fetch hfetch
    obtain ⟨hset, hkeep'⟩ := hag.setRegister_block reg .eax heax
    rw [compileProcessResult, closed_fetch.append (closed_setRegister reg .eax), closed_fetch]
    rw [← (hkeep'.trans hkeep).trans (hres (by simp) (by simp))]
    exact hset.setMethodAddress _
  | MoveAndSetMethodFetchAndSend =>
    obtain ⟨⟨v, d1⟩, hfetch, rfl⟩ := Option.map_eq_some_iff.1 hx
    obtain ⟨hmove, -⟩ := h.move_block reg (hres (by simp) (by simp)) fun r hr =>
      absurd (hdirty r hr).1 (by simp)
    obtain ⟨heax, -, hag⟩ := hmove.fetch hfetch
    rw [compileProcessResult, (closed_moveAndSetMethod reg).append closed_fetch, closed_moveAndSetMethod]
    refine hag.send_block .eax heax ?_
    rw [fetchParameter_methodAddress hfetch]
    exact hsafe' (.inl rfl)
  | MoveAndSetMethodSend =>
    cases hx
    obtain ⟨hmove, hkeep⟩ := h.move_block reg (hres (by simp) (by simp)) fun r hr =>
      absurd (hdirty r hr).1 (by simp)
    have hshift : Closed env scratch [X86.shrImm .result 12, .andImm .result 0b111111] :=
      closed_of_no_jump (by simp [X86.isJump])
    rw [compileProcessResult, (closed_moveAndSetMethod reg).append hshift, closed_moveAndSetMethod]
    refine (hmove.congr ?_).send_block .result ?_ (hsafe' (.inr rfl))
    · exact ⟨rfl, rfl, rfl, rfl, rfl, rfl⟩
    · rw [← hkeep]
      rfl

end Process

section Compute

variable {γ : Type} {env : Env γ} {scratch : ℕ → BitVec 32} {opt : Optimizer} {p : Polarity}
  {d : Data γ} {s s' s'' : X86State γ} {op : Opcode}

lemma Frame.refl (s : X86State γ) : Frame s s := ⟨rfl, rfl, rfl, rfl, rfl, rfl⟩

lemma Frame.trans (h : Frame s s') (h' : Frame s' s'') : Frame s s'' :=
  ⟨h'.registers.trans h.registers, h'.methodAddress.trans h.methodAddress,
    h'.carryFlag.trans h.carryFlag, h'.parameter.trans h.parameter, h'.gpu.trans h.gpu,
    h'.sends.trans h.sends⟩

variable {r : Reg}

section

variable (hr : r ≠ .methodAddress)
include hr

lemma frame_set (v : BitVec 32) : Frame s (s.set r v) := by
  cases r with
  | methodAddress => exact absurd rfl hr
  | _ => exact ⟨rfl, rfl, rfl, rfl, rfl, rfl⟩

lemma frame_put (v : BitVec 32) (cf : Bool) : Frame s (s.put r v cf) := by
  cases r with
  | methodAddress => exact absurd rfl hr
  | _ => exact ⟨rfl, rfl, rfl, rfl, rfl, rfl⟩

lemma frame_shr (n : ℕ) : Frame s (s.shr r n) := by
  unfold shr
  split
  · exact .refl s
  · exact frame_put hr ..

lemma frame_shl (n : ℕ) : Frame s (s.shl r n) := by
  unfold shl
  split
  · exact .refl s
  · exact frame_put hr ..

/-- The registers that do not outlast an instruction. -/
lemma frame_load (index : Fin 8) : Frame s (s.load index r) := by
  unfold load
  split
  · exact frame_put hr ..
  · exact frame_set hr _

end

lemma get_load (h0 : s.registers 0 = 0) (index : Fin 8) (r : Reg) : (s.load index r).get r = s.registers index := by
  unfold load
  split
  · rename_i h
    rw [h, h0]
    cases r <;> rfl
  · cases r <;> rfl

lemma get_load_ne (r' : Reg) (h : r' ≠ r) (index : Fin 8) : (s.load index r).get r' = s.get r' := by
  unfold load
  split <;> cases r <;> cases r' <;> first | rfl | exact absurd rfl h

lemma cf_load (h : s.cf = false) (index : Fin 8) (r : Reg) : (s.load index r).cf = false := by
  unfold load
  split
  · rfl
  · cases r <;> exact h

/-- The operation uses the carry flag, so both operands are loaded. -/
def Opcode.usesCarry (op : Opcode) : Bool :=
  op.aluOperation == .AddWithCarry || op.aluOperation == .SubtractWithBorrow

/-- What `Compile_ALU` has loaded before the operation. -/
structure Operands (op : Opcode) (s s' : X86State γ) : Prop where
  frame : Frame s s'
  cf : s'.cf = false
  srcA : op.srcA ≠ 0 ∨ op.usesCarry = true → s'.result = s.registers op.srcA
  srcB : op.srcB ≠ 0 ∨ op.usesCarry = true → s'.eax = s.registers op.srcB

lemma operands_spec (hz : opt.zeroRegSkip = true) (h0 : s.registers 0 = 0) (hcf : s.cf = false) :
    Operands op s (X86State.exec env scratch (compileOperands opt op) 0 s) := by
  have hne : Reg.result ≠ .methodAddress := by simp
  have hne' : Reg.eax ≠ .methodAddress := by simp
  -- both operands
  have hboth : Operands op s ((s.load op.srcA .result).load op.srcB .eax) := by
    have hframe := frame_load (s := s) hne op.srcA
    refine ⟨hframe.trans (frame_load hne' _), cf_load (cf_load hcf ..) .., fun _ => ?_,
      fun _ => ?_⟩
    · exact (get_load_ne .result (by simp) _).trans (get_load h0 op.srcA .result)
    · refine (get_load (by rw [hframe.registers, h0]) op.srcB .eax).trans ?_
      rw [hframe.registers]
  unfold compileOperands
  by_cases hc : op.usesCarry = true
  · rw [if_pos (by simpa [Opcode.usesCarry, hz] using hc), closed_getRegister, exec_getRegister, exec_getRegister]
    exact hboth
  · rw [if_neg (by simpa [Opcode.usesCarry, hz] using hc)]
    by_cases ha : op.srcA = 0 <;> by_cases hb : op.srcB = 0
    · rw [if_neg (by simpa using ha), if_neg (by simpa using hb)]
      exact ⟨.refl s, hcf, fun h => by simp_all, fun h => by simp_all⟩
    · rw [if_neg (by simpa using ha), if_pos hb, List.nil_append, exec_getRegister]
      exact ⟨frame_load hne' _, cf_load hcf .., fun h => by simp_all,
        fun _ => get_load h0 op.srcB .eax⟩
    · rw [if_pos ha, if_neg (by simpa using hb), List.append_nil, exec_getRegister]
      exact ⟨frame_load hne _, cf_load hcf .., fun _ => get_load h0 op.srcA .result,
        fun h => by simp_all⟩
    · rw [if_pos ha, if_pos hb, closed_getRegister, exec_getRegister, exec_getRegister]
      exact hboth

/-- What the part of an instruction before `Compile_ProcessResult` does. -/
structure Computed (env : Env γ) (opt : Optimizer) (p : Polarity) (op : Opcode) (d : Data γ)
    (s s' : X86State γ) : Prop where
  registers : s'.registers = s.registers
  methodAddress : s'.methodAddress = s.methodAddress
  parameter : s'.parameter = s.parameter
  gpu : s'.gpu = s.gpu
  sends : s'.sends = s.sends
  result : resultSafe op p d = true → s'.result = (d.compute env op).1
  carry : opt.canSkipCarry = true ∨ (p.after op).Holds (s'.carryFlag.getLsbD 0) (d.compute env op).2.carryFlag

/-- A part that leaves the carry alone on both sides. -/
lemma Computed.of_frame (hf : Frame s s') (hres : resultSafe op p d = true → s'.result = (d.compute env op).1)
    (hp : p.after op = p) (hc : (d.compute env op).2.carryFlag = d.carryFlag)
    (h : opt.canSkipCarry = true ∨ p.Holds (s.carryFlag.getLsbD 0) d.carryFlag) :
    Computed env opt p op d s s' :=
  ⟨hf.registers, hf.methodAddress, hf.parameter, hf.gpu, hf.sends, hres, by
    rw [hp, hc, hf.carryFlag]
    exact h⟩

lemma setc_bit (c : BitVec 32) (cf : Bool) : ((c &&& 0xffffff00) ||| (if cf then 1 else 0)).getLsbD 0 = cf := by
  cases cf <;> simp

/-- The carry of a subtraction is the complement of the host's borrow. -/
lemma sub_carry (a b : BitVec 32) (c : ℕ) (hc : c ≤ 1) :
    decide (a.toNat < b.toNat + c) =
      !decide ((a.zeroExtend 64 - b.zeroExtend 64 - BitVec.ofNat 64 c).toNat < 0x100000000) := by
  have htoNat : (a.zeroExtend 64 - b.zeroExtend 64 - BitVec.ofNat 64 c).toNat =
      (2 ^ 64 - c + (2 ^ 64 - b.toNat + a.toNat)) % 2 ^ 64 := by
    simp only [BitVec.toNat_sub, BitVec.toNat_setWidth, BitVec.toNat_ofNat]
    omega
  rw [htoNat]
  by_cases hlt : a.toNat < b.toNat + c
  · rw [decide_eq_true hlt, decide_eq_false (by omega), Bool.not_false]
  · rw [decide_eq_false hlt, decide_eq_true (by omega), Bool.not_true]

lemma closed_operands : Closed env scratch (compileOperands opt op) := by
  unfold compileOperands
  split
  · exact (closed_getRegister _ _).append (closed_getRegister _ _)
  · refine Closed.append ?_ ?_
    · split
      · exact closed_getRegister _ _
      · exact closed_of_no_jump (by simp)
    · split
      · exact closed_getRegister _ _
      · exact closed_of_no_jump (by simp)

/-- The operands of an ALU instruction on both sides. -/
structure SameOperands (opt : Optimizer) (p : Polarity) (op : Opcode) (d : Data γ)
    (s : X86State γ) : Prop where
  operation : op.operation = .ALU
  zeroRegSkip : opt.zeroRegSkip = true
  zero : d.registers 0 = 0#32
  srcA : s.registers op.srcA = d.registers op.srcA
  srcB : s.registers op.srcB = d.registers op.srcB
  carry : opt.canSkipCarry = true ∨ p.Holds (s.carryFlag.getLsbD 0) d.carryFlag

lemma computed_of_body {body : List X86} {s1 : X86State γ} (hops : Operands op s s')
    (hcode : compileAluOperation opt op = body ++ if opt.canSkipCarry then [] else [.setcCarryFlag])
    (hjump : ∀ x ∈ body, x.isJump = false)
    (hexec : X86State.exec env scratch body 0 s' = s1) (hframe : Frame s' s1)
    (hres : resultSafe op p d = true → s1.result = (d.compute env op).1)
    (hcarry : (p.after op).Holds s1.cf (d.compute env op).2.carryFlag) :
    Computed env opt p op d s (X86State.exec env scratch (compileAluOperation opt op) 0 s') := by
  have hf := hops.frame.trans hframe
  rw [hcode, closed_of_no_jump hjump, hexec]
  cases hskip : opt.canSkipCarry with
  | true =>
    exact ⟨hf.registers, hf.methodAddress, hf.parameter, hf.gpu, hf.sends, hres, .inl hskip⟩
  | false =>
    refine ⟨hf.registers, hf.methodAddress, hf.parameter, hf.gpu, hf.sends, hres, .inr ?_⟩
    refine (congrArg (fun bit => (p.after op).Holds bit _) ?_).mpr hcarry
    exact setc_bit ..

section Operations

variable (same : SameOperands opt p op d s) (hops : Operands op s s')
include same hops

/-- A first operand that is there, and a second one that is zero. -/
lemma result_of_alone (hA : op.srcA ≠ 0) (hv : ¬ (op.srcA ≠ 0 ∧ op.srcB ≠ 0)) :
    s'.result = d.registers op.srcA ∧ d.registers op.srcB = 0#32 := by
  have hB : op.srcB = 0 := by
    by_contra hB
    exact hv ⟨hA, hB⟩
  rw [hB]
  exact ⟨(hops.srcA (.inl hA)).trans same.srcA, same.zero⟩

lemma add_computed (halu : op.aluOperation = .Add) :
    Computed env opt p op d s (X86State.exec env scratch (compileAluOperation opt op) 0 s') := by
  have hz := same.zeroRegSkip
  have hcompute : d.compute env op = (d.registers op.srcA + d.registers op.srcB,
      { d with carryFlag := decide (0xffffffff <
        (d.registers op.srcA).toNat + (d.registers op.srcB).toNat) }) := by
    simp [Data.compute, same.operation, halu, Data.aluResult]
  by_cases hv : op.srcA ≠ 0 ∧ op.srcB ≠ 0
  · have hA := (hops.srcA (.inl hv.1)).trans same.srcA
    have hB := (hops.srcB (.inl hv.2)).trans same.srcB
    have hcode : compileAluOperation opt op =
        [.add .result .eax] ++ if opt.canSkipCarry then [] else [.setcCarryFlag] := by
      simp [compileAluOperation, halu, hv]
    have hafter : p.after op = .carry := by simp [Polarity.after, same.operation, halu, hv]
    refine computed_of_body hops hcode (by simp [X86.isJump]) rfl
      (frame_put (r := .result) (by simp) ..) ?_ ?_
    · intro _
      rw [hcompute]
      simp [X86State.exec, X86State.step, X86State.adc, X86State.put, X86State.set, X86State.get, hA, hB]
    · rw [hafter, hcompute]
      change (s'.adc .result s'.eax 0).cf = _
      simp only [X86State.adc, X86State.put, X86State.get, hA, hB, Nat.add_zero]
      congr 1
  · -- one operand is register zero: nothing is added, and there is no carry
    have hcode : compileAluOperation opt op = [] ++ if opt.canSkipCarry then [] else [.setcCarryFlag] := by
      simp only [compileAluOperation, halu, hz, Bool.not_true, Bool.false_eq_true, false_or, if_neg hv]
    have hafter : p.after op = .clear := by
      simp only [Polarity.after, same.operation, halu, if_neg hv]
      rfl
    refine computed_of_body hops hcode (by simp) rfl (.refl _) (fun hsafe => ?_) ?_
    · have hA : op.srcA ≠ 0 := by simpa [resultSafe, same.operation, halu] using hsafe
      obtain ⟨hresult, hB⟩ := result_of_alone same hops hA hv
      rw [hcompute]
      exact hresult.trans (by rw [hB, BitVec.add_zero])
    · have hA := (d.registers op.srcA).isLt
      rw [hafter, hcompute]
      refine ⟨hops.cf, decide_eq_false ?_⟩
      rcases not_and_or.1 hv with h | h
      · rw [not_not.1 h, same.zero, BitVec.toNat_zero]
        omega
      · rw [not_not.1 h, same.zero, BitVec.toNat_zero]
        omega

lemma sub_computed (halu : op.aluOperation = .Subtract) :
    Computed env opt p op d s (X86State.exec env scratch (compileAluOperation opt op) 0 s') := by
  have hz := same.zeroRegSkip
  have hf := hops.frame
  have hcompute : d.compute env op = (d.registers op.srcA - d.registers op.srcB,
      { d with carryFlag := decide (((d.registers op.srcA).zeroExtend 64 -
        (d.registers op.srcB).zeroExtend 64).toNat < 0x100000000) }) := by
    simp [Data.compute, same.operation, halu, Data.aluResult]
  have hborrow := sub_carry (d.registers op.srcA) (d.registers op.srcB) 0 (by omega)
  rw [BitVec.sub_zero, Nat.add_zero] at hborrow
  by_cases hv : op.srcA ≠ 0 ∧ op.srcB ≠ 0
  · have hA := (hops.srcA (.inl hv.1)).trans same.srcA
    have hB := (hops.srcB (.inl hv.2)).trans same.srcB
    have hcode : compileAluOperation opt op =
        [.sub .result .eax] ++ if opt.canSkipCarry then [] else [.setcCarryFlag] := by
      simp [compileAluOperation, halu, hv]
    have hafter : p.after op = .borrow := by simp [Polarity.after, same.operation, halu, hv]
    refine computed_of_body hops hcode (by simp [X86.isJump]) rfl
      (frame_put (r := .result) (by simp) ..) ?_ ?_
    · intro _
      rw [hcompute]
      simp [X86State.exec, X86State.step, X86State.sbb, X86State.put, X86State.set, X86State.get, hA, hB]
    · rw [hafter, hcompute]
      refine Eq.trans ?_ hborrow
      change (s'.sbb .result s'.eax 0).cf = _
      simp [X86State.sbb, X86State.put, X86State.get, hA, hB]
  · -- nothing is emitted
    have hcode : compileAluOperation opt op = [] := by
      simp only [compileAluOperation, halu, hz, Bool.not_true, Bool.false_eq_true, false_or, if_neg hv]
    rw [hcode]
    refine ⟨hf.registers, hf.methodAddress, hf.parameter, hf.gpu, hf.sends, fun hsafe => ?_, ?_⟩
    · have hA : op.srcA ≠ 0 := by simpa [resultSafe, same.operation, halu] using hsafe
      obtain ⟨hresult, hB⟩ := result_of_alone same hops hA hv
      rw [hcompute]
      exact hresult.trans (by rw [hB, BitVec.sub_zero])
    · refine same.carry.imp_right fun hold => ?_
      have hafter : p.after op =
          if op.srcB = 0 ∧ (p = .clear ∨ p = .noBorrow) then .noBorrow else .unknown := by
        simp only [Polarity.after, same.operation, halu, if_neg hv]
        rfl
      rw [hafter, hcompute]
      split
      · rename_i hb
        refine ⟨?_, ?_⟩
        · change s'.carryFlag.getLsbD 0 = false
          rw [hf.carryFlag]
          rcases hb.2 with rfl | rfl
          · exact hold.1
          · exact hold.1
        · rw [hb.1, same.zero] at hborrow ⊢
          simpa using hborrow
      · trivial

lemma carry_operands (hcarryOp : op.usesCarry = true) (huses : opt.canSkipCarry = true → op.usesCarry = false) :
    s'.result = d.registers op.srcA ∧ s'.eax = d.registers op.srcB ∧ opt.canSkipCarry = false ∧
      p.Holds (s.carryFlag.getLsbD 0) d.carryFlag := by
  have hskip : opt.canSkipCarry = false := by
    by_contra hskip
    rw [huses (by simpa using hskip)] at hcarryOp
    cases hcarryOp
  refine ⟨(hops.srcA (.inr hcarryOp)).trans same.srcA, (hops.srcB (.inr hcarryOp)).trans same.srcB,
    hskip, same.carry.resolve_left ?_⟩
  rw [hskip]
  exact Bool.false_ne_true

lemma adc_computed (halu : op.aluOperation = .AddWithCarry) (huses : opt.canSkipCarry = true → op.usesCarry = false) :
    Computed env opt p op d s (X86State.exec env scratch (compileAluOperation opt op) 0 s') := by
  have hflag := hops.frame.carryFlag
  obtain ⟨hA, hB, hskip, hold⟩ :=
    carry_operands same hops (by simp [Opcode.usesCarry, halu]) huses
  have hcode : compileAluOperation opt op = [.btCarryFlag, .adc .result .eax] ++
      if opt.canSkipCarry then [] else [.setcCarryFlag] := by
    simp [compileAluOperation, halu, hskip]
  have hcompute : d.compute env op =
      (d.registers op.srcA + d.registers op.srcB + (if d.carryFlag then 1 else 0),
        { d with carryFlag := decide (0xffffffff < (d.registers op.srcA).toNat +
          (d.registers op.srcB).toNat + (if d.carryFlag then 1 else 0)) }) := by
    simp [Data.compute, same.operation, halu, Data.aluResult]
  refine computed_of_body hops hcode (by simp [X86.isJump]) rfl ⟨rfl, rfl, rfl, rfl, rfl, rfl⟩
    (fun hsafe => ?_) ?_
  · have hp : p.adds = true := by simpa [resultSafe, same.operation, halu] using hsafe
    have hbit := hold.adds hp
    rw [hcompute]
    simp only [X86State.exec, X86State.step, X86State.adc, X86State.put, X86State.set,
      X86State.get, carry, hA, hB, hflag, hbit]
    cases d.carryFlag <;> rfl
  · cases hp : p.adds with
    | false =>
      simp only [Polarity.after, same.operation, halu, hp]
      trivial
    | true =>
      have hbit := hold.adds hp
      have hafter : p.after op = .carry := by simp [Polarity.after, same.operation, halu, hp]
      rw [hafter, hcompute]
      simp only [Polarity.Holds, X86State.exec, X86State.step, X86State.adc, X86State.put,
        X86State.get, carry, hA, hB, hflag, hbit]
      congr 1

lemma sbb_computed (halu : op.aluOperation = .SubtractWithBorrow)
    (huses : opt.canSkipCarry = true → op.usesCarry = false) :
    Computed env opt p op d s (X86State.exec env scratch (compileAluOperation opt op) 0 s') := by
  have hflag := hops.frame.carryFlag
  obtain ⟨hA, hB, hskip, hold⟩ :=
    carry_operands same hops (by simp [Opcode.usesCarry, halu]) huses
  have hcode : compileAluOperation opt op = [.btCarryFlag, .sbb .result .eax] ++
      if opt.canSkipCarry then [] else [.setcCarryFlag] := by
    simp [compileAluOperation, halu, hskip]
  have hcompute : d.compute env op =
      (d.registers op.srcA - d.registers op.srcB - (if d.carryFlag then 0 else 1),
        { d with carryFlag := decide (((d.registers op.srcA).zeroExtend 64 -
          (d.registers op.srcB).zeroExtend 64 - (if d.carryFlag then 0 else 1)).toNat < 0x100000000) }) := by
    simp [Data.compute, same.operation, halu, Data.aluResult]
  refine computed_of_body hops hcode (by simp [X86.isJump]) rfl ⟨rfl, rfl, rfl, rfl, rfl, rfl⟩
    (fun hsafe => ?_) ?_
  · have hp : p.subtracts = true := by simpa [resultSafe, same.operation, halu] using hsafe
    have hbit := hold.subtracts hp
    rw [hcompute]
    simp only [X86State.exec, X86State.step, X86State.sbb, X86State.put, X86State.set,
      X86State.get, carry, hA, hB, hflag, hbit]
    cases d.carryFlag <;> rfl
  · cases hp : p.subtracts with
    | false =>
      simp only [Polarity.after, same.operation, halu, hp]
      trivial
    | true =>
      have hbit := hold.subtracts hp
      have hafter : p.after op = .borrow := by simp [Polarity.after, same.operation, halu, hp]
      have hborrow := sub_carry (d.registers op.srcA) (d.registers op.srcB)
        (if d.carryFlag then 0 else 1) (by split <;> omega)
      rw [hafter, hcompute]
      simp only [Polarity.Holds, X86State.exec, X86State.step, X86State.sbb, X86State.put,
        X86State.get, carry, hA, hB, hflag, hbit]
      cases hd : d.carryFlag <;> rw [hd] at hborrow <;> exact hborrow

lemma logic_computed (halu : op.aluOperation ≠ .Add ∧ op.aluOperation ≠ .Subtract ∧ op.usesCarry = false) :
    Computed env opt p op d s (X86State.exec env scratch (compileAluOperation opt op) 0 s') := by
  have hz := same.zeroRegSkip
  have hresult : Reg.result ≠ .methodAddress := by simp
  -- it is enough to find the result
  have hkeep : ∀ s'', Frame s' s'' → (resultSafe op p d = true → s''.result = (d.compute env op).1) →
      Computed env opt p op d s s'' := by
    intro s'' hframe hres
    obtain ⟨h1, h2, h3⟩ := halu
    refine .of_frame (hops.frame.trans hframe) hres ?_ ?_ same.carry
    · cases h : op.aluOperation <;> simp_all [Polarity.after, Opcode.usesCarry]
    · cases h : op.aluOperation <;>
        simp_all [Data.compute, Data.aluResult, Opcode.usesCarry, same.operation]
  have hvalid : op.srcA ≠ 0 ∧ op.srcB ≠ 0 →
      s'.result = d.registers op.srcA ∧ s'.eax = d.registers op.srcB := fun hv =>
    ⟨(hops.srcA (.inl hv.1)).trans same.srcA, (hops.srcB (.inl hv.2)).trans same.srcB⟩
  cases h : op.aluOperation with
  | Add => exact absurd h halu.1
  | Subtract => exact absurd h halu.2.1
  | AddWithCarry | SubtractWithBorrow => simp [Opcode.usesCarry, h] at halu
  | Xor | Or =>
    by_cases hv : op.srcA ≠ 0 ∧ op.srcB ≠ 0
    · obtain ⟨hA, hB⟩ := hvalid hv
      simp only [compileAluOperation, h, if_pos (Or.inr hv)]
      refine hkeep _ (frame_put hresult ..) fun _ => ?_
      simp [Data.compute, same.operation, h, Data.aluResult, X86State.exec, X86State.step,
        X86State.put, X86State.set, X86State.get, hA, hB]
    · simp only [compileAluOperation, h, hz, Bool.not_true, Bool.false_eq_true, false_or, if_neg hv]
      refine hkeep _ (.refl _) fun hsafe => ?_
      obtain ⟨hA, hB⟩ := result_of_alone same hops (by simpa [resultSafe, same.operation, h] using hsafe) hv
      simp [Data.compute, same.operation, h, Data.aluResult, X86State.exec, hA, hB]
  | And =>
    by_cases hv : op.srcA ≠ 0 ∧ op.srcB ≠ 0
    · obtain ⟨hA, hB⟩ := hvalid hv
      simp only [compileAluOperation, h, if_pos (Or.inr hv)]
      refine hkeep _ (frame_put hresult ..) fun _ => ?_
      simp [Data.compute, same.operation, h, Data.aluResult, X86State.exec, X86State.step,
        X86State.put, X86State.set, X86State.get, hA, hB]
    · simp only [compileAluOperation, h, hz, Bool.not_true, Bool.false_eq_true, false_or, if_neg hv]
      refine hkeep _ (.refl _) fun hsafe => ?_
      exact absurd (by simpa [resultSafe, same.operation, h] using hsafe) hv
  | AndNot | Nand =>
    by_cases hA : op.srcA = 0
    · simp only [compileAluOperation, h, hz, hA]
      refine hkeep _ (.refl _) fun hsafe => ?_
      simp [resultSafe, same.operation, h, hA] at hsafe
    · simp only [compileAluOperation, h, if_pos (Or.inr hA)]
      refine hkeep _ ⟨rfl, rfl, rfl, rfl, rfl, rfl⟩ fun hsafe => ?_
      obtain ⟨hA, hB⟩ := hvalid (by simpa [resultSafe, same.operation, h] using hsafe)
      simp [Data.compute, same.operation, h, Data.aluResult, X86State.exec, X86State.step,
        X86State.put, X86State.set, X86State.get, hA, hB]
  | invalid =>
    simp only [compileAluOperation, h]
    refine hkeep _ (.refl _) fun hsafe => ?_
    simp [resultSafe, same.operation, h] at hsafe

/-- **`Compile_ALU` computes what `GetALUResult` computes** where its shortcuts apply. -/
lemma alu_computed (huses : opt.canSkipCarry = true → op.usesCarry = false) :
    Computed env opt p op d s (X86State.exec env scratch (compileAluOperation opt op) 0 s') := by
  by_cases hadd : op.aluOperation = .Add
  · exact add_computed same hops hadd
  · by_cases hsub : op.aluOperation = .Subtract
    · exact sub_computed same hops hsub
    · by_cases hadc : op.aluOperation = .AddWithCarry
      · exact adc_computed same hops hadc huses
      · by_cases hsbb : op.aluOperation = .SubtractWithBorrow
        · exact sbb_computed same hops hsbb huses
        · exact logic_computed same hops ⟨hadd, hsub, by simp [Opcode.usesCarry, hadc, hsbb]⟩

end Operations

/-- The sum with the immediate.  An immediate of two is not added. -/
lemma immediate_spec (hz : opt.zeroRegSkip = true) (h0 : s.registers 0 = 0#32) :
    Frame s (X86State.exec env scratch (compileImmediateSum opt op) 0 s) ∧
      (op.immediate ≠ 2 ∨ op.srcA = 0 →
        (X86State.exec env scratch (compileImmediateSum opt op) 0 s).result =
          s.registers op.srcA + BitVec.ofInt 32 op.immediate) := by
  have hne : Reg.result ≠ .methodAddress := by simp
  unfold compileImmediateSum
  by_cases hA : op.srcA = 0
  · rw [if_pos ⟨hz, hA⟩, hA, h0]
    split
    · rename_i himm
      refine ⟨frame_put hne .., fun _ => ?_⟩
      simp [X86State.exec, X86State.step, X86State.put, X86State.set, himm]
    · refine ⟨frame_set hne _, fun _ => ?_⟩
      simp [X86State.exec, X86State.step, X86State.set]
  · rw [if_neg fun h => hA h.2, closed_getRegister, exec_getRegister]
    have hframe := frame_load (s := s) hne op.srcA
    have hload : (s.load op.srcA .result).result = s.registers op.srcA :=
      get_load h0 op.srcA .result
    split
    · refine ⟨hframe.trans (frame_put hne ..), fun _ => ?_⟩
      simp [X86State.exec, X86State.step, X86State.adc, X86State.put, X86State.set, X86State.get, hload]
    · split
      · rename_i hone
        refine ⟨hframe.trans (frame_put hne ..), fun _ => ?_⟩
        simp [X86State.exec, X86State.step, X86State.put, X86State.set, X86State.get, hload, hone]
      · split
        · refine ⟨hframe.trans (frame_put hne ..), fun _ => ?_⟩
          simp [X86State.exec, X86State.step, X86State.sbb, X86State.put, X86State.set,
            X86State.get, hload, BitVec.ofInt_neg]
        · refine ⟨hframe, fun hsafe => ?_⟩
          have hzero : op.immediate = 0 := by
            rcases hsafe with h | h
            · omega
            · exact absurd h hA
          simp [X86State.exec, hload, hzero]

lemma closed_immediate : Closed env scratch (compileImmediateSum opt op) := by
  unfold compileImmediateSum
  split
  · split <;> exact closed_of_no_jump (by simp [X86.isJump])
  · refine (closed_getRegister _ _).append ?_
    split_ifs <;> exact closed_of_no_jump (by simp [X86.isJump])

/-- The right shift of the emitted code, for counts below 32. -/
lemma get_shr {n : ℕ} (hn : n < 32) : (s.shr r n).get r = s.get r >>> n := by
  unfold shr
  rw [Nat.mod_eq_of_lt hn]
  split
  · rename_i h
    rw [h]
    simp
  · cases r <;> rfl

lemma get_shl {n : ℕ} (hn : n < 32) : (s.shl r n).get r = s.get r <<< n := by
  unfold shl
  rw [Nat.mod_eq_of_lt hn]
  split
  · rename_i h
    rw [h]
    simp
  · cases r <;> rfl

lemma get_shr_ne (r' : Reg) (h : r' ≠ r) (n : ℕ) : (s.shr r n).get r' = s.get r' := by
  unfold shr
  split
  · rfl
  · cases r <;> cases r' <;> first | rfl | exact absurd rfl h

lemma get_shl_ne (r' : Reg) (h : r' ≠ r) (n : ℕ) : (s.shl r n).get r' = s.get r' := by
  unfold shl
  split
  · rfl
  · cases r <;> cases r' <;> first | rfl | exact absurd rfl h

@[simp] lemma get_put (r : Reg) (v : BitVec 32) (cf : Bool) : (s.put r v cf).get r = v := by
  cases r <;> rfl

lemma get_put_ne (r' : Reg) (h : r' ≠ r) (v : BitVec 32) (cf : Bool) : (s.put r v cf).get r' = s.get r' := by
  cases r <;> cases r' <;> first | rfl | exact absurd rfl h

/-- The two operands of a bit field instruction in two host registers. -/
lemma load_load (h0 : s.registers 0 = 0#32) {r r' : Reg} (hne : r ≠ r')
    (hr : r ≠ .methodAddress) (hr' : r' ≠ .methodAddress) (a b : Fin 8) :
    Frame s ((s.load a r).load b r') ∧ ((s.load a r).load b r').get r = s.registers a ∧
      ((s.load a r).load b r').get r' = s.registers b := by
  have hframe := frame_load (s := s) hr a
  refine ⟨hframe.trans (frame_load hr' b), ?_, ?_⟩
  · exact (get_load_ne r hne b).trans (get_load h0 a r)
  · refine (get_load (by rw [hframe.registers]; exact h0) b r').trans ?_
    rw [hframe.registers]

/-- `Compile_ExtractInsert` before the result. -/
def extractInsertBody (op : Opcode) : List X86 :=
  compileGetRegister op.srcA .result ++ compileGetRegister op.srcB .eax ++
    [.andImm .result (~~~(op.bitfieldMask <<< op.bfDstBit.val)), .shrImm .eax op.bfSrcBit,
      .andImm .eax op.bitfieldMask, .shlImm .eax op.bfDstBit, .or .result .eax]

lemma extractInsert_spec (h0 : s.registers 0 = 0#32) :
    Frame s (X86State.exec env scratch (extractInsertBody op) 0 s) ∧
      (X86State.exec env scratch (extractInsertBody op) 0 s).result =
        (s.registers op.srcA &&& ~~~(op.bitfieldMask <<< op.bfDstBit.val)) |||
          (((s.registers op.srcB >>> op.bfSrcBit.val) &&& op.bitfieldMask) <<< op.bfDstBit.val) := by
  have hres : Reg.result ≠ .methodAddress := by simp
  have heax : Reg.eax ≠ .methodAddress := by simp
  have hne : Reg.result ≠ .eax := by simp
  obtain ⟨hframe, hA, hB⟩ := load_load h0 hne hres heax op.srcA op.srcB
  rw [extractInsertBody, (closed_getRegister _ _).append (closed_getRegister _ _),
    closed_getRegister, exec_getRegister, exec_getRegister]
  set s1 := (s.load op.srcA .result).load op.srcB .eax
  set s2 := s1.put .result (s1.get .result &&& ~~~(op.bitfieldMask <<< op.bfDstBit.val)) false
  set s3 := s2.shr .eax op.bfSrcBit
  set s4 := s3.put .eax (s3.get .eax &&& op.bitfieldMask) false
  set s5 := s4.shl .eax op.bfDstBit
  have hfive : s5.get .eax = ((s.registers op.srcB >>> op.bfSrcBit.val) &&& op.bitfieldMask) <<< op.bfDstBit.val := by
    rw [get_shl op.bfDstBit.isLt, get_put, get_shr op.bfSrcBit.isLt, get_put_ne .eax hne.symm, hB]
  have hfive' : s5.get .result = s.registers op.srcA &&& ~~~(op.bitfieldMask <<< op.bfDstBit.val) := by
    rw [get_shl_ne .result hne, get_put_ne .result hne, get_shr_ne .result hne, get_put, hA]
  have hexec : X86State.exec env scratch
      [.andImm .result (~~~(op.bitfieldMask <<< op.bfDstBit.val)), .shrImm .eax op.bfSrcBit,
        .andImm .eax op.bitfieldMask, .shlImm .eax op.bfDstBit, .or .result .eax] 0 s1 =
      s5.put .result (s5.get .result ||| s5.get .eax) false := rfl
  rw [hexec]
  refine ⟨?_, ?_⟩
  · exact ((((hframe.trans (frame_put hres ..)).trans (frame_shr heax _)).trans
      (frame_put heax ..)).trans (frame_shl heax _)).trans (frame_put hres ..)
  · change (s5.put .result (s5.get .result ||| s5.get .eax) false).get .result = _
    rw [get_put, hfive, hfive']

/-- `Compile_ExtractShiftLeftImmediate` before the result. -/
def shiftImmediateBody (op : Opcode) : List X86 :=
  compileGetRegister op.srcA .ecx ++ compileGetRegister op.srcB .result ++
    [.shrCl .result, .andImm .result op.bitfieldMask, .shlImm .result op.bfDstBit]

lemma shiftImmediate_spec (h0 : s.registers 0 = 0#32) :
    Frame s (X86State.exec env scratch (shiftImmediateBody op) 0 s) ∧
      ((s.registers op.srcA).toNat < 32 →
        (X86State.exec env scratch (shiftImmediateBody op) 0 s).result =
          ((s.registers op.srcB >>> (s.registers op.srcA).toNat) &&& op.bitfieldMask) <<< op.bfDstBit.val) := by
  have hres : Reg.result ≠ .methodAddress := by simp
  have hecx : Reg.ecx ≠ .methodAddress := by simp
  obtain ⟨hframe, hA, hB⟩ := load_load h0 (by simp : Reg.ecx ≠ .result) hecx hres op.srcA op.srcB
  rw [shiftImmediateBody, (closed_getRegister _ _).append (closed_getRegister _ _),
    closed_getRegister, exec_getRegister, exec_getRegister]
  set s1 := (s.load op.srcA .ecx).load op.srcB .result
  set s2 := s1.shr .result (s1.get .ecx).toNat
  set s3 := s2.put .result (s2.get .result &&& op.bitfieldMask) false
  have hexec : X86State.exec env scratch
      [.shrCl .result, .andImm .result op.bitfieldMask, .shlImm .result op.bfDstBit] 0 s1 =
      s3.shl .result op.bfDstBit := rfl
  rw [hexec]
  refine ⟨?_, fun hlt => ?_⟩
  · exact ((hframe.trans (frame_shr hres _)).trans (frame_put hres ..)).trans (frame_shl hres _)
  · have hcount : (s1.get .ecx).toNat < 32 := by rw [hA]; exact hlt
    refine (get_shl (r := .result) op.bfDstBit.isLt).trans ?_
    rw [get_put, get_shr hcount, hA, hB]

/-- `Compile_ExtractShiftLeftRegister` before the result. -/
def shiftRegisterBody (op : Opcode) : List X86 :=
  compileGetRegister op.srcA .ecx ++ compileGetRegister op.srcB .result ++
    [.shrImm .result op.bfSrcBit, .andImm .result op.bitfieldMask, .shlCl .result]

lemma shiftRegister_spec (h0 : s.registers 0 = 0#32) :
    Frame s (X86State.exec env scratch (shiftRegisterBody op) 0 s) ∧
      ((s.registers op.srcA).toNat < 32 →
        (X86State.exec env scratch (shiftRegisterBody op) 0 s).result =
          ((s.registers op.srcB >>> op.bfSrcBit.val) &&& op.bitfieldMask) <<< (s.registers op.srcA).toNat) := by
  have hres : Reg.result ≠ .methodAddress := by simp
  have hecx : Reg.ecx ≠ .methodAddress := by simp
  have hne : Reg.ecx ≠ .result := by simp
  obtain ⟨hframe, hA, hB⟩ := load_load h0 hne hecx hres op.srcA op.srcB
  rw [shiftRegisterBody, (closed_getRegister _ _).append (closed_getRegister _ _),
    closed_getRegister, exec_getRegister, exec_getRegister]
  set s1 := (s.load op.srcA .ecx).load op.srcB .result
  set s2 := s1.shr .result op.bfSrcBit
  set s3 := s2.put .result (s2.get .result &&& op.bitfieldMask) false
  have hexec : X86State.exec env scratch
      [.shrImm .result op.bfSrcBit, .andImm .result op.bitfieldMask, .shlCl .result] 0 s1 =
      s3.shl .result (s3.get .ecx).toNat := rfl
  have hcl : s3.get .ecx = s.registers op.srcA := by
    rw [get_put_ne .ecx hne, get_shr_ne .ecx hne, hA]
  rw [hexec, hcl]
  refine ⟨?_, fun hlt => ?_⟩
  · exact ((hframe.trans (frame_shr hres _)).trans (frame_put hres ..)).trans (frame_shl hres _)
  · refine (get_shl (r := .result) hlt).trans ?_
    rw [get_put, get_shr op.bfSrcBit.isLt, hB]

end Compute

end Voltemu.VideoCore
