import Voltemu.VideoCore.MacroInterpreter

/-!
# The macro recompiler

`MacroJITx64Impl` of `video_core/macro.cpp`: the x86 code that it emits for a macro, and a machine that runs it.

* `X86` are the instructions on data.  They work on `eax`, `ecx`, `RESULT` (`r10d`), `METHOD_ADDRESS` (`r14d`), the
  carry and zero flags, and the `JITState` in memory.  `je` and `jb` among them are the forward jumps of
  `Compile_Send` and `Compile_FetchParameter`; they skip a number of instructions.
* `Asm` adds the labels and jumps between macro instructions and the `BRANCH_HOLDER` register (`r15`).
* The machine is written over what the data instructions do, as `Step` is.  It appends an instruction to its trace
  when it passes the instruction's label.
* A register of the generator that is not assigned is number 0, `eax`.  After a call, and when the pointer to the
  GPU is loaded, `eax` and `ecx` hold values that come from outside; `scratch` supplies them.
-/

namespace Voltemu.VideoCore

inductive Reg
  | eax
  | ecx
  | result
  | methodAddress
deriving DecidableEq

inductive X86
  | movReg (dst src : Reg)
  | movImm (dst : Reg) (imm : BitVec 32)
  | xor (dst src : Reg)
  | or (dst src : Reg)
  | and (dst src : Reg)
  | andImm (dst : Reg) (imm : BitVec 32)
  | not (dst : Reg)
  | add (dst src : Reg)
  | addImm (dst : Reg) (imm : BitVec 32)
  | inc (dst : Reg)
  | sub (dst src : Reg)
  | subImm (dst : Reg) (imm : BitVec 32)
  | adc (dst src : Reg)
  | sbb (dst src : Reg)
  | shrImm (dst : Reg) (count : ℕ)
  | shlImm (dst : Reg) (count : ℕ)
  | shrCl (dst : Reg)
  | shlCl (dst : Reg)
  | lea (dst a b : Reg)
  | testImm (a : Reg) (imm : BitVec 32)
  /-- `bt dword[carry_flag], 0`. -/
  | btCarryFlag
  /-- `setc byte[carry_flag]`. -/
  | setcCarryFlag
  /-- `mov dst, dword[registers + 4 * reg]`. -/
  | loadRegister (dst : Reg) (reg : Fin 8)
  /-- `mov dword[registers + 4 * reg], src`. -/
  | storeRegister (reg : Fin 8) (src : Reg)
  /-- `cmp PARAMETERS, MAX_PARAMETER`. -/
  | cmpParameters
  /-- The call of `MacroJIT_ErrorThunk`, which logs. -/
  | callError
  /-- `mov eax, dword[PARAMETERS]`. -/
  | loadParameter
  /-- `add PARAMETERS, 4`. -/
  | nextParameter
  /-- `mov rax, qword[STATE]`. -/
  | loadGpu
  /-- `mov RESULT, dword[rax + reg_array + 4 * RESULT]`. -/
  | readGpu
  /-- The call of `MacroJIT_SendThunk` with the method address and a value. -/
  | callSend (value : Reg)
  | je (skip : ℕ)
  | jb (skip : ℕ)
deriving DecidableEq

inductive Label
  /-- `labels[i]`. -/
  | instr (i : ℕ)
  /-- `delay_skip[i]`. -/
  | delaySkip (i : ℕ)
  /-- `end` of `Compile_Branch`. -/
  | branchEnd (i : ℕ)
  | handlePostExit (i : ℕ)
  | skip (i : ℕ)
  | noDelaySlot (i : ℕ)
  | endOfCode
deriving DecidableEq

inductive Asm
  /-- Instructions on data. -/
  | block (code : List X86)
  | label (l : Label)
  /-- `cmp value, 0` in `Compile_Branch`, where the value was loaded from a macro register. -/
  | cmpZero (reg : Fin 8)
  | je (l : Label)
  | jne (l : Label)
  | jmp (l : Label)
  /-- `test BRANCH_HOLDER, BRANCH_HOLDER`. -/
  | testHolder
  /-- `xor BRANCH_HOLDER, BRANCH_HOLDER`. -/
  | xorHolder
  /-- `inc BRANCH_HOLDER`. -/
  | incHolder
  /-- `mov BRANCH_HOLDER, label`. -/
  | movHolder (l : Label)
  /-- `mov rax, label`. -/
  | movRax (l : Label)
  /-- `cmove BRANCH_HOLDER, rax`. -/
  | cmoveHolder
  /-- `mov rax, BRANCH_HOLDER`. -/
  | movRaxHolder
  | jmpRax
  | ret
deriving DecidableEq

/-- `OptimizerState`.  The flags that `Compile` sets for every program are kept as fields. -/
structure Optimizer where
  canSkipCarry : Bool
  hasDelayedPc : Bool
  zeroRegSkip : Bool
  skipDummyAddImmediate : Bool
  optimizeForMethodMove : Bool
deriving DecidableEq

/-- `Optimizer_ScanFlags`, after `Compile` has set the other flags. -/
def scanFlags (code : List Opcode) : Optimizer where
  canSkipCarry := code.all fun op => !(op.operation == .ALU &&
    (op.aluOperation == .AddWithCarry || op.aluOperation == .SubtractWithBorrow))
  hasDelayedPc := code.any fun op => op.operation == .Branch && !op.branchAnnul
  zeroRegSkip := true
  skipDummyAddImmediate := true
  optimizeForMethodMove := true

section Emit

variable (opt : Optimizer)

def compileGetRegister (index : Fin 8) (dst : Reg) : List X86 :=
  if index = 0 then [.xor dst dst] else [.loadRegister dst index]

/-- `Compile_FetchParameter`: the parameter is in `eax`. -/
def compileFetchParameter : List X86 :=
  [.cmpParameters, .jb 1, .callError, .loadParameter, .nextParameter]

def compileSetRegister (reg : Fin 8) (src : Reg) : List X86 :=
  if reg = 0 then [] else [.storeRegister reg src]

def compileSend (value : Reg) : List X86 :=
  [.callSend value, .testImm .methodAddress 0x3f000, .je 8,
    .movReg .ecx .methodAddress, .andImm .methodAddress 0xfff, .shrImm .ecx 12, .andImm .ecx 0x3f,
    .lea .eax .ecx .methodAddress, .shlImm .ecx 12, .or .eax .ecx, .movReg .methodAddress .eax]

def compileProcessResult (operation : ResultOperation) (reg : Fin 8) : List X86 :=
  match operation with
  | .IgnoreAndFetch => compileFetchParameter ++ compileSetRegister reg .eax
  | .Move => compileSetRegister reg .result
  | .MoveAndSetMethod => compileSetRegister reg .result ++ [.movReg .methodAddress .result]
  | .FetchAndSend => compileFetchParameter ++ compileSetRegister reg .eax ++ compileSend .result
  | .MoveAndSend => compileSetRegister reg .result ++ compileSend .result
  | .FetchAndSetMethod =>
      compileFetchParameter ++ compileSetRegister reg .eax ++ [.movReg .methodAddress .result]
  | .MoveAndSetMethodFetchAndSend =>
      compileSetRegister reg .result ++ [.movReg .methodAddress .result] ++ compileFetchParameter ++ compileSend .eax
  | .MoveAndSetMethodSend =>
      compileSetRegister reg .result ++ [.movReg .methodAddress .result] ++
        [.shrImm .result 12, .andImm .result 0b111111] ++ compileSend .result

/-- The operands of `Compile_ALU`, in `RESULT` and `eax`. -/
def compileOperands (op : Opcode) : List X86 :=
  if !opt.zeroRegSkip || op.aluOperation == .AddWithCarry ||
      op.aluOperation == .SubtractWithBorrow then
    compileGetRegister op.srcA .result ++ compileGetRegister op.srcB .eax
  else
    (if op.srcA ≠ 0 then compileGetRegister op.srcA .result else []) ++
      (if op.srcB ≠ 0 then compileGetRegister op.srcB .eax else [])

/-- The operation of `Compile_ALU`.  `src_a` is `RESULT` wherever it is used; `src_b` is `eax` also when it was not
assigned. -/
def compileAluOperation (op : Opcode) : List X86 :=
  let valid := op.srcA ≠ 0 ∧ op.srcB ≠ 0
  match op.aluOperation with
  | .Add =>
      (if !opt.zeroRegSkip ∨ valid then [.add .result .eax] else []) ++
        (if opt.canSkipCarry then [] else [.setcCarryFlag])
  | .AddWithCarry => [.btCarryFlag, .adc .result .eax, .setcCarryFlag]
  | .Subtract =>
      if !opt.zeroRegSkip ∨ valid then
        [.sub .result .eax] ++ (if opt.canSkipCarry then [] else [.setcCarryFlag])
      else []
  | .SubtractWithBorrow => [.btCarryFlag, .sbb .result .eax, .setcCarryFlag]
  | .Xor => if !opt.zeroRegSkip ∨ valid then [.xor .result .eax] else []
  | .Or => if !opt.zeroRegSkip ∨ valid then [.or .result .eax] else []
  | .And => if !opt.zeroRegSkip ∨ valid then [.and .result .eax] else []
  | .AndNot => if !opt.zeroRegSkip ∨ op.srcA ≠ 0 then [.not .eax, .and .result .eax] else []
  | .Nand => if !opt.zeroRegSkip ∨ op.srcA ≠ 0 then [.and .result .eax, .not .result] else []
  | .invalid => []

def compileALU (op : Opcode) : List X86 :=
  compileOperands opt op ++ compileAluOperation opt op ++ compileProcessResult op.resultOperation op.dst

/-- The sum of a register and the immediate in `RESULT`, as `Compile_AddImmediate` and `Compile_Read` emit it. -/
def compileImmediateSum (op : Opcode) : List X86 :=
  if opt.zeroRegSkip ∧ op.srcA = 0 then
    if op.immediate = 0 then [.xor .result .result]
    else [.movImm .result (BitVec.ofInt 32 op.immediate)]
  else
    compileGetRegister op.srcA .result ++
      if op.immediate > 2 then [.addImm .result (BitVec.ofInt 32 op.immediate)]
      else if op.immediate = 1 then [.inc .result]
      else if op.immediate < 0 then [.subImm .result (BitVec.ofInt 32 (-op.immediate))]
      else []

/-- The move is redundant for `Compile_AddImmediate`: the next instruction sets the method and the register again. -/
def redundantMove (op : Opcode) (next : Option Opcode) : Bool :=
  opt.optimizeForMethodMove && op.resultOperation == .MoveAndSetMethod &&
    match next with
    | none => false
    | some n => n.resultOperation == .MoveAndSetMethod && op.dst == n.dst

def compileAddImmediate (op : Opcode) (next : Option Opcode) : List X86 :=
  if opt.skipDummyAddImmediate ∧ op.resultOperation = .Move ∧ op.dst = 0 then []
  else if redundantMove opt op next then []
  else compileImmediateSum opt op ++ compileProcessResult op.resultOperation op.dst

def compileExtractInsert (op : Opcode) : List X86 :=
  compileGetRegister op.srcA .result ++ compileGetRegister op.srcB .eax ++
    [.andImm .result (~~~(op.bitfieldMask <<< op.bfDstBit.val)), .shrImm .eax op.bfSrcBit,
      .andImm .eax op.bitfieldMask, .shlImm .eax op.bfDstBit, .or .result .eax] ++
    compileProcessResult op.resultOperation op.dst

def compileExtractShiftLeftImmediate (op : Opcode) : List X86 :=
  compileGetRegister op.srcA .ecx ++ compileGetRegister op.srcB .result ++
    [.shrCl .result, .andImm .result op.bitfieldMask, .shlImm .result op.bfDstBit] ++
    compileProcessResult op.resultOperation op.dst

def compileExtractShiftLeftRegister (op : Opcode) : List X86 :=
  compileGetRegister op.srcA .ecx ++ compileGetRegister op.srcB .result ++
    [.shrImm .result op.bfSrcBit, .andImm .result op.bitfieldMask, .shlCl .result] ++
    compileProcessResult op.resultOperation op.dst

def compileRead (op : Opcode) : List X86 :=
  compileImmediateSum opt op ++ [.loadGpu, .readGpu] ++ compileProcessResult op.resultOperation op.dst

/-- The data part of an instruction that is not a branch. -/
def compileData (op : Opcode) (next : Option Opcode) : List X86 :=
  match op.operation with
  | .ALU => compileALU opt op
  | .AddImmediate => compileAddImmediate opt op next
  | .ExtractInsert => compileExtractInsert op
  | .ExtractShiftLeftImmediate => compileExtractShiftLeftImmediate op
  | .ExtractShiftLeftRegister => compileExtractShiftLeftRegister op
  | .Read => compileRead opt op
  | .Unused | .Branch => []

def jumpAddress (op : Opcode) (i : ℕ) : ℕ := (i + op.immediate).toNat

def compileBranch (i : ℕ) (op : Opcode) : List Asm :=
  [.cmpZero op.srcA] ++
    (if opt.hasDelayedPc then
      [match op.branchCondition with
        | .Zero => .jne (.branchEnd i)
        | .NotZero => .je (.branchEnd i)] ++
      if op.branchAnnul then [.xorHolder, .jmp (.instr (jumpAddress op i))]
      else [.jmp (.skip i), .label (.handlePostExit i), .xorHolder,
        .jmp (.instr (jumpAddress op i)), .label (.skip i), .movHolder (.handlePostExit i),
        .jmp (.delaySkip i)]
    else
      [match op.branchCondition with
        | .Zero => .je (.instr (jumpAddress op i))
        | .NotZero => .jne (.instr (jumpAddress op i))]) ++
    [.label (.branchEnd i)]

/-- The end of `Compile_NextInstruction`: exits and delay slots. -/
def compileTail (i : ℕ) (op : Opcode) : List Asm :=
  if opt.hasDelayedPc then
    (if op.isExit then [.movRax .endOfCode, .testHolder, .cmoveHolder, .je (.instr (i + 1))]
    else [.testHolder, .je (.noDelaySlot i), .movRaxHolder, .xorHolder, .jmpRax,
      .label (.noDelaySlot i)]) ++ [.label (.delaySkip i)]
  else
    [.testHolder, .jne .endOfCode] ++ if op.isExit then [.incHolder] else []

def compileNextInstruction (i : ℕ) (op : Opcode) (next : Option Opcode) : List Asm :=
  .label (.instr i) ::
    ((if op.operation = .Branch then compileBranch opt i op
      else [.block (compileData opt op next)]) ++ compileTail opt i op)

/-- The loop of `Compile`, from instruction `i` on. -/
def compileFrom (i : ℕ) : List Opcode → List Asm
  | [] => []
  | op :: rest => compileNextInstruction opt i op rest.head? ++ compileFrom (i + 1) rest

end Emit

/-- The code before the first instruction: the registers are cleared and the first parameter is fetched. -/
def prologue : List Asm :=
  [.block [.xor .result .result, .xor .methodAddress .methodAddress], .xorHolder,
    .block (compileFetchParameter ++ [.storeRegister 1 .eax])]

def epilogue : List Asm := [.label .endOfCode, .ret]

def compile (code : List Opcode) : List Asm :=
  prologue ++ (compileFrom (scanFlags code) 0 code ++ epilogue)

/-- What the machine needs of the data. -/
structure MachineSem (δ : Type) where
  /-- Instructions on data. -/
  exec : List X86 → δ → δ
  /-- `cmp value, 0`: the zero flag. -/
  cmpZero : Fin 8 → δ → Bool × δ
  /-- `test` and `xor` on `BRANCH_HOLDER` clear the carry flag. -/
  clearCarry : δ → δ

/-- The values that `BRANCH_HOLDER` and `rax` take between instructions. -/
inductive Holder
  | zero
  | address (l : Label)
  | count (n : ℕ)
deriving DecidableEq

/-- The state of the machine: the code that follows, the registers of the control, the data and the trace. -/
structure Machine (δ : Type) where
  code : List Asm
  holder : Holder
  rax : Holder
  zf : Bool
  data : δ
  trace : List ℕ

def goto (code : List Asm) (l : Label) : List Asm := code.dropWhile (· ≠ .label l)

def Holder.inc : Holder → Holder
  | .zero => .count 1
  | .address l => .address l
  | .count n => .count (n + 1)

section Machine

variable {δ : Type} (sem : MachineSem δ) (all : List Asm)

/-- The machine executes one instruction of the code `all`; `none` when it has returned. -/
def machineStep (m : Machine δ) : Option (Machine δ) :=
  match m.code with
  | [] => none
  | i :: rest =>
      let m := { m with code := rest }
      match i with
      | .block code => some { m with data := sem.exec code m.data }
      | .label (.instr i) => some { m with trace := m.trace ++ [i] }
      | .label _ => some m
      | .cmpZero reg =>
          let (zf, data) := sem.cmpZero reg m.data
          some { m with zf := zf, data := data }
      | .je l => some (if m.zf then { m with code := goto all l } else m)
      | .jne l => some (if m.zf then m else { m with code := goto all l })
      | .jmp l => some { m with code := goto all l }
      | .testHolder =>
          some { m with zf := m.holder == .zero, data := sem.clearCarry m.data }
      | .xorHolder =>
          some { m with holder := .zero, zf := true, data := sem.clearCarry m.data }
      | .incHolder => some { m with holder := m.holder.inc, zf := false }
      | .movHolder l => some { m with holder := .address l }
      | .movRax l => some { m with rax := .address l }
      | .cmoveHolder => some { m with holder := if m.zf then m.rax else m.holder }
      | .movRaxHolder => some { m with rax := m.holder }
      | .jmpRax =>
          match m.rax with
          | .address l => some { m with code := goto all l }
          | _ => none
      | .ret => none

/-- The machine after a number of instructions; it stays where it is once it has returned. -/
def machineRun : ℕ → Machine δ → Machine δ
  | 0, m => m
  | n + 1, m =>
      match machineStep sem all m with
      | none => m
      | some m' => machineRun n m'

def Machine.Returned (m : Machine δ) : Prop := m.code = [.ret]

end Machine

def Machine.initial {δ : Type} (code : List Opcode) (data : δ) : Machine δ :=
  ⟨compile code, .zero, .zero, false, data, []⟩

end Voltemu.VideoCore
