import Mathlib.Data.BitVec

/-!
# The macro interpreter

`video_core/macro.h` and the interpreter of `video_core/macro.cpp`: small programs that a game uploads and that
send values to the methods of the GPU.

* An opcode is decoded into a record.  Its fields overlap in the encoding; nothing below depends on that.
* `Step` is written once over what it needs of the data: what an instruction other than a branch does, and whether a
  register is zero.  `dataSem` is the interpreter itself; the branch outcomes alone are another instance.
* The program counter is a byte address.  A read behind the code, or of a parameter that is not there, is `none`:
  the source asserts that it does not happen.
* A shift by 32 or more is undefined in the source.  Its value is a parameter, `wide`.
-/

namespace Voltemu.VideoCore

instance neZero_registers : NeZero 8 := ⟨by decide⟩

inductive Operation
  | ALU
  | AddImmediate
  | ExtractInsert
  | ExtractShiftLeftImmediate
  | ExtractShiftLeftRegister
  | Read
  | Unused
  | Branch
deriving DecidableEq

inductive ALUOperation
  | Add
  | AddWithCarry
  | Subtract
  | SubtractWithBorrow
  | Xor
  | Or
  | And
  | AndNot
  | Nand
  | invalid
deriving DecidableEq

inductive ResultOperation
  | IgnoreAndFetch
  | Move
  | MoveAndSetMethod
  | FetchAndSend
  | MoveAndSend
  | FetchAndSetMethod
  | MoveAndSetMethodFetchAndSend
  | MoveAndSetMethodSend
deriving DecidableEq

inductive BranchCondition
  | Zero
  | NotZero
deriving DecidableEq

/-- `Macro::Opcode`, decoded. -/
structure Opcode where
  operation : Operation
  resultOperation : ResultOperation
  branchCondition : BranchCondition
  branchAnnul : Bool
  isExit : Bool
  dst : Fin 8
  srcA : Fin 8
  srcB : Fin 8
  immediate : ℤ
  aluOperation : ALUOperation
  bfSrcBit : Fin 32
  bfSize : Fin 32
  bfDstBit : Fin 32
deriving DecidableEq

def Operation.ofBits : ℕ → Operation
  | 0 => .ALU
  | 1 => .AddImmediate
  | 2 => .ExtractInsert
  | 3 => .ExtractShiftLeftImmediate
  | 4 => .ExtractShiftLeftRegister
  | 5 => .Read
  | 6 => .Unused
  | _ => .Branch

def ALUOperation.ofBits : ℕ → ALUOperation
  | 0 => .Add
  | 1 => .AddWithCarry
  | 2 => .Subtract
  | 3 => .SubtractWithBorrow
  | 8 => .Xor
  | 9 => .Or
  | 10 => .And
  | 11 => .AndNot
  | 12 => .Nand
  | _ => .invalid

def ResultOperation.ofBits : ℕ → ResultOperation
  | 0 => .IgnoreAndFetch
  | 1 => .Move
  | 2 => .MoveAndSetMethod
  | 3 => .FetchAndSend
  | 4 => .MoveAndSend
  | 5 => .FetchAndSetMethod
  | 6 => .MoveAndSetMethodFetchAndSend
  | _ => .MoveAndSetMethodSend

def decode (raw : BitVec 32) : Opcode where
  operation := .ofBits (raw.extractLsb' 0 3).toNat
  resultOperation := .ofBits (raw.extractLsb' 4 3).toNat
  branchCondition := if raw.getLsbD 4 then .NotZero else .Zero
  branchAnnul := raw.getLsbD 5
  isExit := raw.getLsbD 7
  dst := (raw.extractLsb' 8 3).toFin
  srcA := (raw.extractLsb' 11 3).toFin
  srcB := (raw.extractLsb' 14 3).toFin
  immediate := (raw.extractLsb' 14 18).toInt
  aluOperation := .ofBits (raw.extractLsb' 17 5).toNat
  bfSrcBit := (raw.extractLsb' 17 5).toFin
  bfSize := (raw.extractLsb' 22 5).toFin
  bfDstBit := (raw.extractLsb' 27 5).toFin

namespace Opcode

def bitfieldMask (op : Opcode) : BitVec 32 := (1 <<< op.bfSize.val) - 1

/-- `base_address + opcode.GetBranchTarget()`.  A program has at most `0x10000` instructions, so the addresses inside
it do not wrap. -/
def branchTarget (op : Opcode) (base : ℕ) : ℕ := (base + op.immediate * 4).toNat

/-- `EvaluateBranchCondition`, given whether the value is zero. -/
def taken (op : Opcode) (zero : Bool) : Bool :=
  match op.branchCondition with
  | .Zero => zero
  | .NotZero => !zero

end Opcode

/-- What `Step` needs of the data. -/
structure InterpreterSem (ι : Type) where
  /-- An instruction that is not a branch. -/
  execute : Opcode → ι → Option ι
  /-- Whether a register is zero. -/
  isZero : Fin 8 → ι → Bool × ι

/-- The control state of the interpreter, with the instructions executed so far. -/
structure Control (ι : Type) where
  pc : ℕ
  delayedPc : Option ℕ
  data : ι
  trace : List ℕ

section Control

variable {ι : Type}

/-- `MacroInterpreterImpl::Step`; the answer is whether to keep running.  Steps nest to execute delay slots, and
`depth` bounds the nesting. -/
def step (sem : InterpreterSem ι) (code : List Opcode) : ℕ → Control ι → Bool → Option (Control ι × Bool)
  | 0, _, _ => none
  | depth + 1, c, isDelaySlot =>
      match code[c.pc / 4]? with
      | none => none
      | some op =>
          let pc := match c.delayedPc with
            | some target => target
            | none => c.pc + 4
          let trace := c.trace ++ [c.pc / 4]
          -- an exit executes the next instruction first; in a delay slot it is ignored
          let finish : ι → Option (Control ι × Bool) := fun data =>
            if op.isExit && !isDelaySlot then
              (step sem code depth ⟨pc, none, data, trace⟩ true).map fun r => (r.1, false)
            else some (⟨pc, none, data, trace⟩, true)
          if op.operation = .Branch then
            let (zero, data) := sem.isZero op.srcA c.data
            if op.taken zero then
              if op.branchAnnul then some (⟨op.branchTarget c.pc, none, data, trace⟩, true)
              else step sem code depth ⟨pc, some (op.branchTarget c.pc), data, trace⟩ true
            else finish data
          else
            match sem.execute op c.data with
            | none => none
            | some data => finish data

/-- The loop of `Execute`, for a number of steps. -/
def run (sem : InterpreterSem ι) (code : List Opcode) (depth : ℕ) : ℕ → Control ι → Option (Control ι × Bool)
  | 0, c => some (c, true)
  | n + 1, c =>
      match step sem code depth c false with
      | none => none
      | some (c', true) => run sem code depth n c'
      | some (c', false) => some (c', false)

end Control

/-- The GPU as macros see it: its state, `CallMethod` and `GetRegisterValue`. -/
structure Gpu (γ : Type) where
  callMethod : γ → BitVec 12 → BitVec 32 → γ
  getRegisterValue : γ → BitVec 32 → BitVec 32

/-- The data of the interpreter, with the values sent so far. -/
structure Data (γ : Type) where
  registers : Fin 8 → BitVec 32
  nextParameterIndex : ℕ
  methodAddress : BitVec 32
  carryFlag : Bool
  gpu : γ
  sends : List (BitVec 12 × BitVec 32)

/-- What a run of a macro is given: the GPU, the parameters, and the values of undefined shifts. -/
structure Env (γ : Type) where
  gpu : Gpu γ
  parameters : List (BitVec 32)
  wide : BitVec 32 → BitVec 32 → BitVec 32

namespace Data

variable {γ : Type} (env : Env γ)

def setRegister (d : Data γ) (reg : Fin 8) (value : BitVec 32) : Data γ :=
  if reg = 0 then d else { d with registers := Function.update d.registers reg value }

def setMethodAddress (d : Data γ) (address : BitVec 32) : Data γ :=
  { d with methodAddress := address }

def fetchParameter (d : Data γ) : Option (BitVec 32 × Data γ) :=
  (env.parameters[d.nextParameterIndex]?).map fun value =>
    (value, { d with nextParameterIndex := d.nextParameterIndex + 1 })

def address (raw : BitVec 32) : BitVec 12 := raw.extractLsb' 0 12

def increment (raw : BitVec 32) : BitVec 6 := raw.extractLsb' 12 6

/-- `Send`: the address field moves on by the increment, modulo its twelve bits. -/
def send (d : Data γ) (value : BitVec 32) : Data γ :=
  { d with
    gpu := env.gpu.callMethod d.gpu (address d.methodAddress) value
    sends := d.sends ++ [(address d.methodAddress, value)]
    methodAddress := d.methodAddress.extractLsb' 12 20 ++
      (address d.methodAddress + (increment d.methodAddress).zeroExtend 12) }

/-- `GetALUResult`, with the new carry flag. -/
def aluResult (carry : Bool) (a b : BitVec 32) : ALUOperation → BitVec 32 × Bool
  | .Add => (a + b, decide (0xffffffff < a.toNat + b.toNat))
  | .AddWithCarry =>
      (a + b + (if carry then 1 else 0),
        decide (0xffffffff < a.toNat + b.toNat + (if carry then 1 else 0)))
  | .Subtract =>
      (a - b, decide ((a.zeroExtend 64 - b.zeroExtend 64).toNat < 0x100000000))
  | .SubtractWithBorrow =>
      (a - b - (if carry then 0 else 1),
        decide ((a.zeroExtend 64 - b.zeroExtend 64 - (if carry then 0 else 1)).toNat < 0x100000000))
  | .Xor => (a ^^^ b, carry)
  | .Or => (a ||| b, carry)
  | .And => (a &&& b, carry)
  | .AndNot => (a &&& ~~~b, carry)
  | .Nand => (~~~(a &&& b), carry)
  | .invalid => (0, carry)

def shiftRight (value count : BitVec 32) : BitVec 32 :=
  if count.toNat < 32 then value >>> count.toNat else env.wide value count

def shiftLeft (value count : BitVec 32) : BitVec 32 :=
  if count.toNat < 32 then value <<< count.toNat else env.wide value count

def processResult (operation : ResultOperation) (reg : Fin 8) (result : BitVec 32) (d : Data γ) : Option (Data γ) :=
  match operation with
  | .IgnoreAndFetch => (d.fetchParameter env).map fun (value, d) => d.setRegister reg value
  | .Move => some (d.setRegister reg result)
  | .MoveAndSetMethod => some ((d.setRegister reg result).setMethodAddress result)
  | .FetchAndSend =>
      (d.fetchParameter env).map fun (value, d) => (d.setRegister reg value).send env result
  | .MoveAndSend => some ((d.setRegister reg result).send env result)
  | .FetchAndSetMethod =>
      (d.fetchParameter env).map fun (value, d) =>
        (d.setRegister reg value).setMethodAddress result
  | .MoveAndSetMethodFetchAndSend =>
      (((d.setRegister reg result).setMethodAddress result).fetchParameter env).map
        fun (value, d) => d.send env value
  | .MoveAndSetMethodSend =>
      some (((d.setRegister reg result).setMethodAddress result).send env ((result >>> 12) &&& 0b111111))

/-- The result of an instruction, and the data after computing it. -/
def compute (op : Opcode) (d : Data γ) : BitVec 32 × Data γ :=
  let a := d.registers op.srcA
  let b := d.registers op.srcB
  match op.operation with
  | .ALU =>
      let r := aluResult d.carryFlag a b op.aluOperation
      (r.1, { d with carryFlag := r.2 })
  | .AddImmediate => (a + BitVec.ofInt 32 op.immediate, d)
  | .ExtractInsert =>
      let src := (b >>> op.bfSrcBit.val) &&& op.bitfieldMask
      ((a &&& ~~~(op.bitfieldMask <<< op.bfDstBit.val)) ||| (src <<< op.bfDstBit.val), d)
  | .ExtractShiftLeftImmediate =>
      ((shiftRight env b a &&& op.bitfieldMask) <<< op.bfDstBit.val, d)
  | .ExtractShiftLeftRegister =>
      (shiftLeft env ((b >>> op.bfSrcBit.val) &&& op.bitfieldMask) a, d)
  | .Read => (env.gpu.getRegisterValue d.gpu (a + BitVec.ofInt 32 op.immediate), d)
  | .Unused | .Branch => (0, d)

/-- The body of `Step` for an instruction that is not a branch. -/
def execute (op : Opcode) (d : Data γ) : Option (Data γ) :=
  match op.operation with
  | .Unused | .Branch => some d
  | _ =>
      let r := compute env op d
      processResult env op.resultOperation op.dst r.1 r.2

end Data

def dataSem {γ : Type} (env : Env γ) : InterpreterSem (Data γ) where
  execute := Data.execute env
  isZero reg d := (d.registers reg == 0, d)

/-- The data after `Reset` and the first lines of `Execute`. -/
def Data.initial {γ : Type} (env : Env γ) (g : γ) : Data γ where
  registers := Function.update (fun _ => 0) 1 (env.parameters.headD 0)
  nextParameterIndex := 1
  methodAddress := 0
  carryFlag := false
  gpu := g
  sends := []

def Control.initial {ι : Type} (data : ι) : Control ι := ⟨0, none, data, []⟩

end Voltemu.VideoCore
