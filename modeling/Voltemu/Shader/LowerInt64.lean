import Voltemu.Lib.Emission
import Voltemu.Shader.IntegerOpcodes

/-!
# Lowering of 64-bit integers

`shader_recompiler/ir_opt/lower_int64_to_int32.cpp`: for hosts without 64-bit integers, a 64-bit value becomes a
`U32x2` composite, and each 64-bit operation a sequence of 32-bit ones that is put before it.

* An instruction gives a value and, if it is an addition, a carry.  Only a pseudo-operation reads the carry.
* A shift by the width or more and a bit field that does not fit are undefined.  What an instruction gives then is an
  input, by its name.
* An operation on operands of other types gives nothing of use (`void`): the emitter does not make them.
* What the other opcodes give is a parameter; phis, atomics and memory accesses are among them.
-/

namespace Voltemu.Shader.LowerInt64

open Lib

inductive GlobalAtomic
  | IAdd
  | SMin
  | UMin
  | SMax
  | UMax
  | And
  | Or
  | Xor
  | Exchange
deriving DecidableEq

/-- `IR::Opcode`, as far as this pass reads or emits it. -/
inductive Opcode
  | PackUint2x32
  | UnpackUint2x32
  | IAdd64
  | ISub64
  | INeg64
  | ShiftLeftLogical64
  | ShiftRightLogical64
  | ShiftRightArithmetic64
  | SharedAtomicExchange64
  | SharedAtomicExchange32x2
  | globalAtomic64 (a : GlobalAtomic)
  | globalAtomic32x2 (a : GlobalAtomic)
  | IAdd32
  | ISub32
  | ShiftLeftLogical32
  | ShiftRightLogical32
  | ShiftRightArithmetic32
  | BitwiseOr32
  | BitwiseNot32
  | BitFieldInsert
  | BitFieldUExtract
  | compare (c : Comparison)
  | SelectU32
  | CompositeConstructU32x2
  | CompositeExtractU32x2
  | GetCarryFromOp
  | other (n : ℕ)
deriving DecidableEq

structure Outcome where
  value : Val
  carry : Bool
deriving DecidableEq

/-! ## The words of a 64-bit value -/

def loWord (x : BitVec 64) : BitVec 32 := x.setWidth 32

def hiWord (x : BitVec 64) : BitVec 32 := (x >>> 32).setWidth 32

def words (lo hi : BitVec 32) : Val := .composite [.u32 lo, .u32 hi]

def halves (x : BitVec 64) : Val := words (loWord x) (hiWord x)

/-! ## The meaning of the opcodes -/

def unary32 (f : BitVec 32 → BitVec 32) : List Val → Val
  | [.u32 a] => .u32 (f a)
  | _ => .scalar .void

def binary32 (f : BitVec 32 → BitVec 32 → BitVec 32) : List Val → Val
  | [.u32 a, .u32 b] => .u32 (f a b)
  | _ => .scalar .void

def unary64 (f : BitVec 64 → BitVec 64) : List Val → Val
  | [.u64 a] => .u64 (f a)
  | _ => .scalar .void

def binary64 (f : BitVec 64 → BitVec 64 → BitVec 64) : List Val → Val
  | [.u64 a, .u64 b] => .u64 (f a b)
  | _ => .scalar .void

def shift32 (f : BitVec 32 → ℕ → BitVec 32) (undef : BitVec 32) : List Val → Val
  | [.u32 base, .u32 shift] => .u32 (if shift.toNat < 32 then f base shift.toNat else undef)
  | _ => .scalar .void

def shift64 (f : BitVec 64 → ℕ → BitVec 64) (undef : BitVec 64) : List Val → Val
  | [.u64 base, .u32 shift] => .u64 (if shift.toNat < 64 then f base shift.toNat else undef)
  | _ => .scalar .void

def bitFieldUExtract (undef : BitVec 32) : List Val → Val
  | [.u32 base, .u32 offset, .u32 count] =>
      .u32 (if offset.toNat + count.toNat ≤ 32 then
        extractUnsigned base offset.toNat count.toNat else undef)
  | _ => .scalar .void

def bitFieldInsert (undef : BitVec 32) : List Val → Val
  | [.u32 base, .u32 insert, .u32 offset, .u32 count] =>
      .u32 (if offset.toNat + count.toNat ≤ 32 then
        insertField base insert offset.toNat count.toNat else undef)
  | _ => .scalar .void

def selectU32 : List Val → Val
  | [.u1 condition, .u32 a, .u32 b] => .u32 (if condition then a else b)
  | _ => .scalar .void

def compareU32 (c : Comparison) : List Val → Val
  | [.u32 a, .u32 b] => .u1 (c.eval a b)
  | _ => .scalar .void

def constructU32x2 : List Val → Val
  | [.u32 lo, .u32 hi] => words lo hi
  | _ => .scalar .void

def extractU32x2 : List Val → Val
  | [.composite [lo, hi], .u32 element] =>
      if element = 0 then .scalar lo else if element = 1 then .scalar hi else .scalar .void
  | _ => .scalar .void

def packUint2x32 : List Val → Val
  | [.composite [.u32 lo, .u32 hi]] => .u64 (hi ++ lo)
  | _ => .scalar .void

def unpackUint2x32 : List Val → Val
  | [.u64 x] => halves x
  | _ => .scalar .void

/-- `GetCarryFromOp` reads what the instruction gave besides its value. -/
def getCarry : List Outcome → Val
  | [r] => .u1 r.carry
  | _ => .scalar .void

def carryOut : List Val → Bool
  | [.u32 a, .u32 b] => decide (2 ^ 32 ≤ a.toNat + b.toNat)
  | _ => false

/-- What the IR does not say: what is given where nothing is defined, and by the other opcodes. -/
structure Inputs where
  undef32 : ℕ → BitVec 32
  undef64 : ℕ → BitVec 64
  other : ℕ → Opcode → List Outcome → Outcome → Prop

/-- The value that an operation gives.  The opcodes that are left to the inputs give none here. -/
def Inputs.value (env : Inputs) (id : ℕ) (op : Opcode) (args : List Outcome) : Val :=
  let vals := args.map (·.value)
  match op with
  | .PackUint2x32 => packUint2x32 vals
  | .UnpackUint2x32 => unpackUint2x32 vals
  | .IAdd64 => binary64 (· + ·) vals
  | .ISub64 => binary64 (· - ·) vals
  | .INeg64 => unary64 (- ·) vals
  | .ShiftLeftLogical64 => shift64 (· <<< ·) (env.undef64 id) vals
  | .ShiftRightLogical64 => shift64 (· >>> ·) (env.undef64 id) vals
  | .ShiftRightArithmetic64 => shift64 BitVec.sshiftRight (env.undef64 id) vals
  | .IAdd32 => binary32 (· + ·) vals
  | .ISub32 => binary32 (· - ·) vals
  | .ShiftLeftLogical32 => shift32 (· <<< ·) (env.undef32 id) vals
  | .ShiftRightLogical32 => shift32 (· >>> ·) (env.undef32 id) vals
  | .ShiftRightArithmetic32 => shift32 BitVec.sshiftRight (env.undef32 id) vals
  | .BitwiseOr32 => binary32 (· ||| ·) vals
  | .BitwiseNot32 => unary32 (~~~ ·) vals
  | .BitFieldInsert => bitFieldInsert (env.undef32 id) vals
  | .BitFieldUExtract => bitFieldUExtract (env.undef32 id) vals
  | .compare c => compareU32 c vals
  | .SelectU32 => selectU32 vals
  | .CompositeConstructU32x2 => constructU32x2 vals
  | .CompositeExtractU32x2 => extractU32x2 vals
  | .GetCarryFromOp => getCarry args
  | _ => .scalar .void

def Opcode.carry (op : Opcode) (args : List Outcome) : Bool :=
  match op with
  | .IAdd32 => carryOut (args.map (·.value))
  | _ => false

/-- The opcodes that are left to the inputs. -/
def Opcode.isOther : Opcode → Bool
  | .SharedAtomicExchange64 | .SharedAtomicExchange32x2 | .globalAtomic64 _ | .globalAtomic32x2 _
  | .other _ => true
  | _ => false

/-- **What an operation may give.** -/
def Inputs.holds (env : Inputs) (id : ℕ) (op : Opcode) (args : List Outcome) (r : Outcome) : Prop :=
  if op.isOther then env.other id op args r else r = ⟨env.value id op args, op.carry args⟩

def Inputs.meaning (env : Inputs) : Meaning Opcode Scalar Outcome := ⟨(⟨.scalar ·, false⟩), env.holds⟩

abbrev Value := Lib.Value Scalar

abbrev Inst := Lib.Inst Opcode Scalar

def arg (i : Inst) (index : ℕ) : Value := i.args.getD index (.imm .void)

/-! ## The pass -/

/-- The instructions before the visited one, latest first. -/
abbrev Before := List Inst

/-- Code that uses an `IREmitter`. -/
abbrev IREmitter := Emitter Opcode Scalar

def imm32 (value : BitVec 32) : Value := .imm (.u32 value)

/-- `Value::U64`.  That the immediate is of this type is only asserted. -/
def u64 : Scalar → BitVec 64
  | .u64 value => value
  | _ => 0

structure Unpacked where
  lo : Value
  hi : Value

def unpack (before : Before) (packed : Value) : IREmitter Unpacked :=
  match constant before packed with
  | some k => pure ⟨imm32 (loWord (u64 k)), imm32 (hiWord (u64 k))⟩
  | none => do
      let lo ← emit .CompositeExtractU32x2 [packed, imm32 0]
      let hi ← emit .CompositeExtractU32x2 [packed, imm32 1]
      pure ⟨lo, hi⟩

def iadd64To32 (before : Before) (inst : Inst) : IREmitter Value := do
  let a ← unpack before (arg inst 0)
  let b ← unpack before (arg inst 1)
  let retLo ← emit .IAdd32 [a.lo, b.lo]
  let carries ← emit .GetCarryFromOp [retLo]
  let carry ← emit .SelectU32 [carries, imm32 1, imm32 0]
  let sum ← emit .IAdd32 [a.hi, b.hi]
  let retHi ← emit .IAdd32 [sum, carry]
  emit .CompositeConstructU32x2 [retLo, retHi]

def isub64To32 (before : Before) (inst : Inst) : IREmitter Value := do
  let a ← unpack before (arg inst 0)
  let b ← unpack before (arg inst 1)
  let retLo ← emit .ISub32 [a.lo, b.lo]
  let underflow ← emit (.compare .UGreaterThan) [retLo, a.lo]
  let underflowBit ← emit .SelectU32 [underflow, imm32 1, imm32 0]
  let difference ← emit .ISub32 [a.hi, b.hi]
  let retHi ← emit .ISub32 [difference, underflowBit]
  emit .CompositeConstructU32x2 [retLo, retHi]

def ineg64To32 (before : Before) (inst : Inst) : IREmitter Value := do
  let a ← unpack before (arg inst 0)
  let notLo ← emit .BitwiseNot32 [a.lo]
  let notHi ← emit .BitwiseNot32 [a.hi]
  let lo ← emit .IAdd32 [notLo, imm32 1]
  let carries ← emit .GetCarryFromOp [lo]
  let carry ← emit .SelectU32 [carries, imm32 1, imm32 0]
  let hi ← emit .IAdd32 [notHi, carry]
  emit .CompositeConstructU32x2 [lo, hi]

def shiftLeftLogical64To32 (before : Before) (inst : Inst) : IREmitter Value := do
  let ⟨lo, hi⟩ ← unpack before (arg inst 0)
  let shift := arg inst 1
  let shiftedLo ← emit .ShiftLeftLogical32 [lo, shift]
  let shiftedHi ← emit .ShiftLeftLogical32 [hi, shift]
  let invShift ← emit .ISub32 [shift, imm32 32]
  let isLong ← emit (.compare .SGreaterThanEqual) [invShift, imm32 0]
  let isZero ← emit (.compare .IEqual) [shift, imm32 0]
  let longRetHi ← emit .ShiftLeftLogical32 [lo, invShift]
  let shiftComplement ← emit .ISub32 [imm32 32, shift]
  let loExtract ← emit .BitFieldUExtract [lo, shiftComplement, shift]
  let shortRetHi ← emit .BitwiseOr32 [shiftedHi, loExtract]
  let nonZeroLo ← emit .SelectU32 [isLong, imm32 0, shiftedLo]
  let nonZeroHi ← emit .SelectU32 [isLong, longRetHi, shortRetHi]
  let retLo ← emit .SelectU32 [isZero, lo, nonZeroLo]
  let retHi ← emit .SelectU32 [isZero, hi, nonZeroHi]
  emit .CompositeConstructU32x2 [retLo, retHi]

def shiftRightLogical64To32 (before : Before) (inst : Inst) : IREmitter Value := do
  let ⟨lo, hi⟩ ← unpack before (arg inst 0)
  let shift := arg inst 1
  let shiftedLo ← emit .ShiftRightLogical32 [lo, shift]
  let shiftedHi ← emit .ShiftRightLogical32 [hi, shift]
  let invShift ← emit .ISub32 [shift, imm32 32]
  let isLong ← emit (.compare .SGreaterThanEqual) [invShift, imm32 0]
  let isZero ← emit (.compare .IEqual) [shift, imm32 0]
  let longRetLo ← emit .ShiftRightLogical32 [hi, invShift]
  let shiftComplement ← emit .ISub32 [imm32 32, shift]
  let shortHiExtract ← emit .BitFieldUExtract [hi, imm32 0, shift]
  let shortRetLo ← emit .BitFieldInsert [shiftedLo, shortHiExtract, shiftComplement, shift]
  let nonZeroLo ← emit .SelectU32 [isLong, longRetLo, shortRetLo]
  let nonZeroHi ← emit .SelectU32 [isLong, imm32 0, shiftedHi]
  let retLo ← emit .SelectU32 [isZero, lo, nonZeroLo]
  let retHi ← emit .SelectU32 [isZero, hi, nonZeroHi]
  emit .CompositeConstructU32x2 [retLo, retHi]

def shiftRightArithmetic64To32 (before : Before) (inst : Inst) : IREmitter Value := do
  let ⟨lo, hi⟩ ← unpack before (arg inst 0)
  let shift := arg inst 1
  let shiftedLo ← emit .ShiftRightLogical32 [lo, shift]
  let shiftedHi ← emit .ShiftRightArithmetic32 [hi, shift]
  let signExtension ← emit .ShiftRightArithmetic32 [hi, imm32 31]
  let invShift ← emit .ISub32 [shift, imm32 32]
  let isLong ← emit (.compare .SGreaterThanEqual) [invShift, imm32 0]
  let isZero ← emit (.compare .IEqual) [shift, imm32 0]
  let longRetLo ← emit .ShiftRightArithmetic32 [hi, invShift]
  let shiftComplement ← emit .ISub32 [imm32 32, shift]
  let shortHiExtract ← emit .BitFieldUExtract [hi, imm32 0, shift]
  let shortRetLo ← emit .BitFieldInsert [shiftedLo, shortHiExtract, shiftComplement, shift]
  let nonZeroLo ← emit .SelectU32 [isLong, longRetLo, shortRetLo]
  let nonZeroHi ← emit .SelectU32 [isLong, signExtension, shiftedHi]
  let retLo ← emit .SelectU32 [isZero, lo, nonZeroLo]
  let retHi ← emit .SelectU32 [isZero, hi, nonZeroHi]
  emit .CompositeConstructU32x2 [retLo, retHi]

/-- The sequence is put before the instruction, whose uses become uses of the composite.  An instruction whose flags
are read is not supported. -/
def replacedBy (associated : ℕ → Bool) (fresh : ℕ) (inst : Inst) (sequence : IREmitter Value) :
    Option (List Inst × Inst) :=
  if associated inst.id then none
  else some ((sequence fresh).2, ⟨inst.id, .identity, [(sequence fresh).1]⟩)

def replaceOpcode (inst : Inst) (code : Code Opcode) : Option (List Inst × Inst) :=
  some ([], { inst with code := code })

/-- **`Lower`.**  Which instructions have pseudo-operations is an input. -/
def lower (associated : ℕ → Bool) (before : Before) (fresh : ℕ) (inst : Inst) : Option (List Inst × Inst) :=
  match inst.code with
  | .op .PackUint2x32 | .op .UnpackUint2x32 => replaceOpcode inst .identity
  | .op .IAdd64 => replacedBy associated fresh inst (iadd64To32 before inst)
  | .op .ISub64 => replacedBy associated fresh inst (isub64To32 before inst)
  | .op .INeg64 => replacedBy associated fresh inst (ineg64To32 before inst)
  | .op .ShiftLeftLogical64 => replacedBy associated fresh inst (shiftLeftLogical64To32 before inst)
  | .op .ShiftRightLogical64 =>
      replacedBy associated fresh inst (shiftRightLogical64To32 before inst)
  | .op .ShiftRightArithmetic64 =>
      replacedBy associated fresh inst (shiftRightArithmetic64To32 before inst)
  | .op .SharedAtomicExchange64 => replaceOpcode inst (.op .SharedAtomicExchange32x2)
  | .op (.globalAtomic64 a) => replaceOpcode inst (.op (.globalAtomic32x2 a))
  | _ => some ([], inst)

/-- **`LowerInt64ToInt32`**, over the instructions of a block, or of the blocks one after another. -/
def lowerInt64ToInt32 (associated : ℕ → Bool) (insts : List Inst) (fresh : ℕ) : Option (List Inst) :=
  walk (lower associated) insts [] fresh

end Voltemu.Shader.LowerInt64
