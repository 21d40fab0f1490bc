import Voltemu.Lib.Valuation
import Mathlib.Data.BitVec

/-!
# The integer opcodes of the shader IR

`shader_recompiler/frontend/ir`: immediates, the opcodes that the integer part of constant propagation folds or looks
for, and their meaning.

* A floating point immediate is its bits.  Registers, predicates and attributes are immediates too.
* An operation that the IR leaves undefined on some operands, such as a shift by 32 or more, has any value there.  An
  operation on operands of other types, or an element outside of a composite, has none: the emitter does not make them.
* All other opcodes are `other`.  What they may give is a parameter; phis, memory accesses, floating point operations
  and the pseudo-operations for the flags are among them.
-/

namespace Voltemu.Shader

/-- The payload of an immediate `IR::Value`. -/
inductive Scalar
  | void
  | reg (index : Fin 256)
  | pred (index : Fin 8)
  | attribute (index : ℕ)
  | patch (index : ℕ)
  | u1 (value : Bool)
  | u8 (value : BitVec 8)
  | u16 (value : BitVec 16)
  | u32 (value : BitVec 32)
  | u64 (value : BitVec 64)
  | f16 (bits : BitVec 16)
  | f32 (bits : BitVec 32)
  | f64 (bits : BitVec 64)
deriving DecidableEq

inductive Val
  | scalar (s : Scalar)
  | composite (elements : List Scalar)
deriving DecidableEq

@[match_pattern] abbrev Val.u32 (v : BitVec 32) : Val := .scalar (.u32 v)

@[match_pattern] abbrev Val.u64 (v : BitVec 64) : Val := .scalar (.u64 v)

@[match_pattern] abbrev Val.u1 (v : Bool) : Val := .scalar (.u1 v)

inductive Comparison
  | SLessThan
  | ULessThan
  | IEqual
  | SLessThanEqual
  | ULessThanEqual
  | SGreaterThan
  | UGreaterThan
  | INotEqual
  | SGreaterThanEqual
  | UGreaterThanEqual
deriving DecidableEq

inductive SelectType
  | U1
  | U8
  | U16
  | U32
  | U64
  | F16
  | F32
  | F64
deriving DecidableEq

inductive CompositeType
  | U32x2
  | U32x3
  | U32x4
  | F16x2
  | F16x3
  | F16x4
  | F32x2
  | F32x3
  | F32x4
deriving DecidableEq

def CompositeType.size : CompositeType → ℕ
  | .U32x2 | .F16x2 | .F32x2 => 2
  | .U32x3 | .F16x3 | .F32x3 => 3
  | .U32x4 | .F16x4 | .F32x4 => 4

inductive Opcode
  | GetRegister
  | GetPred
  | GetCbufU32
  | IAdd32
  | IAdd64
  | ISub32
  | IMul32
  | ShiftLeftLogical32
  | ShiftRightArithmetic32
  | BitwiseAnd32
  | BitwiseOr32
  | BitwiseXor32
  | BitFieldInsert
  | BitFieldSExtract
  | BitFieldUExtract
  | compare (c : Comparison)
  | LogicalOr
  | LogicalAnd
  | LogicalNot
  | select (t : SelectType)
  | compositeConstruct (t : CompositeType)
  | compositeExtract (t : CompositeType)
  | compositeInsert (t : CompositeType)
  | other (n : ℕ)
deriving DecidableEq

def Comparison.eval (a b : BitVec 32) : Comparison → Bool
  | .SLessThan => a.slt b
  | .ULessThan => a.ult b
  | .IEqual => a == b
  | .SLessThanEqual => a.sle b
  | .ULessThanEqual => a.ule b
  | .SGreaterThan => b.slt a
  | .UGreaterThan => b.ult a
  | .INotEqual => a != b
  | .SGreaterThanEqual => b.sle a
  | .UGreaterThanEqual => b.ule a

def fieldMask (offset bits : ℕ) : BitVec 32 := BitVec.ofNat 32 (2 ^ bits - 1) <<< offset

/-- The bits of a value from an offset on, without sign. -/
def extractUnsigned (base : BitVec 32) (offset count : ℕ) : BitVec 32 :=
  BitVec.ofNat 32 (base.toNat / 2 ^ offset % 2 ^ count)

/-- The bits of a value from an offset on, with sign. -/
def extractSigned (base : BitVec 32) (offset count : ℕ) : BitVec 32 :=
  ((base >>> offset).setWidth count).signExtend 32

def insertField (base insert : BitVec 32) (offset bits : ℕ) : BitVec 32 :=
  (base &&& ~~~fieldMask offset bits) ||| ((insert <<< offset) &&& fieldMask offset bits)

/-- What the IR does not say: the constant buffers, and what the other opcodes give, by instruction. -/
structure Inputs where
  cbuf : Scalar → Scalar → BitVec 32
  other : ℕ → ℕ → List Val → Val → Prop

def zeroRegister : Fin 256 := 255

/-- The predicate `PT`, which is true. -/
def truePredicate : Fin 8 := 7

def Binary32 (f : BitVec 32 → BitVec 32 → BitVec 32) (args : List Val) (v : Val) : Prop :=
  ∃ a b, args = [.u32 a, .u32 b] ∧ v = .u32 (f a b)

/-- An operation on two 32-bit values that is defined for shifts below 32. -/
def Shift32 (f : BitVec 32 → ℕ → BitVec 32) (args : List Val) (v : Val) : Prop :=
  ∃ a b r, args = [.u32 a, .u32 b] ∧ v = .u32 r ∧ (b.toNat < 32 → r = f a b.toNat)

/-- An extraction of a bit field, defined for fields inside the value. -/
def Extract32 (f : BitVec 32 → ℕ → ℕ → BitVec 32) (args : List Val) (v : Val) : Prop :=
  ∃ base offset count r, args = [.u32 base, .u32 offset, .u32 count] ∧ v = .u32 r ∧
    (offset.toNat + count.toNat ≤ 32 → r = f base offset.toNat count.toNat)

/-- **The values that an operation may have.** -/
def Inputs.holds (env : Inputs) (id : ℕ) (op : Opcode) (args : List Val) (v : Val) : Prop :=
  match op with
  | .GetRegister => ∃ r x, args = [.scalar (.reg r)] ∧ v = .u32 x ∧ (r = zeroRegister → x = 0)
  | .GetPred => ∃ p x, args = [.scalar (.pred p)] ∧ v = .u1 x ∧ (p = truePredicate → x = true)
  | .GetCbufU32 => ∃ b o, args = [.scalar b, .scalar o] ∧ v = .u32 (env.cbuf b o)
  | .IAdd32 => Binary32 (· + ·) args v
  | .IAdd64 => ∃ a b, args = [.u64 a, .u64 b] ∧ v = .u64 (a + b)
  | .ISub32 => Binary32 (· - ·) args v
  | .IMul32 => Binary32 (· * ·) args v
  | .ShiftLeftLogical32 => Shift32 (· <<< ·) args v
  | .ShiftRightArithmetic32 => Shift32 BitVec.sshiftRight args v
  | .BitwiseAnd32 => Binary32 (· &&& ·) args v
  | .BitwiseOr32 => Binary32 (· ||| ·) args v
  | .BitwiseXor32 => Binary32 (· ^^^ ·) args v
  | .BitFieldInsert => ∃ base insert offset bits r,
      args = [.u32 base, .u32 insert, .u32 offset, .u32 bits] ∧ v = .u32 r ∧
        (offset.toNat + bits.toNat ≤ 32 → r = insertField base insert offset.toNat bits.toNat)
  | .BitFieldSExtract => Extract32 extractSigned args v
  | .BitFieldUExtract => Extract32 extractUnsigned args v
  | .compare c => ∃ a b, args = [.u32 a, .u32 b] ∧ v = .u1 (c.eval a b)
  | .LogicalOr => ∃ a b, args = [.u1 a, .u1 b] ∧ v = .u1 (a || b)
  | .LogicalAnd => ∃ a b, args = [.u1 a, .u1 b] ∧ v = .u1 (a && b)
  | .LogicalNot => ∃ a, args = [.u1 a] ∧ v = .u1 (!a)
  | .select _ => ∃ c x y, args = [.u1 c, x, y] ∧ v = if c then x else y
  | .compositeConstruct t => ∃ l : List Scalar, args = l.map .scalar ∧ l.length = t.size ∧ v = .composite l
  | .compositeExtract t => ∃ (l : List Scalar) (k : BitVec 32) (x : Scalar),
      args = [.composite l, .u32 k] ∧ l.length = t.size ∧ l[k.toNat]? = some x ∧ v = .scalar x
  | .compositeInsert t => ∃ (l : List Scalar) (x : Scalar) (k : BitVec 32),
      args = [.composite l, .scalar x, .u32 k] ∧ l.length = t.size ∧ k.toNat < t.size ∧ v = .composite (l.set k.toNat x)
  | .other n => env.other id n args v

def Inputs.meaning (env : Inputs) : Lib.Meaning Opcode Scalar Val := ⟨.scalar, env.holds⟩

abbrev Value := Lib.Value Scalar

abbrev Inst := Lib.Inst Opcode Scalar

def arg (i : Inst) (index : ℕ) : Value := i.args.getD index (.imm .void)

end Voltemu.Shader
