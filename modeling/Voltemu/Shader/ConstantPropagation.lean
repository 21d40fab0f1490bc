import Voltemu.Shader.IntegerOpcodes

/-!
# Constant propagation

The integer part of `shader_recompiler/ir_opt/constant_propagation_pass.cpp`.

* The pass visits the instructions in order.  The operands of an instruction stand before it; only those of phis and
  other opcodes may stand later, and the pass does not look at those.
* A visit gives the new instructions and what the visited one becomes, or `none` where the code throws or an
  assertion about types fails.
* The folds of the other opcodes (floating point, bit casts, packing, constant buffers) are a parameter.
-/

namespace Voltemu.Shader

open Lib

/-- What the pass depends on besides the program. -/
structure Params where
  /-- `HasAssociatedPseudoOperation`: a pseudo-operation for a flag was attached to the instruction. -/
  associated : ℕ → Bool
  /-- What the host gives for a shift of a `u32` by 32 or more, which is undefined. -/
  wideShift : BitVec 32 → ℕ → BitVec 32
  /-- The folds of the other opcodes. -/
  others : Visit Opcode Scalar

/-- The code of a visit: the instructions before it, latest first. -/
abbrev Before := List Inst

def replaceUsesWith (inst : Inst) (v : Value) : Inst := ⟨inst.id, .identity, [v]⟩

def isImmediate (before : Before) (v : Value) : Bool := (constant before v).isSome

/-- The types that `FoldCommutative` is used for. -/
structure ImmediateType (T : Type) where
  get : Scalar → Option T
  imm : T → Scalar

def immU1 : ImmediateType Bool := ⟨fun | .u1 b => some b | _ => none, .u1⟩

def immU32 : ImmediateType (BitVec 32) := ⟨fun | .u32 v => some v | _ => none, .u32⟩

def immU64 : ImmediateType (BitVec 64) := ⟨fun | .u64 v => some v | _ => none, .u64⟩

/-- The immediate operand of an instruction of the same opcode, and its other operand. -/
def sameOperation (before : Before) (inst : Inst) (v : Value) : Option (Value × Scalar) := do
  let other ← source before v
  if other.code = inst.code then
    let k ← constant before (arg other 1)
    some (arg other 0, k)
  else none

/-- `FoldCommutative`: whether to go on, and what the instruction has become. -/
def foldCommutative {T : Type} (t : ImmediateType T) (f : T → T → T) (before : Before)
    (inst : Inst) : Option (Bool × Inst) :=
  let lhs := arg inst 0
  let rhs := arg inst 1
  match constant before lhs, constant before rhs with
  | some a, some b => do
      let result := f (← t.get a) (← t.get b)
      some (false, replaceUsesWith inst (.imm (t.imm result)))
  | some a, none =>
      match sameOperation before inst rhs with
      | some (x, b) => do
          let combined := f (← t.get a) (← t.get b)
          some (true, { inst with args := [x, .imm (t.imm combined)] })
      | none => some (true, { inst with args := [rhs, lhs] })
  | none, some b =>
      match sameOperation before inst lhs with
      | some (x, a) => do
          let combined := f (← t.get b) (← t.get a)
          some (true, { inst with args := [x, .imm (t.imm combined)] })
      | none => some (true, inst)
  | none, none => some (true, inst)

/-- `inst->GetOpcode() == opcode` on the instruction that a value resolves to. -/
def instOf (before : Before) (op : Opcode) (v : Value) : Option Inst :=
  (source before v).filter fun i => decide (i.code = .op op)

def equalCbuf (a b : Inst) : Bool :=
  decide (a.code = .op .GetCbufU32) && decide (b.code = .op .GetCbufU32) &&
    decide (arg a 0 = arg b 0) && decide (arg a 1 = arg b 1)

/-- The comparison of `AreEqual`, on resolved values. -/
def sameValue (before : Before) (v w : Value) : Bool :=
  decide (v = w) || match source before v, source before w with
    | some a, some b => equalCbuf a b
    | _, _ => false

def areEqual (before : Before) (u v w : Value) : Bool :=
  sameValue before (resolve before u) (resolve before v) && sameValue before (resolve before v) (resolve before w)

def imm32 (n : ℕ) : Value := .imm (.u32 (BitVec.ofNat 32 n))

/-- `BitFieldUExtract` of sixteen bits. -/
def extract16 (before : Before) (offset : ℕ) (v : Value) : Option Value := do
  let i ← instOf before .BitFieldUExtract v
  if arg i 1 = imm32 offset ∧ arg i 2 = imm32 16 then some (arg i 0) else none

/-- `ShiftLeftLogical32` by sixteen. -/
def shift16 (before : Before) (v : Value) : Option Value := do
  let i ← instOf before .ShiftLeftLogical32 v
  if arg i 1 = imm32 16 then some (arg i 0) else none

/-- The pattern of `FoldXmadMultiply`: the two factors. -/
def xmadMultiply (before : Before) (inst : Inst) : Option (Value × Value) := do
  let lhsMul ← instOf before .IMul32 (← shift16 before (arg inst 0))
  let rhsMul ← instOf before .IMul32 (arg inst 1)
  let factorA ← extract16 before 16 (arg lhsMul 0)
  let factorA' ← extract16 before 0 (arg rhsMul 0)
  if resolve before (arg lhsMul 1) = resolve before (arg rhsMul 1) ∧
      resolve before factorA = resolve before factorA' then
    some (factorA, arg lhsMul 1)
  else none

/-- The pattern of `FoldXmadMultiplyAdd`: the two factors and the summand. -/
def xmadMultiplyAdd (before : Before) (inst : Inst) : Option (Value × Value × Value) := do
  let i27 ← instOf before .IAdd32 (arg inst 1)
  let i24 ← instOf before .IMul32 (← shift16 before (arg inst 0))
  let b22 ← extract16 before 16 (arg i24 0)
  let v11 ← extract16 before 16 (arg i24 1)
  let i11 ← instOf before .BitFieldInsert v11
  let i8 ← instOf before .IMul32 (arg i11 0)
  let a10 ← extract16 before 0 (arg i11 1)
  let b6 ← extract16 before 0 (arg i8 0)
  let a7 ← extract16 before 16 (arg i8 1)
  let v26 ← shift16 before (arg i27 0)
  let i26 ← source before v26
  let i18 ← instOf before .IAdd32 (arg i27 1)
  let i17 ← instOf before .IMul32 (arg i18 0)
  let b15 ← extract16 before 0 (arg i17 0)
  let a16 ← extract16 before 0 (arg i17 1)
  if arg i11 2 = imm32 16 ∧ arg i11 3 = imm32 16 ∧ i26 = i11 ∧ areEqual before a7 a16 a10 ∧
      areEqual before b22 b6 b15 then
    some (resolve before a7, resolve before b6, arg i18 1)
  else none

/-- The last part of `FoldAdd<u32>`. -/
def foldXmad (before : Before) (fresh : ℕ) (inst : Inst) : List Inst × Inst :=
  match xmadMultiply before inst with
  | some (a, b) => ([⟨fresh, .op .IMul32, [a, b]⟩], replaceUsesWith inst (.inst fresh))
  | none =>
      match xmadMultiplyAdd before inst with
      | some (a, b, c) =>
          ([⟨fresh, .op .IMul32, [a, b]⟩, ⟨fresh + 1, .op .IAdd32, [.inst fresh, c]⟩],
            replaceUsesWith inst (.inst (fresh + 1)))
      | none => ([], inst)

/-- `FoldAdd`, with what follows the check for zero. -/
def foldAdd {T : Type} [DecidableEq T] (t : ImmediateType T) (zero : T) (add : T → T → T)
    (xmad : Inst → List Inst × Inst) (associated : Bool) (before : Before) (inst : Inst) :
    Option (List Inst × Inst) :=
  if associated then some ([], inst)
  else do
    let (goOn, inst) ← foldCommutative t add before inst
    if goOn then
      match constant before (arg inst 1) with
      | some k =>
          if (← t.get k) = zero then some ([], replaceUsesWith inst (arg inst 0))
          else some (xmad inst)
      | none => some (xmad inst)
    else some ([], inst)

/-- `FoldWhenAllImmediates`: nothing when the fold does not apply, and `none` inside when it throws. -/
def foldWhenAllImmediates (f : List Scalar → Option Scalar) (associated : Bool) (before : Before)
    (inst : Inst) : Option (Option (List Inst × Inst)) :=
  if associated then none
  else (inst.args.mapM (constant before)).map fun ks =>
    (f ks).map fun k => ([], replaceUsesWith inst (.imm k))

/-- The patterns of `FoldISub32`: what is put in the place of the difference, and whether the operands were swapped to
find it. -/
def cbufDifference (before : Before) (inst : Inst) : Option (Value × Bool) := do
  let opA ← source before (arg inst 0)
  let opB ← source before (arg inst 1)
  if equalCbuf opA opB then some (imm32 0, false)
  else
    -- canonicalize local variables to simplify the following logic
    let swapped := decide (opB.code = .op .IAdd32)
    let add := if swapped then opB else opA
    let cbuf := if swapped then opA else opB
    if cbuf.code = .op .GetCbufU32 ∧ add.code = .op .IAdd32 then
      let swap := isImmediate before (arg add 1)
      let addOpA := if swap then arg add 1 else arg add 0
      let addOpB := if swap then arg add 0 else arg add 1
      let addCbuf ← source before addOpB
      if equalCbuf addCbuf cbuf then some (addOpA, swapped) else none
    else none

/-- `FoldCompositeExtractImpl`. -/
def compositeElement (t : CompositeType) (firstIndex : BitVec 32) : Before → Value → Option Value
  | _, .imm _ => none
  | [], .inst _ => none
  | i :: older, .inst id =>
      if i.id = id then
        match i.code with
        | .identity => compositeElement t firstIndex older (arg i 0)
        | .op (.compositeConstruct t') =>
            if t' = t then some (arg i firstIndex.toNat) else none
        | .op (.compositeInsert t') =>
            if t' = t then
              match constant older (arg i 2) with
              | some (.u32 secondIndex) =>
                  if firstIndex ≠ secondIndex then compositeElement t firstIndex older (arg i 0)
                  else some (arg i 1)
              | _ => none
            else none
        | _ => none
      else compositeElement t firstIndex older (.inst id)

section Immediates

variable (p : Params)

/-- `value >> count`. -/
def Params.shiftRight (value : BitVec 32) (count : ℕ) : BitVec 32 :=
  if count < 32 then value >>> count else p.wideShift value count

/-- `value << count`. -/
def Params.shiftLeft (value : BitVec 32) (count : ℕ) : BitVec 32 :=
  if count < 32 then value <<< count else p.wideShift value count

/-- `value >> count` on a signed value. -/
def Params.arithmeticShiftRight (value : BitVec 32) (count : ℕ) : BitVec 32 :=
  if count < 32 then value.sshiftRight count else p.wideShift value count

/-- The functions given to `FoldWhenAllImmediates`; `none` is a thrown exception. -/
def Params.evalImmediates (op : Opcode) (args : List Scalar) : Option Scalar :=
  match args with
  | [.u32 a, .u32 b] =>
      match op with
      | .ISub32 => some (.u32 (a - b))
      | .IMul32 => some (.u32 (a * b))
      | .ShiftRightArithmetic32 => some (.u32 (p.arithmeticShiftRight a b.toNat))
      | .BitwiseAnd32 => some (.u32 (a &&& b))
      | .BitwiseOr32 => some (.u32 (a ||| b))
      | .BitwiseXor32 => some (.u32 (a ^^^ b))
      | .compare c => some (.u1 (c.eval a b))
      | _ => none
  | [.u32 base, .u32 shift, .u32 count] =>
      match op with
      | .BitFieldUExtract =>
          if shift.toNat + count.toNat > 32 then none
          else some (.u32 (p.shiftRight base shift.toNat &&& (p.shiftLeft 1 count.toNat - 1)))
      | .BitFieldSExtract =>
          let backShift := shift.toNat + count.toNat
          if backShift > 32 ∨ backShift = 0 ∨ count.toNat = 0 then none
          else some (.u32 ((base <<< (32 - backShift)).sshiftRight (32 - count.toNat)))
      | _ => none
  | [.u32 base, .u32 insert, .u32 offset, .u32 bits] =>
      match op with
      | .BitFieldInsert =>
          if bits.toNat ≥ 32 ∨ offset.toNat ≥ 32 then none
          else some (.u32 ((base &&& ~~~(~~~(BitVec.allOnes 32 <<< bits.toNat) <<< offset.toNat)) |||
            (insert <<< offset.toNat)))
      | _ => none
  | _ => none

def Params.foldISub32 (before : Before) (inst : Inst) : Option (List Inst × Inst) :=
  match foldWhenAllImmediates (p.evalImmediates .ISub32) (p.associated inst.id) before inst with
  | some r => r
  | none =>
      if isImmediate before (arg inst 0) || isImmediate before (arg inst 1) then some ([], inst)
      else match cbufDifference before inst with
        | some (v, _) => some ([], replaceUsesWith inst v)
        | none => some ([], inst)

/-- `FoldLogicalAnd` and `FoldLogicalOr`: `neutral` is the immediate that gives the other operand. -/
def foldLogical (f : Bool → Bool → Bool) (neutral : Bool) (before : Before) (inst : Inst) :
    Option (List Inst × Inst) := do
  let (goOn, inst) ← foldCommutative immU1 f before inst
  if goOn then
    match constant before (arg inst 1) with
    | some k =>
        let b ← immU1.get k
        some ([], replaceUsesWith inst (if b = neutral then arg inst 0 else .imm (.u1 (!neutral))))
    | none => some ([], inst)
  else some ([], inst)

def foldLogicalNot (before : Before) (inst : Inst) : Option (List Inst × Inst) :=
  match constant before (arg inst 0) with
  | some k => (immU1.get k).map fun b => ([], replaceUsesWith inst (.imm (.u1 (!b))))
  | none =>
      match instOf before .LogicalNot (arg inst 0) with
      | some i => some ([], replaceUsesWith inst (arg i 0))
      | none => some ([], inst)

def foldSelect (before : Before) (inst : Inst) : Option (List Inst × Inst) :=
  match constant before (arg inst 0) with
  | some k => (immU1.get k).map fun b =>
      ([], replaceUsesWith inst (if b then arg inst 1 else arg inst 2))
  | none => some ([], inst)

def foldCompositeExtract (t : CompositeType) (before : Before) (inst : Inst) : Option (List Inst × Inst) :=
  match constant before (arg inst 1) with
  | some k => (immU32.get k).map fun index =>
      match compositeElement t index before (arg inst 0) with
      | some v => ([], replaceUsesWith inst v)
      | none => ([], inst)
  | none => some ([], inst)

def foldGetRegister (inst : Inst) : List Inst × Inst :=
  if arg inst 0 = .imm (.reg zeroRegister) then ([], replaceUsesWith inst (imm32 0)) else ([], inst)

def foldGetPred (inst : Inst) : List Inst × Inst :=
  if arg inst 0 = .imm (.pred truePredicate) then ([], replaceUsesWith inst (.imm (.u1 true)))
  else ([], inst)

/-- **`ConstantPropagation`**: the visit of an instruction. -/
def Params.constantPropagation (before : Before) (fresh : ℕ) (inst : Inst) : Option (List Inst × Inst) :=
  match inst.code with
  | .void | .identity => some ([], inst)
  | .op op =>
      match op with
      | .GetRegister => some (foldGetRegister inst)
      | .GetPred => some (foldGetPred inst)
      | .IAdd32 =>
          foldAdd immU32 0 (· + ·) (foldXmad before fresh) (p.associated inst.id) before inst
      | .IAdd64 => foldAdd immU64 0 (· + ·) (fun i => ([], i)) (p.associated inst.id) before inst
      | .ISub32 => p.foldISub32 before inst
      | .select _ => foldSelect before inst
      | .LogicalAnd => foldLogical (· && ·) true before inst
      | .LogicalOr => foldLogical (· || ·) false before inst
      | .LogicalNot => foldLogicalNot before inst
      | .compositeExtract t => foldCompositeExtract t before inst
      | .IMul32 | .ShiftRightArithmetic32 | .BitwiseAnd32 | .BitwiseOr32 | .BitwiseXor32
      | .BitFieldInsert | .BitFieldSExtract | .BitFieldUExtract | .compare _ =>
          (foldWhenAllImmediates (p.evalImmediates op) (p.associated inst.id) before inst).getD (some ([], inst))
      | .ShiftLeftLogical32 | .compositeConstruct _ | .compositeInsert _ => some ([], inst)
      | .GetCbufU32 | .other _ => p.others before fresh inst

/-- `ConstantPropagationPass`, given the instructions in the order of the visits and the next free name. -/
def Params.constantPropagationPass (insts : List Inst) (fresh : ℕ) : Option (List Inst) :=
  walk p.constantPropagation insts [] fresh

end Immediates

end Voltemu.Shader
