import Voltemu.Dynarmic.IntegerOps

/-!
# `ConstantPropagation`

`ir/opt_passes.cpp`: one walk over a block from its first instruction to the last.  An instruction is replaced
by an immediate or by an earlier value, or gets other arguments.

* The instructions that the walk has passed stand in `before`, the latest first; `rest` are those to come.
* A `GetCarryFromOp` is replaced together with its instruction, while it is still to come.
* The associated pseudo-operations of an instruction are those to come that name it.  Use counts play no part.
* A type that an accessor does not expect ends in an assertion; here it counts as zero.
-/

namespace Voltemu.Dynarmic.Folding

open Voltemu.Lib

/-! ## Immediates -/

section Immediates

variable {O α : Type*}

/-- `Value::GetImmediateAsU64`. -/
def asU64 : Val α → BitVec 64
  | .u1 b => BitVec.ofNat 64 b.toNat
  | .u8 x => x.setWidth 64
  | .u16 x => x.setWidth 64
  | .u32 x => x.setWidth 64
  | .u64 x => x
  | _ => 0

/-- `Value::GetImmediateAsS64`. -/
def asS64 : Val α → BitVec 64
  | .u1 b => BitVec.ofNat 64 b.toNat
  | .u8 x => x.signExtend 64
  | .u16 x => x.signExtend 64
  | .u32 x => x.signExtend 64
  | .u64 x => x
  | _ => 0

def getU1 : Val α → Bool
  | .u1 b => b
  | _ => false

def getU8 : Val α → BitVec 8
  | .u8 x => x
  | _ => 0

/-- `Value::GetU32` or `Value::GetU64`. -/
def Width.getImm (w : Width) (k : Val α) : BitVec w.bits := (w.get k).getD 0

/-- `Value(is_32_bit, value)`. -/
def Width.ofU64 : Width → BitVec 64 → Val α
  | .w32, x => .u32 (x.setWidth 32)
  | .w64, x => .u64 x

variable (before : List (Inst (Op O) (Val α)))

def isUnsignedImmediate (v : Value (Val α)) (x : BitVec 64) : Bool :=
  (resolve before v).any fun k => asU64 k == x

def isZero (v : Value (Val α)) : Bool := isUnsignedImmediate before v 0

def hasAllBitsSet (v : Value (Val α)) : Bool := (resolve before v).any fun k => asS64 k == -1

end Immediates

/-! ## Instructions -/

section Instructions

variable {O α : Type*}

def replaceUsesWith (i : Inst (Op O) (Val α)) (v : Value (Val α)) : Inst (Op O) (Val α) :=
  ⟨i.id, .identity, [v]⟩

def isAPseudoOperation : Code (Op O) → Bool
  | .op (.pseudo _) | .op .getNZFromOp | .op .mostSignificantBit | .op (.isZero _) => true
  | _ => false

/-- `MayGetNZCVFromOp`, of the operations here. -/
def mayGetNZCVFromOp : Op O → Bool
  | .add _ | .sub _ | .and _ | .eor _ | .or _ | .not _ => true
  | _ => false

def hasArg (id : ℕ) (j : Inst (Op O) (Val α)) : Bool :=
  match j.args with
  | .inst id' :: _ => id' == id
  | _ => false

def isAssociated (p : Pseudo) (id : ℕ) (j : Inst (Op O) (Val α)) : Bool :=
  match j.code with
  | .op (.pseudo q) => q == p && hasArg id j
  | _ => false

def hasAssociatedPseudoOperation (id : ℕ) (rest : List (Inst (Op O) (Val α))) : Bool :=
  rest.any fun j => isAPseudoOperation j.code && hasArg id j

/-- Whether `Inst::GetAssociatedPseudoOperation` finds one. -/
def getAssociatedPseudoOperation (p : Pseudo) (id : ℕ) (rest : List (Inst (Op O) (Val α))) : Bool :=
  rest.any (isAssociated p id)

/-- `ReplaceUsesWith` on the pseudo-operation that is found. -/
def replaceAssociated (p : Pseudo) (id : ℕ) (v : Value (Val α)) : List (Inst (Op O) (Val α)) → List (Inst (Op O) (Val α))
  | [] => []
  | j :: rest =>
      if isAssociated p id j then replaceUsesWith j v :: rest
      else j :: replaceAssociated p id v rest

end Instructions

/-! ## Folding -/

section Fold

variable {O α : Type*} (before : List (Inst (Op O) (Val α)))

/-- An instruction with immediates only is replaced by a value. -/
def foldAll (i : Inst (Op O) (Val α)) (f : List (Val α) → Option (Val α)) : Inst (Op O) (Val α) :=
  match (i.args.mapM (resolve before)).bind f with
  | some v => replaceUsesWith i (.imm v)
  | none => i

def one (f : Val α → Val α) : List (Val α) → Option (Val α)
  | [k] => some (f k)
  | _ => none

def two (f : Val α → Val α → Val α) : List (Val α) → Option (Val α)
  | [k, l] => some (f k l)
  | _ => none

def three (f : Val α → Val α → Val α → Val α) : List (Val α) → Option (Val α)
  | [k, l, c] => some (f k l c)
  | _ => none

def foldLeastSignificantByte (i : Inst (Op O) (Val α)) : Inst (Op O) (Val α) :=
  foldAll before i (one fun k => .u8 ((asU64 k).setWidth 8))

def foldLeastSignificantHalf (i : Inst (Op O) (Val α)) : Inst (Op O) (Val α) :=
  foldAll before i (one fun k => .u16 ((asU64 k).setWidth 16))

def foldLeastSignificantWord (i : Inst (Op O) (Val α)) : Inst (Op O) (Val α) :=
  foldAll before i (one fun k => .u32 ((asU64 k).setWidth 32))

def foldMostSignificantBit (i : Inst (Op O) (Val α)) : Inst (Op O) (Val α) :=
  foldAll before i (one fun k => .u1 (asU64 k >>> 31 != 0))

def foldNOT (i : Inst (Op O) (Val α)) (w : Width) : Inst (Op O) (Val α) :=
  foldAll before i (one fun k => w.ofU64 (~~~(asU64 k)))

def foldSignExtendXToWord (i : Inst (Op O) (Val α)) : Inst (Op O) (Val α) :=
  foldAll before i (one fun k => .u32 ((asS64 k).setWidth 32))

def foldSignExtendXToLong (i : Inst (Op O) (Val α)) : Inst (Op O) (Val α) :=
  foldAll before i (one fun k => .u64 (asS64 k))

def foldZeroExtendXToWord (i : Inst (Op O) (Val α)) : Inst (Op O) (Val α) :=
  foldAll before i (one fun k => .u32 ((asU64 k).setWidth 32))

def foldZeroExtendXToLong (i : Inst (Op O) (Val α)) : Inst (Op O) (Val α) :=
  foldAll before i (one fun k => .u64 (asU64 k))

def foldByteReverseWord (i : Inst (Op O) (Val α)) : Inst (Op O) (Val α) :=
  foldAll before i (one fun k => .u32 (swapBytes32 ((asU64 k).setWidth 32)))

def foldByteReverseHalf (i : Inst (Op O) (Val α)) : Inst (Op O) (Val α) :=
  foldAll before i (one fun k => .u16 (swapBytes16 ((asU64 k).setWidth 16)))

def foldByteReverseDual (i : Inst (Op O) (Val α)) : Inst (Op O) (Val α) :=
  foldAll before i (one fun k => .u64 (swapBytes64 (asU64 k)))

def countlZero (k : Val α) : Width → Val α
  | .w32 => .u32 ((asU64 k).setWidth 32).clz
  | .w64 => .u64 (asU64 k).clz

def foldCountLeadingZeros (i : Inst (Op O) (Val α)) (w : Width) : Inst (Op O) (Val α) :=
  foldAll before i (one fun k => countlZero k w)

def foldIsZero (i : Inst (Op O) (Val α)) (w : Width) : Inst (Op O) (Val α) :=
  foldAll before i (one fun k => .u1 (w.getImm k == 0))

def maskedShift {n : ℕ} (x y : BitVec n) : Shift → BitVec 64
  | .logicalLeft => (x <<< (y &&& BitVec.ofNat n (n - 1)).toNat).setWidth 64
  | .logicalRight => (x >>> (y &&& BitVec.ofNat n (n - 1)).toNat).setWidth 64
  | .arithmeticRight => (x.sshiftRight (y &&& BitVec.ofNat n (n - 1)).toNat).signExtend 64
  | .rotateRight => (x.rotateRight y.toNat).setWidth 64

def foldShiftMasked (i : Inst (Op O) (Val α)) (k : Shift) (w : Width) : Inst (Op O) (Val α) :=
  foldAll before i (two fun x y => w.ofU64 (maskedShift (w.getImm x) (w.getImm y) k))

def foldSub (i : Inst (Op O) (Val α)) (rest : List (Inst (Op O) (Val α))) (w : Width) : Inst (Op O) (Val α) :=
  if hasAssociatedPseudoOperation i.id rest then i
  else foldAll before i (three fun a b c =>
    w.ofU64 (asU64 a + ~~~(asU64 b) + BitVec.ofNat 64 (getU1 c).toNat))

def foldMostSignificantWord (i : Inst (Op O) (Val α)) (rest : List (Inst (Op O) (Val α))) :
    Inst (Op O) (Val α) × List (Inst (Op O) (Val α)) :=
  match i.args.mapM (resolve before) with
  | some [k] => (replaceUsesWith i (.imm (.u32 ((asU64 k >>> 32).setWidth 32))),
      replaceAssociated .carry i.id (.imm (.u1 ((asU64 k).getLsbD 31))) rest)
  | _ => (i, rest)

/-- The first argument and the second, an immediate, of an operation of the same kind. -/
def nested [DecidableEq O] (code : Code (Op O)) (v : Value (Val α)) : Option (Value (Val α) × Val α) :=
  (getInstRecursive before v).bind fun j =>
    if j.code = code then
      match j.args with
      | x :: y :: _ => (resolve before y).map fun k => (x, k)
      | _ => none
    else none

/-- `FoldCommutative`, and whether it goes on. -/
def foldCommutative [DecidableEq O] (i : Inst (Op O) (Val α)) (w : Width)
    (fn : BitVec 64 → BitVec 64 → BitVec 64) : Inst (Op O) (Val α) × Bool :=
  match i.args with
  | [lhs, rhs] =>
      match resolve before lhs, resolve before rhs with
      | some a, some b => (replaceUsesWith i (.imm (w.ofU64 (fn (asU64 a) (asU64 b)))), false)
      | some a, none =>
          match nested before i.code rhs with
          | some (x, b) => (⟨i.id, i.code, [x, .imm (w.ofU64 (fn (asU64 a) (asU64 b)))]⟩, true)
          | none => (⟨i.id, i.code, [rhs, lhs]⟩, true)
      | none, some b =>
          match nested before i.code lhs with
          | some (x, a) => (⟨i.id, i.code, [x, .imm (w.ofU64 (fn (asU64 b) (asU64 a)))]⟩, true)
          | none => (i, true)
      | none, none => (i, true)
  | _ => (i, false)

/-- What follows `FoldCommutative`, on the second argument. -/
def foldRhs [DecidableEq O] (i : Inst (Op O) (Val α)) (w : Width) (fn : BitVec 64 → BitVec 64 → BitVec 64)
    (f : Value (Val α) → Value (Val α) → Option (Value (Val α))) : Inst (Op O) (Val α) :=
  let (i, go) := foldCommutative before i w fn
  match i.args with
  | [lhs, rhs] => if go then (f lhs rhs).elim i (replaceUsesWith i) else i
  | _ => i

def foldAND [DecidableEq O] (i : Inst (Op O) (Val α)) (w : Width) : Inst (Op O) (Val α) :=
  foldRhs before i w (· &&& ·) fun lhs rhs =>
    if isZero before rhs then some (.imm (w.ofU64 0))
    else if hasAllBitsSet before rhs then some lhs else none

def foldEOR [DecidableEq O] (i : Inst (Op O) (Val α)) (w : Width) : Inst (Op O) (Val α) :=
  foldRhs before i w (· ^^^ ·) fun lhs rhs => if isZero before rhs then some lhs else none

def foldOR [DecidableEq O] (i : Inst (Op O) (Val α)) (w : Width) : Inst (Op O) (Val α) :=
  foldRhs before i w (· ||| ·) fun lhs rhs => if isZero before rhs then some lhs else none

def foldMultiply [DecidableEq O] (i : Inst (Op O) (Val α)) (w : Width) : Inst (Op O) (Val α) :=
  foldRhs before i w (· * ·) fun lhs rhs =>
    if isZero before rhs then some (.imm (w.ofU64 0))
    else if isUnsignedImmediate before rhs 1 then some lhs else none

/-- The first argument of an addition whose other arguments are immediates, and these. -/
def nestedAdd [DecidableEq O] (code : Code (Op O)) (v : Value (Val α)) : Option (Value (Val α) × Val α × Val α) :=
  (getInstRecursive before v).bind fun j =>
    if j.code = code then
      match j.args with
      | [x, y, c] => (resolve before y).bind fun k => (resolve before c).map fun l => (x, k, l)
      | _ => none
    else none

/-- The operands of an addition with an immediate at the right. -/
def normalizeAdd (lhs rhs : Value (Val α)) : Value (Val α) × Value (Val α) :=
  if isImmediate before lhs && !isImmediate before rhs then (rhs, lhs) else (lhs, rhs)

/-- The sum of the immediates of an addition and of the addition at its left, without the carry in. -/
def combined [DecidableEq O] (code : Code (Op O)) (lhs rhs : Value (Val α)) : Option (Value (Val α) × BitVec 64) :=
  match resolve before lhs, resolve before rhs with
  | none, some b => (nestedAdd before code lhs).map fun q =>
      (q.1, asU64 b + asU64 q.2.1 + BitVec.ofNat 64 (getU1 q.2.2).toNat)
  | _, _ => none

def foldAdd [DecidableEq O] (i : Inst (Op O) (Val α)) (rest : List (Inst (Op O) (Val α))) (w : Width) :
    Inst (Op O) (Val α) :=
  match i.args with
  | [lhs, rhs, carry] =>
      let (lhs, rhs) := normalizeAdd before lhs rhs
      let i : Inst (Op O) (Val α) := ⟨i.id, i.code, [lhs, rhs, carry]⟩
      if hasAssociatedPseudoOperation i.id rest then i
      else match combined before i.code lhs rhs with
        | some (x, sum) =>
            if sum = 0 then replaceUsesWith i x
            else ⟨i.id, i.code, [x, .imm (w.ofU64 sum), carry]⟩
        | none =>
            if !isImmediate before lhs && isZero before rhs && isZero before carry then
              replaceUsesWith i lhs
            else foldAll before i (three fun a b c =>
              w.ofU64 (asU64 a + asU64 b + BitVec.ofNat 64 (getU1 c).toNat))
  | _ => i

def Width.minimum : Width → BitVec 64
  | .w32 => 0x80000000
  | .w64 => 0x8000000000000000

def Width.ones : Width → BitVec 64
  | .w32 => 0xFFFFFFFF
  | .w64 => 0xFFFFFFFFFFFFFFFF

def foldDivide (i : Inst (Op O) (Val α)) (w : Width) (signed : Bool) : Inst (Op O) (Val α) :=
  match i.args with
  | [lhs, rhs] =>
      if isZero before lhs || isZero before rhs then replaceUsesWith i (.imm (w.ofU64 0))
      else if isUnsignedImmediate before lhs w.minimum && isUnsignedImmediate before rhs w.ones then
        replaceUsesWith i (.imm (w.ofU64 w.minimum))
      else match resolve before lhs, resolve before rhs with
        | some a, some b => replaceUsesWith i (.imm (w.ofU64
            (if signed then (asS64 a).sdiv (asS64 b) else asU64 a / asU64 b)))
        | _, _ => if isUnsignedImmediate before rhs 1 then replaceUsesWith i lhs else i
  | _ => i

/-- `FoldShifts`, and whether it goes on. -/
def foldShifts (i : Inst (Op O) (Val α)) (rest : List (Inst (Op O) (Val α))) :
    Inst (Op O) (Val α) × List (Inst (Op O) (Val α)) × Bool :=
  let hasCarry := getAssociatedPseudoOperation .carry i.id rest
  match i.args with
  | [x, amount, carry] =>
      let carry := if hasCarry then carry else .imm (.u1 false)
      if isZero before amount then
        (replaceUsesWith i x, replaceAssociated .carry i.id carry rest, false)
      else
        let carry := if isImmediate before amount then .imm (.u1 false) else carry
        (⟨i.id, i.code, [x, amount, carry]⟩, rest,
          isImmediate before x && isImmediate before amount && isImmediate before carry && !hasCarry)
  | [x, amount] =>
      if isZero before amount then (replaceUsesWith i x, rest, false)
      else (i, rest, isImmediate before x && isImmediate before amount && !hasCarry)
  | _ => (i, rest, false)

/-- `Safe::LogicalShiftLeft`, `Safe::LogicalShiftRight`, `Safe::ArithmeticShiftRight` and `std::rotr`. -/
def safeShift {n : ℕ} (k : Shift) (x : BitVec n) (amount : ℕ) : BitVec n :=
  match k with
  | .logicalLeft => if n ≤ amount then 0 else x <<< amount
  | .logicalRight => if n ≤ amount then 0 else x >>> amount
  | .arithmeticRight =>
      if n ≤ amount then (if x.msb then BitVec.allOnes n else 0) else x.sshiftRight amount
  | .rotateRight => x.rotateRight amount

/-- The shifts, on what `FoldShifts` has left. -/
def foldShift (i : Inst (Op O) (Val α)) (rest : List (Inst (Op O) (Val α))) (k : Shift) (w : Width) :
    Inst (Op O) (Val α) × List (Inst (Op O) (Val α)) :=
  let (i, rest, go) := foldShifts before i rest
  match i.args with
  | x :: amount :: _ =>
      match go, resolve before x, resolve before amount with
      | true, some a, some n => (replaceUsesWith i (.imm (w.ofU64
          ((safeShift k (w.getImm a) (getU8 n).toNat).setWidth 64))), rest)
      | _, _, _ => (i, rest)
  | _ => (i, rest)

/-- What becomes of an instruction and of those after it. -/
def visit [DecidableEq O] (i : Inst (Op O) (Val α)) (rest : List (Inst (Op O) (Val α))) :
    Inst (Op O) (Val α) × List (Inst (Op O) (Val α)) :=
  match i.code with
  | .op op =>
      if mayGetNZCVFromOp op && getAssociatedPseudoOperation .nzcv i.id rest then (i, rest)
      else match op with
        | .leastSignificantWord => (foldLeastSignificantWord before i, rest)
        | .mostSignificantWord => foldMostSignificantWord before i rest
        | .leastSignificantHalf => (foldLeastSignificantHalf before i, rest)
        | .leastSignificantByte => (foldLeastSignificantByte before i, rest)
        | .mostSignificantBit => (foldMostSignificantBit before i, rest)
        | .isZero w => (foldIsZero before i w, rest)
        | .shift k w => foldShift before i rest k w
        | .shiftMasked k w => (foldShiftMasked before i k w, rest)
        | .add w => (foldAdd before i rest w, rest)
        | .sub w => (foldSub before i rest w, rest)
        | .mul w => (foldMultiply before i w, rest)
        | .div signed w => (foldDivide before i w signed, rest)
        | .and w => (foldAND before i w, rest)
        | .eor w => (foldEOR before i w, rest)
        | .or w => (foldOR before i w, rest)
        | .not w => (foldNOT before i w, rest)
        | .signExtend _ .w32 => (foldSignExtendXToWord before i, rest)
        | .signExtend _ .w64 => (foldSignExtendXToLong before i, rest)
        | .zeroExtend _ .w32 => (foldZeroExtendXToWord before i, rest)
        | .zeroExtend _ .w64 => (foldZeroExtendXToLong before i, rest)
        | .byteReverseWord => (foldByteReverseWord before i, rest)
        | .byteReverseHalf => (foldByteReverseHalf before i, rest)
        | .byteReverseDual => (foldByteReverseDual before i, rest)
        | .countLeadingZeros w => (foldCountLeadingZeros before i w, rest)
        | .getNZFromOp | .pseudo _ | .other _ => (i, rest)
  | .void | .identity => (i, rest)

end Fold

/-! ## The walk -/

/-- The rewritten instructions, the latest first, and those to come. -/
structure PassState (O α : Type*) where
  before : List (Inst (Op O) (Val α))
  rest : List (Inst (Op O) (Val α))

section Walk

variable {O α : Type*} [DecidableEq O]

def PassState.next (st : PassState O α) : PassState O α :=
  match st.rest with
  | [] => st
  | i :: rest => ⟨(visit st.before i rest).1 :: st.before, (visit st.before i rest).2⟩

def constantPropagation (insts : List (Inst (Op O) (Val α))) : List (Inst (Op O) (Val α)) :=
  (PassState.next^[insts.length] ⟨[], insts⟩).before.reverse

end Walk

end Voltemu.Dynarmic.Folding
