import Voltemu.Dynarmic.Microinstruction
import Voltemu.Dynarmic.Semantics

/-!
# Integer operations

The opcodes of `ir/opcodes.inc` that `ConstantPropagation` looks at, with their meaning in the ARM
architecture.  An operation gives a value and what its pseudo-operations ask for: carry, overflow and flags.

* 32-bit and 64-bit variants are one operation with a `Width`.
* `GetNZFromOp`, `MostSignificantBit` and `IsZero` depend on the value only; the pseudo-operations of `Pseudo`
  depend on the operation itself and have no meaning on a copy.
* All operations that the pass leaves alone are a parameter.
-/

namespace Voltemu.Dynarmic.Folding

open Voltemu.Lib

/-! ## Widths -/

inductive Width
  | w32
  | w64
deriving DecidableEq

abbrev Width.bits : Width → ℕ
  | .w32 => 32
  | .w64 => 64

inductive Size
  | byte
  | half
  | word
deriving DecidableEq

abbrev Size.bits : Size → ℕ
  | .byte => 8
  | .half => 16
  | .word => 32

section Widths

variable {α : Type*}

def Width.val : (w : Width) → BitVec w.bits → Val α
  | .w32, x => .u32 x
  | .w64, x => .u64 x

def Width.get : (w : Width) → Val α → Option (BitVec w.bits)
  | .w32, .u32 x => some x
  | .w64, .u64 x => some x
  | _, _ => none

def Size.val : (s : Size) → BitVec s.bits → Val α
  | .byte, x => .u8 x
  | .half, x => .u16 x
  | .word, x => .u32 x

def Size.get : (s : Size) → Val α → Option (BitVec s.bits)
  | .byte, .u8 x => some x
  | .half, .u16 x => some x
  | .word, .u32 x => some x
  | _, _ => none

variable {w : Width} {a : Val α}

lemma Width.get_eq_some {x : BitVec w.bits} : w.get a = some x ↔ a = w.val x := by
  cases w <;> cases a <;> simp [get, val]

lemma Size.get_eq_some {s : Size} {x : BitVec s.bits} : s.get a = some x ↔ a = s.val x := by
  cases s <;> cases a <;> simp [get, val]

lemma Width.val_inj {x y : BitVec w.bits} : (w.val x : Val α) = w.val y ↔ x = y := by
  cases w <;> simp [val]

end Widths

/-! ## Operations -/

inductive Shift
  | logicalLeft
  | logicalRight
  | arithmeticRight
  | rotateRight
deriving DecidableEq

/-- The pseudo-operations that depend on the operation itself. -/
inductive Pseudo
  | carry
  | overflow
  | ge
  | nzcv
  | upper
  | lower
deriving DecidableEq

inductive Op (O : Type*)
  | leastSignificantWord
  | leastSignificantHalf
  | leastSignificantByte
  | mostSignificantWord
  | mostSignificantBit
  | isZero (w : Width)
  | shift (k : Shift) (w : Width)
  | shiftMasked (k : Shift) (w : Width)
  | add (w : Width)
  | sub (w : Width)
  | mul (w : Width)
  | div (signed : Bool) (w : Width)
  | and (w : Width)
  | eor (w : Width)
  | or (w : Width)
  | not (w : Width)
  | signExtend (s : Size) (w : Width)
  | zeroExtend (s : Size) (w : Width)
  | byteReverseWord
  | byteReverseHalf
  | byteReverseDual
  | countLeadingZeros (w : Width)
  | getNZFromOp
  | pseudo (p : Pseudo)
  | other (o : O)
deriving DecidableEq

/-! ## Meaning -/

/-- What the pseudo-operations of an operation give. -/
abbrev Extra (α : Type*) := Pseudo → Option (Val α)

def noExtra {α : Type*} : Extra α := fun _ => none

section Meaning

variable {α : Type*} {n : ℕ}

/-- The sum, the carry and the overflow of `AddWithCarry`. -/
def addWithCarry (x y : BitVec n) (c : Bool) : BitVec n := x + y + BitVec.ofNat n c.toNat

def carryOut (x y : BitVec n) (c : Bool) : Bool := decide (2 ^ n ≤ x.toNat + y.toNat + c.toNat)

def overflowOut (x y : BitVec n) (c : Bool) : Bool :=
  decide (x.msb = y.msb ∧ (addWithCarry x y c).msb ≠ x.msb)

def flags (x : BitVec n) (c v : Bool) : BitVec 4 :=
  BitVec.ofBool x.msb ++ BitVec.ofBool (x == 0) ++ BitVec.ofBool c ++ BitVec.ofBool v

def addExtra (x y : BitVec n) (c : Bool) : Extra α
  | .carry => some (.u1 (carryOut x y c))
  | .overflow => some (.u1 (overflowOut x y c))
  | .nzcv => some (.nzcv (flags (addWithCarry x y c) (carryOut x y c) (overflowOut x y c)))
  | _ => none

def logicExtra (x : BitVec n) : Extra α
  | .nzcv => some (.nzcv (flags x false false))
  | _ => none

def carryExtra (c : Bool) : Extra α
  | .carry => some (.u1 c)
  | _ => none

def Shift.apply (k : Shift) (x : BitVec n) (amount : ℕ) : BitVec n :=
  match k with
  | .logicalLeft => x <<< amount
  | .logicalRight => x >>> amount
  | .arithmeticRight => x.sshiftRight amount
  | .rotateRight => x.rotateRight amount

/-- The last bit shifted out; the carry in, if nothing is shifted. -/
def Shift.carryOut (k : Shift) (x : BitVec n) (amount : ℕ) (c : Bool) : Bool :=
  if amount = 0 then c
  else match k with
    | .logicalLeft => decide (amount ≤ n) && x.getLsbD (n - amount)
    | .logicalRight => x.getLsbD (amount - 1)
    | .arithmeticRight => x.getLsbD (min amount n - 1)
    | .rotateRight => (x.rotateRight amount).msb

def swapBytes16 (x : BitVec 16) : BitVec 16 := x.extractLsb' 0 8 ++ x.extractLsb' 8 8

def swapBytes32 (x : BitVec 32) : BitVec 32 :=
  x.extractLsb' 0 8 ++ x.extractLsb' 8 8 ++ x.extractLsb' 16 8 ++ x.extractLsb' 24 8

def swapBytes64 (x : BitVec 64) : BitVec 64 :=
  swapBytes32 (x.extractLsb' 0 32) ++ swapBytes32 (x.extractLsb' 32 32)

def unary {β γ : Type*} (get : Val α → Option β) (f : β → γ) : List (Val α) → Option γ
  | [a] => (get a).map f
  | _ => none

def binary {β β' γ : Type*} (get : Val α → Option β) (get' : Val α → Option β') (f : β → β' → γ) : List (Val α) → Option γ
  | [a, b] => (get a).bind fun x => (get' b).map (f x)
  | _ => none

def withCarry {β β' γ : Type*} (get : Val α → Option β) (get' : Val α → Option β')
    (f : β → β' → Bool → γ) : List (Val α) → Option γ
  | [a, b, .u1 c] => (get a).bind fun x => (get' b).map fun y => f x y c
  | _ => none

def nz : Val α → Option (Val α)
  | .u8 x => some (.nzcv (flags x false false))
  | .u16 x => some (.nzcv (flags x false false))
  | .u32 x => some (.nzcv (flags x false false))
  | .u64 x => some (.nzcv (flags x false false))
  | _ => none

/-- **The meaning of an operation on the values of its arguments.** -/
def compute {O : Type*} : Op O → List (Val α) → Option (Val α × Extra α)
  | .leastSignificantWord => unary Width.w64.get fun x => (.u32 (x.setWidth 32), noExtra)
  | .leastSignificantHalf => unary Width.w32.get fun x => (.u16 (x.setWidth 16), noExtra)
  | .leastSignificantByte => unary Width.w32.get fun x => (.u8 (x.setWidth 8), noExtra)
  | .mostSignificantWord => unary Width.w64.get fun x =>
      (.u32 (x.extractLsb' 32 32), carryExtra (x.getLsbD 31))
  | .mostSignificantBit => unary Width.w32.get fun x => (.u1 x.msb, noExtra)
  | .isZero w => unary w.get fun x => (.u1 (x == 0), noExtra)
  | .shift k .w32 => withCarry Width.w32.get Size.byte.get fun x y c =>
      (.u32 (k.apply x y.toNat), carryExtra (k.carryOut x y.toNat c))
  | .shift k .w64 => binary Width.w64.get Size.byte.get fun x y =>
      (.u64 (k.apply x y.toNat), noExtra)
  | .shiftMasked k w => binary w.get w.get fun x y => (w.val (k.apply x (y.toNat % w.bits)), noExtra)
  | .add w => withCarry w.get w.get fun x y c => (w.val (addWithCarry x y c), addExtra x y c)
  | .sub w => withCarry w.get w.get fun x y c => (w.val (addWithCarry x (~~~y) c), addExtra x (~~~y) c)
  | .mul w => binary w.get w.get fun x y => (w.val (x * y), noExtra)
  | .div signed w => binary w.get w.get fun x y =>
      (w.val (if signed then x.sdiv y else x / y), noExtra)
  | .and w => binary w.get w.get fun x y => (w.val (x &&& y), logicExtra (x &&& y))
  | .eor w => binary w.get w.get fun x y => (w.val (x ^^^ y), logicExtra (x ^^^ y))
  | .or w => binary w.get w.get fun x y => (w.val (x ||| y), logicExtra (x ||| y))
  | .not w => unary w.get fun x => (w.val (~~~x), logicExtra (~~~x))
  | .signExtend s w => unary s.get fun x => (w.val (x.signExtend w.bits), noExtra)
  | .zeroExtend s w => unary s.get fun x => (w.val (x.setWidth w.bits), noExtra)
  | .byteReverseWord => unary Size.word.get fun x => (.u32 (swapBytes32 x), noExtra)
  | .byteReverseHalf => unary Size.half.get fun x => (.u16 (swapBytes16 x), noExtra)
  | .byteReverseDual => unary Width.w64.get fun x => (.u64 (swapBytes64 x), noExtra)
  | .countLeadingZeros w => unary w.get fun x => (w.val x.clz, noExtra)
  | .getNZFromOp => fun vs => (unary nz id vs).map fun v => (v, noExtra)
  | .pseudo _ | .other _ => fun _ => none

end Meaning

section Machine

variable {O α σ : Type*}

/-- Any behaviour of the other operations, which see the values of their arguments. -/
abbrev OtherOps (O α σ : Type*) :=
  O → List (Val α) → σ → Option (Option (Result α (Extra α)) × σ)

/-- What a pseudo-operation finds at the operation itself. -/
def getExtra (p : Pseudo) : List (Result α (Extra α)) → Option (Val α)
  | [r] => r.extra.bind (· p)
  | _ => none

def step (sem : OtherOps O α σ) (op : Op O) (rs : List (Result α (Extra α))) (s : σ) :
    Option (Option (Result α (Extra α)) × σ) :=
  match op with
  | .other o => sem o (rs.map (·.val)) s
  | .pseudo p => (getExtra p rs).map fun v => (some ⟨v, none⟩, s)
  | op => (compute op (rs.map (·.val))).map fun q => (some ⟨q.1, some q.2⟩, s)

def machine (sem : OtherOps O α σ) : Machine (Op O) (Val α) σ (Result α (Extra α)) where
  ofImm k := ⟨k, none⟩
  strip r := ⟨r.val, none⟩
  step := step sem

end Machine

end Voltemu.Dynarmic.Folding
