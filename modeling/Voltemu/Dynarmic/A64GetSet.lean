import Voltemu.Dynarmic.Rewriting
import Voltemu.Dynarmic.Semantics

/-!
# `A64GetSetElimination`

`ir/opt_passes.cpp`: one walk over a block that forwards the value of a register from a Set or a Get to
the Gets that follow, and removes a Set that is overwritten.

* The register file has X0–X30, SP, V0–V31 and NZCV.  A register is accessed in one of several widths;
  `read` and `store` say what each of them does.
* `LeastSignificantWord` is the one operation that the pass itself adds.  The opcode tables say which of the
  other operations may touch the register file.
-/

namespace Voltemu.Dynarmic.A64

open Voltemu.Lib

inductive Reg
  | x (n : Fin 31)
  | v (n : Fin 32)
  | sp
  | nzcv
deriving DecidableEq

def Reg.width : Reg → ℕ
  | .x _ => 64
  | .v _ => 128
  | .sp => 64
  | .nzcv => 4

/-- `TrackingType`: the ways to access a register. -/
inductive TrackingType
  | W
  | X
  | S
  | D
  | Q
  | SP
  | NZCV
  | NZCVRaw
deriving DecidableEq

def read {α : Type*} {w : ℕ} (t : TrackingType) (b : BitVec w) : Val α :=
  match t with
  | .W => .u32 (b.setWidth 32)
  | .X => .u64 (b.setWidth 64)
  | .S => .u128 ((b.setWidth 32).setWidth 128)
  | .D => .u128 ((b.setWidth 64).setWidth 128)
  | .Q => .u128 (b.setWidth 128)
  | .SP => .u64 (b.setWidth 64)
  | .NZCV => .nzcv (b.setWidth 4)
  | .NZCVRaw => .u32 (b.setWidth 32 <<< 28)

def store {α : Type*} {w : ℕ} (t : TrackingType) (v : Val α) : Option (BitVec w) :=
  match t, v with
  | .W, .u32 b => some (b.setWidth w)
  | .X, .u64 b => some (b.setWidth w)
  | .S, .u128 b => some ((b.setWidth 32).setWidth w)
  | .D, .u128 b => some ((b.setWidth 64).setWidth w)
  | .Q, .u128 b => some (b.setWidth w)
  | .SP, .u64 b => some (b.setWidth w)
  | .NZCV, .nzcv b => some (b.setWidth w)
  | .NZCVRaw, .u32 b => some ((b >>> 28).setWidth w)
  | _, _ => none

inductive Op (O : Type*)
  | getW (n : Fin 31)
  | getX (n : Fin 31)
  | getS (n : Fin 32)
  | getD (n : Fin 32)
  | getQ (n : Fin 32)
  | getSP
  | getNZCVRaw
  | setW (n : Fin 31)
  | setX (n : Fin 31)
  | setS (n : Fin 32)
  | setD (n : Fin 32)
  | setQ (n : Fin 32)
  | setSP
  | setNZCV
  | setNZCVRaw
  | leastSignificantWord
  | other (o : O)
deriving DecidableEq

inductive Access
  | get (r : Reg) (t : TrackingType)
  | set (r : Reg) (t : TrackingType)
deriving DecidableEq

/-- The register and the way an operation accesses it. -/
def Op.access {O : Type*} : Op O → Option Access
  | .getW n => some (.get (.x n) .W)
  | .getX n => some (.get (.x n) .X)
  | .getS n => some (.get (.v n) .S)
  | .getD n => some (.get (.v n) .D)
  | .getQ n => some (.get (.v n) .Q)
  | .getSP => some (.get .sp .SP)
  | .getNZCVRaw => some (.get .nzcv .NZCVRaw)
  | .setW n => some (.set (.x n) .W)
  | .setX n => some (.set (.x n) .X)
  | .setS n => some (.set (.v n) .S)
  | .setD n => some (.set (.v n) .D)
  | .setQ n => some (.set (.v n) .Q)
  | .setSP => some (.set .sp .SP)
  | .setNZCV => some (.set .nzcv .NZCV)
  | .setNZCVRaw => some (.set .nzcv .NZCVRaw)
  | .leastSignificantWord | .other _ => none

/-! ## The meaning of a block -/

/-- The state of the guest: its register file and everything else. -/
structure Guest (σ : Type*) where
  regs : (r : Reg) → BitVec r.width
  rest : σ

def Guest.write {σ : Type*} (r : Reg) (b : BitVec r.width) (g : Guest σ) : Guest σ :=
  { g with regs := Function.update g.regs r b }

def write {O α σ : Type*} (r : Reg) (b : BitVec r.width) (s : State O α (Guest σ)) : State O α (Guest σ) :=
  s.change (.write r b)

/-- An operation of another kind may read or write the register. -/
def touches {O : Type*} (tables : Opcodes O) (o : O) : Reg → Bool
  | .nzcv => tables.readsFromCPSR o || tables.writesToCPSR o
  | .x _ | .v _ | .sp => tables.readsFromCoreRegister o || tables.writesToCoreRegister o

/-- The registers that the tables put out of reach. -/
def Free {O σ : Type*} (tables : Opcodes O) (o : O) (f : Guest σ → Guest σ) : Prop :=
  ∃ r b, touches tables o r = false ∧ f = Guest.write r b

section Machine

variable {O α ε σ : Type*} {tables : Opcodes O}

def stepSet (r : Reg) (t : TrackingType) (rs : List (Result α ε)) (s : State O α (Guest σ)) :
    Option (Option (Result α ε) × State O α (Guest σ)) :=
  match rs with
  | [v] => (store t v.val).map fun b => (none, write r b s)
  | _ => none

def step (sem : Semantics tables α ε (Free (σ := σ) tables)) (op : Op O) (rs : List (Result α ε))
    (s : State O α (Guest σ)) : Option (Option (Result α ε) × State O α (Guest σ)) :=
  match op.access with
  | some (.get r t) => if rs = [] then some (some ⟨read t (s.guest.regs r), none⟩, s) else none
  | some (.set r t) => stepSet r t rs s
  | none =>
      match op with
      | .leastSignificantWord =>
          match rs with
          | [⟨.u64 b, _⟩] => some (some ⟨.u32 (b.setWidth 32), none⟩, s)
          | _ => none
      | .other o => sem.stepOther o rs s
      | _ => none

def machine (sem : Semantics tables α ε (Free (σ := σ) tables)) :
    Machine (Op O) (Val α) (State O α (Guest σ)) (Result α ε) where
  ofImm k := ⟨k, none⟩
  strip r := ⟨r.val, none⟩
  step := step sem

end Machine

/-! ## The pass -/

/-- `RegisterInfo` with a value; `last_set_instruction` is there if `set_instruction_present`. -/
structure RegisterInfo (K : Type*) where
  registerValue : Value K
  trackingType : TrackingType
  lastSetInstruction : Option ℕ

/-- The block at the current instruction, and `reg_info`, `vec_info`, `sp_info` and `nzcv_info`. -/
structure GetSetState (O α : Type*) where
  cursor : Cursor (Op O) (Val α)
  info : Reg → Option (RegisterInfo (Val α))

/-- `Value::GetImmediateAsU64`, which asserts that the type is one of the first five. -/
def getImmediateAsU64 {α : Type*} : Val α → BitVec 64
  | .u1 b => (BitVec.ofBool b).setWidth 64
  | .u8 b => b.setWidth 64
  | .u16 b => b.setWidth 64
  | .u32 b => b.setWidth 64
  | .u64 b => b
  | .u128 _ | .nzcv _ | .other _ => 0

section Pass

variable {O α : Type*}

def doSet (st : GetSetState O α) (r : Reg) (value : Value (Val α)) (inst : Inst (Op O) (Val α))
    (t : TrackingType) : GetSetState O α :=
  let cursor := match (st.info r).bind (·.lastSetInstruction) with
    | some id => (st.cursor.invalidate id).erase id
    | none => st.cursor
  { cursor := cursor.keep inst
    info := Function.update st.info r (some ⟨value, t, some inst.id⟩) }

/-- The last branch of `do_get`: the Get stays, and its value is tracked. -/
def trackGet (st : GetSetState O α) (r : Reg) (inst : Inst (Op O) (Val α)) (t : TrackingType) : GetSetState O α where
  cursor := st.cursor.keep inst
  info := Function.update st.info r (some ⟨.inst inst.id, t, none⟩)

def doGet (st : GetSetState O α) (r : Reg) (inst : Inst (Op O) (Val α)) (t : TrackingType) : GetSetState O α :=
  match st.info r with
  | some info =>
      if info.trackingType = t then
        { st with cursor := st.cursor.replaceUsesWith inst info.registerValue }
      else if t = .W ∧ info.trackingType = .X then
        match resolve st.cursor.before info.registerValue with
        | some k =>
            { st with
              cursor := st.cursor.replaceUsesWith inst (.imm (.u32 ((getImmediateAsU64 k).setWidth 32))) }
        | none =>
            { st with
              cursor := (st.cursor.insert .leastSignificantWord [info.registerValue]).replaceUsesWith
                inst (.inst st.cursor.fresh) }
      else trackGet st r inst t
  | none => trackGet st r inst t

/-- The default branch forgets what the operation may touch. -/
def forgets (tables : Opcodes O) (op : Op O) (r : Reg) : Bool :=
  match op with
  | .other o => touches tables o r
  | _ => false

def visit (tables : Opcodes O) (st : GetSetState O α) (inst : Inst (Op O) (Val α)) : GetSetState O α :=
  match inst.code with
  | .op op =>
      match op.access, inst.args with
      | some (.get r t), _ => doGet st r inst t
      | some (.set r t), value :: _ => doSet st r value inst t
      | _, _ =>
          { cursor := st.cursor.keep inst
            info := fun r => if forgets tables op r then none else st.info r }
  | .void | .identity => { st with cursor := st.cursor.keep inst }

def getSetElimination (tables : Opcodes O) (block : Block (Op O) (Val α)) : GetSetState O α :=
  block.insts.foldl (visit tables) ⟨block.start, fun _ => none⟩

/-- `MayHaveSideEffects`: a Set writes to a register. -/
def mayHaveSideEffects (tables : Opcodes O) (op : Op O) : Bool :=
  match op.access, op with
  | some (.set _ _), _ => true
  | _, .other o => tables.mayHaveSideEffects o
  | _, _ => false

/-- **`A64GetSetElimination` and then `DeadCodeElimination`.** -/
def optimize (tables : Opcodes O) (block : Block (Op O) (Val α)) : List (Inst (Op O) (Val α)) :=
  let st := getSetElimination tables block
  (deadCodeElimination (mayHaveSideEffects tables) st.cursor.before st.cursor.uses).reverse

end Pass

end Voltemu.Dynarmic.A64
