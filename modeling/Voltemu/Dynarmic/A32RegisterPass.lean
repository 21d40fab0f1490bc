import Voltemu.Dynarmic.Rewriting
import Voltemu.Dynarmic.Semantics

/-!
# `RegisterPass`

`ir/opt_passes.cpp`: the elimination of Gets and Sets of the A32 registers.  The extension registers overlap:
`D n` is `S 2n` and `S (2n+1)`, and `Q n` is `D 2n` and `D (2n+1)`.  The register file is therefore a file of
32-bit cells, and an access is a `Place`, which is one or several cells and a way to see them as one value.

* `reg_info` and `ext_reg_info` have one entry for each cell.  An entry of `ext_reg_info` remembers in which
  way the cell was accessed last (`ExtValueType`); `reg_info` needs no such mark, since a core register is
  accessed in one way only.
* `SetVector` of a double register stores the low half of its value, so what is tracked is
  `VectorZeroUpper` of the value, which the pass adds.
-/

namespace Voltemu.Dynarmic.A32

open Voltemu.Lib

/-- R0–R15, and the extension registers as single words. -/
inductive Cell
  | core (n : Fin 16)
  | ext (n : Fin 64)
deriving DecidableEq

/-- `ExtValueType`, with the core registers. -/
inductive ValueType
  | core
  | single
  | double
  | vectorDouble
  | vectorQuad
deriving DecidableEq

/-- What an access names. -/
inductive Place
  | core (n : Fin 16)
  | single (n : Fin 32)
  | double (n : Fin 32)
  | vectorDouble (n : Fin 32)
  | vectorQuad (n : Fin 16)
deriving DecidableEq

namespace Place

def type : Place → ValueType
  | .core _ => .core
  | .single _ => .single
  | .double _ => .double
  | .vectorDouble _ => .vectorDouble
  | .vectorQuad _ => .vectorQuad

/-- The cells of an access, the low word first. -/
def cells : Place → List Cell
  | .core n => [.core n]
  | .single n => [.ext ⟨n, by omega⟩]
  | .double n | .vectorDouble n => [.ext ⟨n * 2 + 0, by omega⟩, .ext ⟨n * 2 + 1, by omega⟩]
  | .vectorQuad n => [.ext ⟨n * 4 + 0, by omega⟩, .ext ⟨n * 4 + 1, by omega⟩,
      .ext ⟨n * 4 + 2, by omega⟩, .ext ⟨n * 4 + 3, by omega⟩]

/-- The value of a Get, from the words of the cells. -/
def read {α : Type*} : Place → List (BitVec 32) → Option (Val α)
  | .core _, [w] | .single _, [w] => some (.u32 w)
  | .double _, [w0, w₁] => some (.u64 (w₁ ++ w0))
  | .vectorDouble _, [w0, w₁] => some (.u128 ((w₁ ++ w0).setWidth 128))
  | .vectorQuad _, [w0, w₁, w₂, w3] => some (.u128 (w3 ++ w₂ ++ w₁ ++ w0))
  | _, _ => none

def store {α : Type*} : Place → Val α → Option (List (BitVec 32))
  | .core _, .u32 b | .single _, .u32 b => some [b]
  | .double _, .u64 b => some [b.extractLsb' 0 32, b.extractLsb' 32 32]
  | .vectorDouble _, .u128 b => some [b.extractLsb' 0 32, b.extractLsb' 32 32]
  | .vectorQuad _, .u128 b =>
      some [b.extractLsb' 0 32, b.extractLsb' 32 32, b.extractLsb' 64 32, b.extractLsb' 96 32]
  | _, _ => none

end Place

inductive Op (O : Type*)
  | getRegister (n : Fin 15)
  | setRegister (n : Fin 16)
  | getExtendedRegister32 (n : Fin 32)
  | setExtendedRegister32 (n : Fin 32)
  | getExtendedRegister64 (n : Fin 32)
  | setExtendedRegister64 (n : Fin 32)
  | getVectorD (n : Fin 32)
  | setVectorD (n : Fin 32)
  | getVectorQ (n : Fin 16)
  | setVectorQ (n : Fin 16)
  | vectorZeroUpper
  | other (o : O)
deriving DecidableEq

inductive Access
  | get (p : Place)
  | set (p : Place)
deriving DecidableEq

/-- The registers that an operation accesses.  `GetRegister` is asserted not to name the PC. -/
def Op.access {O : Type*} : Op O → Option Access
  | .getRegister n => some (.get (.core n.castSucc))
  | .setRegister n => some (.set (.core n))
  | .getExtendedRegister32 n => some (.get (.single n))
  | .setExtendedRegister32 n => some (.set (.single n))
  | .getExtendedRegister64 n => some (.get (.double n))
  | .setExtendedRegister64 n => some (.set (.double n))
  | .getVectorD n => some (.get (.vectorDouble n))
  | .setVectorD n => some (.set (.vectorDouble n))
  | .getVectorQ n => some (.get (.vectorQuad n))
  | .setVectorQ n => some (.set (.vectorQuad n))
  | .vectorZeroUpper | .other _ => none

/-! ## The meaning of a block -/

/-- The state of the guest: its registers and everything else. -/
structure Guest (σ : Type*) where
  regs : Cell → BitVec 32
  rest : σ

def Guest.write {σ : Type*} (c : Cell) (w : BitVec 32) (g : Guest σ) : Guest σ :=
  { g with regs := Function.update g.regs c w }

def Guest.writeAll {σ : Type*} : List Cell → List (BitVec 32) → Guest σ → Guest σ
  | c :: cs, w :: ws, g => writeAll cs ws (g.write c w)
  | _, _, g => g

/-- An operation of another kind may read or write registers. -/
def touches {O : Type*} (tables : Opcodes O) (o : O) : Bool :=
  tables.readsFromCoreRegister o || tables.writesToCoreRegister o

/-- What the tables put out of reach: all registers or none. -/
def Free {O σ : Type*} (tables : Opcodes O) (o : O) (f : Guest σ → Guest σ) : Prop :=
  ∃ c w, touches tables o = false ∧ f = Guest.write c w

section Machine

variable {O α ε σ : Type*} {tables : Opcodes O}

def stepSet (p : Place) (rs : List (Result α ε)) (s : State O α (Guest σ)) :
    Option (Option (Result α ε) × State O α (Guest σ)) :=
  match rs with
  | [v] => (p.store v.val).map fun ws => (none, s.change (.writeAll p.cells ws))
  | _ => none

def step (sem : Semantics tables α ε (Free (σ := σ) tables)) (op : Op O) (rs : List (Result α ε))
    (s : State O α (Guest σ)) : Option (Option (Result α ε) × State O α (Guest σ)) :=
  match op.access with
  | some (.get p) =>
      if rs = [] then (p.read (p.cells.map s.guest.regs)).map fun v => (some ⟨v, none⟩, s) else none
  | some (.set p) => stepSet p rs s
  | none =>
      match op with
      | .vectorZeroUpper =>
          match rs with
          | [⟨.u128 b, _⟩] => some (some ⟨.u128 ((b.setWidth 64).setWidth 128), none⟩, s)
          | _ => none
      | .other o => sem.stepOther o rs s
      | _ => none

def machine (sem : Semantics tables α ε (Free (σ := σ) tables)) :
    Machine (Op O) (Val α) (State O α (Guest σ)) (Result α ε) where
  ofImm k := ⟨k, none⟩
  strip r := ⟨r.val, none⟩
  step := step sem

end Machine

/-! ## The pass -/

/-- `RegInfo` and `ExtRegInfo` with a value. -/
structure RegInfo (K : Type*) where
  valueType : ValueType
  registerValue : Value K
  lastSetInstruction : Option ℕ

/-- The block at the current instruction, and `reg_info` and `ext_reg_info`. -/
structure PassState (O α : Type*) where
  cursor : Cursor (Op O) (Val α)
  info : Cell → Option (RegInfo (Val α))

section Pass

variable {O α : Type*}

/-- The condition of `do_ext_get` and `do_ext_set`: all cells were last accessed in this way.  Then the first
cell speaks for all of them. -/
def tracked (info : Cell → Option (RegInfo (Val α))) (p : Place) : Option (RegInfo (Val α)) :=
  if p.cells.all fun c => (info c).any fun i => i.valueType = p.type then p.cells.head?.bind info
  else none

def track (info : Cell → Option (RegInfo (Val α))) (p : Place) (i : RegInfo (Val α)) : Cell → Option (RegInfo (Val α)) :=
  fun c => if c ∈ p.cells then some i else info c

def doGet (st : PassState O α) (p : Place) (inst : Inst (Op O) (Val α)) : PassState O α :=
  match tracked st.info p with
  | some i => { st with cursor := st.cursor.replaceUsesWith inst i.registerValue }
  | none =>
      { cursor := st.cursor.keep inst
        info := track st.info p ⟨p.type, .inst inst.id, none⟩ }

/-- `do_set` and `do_ext_set`: the last Set is removed. -/
def removeLast (st : PassState O α) (p : Place) : Cursor (Op O) (Val α) :=
  match (tracked st.info p).bind (·.lastSetInstruction) with
  | some id => st.cursor.invalidate id
  | none => st.cursor

/-- `do_set` and `do_ext_set` of the given value. -/
def doSet (st : PassState O α) (p : Place) (value : Value (Val α)) (inst : Inst (Op O) (Val α)) : PassState O α where
  cursor := (removeLast st p).keep inst
  info := track st.info p ⟨p.type, value, some inst.id⟩

/-- `SetVector` of a double register: `VectorZeroUpper` of the value comes after the instruction. -/
def doSetVectorD (st : PassState O α) (p : Place) (value : Value (Val α))
    (inst : Inst (Op O) (Val α)) : PassState O α where
  cursor := ((removeLast st p).keep inst).insert .vectorZeroUpper [value]
  info := track st.info p ⟨p.type, .inst (removeLast st p).fresh, some inst.id⟩

def visit (tables : Opcodes O) (st : PassState O α) (inst : Inst (Op O) (Val α)) : PassState O α :=
  match inst.code with
  | .op op =>
      match op.access, inst.args with
      | some (.get p), _ => doGet st p inst
      | some (.set (.core 15)), _ => { st with cursor := st.cursor.keep inst }
      | some (.set (.vectorDouble n)), value :: _ => doSetVectorD st (.vectorDouble n) value inst
      | some (.set p), value :: _ => doSet st p value inst
      | _, _ =>
          { cursor := st.cursor.keep inst
            info := match op with
              | .other o => if touches tables o then fun _ => none else st.info
              | _ => st.info }
  | .void | .identity => { st with cursor := st.cursor.keep inst }

def registerPass (tables : Opcodes O) (block : Block (Op O) (Val α)) : PassState O α :=
  block.insts.foldl (visit tables) ⟨block.start, fun _ => none⟩

/-- `MayHaveSideEffects`: a Set writes to a register. -/
def mayHaveSideEffects (tables : Opcodes O) (op : Op O) : Bool :=
  match op.access, op with
  | some (.set _), _ => true
  | _, .other o => tables.mayHaveSideEffects o
  | _, _ => false

/-- **`RegisterPass` and then `DeadCodeElimination`.** -/
def optimize (tables : Opcodes O) (block : Block (Op O) (Val α)) : List (Inst (Op O) (Val α)) :=
  let st := registerPass tables block
  (deadCodeElimination (mayHaveSideEffects tables) st.cursor.before st.cursor.uses).reverse

end Pass

end Voltemu.Dynarmic.A32
