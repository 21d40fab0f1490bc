import Voltemu.Dynarmic.Microinstruction
import Voltemu.Dynarmic.Semantics

/-!
# `FlagsPass`

`ir/opt_passes.cpp`: one walk over an A32 block from its last instruction to the first, which removes or
narrows the Sets of flags that are overwritten before anything reads them.

* The pass remembers for N and Z, for C, for NZCV, for NZCVQ and for GE that a Set is not required.
* A Get of C or GE is not decided at once: it is a pending request, which the Set (or the Get) that the walk
  meets next answers with its own value.
* The instructions that the walk has passed stand in `after`, in the order of the block; those before the
  current one have not been changed yet.
-/

namespace Voltemu.Dynarmic.A32Flags

open Voltemu.Lib

/-- The flags of the CPSR.  GE is kept as a word with one byte for each flag. -/
structure Flags where
  n : Bool
  z : Bool
  c : Bool
  v : Bool
  q : Bool
  ge : BitVec 32
deriving DecidableEq

/-- The state of the guest: its flags and everything else. -/
structure Guest (σ : Type*) where
  flags : Flags
  rest : σ

def Guest.setFlags {σ : Type*} (f : Flags) (g : Guest σ) : Guest σ := { g with flags := f }

inductive Op (O : Type*)
  | getCFlag
  | setCpsrNZCV
  | setCpsrNZCVRaw
  | setCpsrNZCVQ
  | setCpsrNZ
  | setCpsrNZC
  | setGEFlags
  | getGEFlags
  | setGEFlagsCompressed
  | orQFlag
  | getCFlagFromNZCV
  | other (o : O)
deriving DecidableEq

/-! ## The meaning of a block -/

namespace Flags

def withNZCV (f : Flags) (b : BitVec 4) : Flags :=
  { f with n := b.getLsbD 3, z := b.getLsbD 2, c := b.getLsbD 1, v := b.getLsbD 0 }

/-- N, Z, C and V from the top bits of a word. -/
def withNZCVRaw (f : Flags) (w : BitVec 32) : Flags :=
  { f with n := w.getLsbD 31, z := w.getLsbD 30, c := w.getLsbD 29, v := w.getLsbD 28 }

def withNZ (f : Flags) (b : BitVec 4) : Flags := { f with n := b.getLsbD 3, z := b.getLsbD 2 }

/-- `SetGEFlagsCompressed`: bits 19 to 16 of a word, one byte for each. -/
def withGECompressed (f : Flags) (w : BitVec 32) : Flags :=
  { f with
    ge := (if w.getLsbD 19 then 0xFF000000 else 0) ||| (if w.getLsbD 18 then 0x00FF0000 else 0) |||
      (if w.getLsbD 17 then 0x0000FF00 else 0) ||| (if w.getLsbD 16 then 0x000000FF else 0) }

end Flags

def setFlags {O α : Type*} (f : Flags) : Op O → List (Val α) → Option Flags
  | .setCpsrNZCV, [.nzcv b] => some (f.withNZCV b)
  | .setCpsrNZCVRaw, [.u32 w] => some (f.withNZCVRaw w)
  | .setCpsrNZCVQ, [.u32 w] => some { f.withNZCVRaw w with q := w.getLsbD 27 }
  | .setCpsrNZ, [.nzcv b] => some (f.withNZ b)
  | .setCpsrNZC, [.nzcv b, .u1 c] => some { f.withNZ b with c := c }
  | .setGEFlags, [.u32 w] => some { f with ge := w }
  | .setGEFlagsCompressed, [.u32 w] => some (f.withGECompressed w)
  | .orQFlag, [.u1 b] => some { f with q := f.q || b }
  | _, _ => none

/-- What a Get of flags, or of one flag of a value, gives. -/
def getFlags {O α : Type*} (f : Flags) : Op O → List (Val α) → Option (Val α)
  | .getCFlag, [] => some (.u1 f.c)
  | .getGEFlags, [] => some (.u32 f.ge)
  | .getCFlagFromNZCV, [.nzcv b] => some (.u1 (b.getLsbD 1))
  | _, _ => none

/-- An operation of another kind may read or write flags. -/
def touches {O : Type*} (tables : Opcodes O) (o : O) : Bool :=
  tables.readsFromCPSR o || tables.writesToCPSR o

/-- What the tables put out of reach: all flags or none. -/
def Free {O σ : Type*} (tables : Opcodes O) (o : O) (f : Guest σ → Guest σ) : Prop :=
  ∃ fl, touches tables o = false ∧ f = Guest.setFlags fl

/-- The other operations.  One that does not write to the CPSR leaves the flags as they are. -/
structure FlagsSemantics {O : Type*} (tables : Opcodes O) (α ε σ : Type*) extends
    Semantics tables α ε (Free (σ := σ) tables) where
  keeps : ∀ o, tables.writesToCPSR o = false → ∀ rs g r g', step o rs g = some (r, g') → g'.flags = g.flags

section Machine

variable {O α ε σ : Type*} {tables : Opcodes O}

def step (sem : FlagsSemantics tables α ε σ) (op : Op O) (rs : List (Result α ε))
    (s : State O α (Guest σ)) : Option (Option (Result α ε) × State O α (Guest σ)) :=
  match op with
  | .getCFlag | .getGEFlags | .getCFlagFromNZCV =>
      (getFlags s.guest.flags op (rs.map (·.val))).map fun v => (some ⟨v, none⟩, s)
  | .setCpsrNZCV | .setCpsrNZCVRaw | .setCpsrNZCVQ | .setCpsrNZ | .setCpsrNZC | .setGEFlags
  | .setGEFlagsCompressed | .orQFlag =>
      (setFlags s.guest.flags op (rs.map (·.val))).map fun f => (none, s.change (.setFlags f))
  | .other o => sem.stepOther o rs s

def machine (sem : FlagsSemantics tables α ε σ) : Machine (Op O) (Val α) (State O α (Guest σ)) (Result α ε) where
  ofImm k := ⟨k, none⟩
  strip r := ⟨r.val, none⟩
  step := step sem

end Machine

/-! ## The pass -/

/-- `FlagInfo`; the request is the name of the Get, if `has_value_request`. -/
structure FlagInfo where
  setNotRequired : Bool
  valueRequest : Option ℕ
deriving DecidableEq

/-- The rewritten instructions after the current one, and what is known about the flags there.
`ValuelessFlagInfo` is only `set_not_required`. -/
structure PassState (O α : Type*) where
  after : List (Inst (Op O) (Val α))
  fresh : ℕ
  nzcvq : Bool
  nzcv : Bool
  nz : Bool
  cFlag : FlagInfo
  ge : FlagInfo

section Pass

variable {O α : Type*}

/-- `Inst::ReplaceUsesWith` on the instruction of a request. -/
def answer (request : Option ℕ) (v : Value (Val α)) (after : List (Inst (Op O) (Val α))) : List (Inst (Op O) (Val α)) :=
  match request with
  | some id => after.map fun i => if i.id = id then ⟨i.id, .identity, [v]⟩ else i
  | none => after

/-- `Inst::Invalidate` if the Set is not required. -/
def invalidateIf (setNotRequired : Bool) (inst : Inst (Op O) (Val α)) : Inst (Op O) (Val α) :=
  if setNotRequired then ⟨inst.id, .void, []⟩ else inst

/-- The carry of a `SetCpsrNZC` is a `GetCFlag`. -/
def isGetCFlag (before : List (Inst (Op O) (Val α))) (v : Value (Val α)) : Bool :=
  (getInstRecursive before v).any fun i =>
    match i.code with
    | .op .getCFlag => true
    | _ => false

def getCFlag (st : PassState O α) (inst : Inst (Op O) (Val α)) : PassState O α :=
  { st with
    after := inst :: answer st.cFlag.valueRequest (.inst inst.id) st.after
    cFlag := { st.cFlag with valueRequest := some inst.id } }

def getGEFlags (st : PassState O α) (inst : Inst (Op O) (Val α)) : PassState O α :=
  { st with
    after := inst :: answer st.ge.valueRequest (.inst inst.id) st.after
    ge := { st.ge with valueRequest := some inst.id } }

/-- `A32SetCpsrNZCV`.  If C is requested, the walk comes to the instruction a second time, with
`GetCFlagFromNZCV` behind it and without the request. -/
def setCpsrNZCV (st : PassState O α) (inst : Inst (Op O) (Val α)) : PassState O α :=
  let after := match st.cFlag.valueRequest with
    | some _ => ⟨st.fresh, .op .getCFlagFromNZCV, inst.args.take 1⟩ ::
        answer st.cFlag.valueRequest (.inst st.fresh) st.after
    | none => st.after
  { st with
    after := invalidateIf st.nzcv inst :: after
    fresh := st.fresh + 1
    nzcv := true
    nz := true
    cFlag := ⟨true, none⟩ }

def setCpsrNZCVRaw (st : PassState O α) (inst : Inst (Op O) (Val α)) : PassState O α :=
  { st with
    after := invalidateIf (st.nzcv && st.cFlag.valueRequest.isNone) inst :: st.after
    nzcvq := false
    nzcv := true
    nz := true
    cFlag := ⟨true, none⟩ }

def setCpsrNZCVQ (st : PassState O α) (inst : Inst (Op O) (Val α)) : PassState O α :=
  { st with
    after := invalidateIf (st.nzcvq && st.cFlag.valueRequest.isNone) inst :: st.after
    nzcvq := true
    nzcv := true
    nz := true
    cFlag := ⟨true, none⟩ }

def setCpsrNZ (st : PassState O α) (inst : Inst (Op O) (Val α)) : PassState O α :=
  { st with
    after := invalidateIf st.nz inst :: st.after
    nzcvq := false
    nzcv := false
    nz := true }

/-- `A32SetCpsrNZC` with the flags `nz` and the carry `c`.  `EmptyNZCVImmediateMarker` is an immediate
without flags. -/
def setCpsrNZC (before : List (Inst (Op O) (Val α))) (st : PassState O α)
    (inst : Inst (Op O) (Val α)) (nz c : Value (Val α)) : PassState O α :=
  let after := answer st.cFlag.valueRequest c st.after
  if isGetCFlag before c then
    { st with
      after := ⟨inst.id, .void, []⟩ :: ⟨st.fresh, .op .setCpsrNZ, [nz]⟩ :: after
      fresh := st.fresh + 1
      nzcvq := false
      nzcv := false
      nz := true
      cFlag := ⟨st.cFlag.setNotRequired, none⟩ }
  else
    { st with
      after := (if st.nz && st.cFlag.setNotRequired then ⟨inst.id, .void, []⟩
        else if st.nz then ⟨inst.id, inst.code, [.imm (.nzcv 0), c]⟩ else inst) :: after
      nzcvq := false
      nzcv := false
      nz := true
      cFlag := ⟨true, none⟩ }

def setGEFlags (st : PassState O α) (inst : Inst (Op O) (Val α)) (value : Value (Val α)) : PassState O α :=
  { st with
    after := invalidateIf st.ge.setNotRequired inst :: answer st.ge.valueRequest value st.after
    ge := ⟨true, none⟩ }

def visit (tables : Opcodes O) (before : List (Inst (Op O) (Val α))) (inst : Inst (Op O) (Val α))
    (st : PassState O α) : PassState O α :=
  let keep := { st with after := inst :: st.after }
  match inst.code, inst.args with
  | .op .getCFlag, _ => getCFlag st inst
  | .op .setCpsrNZCV, _ => setCpsrNZCV st inst
  | .op .setCpsrNZCVRaw, _ => setCpsrNZCVRaw st inst
  | .op .setCpsrNZCVQ, _ => setCpsrNZCVQ st inst
  | .op .setCpsrNZ, _ => setCpsrNZ st inst
  | .op .setCpsrNZC, nz :: c :: _ => setCpsrNZC before st inst nz c
  | .op .setGEFlags, value :: _ => setGEFlags st inst value
  | .op .getGEFlags, _ => getGEFlags st inst
  | .op .setGEFlagsCompressed, _ => { keep with ge := ⟨true, none⟩ }
  | .op .orQFlag, _ => keep
  | .op (.other o), _ =>
      if touches tables o then ⟨inst :: st.after, st.fresh, false, false, false, ⟨false, none⟩, ⟨false, none⟩⟩
      else keep
  | _, _ => keep

/-- The walk, with the instructions before the current one, the latest first. -/
def walk (tables : Opcodes O) : List (Inst (Op O) (Val α)) → PassState O α → PassState O α
  | [], st => st
  | inst :: before, st => walk tables before (visit tables before inst st)

def flagsPass (tables : Opcodes O) (insts : List (Inst (Op O) (Val α))) (fresh : ℕ) : List (Inst (Op O) (Val α)) :=
  (walk tables insts.reverse ⟨[], fresh, false, false, false, ⟨false, none⟩, ⟨false, none⟩⟩).after

end Pass

end Voltemu.Dynarmic.A32Flags
