import Voltemu.Lib.StraightLine

/-!
# Operations that a pass does not know

A pass over a block knows a few operations and treats all others by the tables of `ir/opcodes.h`.  Here
they are a parameter: `Semantics` can be anything that the tables allow.  The state is that of the guest
and the list of operations with side effects so far.
-/

namespace Voltemu.Dynarmic

open Voltemu.Lib

/-- Values by their type.  The types that the passes do not look at are left open. -/
inductive Val (α : Type*)
  | u1 (b : Bool)
  | u8 (b : BitVec 8)
  | u16 (b : BitVec 16)
  | u32 (b : BitVec 32)
  | u64 (b : BitVec 64)
  | u128 (b : BitVec 128)
  | nzcv (b : BitVec 4)
  | other (a : α)
deriving DecidableEq

/-- A value, and what only pseudo-operations on the instruction itself can ask for (carry, overflow). -/
structure Result (α ε : Type*) where
  val : Val α
  extra : Option ε
deriving DecidableEq

/-- The tables of `ir/opcodes.h`. -/
structure Opcodes (O : Type*) where
  readsFromCPSR : O → Bool
  writesToCPSR : O → Bool
  readsFromCoreRegister : O → Bool
  writesToCoreRegister : O → Bool
  mayHaveSideEffects : O → Bool

/-- **The operations that a pass knows by their tables only.**  Any behaviour is possible, as long as an
operation without side effects leaves the guest as it is, and an operation neither notices nor undoes a
change of the guest that the tables put out of its reach (`Free`). -/
structure Semantics {O : Type*} (tables : Opcodes O) (α ε : Type*) {G : Type*}
    (Free : O → (G → G) → Prop) where
  step : O → List (Result α ε) → G → Option (Option (Result α ε) × G)
  pure : ∀ o, tables.mayHaveSideEffects o = false → ∀ rs g r g', step o rs g = some (r, g') → g' = g
  frame : ∀ o f, Free o f → ∀ rs g, step o rs (f g) = (step o rs g).map fun q => (q.1, f q.2)

/-- The guest, and the operations with side effects so far with the values of their arguments. -/
structure State (O α G : Type*) where
  guest : G
  events : List (O × List (Val α))

def State.change {O α G : Type*} (f : G → G) (s : State O α G) : State O α G :=
  { s with guest := f s.guest }

namespace Semantics

variable {O α ε G : Type*} {tables : Opcodes O} {Free : O → (G → G) → Prop}

def stepOther (sem : Semantics tables α ε Free) (o : O) (rs : List (Result α ε)) (s : State O α G) :
    Option (Option (Result α ε) × State O α G) :=
  (sem.step o rs s.guest).map fun q =>
    (q.1, ⟨q.2, if tables.mayHaveSideEffects o then s.events ++ [(o, rs.map (·.val))] else s.events⟩)

variable {sem : Semantics tables α ε Free} {o : O} {rs : List (Result α ε)} {s s' : State O α G}

lemma stepOther_pure (h : tables.mayHaveSideEffects o = false) {r : Option (Result α ε)}
    (hstep : sem.stepOther o rs s = some (r, s')) : s' = s := by
  simp only [stepOther, Option.map_eq_some_iff, Prod.mk.injEq, h] at hstep
  obtain ⟨⟨r', g⟩, hg, -, rfl⟩ := hstep
  have := sem.pure o h rs s.guest r' g hg
  simp [this]

lemma stepOther_frame {f : G → G} (h : Free o f) (rs : List (Result α ε)) (s : State O α G) :
    sem.stepOther o rs (s.change f) = (sem.stepOther o rs s).map fun q => (q.1, q.2.change f) := by
  simp only [stepOther, State.change, sem.frame o f h, Option.map_map]
  rfl

end Semantics

end Voltemu.Dynarmic
