import Mathlib.Data.BitVec

/-!
# Syncpoint actions

`SyncpointManager` of `video_core/host1x`, for one syncpoint: `RegisterAction`, `DeregisterAction` and `Increment`.

* Any number of calls are under way.  A step is an access to the counter, a section under `guard`, or the call of an
  action outside of it.
* A call of `RegisterAction` has a number, and its action has the same one.
* The nodes of the list have addresses.  A new node may have any address that no other node of the list has, so also
  one that a node had before.  A handle is an address, or `none` for the empty handle.
* `log` is the history, latest first.  Nothing depends on it but the handles that were returned.
-/

namespace Voltemu.VideoCore.Syncpoint

/-- `RegisteredAction`, with the address of its list node. -/
structure RegisteredAction where
  node : ℕ
  expectedValue : ℕ
  action : ℕ
deriving DecidableEq

inductive Event
  /-- `RegisterAction` is called. -/
  | registers (call expectedValue : ℕ)
  /-- An action is run, with the value of the counter then. -/
  | runs (call expectedValue counter : ℕ)
  /-- `RegisterAction` returns. -/
  | registerReturns (call : ℕ) (handle : Option ℕ)
  /-- The `Increment` to this value returns. -/
  | incrementReturns (newValue : ℕ)
  /-- `DeregisterAction` is called with the handle of a call, and removes an action or none. -/
  | deregisters (call : ℕ) (removed : Option ℕ)
deriving DecidableEq

/-- The syncpoint, its actions, and the calls that are under way. -/
structure State where
  syncpoint : ℕ
  actionStorage : List RegisteredAction
  /-- Calls of `RegisterAction` that found the value reached and are about to run their action. -/
  ready : List (ℕ × ℕ)
  /-- Calls of `RegisterAction` that are about to take `guard`. -/
  waiting : List (ℕ × ℕ)
  /-- Calls of `Increment` that are about to take `guard`, by `new_value`. -/
  increments : List ℕ
  log : List Event
deriving DecidableEq

def State.initial : State := ⟨0, [], [], [], [], []⟩

inductive Action
  /-- `RegisterAction` is called and loads the counter. -/
  | registerAction (call expectedValue : ℕ)
  /-- It runs the action without `guard` and returns. -/
  | runAction (call expectedValue : ℕ)
  /-- It takes `guard`.  The address is that of the node, if one is made. -/
  | registerLocked (call expectedValue node : ℕ)
  /-- `Increment` is called and adds to the counter. -/
  | increment
  /-- It takes `guard`, runs the actions and returns. -/
  | incrementLocked (newValue : ℕ)
  /-- `DeregisterAction` with the handle that a call returned. -/
  | deregisterAction (call : ℕ) (handle : Option ℕ)
deriving DecidableEq

namespace State

/-- `emplace` before the first action with a value that is not smaller. -/
def emplace (l : List RegisteredAction) (a : RegisteredAction) : List RegisteredAction :=
  l.takeWhile (·.expectedValue < a.expectedValue) ++ a :: l.dropWhile (·.expectedValue < a.expectedValue)

/-- The actions that the loop of `Increment` runs. -/
def due (l : List RegisteredAction) (newValue : ℕ) : List RegisteredAction :=
  l.takeWhile (·.expectedValue ≤ newValue)

/-- The calls of `RegisterAction` so far. -/
def hasCall (s : State) (call : ℕ) : Bool :=
  s.log.any fun
    | .registers c _ => c == call
    | _ => false

def step (s : State) : Action → Option State
  | .registerAction call expectedValue =>
      if s.hasCall call then none
      else if s.syncpoint ≥ expectedValue then
        some { s with
          ready := (call, expectedValue) :: s.ready
          log := .registers call expectedValue :: s.log }
      else
        some { s with
          waiting := (call, expectedValue) :: s.waiting
          log := .registers call expectedValue :: s.log }
  | .runAction call expectedValue =>
      if (call, expectedValue) ∈ s.ready then
        some { s with
          ready := s.ready.erase (call, expectedValue)
          log := .registerReturns call none :: .runs call expectedValue s.syncpoint :: s.log }
      else none
  | .registerLocked call expectedValue node =>
      if (call, expectedValue) ∈ s.waiting ∧ node ∉ s.actionStorage.map (·.node) then
        if s.syncpoint ≥ expectedValue then
          some { s with
            waiting := s.waiting.erase (call, expectedValue)
            log := .registerReturns call none :: .runs call expectedValue s.syncpoint :: s.log }
        else
          some { s with
            waiting := s.waiting.erase (call, expectedValue)
            actionStorage := emplace s.actionStorage ⟨node, expectedValue, call⟩
            log := .registerReturns call (some node) :: s.log }
      else none
  | .increment =>
      let newValue := (s.syncpoint + 1) % 2 ^ 32
      some { s with syncpoint := newValue, increments := newValue :: s.increments }
  | .incrementLocked newValue =>
      if newValue ∈ s.increments then
        let ran := (due s.actionStorage newValue).map fun a =>
          Event.runs a.action a.expectedValue s.syncpoint
        some { s with
          increments := s.increments.erase newValue
          actionStorage := s.actionStorage.dropWhile (·.expectedValue ≤ newValue)
          log := .incrementReturns newValue :: (ran.reverse ++ s.log) }
      else none
  | .deregisterAction call handle =>
      if .registerReturns call handle ∈ s.log then
        match s.actionStorage.find? fun a => some a.node == handle with
        | some a =>
            some { s with
              actionStorage := s.actionStorage.erase a
              log := .deregisters call (some a.action) :: s.log }
        | none => some { s with log := .deregisters call none :: s.log }
      else none

def run : State → List Action → Option State := List.foldlM step

end State

def Event.isRunOf (call : ℕ) : Event → Bool
  | .runs c _ _ => c == call
  | _ => false

/-- **What the actions are for.** -/
structure Correct (s : State) : Prop where
  /-- No action is run before its value is reached. -/
  reached : ∀ call value counter, .runs call value counter ∈ s.log → value ≤ counter
  /-- No action is run twice. -/
  once : ∀ call, s.log.countP (Event.isRunOf call) ≤ 1
  /-- When both the call and the increment to its value have returned, the action was run or deregistered. -/
  prompt : ∀ call value handle, .registers call value ∈ s.log → .registerReturns call handle ∈ s.log →
    value = 0 ∨ .incrementReturns value ∈ s.log →
    (∃ counter, .runs call value counter ∈ s.log) ∨ .deregisters call (some call) ∈ s.log
  /-- The actions are sorted. -/
  sorted : s.actionStorage.Pairwise (·.expectedValue ≤ ·.expectedValue)
  /-- A handle removes its own action only. -/
  own : ∀ call removed, .deregisters call (some removed) ∈ s.log → removed = call

def Action.NoWrap (s : State) : Action → Prop
  | .increment => s.syncpoint + 1 < 2 ^ 32
  | _ => True

/-- The node of a handle is not that of another action. -/
def Action.NotReused (s : State) : Action → Prop
  | .deregisterAction call handle => ∀ a ∈ s.actionStorage, some a.node = handle → a.action = call
  | _ => True

instance (s : State) : ∀ a : Action, Decidable (a.NoWrap s)
  | .increment => inferInstanceAs (Decidable (s.syncpoint + 1 < 2 ^ 32))
  | .registerAction _ _ | .runAction _ _ | .registerLocked _ _ _ | .incrementLocked _
  | .deregisterAction _ _ => inferInstanceAs (Decidable True)

instance (s : State) : ∀ a : Action, Decidable (a.NotReused s)
  | .deregisterAction call handle =>
      inferInstanceAs (Decidable (∀ a ∈ s.actionStorage, some a.node = handle → a.action = call))
  | .registerAction _ _ | .runAction _ _ | .registerLocked _ _ _ | .increment
  | .incrementLocked _ => inferInstanceAs (Decidable True)

/-- Every step of a run meets a condition on the state before it. -/
def EveryStep (P : State → Action → Prop) : State → List Action → Prop
  | _, [] => True
  | s, a :: actions => P s a ∧ ∀ s' ∈ s.step a, EveryStep P s' actions

instance (P : State → Action → Prop) [∀ s a, Decidable (P s a)] :
    ∀ s actions, Decidable (EveryStep P s actions)
  | _, [] => inferInstanceAs (Decidable True)
  | s, a :: actions =>
      have (s' : State) : Decidable (EveryStep P s' actions) := instDecidableEveryStep P s' actions
      inferInstanceAs (Decidable (P s a ∧ ∀ s' ∈ s.step a, EveryStep P s' actions))

end Voltemu.VideoCore.Syncpoint
