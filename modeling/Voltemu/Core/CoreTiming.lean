import Mathlib.Data.List.MinMax
import Mathlib.Data.Prod.Lex

/-!
# Core timing

`core/core_timing.cpp`: the queue of timed events and `Advance`, which runs the callbacks of those that are due.

* The queue is a heap with stable handles.  It is a list here; `top` is the least event by time and then by
  `fifo_order`.  A handle is the address of a heap node, so the handle of an erased event may come back.
* Every section under `basic_lock` is one step.  `Advance` holds `advance_lock` throughout and `basic_lock` except
  while a callback runs; in `check` it holds both, and then no other thread has a step that needs one.
* A callback does what it likes: the steps that come while it runs are its own or those of other threads.
* `serial` numbers the events in the order they were scheduled and `log` keeps what has happened, newest first.  The
  code has neither; they only name an event in the properties.
* Event types are kept alive, so `type.lock()` gives the type.  Times are integers.
-/

namespace Voltemu.Core.Timing

structure Event (τ : Type) where
  time : ℤ
  fifoOrder : ℕ
  type : τ
  rescheduleTime : ℤ
  handle : ℕ
  serial : ℕ
deriving DecidableEq

/-- Sort by time, unless the times are the same, in which case sort by the order added to the queue. -/
def Event.key {τ : Type} (e : Event τ) : ℤ ×ₗ ℕ := toLex (e.time, e.fifoOrder)

/-- What has happened: a callback was called for an event of some time and period, or the callback of a looping event
has returned. -/
inductive Entry
  | fired (serial : ℕ) (time period : ℤ)
  | returned (serial : ℕ) (newScheduleTime : Option ℤ)
deriving DecidableEq

def Entry.serial : Entry → ℕ
  | .fired n _ _ => n
  | .returned n _ => n

def Entry.firedBy (n : ℕ) : Entry → Bool
  | .fired m _ _ => m == n
  | .returned _ _ => false

/-- Where `Advance` is. -/
inductive Advancing (τ : Type)
  /-- Not called; both locks are free. -/
  | idle
  /-- At the head of the loop, with both locks. -/
  | check
  /-- In the callback of a one-shot event. -/
  | oneShot (type : τ)
  /-- In the callback of a looping event, with the handle of `evt` and `evt_sequence_num`. -/
  | looping (type : τ) (handle sequenceNum serial : ℕ)
deriving DecidableEq

def Advancing.running {τ : Type} : Advancing τ → Option τ
  | .idle | .check => none
  | .oneShot type | .looping type _ _ _ => some type

def Advancing.runningSerial {τ : Type} : Advancing τ → Option ℕ
  | .looping _ _ _ serial => some serial
  | _ => none

/-- `CoreTiming`, the sequence numbers of the event types, the clock, and the calls of `UnscheduleEvent` that wait for
`advance_lock`. -/
structure State (τ : Type) where
  eventQueue : List (Event τ)
  globalTimer : ℤ
  eventFifoId : ℕ
  pauseEndTime : ℤ
  sequenceNumber : τ → ℕ
  now : ℤ
  advancing : Advancing τ
  waiting : List ℕ
  serials : ℕ
  log : List Entry

def State.initial {τ : Type} (now : ℤ) : State τ where
  eventQueue := []
  globalTimer := 0
  eventFifoId := 0
  pauseEndTime := 0
  sequenceNumber := fun _ => 0
  now := now
  advancing := .idle
  waiting := []
  serials := 0
  log := []

inductive Action (τ : Type)
  /-- Time passes. -/
  | tick (dt : ℕ)
  /-- `Pause(false)`. -/
  | unpause
  /-- `ScheduleEvent`, with the heap node that the event gets. -/
  | scheduleEvent (nsIntoFuture : ℤ) (type : τ) (absoluteTime : Bool) (handle : ℕ)
  /-- `ScheduleLoopingEvent`. -/
  | scheduleLoopingEvent (startTime reschedTime : ℤ) (type : τ) (absoluteTime : Bool) (handle : ℕ)
  /-- `UnscheduleEvent` up to the wait.  A call with `Wait` has a number, a call with `NoWait` has none. -/
  | unscheduleEvent (type : τ) (wait : Option ℕ)
  /-- A call of `UnscheduleEvent` with `Wait` gets `advance_lock` and returns. -/
  | waited (call : ℕ)
  /-- `Advance` is called and takes both locks. -/
  | beginAdvance
  /-- One look at the head of the queue: `Advance` calls a callback or returns. -/
  | loop
  /-- The callback returns and `Advance` takes `basic_lock` again. -/
  | callbackReturns (newScheduleTime : Option ℤ)
deriving DecidableEq

namespace State

variable {τ : Type} [DecidableEq τ]

def basicLockFree (s : State τ) : Bool := s.advancing != .check

/-- The order of the queue, as one that can be computed. -/
instance keyOrder : Preorder (ℤ ×ₗ ℕ) :=
  (@Prod.Lex.instLinearOrder ℤ ℕ Int.instLinearOrder Nat.instLinearOrder).toPreorder

/-- `event_queue.top()`. -/
def top (s : State τ) : Option (Event τ) := s.eventQueue.argmin Event.key

def find (s : State τ) (handle : ℕ) : Option (Event τ) :=
  s.eventQueue.find? (·.handle == handle)

/-- The body of `ScheduleEvent` and `ScheduleLoopingEvent`. -/
def schedule (s : State τ) (ns reschedTime : ℤ) (type : τ) (absoluteTime : Bool) (handle : ℕ) : Option (State τ) :=
  if s.basicLockFree && !(s.eventQueue.map (·.handle)).contains handle then
    let nextTime := if absoluteTime then ns else s.now + ns
    some { s with
      eventQueue :=
        ⟨nextTime, s.eventFifoId, type, reschedTime, handle, s.serials⟩ :: s.eventQueue
      eventFifoId := s.eventFifoId + 1
      serials := s.serials + 1 }
  else none

/-- `UnscheduleEvent` under `basic_lock`. -/
def unschedule (s : State τ) (type : τ) (wait : Option ℕ) : Option (State τ) :=
  if s.basicLockFree then
    some { s with
      eventQueue := s.eventQueue.filter (·.type ≠ type)
      sequenceNumber := Function.update s.sequenceNumber type (s.sequenceNumber type + 1)
      waiting := wait.toList ++ s.waiting }
  else none

/-- `Advance` at the head of its loop. -/
def fire (s : State τ) : State τ :=
  match s.top with
  | none => { s with advancing := .idle }
  | some evt =>
      if evt.time ≤ s.globalTimer then
        let log := .fired evt.serial evt.time evt.rescheduleTime :: s.log
        if evt.rescheduleTime = 0 then
          { s with
            eventQueue := s.eventQueue.filter (·.handle ≠ evt.handle)
            advancing := .oneShot evt.type
            log := log }
        else
          { s with
            advancing := .looping evt.type evt.handle (s.sequenceNumber evt.type) evt.serial
            log := log }
      else { s with advancing := .idle }

def rescheduled (s : State τ) (evt : Event τ) (newScheduleTime : Option ℤ) : Event τ :=
  let nextScheduleTime := newScheduleTime.getD evt.rescheduleTime
  -- an event that was scheduled into a pause continues from the end of the pause
  let nextTime :=
    if evt.time < s.pauseEndTime then s.pauseEndTime + nextScheduleTime
    else evt.time + nextScheduleTime
  { evt with time := nextTime, fifoOrder := s.eventFifoId, rescheduleTime := nextScheduleTime }

/-- `Advance` behind a callback.  It is `none` when the code would use a handle that is not valid. -/
def afterCallback (s : State τ) (newScheduleTime : Option ℤ) : Option (State τ) :=
  match s.advancing with
  | .idle | .check => none
  | .oneShot _ => some { s with advancing := .check, globalTimer := s.now }
  | .looping type handle sequenceNum serial =>
      let log := .returned serial newScheduleTime :: s.log
      -- the handle is invalidated after external modification; the timer is not read again
      if sequenceNum ≠ s.sequenceNumber type then some { s with advancing := .check, log := log }
      else (s.find handle).map fun evt =>
        { s with
          eventQueue := s.eventQueue.map fun e =>
            if e.handle = handle then s.rescheduled evt newScheduleTime else e
          eventFifoId := s.eventFifoId + 1
          advancing := .check
          globalTimer := s.now
          log := log }

def step (s : State τ) : Action τ → Option (State τ)
  | .tick dt => some { s with now := s.now + dt }
  | .unpause => some { s with pauseEndTime := s.now }
  | .scheduleEvent ns type absoluteTime handle => s.schedule ns 0 type absoluteTime handle
  | .scheduleLoopingEvent start resched type absoluteTime handle =>
      s.schedule start resched type absoluteTime handle
  | .unscheduleEvent type wait => s.unschedule type wait
  | .waited call =>
      if call ∈ s.waiting ∧ s.advancing = .idle then
        some { s with waiting := s.waiting.erase call }
      else none
  | .beginAdvance =>
      if s.advancing = .idle then some { s with advancing := .check, globalTimer := s.now }
      else none
  | .loop => if s.advancing = .check then some s.fire else none
  | .callbackReturns newScheduleTime => s.afterCallback newScheduleTime

def run (s : State τ) : List (Action τ) → Option (State τ)
  | [] => some s
  | a :: rest => (s.step a).bind (run · rest)

end State

namespace Action

variable {τ : Type} [DecidableEq τ]

def positive : Action τ → Bool
  | .scheduleLoopingEvent _ reschedTime _ _ _ => decide (0 < reschedTime)
  | .callbackReturns (some newScheduleTime) => decide (0 < newScheduleTime)
  | _ => true

def schedules (type : τ) : Action τ → Bool
  | .scheduleEvent _ t _ _ | .scheduleLoopingEvent _ _ t _ _ => t == type
  | _ => false

def unschedules (type : τ) : Action τ → Bool
  | .unscheduleEvent t _ => t == type
  | _ => false

end Action

end Voltemu.Core.Timing
