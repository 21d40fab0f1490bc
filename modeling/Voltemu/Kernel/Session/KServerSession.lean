import Mathlib.Tactic

/-!
# Server sessions

`KServerSession` with its `KSession`: `OnRequest`, `ReceiveRequest`, `SendReply`, `OnClientClosed` and
`CleanupRequests`, the closing of the two ends, and the termination of client threads.

* A step is a section under the scheduler lock, or what an operation does under `m_lock` between two of them.  At most
  one operation holds `m_lock`; `Operation` is where it is, with its local variables.
* `OnRequest` and the termination of a thread do not take `m_lock` and come in between.
* A client thread that waits for its request holds a reference to the client session, so that it is not destroyed.  A
  thread that is terminated does not wait any more.
* Messages, results and the notification of the server are left out: a step of `ReceiveRequest` says whether the message
  was received.  A reply through an event is one `UnlockForIpcUserBuffer` and one signal.
-/

namespace Voltemu.Kernel.ServerSession

open Function

/-- `KSessionRequest`. -/
structure Request where
  /-- `m_thread`, until `ClearThread`. -/
  thread : Option ℕ
  /-- `m_event`, until `ClearEvent`. -/
  event : Option ℕ
  /-- The thread that sent the request, and whether it did with an event. -/
  sender : ℕ
  isAsync : Bool
  /-- References that the session has opened and not closed. -/
  references : ℤ
  /-- Replies: `EndWait`, or a signal of the event. -/
  answers : ℕ
deriving DecidableEq

/-- `KSession::State`. -/
inductive SessionState
  | normal
  | clientClosed
  | serverClosed
deriving DecidableEq

/-- The local variables of the loop of `OnClientClosed`. -/
structure ClosingRequest where
  request : ℕ
  thread : Option ℕ
  event : Option ℕ
  curRequest : Bool
  terminate : Bool
deriving DecidableEq

/-- The operation that holds `m_lock`. -/
inductive Operation
  /-- `ReceiveRequest` has taken a request from the list. -/
  | received (request thread : ℕ) (isHle : Bool)
  /-- `ReceiveMessage` has failed; the request is still the current one. -/
  | receiveFailed (request thread : ℕ)
  /-- It is not any more, and the client has to be told. -/
  | receiveReply (request thread : ℕ)
  /-- `SendReply` has taken the current request. -/
  | sendReply (request : ℕ)
  /-- `CleanupRequests`, before it takes the next request or with one. -/
  | cleanup (request : Option ℕ)
  /-- `OnClientClosed`, before it takes the next request or with one. -/
  | clientClosing (prevRequest : Option ℕ) (request : Option ClosingRequest)
deriving DecidableEq

structure State where
  requests : ℕ → Option Request
  /-- The number of requests so far. -/
  nextRequest : ℕ
  requestList : List ℕ
  currentRequest : Option ℕ
  sessionState : SessionState
  /-- The request that a thread waits for. -/
  waiting : ℕ → Option ℕ
  terminationRequested : ℕ → Bool
  /-- The holder of `m_lock`. -/
  operation : Option Operation
  clientDestroyed : Bool
  /-- `KSession::OnClientClosed` has called `OnClientClosed`, which is about to take `m_lock`. -/
  clientClosedCalled : Bool
  clientClosedStarted : Bool
  serverDestroyed : Bool
  cleanupStarted : Bool
  cleanupDone : Bool
  /-- A null pointer to a thread was followed. -/
  nullThread : Bool
  /-- `EndWait` was called on a thread that did not wait for the request. -/
  strayWakeup : Bool

namespace State

def initial : State where
  requests := fun _ => none
  nextRequest := 0
  requestList := []
  currentRequest := none
  sessionState := .normal
  waiting := fun _ => none
  terminationRequested := fun _ => false
  operation := none
  clientDestroyed := false
  clientClosedCalled := false
  clientClosedStarted := false
  serverDestroyed := false
  cleanupStarted := false
  cleanupDone := false
  nullThread := false
  strayWakeup := false

def modify (s : State) (request : ℕ) (f : Request → Request) : State :=
  { s with requests := update s.requests request ((s.requests request).map f) }

def openRequest (s : State) (request : ℕ) : State :=
  s.modify request fun q => { q with references := q.references + 1 }

def closeRequest (s : State) (request : ℕ) : State :=
  s.modify request fun q => { q with references := q.references - 1 }

/-- `thread->EndWait(result)`, for a request. -/
def endWait (s : State) (request thread : ℕ) : State :=
  if s.waiting thread = some request then
    { s with waiting := update s.waiting thread none }.modify request
      fun q => { q with answers := q.answers + 1 }
  else { s with strayWakeup := true }

/-- The reply to a client thread: with an event the buffer is unlocked and the event signalled, otherwise the wait is
ended if the thread is not terminating. -/
def reply (s : State) (request thread : ℕ) (event : Option ℕ) : State :=
  match event with
  | some _ => s.modify request fun q => { q with answers := q.answers + 1 }
  | none => if s.terminationRequested thread then s else s.endWait request thread

/-- The reply of `SendReply` and `CleanupRequests`, if there is a client thread. -/
def replyIfThread (s : State) (request : ℕ) (q : Request) : State :=
  match q.thread with
  | none => s
  | some thread => s.reply request thread q.event

end State

inductive Action
  /-- `OnRequest`, by a thread that does not wait. -/
  | onRequest (thread : ℕ) (event : Option ℕ)
  /-- `RequestTerminate` of a thread. -/
  | terminate (thread : ℕ)
  /-- The last reference to the client session is closed. -/
  | destroyClient
  /-- The last reference to the server session is closed. -/
  | destroyServer
  /-- An operation takes `m_lock` and does its first section. -/
  | receiveRequest (isHle : Bool)
  | sendReply
  | cleanupRequests
  | onClientClosed
  /-- The operation that holds `m_lock` goes on.  The flag says whether a message is received. -/
  | advance (received : Bool)
deriving DecidableEq

namespace State

variable (s : State)

def onRequest (thread : ℕ) (event : Option ℕ) : State :=
  if s.sessionState ≠ .normal then s
  else if s.terminationRequested thread then s
  else
    let request := s.nextRequest
    let s := { s with
      requests := update s.requests request (some ⟨some thread, event, thread, event.isSome, 1, 0⟩)
      nextRequest := request + 1
      requestList := s.requestList ++ [request] }
    match event with
    | some _ => s
    | none => { s with waiting := update s.waiting thread (some request) }

/-- `RequestTerminate`: the wait of the thread is cancelled. -/
def terminate (thread : ℕ) : State :=
  { s with
    terminationRequested := update s.terminationRequested thread true
    waiting := update s.waiting thread none }

/-- `KClientSession::Destroy` with `KSession::OnClientClosed`. -/
def destroyClient : State :=
  if s.sessionState = .normal then
    { s with clientDestroyed := true, sessionState := .clientClosed, clientClosedCalled := true }
  else { s with clientDestroyed := true }

/-- The start of `KServerSession::Destroy`, with `KSession::OnServerClosed`. -/
def destroyServer : State :=
  { s with
    serverDestroyed := true
    sessionState := if s.sessionState = .normal then .serverClosed else s.sessionState }

/-- The first section of `ReceiveRequest`. -/
def receiveRequest (isHle : Bool) : State :=
  if s.sessionState ≠ .normal then s
  else if s.currentRequest ≠ none then s
  else
    match s.requestList with
    | [] => s
    | request :: rest =>
        let popped := { s with requestList := rest }
        match (s.requests request).bind Request.thread with
        | none => popped
        | some thread => { popped with operation := some (.received request thread isHle) }

/-- The first section of `SendReply`. -/
def sendReply : State :=
  match s.currentRequest with
  | none => s
  | some request => { s with currentRequest := none, operation := some (.sendReply request) }

/-- The section of the loop of `CleanupRequests`. -/
def cleanupNext : State :=
  match s.currentRequest, s.requestList with
  | some request, _ => { s with currentRequest := none, operation := some (.cleanup (some request)) }
  | none, request :: rest => { s with requestList := rest, operation := some (.cleanup (some request)) }
  | none, [] => { s with operation := none, cleanupDone := true }

/-- The section of the loop of `OnClientClosed`. -/
def clientClosingNext (prevRequest : Option ℕ) : State :=
  if s.currentRequest ≠ none ∧ s.currentRequest ≠ prevRequest then
    match s.currentRequest with
    | none => s
    | some request =>
        let s := s.openRequest request
        match s.requests request with
        | none => s
        | some q =>
            match q.thread with
            | none => { s with nullThread := true }
            | some thread =>
                let terminate := s.terminationRequested thread
                let s := if terminate then s.modify request fun q => { q with thread := none, event := none } else s
                { s with
                  operation := some (.clientClosing (some request)
                    (some ⟨request, some thread, q.event, true, terminate⟩)) }
  else
    match s.requestList with
    | request :: rest =>
        let q := s.requests request
        { s with
          requestList := rest
          operation := some (.clientClosing prevRequest
            (some ⟨request, q.bind Request.thread, q.bind Request.event, false, false⟩)) }
    | [] => { s with operation := none }

/-- The rest of an iteration of `OnClientClosed`. -/
def clientClosingRequest (prevRequest : Option ℕ) (c : ClosingRequest) : State :=
  let s :=
    if c.terminate ∧ c.thread = none then { s with nullThread := true } else s
  let s :=
    if c.event.isSome ∧ c.curRequest = false then
      match c.thread with
      | none => { s with nullThread := true }
      | some thread => s.reply c.request thread c.event
    else s
  { s.closeRequest c.request with operation := some (.clientClosing prevRequest none) }

/-- The operation that holds `m_lock` goes on. -/
def advance (received : Bool) : Operation → State
  | .received request thread isHle =>
      let s := { s with currentRequest := some request }
      if isHle ∨ received then { s with operation := none }
      else { s with operation := some (.receiveFailed request thread) }
  | .receiveFailed request thread =>
      { s with currentRequest := none, operation := some (.receiveReply request thread) }
  | .receiveReply request thread =>
      let s := s.reply request thread ((s.requests request).bind Request.event)
      { s.closeRequest request with operation := none }
  | .sendReply request =>
      match s.requests request with
      | none => s
      | some q => { (s.replyIfThread request q).closeRequest request with operation := none }
  | .cleanup none => s.cleanupNext
  | .cleanup (some request) =>
      match s.requests request with
      | none => s
      | some q => { (s.replyIfThread request q).closeRequest request with operation := some (.cleanup none) }
  | .clientClosing prevRequest none => s.clientClosingNext prevRequest
  | .clientClosing prevRequest (some c) => s.clientClosingRequest prevRequest c

def Enabled : Action → Prop
  | .onRequest thread _ => s.clientDestroyed = false ∧ s.waiting thread = none
  | .terminate _ => True
  | .destroyClient => s.clientDestroyed = false ∧ ∀ thread, s.waiting thread = none
  | .destroyServer => s.serverDestroyed = false
  | .receiveRequest _ => s.operation = none
  | .sendReply => s.operation = none
  | .cleanupRequests => s.operation = none ∧ s.serverDestroyed = true ∧ s.cleanupStarted = false
  | .onClientClosed => s.operation = none ∧ s.clientClosedCalled = true ∧ s.clientClosedStarted = false
  | .advance _ => s.operation ≠ none

def step : Action → State
  | .onRequest thread event => s.onRequest thread event
  | .terminate thread => s.terminate thread
  | .destroyClient => s.destroyClient
  | .destroyServer => s.destroyServer
  | .receiveRequest isHle => s.receiveRequest isHle
  | .sendReply => s.sendReply
  | .cleanupRequests => { s with cleanupStarted := true }.cleanupNext
  | .onClientClosed => { s with clientClosedStarted := true }.clientClosingNext none
  | .advance received =>
      match s.operation with
      | none => s
      | some operation => s.advance received operation

end State

inductive Reachable : State → Prop
  | start : Reachable State.initial
  | step {s : State} {a : Action} (reachable : Reachable s) (enabled : s.Enabled a) : Reachable (s.step a)

end Voltemu.Kernel.ServerSession
