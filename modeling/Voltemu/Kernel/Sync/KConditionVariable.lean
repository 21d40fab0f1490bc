import Voltemu.Kernel.Thread.KThreadLocks

/-!
# `KConditionVariable`: mutexes and condition variables of user programs

A mutex is a word of user memory that holds the handle of its owner, with `HandleWaitMask` set if
somebody waits in the kernel.  The kernel side is `k_condition_variable.cpp`; its wait lists are the
locks of `KThread`.  The user side are the accesses of a program that follows the protocol.

* A kernel call works under the scheduler lock, which excludes other kernel calls but not the user
  code of other cores.  Every call here touches the mutex word once, so it is one step, at the time of
  that access.  `Signal` touches a word for each thread it wakes: it is a sequence of steps, during
  which `signaling` holds the scheduler lock.
* The tree of a condition variable is the set of threads with a `condVarKey`; `Signal` may take them
  in any order.
* A call by a thread that is asked to terminate, or on an address that cannot be accessed, ends before
  it changes anything and is left out.
* `owns thread addr` says that the thread considers itself the owner of the mutex.  No kernel function
  reads it.
-/

namespace Voltemu.Kernel

open Function

def HandleWaitMask : BitVec 32 := 1#32 <<< 30

/-- The threads of a process in its handle table.  A handle is never zero and leaves the wait bit
clear; `lookup` is `GetObjectWithoutPseudoHandle<KThread>`. -/
structure ThreadHandles (ι : Type*) where
  handle : ι → BitVec 32
  lookup : BitVec 32 → Option ι
  lookup_eq_some : ∀ h t, lookup h = some t ↔ handle t = h
  handle_ne_zero : ∀ t, handle t ≠ 0#32
  handle_and_mask : ∀ t, handle t &&& HandleWaitMask = 0#32

/-- The wait queue of a blocked thread; it decides what a cancelled wait does. -/
inductive WaitQueue
  | waitForAddress
  | waitConditionVariable
deriving DecidableEq

structure SignalCall where
  cvKey : ℕ
  count : ℤ
  numWaiters : ℕ

/-- User memory, the kernel's wait lists and the threads. -/
structure CondVarState (ι : Type*) where
  locks : LockState ι
  word : ℕ → BitVec 32
  addressKeyValue : ι → BitVec 32
  waitQueue : ι → Option WaitQueue
  condVarKey : ι → Option ℕ
  signaling : Option SignalCall
  owns : ι → ℕ → Bool

namespace CondVarState

variable {ι : Type*}

def start (base : ι → ℤ) : CondVarState ι where
  locks := .start base
  word := fun _ => 0#32
  addressKeyValue := fun _ => 0#32
  waitQueue := fun _ => none
  condVarKey := fun _ => none
  signaling := none
  owns := fun _ _ => false

variable [DecidableEq ι]

def writeToUser (s : CondVarState ι) (addr : ℕ) (value : BitVec 32) : CondVarState ι :=
  { s with word := update s.word addr value }

def setOwns (s : CondVarState ι) (thread : ι) (addr : ℕ) (b : Bool) : CondVarState ι :=
  { s with owns := update s.owns thread (update (s.owns thread) addr b) }

/-- `EndWait` with success: the thread has got the mutex it waited for. -/
def endWait (s : CondVarState ι) (thread : ι) : CondVarState ι :=
  { s with waitQueue := update s.waitQueue thread none }.setOwns thread
    (s.locks.addressKey thread) true

/-- "Determine the next tag." -/
def nextValue (s : CondVarState ι) : Option ι → Bool → BitVec 32
  | none, _ => 0#32
  | some next, hasWaiters =>
      if hasWaiters then s.addressKeyValue next ||| HandleWaitMask else s.addressKeyValue next

variable [Fintype ι]

/-- `RemoveUserWaiterByKey`, the write of the next tag and `EndWait`: what `SignalToAddress` does, and
`Wait` at its start. -/
def signalToAddress (s : CondVarState ι) (thread : ι) (addr : ℕ) : Option (CondVarState ι) :=
  (s.locks.removeWaiterByKey (Fintype.card ι + 1) thread addr false).map fun r =>
    let next := r.1.1
    let s := ({ s with locks := r.2 }.writeToUser addr (s.nextValue next r.1.2)).setOwns thread addr false
    match next with
    | some next => s.endWait next
    | none => s

/-- `WaitForAddress`, with the thread's own handle as the value. -/
def waitForAddress (T : ThreadHandles ι) (s : CondVarState ι) (thread : ι) (handle : BitVec 32)
    (addr : ℕ) : Option (CondVarState ι) :=
  if s.word addr ≠ handle ||| HandleWaitMask then some s
  else
    match T.lookup handle with
    | none => some s
    | some owner =>
        ((s.locks.setAddressKey thread addr false).addWaiter (Fintype.card ι + 1) owner thread).map
          fun locks =>
            { s with
              locks := locks
              addressKeyValue := update s.addressKeyValue thread (T.handle thread)
              waitQueue := update s.waitQueue thread (some .waitForAddress) }

def signalImpl (T : ThreadHandles ι) (s : CondVarState ι) (thread : ι) : Option (CondVarState ι) :=
  let address := s.locks.addressKey thread
  let ownTag := s.addressKeyValue thread
  let prevTag := s.word address
  -- `UpdateLockAtomic`
  let s := s.writeToUser address (if prevTag = 0#32 then ownTag else prevTag ||| HandleWaitMask)
  if prevTag = 0#32 then some (s.endWait thread)
  else
    match T.lookup (prevTag &&& ~~~HandleWaitMask) with
    | some owner =>
        (s.locks.addWaiter (Fintype.card ι + 1) owner thread).map fun locks =>
          { s with locks := locks }
    | none => some { s with waitQueue := update s.waitQueue thread none }

/-- `Wait`, with the thread's own handle as the value. -/
def wait (T : ThreadHandles ι) (s : CondVarState ι) (thread : ι) (addr key : ℕ) (timeout : ℤ) : Option (CondVarState ι) :=
  ((s.writeToUser key 1#32).signalToAddress thread addr).map fun s =>
    if timeout = 0 then s
    else
      { s with
        locks := s.locks.setAddressKey thread addr false
        addressKeyValue := update s.addressKeyValue thread (T.handle thread)
        condVarKey := update s.condVarKey thread (some key)
        waitQueue := update s.waitQueue thread (some .waitConditionVariable) }

def cancelWait (s : CondVarState ι) (thread : ι) : Option (CondVarState ι) :=
  let resume (locks : LockState ι) : CondVarState ι :=
    { s with
      locks := locks
      condVarKey := update s.condVarKey thread none
      waitQueue := update s.waitQueue thread none }
  match s.waitQueue thread, s.locks.lockOwner thread with
  | none, _ => some s
  | some .waitForAddress, none => none
  | some .waitConditionVariable, none => some (resume s.locks)
  | some _, some owner =>
      (s.locks.removeWaiter (Fintype.card ι + 1) owner thread).map resume

/-- The loop of `Signal` goes on with `target`. -/
def signalNext (T : ThreadHandles ι) (s : CondVarState ι) (call : SignalCall) (target : ι) : Option (CondVarState ι) :=
  signalImpl T
    { s with
      condVarKey := update s.condVarKey target none
      signaling := some { call with numWaiters := call.numWaiters + 1 } }
    target

/-- The end of `Signal`: "if we have no waiters, clear the has waiter flag". -/
def signalEnd (s : CondVarState ι) (call : SignalCall) : CondVarState ι :=
  let s := { s with signaling := none }
  if ∃ t, s.condVarKey t = some call.cvKey then s else s.writeToUser call.cvKey 0#32

end CondVarState

end Voltemu.Kernel
