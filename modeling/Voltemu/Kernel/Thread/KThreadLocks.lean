import Mathlib.Tactic

/-!
# Locks with priority inheritance

The part of `KThread` that keeps track of who waits for whom: `AddWaiter`, `RemoveWaiter`,
`RemoveWaiterByKey`, `SetBasePriority`, `IncreaseBasePriority` and the walk `RestorePriority`.

* A lock info is a number; what it points to is `lockInfo`, and `Create` takes a number that was never
  used.
* `m_tree` is the list of its threads in order.  The comparator sends a thread behind those of the
  same priority.
* `none` stands for a null pointer that is followed, and for a walk that needs more than its fuel.
* The trees of the condition variables and the scheduler are told of a new priority; what they do
  with it is not part of this file.
-/

namespace Voltemu.Kernel

open Function

structure LockInfo (ι : Type*) where
  addressKey : ℕ
  isKernelAddressKey : Bool
  owner : Option ι
  tree : List ι
  waiterCount : ℕ

structure LockState (ι : Type*) where
  basePriority : ι → ℤ
  priority : ι → ℤ
  addressKey : ι → ℕ
  isKernelAddressKey : ι → Bool
  numKernelWaiters : ι → ℤ
  heldLockInfoList : ι → List ℕ
  waitingLockInfo : ι → Option ℕ
  lockInfo : ℕ → LockInfo ι
  nextLockInfo : ℕ

namespace LockState

variable {ι : Type*}

/-- Threads that hold no lock anybody waits for. -/
def start (base : ι → ℤ) : LockState ι where
  basePriority := base
  priority := base
  addressKey := fun _ => 0
  isKernelAddressKey := fun _ => false
  numKernelWaiters := fun _ => 0
  heldLockInfoList := fun _ => []
  waitingLockInfo := fun _ => none
  lockInfo := fun _ => ⟨0, false, none, [], 0⟩
  nextLockInfo := 0

def lockOwner (s : LockState ι) (thread : ι) : Option ι :=
  (s.waitingLockInfo thread).bind fun info => (s.lockInfo info).owner

def keyOf (s : LockState ι) (info : ℕ) : ℕ × Bool :=
  ((s.lockInfo info).addressKey, (s.lockInfo info).isKernelAddressKey)

def threadKey (s : LockState ι) (thread : ι) : ℕ × Bool :=
  (s.addressKey thread, s.isKernelAddressKey thread)

def findHeldLock (s : LockState ι) (owner : ι) (addressKey : ℕ) (isKernelAddressKey : Bool) : Option ℕ :=
  (s.heldLockInfoList owner).find? fun info => s.keyOf info = (addressKey, isKernelAddressKey)

section Mutators

variable [DecidableEq ι]

/-- `LockWithPriorityInheritanceInfo::Create`. -/
def createLockInfo (s : LockState ι) (addressKey : ℕ) (isKernelAddressKey : Bool) : ℕ × LockState ι :=
  (s.nextLockInfo,
    { s with
      lockInfo := update s.lockInfo s.nextLockInfo ⟨addressKey, isKernelAddressKey, none, [], 0⟩
      nextLockInfo := s.nextLockInfo + 1 })

def addHeldLock (s : LockState ι) (owner : ι) (info : ℕ) : LockState ι :=
  { s with
    lockInfo := update s.lockInfo info { s.lockInfo info with owner := some owner }
    heldLockInfoList := update s.heldLockInfoList owner (info :: s.heldLockInfoList owner) }

def eraseHeldLock (s : LockState ι) (owner : ι) (info : ℕ) : LockState ι :=
  { s with
    heldLockInfoList := update s.heldLockInfoList owner ((s.heldLockInfoList owner).erase info) }

/-- `LockWithPriorityInheritanceInfo::AddWaiter`. -/
def infoAddWaiter (s : LockState ι) (info : ℕ) (waiter : ι) : LockState ι :=
  { s with
    lockInfo := update s.lockInfo info
      { s.lockInfo info with
        tree := (s.lockInfo info).tree.orderedInsert (fun a b => s.priority a < s.priority b) waiter
        waiterCount := (s.lockInfo info).waiterCount + 1 }
    waitingLockInfo := update s.waitingLockInfo waiter (some info) }

/-- `LockWithPriorityInheritanceInfo::RemoveWaiter`: whether it was the last waiter. -/
def infoRemoveWaiter (s : LockState ι) (info : ℕ) (waiter : ι) : Bool × LockState ι :=
  (decide ((s.lockInfo info).waiterCount - 1 = 0),
    { s with
      lockInfo := update s.lockInfo info
        { s.lockInfo info with
          tree := (s.lockInfo info).tree.erase waiter
          waiterCount := (s.lockInfo info).waiterCount - 1 }
      waitingLockInfo := update s.waitingLockInfo waiter none })

/-- A change to `m_num_kernel_waiters`. -/
def addKernelWaiters (s : LockState ι) (owner : ι) (n : ℤ) : LockState ι :=
  { s with
    numKernelWaiters := update s.numKernelWaiters owner (s.numKernelWaiters owner + n) }

def setPriority (s : LockState ι) (thread : ι) (value : ℤ) : LockState ι :=
  { s with priority := update s.priority thread value }

def addWaiterImpl (s : LockState ι) (owner thread : ι) : LockState ι :=
  let addressKey := s.addressKey thread
  let isKernelAddressKey := s.isKernelAddressKey thread
  let s := if isKernelAddressKey then s.addKernelWaiters owner 1 else s
  match s.findHeldLock owner addressKey isKernelAddressKey with
  | some info => s.infoAddWaiter info thread
  | none =>
      let r := s.createLockInfo addressKey isKernelAddressKey
      (r.2.addHeldLock owner r.1).infoAddWaiter r.1 thread

def removeWaiterImpl (s : LockState ι) (owner thread : ι) : Option (LockState ι) :=
  let s := if s.isKernelAddressKey thread then s.addKernelWaiters owner (-1) else s
  match s.waitingLockInfo thread with
  | none => none
  | some info =>
      let r := s.infoRemoveWaiter info thread
      some (if r.1 then r.2.eraseHeldLock owner info else r.2)

def inheritedPriority (s : LockState ι) (thread : ι) : Option ℤ :=
  (s.heldLockInfoList thread).foldlM
    (fun new info => (s.lockInfo info).tree.head?.map fun waiter => min new (s.priority waiter))
    (s.basePriority thread)

/-- `RestorePriority`, with fuel for the walk. -/
def restorePriority : (fuel : ℕ) → LockState ι → Option ι → Option (LockState ι)
  | _, s, none => some s
  | 0, _, some _ => none
  | fuel + 1, s, some thread =>
      match s.inheritedPriority thread with
      | none => none
      | some newPriority =>
          if newPriority = s.priority thread then some s
          else
            match s.lockOwner thread with
            | none => some (s.setPriority thread newPriority)
            | some lockOwner =>
                match s.removeWaiterImpl lockOwner thread with
                | none => none
                | some s =>
                    restorePriority fuel ((s.setPriority thread newPriority).addWaiterImpl lockOwner thread)
                      (some lockOwner)

def setAddressKey (s : LockState ι) (thread : ι) (key : ℕ) (isKernel : Bool) : LockState ι :=
  { s with
    addressKey := update s.addressKey thread key
    isKernelAddressKey := update s.isKernelAddressKey thread isKernel }

def addWaiter (fuel : ℕ) (s : LockState ι) (owner thread : ι) : Option (LockState ι) :=
  let s := s.addWaiterImpl owner thread
  if s.priority thread < s.priority owner then restorePriority fuel s (some owner) else some s

def removeWaiter (fuel : ℕ) (s : LockState ι) (owner thread : ι) : Option (LockState ι) :=
  (s.removeWaiterImpl owner thread).bind fun s =>
    if s.priority owner = s.priority thread ∧ s.priority owner < s.basePriority owner then
      restorePriority fuel s (some owner)
    else some s

/-- What `RemoveWaiterByKey` does before it restores a priority, for the lock info and its next
owner. -/
def handOver (s : LockState ι) (owner : ι) (info : ℕ) (nextLockOwner : ι) : Bool × LockState ι :=
  let isKernel := (s.lockInfo info).isKernelAddressKey
  let s := s.eraseHeldLock owner info
  let s := if isKernel then s.addKernelWaiters owner (-(s.lockInfo info).waiterCount) else s
  let r := s.infoRemoveWaiter info nextLockOwner
  if r.1 then (false, r.2)
  else
    let s := r.2.addHeldLock nextLockOwner info
    (true, if isKernel then s.addKernelWaiters nextLockOwner (s.lockInfo info).waiterCount else s)

/-- `RemoveWaiterByKey`: the next owner, and whether it has waiters. -/
def removeWaiterByKey (fuel : ℕ) (s : LockState ι) (owner : ι) (key : ℕ) (isKernel : Bool) :
    Option ((Option ι × Bool) × LockState ι) :=
  match s.findHeldLock owner key isKernel with
  | none => some ((none, false), s)
  | some info =>
      match (s.lockInfo info).tree.head? with
      | none => none
      | some nextLockOwner =>
          let r := s.handOver owner info nextLockOwner
          let s := r.2
          if s.priority owner = s.priority nextLockOwner ∧
              s.priority owner < s.basePriority owner then
            (restorePriority fuel s (some owner)).map fun s => ((some nextLockOwner, r.1), s)
          else some ((some nextLockOwner, r.1), s)

def setBasePriority (fuel : ℕ) (s : LockState ι) (thread : ι) (value : ℤ) : Option (LockState ι) :=
  restorePriority fuel { s with basePriority := update s.basePriority thread value } (some thread)

def increaseBasePriority (fuel : ℕ) (s : LockState ι) (thread : ι) (priority : ℤ) : Option (LockState ι) :=
  if s.basePriority thread > priority then
    restorePriority fuel { s with basePriority := update s.basePriority thread priority } (some thread)
  else some s

end Mutators

end LockState

end Voltemu.Kernel
