import Voltemu.Lib.DList

/-!
# `KPriorityQueue`: the run queues of the scheduler

`k_priority_queue.h`, instantiated as the kernel does: four cores, priorities 0 to 63.  There is a
scheduled and a suggested queue; each has, for every priority and every core, an intrusive doubly
linked list, and for every core a bit set of the priorities with a non-empty list.

* A `Slot` names one list.  `m_queues[priority].m_root[core]` of the two queues is `root slot`, and
  `m_available_priorities[core][priority]` is `available slot`.
* The entries a member is linked with are the member's own, one for each core: the scheduled and the
  suggested queue of a core share them.
* A member is an element of `ι`; what the queue reads of it is its `KThreadInfo`.  The active core
  `-1` is `none`.
-/

namespace Voltemu.Kernel

open DList

/-- `Core::Hardware::NUM_CPU_CORES`. -/
def NumCores : ℕ := 4

/-- `Svc::LowestThreadPriority`. -/
def LowestPriority : ℕ := 63

/-- `NumPriority`, with a highest priority of 0. -/
def NumPriority : ℕ := LowestPriority + 1

/-- The scheduled queue holds a thread on its active core, the suggested queue on the other cores of
its affinity mask. -/
inductive QueueKind
  | scheduled
  | suggested
deriving DecidableEq

structure Slot where
  kind : QueueKind
  priority : ℕ
  core : ℕ
deriving DecidableEq

/-- The fields of a `KThread` that the queue reads. -/
structure KThreadInfo where
  priority : ℕ
  activeCore : Option ℕ
  affinityMask : BitVec 64
  isDummyThread : Bool
deriving DecidableEq

/-- What the setters of a thread see to: the mask names existing cores, an active core is one of the
mask, and the priority is a valid one. -/
structure KThreadInfo.Valid (a : KThreadInfo) : Prop where
  mask_lt : ∀ core, a.affinityMask.getLsbD core = true → core < NumCores
  active_mem : ∀ core, a.activeCore = some core → a.affinityMask.getLsbD core = true
  priority_le : a.priority ≤ LowestPriority + 1

/-- The cores of an affinity mask, in the order in which `GetNextCore` takes them out. -/
def affinityCores (mask : BitVec 64) : List ℕ := (List.range 64).filter fun c => mask.getLsbD c

/-- `class KPriorityQueue`, with the entries of its members. -/
structure KPriorityQueue (ι : Type*) where
  root : Slot → Entry ι
  available : Slot → Bool
  entries : ℕ → ι → Entry ι

namespace KPriorityQueue

variable {ι : Type*}

def empty : KPriorityQueue ι where
  root := fun _ => ⟨none, none⟩
  available := fun _ => false
  entries := fun _ _ => ⟨none, none⟩

/-- The list of a slot: its root and the entries of its core. -/
def links (q : KPriorityQueue ι) (slot : Slot) : Links ι := ⟨q.root slot, q.entries slot.core⟩

section Mutators

variable [DecidableEq ι]

def setLinks (q : KPriorityQueue ι) (slot : Slot) (s : Links ι) : KPriorityQueue ι :=
  { q with
    root := Function.update q.root slot s.root
    entries := Function.update q.entries slot.core s.entry }

def setAvailable (q : KPriorityQueue ι) (slot : Slot) (b : Bool) : KPriorityQueue ι :=
  { q with available := Function.update q.available slot b }

/-! ## `KPriorityQueueImpl`

The return values of `KPerCoreQueue` (the list was, or has become, empty) decide about the bit.
-/

/-- `KPriorityQueueImpl::PushBack`. -/
def implPushBack (q : KPriorityQueue ι) (slot : Slot) (member : ι) : KPriorityQueue ι :=
  if slot.priority > LowestPriority then q
  else
    let q' := q.setLinks slot ((q.links slot).pushBack member)
    if (q.root slot).prev.isNone then q'.setAvailable slot true else q'

/-- `KPriorityQueueImpl::PushFront`. -/
def implPushFront (q : KPriorityQueue ι) (slot : Slot) (member : ι) : KPriorityQueue ι :=
  if slot.priority > LowestPriority then q
  else
    let q' := q.setLinks slot ((q.links slot).pushFront member)
    if (q.root slot).next.isNone then q'.setAvailable slot true else q'

/-- `KPriorityQueueImpl::Remove`. -/
def implRemove (q : KPriorityQueue ι) (slot : Slot) (member : ι) : KPriorityQueue ι :=
  if slot.priority > LowestPriority then q
  else
    let q' := q.setLinks slot ((q.links slot).remove member)
    if (q'.root slot).next.isNone then q'.setAvailable slot false else q'

/-- `KPriorityQueueImpl::MoveToFront`. -/
def implMoveToFront (q : KPriorityQueue ι) (slot : Slot) (member : ι) : KPriorityQueue ι :=
  if slot.priority ≤ LowestPriority then
    q.setLinks slot (((q.links slot).remove member).pushFront member)
  else q

/-- `KPriorityQueueImpl::MoveToBack`. -/
def implMoveToBack (q : KPriorityQueue ι) (slot : Slot) (member : ι) : Option ι × KPriorityQueue ι :=
  if slot.priority ≤ LowestPriority then
    let q' := q.setLinks slot (((q.links slot).remove member).pushBack member)
    ((q'.root slot).next, q')
  else (none, q)

end Mutators

/-- `KPriorityQueueImpl::GetFront` of a core: the front of the first available priority. -/
def getFront (q : KPriorityQueue ι) (kind : QueueKind) (core : ℕ) : Option ι :=
  match (List.range NumPriority).find? fun p => q.available ⟨kind, p, core⟩ with
  | some p => (q.root ⟨kind, p, core⟩).next
  | none => none

/-- `KPriorityQueueImpl::GetNext`: the next member of the same list, else the front of the next
available priority. -/
def getNext (q : KPriorityQueue ι) (thread : ι → KThreadInfo) (kind : QueueKind) (core : ℕ) (member : ι) : Option ι :=
  match (q.entries core member).next with
  | some next => some next
  | none =>
      let above := (thread member).priority + 1
      match (List.range' above (NumPriority - above)).find? fun p => q.available ⟨kind, p, core⟩ with
      | some p => (q.root ⟨kind, p, core⟩).next
      | none => none

/-! ## The queue itself -/

section Queue

variable [DecidableEq ι]

/-- "Suggest the thread for all other cores". -/
def suggestAll (q : KPriorityQueue ι) (priority : ℕ) (cores : List ℕ) (member : ι) : KPriorityQueue ι :=
  cores.foldl (fun q core => q.implPushBack ⟨.suggested, priority, core⟩ member) q

/-- "Remove from the suggested queue for all other cores". -/
def unsuggestAll (q : KPriorityQueue ι) (priority : ℕ) (cores : List ℕ) (member : ι) : KPriorityQueue ι :=
  cores.foldl (fun q core => q.implRemove ⟨.suggested, priority, core⟩ member) q

def pushBackAt (q : KPriorityQueue ι) (thread : ι → KThreadInfo) (priority : ℕ) (member : ι) : KPriorityQueue ι :=
  let affinity := affinityCores (thread member).affinityMask
  match (thread member).activeCore with
  | some core =>
      (q.implPushBack ⟨.scheduled, priority, core⟩ member).suggestAll priority (affinity.filter (· ≠ core)) member
  | none => q.suggestAll priority affinity member

/-- `PushFront(priority, member)`: the front of the scheduled queue, the back of the suggested
ones. -/
def pushFrontAt (q : KPriorityQueue ι) (thread : ι → KThreadInfo) (priority : ℕ) (member : ι) : KPriorityQueue ι :=
  let affinity := affinityCores (thread member).affinityMask
  match (thread member).activeCore with
  | some core =>
      (q.implPushFront ⟨.scheduled, priority, core⟩ member).suggestAll priority (affinity.filter (· ≠ core)) member
  | none => q.suggestAll priority affinity member

def removeAt (q : KPriorityQueue ι) (thread : ι → KThreadInfo) (priority : ℕ) (member : ι) : KPriorityQueue ι :=
  let affinity := affinityCores (thread member).affinityMask
  match (thread member).activeCore with
  | some core =>
      (q.implRemove ⟨.scheduled, priority, core⟩ member).unsuggestAll priority (affinity.filter (· ≠ core)) member
  | none => q.unsuggestAll priority affinity member

def pushBack (q : KPriorityQueue ι) (thread : ι → KThreadInfo) (member : ι) : KPriorityQueue ι :=
  if (thread member).isDummyThread then q
  else q.pushBackAt thread (thread member).priority member

def remove (q : KPriorityQueue ι) (thread : ι → KThreadInfo) (member : ι) : KPriorityQueue ι :=
  if (thread member).isDummyThread then q
  else q.removeAt thread (thread member).priority member

/-- `MoveToScheduledFront`; without a valid active core an assertion of the implementation fails. -/
def moveToScheduledFront (q : KPriorityQueue ι) (thread : ι → KThreadInfo) (member : ι) : Option (KPriorityQueue ι) :=
  if (thread member).isDummyThread then some q
  else
    match (thread member).activeCore with
    | some core => some (q.implMoveToFront ⟨.scheduled, (thread member).priority, core⟩ member)
    | none => none

def moveToScheduledBack (q : KPriorityQueue ι) (thread : ι → KThreadInfo) (member : ι) :
    Option (Option ι × KPriorityQueue ι) :=
  if (thread member).isDummyThread then some (none, q)
  else
    match (thread member).activeCore with
    | some core => some (q.implMoveToBack ⟨.scheduled, (thread member).priority, core⟩ member)
    | none => none

/-- `ChangePriority`; `thread` has the new priority. -/
def changePriority (q : KPriorityQueue ι) (thread : ι → KThreadInfo) (prevPriority : ℕ)
    (isRunning : Bool) (member : ι) : KPriorityQueue ι :=
  if (thread member).isDummyThread then q
  else
    let q := q.removeAt thread prevPriority member
    if isRunning then q.pushFrontAt thread (thread member).priority member
    else q.pushBackAt thread (thread member).priority member

/-- The kind of queue a thread with active core `active` is in on `core`. -/
def kindOn (active : Option ℕ) (core : ℕ) : QueueKind :=
  if some core = active then .scheduled else .suggested

/-- `ChangeAffinityMask`; `thread` has the new core and mask. -/
def changeAffinityMask (q : KPriorityQueue ι) (thread : ι → KThreadInfo) (prevCore : Option ℕ)
    (prevAffinity : BitVec 64) (member : ι) : KPriorityQueue ι :=
  if (thread member).isDummyThread then q
  else
    let priority := (thread member).priority
    let removed := (List.range NumCores).foldl (fun q core =>
      if prevAffinity.getLsbD core then
        q.implRemove ⟨kindOn prevCore core, priority, core⟩ member
      else q) q
    (List.range NumCores).foldl (fun q core =>
      if (thread member).affinityMask.getLsbD core then
        q.implPushBack ⟨kindOn (thread member).activeCore core, priority, core⟩ member
      else q) removed

/-- `ChangeCore`; `thread` has the new core. -/
def changeCore (q : KPriorityQueue ι) (thread : ι → KThreadInfo) (prevCore : Option ℕ)
    (member : ι) (toFront : Bool) : KPriorityQueue ι :=
  if (thread member).isDummyThread then q
  else
    let newCore := (thread member).activeCore
    let priority := (thread member).priority
    if prevCore ≠ newCore then
      let q :=
        match prevCore with
        | some prev => q.implRemove ⟨.scheduled, priority, prev⟩ member
        | none => q
      let q :=
        match newCore with
        | some new =>
            let q := q.implRemove ⟨.suggested, priority, new⟩ member
            if toFront then q.implPushFront ⟨.scheduled, priority, new⟩ member
            else q.implPushBack ⟨.scheduled, priority, new⟩ member
        | none => q
      match prevCore with
      | some prev => q.implPushBack ⟨.suggested, priority, prev⟩ member
      | none => q
    else q

end Queue

end KPriorityQueue

end Voltemu.Kernel
