import Voltemu.Kernel.Scheduler.QueueRuns

/-!
# `KScheduler::UpdateHighestPriorityThreadsImpl`

For every core the scheduler takes the front of the scheduled queue, or a thread pinned to the core
in its place.  Then every core without a thread tries, in turn, to take a thread from another core:
first one that is suggested for it and does not run where it is, else the top thread of a core that
has another one to run.

* The threads and the queue are a `QueueState`; its `queued` is read by no function here.
* `none` stands for an assertion that fails, or for a null pointer that is followed.
* The counters of `UpdateHighestPriorityThread` (scheduled counts, idle count, last tick) decide
  nothing and are left out, as are the dummy threads' wake-ups at the end.
-/

namespace Voltemu.Kernel

open KPriorityQueue Function

def HighestCoreMigrationAllowedPriority : ℕ := 2

/-- What the scheduler reads of the threads and the processes besides the fields of the queue. -/
structure ThreadTable (ι π : Type*) where
  ownerProcess : ι → Option π
  pinnedThread : π → ℕ → Option ι
  numKernelWaiters : ι → ℕ
  isRunnable : ι → Bool

/-- The queue and the schedulers of the cores. -/
structure KScheduler (ι : Type*) where
  queueState : QueueState ι
  highestPriorityThread : ℕ → Option ι
  needsScheduling : ℕ → Bool

/-- The local variables of `UpdateHighestPriorityThreadsImpl`, with the schedulers. -/
structure CoreSelection (ι : Type*) where
  sched : KScheduler ι
  coresNeedingScheduling : BitVec 64
  idleCores : BitVec 64
  topThreads : ℕ → Option ι

/-- How the loop over the threads suggested for a core ends. -/
inductive ScanResult (ι : Type*)
  | tooHigh
  | migrate (suggested : ι)
  | exhausted (candidates : List ℕ)

namespace KScheduler

variable {ι π : Type*} [DecidableEq ι]

def updateHighestPriorityThread (k : KScheduler ι) (core : ℕ) (highestThread : Option ι) : BitVec 64 × KScheduler ι :=
  if k.highestPriorityThread core ≠ highestThread then
    (1#64 <<< core,
      { k with
        highestPriorityThread := update k.highestPriorityThread core highestThread
        needsScheduling := update k.needsScheduling core true })
  else (0#64, k)

/-- "Check that there's a pinned thread other than the current top thread." -/
def preferPinned (table : ThreadTable ι π) (core : ℕ) (top : ι) : Option ι :=
  match table.ownerProcess top with
  | none => some top
  | some parent =>
      match table.pinnedThread parent core with
      | none => some top
      | some pinned =>
          if pinned ≠ top then
            if table.numKernelWaiters top = 0 then
              if table.isRunnable pinned then some pinned else none
            else some top
          else some top

/-- `SetActiveCore` and `ChangeCore`. -/
def migrate (q : QueueState ι) (m : ι) (core : ℕ) : QueueState ι :=
  let info := { q.thread m with activeCore := some core }
  q.assign m info (q.queue.changeCore (update q.thread m info) (q.thread m).activeCore m false)

end KScheduler

namespace CoreSelection

open KScheduler

variable {ι π : Type*} [DecidableEq ι]

/-- `top_threads[core] = thread`, and the scheduler of the core is told. -/
def setTop (c : CoreSelection ι) (core : ℕ) (thread : Option ι) : CoreSelection ι :=
  let r := c.sched.updateHighestPriorityThread core thread
  { c with
    sched := r.2
    coresNeedingScheduling := c.coresNeedingScheduling ||| r.1
    topThreads := update c.topThreads core thread }

def setQueueState (c : CoreSelection ι) (q : QueueState ι) : CoreSelection ι :=
  { c with sched := { c.sched with queueState := q } }

/-- The body of the first loop: the highest priority thread of a core. -/
def findTop (table : ThreadTable ι π) (c : CoreSelection ι) (core : ℕ) : CoreSelection ι :=
  match c.sched.queueState.queue.getFront .scheduled core with
  | some top => c.setTop core (preferPinned table core top)
  | none => { c with idleCores := c.idleCores ||| 1#64 <<< core }.setTop core none

/-- "While we have a suggested thread, try to migrate it!"  There is room for `room` more
candidates. -/
def scanSuggested (c : CoreSelection ι) (core : ℕ) :
    (room : ℕ) → (candidates : List ℕ) → (suggested : ι) → Option (ScanResult ι)
  | room, candidates, suggested =>
      let q := c.sched.queueState
      match (q.thread suggested).activeCore with
      | none => some (.migrate suggested)
      | some suggestedCore =>
          if c.topThreads suggestedCore ≠ some suggested then
            match c.topThreads suggestedCore with
            | some top =>
                if (q.thread top).priority < HighestCoreMigrationAllowedPriority then some .tooHigh
                else some (.migrate suggested)
            | none => some (.migrate suggested)
          else
            -- `ASSERT(num_candidates < NUM_CPU_CORES)`
            match room with
            | 0 => none
            | room + 1 =>
                match q.queue.getNext q.thread .suggested core suggested with
                | some next => scanSuggested c core room (candidates ++ [suggestedCore]) next
                | none => some (.exhausted (candidates ++ [suggestedCore]))

/-- "So let's try all our candidate cores' top threads." -/
def tryCandidates (c : CoreSelection ι) (core : ℕ) : List ℕ → Option (CoreSelection ι)
  | [] => some c
  | candidateCore :: rest =>
      match c.topThreads candidateCore with
      | none => none
      | some suggested =>
          let q := c.sched.queueState
          match q.queue.getNext q.thread .scheduled candidateCore suggested with
          | some next =>
              let c := c.setTop candidateCore (some next)
              let c := c.setQueueState (migrate c.sched.queueState suggested core)
              some (c.setTop core (some suggested))
          | none => tryCandidates c core rest

/-- The body of the second loop: a thread for an idle core. -/
def fillIdle (c : CoreSelection ι) (core : ℕ) : Option (CoreSelection ι) :=
  match c.sched.queueState.queue.getFront .suggested core with
  | none => some c
  | some suggested =>
      match c.scanSuggested core NumCores [] suggested with
      | none => none
      | some .tooHigh => some c
      | some (.migrate suggested) =>
          some ((c.setQueueState (migrate c.sched.queueState suggested core)).setTop core (some suggested))
      | some (.exhausted candidates) => c.tryCandidates core candidates

end CoreSelection

open CoreSelection in
/-- `UpdateHighestPriorityThreadsImpl`: the cores that need scheduling, and the new state. -/
def KScheduler.updateHighestPriorityThreadsImpl {ι π : Type*} [DecidableEq ι]
    (table : ThreadTable ι π) (k : KScheduler ι) : Option (BitVec 64 × KScheduler ι) :=
  let start : CoreSelection ι := ⟨k, 0#64, 0#64, fun _ => none⟩
  let tops := (List.range NumCores).foldl (findTop table) start
  ((affinityCores tops.idleCores).foldlM fillIdle tops).map fun c =>
    (c.coresNeedingScheduling, c.sched)

end Voltemu.Kernel
