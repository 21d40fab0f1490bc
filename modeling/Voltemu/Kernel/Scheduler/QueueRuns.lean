import Voltemu.Kernel.Scheduler.QueueLists
import Voltemu.Lib.Linked

/-!
# Runs of the priority queue

A run starts with an empty queue and calls the operations of `KPriorityQueue` as the kernel does: a
thread's own fields change together with the call that tells the queue about it, and the previous
values handed to a `Change` operation are those the thread was queued with.

* `QueueState.Consistent` — every queued thread is in its lists and nowhere else;
* `reachable_consistent` — every run keeps the queue consistent;
* `Lists.chain_enumerate` — `GetFront` and `GetNext` walk through the lists of a core level by
  level.
-/

namespace Voltemu.Kernel

open DList Function List

namespace KPriorityQueue

variable {ι : Type*} {q : KPriorityQueue ι} {L : Slot → List ι} {thread : ι → KThreadInfo}
  {kind : QueueKind} {core : ℕ}

/-! ## `GetFront` and `GetNext` -/

/-- The front of the first non-empty level of `levels`. -/
def frontOf (q : KPriorityQueue ι) (kind : QueueKind) (core : ℕ) (levels : List ℕ) : Option ι :=
  match levels.find? fun p => q.available ⟨kind, p, core⟩ with
  | some p => (q.root ⟨kind, p, core⟩).next
  | none => none

lemma getFront_eq : q.getFront kind core = q.frontOf kind core (range NumPriority) := rfl

lemma getNext_eq (x : ι) : q.getNext thread kind core x =
    (q.entries core x).next.or (q.frontOf kind core
      (range' ((thread x).priority + 1) (NumPriority - ((thread x).priority + 1)))) := by
  rw [getNext]
  cases (q.entries core x).next with
  | none => rfl
  | some next => rfl

def enumerate (L : Slot → List ι) (kind : QueueKind) (core : ℕ) : List ι :=
  (range NumPriority).flatMap fun p => L ⟨kind, p, core⟩

section Enumerate

variable (hL : q.Lists L) (hprio : ∀ slot, ∀ x ∈ L slot, (thread x).priority = slot.priority)
include hL hprio

private lemma chain_levels (n a : ℕ) (ha : a + n = NumPriority) :
    Linked.Chain (q.getNext thread kind core) (q.frontOf kind core (range' a n))
      ((range' a n).flatMap fun p => L ⟨kind, p, core⟩) := by
  induction n generalizing a with
  | zero => simp [frontOf]
  | succ n ih =>
    have hrest := ih (a + 1) (by omega)
    -- the walk through the list of level `a`, from any of its members
    have hlevel : ∀ l₂ l₁, L ⟨kind, a, core⟩ = l₁ ++ l₂ →
        Linked.Chain (q.getNext thread kind core) (l₂.head?.or (q.frontOf kind core (range' (a + 1) n)))
          (l₂ ++ (range' (a + 1) n).flatMap fun p => L ⟨kind, p, core⟩) := by
      intro l₂
      induction l₂ with
      | nil =>
        intro l₁ _
        simpa using hrest
      | cons x l₂ ihl =>
        intro l₁ hl
        have hlist := hL.isList ⟨kind, a, core⟩
        rw [hl] at hlist
        have hx : (thread x).priority = a := hprio ⟨kind, a, core⟩ x (by simp [hl])
        have hn : NumPriority - (a + 1) = n := by omega
        have hnext : (q.entries core x).next = l₂.head? := hlist.next_eq
        rw [cons_append, Linked.chain_cons, getNext_eq, hx, hn, hnext]
        exact ⟨rfl, ihl (l₁ ++ [x]) (by simp [hl])⟩
    have hwhole := hlevel (L ⟨kind, a, core⟩) [] (by simp)
    have hroot : (q.root ⟨kind, a, core⟩).next = (L ⟨kind, a, core⟩).head? :=
      (hL.isList ⟨kind, a, core⟩).head
    rw [range'_succ, flatMap_cons]
    convert hwhole using 1
    rw [frontOf, find?_cons]
    cases hav : q.available ⟨kind, a, core⟩ with
    | true =>
      have hne := (hL.available ⟨kind, a, core⟩).1 hav
      obtain ⟨x, l, hx⟩ := exists_cons_of_ne_nil hne
      simp [hroot, hx]
    | false =>
      have hnil : L ⟨kind, a, core⟩ = [] := by
        by_contra hne
        rw [(hL.available ⟨kind, a, core⟩).2 hne] at hav
        exact absurd hav (by simp)
      simp [hnil, frontOf]

/-- **`GetFront` and `GetNext` walk through the lists of a core, level by level.** -/
theorem Lists.chain_enumerate :
    Linked.Chain (q.getNext thread kind core) (q.getFront kind core) (enumerate L kind core) := by
  rw [getFront_eq, enumerate, range_eq_range']
  exact chain_levels hL hprio NumPriority 0 (by simp)

omit hL in
lemma enumerate_sorted : (enumerate L kind core).Pairwise fun x y => (thread x).priority ≤ (thread y).priority := by
  rw [enumerate, pairwise_flatMap]
  refine ⟨?_, ?_⟩
  · intro p _
    refine pairwise_iff_forall_sublist.2 ?_
    intro x y hsub
    have hx := hprio ⟨kind, p, core⟩ x (hsub.subset (by simp))
    have hy := hprio ⟨kind, p, core⟩ y (hsub.subset (by simp))
    rw [hx, hy]
  · refine pairwise_lt_range.imp ?_
    intro p p' hlt x hx y hy
    rw [hprio ⟨kind, p, core⟩ x hx, hprio ⟨kind, p', core⟩ y hy]
    exact hlt.le

omit hprio in
lemma enumerate_nodup : (enumerate L kind core).Nodup := by
  rw [enumerate, nodup_flatMap]
  refine ⟨fun p _ => (hL.isList ⟨kind, p, core⟩).nodup, ?_⟩
  refine pairwise_lt_range.imp ?_
  intro p p' hlt x hx hx'
  have heq := hL.disjoint ⟨kind, p, core⟩ ⟨kind, p', core⟩ x rfl hx hx'
  simp only [Slot.mk.injEq, true_and, and_true] at heq
  omega

end Enumerate

end KPriorityQueue

open KPriorityQueue

/-- A queue, the fields of the threads, and which of them are queued. -/
structure QueueState (ι : Type*) where
  queue : KPriorityQueue ι
  thread : ι → KThreadInfo
  queued : ι → Bool

/-- The operations of a run.  The first one is no call: a thread outside the queue may get any
fields.  The `Change` operations carry the new values. -/
inductive QueueOp (ι : Type*)
  | assign (member : ι) (info : KThreadInfo)
  | pushBack (member : ι)
  | remove (member : ι)
  | moveToScheduledFront (member : ι)
  | moveToScheduledBack (member : ι)
  | changePriority (member : ι) (priority : ℕ) (isRunning : Bool)
  | changeAffinityMask (member : ι) (core : Option ℕ) (mask : BitVec 64)
  | changeCore (member : ι) (core : Option ℕ) (toFront : Bool)

namespace QueueState

variable {ι : Type*} [DecidableEq ι]

def start (thread : ι → KThreadInfo) : QueueState ι where
  queue := KPriorityQueue.empty
  thread := thread
  queued := fun _ => false

/-- The fields of a thread and the queue change together. -/
def assign (s : QueueState ι) (member : ι) (info : KThreadInfo) (queue : KPriorityQueue ι) : QueueState ι :=
  { s with queue := queue, thread := update s.thread member info }

/-- One operation; an assertion that fails ends the run. -/
def exec (s : QueueState ι) : QueueOp ι → Option (QueueState ι)
  | .assign m info => some (s.assign m info s.queue)
  | .pushBack m => some
      { s with
        queue := s.queue.pushBack s.thread m
        queued := update s.queued m true }
  | .remove m => some
      { s with
        queue := s.queue.remove s.thread m
        queued := update s.queued m false }
  | .moveToScheduledFront m =>
      (s.queue.moveToScheduledFront s.thread m).map fun q => { s with queue := q }
  | .moveToScheduledBack m =>
      (s.queue.moveToScheduledBack s.thread m).map fun r => { s with queue := r.2 }
  | .changePriority m priority isRunning =>
      let info := { s.thread m with priority := priority }
      some (s.assign m info (s.queue.changePriority (update s.thread m info) (s.thread m).priority isRunning m))
  | .changeAffinityMask m core mask =>
      let info := { s.thread m with activeCore := core, affinityMask := mask }
      some (s.assign m info (s.queue.changeAffinityMask (update s.thread m info)
        (s.thread m).activeCore (s.thread m).affinityMask m))
  | .changeCore m core toFront =>
      let info := { s.thread m with activeCore := core }
      some (s.assign m info (s.queue.changeCore (update s.thread m info) (s.thread m).activeCore m toFront))

/-- A thread is pushed once before it is removed, only queued threads are moved or changed, and the
fields of a thread are valid. -/
def Admissible (s : QueueState ι) : QueueOp ι → Prop
  | .assign m info => s.queued m = false ∧ info.Valid
  | .pushBack m => s.queued m = false
  | .remove m | .moveToScheduledFront m | .moveToScheduledBack m => s.queued m = true
  | .changePriority m priority _ =>
      s.queued m = true ∧ { s.thread m with priority := priority }.Valid
  | .changeAffinityMask m core mask =>
      s.queued m = true ∧ { s.thread m with activeCore := core, affinityMask := mask }.Valid
  | .changeCore m core _ => s.queued m = true ∧ { s.thread m with activeCore := core }.Valid

def Step (s s' : QueueState ι) : Prop := ∃ op, s.Admissible op ∧ s.exec op = some s'

/-- The lists a queued thread belongs into; a dummy thread belongs into none. -/
def placed (a : KThreadInfo) : Set Slot :=
  {slot | a.isDummyThread = false ∧ slot ∈ slotsAt a a.priority}

/-- The lists every thread belongs into. -/
def slots (s : QueueState ι) (x : ι) : Set Slot :=
  {slot | s.queued x = true ∧ slot ∈ placed (s.thread x)}

/-- Every queued thread is in its lists and nowhere else. -/
structure Consistent (s : QueueState ι) : Prop where
  valid : ∀ x, (s.thread x).Valid
  rep : s.queue.Rep s.slots

variable {s : QueueState ι} {m : ι}

omit [DecidableEq ι] in
lemma slots_of_queued (h : s.queued m = true) : s.slots m = placed (s.thread m) := by
  ext slot
  simp [slots, h]

omit [DecidableEq ι] in
lemma slots_of_not_queued (h : s.queued m = false) : s.slots m = ∅ := by
  ext slot
  simp [slots, h]

omit [DecidableEq ι] in
lemma placed_of_dummy {a : KThreadInfo} (h : a.isDummyThread = true) : placed a = ∅ := by
  ext slot
  simp [placed, h]

omit [DecidableEq ι] in
lemma placed_of_not_dummy {a : KThreadInfo} (h : a.isDummyThread = false) : placed a = slotsAt a a.priority := by
  ext slot
  simp [placed, h]

/-- A change to the fields of one thread changes the lists of that thread only. -/
lemma slots_assign (s : QueueState ι) (m : ι) (info : KThreadInfo) (q : KPriorityQueue ι) :
    (s.assign m info q).slots = update s.slots m {slot | s.queued m = true ∧ slot ∈ placed info} := by
  funext x
  by_cases hx : x = m
  · subst hx
    simp [slots, assign]
  · simp [slots, assign, hx]

lemma slots_setQueued (s : QueueState ι) (m : ι) (b : Bool) (q : KPriorityQueue ι) :
    ({ s with queue := q, queued := update s.queued m b } : QueueState ι).slots =
      update s.slots m {slot | b = true ∧ slot ∈ placed (s.thread m)} := by
  funext x
  by_cases hx : x = m
  · subst hx
    simp [slots]
  · simp [slots, hx]

/-! ## Every operation keeps the queue consistent -/

section Step

variable {info : KThreadInfo}

lemma Consistent.valid_assign (hs : s.Consistent) (hinfo : info.Valid)
    (q : KPriorityQueue ι) (x : ι) : ((s.assign m info q).thread x).Valid := by
  simp only [assign, update_apply]
  split_ifs
  · exact hinfo
  · exact hs.valid x

/-- The lists of the thread an operation is about, as the argument of its specification. -/
lemma Consistent.rep_at (hs : s.Consistent) {S : Set Slot} (hS : s.slots m = S) : s.queue.Rep (update s.slots m S) := by
  rw [← hS, update_eq_self]
  exact hs.rep

lemma Consistent.change (hs : s.Consistent) (hqueued : s.queued m = true)
    (hinfo : info.Valid) (hkind : info.isDummyThread = (s.thread m).isDummyThread)
    {q : KPriorityQueue ι} (hdummy : info.isDummyThread = true → q = s.queue)
    (hchange : info.isDummyThread = false → ∀ slots : ι → Set Slot,
      s.queue.Rep (update slots m (slotsAt (s.thread m) (s.thread m).priority)) →
      q.Rep (update slots m (slotsAt info info.priority))) :
    (s.assign m info q).Consistent := by
  refine ⟨hs.valid_assign hinfo q, ?_⟩
  have hset : {slot | s.queued m = true ∧ slot ∈ placed info} = placed info := by
    ext slot
    simp [hqueued]
  rw [slots_assign, hset]
  have hold := slots_of_queued hqueued
  show q.Rep _
  cases hd : info.isDummyThread with
  | true =>
    rw [hdummy hd, placed_of_dummy hd]
    rw [placed_of_dummy (hkind.symm.trans hd)] at hold
    exact hs.rep_at hold
  | false =>
    rw [placed_of_not_dummy hd]
    rw [placed_of_not_dummy (hkind.symm.trans hd)] at hold
    exact hchange hd s.slots (hs.rep_at hold)

omit [DecidableEq ι] in
/-- What the two moves have in common. -/
private lemma Consistent.slot_mem (hqueued : s.queued m = true) (hdummy : (s.thread m).isDummyThread = false) {core : ℕ}
    (hcore : (s.thread m).activeCore = some core)
    (hprio : (s.thread m).priority ≤ LowestPriority) :
    ⟨.scheduled, (s.thread m).priority, core⟩ ∈ s.slots m := by
  rw [slots_of_queued hqueued, placed_of_not_dummy hdummy]
  exact ⟨rfl, hprio, hcore⟩

/-- **One operation keeps the queue consistent.** -/
theorem Consistent.exec (hs : s.Consistent) {op : QueueOp ι} (hop : s.Admissible op)
    {s' : QueueState ι} (h : s.exec op = some s') : s'.Consistent := by
  cases op with
  | assign m info =>
    obtain ⟨hqueued, hinfo⟩ := hop
    obtain rfl := Option.some.inj h
    refine ⟨hs.valid_assign hinfo _, ?_⟩
    rw [slots_assign]
    refine hs.rep_at ?_
    rw [slots_of_not_queued hqueued]
    ext slot
    simp [hqueued]
  | pushBack m =>
    obtain rfl := Option.some.inj h
    refine ⟨hs.valid, ?_⟩
    rw [slots_setQueued]
    have hold := hs.rep_at (slots_of_not_queued hop)
    simp only [true_and]
    show (s.queue.pushBack s.thread m).Rep (update s.slots m (placed (s.thread m)))
    rw [KPriorityQueue.pushBack]
    split_ifs with hd
    · rwa [placed_of_dummy hd]
    · rw [placed_of_not_dummy (by simpa using hd)]
      exact rep_pushBackAt hold
  | remove m =>
    obtain rfl := Option.some.inj h
    refine ⟨hs.valid, ?_⟩
    rw [slots_setQueued]
    have hset : {slot | false = true ∧ slot ∈ placed (s.thread m)} = ∅ := by simp
    rw [hset]
    have hold := hs.rep_at (slots_of_queued hop)
    show (s.queue.remove s.thread m).Rep (update s.slots m ∅)
    rw [KPriorityQueue.remove]
    split_ifs with hd
    · rwa [placed_of_dummy hd] at hold
    · rw [placed_of_not_dummy (by simpa using hd)] at hold
      exact rep_removeAt hold
  | moveToScheduledFront m =>
    obtain ⟨q, hq, rfl⟩ := Option.map_eq_some_iff.1 h
    refine ⟨hs.valid, ?_⟩
    rw [KPriorityQueue.moveToScheduledFront] at hq
    split_ifs at hq with hd
    · obtain rfl := Option.some.inj hq
      exact hs.rep
    · cases hcore : (s.thread m).activeCore with
      | none => simp [hcore] at hq
      | some core =>
        rw [hcore] at hq
        obtain rfl := Option.some.inj hq
        exact rep_implMoveToFront hs.rep (Consistent.slot_mem hop (by simpa using hd) hcore)
  | moveToScheduledBack m =>
    obtain ⟨r, hr, rfl⟩ := Option.map_eq_some_iff.1 h
    refine ⟨hs.valid, ?_⟩
    rw [KPriorityQueue.moveToScheduledBack] at hr
    split_ifs at hr with hd
    · obtain rfl := Option.some.inj hr
      exact hs.rep
    · cases hcore : (s.thread m).activeCore with
      | none => simp [hcore] at hr
      | some core =>
        rw [hcore] at hr
        obtain rfl := Option.some.inj hr
        exact rep_implMoveToBack hs.rep (Consistent.slot_mem hop (by simpa using hd) hcore)
  | changePriority m priority isRunning =>
    obtain rfl := Option.some.inj h
    refine hs.change hop.1 hop.2 rfl ?_ ?_
    · intro hd
      simp [KPriorityQueue.changePriority, hd]
    · intro hd slots hrep
      exact rep_changePriority isRunning (update_self ..) hd hrep
  | changeAffinityMask m core mask =>
    obtain rfl := Option.some.inj h
    refine hs.change hop.1 hop.2 rfl ?_ ?_
    · intro hd
      simp [KPriorityQueue.changeAffinityMask, hd]
    · intro hd slots hrep
      exact rep_changeAffinityMask (update_self ..) hd hop.2 (hs.valid m) hrep
  | changeCore m core toFront =>
    obtain rfl := Option.some.inj h
    refine hs.change hop.1 hop.2 rfl ?_ ?_
    · intro hd
      simp [KPriorityQueue.changeCore, hd]
    · intro hd slots hrep
      exact rep_changeCore toFront (update_self ..) hd hop.2 (hs.valid m) rfl hrep

end Step

omit [DecidableEq ι] in
lemma consistent_start {thread : ι → KThreadInfo} (hvalid : ∀ x, (thread x).Valid) : (start thread).Consistent := by
  refine ⟨hvalid, ?_⟩
  have hslots : (start thread).slots = fun _ => ∅ := by
    funext x
    exact slots_of_not_queued rfl
  rw [hslots]
  exact rep_empty

lemma reachable_consistent {s' : QueueState ι} (hs : s.Consistent)
    (hrun : Relation.ReflTransGen Step s s') : s'.Consistent := by
  induction hrun with
  | refl => exact hs
  | tail _ hstep ih =>
    obtain ⟨op, hop, hexec⟩ := hstep
    exact ih.exec hop hexec

omit [DecidableEq ι] in
/-- The threads of a core, as `GetFront` and `GetNext` walk through them. -/
structure Enumerates (s : QueueState ι) (kind : QueueKind) (core : ℕ) (l : List ι) : Prop where
  chain : Linked.Chain (s.queue.getNext s.thread kind core) (s.queue.getFront kind core) l
  nodup : l.Nodup
  sorted : l.Pairwise fun x y => (s.thread x).priority ≤ (s.thread y).priority
  mem_iff : ∀ x, x ∈ l ↔ s.queued x = true ∧ ⟨kind, (s.thread x).priority, core⟩ ∈ placed (s.thread x)

omit [DecidableEq ι] in
lemma Consistent.exists_lists (hs : s.Consistent) :
    ∃ L, s.queue.Lists L ∧ (∀ x slot, x ∈ L slot ↔ s.queued x = true ∧ slot ∈ placed (s.thread x)) ∧
      ∀ kind core, s.Enumerates kind core (enumerate L kind core) := by
  obtain ⟨-, L, hLists, hL⟩ := hs
  have hprio : ∀ slot, ∀ x ∈ L slot, (s.thread x).priority = slot.priority := by
    intro slot x hx
    exact ((hL x slot).1 hx).2.2.1.symm
  refine ⟨L, hLists, hL, ?_⟩
  intro kind core
  refine ⟨hLists.chain_enumerate hprio, enumerate_nodup hLists, enumerate_sorted hprio, ?_⟩
  intro x
  simp only [enumerate, mem_flatMap, mem_range]
  constructor
  · rintro ⟨p, -, hx⟩
    obtain rfl := hprio ⟨kind, p, core⟩ x hx
    exact (hL x _).1 hx
  · rintro ⟨hqueued, hslot⟩
    refine ⟨(s.thread x).priority, ?_, (hL x _).2 ⟨hqueued, hslot⟩⟩
    exact Nat.lt_succ_of_le hslot.2.2.1

/-- A thread on core 0 that may also run on core 2. -/
def threadOnTwoCores : KThreadInfo := ⟨44, some 0, 0b101, false⟩

lemma threadOnTwoCores_valid : threadOnTwoCores.Valid := by
  refine ⟨?_, ?_, by decide⟩
  · intro core hbit
    have hall : ∀ c < 64, threadOnTwoCores.affinityMask.getLsbD c = true → c < NumCores := by
      decide
    exact hall core (BitVec.lt_of_getLsbD hbit) hbit
  · intro core hcore
    obtain rfl : 0 = core := Option.some.inj hcore
    decide

end QueueState

end Voltemu.Kernel
