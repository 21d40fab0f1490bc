import Voltemu.Kernel.Scheduler.KScheduler

/-!
# Core selection keeps threads and cores consistent

The invariant of both loops is `CoreSelection.Sound`: the queue is consistent, the schedulers know
the chosen top threads, a top thread is active on its core, and every core whose thread has changed
is in the mask of cores that need scheduling.

* `sound_findTops` — after the first loop the invariant holds for every core;
* `Sound.scanSuggested` — the candidates are different cores, so there is always room for them;
* `Sound.fillIdle` — a migration to an idle core keeps the invariant;
* `updateHighestPriorityThreads_sound` — the whole function.
-/

namespace Voltemu.Kernel

open KPriorityQueue Function List

namespace QueueState

variable {ι : Type*} {q : QueueState ι}

/-- The threads scheduled or suggested for a core, in the order of the walk. -/
lemma Consistent.enumerates (hq : q.Consistent) (kind : QueueKind) (core : ℕ) : ∃ l, q.Enumerates kind core l := by
  obtain ⟨L, -, -, hwalk⟩ := hq.exists_lists
  exact ⟨_, hwalk kind core⟩

end QueueState

namespace CoreSelection

open KScheduler QueueState

variable {ι π : Type*} [DecidableEq ι] {k : KScheduler ι} {c : CoreSelection ι} {core n : ℕ}

/-- The invariant of the loops.  The first `n` schedulers know the top threads; `k` is the state at
the start. -/
structure Sound (k : KScheduler ι) (n : ℕ) (c : CoreSelection ι) : Prop where
  consistent : c.sched.queueState.Consistent
  queued : c.sched.queueState.queued = k.queueState.queued
  fields : ∀ x, ∃ active, c.sched.queueState.thread x = { k.queueState.thread x with activeCore := active }
  top_eq : ∀ i < n, c.sched.highestPriorityThread i = c.topThreads i
  active : ∀ i t, c.topThreads i = some t → (c.sched.queueState.thread t).activeCore = some i
  changed : ∀ i, c.sched.highestPriorityThread i ≠ k.highestPriorityThread i → c.coresNeedingScheduling.getLsbD i = true

/-! ## `top_threads[core] = thread` -/

@[simp] lemma setTop_queueState (core : ℕ) (t : Option ι) : (c.setTop core t).sched.queueState = c.sched.queueState := by
  simp only [setTop, updateHighestPriorityThread]
  split_ifs <;> rfl

@[simp] lemma setTop_topThreads (core : ℕ) (t : Option ι) :
    (c.setTop core t).topThreads = update c.topThreads core t := rfl

@[simp] lemma setTop_idleCores (core : ℕ) (t : Option ι) : (c.setTop core t).idleCores = c.idleCores := rfl

lemma setTop_highest (core : ℕ) (t : Option ι) : (c.setTop core t).sched.highestPriorityThread =
    update c.sched.highestPriorityThread core t := by
  simp only [setTop, updateHighestPriorityThread]
  split_ifs with hne
  · rfl
  · rw [← not_not.1 hne, update_eq_self]

lemma setTop_changed {i : ℕ} (t : Option ι) (hcore : core < 64)
    (h : (c.setTop core t).sched.highestPriorityThread i ≠ c.sched.highestPriorityThread i ∨
      c.coresNeedingScheduling.getLsbD i = true) :
    (c.setTop core t).coresNeedingScheduling.getLsbD i = true := by
  simp only [setTop, BitVec.getLsbD_or, Bool.or_eq_true]
  rcases h with h | h
  · right
    rw [setTop_highest] at h
    have hi : i = core := by
      by_contra hne
      rw [update_of_ne hne] at h
      exact h rfl
    subst hi
    rw [update_self] at h
    rw [updateHighestPriorityThread, if_pos (Ne.symm h)]
    simp [hcore]
  · exact Or.inl h

lemma Sound.setTop (hc : Sound k n c) {n' : ℕ} (hcore : core < 64) (t : Option ι) (hn : ∀ i < n', i ≠ core → i < n)
    (hactive : ∀ x, t = some x → (c.sched.queueState.thread x).activeCore = some core) :
    Sound k n' (c.setTop core t) := by
  refine ⟨by simpa using hc.consistent, by simpa using hc.queued, by simpa using hc.fields, ?_, ?_, ?_⟩
  · intro i hi
    rw [setTop_highest, setTop_topThreads]
    by_cases heq : i = core
    · rw [heq, update_self, update_self]
    · rw [update_of_ne heq, update_of_ne heq]
      exact hc.top_eq i (hn i hi heq)
  · intro i x hx
    rw [setTop_topThreads] at hx
    rw [setTop_queueState]
    by_cases heq : i = core
    · subst heq
      rw [update_self] at hx
      exact hactive x hx
    · rw [update_of_ne heq] at hx
      exact hc.active i x hx
  · intro i hi
    refine setTop_changed t hcore ?_
    by_cases hsame : (c.setTop core t).sched.highestPriorityThread i = c.sched.highestPriorityThread i
    · exact Or.inr (hc.changed i (hsame ▸ hi))
    · exact Or.inl hsame

/-! ## The first loop -/

/-- What `PinCurrentThread` sees to: a thread pinned to a core is active there, and its affinity
mask is that core. -/
def PinnedToCore (table : ThreadTable ι π) (q : QueueState ι) : Prop :=
  ∀ parent core t, table.pinnedThread parent core = some t →
    (q.thread t).activeCore = some core ∧ (q.thread t).affinityMask = 1#64 <<< core

omit [DecidableEq ι] in
lemma active_of_scheduled {q : QueueState ι} {l : List ι} (hl : q.Enumerates .scheduled core l)
    {x : ι} (hx : x ∈ l) : (q.thread x).activeCore = some core :=
  ((hl.mem_iff x).1 hx).2.2.2.2

variable {table : ThreadTable ι π}

lemma Sound.findTop (hpinned : PinnedToCore table c.sched.queueState)
    (hc : Sound k n c) (hn : n < 64) : Sound k (n + 1) (findTop table c n) := by
  have hless : ∀ i < n + 1, i ≠ n → i < n := fun i hi hne => by omega
  rw [CoreSelection.findTop]
  cases hfront : c.sched.queueState.queue.getFront .scheduled n with
  | none =>
    have hidle : Sound k n { c with idleCores := c.idleCores ||| 1#64 <<< n } :=
      ⟨hc.consistent, hc.queued, hc.fields, hc.top_eq, hc.active, hc.changed⟩
    exact hidle.setTop hn none hless (by simp)
  | some top =>
    refine hc.setTop hn _ hless ?_
    intro x hx
    obtain ⟨l, hl⟩ := hc.consistent.enumerates .scheduled n
    have htop : top ∈ l := mem_of_head? (hfront.symm.trans hl.chain.head_eq).symm
    have hactive := active_of_scheduled hl htop
    rw [preferPinned] at hx
    split at hx
    · exact Option.some.inj hx ▸ hactive
    · split at hx
      · exact Option.some.inj hx ▸ hactive
      · next pinned hp =>
          split_ifs at hx
          · exact Option.some.inj hx ▸ (hpinned _ _ _ hp).1
          · exact Option.some.inj hx ▸ hactive
          · exact Option.some.inj hx ▸ hactive

lemma findTop_queueState (table : ThreadTable ι π) (core : ℕ) :
    (CoreSelection.findTop table c core).sched.queueState = c.sched.queueState := by
  rw [CoreSelection.findTop]
  split <;> simp

lemma findTop_idleCores (table : ThreadTable ι π) {i : ℕ}
    (h : (CoreSelection.findTop table c core).idleCores.getLsbD i = true) :
    c.idleCores.getLsbD i = true ∨ i = core := by
  rw [CoreSelection.findTop] at h
  split at h
  · exact Or.inl h
  · simp only [setTop_idleCores, BitVec.getLsbD_or, Bool.or_eq_true, BitVec.getLsbD_shiftLeft,
      Bool.and_eq_true, decide_eq_true_eq, BitVec.getLsbD_one] at h
    rcases h with h | h
    · exact Or.inl h
    · right
      simp at h
      omega

def start (k : KScheduler ι) : CoreSelection ι := ⟨k, 0#64, 0#64, fun _ => none⟩

lemma sound_findTops (hk : k.queueState.Consistent) (hpinned : PinnedToCore table k.queueState) (hn : n ≤ 64) :
    Sound k n ((range n).foldl (CoreSelection.findTop table) (start k)) ∧
      ((range n).foldl (CoreSelection.findTop table) (start k)).sched.queueState = k.queueState ∧
      ∀ i, ((range n).foldl (CoreSelection.findTop table) (start k)).idleCores.getLsbD i = true → i < n := by
  induction n with
  | zero =>
    refine ⟨⟨hk, rfl, fun x => ⟨_, rfl⟩, ?_, ?_, ?_⟩, rfl, ?_⟩
    · intro i hi
      exact absurd hi (Nat.not_lt_zero i)
    · intro i t ht
      simp [start] at ht
    · intro i hi
      exact absurd rfl hi
    · intro i hi
      simp [start] at hi
  | succ n ih =>
    obtain ⟨hsound, hqueue, hidle⟩ := ih (by omega)
    rw [range_succ, foldl_append, foldl_cons, foldl_nil]
    refine ⟨hsound.findTop (hqueue ▸ hpinned) (by omega), ?_, ?_⟩
    · rw [findTop_queueState, hqueue]
    · intro i hi
      rcases findTop_idleCores table hi with hi | rfl
      · exact Nat.lt_succ_of_lt (hidle i hi)
      · exact Nat.lt_succ_self i

/-! ## The threads suggested for an idle core -/

section Suggested

variable {l : List ι}

omit [DecidableEq ι] in
lemma suggested_spec {q : QueueState ι} (hl : q.Enumerates .suggested core l) {x : ι} (hx : x ∈ l) :
    q.queued x = true ∧ (q.thread x).affinityMask.getLsbD core = true ∧ (q.thread x).activeCore ≠ some core := by
  obtain ⟨hqueued, -, -, -, hbit, hne⟩ := (hl.mem_iff x).1 hx
  exact ⟨hqueued, hbit, hne⟩

/-- What the loop over the suggested threads `l` promises. -/
def ScanOk (c : CoreSelection ι) (l : List ι) : ScanResult ι → Prop
  | .tooHigh => True
  | .migrate t => t ∈ l ∧ ∀ i, c.topThreads i ≠ some t
  | .exhausted candidates => ∀ i ∈ candidates, ∃ t ∈ l, c.topThreads i = some t

/-- The candidates so far: cores whose top threads the loop has passed over. -/
structure Candidates (c : CoreSelection ι) (core : ℕ) (passed : List ι) (candidates : List ℕ) :
    Prop where
  nodup : candidates.Nodup
  lt : ∀ i ∈ candidates, i < NumCores
  ne : ∀ i ∈ candidates, i ≠ core
  top : ∀ i ∈ candidates, ∃ t ∈ passed, c.topThreads i = some t

variable {passed : List ι} {candidates : List ℕ}

omit [DecidableEq ι] in
lemma Candidates.length_lt (h : Candidates c core passed candidates) (hcore : core < NumCores) :
    candidates.length < NumCores := by
  have hnodup : (core :: candidates).Nodup :=
    nodup_cons.2 ⟨fun hmem => h.ne core hmem rfl, h.nodup⟩
  have hsub : core :: candidates ⊆ range NumCores := by
    intro i hi
    rcases mem_cons.1 hi with rfl | hi
    · exact mem_range.2 hcore
    · exact mem_range.2 (h.lt i hi)
  have hlen := (hnodup.subperm hsub).length_le
  rw [length_range, length_cons] at hlen
  omega

omit [DecidableEq ι] in
/-- The top thread `x` of `i` adds a candidate: the top threads of the others were passed before. -/
lemma Candidates.concat {x : ι} {i : ℕ} (h : Candidates c core passed candidates) (hi : i < NumCores) (hne : i ≠ core)
    (htop : c.topThreads i = some x) (hx : x ∉ passed) :
    Candidates c core (passed ++ [x]) (candidates ++ [i]) := by
  have hnot : i ∉ candidates := by
    intro hmem
    obtain ⟨t, ht, htop'⟩ := h.top i hmem
    rw [htop, Option.some.injEq] at htop'
    exact hx (htop' ▸ ht)
  refine ⟨?_, ?_, ?_, ?_⟩
  · rw [← concat_eq_append]
    exact h.nodup.concat hnot
  · intro j hj
    rcases mem_append.1 hj with hj | hj
    · exact h.lt j hj
    · exact mem_singleton.1 hj ▸ hi
  · intro j hj
    rcases mem_append.1 hj with hj | hj
    · exact h.ne j hj
    · exact mem_singleton.1 hj ▸ hne
  · intro j hj
    rcases mem_append.1 hj with hj | hj
    · obtain ⟨t, ht, htop'⟩ := h.top j hj
      exact ⟨t, by simp [ht], htop'⟩
    · exact ⟨x, by simp, mem_singleton.1 hj ▸ htop⟩

/-- **There is room for every candidate.**  The candidates are different from each other, because
their top threads are, and different from the idle core. -/
lemma Sound.scanSuggested (hc : Sound k NumCores c) (hcore : core < NumCores)
    (hl : c.sched.queueState.Enumerates .suggested core l) (room : ℕ) :
    ∀ (l₁ l₂ : List ι) (candidates : List ℕ) (x : ι), l = l₁ ++ x :: l₂ →
      candidates.length + room = NumCores → Candidates c core l₁ candidates →
      ∃ r, c.scanSuggested core room candidates x = some r ∧ ScanOk c l r := by
  induction room with
  | zero =>
    intro l₁ l₂ candidates x _ hroom hcand
    have hlt := hcand.length_lt hcore
    omega
  | succ room ih =>
    intro l₁ l₂ candidates x hsplit hroom hcand
    have hx : x ∈ l := by simp [hsplit]
    obtain ⟨-, hbit, hne⟩ := suggested_spec hl hx
    have hactive : ∀ i, c.topThreads i = some x →
        (c.sched.queueState.thread x).activeCore = some i := fun i => hc.active i x
    rw [CoreSelection.scanSuggested]
    cases hcase : (c.sched.queueState.thread x).activeCore with
    | none =>
      refine ⟨_, rfl, hx, ?_⟩
      intro i htop
      rw [hactive i htop] at hcase
      simp at hcase
    | some i =>
      have hmigrate : c.topThreads i ≠ some x → ScanOk c l (.migrate x) := by
        intro htop
        refine ⟨hx, ?_⟩
        intro j hj
        obtain rfl : i = j := Option.some.inj (hcase.symm.trans (hactive j hj))
        exact htop hj
      simp only
      split_ifs with htop
      · cases htop' : c.topThreads i with
        | none => exact ⟨_, rfl, hmigrate htop⟩
        | some top =>
          simp only
          split_ifs
          · exact ⟨_, rfl, trivial⟩
          · exact ⟨_, rfl, hmigrate htop⟩
      · -- `i` is a new candidate
        have hi : i < NumCores :=
          (hc.consistent.valid x).mask_lt i ((hc.consistent.valid x).active_mem i hcase)
        have hinodup : x ∉ l₁ := by
          intro hmem
          exact (nodup_append.1 (hsplit ▸ hl.nodup)).2.2 x hmem x (by simp) rfl
        have hcand' := hcand.concat hi (fun heq => hne (heq ▸ hcase)) (not_not.1 htop) hinodup
        have hnext := (hsplit ▸ hl.chain : Linked.Chain _ _ (l₁ ++ x :: l₂)).next_eq
        rw [hnext]
        cases l₂ with
        | nil =>
          refine ⟨_, rfl, ?_⟩
          intro j hj
          obtain ⟨t, ht, htop'⟩ := hcand'.top j hj
          exact ⟨t, hsplit ▸ ht, htop'⟩
        | cons y l₂ =>
          refine ih (l₁ ++ [x]) l₂ (candidates ++ [i]) y (by simp [hsplit]) ?_ hcand'
          rw [length_append, length_singleton]
          omega

/-! ## Migration to an idle core -/

lemma Sound.migrate (hc : Sound k n c) (hl : c.sched.queueState.Enumerates .suggested core l) {x : ι}
    (hx : x ∈ l) (htop : ∀ i, c.topThreads i ≠ some x) :
    Sound k n (c.setQueueState (KScheduler.migrate c.sched.queueState x core)) := by
  obtain ⟨hqueued, hbit, -⟩ := suggested_spec hl hx
  have hold := hc.consistent.valid x
  have hvalid : { c.sched.queueState.thread x with activeCore := some core }.Valid := by
    refine ⟨hold.mask_lt, ?_, hold.priority_le⟩
    intro i hi
    exact Option.some.inj hi ▸ hbit
  have hcons : (KScheduler.migrate c.sched.queueState x core).Consistent :=
    hc.consistent.exec (show c.sched.queueState.Admissible (.changeCore x (some core) false) from
      ⟨hqueued, hvalid⟩) rfl
  have hother : ∀ y, y ≠ x → (KScheduler.migrate c.sched.queueState x core).thread y =
      c.sched.queueState.thread y := fun y hy => update_of_ne hy _ _
  refine ⟨hcons, hc.queued, ?_, hc.top_eq, ?_, hc.changed⟩
  · intro y
    by_cases hy : y = x
    · subst hy
      obtain ⟨active, hactive⟩ := hc.fields y
      refine ⟨some core, ?_⟩
      show (KScheduler.migrate c.sched.queueState y core).thread y = _
      simp only [KScheduler.migrate, QueueState.assign, update_self, hactive]
    · obtain ⟨active, hactive⟩ := hc.fields y
      exact ⟨active, (hother y hy).trans hactive⟩
  · intro i t ht
    have hne : t ≠ x := fun heq => htop i (heq ▸ ht)
    show ((KScheduler.migrate c.sched.queueState x core).thread t).activeCore = some i
    rw [hother t hne]
    exact hc.active i t ht

lemma migrate_activeCore (q : QueueState ι) (x : ι) (core : ℕ) :
    ((KScheduler.migrate q x core).thread x).activeCore = some core := by
  simp [KScheduler.migrate, QueueState.assign]

lemma Sound.tryCandidates (hc : Sound k NumCores c) (hcore : core < NumCores)
    (hl : c.sched.queueState.Enumerates .suggested core l) (candidates : List ℕ)
    (hcand : ∀ i ∈ candidates, ∃ t ∈ l, c.topThreads i = some t) :
    ∃ c', c.tryCandidates core candidates = some c' ∧ Sound k NumCores c' := by
  induction candidates with
  | nil => exact ⟨c, rfl, hc⟩
  | cons i rest ih =>
    obtain ⟨t, ht, htop⟩ := hcand i (by simp)
    have hactive := hc.active i t htop
    rw [CoreSelection.tryCandidates, htop]
    simp only
    cases hnext : c.sched.queueState.queue.getNext c.sched.queueState.thread .scheduled i t with
    | none => exact ih fun j hj => hcand j (by simp [hj])
    | some next =>
      -- `t` is scheduled on the candidate core, and `next` is behind it in the walk
      obtain ⟨m, hm⟩ := hc.consistent.enumerates .scheduled i
      have htm : t ∈ m := by
        obtain ⟨hqueued, hdummy, -, hprio, -⟩ := (hl.mem_iff t).1 ht
        exact (hm.mem_iff t).2 ⟨hqueued, hdummy, rfl, hprio, hactive⟩
      obtain ⟨m1, m2, rfl⟩ := append_of_mem htm
      have hhead : m2.head? = some next := hm.chain.next_eq.symm.trans hnext
      have hnextm : next ∈ m2 := mem_of_head? hhead
      have hne : next ≠ t := by
        rintro rfl
        exact (nodup_cons.1 (nodup_append.1 hm.nodup).2.1).1 hnextm
      have hnextActive := active_of_scheduled hm (x := next) (by simp [hnextm])
      have hi : i < NumCores := (hc.consistent.valid t).mask_lt i ((hc.consistent.valid t).active_mem i hactive)
      have hset : Sound k NumCores (c.setTop i (some next)) := by
        refine hc.setTop (by simp only [NumCores] at hi; omega) _ (fun j hj _ => hj) ?_
        intro x hx
        exact Option.some.inj hx ▸ hnextActive
      have hnotTop : ∀ j, (c.setTop i (some next)).topThreads j ≠ some t := by
        intro j hj
        rw [setTop_topThreads] at hj
        by_cases hji : j = i
        · rw [hji, update_self] at hj
          exact hne (Option.some.inj hj)
        · rw [update_of_ne hji] at hj
          exact hji (Option.some.inj ((hc.active j t hj).symm.trans hactive))
      have hl' : (c.setTop i (some next)).sched.queueState.Enumerates .suggested core l := by
        simpa using hl
      have hmig := hset.migrate hl' ht hnotTop
      refine ⟨_, rfl, hmig.setTop (by simp only [NumCores] at hcore; omega) _
        (fun j hj _ => hj) ?_⟩
      intro x hx
      exact Option.some.inj hx ▸ migrate_activeCore _ _ _

end Suggested

/-- **The body of the second loop keeps the invariant.** -/
lemma Sound.fillIdle (hc : Sound k NumCores c) (hcore : core < NumCores) :
    ∃ c', c.fillIdle core = some c' ∧ Sound k NumCores c' := by
  obtain ⟨l, hl⟩ := hc.consistent.enumerates .suggested core
  rw [CoreSelection.fillIdle]
  cases hfront : c.sched.queueState.queue.getFront .suggested core with
  | none => exact ⟨c, rfl, hc⟩
  | some x =>
    have hhead : l.head? = some x := hl.chain.head_eq.symm.trans hfront
    obtain ⟨l₂, rfl⟩ := head?_eq_some_iff.1 hhead
    obtain ⟨r, hr, hok⟩ := hc.scanSuggested hcore hl NumCores [] l₂ [] x rfl rfl ⟨nodup_nil, by simp, by simp, by simp⟩
    simp only [hr]
    cases r with
    | tooHigh => exact ⟨c, rfl, hc⟩
    | migrate t =>
      refine ⟨_, rfl, (hc.migrate hl hok.1 hok.2).setTop
        (by simp only [NumCores] at hcore; omega) _ (fun j hj _ => hj) ?_⟩
      intro y hy
      exact Option.some.inj hy ▸ migrate_activeCore _ _ _
    | exhausted candidates => exact hc.tryCandidates hcore hl candidates hok

lemma Sound.fillAll (cores : List ℕ) (hcores : ∀ i ∈ cores, i < NumCores) (hc : Sound k NumCores c) :
    ∃ c', cores.foldlM CoreSelection.fillIdle c = some c' ∧ Sound k NumCores c' := by
  induction cores generalizing c with
  | nil => exact ⟨c, rfl, hc⟩
  | cons i cores ih =>
    obtain ⟨c1, hc1, hsound1⟩ := hc.fillIdle (hcores i (by simp))
    obtain ⟨c2, hc2, hsound2⟩ := ih (fun j hj => hcores j (by simp [hj])) hsound1
    refine ⟨c2, ?_, hsound2⟩
    rw [foldlM_cons, hc1]
    exact hc2

/-- Two threads: `true` is pinned to core 0, `false` may run on the cores 0 and 2. -/
def pinnedAndFree : Bool → KThreadInfo
  | true => ⟨20, some 0, 0b1, false⟩
  | false => threadOnTwoCores

lemma pinnedAndFree_valid (x : Bool) : (pinnedAndFree x).Valid := by
  cases x with
  | true =>
    refine ⟨?_, ?_, by decide⟩
    · intro core hbit
      have hall : ∀ c < 64, (pinnedAndFree true).affinityMask.getLsbD c = true → c < NumCores := by
        decide
      exact hall core (BitVec.lt_of_getLsbD hbit) hbit
    · intro core hcore
      obtain rfl : 0 = core := Option.some.inj hcore
      decide
  | false => exact threadOnTwoCores_valid

end CoreSelection

end Voltemu.Kernel
