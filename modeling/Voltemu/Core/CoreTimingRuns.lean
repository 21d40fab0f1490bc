import Voltemu.Core.CoreTiming
import Mathlib.Data.List.Pairwise

/-!
# Runs of core timing

* `Change` says what a step can do to the queue, the log and `Advance`; every invariant is derived from it.
* `Inv` is the invariant: the events of the queue are distinct, the handle that `Advance` keeps across a callback is
  valid while the sequence number has not changed, and the log tells of every event when it fires next.
* The properties of whole runs are at the end.
-/

namespace Voltemu.Core.Timing

open Function List State

section Top

variable {τ : Type} {s : State τ} {e x : Event τ}

lemma mem_top (h : s.top = some e) : e ∈ s.eventQueue := argmin_mem h

lemma key_top_le (h : s.top = some e) (hx : x ∈ s.eventQueue) : e.key ≤ x.key :=
  le_of_mem_argmin hx h

lemma time_top_le (h : s.top = some e) (hx : x ∈ s.eventQueue) : e.time ≤ x.time := by
  have hkey := key_top_le h hx
  rw [Event.key, Event.key, Prod.Lex.toLex_le_toLex] at hkey
  omega

end Top

section Steps

variable {τ : Type} [DecidableEq τ] {s s' : State τ} {a : Action τ}

inductive Change (s : State τ) : Action τ → State τ → Prop
  /-- Nothing happens to the queue or the log, and no callback of a looping event begins or ends. -/
  | quiet {a : Action τ} {s' : State τ} (queue : s'.eventQueue = s.eventQueue)
      (fifo : s'.eventFifoId = s.eventFifoId) (sequence : s'.sequenceNumber = s.sequenceNumber)
      (serials : s'.serials = s.serials) (log : s'.log = s.log)
      (pause : a ≠ .unpause → s'.pauseEndTime = s.pauseEndTime)
      (advancing : s'.advancing = s.advancing ∨ s.advancing.runningSerial = none ∧ s'.advancing.runningSerial = none)
      (running : s'.advancing.running ≠ none → s'.advancing = s.advancing)
      (idle : s'.advancing = .idle → s.advancing = .idle ∨
        s.advancing = .check ∧ ∀ e ∈ s.eventQueue, s.globalTimer < e.time) :
      Change s a s'
  /-- An event enters the queue. -/
  | scheduled {a : Action τ} (e : Event τ) (free : s.advancing ≠ .check)
      (handle : ∀ x ∈ s.eventQueue, x.handle ≠ e.handle) (fifo : e.fifoOrder = s.eventFifoId)
      (serial : e.serial = s.serials) (schedules : a.schedules e.type = true) :
      Change s a { s with
        eventQueue := e :: s.eventQueue
        eventFifoId := s.eventFifoId + 1
        serials := s.serials + 1 }
  /-- The events of a type leave the queue. -/
  | unscheduled (type : τ) (wait : Option ℕ) (free : s.advancing ≠ .check) :
      Change s (.unscheduleEvent type wait) { s with
        eventQueue := s.eventQueue.filter (·.type ≠ type)
        sequenceNumber := update s.sequenceNumber type (s.sequenceNumber type + 1)
        waiting := wait.toList ++ s.waiting }
  /-- `Advance` calls the callback of a one-shot event. -/
  | firedOneShot (e : Event τ) (check : s.advancing = .check) (top : s.top = some e)
      (due : e.time ≤ s.globalTimer) (once : e.rescheduleTime = 0) :
      Change s .loop { s with
        eventQueue := s.eventQueue.filter (·.handle ≠ e.handle)
        advancing := .oneShot e.type
        log := .fired e.serial e.time e.rescheduleTime :: s.log }
  /-- `Advance` calls the callback of a looping event. -/
  | firedLooping (e : Event τ) (check : s.advancing = .check) (top : s.top = some e)
      (due : e.time ≤ s.globalTimer) (loops : e.rescheduleTime ≠ 0) :
      Change s .loop { s with
        advancing := .looping e.type e.handle (s.sequenceNumber e.type) e.serial
        log := .fired e.serial e.time e.rescheduleTime :: s.log }
  /-- The type was unscheduled while the callback ran. -/
  | stale (type : τ) (handle sequenceNum serial : ℕ) (r : Option ℤ)
      (running : s.advancing = .looping type handle sequenceNum serial)
      (changed : sequenceNum ≠ s.sequenceNumber type) :
      Change s (.callbackReturns r) { s with
        advancing := .check, log := .returned serial r :: s.log }
  /-- A looping event is put back into the queue. -/
  | rescheduled (e : Event τ) (type : τ) (handle serial : ℕ) (r : Option ℤ)
      (running : s.advancing = .looping type handle (s.sequenceNumber type) serial)
      (found : s.find handle = some e) :
      Change s (.callbackReturns r) { s with
        eventQueue := s.eventQueue.map fun x =>
          if x.handle = handle then s.rescheduled e r else x
        eventFifoId := s.eventFifoId + 1
        advancing := .check
        globalTimer := s.now
        log := .returned serial r :: s.log }

lemma change_schedule {ns resched : ℤ} {type : τ} {absolute : Bool} {handle : ℕ}
    (h : s.schedule ns resched type absolute handle = some s')
    (hs : a.schedules type = true) : Change s a s' := by
  unfold schedule at h
  split at h
  · rename_i hfree
    rw [Bool.and_eq_true, Bool.not_eq_true', contains_eq_mem, decide_eq_false_iff_not] at hfree
    cases h
    refine .scheduled ⟨_, s.eventFifoId, type, resched, handle, s.serials⟩ ?_ (fun x hx he => ?_) rfl rfl hs
    · simpa [basicLockFree] using hfree.1
    · exact hfree.2 (mem_map.2 ⟨x, hx, he⟩)
  · cases h

lemma change_fire (hc : s.advancing = .check) : Change s .loop s.fire := by
  unfold fire
  cases ht : s.top with
  | none =>
    have hempty : s.eventQueue = [] := argmin_eq_none.1 ht
    refine .quiet rfl rfl rfl rfl rfl (fun _ => rfl) (.inr ?_) ?_ fun _ => .inr ⟨hc, ?_⟩
    · simp [hc, Advancing.runningSerial]
    · simp [Advancing.running]
    · simp [hempty]
  | some e =>
    dsimp only
    split
    · rename_i hdue
      split
      · rename_i honce
        exact .firedOneShot e hc ht hdue honce
      · rename_i hloops
        exact .firedLooping e hc ht hdue hloops
    · rename_i hdue
      refine .quiet rfl rfl rfl rfl rfl (fun _ => rfl) (.inr ?_) ?_
        fun _ => .inr ⟨hc, fun x hx => ?_⟩
      · simp [hc, Advancing.runningSerial]
      · simp [Advancing.running]
      · exact (not_le.1 hdue).trans_le (time_top_le ht hx)

lemma change_afterCallback {r : Option ℤ} (h : s.afterCallback r = some s') : Change s (.callbackReturns r) s' := by
  unfold State.afterCallback at h
  cases hadv : s.advancing with
  | idle => simp [hadv] at h
  | check => simp [hadv] at h
  | oneShot type =>
    rw [hadv] at h
    cases h
    refine .quiet rfl rfl rfl rfl rfl (fun _ => rfl) (.inr ?_) ?_ ?_
    · simp [hadv, Advancing.runningSerial]
    · simp [Advancing.running]
    · simp
  | looping type handle sequenceNum serial =>
    rw [hadv] at h
    dsimp only at h
    split at h
    · rename_i hchanged
      cases h
      exact .stale type handle sequenceNum serial r hadv hchanged
    · rename_i hsame
      obtain ⟨e, hfound, rfl⟩ := Option.map_eq_some_iff.1 h
      rw [not_not.1 hsame] at hadv
      exact .rescheduled e type handle serial r hadv hfound

lemma step_change (h : s.step a = some s') : Change s a s' := by
  cases a with
  | tick dt =>
    cases h
    exact .quiet rfl rfl rfl rfl rfl (fun _ => rfl) (.inl rfl) (fun _ => rfl) .inl
  | unpause =>
    cases h
    exact .quiet rfl rfl rfl rfl rfl (fun hne => absurd rfl hne) (.inl rfl) (fun _ => rfl) .inl
  | scheduleEvent ns type absolute handle => exact change_schedule h (by simp [Action.schedules])
  | scheduleLoopingEvent start resched type absolute handle =>
    exact change_schedule h (by simp [Action.schedules])
  | unscheduleEvent type wait =>
    simp only [State.step, State.unschedule] at h
    split at h
    · rename_i hfree
      cases h
      exact .unscheduled type wait (by simpa [basicLockFree] using hfree)
    · cases h
  | waited call =>
    simp only [State.step] at h
    split at h
    · cases h
      exact .quiet rfl rfl rfl rfl rfl (fun _ => rfl) (.inl rfl) (fun _ => rfl) .inl
    · cases h
  | beginAdvance =>
    simp only [State.step] at h
    split at h
    · rename_i hidle
      cases h
      refine .quiet rfl rfl rfl rfl rfl (fun _ => rfl) (.inr ?_) ?_ ?_
      · simp [hidle, Advancing.runningSerial]
      · simp [Advancing.running]
      · simp
    · cases h
  | loop =>
    simp only [State.step] at h
    split at h
    · rename_i hcheck
      cases h
      exact change_fire hcheck
    · cases h
  | callbackReturns r => exact change_afterCallback h

end Steps

/-- The entries of one event, newest first. -/
def history (n : ℕ) (log : List Entry) : List Entry := log.filter (·.serial == n)

section History

variable {n m : ℕ} {t p : ℤ} {r : Option ℤ} {log : List Entry}

lemma history_fired : history n (.fired n t p :: log) = .fired n t p :: history n log :=
  filter_cons_of_pos (by simp [Entry.serial])

lemma history_fired_ne (h : m ≠ n) : history n (.fired m t p :: log) = history n log :=
  filter_cons_of_neg (by simpa [Entry.serial] using h)

lemma history_returned : history n (.returned n r :: log) = .returned n r :: history n log :=
  filter_cons_of_pos (by simp [Entry.serial])

lemma history_returned_ne (h : m ≠ n) : history n (.returned m r :: log) = history n log :=
  filter_cons_of_neg (by simpa [Entry.serial] using h)

lemma history_eq_nil (h : ∀ x ∈ log, x.serial ≠ n) : history n log = [] :=
  filter_eq_nil_iff.2 fun x hx => by simpa using h x hx

end History

/-- Firings and returns of an event alternate, and each firing is a period after the one before.  A firing before time
zero counts as one at time zero: that is where a pause that never was has ended. -/
def Spaced : List Entry → Prop
  | [] => True
  | [.fired _ _ _] => True
  | .fired _ t p :: .returned m r :: .fired n t' p' :: rest =>
      p = r.getD p' ∧ t = max t' 0 + p ∧ Spaced (.returned m r :: .fired n t' p' :: rest)
  | .returned _ _ :: .fired n t p :: rest => Spaced (.fired n t p :: rest)
  | _ => False

/-- What the log says of an event in the queue: it is being fired, it has not been fired, or it was fired a period
ago. -/
def Expected {τ : Type} (running : Option ℕ) (e : Event τ) (past : List Entry) : Prop :=
  if running = some e.serial then ∃ rest, past = .fired e.serial e.time e.rescheduleTime :: rest
  else past = [] ∨ ∃ r t p rest, past = .returned e.serial r :: .fired e.serial t p :: rest ∧
    e.rescheduleTime = r.getD p ∧ e.time = max t 0 + e.rescheduleTime

/-- Two events that nothing confuses. -/
def Event.Apart {τ : Type} (e x : Event τ) : Prop :=
  e.handle ≠ x.handle ∧ e.fifoOrder ≠ x.fifoOrder ∧ e.serial ≠ x.serial

instance {τ : Type} : Std.Symm (@Event.Apart τ) :=
  ⟨fun _ _ h => ⟨h.1.symm, h.2.1.symm, h.2.2.symm⟩⟩

structure Inv {τ : Type} (s : State τ) : Prop where
  distinct : s.eventQueue.Pairwise Event.Apart
  fifo_lt : ∀ e ∈ s.eventQueue, e.fifoOrder < s.eventFifoId
  serial_lt : ∀ e ∈ s.eventQueue, e.serial < s.serials
  log_lt : ∀ x ∈ s.log, x.serial < s.serials
  pause : s.pauseEndTime = 0
  /-- The handle is valid unless the type was unscheduled. -/
  running : ∀ type handle sequenceNum serial,
    s.advancing = .looping type handle sequenceNum serial → sequenceNum ≤ s.sequenceNumber type ∧ serial < s.serials ∧
      (∃ t p rest, history serial s.log = .fired serial t p :: rest ∧ p ≠ 0) ∧
      (sequenceNum = s.sequenceNumber type → ∃ e ∈ s.eventQueue,
        e.handle = handle ∧ e.type = type ∧ e.serial = serial ∧ e.rescheduleTime ≠ 0) ∧
      ∀ e ∈ s.eventQueue, e.serial = serial → e.type = type ∧ sequenceNum = s.sequenceNumber type
  expected : ∀ e ∈ s.eventQueue, Expected s.advancing.runningSerial e (history e.serial s.log)
  oneShot : ∀ e ∈ s.eventQueue, e.rescheduleTime = 0 → history e.serial s.log = []
  spaced : ∀ n, Spaced (history n s.log)
  /-- A one-shot event that was fired is gone. -/
  done : ∀ n t, .fired n t 0 ∈ s.log → history n s.log = [.fired n t 0] ∧
    (∀ e ∈ s.eventQueue, e.serial ≠ n) ∧ s.advancing.runningSerial ≠ some n

section Invariant

variable {τ : Type} {s s' : State τ} {e x : Event τ}

section

variable (h : Inv s) (he : e ∈ s.eventQueue) (hx : x ∈ s.eventQueue)
include h he hx

lemma Inv.apart (hne : e ≠ x) : e.Apart x :=
  h.distinct.forall he hx hne

lemma Inv.eq_of_handle (heq : e.handle = x.handle) : e = x := by
  by_contra hne
  exact (h.apart he hx hne).1 heq

lemma Inv.eq_of_serial (heq : e.serial = x.serial) : e = x := by
  by_contra hne
  exact (h.apart he hx hne).2.2 heq

end

section

variable (h : Inv s)
include h

/-- An event that is scheduled now has no past. -/
lemma Inv.history_fresh {n : ℕ} (hn : s.serials ≤ n) : history n s.log = [] :=
  history_eq_nil fun x hx => by
    have hlt := h.log_lt x hx
    omega

lemma Inv.runningSerial_lt {n : ℕ} (hn : s.advancing.runningSerial = some n) : n < s.serials := by
  cases hadv : s.advancing with
  | looping type handle sequenceNum serial =>
    rw [hadv] at hn
    cases hn
    exact (h.running _ _ _ _ hadv).2.1
  | _ => simp [hadv, Advancing.runningSerial] at hn

lemma Inv.quiet (hq : s'.eventQueue = s.eventQueue)
    (hf : s'.eventFifoId = s.eventFifoId) (hn : s'.sequenceNumber = s.sequenceNumber)
    (hs : s'.serials = s.serials) (hl : s'.log = s.log) (hp : s'.pauseEndTime = s.pauseEndTime)
    (ha : s'.advancing.runningSerial = s.advancing.runningSerial)
    (hr : s'.advancing.running ≠ none → s'.advancing = s.advancing) : Inv s' where
  distinct := hq ▸ h.distinct
  fifo_lt := by rw [hq, hf]; exact h.fifo_lt
  serial_lt := by rw [hq, hs]; exact h.serial_lt
  log_lt := by rw [hl, hs]; exact h.log_lt
  pause := hp.trans h.pause
  running type handle sequenceNum serial hadv := by
    have heq := hr (by simp [hadv, Advancing.running])
    rw [hn, hs, hl, hq]
    exact h.running type handle sequenceNum serial (heq ▸ hadv)
  expected := by rw [hq, hl, ha]; exact h.expected
  oneShot := by rw [hq, hl]; exact h.oneShot
  spaced := by rw [hl]; exact h.spaced
  done := by rw [hl, hq, ha]; exact h.done

lemma Inv.scheduled (hh : ∀ x ∈ s.eventQueue, x.handle ≠ e.handle)
    (hf : e.fifoOrder = s.eventFifoId) (hs : e.serial = s.serials) :
    Inv { s with
      eventQueue := e :: s.eventQueue
      eventFifoId := s.eventFifoId + 1
      serials := s.serials + 1 } := by
  have hpast : history e.serial s.log = [] := h.history_fresh hs.ge
  have hmem : ∀ {P : Event τ → Prop}, P e → (∀ x ∈ s.eventQueue, P x) →
      ∀ x ∈ e :: s.eventQueue, P x := fun he hq x hx => by
    rcases mem_cons.1 hx with rfl | hx
    · exact he
    · exact hq x hx
  refine ⟨?_, hmem ?_ fun x hx => ?_, hmem ?_ fun x hx => ?_, fun x hx => ?_, h.pause, ?_,
    hmem ?_ fun x hx => ?_, hmem (fun _ => hpast) h.oneShot, h.spaced, fun n t hfired => ?_⟩
  · refine pairwise_cons.2 ⟨fun x hx => ⟨(hh x hx).symm, ?_, ?_⟩, h.distinct⟩
    · have hlt := h.fifo_lt x hx
      omega
    · have hlt := h.serial_lt x hx
      omega
  · show e.fifoOrder < s.eventFifoId + 1
    omega
  · exact (h.fifo_lt x hx).trans (Nat.lt_succ_self _)
  · show e.serial < s.serials + 1
    omega
  · exact (h.serial_lt x hx).trans (Nat.lt_succ_self _)
  · exact (h.log_lt x hx).trans (Nat.lt_succ_self _)
  · intro type handle sequenceNum serial hadv
    obtain ⟨hseq, hlt, hhist, hfound, hunique⟩ := h.running type handle sequenceNum serial hadv
    refine ⟨hseq, hlt.trans (Nat.lt_succ_self _), hhist, fun heq => ?_, hmem (fun heq => ?_) hunique⟩
    · obtain ⟨x, hx, hrest⟩ := hfound heq
      exact ⟨x, mem_cons_of_mem _ hx, hrest⟩
    · omega
  · refine (if_neg fun hrun => ?_).mpr (.inl hpast)
    have hlt := h.runningSerial_lt hrun
    omega
  · exact h.expected x hx
  · obtain ⟨hhist, hgone, hrun⟩ := h.done n t hfired
    refine ⟨hhist, hmem (fun heq => ?_) hgone, hrun⟩
    have hlt : n < s.serials := h.log_lt _ hfired
    omega

lemma Inv.unscheduled [DecidableEq τ] (type : τ) (waiting : List ℕ) : Inv { s with
      eventQueue := s.eventQueue.filter (·.type ≠ type)
      sequenceNumber := update s.sequenceNumber type (s.sequenceNumber type + 1)
      waiting := waiting } := by
  have hmem : ∀ {x : Event τ}, x ∈ s.eventQueue.filter (·.type ≠ type) → x ∈ s.eventQueue ∧ x.type ≠ type := fun hx => by
    simpa using mem_filter.1 hx
  refine ⟨h.distinct.sublist filter_sublist, fun x hx => h.fifo_lt x (hmem hx).1,
    fun x hx => h.serial_lt x (hmem hx).1, h.log_lt, h.pause, ?_,
    fun x hx => h.expected x (hmem hx).1, fun x hx => h.oneShot x (hmem hx).1, h.spaced, ?_⟩
  · intro type' handle sequenceNum serial hadv
    obtain ⟨hseq, hlt, hhist, hfound, hunique⟩ := h.running type' handle sequenceNum serial hadv
    by_cases htype : type' = type
    · subst htype
      simp only [update_self]
      refine ⟨by omega, hlt, hhist, fun heq => by omega, fun x hx hs => ?_⟩
      exact absurd (hunique x (hmem hx).1 hs).1 (hmem hx).2
    · simp only [update_of_ne htype]
      refine ⟨hseq, hlt, hhist, fun heq => ?_, fun x hx => hunique x (hmem hx).1⟩
      obtain ⟨x, hx, hhandle, hxtype, hrest⟩ := hfound heq
      refine ⟨x, mem_filter.2 ⟨hx, ?_⟩, hhandle, hxtype, hrest⟩
      simpa [hxtype] using htype
  · intro n t hfired
    obtain ⟨hhist, hgone, hrun⟩ := h.done n t hfired
    exact ⟨hhist, fun x hx => hgone x (hmem hx).1, hrun⟩

lemma Inv.firedOneShot (hc : s.advancing = .check) (he : e ∈ s.eventQueue) (honce : e.rescheduleTime = 0) :
    Inv { s with
      eventQueue := s.eventQueue.filter (·.handle ≠ e.handle)
      advancing := .oneShot e.type
      log := .fired e.serial e.time e.rescheduleTime :: s.log } := by
  have hpast := h.oneShot e he honce
  have hmem : ∀ {x : Event τ}, x ∈ s.eventQueue.filter (·.handle ≠ e.handle) →
      x ∈ s.eventQueue ∧ x.serial ≠ e.serial := fun {x} hx => by
    obtain ⟨hx, hne⟩ := mem_filter.1 hx
    refine ⟨hx, fun hs => ?_⟩
    rw [h.eq_of_serial hx he hs] at hne
    simp at hne
  have hself : history e.serial (.fired e.serial e.time e.rescheduleTime :: s.log) =
      [.fired e.serial e.time e.rescheduleTime] := by
    rw [history_fired, hpast]
  have hnone : s.advancing.runningSerial = none := by rw [hc]; rfl
  refine ⟨h.distinct.sublist filter_sublist, fun x hx => h.fifo_lt x (hmem hx).1,
    fun x hx => h.serial_lt x (hmem hx).1, fun y hy => ?_, h.pause, fun _ _ _ _ hadv => ?_,
    fun x hx => ?_, fun x hx hx0 => ?_, fun n => ?_, fun n t hfired => ?_⟩
  · rcases mem_cons.1 hy with rfl | hy
    · exact h.serial_lt e he
    · exact h.log_lt y hy
  · cases hadv
  · obtain ⟨hx, hne⟩ := hmem hx
    have hexp := h.expected x hx
    rw [hnone] at hexp
    rw [history_fired_ne hne.symm]
    exact hexp
  · obtain ⟨hx, hne⟩ := hmem hx
    rw [history_fired_ne hne.symm]
    exact h.oneShot x hx hx0
  · by_cases hn : n = e.serial
    · rw [hn, hself]
      trivial
    · rw [history_fired_ne (Ne.symm hn)]
      exact h.spaced n
  · rcases mem_cons.1 hfired with heq | hold
    · obtain ⟨rfl, rfl, -⟩ := Entry.fired.inj heq
      exact ⟨by rw [hself, honce], fun x hx => (hmem hx).2, by simp [Advancing.runningSerial]⟩
    · obtain ⟨hhist, hgone, -⟩ := h.done n t hold
      have hn : e.serial ≠ n := hgone e he
      rw [history_fired_ne hn]
      exact ⟨hhist, fun x hx => hgone x (hmem hx).1, by simp [Advancing.runningSerial]⟩

lemma Inv.firedLooping (hc : s.advancing = .check) (he : e ∈ s.eventQueue) (hloops : e.rescheduleTime ≠ 0) :
    Inv { s with
      advancing := .looping e.type e.handle (s.sequenceNumber e.type) e.serial
      log := .fired e.serial e.time e.rescheduleTime :: s.log } := by
  have hnone : s.advancing.runningSerial = none := by rw [hc]; rfl
  have hself : history e.serial (.fired e.serial e.time e.rescheduleTime :: s.log) =
      .fired e.serial e.time e.rescheduleTime :: history e.serial s.log := history_fired
  have hcases : ∀ x ∈ s.eventQueue, x = e ∨ x.serial ≠ e.serial := fun x hx =>
    or_iff_not_imp_right.2 fun hs => h.eq_of_serial hx he (not_not.1 hs)
  refine ⟨h.distinct, h.fifo_lt, h.serial_lt, fun y hy => ?_, h.pause, fun _ _ _ _ hadv => ?_,
    fun x hx => ?_, fun x hx hx0 => ?_, fun n => ?_, fun n t hfired => ?_⟩
  · rcases mem_cons.1 hy with rfl | hy
    · exact h.serial_lt e he
    · exact h.log_lt y hy
  · cases hadv
    refine ⟨le_rfl, h.serial_lt e he, ⟨_, _, _, hself, hloops⟩,
      fun _ => ⟨e, he, rfl, rfl, rfl, hloops⟩, fun x hx hs => ?_⟩
    rw [h.eq_of_serial hx he hs]
    exact ⟨rfl, rfl⟩
  · rcases hcases x hx with rfl | hne
    · exact (if_pos rfl).mpr ⟨_, hself⟩
    · have hexp := h.expected x hx
      rw [hnone, Expected, if_neg (by simp)] at hexp
      refine (if_neg ?_).mpr ?_
      · simpa [Advancing.runningSerial] using hne.symm
      · rw [history_fired_ne hne.symm]
        exact hexp
  · rcases hcases x hx with rfl | hne
    · exact absurd hx0 hloops
    · rw [history_fired_ne hne.symm]
      exact h.oneShot x hx hx0
  · by_cases hn : n = e.serial
    · -- the event was due a period after it was fired before
      have hexp := h.expected e he
      have hspaced := h.spaced e.serial
      rw [hnone, Expected, if_neg (by simp)] at hexp
      rw [hn, hself]
      rcases hexp with hnil | ⟨r, t, p, rest, heq, hp, ht⟩
      · rw [hnil]
        trivial
      · rw [heq] at hspaced ⊢
        exact ⟨hp, ht, hspaced⟩
    · rw [history_fired_ne (Ne.symm hn)]
      exact h.spaced n
  · rcases mem_cons.1 hfired with heq | hold
    · exact absurd (Entry.fired.inj heq).2.2.symm hloops
    · obtain ⟨hhist, hgone, -⟩ := h.done n t hold
      have hn : e.serial ≠ n := hgone e he
      rw [history_fired_ne hn]
      refine ⟨hhist, hgone, ?_⟩
      simpa [Advancing.runningSerial] using hn

/-- The callback of an event that is no longer in the queue has returned. -/
lemma Inv.stale {type : τ} {handle sequenceNum serial : ℕ} {r : Option ℤ}
    (hrun : s.advancing = .looping type handle sequenceNum serial)
    (hchanged : sequenceNum ≠ s.sequenceNumber type) :
    Inv { s with advancing := .check, log := .returned serial r :: s.log } := by
  obtain ⟨-, hlt, ⟨t, p, rest, hhist, -⟩, -, hunique⟩ := h.running _ _ _ _ hrun
  have hgone : ∀ x ∈ s.eventQueue, serial ≠ x.serial := fun x hx hs =>
    hchanged (hunique x hx hs.symm).2
  refine ⟨h.distinct, h.fifo_lt, h.serial_lt, fun y hy => ?_, h.pause, fun _ _ _ _ hadv => ?_,
    fun x hx => ?_, fun x hx hx0 => ?_, fun n => ?_, fun n t' hfired => ?_⟩
  · rcases mem_cons.1 hy with rfl | hy
    · exact hlt
    · exact h.log_lt y hy
  · cases hadv
  · have hexp := h.expected x hx
    rw [hrun, Expected, if_neg (by simpa [Advancing.runningSerial] using hgone x hx)] at hexp
    refine (if_neg (by simp [Advancing.runningSerial])).mpr ?_
    rw [history_returned_ne (hgone x hx)]
    exact hexp
  · rw [history_returned_ne (hgone x hx)]
    exact h.oneShot x hx hx0
  · by_cases hn : serial = n
    · have hspaced := h.spaced n
      rw [← hn, hhist] at hspaced
      rw [← hn, history_returned, hhist]
      exact hspaced
    · rw [history_returned_ne hn]
      exact h.spaced n
  · rcases mem_cons.1 hfired with heq | hold
    · cases heq
    · obtain ⟨hhist', hgone', hrun'⟩ := h.done n t' hold
      have hn : serial ≠ n := by simpa [hrun, Advancing.runningSerial] using hrun'
      rw [history_returned_ne hn]
      exact ⟨hhist', hgone', by simp [Advancing.runningSerial]⟩

end

lemma rescheduled_time (hp : s.pauseEndTime = 0) (r : Option ℤ) :
    (s.rescheduled e r).time = max e.time 0 + (s.rescheduled e r).rescheduleTime := by
  simp only [rescheduled, hp]
  split <;> omega

lemma Inv.rescheduled (h : Inv s) {type : τ} {handle serial : ℕ} {r : Option ℤ}
    (hrun : s.advancing = .looping type handle (s.sequenceNumber type) serial)
    (hfound : s.find handle = some e) (hpos : ∀ p, r = some p → 0 < p) :
    Inv { s with
      eventQueue := s.eventQueue.map fun x =>
        if x.handle = handle then s.rescheduled e r else x
      eventFifoId := s.eventFifoId + 1
      advancing := .check
      globalTimer := s.now
      log := .returned serial r :: s.log } := by
  obtain ⟨-, hlt, ⟨t, p, rest, hhist, -⟩, hvalid, -⟩ := h.running _ _ _ _ hrun
  have he : e ∈ s.eventQueue := mem_of_find?_eq_some hfound
  have hhandle : e.handle = handle := by simpa using find?_some hfound
  obtain ⟨hserial, hloops⟩ : e.serial = serial ∧ e.rescheduleTime ≠ 0 := by
    obtain ⟨x, hx, hxh, -, hxs, hx0⟩ := hvalid rfl
    rw [h.eq_of_handle he hx (hhandle.trans hxh.symm)]
    exact ⟨hxs, hx0⟩
  -- the elements of the new queue
  have hmem : ∀ {P : Event τ → Prop}, P (s.rescheduled e r) →
      (∀ x ∈ s.eventQueue, x.serial ≠ serial → P x) → ∀ y ∈ s.eventQueue.map (fun x =>
        if x.handle = handle then s.rescheduled e r else x), P y := by
    intro P hnew hold y hy
    obtain ⟨x, hx, rfl⟩ := mem_map.1 hy
    split
    · exact hnew
    · rename_i hne
      refine hold x hx fun hs => hne ?_
      rw [h.eq_of_serial hx he (hs.trans hserial.symm), hhandle]
  have hpast : history serial s.log = .fired serial e.time e.rescheduleTime :: rest := by
    have hexp := h.expected e he
    rw [hrun, Expected, if_pos (by simp [Advancing.runningSerial, hserial]), hserial, hhist] at hexp
    obtain ⟨rest', heq⟩ := hexp
    rw [hhist, (cons.inj heq).1]
  refine ⟨?_, hmem ?_ fun x hx _ => ?_, hmem ?_ fun x hx _ => ?_, fun y hy => ?_, h.pause,
    fun _ _ _ _ hadv => ?_, hmem ?_ fun x hx hne => ?_, hmem ?_ fun x hx hne hx0 => ?_, fun n => ?_,
    fun n t' hfired => ?_⟩
  · refine pairwise_map.2 (h.distinct.imp_of_mem fun {a b} ha hb hab => ?_)
    have hfa := h.fifo_lt a ha
    have hfb := h.fifo_lt b hb
    split <;> split
    · rename_i ha' hb'
      exact absurd (ha'.trans hb'.symm) hab.1
    · rename_i ha' hb'
      rw [h.eq_of_handle ha he (ha'.trans hhandle.symm)] at hab
      exact ⟨hab.1, hfb.ne', hab.2.2⟩
    · rename_i ha' hb'
      rw [h.eq_of_handle hb he (hb'.trans hhandle.symm)] at hab
      exact ⟨hab.1, hfa.ne, hab.2.2⟩
    · exact hab
  · exact Nat.lt_succ_self _
  · exact (h.fifo_lt x hx).trans (Nat.lt_succ_self _)
  · exact h.serial_lt e he
  · exact h.serial_lt x hx
  · rcases mem_cons.1 hy with rfl | hy
    · exact hlt
    · exact h.log_lt y hy
  · cases hadv
  · refine (if_neg (by simp [Advancing.runningSerial])).mpr (.inr ?_)
    have hs : (s.rescheduled e r).serial = serial := hserial
    rw [hs, history_returned, hpast]
    exact ⟨r, e.time, e.rescheduleTime, rest, rfl, rfl, rescheduled_time h.pause r⟩
  · have hexp := h.expected x hx
    rw [hrun, Expected, if_neg (by simpa [Advancing.runningSerial] using hne.symm)] at hexp
    refine (if_neg (by simp [Advancing.runningSerial])).mpr ?_
    rw [history_returned_ne hne.symm]
    exact hexp
  · intro hzero
    have hgetD : r.getD e.rescheduleTime = 0 := hzero
    cases r with
    | none => exact absurd hgetD hloops
    | some q =>
      have hq := hpos q rfl
      rw [Option.getD_some] at hgetD
      omega
  · rw [history_returned_ne hne.symm]
    exact h.oneShot x hx hx0
  · by_cases hn : serial = n
    · have hspaced := h.spaced n
      rw [← hn, hpast] at hspaced
      rw [← hn, history_returned, hpast]
      exact hspaced
    · rw [history_returned_ne hn]
      exact h.spaced n
  · rcases mem_cons.1 hfired with heq | hold
    · cases heq
    · obtain ⟨hhist', hgone', hrun'⟩ := h.done n t' hold
      have hn : serial ≠ n := by simpa [hrun, Advancing.runningSerial] using hrun'
      rw [history_returned_ne hn]
      refine ⟨hhist', hmem ?_ fun x hx _ => hgone' x hx, by simp [Advancing.runningSerial]⟩
      exact hgone' e he

lemma Inv.step [DecidableEq τ] {a : Action τ} (h : Inv s) (hs : s.step a = some s')
    (hpos : a.positive = true) (hpause : a ≠ .unpause) : Inv s' := by
  cases step_change hs with
  | quiet hq hf hn hser hl hp ha hr =>
    refine h.quiet hq hf hn hser hl (hp hpause) ?_ hr
    rcases ha with heq | ⟨hnone, hnone'⟩
    · rw [heq]
    · rw [hnone, hnone']
  | scheduled e _ hh hf hser => exact h.scheduled hh hf hser
  | unscheduled type wait => exact h.unscheduled type _
  | firedOneShot e hc ht _ honce => exact h.firedOneShot hc (mem_top ht) honce
  | firedLooping e hc ht _ hloops => exact h.firedLooping hc (mem_top ht) hloops
  | stale type handle sequenceNum serial r hrun hchanged => exact h.stale hrun hchanged
  | rescheduled e type handle serial r hrun hfound =>
    refine h.rescheduled hrun hfound fun p hp => ?_
    subst hp
    simpa [Action.positive] using hpos

end Invariant

/-- The steps considered: reschedule times are positive and there is no pause. -/
def Action.allowed {τ : Type} [DecidableEq τ] (a : Action τ) : Bool :=
  a.positive && decide (a ≠ .unpause)

section Runs

variable {τ : Type} [DecidableEq τ] {s s' : State τ} {a : Action τ} {acts : List (Action τ)}
  {e : Event τ} {type : τ}

omit [DecidableEq τ] in
lemma Inv.initial (now : ℤ) : Inv (State.initial now : State τ) := by
  constructor <;> simp [State.initial, history, Spaced]

/-- An invariant of the allowed steps holds at the end of a run that it holds at the start of. -/
lemma run_invariant {P : State τ → Prop} {A : Action τ → Prop}
    (hstep : ∀ s a s', Inv s → P s → A a → s.step a = some s' → P s') (hinv : Inv s) (hP : P s)
    (hok : ∀ a ∈ acts, a.allowed = true ∧ A a) (hrun : s.run acts = some s') : Inv s' ∧ P s' := by
  induction acts generalizing s with
  | nil =>
    cases hrun
    exact ⟨hinv, hP⟩
  | cons a rest ih =>
    obtain ⟨s1, hs, hrest⟩ := Option.bind_eq_some_iff.1 hrun
    obtain ⟨hallowed, ha⟩ := hok a mem_cons_self
    rw [Action.allowed, Bool.and_eq_true, decide_eq_true_eq] at hallowed
    exact ih (hinv.step hs hallowed.1 hallowed.2) (hstep s a s1 hinv hP ha hs)
      (fun b hb => hok b (mem_cons_of_mem _ hb)) hrest

lemma log_mono (h : s.step a = some s') {x : Entry} (hx : x ∈ s.log) : x ∈ s'.log := by
  cases step_change h with
  | quiet _ _ _ _ hl => exact hl ▸ hx
  | scheduled | unscheduled => exact hx
  | firedOneShot | firedLooping | stale | rescheduled => exact mem_cons_of_mem _ hx

/-- The clock does not run backwards, and `Advance` reads it. -/
def Clock (s : State τ) : Prop := s.advancing ≠ .idle → s.globalTimer ≤ s.now

lemma clock_step (hc : Clock s) (h : s.step a = some s') :
    Clock s' ∧ (s.advancing ≠ .idle → s.globalTimer ≤ s'.globalTimer) := by
  have hkeep : s'.advancing = s.advancing → s'.globalTimer = s.globalTimer → s.now ≤ s'.now →
      Clock s' ∧ (s.advancing ≠ .idle → s.globalTimer ≤ s'.globalTimer) := by
    intro ha hg hn
    refine ⟨fun hidle => ?_, fun _ => hg.ge⟩
    rw [ha] at hidle
    rw [hg]
    exact (hc hidle).trans hn
  cases a with
  | tick dt =>
    cases h
    refine hkeep rfl rfl ?_
    show s.now ≤ s.now + dt
    omega
  | unpause =>
    cases h
    exact hkeep rfl rfl le_rfl
  | scheduleEvent | scheduleLoopingEvent =>
    simp only [State.step, schedule] at h
    split at h
    · cases h
      exact hkeep rfl rfl le_rfl
    · cases h
  | unscheduleEvent =>
    simp only [State.step, State.unschedule] at h
    split at h
    · cases h
      exact hkeep rfl rfl le_rfl
    · cases h
  | waited =>
    simp only [State.step] at h
    split at h
    · cases h
      exact hkeep rfl rfl le_rfl
    · cases h
  | beginAdvance =>
    simp only [State.step] at h
    split at h
    · rename_i hidle
      cases h
      exact ⟨fun _ => le_rfl, fun hne => absurd hidle hne⟩
    · cases h
  | loop =>
    simp only [State.step] at h
    split at h
    · rename_i hcheck
      cases h
      have hle : s.globalTimer ≤ s.now := hc (by simp [hcheck])
      unfold fire
      split
      · exact ⟨fun hidle => absurd rfl hidle, fun _ => le_rfl⟩
      · dsimp only
        split_ifs <;> exact ⟨fun _ => hle, fun _ => le_rfl⟩
    · cases h
  | callbackReturns r =>
    simp only [State.step, State.afterCallback] at h
    split at h
    · cases h
    · cases h
    · rename_i hadv
      cases h
      exact ⟨fun _ => le_rfl, fun hne => hc hne⟩
    · rename_i hadv
      have hle : s.globalTimer ≤ s.now := hc (by simp [hadv])
      split at h
      · cases h
        exact ⟨fun _ => hle, fun _ => le_rfl⟩
      · obtain ⟨x, -, rfl⟩ := Option.map_eq_some_iff.1 h
        exact ⟨fun _ => le_rfl, fun _ => hle⟩

/-- The event is in the queue while an `Advance` that has seen its time is under way. -/
def Due (e : Event τ) (s : State τ) : Prop :=
  e ∈ s.eventQueue ∧ s.advancing ≠ .idle ∧ e.time ≤ s.globalTimer

lemma due_step (hinv : Inv s) (hc : Clock s) (honce : e.rescheduleTime = 0) (hdue : Due e s)
    (ha : a.unschedules e.type = false) (h : s.step a = some s') :
    Due e s' ∨ .fired e.serial e.time 0 ∈ s'.log := by
  obtain ⟨he, hadv, htime⟩ := hdue
  have htime' : e.time ≤ s'.globalTimer := htime.trans ((clock_step hc h).2 hadv)
  cases step_change h with
  | quiet hq _ _ _ _ _ _ _ hidle =>
    refine .inl ⟨hq ▸ he, fun hs => ?_, htime'⟩
    rcases hidle hs with hidle | ⟨-, hall⟩
    · exact hadv hidle
    · exact absurd htime (not_le.2 (hall e he))
  | scheduled => exact .inl ⟨mem_cons_of_mem _ he, hadv, htime'⟩
  | unscheduled type wait =>
    have hne : type ≠ e.type := by simpa [Action.unschedules] using ha
    exact .inl ⟨mem_filter.2 ⟨he, by simpa using hne.symm⟩, hadv, htime'⟩
  | firedOneShot x hcheck htop _ hx0 =>
    by_cases hx : x = e
    · subst hx
      rw [hx0]
      exact .inr mem_cons_self
    · refine .inl ⟨mem_filter.2 ⟨he, ?_⟩, by simp, htime'⟩
      simpa using (hinv.apart he (mem_top htop) (Ne.symm hx)).1
  | firedLooping => exact .inl ⟨he, by simp, htime'⟩
  | stale => exact .inl ⟨he, by simp, htime'⟩
  | rescheduled x type handle serial r hrun hfound =>
    obtain ⟨y, hy, hyh, -, -, hloops⟩ := (hinv.running _ _ _ _ hrun).2.2.2.1 rfl
    have hne : e.handle ≠ handle := fun heq => by
      rw [← hinv.eq_of_handle he hy (heq.trans hyh.symm)] at hloops
      exact hloops honce
    exact .inl ⟨mem_map.2 ⟨e, he, if_neg hne⟩, by simp, htime'⟩

def Looping (n : ℕ) (type : τ) (s : State τ) : Prop :=
  ∃ e ∈ s.eventQueue, e.serial = n ∧ e.type = type ∧ e.rescheduleTime ≠ 0

lemma looping_step {n : ℕ} (hinv : Inv s) (hl : Looping n type s) (hpos : a.positive = true)
    (ha : a.unschedules type = false) (h : s.step a = some s') : Looping n type s' := by
  obtain ⟨e, he, hn, ht, hloops⟩ := hl
  cases step_change h with
  | quiet hq => exact ⟨e, hq ▸ he, hn, ht, hloops⟩
  | scheduled => exact ⟨e, mem_cons_of_mem _ he, hn, ht, hloops⟩
  | unscheduled type' wait =>
    have hne : type' ≠ type := by simpa [Action.unschedules] using ha
    exact ⟨e, mem_filter.2 ⟨he, by simpa [ht] using hne.symm⟩, hn, ht, hloops⟩
  | firedOneShot x hcheck htop _ hx0 =>
    refine ⟨e, mem_filter.2 ⟨he, ?_⟩, hn, ht, hloops⟩
    have hne : e ≠ x := fun heq => hloops (heq ▸ hx0)
    simpa using (hinv.apart he (mem_top htop) hne).1
  | firedLooping => exact ⟨e, he, hn, ht, hloops⟩
  | stale => exact ⟨e, he, hn, ht, hloops⟩
  | rescheduled x type' handle serial r hrun hfound =>
    by_cases heq : e.handle = handle
    · have hx : x ∈ s.eventQueue := mem_of_find?_eq_some hfound
      have hxh : x.handle = handle := by simpa using find?_some hfound
      have hex := hinv.eq_of_handle he hx (heq.trans hxh.symm)
      subst hex
      refine ⟨s.rescheduled e r, mem_map.2 ⟨e, he, if_pos heq⟩, hn, ht, ?_⟩
      show r.getD e.rescheduleTime ≠ 0
      cases r with
      | none => exact hloops
      | some p =>
        have hp : 0 < p := by simpa [Action.positive] using hpos
        exact hp.ne'
    · exact ⟨e, mem_map.2 ⟨e, he, if_neg heq⟩, hn, ht, hloops⟩

def Gone (type : τ) (s : State τ) : Prop := ∀ e ∈ s.eventQueue, e.type ≠ type

lemma gone_step (hg : Gone type s) (ha : a.schedules type = false) (h : s.step a = some s') :
    Gone type s' := by
  cases step_change h with
  | quiet hq => exact fun e he => hg e (hq ▸ he)
  | scheduled x _ _ _ _ hx =>
    intro e he
    rcases mem_cons.1 he with rfl | he
    · rintro rfl
      rw [hx] at ha
      cases ha
    · exact hg e he
  | unscheduled => exact fun e he => hg e (mem_filter.1 he).1
  | firedOneShot => exact fun e he => hg e (mem_filter.1 he).1
  | firedLooping => exact hg
  | stale => exact hg
  | rescheduled x type' handle serial r hrun hfound =>
    intro e he
    obtain ⟨y, hy, rfl⟩ := mem_map.1 he
    split
    · exact hg x (mem_of_find?_eq_some hfound)
    · exact hg y hy

lemma not_running_step (hg : Gone type s) (hr : s.advancing.running ≠ some type)
    (h : s.step a = some s') : s'.advancing.running ≠ some type := by
  cases step_change h with
  | quiet _ _ _ _ _ _ _ hrun =>
    intro hs
    rw [hrun (by simp [hs])] at hs
    exact hr hs
  | scheduled => exact hr
  | unscheduled => exact hr
  | firedOneShot e _ htop =>
    simpa [Advancing.running] using hg e (mem_top htop)
  | firedLooping e _ htop =>
    simpa [Advancing.running] using hg e (mem_top htop)
  | stale => simp [Advancing.running]
  | rescheduled => simp [Advancing.running]

lemma loop_spec (h : s.step .loop = some s') : s'.advancing = .idle ∨
    ∃ e, s.top = some e ∧ e.time ≤ s.globalTimer ∧ s'.log = .fired e.serial e.time e.rescheduleTime :: s.log := by
  simp only [State.step] at h
  split at h
  · cases h
    unfold fire
    split
    · exact .inl rfl
    · rename_i e htop
      split_ifs with hdue
      · exact .inr ⟨e, htop, hdue, rfl⟩
      · exact .inr ⟨e, htop, hdue, rfl⟩
      · exact .inl rfl
  · cases h

omit [DecidableEq τ] in
lemma Inv.key_lt (hinv : Inv s) (htop : s.top = some e) {x : Event τ} (hx : x ∈ s.eventQueue)
    (hne : x ≠ e) : e.key < x.key := by
  refine (key_top_le htop hx).lt_of_ne fun heq => ?_
  have hfifo : e.fifoOrder = x.fifoOrder := congrArg (fun k => (ofLex k).2) heq
  exact (hinv.apart (mem_top htop) hx (Ne.symm hne)).2.1 hfifo

lemma countP_history (n : ℕ) (log : List Entry) : log.countP (·.firedBy n) = (history n log).countP (·.firedBy n) := by
  rw [history, countP_filter]
  refine countP_congr fun x _ => ?_
  cases x <;> simp [Entry.firedBy, Entry.serial]

lemma Spaced.tail : ∀ {x : Entry} {l : List Entry}, Spaced (x :: l) → Spaced l
  | .fired _ _ _, [], _ => trivial
  | .fired _ _ _, [.returned _ _], h => h.elim
  | .fired _ _ _, .returned _ _ :: .fired _ _ _ :: _, h => h.2.2
  | .fired _ _ _, .returned _ _ :: .returned _ _ :: _, h => h.elim
  | .fired _ _ _, .fired _ _ _ :: _, h => h.elim
  | .returned _ _, [], _ => trivial
  | .returned _ _, .fired _ _ _ :: _, h => h
  | .returned _ _, .returned _ _ :: _, h => h.elim

lemma Spaced.of_append {l l' : List Entry} (h : Spaced (l ++ l')) : Spaced l' := by
  induction l with
  | nil => exact h
  | cons x l ih => exact ih h.tail

lemma Spaced.between {n : ℕ} {t1 p1 t2 p2 : ℤ} {mid rest : List Entry}
    (h : Spaced (.fired n t2 p2 :: (mid ++ .fired n t1 p1 :: rest)))
    (hmid : ∀ x ∈ mid, x.serial = n ∧ x.firedBy n = false) :
    ∃ r, mid = [.returned n r] ∧ p2 = r.getD p1 ∧ t2 = max t1 0 + p2 := by
  match mid with
  | [] => exact h.elim
  | .fired m t p :: _ =>
    obtain ⟨hm, hf⟩ := hmid _ mem_cons_self
    simp only [Entry.serial] at hm
    simp [Entry.firedBy, hm] at hf
  | [.returned m r] =>
    have hm : m = n := (hmid _ mem_cons_self).1
    subst hm
    exact ⟨r, rfl, h.1, h.2.1⟩
  | .returned m r :: .returned m' r' :: _ => exact h.elim
  | .returned m r :: .fired m' t p :: _ =>
    obtain ⟨hm, hf⟩ := hmid (.fired m' t p) (by simp)
    simp only [Entry.serial] at hm
    simp [Entry.firedBy, hm] at hf

end Runs

/-- **Exact timing** in a state and in everything that follows it. -/
structure Exact {τ : Type} [DecidableEq τ] (s : State τ) : Prop where
  /-- `Advance` fires the least event of the queue by time and fifo order, and that event is due. -/
  least : ∀ s', s.step .loop = some s' → s'.advancing ≠ .idle →
    ∃ e ∈ s.eventQueue, e.time ≤ s.globalTimer ∧ (∀ x ∈ s.eventQueue, x ≠ e → e.key < x.key) ∧
      s'.log = .fired e.serial e.time e.rescheduleTime :: s.log
  /-- A one-shot event fires at most once. -/
  once : ∀ n t, .fired n t 0 ∈ s.log → s.log.countP (·.firedBy n) = 1
  /-- A one-shot event is fired before an `Advance` that has seen its time returns. -/
  deadline : ∀ e ∈ s.eventQueue, e.rescheduleTime = 0 → s.advancing = .check →
    e.time ≤ s.globalTimer → ∀ acts s', s.run acts = some s' →
    (∀ a ∈ acts, a.allowed = true ∧ a.unschedules e.type = false) → s'.advancing = .idle →
    .fired e.serial e.time 0 ∈ s'.log
  /-- Consecutive firings of an event are its current period apart; the callback that returned between them may have
  replaced the period.  A firing before time zero counts as one at time zero. -/
  period : ∀ n t1 p1 t2 p2 new mid old, s.log = new ++ .fired n t2 p2 :: (mid ++ .fired n t1 p1 :: old) →
    (∀ x ∈ mid, x.firedBy n = false) →
    ∃ r, mid.filter (·.serial == n) = [.returned n r] ∧ p2 = r.getD p1 ∧ t2 = max t1 0 + p2
  /-- A looping event is in the queue exactly once until its type is unscheduled. -/
  inQueue : ∀ e ∈ s.eventQueue, e.rescheduleTime ≠ 0 → ∀ acts s', s.run acts = some s' →
    (∀ a ∈ acts, a.allowed = true ∧ a.unschedules e.type = false) →
    s'.eventQueue.countP (·.serial == e.serial) = 1
  /-- The handle that `Advance` uses behind a callback is valid. -/
  valid : ∀ type handle sequenceNum serial, s.advancing = .looping type handle sequenceNum serial →
    ∀ r, (s.step (.callbackReturns r)).isSome = true
  /-- After `UnscheduleEvent` with `Wait` no callback of the type is running or starts, unless the type is scheduled
  again. -/
  waited : ∀ type call s1 acts s2 s3 acts' s4,
    s.step (.unscheduleEvent type (some call)) = some s1 → s1.run acts = some s2 →
    s2.step (.waited call) = some s3 → s3.run acts' = some s4 →
    (∀ a ∈ acts ++ acts', a.allowed = true ∧ a.schedules type = false) →
    s4.advancing.running ≠ some type

section Exactness

variable {τ : Type} [DecidableEq τ] {s : State τ}

lemma Inv.least (hinv : Inv s) : ∀ s', s.step .loop = some s' → s'.advancing ≠ .idle →
    ∃ e ∈ s.eventQueue, e.time ≤ s.globalTimer ∧ (∀ x ∈ s.eventQueue, x ≠ e → e.key < x.key) ∧
      s'.log = .fired e.serial e.time e.rescheduleTime :: s.log := by
  intro s' hstep hidle
  obtain ⟨e, htop, hdue, hlog⟩ := (loop_spec hstep).resolve_left hidle
  exact ⟨e, mem_top htop, hdue, fun x hx hne => hinv.key_lt htop hx hne, hlog⟩

omit [DecidableEq τ] in
lemma Inv.once (hinv : Inv s) : ∀ n t, .fired n t 0 ∈ s.log → s.log.countP (·.firedBy n) = 1 := by
  intro n t hfired
  rw [countP_history, (hinv.done n t hfired).1]
  simp [Entry.firedBy]

variable {e : Event τ} {acts : List (Action τ)} {s' : State τ}

lemma Inv.deadline (hinv : Inv s) (hc : Clock s) (he : e ∈ s.eventQueue)
    (honce : e.rescheduleTime = 0) (hcheck : s.advancing = .check) (hdue : e.time ≤ s.globalTimer)
    (hrun : s.run acts = some s')
    (hok : ∀ a ∈ acts, a.allowed = true ∧ a.unschedules e.type = false)
    (hidle : s'.advancing = .idle) : .fired e.serial e.time 0 ∈ s'.log := by
  have hend := run_invariant (P := fun s => Clock s ∧ (Due e s ∨ .fired e.serial e.time 0 ∈ s.log))
    (fun s a s1 hinv hP ha hstep => ⟨(clock_step hP.1 hstep).1, ?_⟩) hinv
    ⟨hc, .inl ⟨he, by simp [hcheck], hdue⟩⟩ hok hrun
  · exact hend.2.2.resolve_left fun hd => hd.2.1 hidle
  · rcases hP.2 with hd | hfired
    · exact due_step hinv hP.1 honce hd ha hstep
    · exact .inr (log_mono hstep hfired)

omit [DecidableEq τ] in
lemma Inv.period (hinv : Inv s) {n : ℕ} {t1 p1 t2 p2 : ℤ} {new mid old : List Entry}
    (hlog : s.log = new ++ .fired n t2 p2 :: (mid ++ .fired n t1 p1 :: old))
    (hmid : ∀ x ∈ mid, x.firedBy n = false) :
    ∃ r, mid.filter (·.serial == n) = [.returned n r] ∧ p2 = r.getD p1 ∧ t2 = max t1 0 + p2 := by
  have hspaced := hinv.spaced n
  have hhist : history n s.log = history n new ++
      .fired n t2 p2 :: (history n mid ++ .fired n t1 p1 :: history n old) := by
    rw [hlog]
    simp [history, Entry.serial]
  rw [hhist] at hspaced
  refine hspaced.of_append.between fun x hx => ?_
  obtain ⟨hx, hn⟩ := mem_filter.1 hx
  exact ⟨by simpa using hn, hmid x hx⟩

omit [DecidableEq τ] in
lemma countP_serial {x : Event τ} {l : List (Event τ)} (h : l.Pairwise Event.Apart) (hx : x ∈ l) :
    l.countP (·.serial == x.serial) = 1 := by
  induction l with
  | nil => cases hx
  | cons y l ih =>
    obtain ⟨hy, hl⟩ := pairwise_cons.1 h
    rcases mem_cons.1 hx with rfl | hx
    · have hnone : l.countP (·.serial == x.serial) = 0 :=
        countP_eq_zero.2 fun z hz => by simpa using (hy z hz).2.2.symm
      rw [countP_cons_of_pos (by simp), hnone]
    · rw [countP_cons_of_neg (by simpa using (hy x hx).2.2)]
      exact ih hl hx

lemma Inv.inQueue (hinv : Inv s) (he : e ∈ s.eventQueue) (hloops : e.rescheduleTime ≠ 0) (hrun : s.run acts = some s')
    (hok : ∀ a ∈ acts, a.allowed = true ∧ a.unschedules e.type = false) :
    s'.eventQueue.countP (·.serial == e.serial) = 1 := by
  have hend := run_invariant (P := Looping e.serial e.type)
    (A := fun a => a.positive = true ∧ a.unschedules e.type = false)
    (fun s a s1 hinv hl ha hstep => looping_step hinv hl ha.1 ha.2 hstep) hinv
    ⟨e, he, rfl, rfl, hloops⟩ (fun a ha => ?_) hrun
  · obtain ⟨hinv', x, hx, hn, -, -⟩ := hend
    rw [← hn]
    exact countP_serial hinv'.distinct hx
  · obtain ⟨hallowed, hun⟩ := hok a ha
    exact ⟨hallowed, (Bool.and_eq_true_iff.1 hallowed).1, hun⟩

lemma Inv.valid (hinv : Inv s) {type : τ} {handle sequenceNum serial : ℕ}
    (hrun : s.advancing = .looping type handle sequenceNum serial) (r : Option ℤ) :
    (s.step (.callbackReturns r)).isSome = true := by
  obtain ⟨-, -, -, hfound, -⟩ := hinv.running _ _ _ _ hrun
  simp only [State.step, State.afterCallback, hrun]
  split
  · rfl
  · rename_i hsame
    obtain ⟨e, he, hhandle, -⟩ := hfound (not_not.1 hsame)
    rw [Option.isSome_map, find, find?_isSome]
    exact ⟨e, he, by simpa using hhandle⟩

lemma Inv.waited (hinv : Inv s) {type : τ} {call : ℕ} {s1 s2 s3 s4 : State τ}
    {acts' : List (Action τ)}
    (h1 : s.step (.unscheduleEvent type (some call)) = some s1) (h2 : s1.run acts = some s2)
    (h3 : s2.step (.waited call) = some s3) (h4 : s3.run acts' = some s4)
    (hok : ∀ a ∈ acts ++ acts', a.allowed = true ∧ a.schedules type = false) :
    s4.advancing.running ≠ some type := by
  -- the events of the type leave the queue
  have hinv1 : Inv s1 := hinv.step h1 rfl (by simp)
  have hgone1 : Gone type s1 := by
    simp only [State.step, State.unschedule] at h1
    split at h1
    · cases h1
      exact fun e he => by simpa using (mem_filter.1 he).2
    · cases h1
  -- none has come back when the call returns
  obtain ⟨hinv2, hgone2⟩ := run_invariant (P := Gone type)
    (fun s a s' _ hg ha hstep => gone_step hg ha hstep) hinv1 hgone1
    (fun a ha => hok a (mem_append_left _ ha)) h2
  have hinv3 : Inv s3 := hinv2.step h3 rfl (by simp)
  have hstart : Gone type s3 ∧ s3.advancing.running ≠ some type := by
    refine ⟨gone_step hgone2 rfl h3, ?_⟩
    simp only [State.step] at h3
    split at h3
    · rename_i hidle
      cases h3
      simp [hidle.2, Advancing.running]
    · cases h3
  exact (run_invariant (P := fun s => Gone type s ∧ s.advancing.running ≠ some type)
    (fun s a s' _ hg ha hstep => ⟨gone_step hg.1 ha hstep, not_running_step hg.1 hg.2 hstep⟩) hinv3
    hstart (fun a ha => hok a (mem_append_right _ ha)) h4).2.2

end Exactness

/-- **Event timing is exact** in every state that a run of allowed steps reaches. -/
theorem event_timing {τ : Type} [DecidableEq τ] (now : ℤ) {acts : List (Action τ)} {s : State τ}
    (hrun : (State.initial now).run acts = some s) (hok : ∀ a ∈ acts, a.allowed = true) :
    Exact s := by
  obtain ⟨hinv, hc⟩ := run_invariant (P := Clock) (A := fun _ => True)
    (fun s a s' _ hc _ hstep => (clock_step hc hstep).1) (Inv.initial now)
    (fun hne => absurd rfl hne) (fun a ha => ⟨hok a ha, trivial⟩) hrun
  exact ⟨hinv.least, hinv.once, fun e he honce hcheck hdue acts s' => hinv.deadline hc he honce
    hcheck hdue, fun n t₁ p₁ t₂ p₂ new mid old => hinv.period, fun e he hloops acts s' =>
    hinv.inQueue he hloops, fun type handle sequenceNum serial => hinv.valid,
    fun type call s₁ acts s₂ s₃ acts' s₄ => hinv.waited⟩

/-- A looping event whose callback replaces the period, a one-shot event behind it, and a call that waits. -/
def timingDemo : List (Action Bool) :=
  [.scheduleLoopingEvent 5 3 true true 0, .scheduleEvent 6 false true 1, .tick 9, .beginAdvance,
    .loop, .callbackReturns (some 4), .loop, .callbackReturns none, .loop,
    .unscheduleEvent true (some 0), .callbackReturns none, .loop, .waited 0]

/-- The looping event fires at five and nine, the one-shot event at six. -/
theorem event_timing_demo : ∃ s, (State.initial 0).run timingDemo = some s ∧ Exact s ∧
    s.log = [.returned 0 none, .fired 0 9 4, .fired 1 6 0, .returned 0 (some 4), .fired 0 5 3] := by
  have hlog : ((State.initial 0).run timingDemo).map (·.log) =
      some [.returned 0 none, .fired 0 9 4, .fired 1 6 0, .returned 0 (some 4), .fired 0 5 3] := by
    decide +kernel
  obtain ⟨s, hs, heq⟩ := Option.map_eq_some_iff.1 hlog
  exact ⟨s, hs, event_timing 0 hs (by decide), heq⟩

/-- A looping event that is scheduled before time zero. -/
def beforeZero : List (Action Unit) :=
  [.scheduleLoopingEvent (-5) 3 () true 0, .beginAdvance, .loop, .callbackReturns none, .loop]

/-- There was no pause, and yet the event continues from the end of one: it fires at `-5` and then at `3`, not at
`-5 + 3`. -/
theorem before_zero_skips : (∀ a ∈ beforeZero, a.allowed = true) ∧
    ((State.initial 10).run beforeZero).map (·.log) =
      some [.fired 0 3 3, .returned 0 none, .fired 0 (-5) 3] ∧ (3 : ℤ) ≠ -5 + 3 :=
  ⟨by decide, by decide +kernel, by decide⟩

end Voltemu.Core.Timing
