import Voltemu.Core.CoreTimingRuns
import Mathlib.Algebra.Order.BigOperators.Group.List
import Mathlib.Algebra.Order.Ring.Nat
import Mathlib.Data.List.Nodup

/-!
# Where `Advance` ends

One call of `CoreTiming::Advance` while the observed time does not move, as it does not in single-core mode.

* An event keeps its type by a `weak_ptr`.  `Owned` says which types have been destroyed; `Round` is one round of the
  loop, with what happens while a callback runs.
* `Callbacks` are any callbacks that return and that schedule nothing that is already due, and only positive times.
* An event that is due when its type is destroyed is neither fired nor removed, and the loop looks at it for ever:
  `advance_ends_iff`.
-/

namespace Voltemu.Core.Timing

open List

/-- `CoreTiming`, and the event types that nothing owns any more. -/
structure Owned (τ : Type) where
  timing : State τ
  destroyed : τ → Bool

section Advance

variable {τ : Type} [DecidableEq τ]

/-- What happens while a callback runs.  A type that is scheduled or unscheduled has an owner; nothing is scheduled that
is already due. -/
inductive Act (w : Owned τ) : Owned τ → Prop
  | schedule {ns reschedTime : ℤ} {type : τ} {absoluteTime : Bool} {handle : ℕ} {s : State τ}
      (owned : w.destroyed type = false) (positive : 0 ≤ reschedTime)
      (later : w.timing.now < if absoluteTime then ns else w.timing.now + ns)
      (h : w.timing.schedule ns reschedTime type absoluteTime handle = some s) : Act w { w with timing := s }
  | unschedule {type : τ} {wait : Option ℕ} {s : State τ} (owned : w.destroyed type = false)
      (h : w.timing.unschedule type wait = some s) : Act w { w with timing := s }
  | unpause : Act w { w with timing := { w.timing with pauseEndTime := w.timing.now } }
  | destroy (type : τ) : Act w { w with destroyed := Function.update w.destroyed type true }

/-- The callbacks: what the one of an event may do, and the schedule time that it returns. -/
structure Callbacks (τ : Type) [DecidableEq τ] where
  runs : Owned τ → Event τ → Owned τ → Option ℤ → Prop
  acts : ∀ {w e w' r}, runs w e w' r → Relation.ReflTransGen Act w w'
  positive : ∀ {w e w' t}, runs w e w' (some t) → 0 < t
  returns : ∀ w e, ∃ w' r, runs w e w' r

/-- **One round of the loop of `Advance`.** -/
inductive Round (c : Callbacks τ) (w : Owned τ) : Owned τ → Prop
  /-- `evt.type.lock()` gives nothing. -/
  | expired {evt : Event τ} (top : w.timing.top = some evt) (due : evt.time ≤ w.timing.globalTimer)
      (gone : w.destroyed evt.type = true) :
      Round c w { w with timing := { w.timing with globalTimer := w.timing.now } }
  /-- The callback is called, and the loop goes on behind it. -/
  | fired {evt : Event τ} {w' : Owned τ} {r : Option ℤ} {s : State τ} (top : w.timing.top = some evt)
      (due : evt.time ≤ w.timing.globalTimer) (owned : w.destroyed evt.type = false)
      (runs : c.runs { w with timing := w.timing.fire } evt w' r) (behind : w'.timing.afterCallback r = some s) :
      Round c w { w' with timing := s }

/-- At the head of the loop: the observed time has been read. -/
structure AtHead (w : Owned τ) : Prop where
  check : w.timing.advancing = .check
  observed : w.timing.globalTimer = w.timing.now
  handles : (w.timing.eventQueue.map (·.handle)).Nodup
  positive : ∀ e ∈ w.timing.eventQueue, 0 ≤ e.rescheduleTime

/-- **`Advance` ends**, whatever the callbacks do, and leaves nothing in the queue that is due. -/
structure Ends (c : Callbacks τ) (w : Owned τ) : Prop where
  ends : Acc (fun b a => Round c a b) w
  leaves : ∀ w', Relation.ReflTransGen (Round c) w w' → (¬∃ w'', Round c w' w'') →
    ∀ e ∈ w'.timing.eventQueue, w.timing.now < e.time

/-- Whenever the loop comes to its head, nothing that is due is of a destroyed type. -/
def NoneExpired (c : Callbacks τ) (w : Owned τ) : Prop :=
  ∀ w', Relation.ReflTransGen (Round c) w w' →
    ∀ e ∈ w'.timing.eventQueue, e.time ≤ w.timing.now → w'.destroyed e.type = false

/-! ## While a callback runs -/

def Event.lateness (now : ℤ) (e : Event τ) : ℕ := (now + 1 - e.time).toNat

def lateness (now : ℤ) (q : List (Event τ)) : ℕ := (q.map (Event.lateness now)).sum

def dueEvents (now : ℤ) (q : List (Event τ)) : List (Event τ) := q.filter (·.time ≤ now)

structure Acted (w w' : Owned τ) : Prop where
  now : w'.timing.now = w.timing.now
  globalTimer : w'.timing.globalTimer = w.timing.globalTimer
  advancing : w'.timing.advancing = w.timing.advancing
  handles : (w.timing.eventQueue.map (·.handle)).Nodup → (w'.timing.eventQueue.map (·.handle)).Nodup
  positive : (∀ e ∈ w.timing.eventQueue, 0 ≤ e.rescheduleTime) → ∀ e ∈ w'.timing.eventQueue, 0 ≤ e.rescheduleTime
  sequence : ∀ type, w.timing.sequenceNumber type ≤ w'.timing.sequenceNumber type
  /-- Only what is unscheduled leaves the queue. -/
  kept : ∀ e ∈ w.timing.eventQueue, e ∈ w'.timing.eventQueue ∨
    w.destroyed e.type = false ∧ w.timing.sequenceNumber e.type < w'.timing.sequenceNumber e.type
  /-- Nothing that is due is new, and what was unscheduled is not there. -/
  due : (dueEvents w.timing.now w'.timing.eventQueue).Sublist (dueEvents w.timing.now w.timing.eventQueue)
  stale : ∀ e ∈ dueEvents w.timing.now w'.timing.eventQueue,
    w'.timing.sequenceNumber e.type = w.timing.sequenceNumber e.type
  destroyed : ∀ type, w.destroyed type = true → w'.destroyed type = true

omit [DecidableEq τ] in
lemma Acted.refl (w : Owned τ) : Acted w w :=
  ⟨rfl, rfl, rfl, id, id, fun _ => le_refl _, fun _ he => .inl he, .refl _, fun _ _ => rfl, fun _ => id⟩

omit [DecidableEq τ] in
lemma Acted.trans {w₁ w₂ w3 : Owned τ} (h : Acted w₁ w₂) (h' : Acted w₂ w3) : Acted w₁ w3 where
  now := h'.now.trans h.now
  globalTimer := h'.globalTimer.trans h.globalTimer
  advancing := h'.advancing.trans h.advancing
  handles hn := h'.handles (h.handles hn)
  positive hp := h'.positive (h.positive hp)
  sequence type := (h.sequence type).trans (h'.sequence type)
  kept e he := by
    rcases h.kept e he with hmem | ⟨howned, hlt⟩
    · rcases h'.kept e hmem with hmem' | ⟨howned, hlt⟩
      · exact .inl hmem'
      · refine .inr ⟨?_, (h.sequence _).trans_lt hlt⟩
        by_contra hgone
        rw [h.destroyed _ (by simpa using hgone)] at howned
        simp at howned
    · exact .inr ⟨howned, hlt.trans_le (h'.sequence _)⟩
  due := by
    have hdue := h'.due
    rw [h.now] at hdue
    exact hdue.trans h.due
  stale e he := by
    have hdue := h'.due
    have hstale := h'.stale e
    rw [h.now] at hdue hstale
    exact (hstale he).trans (h.stale e (hdue.subset he))
  destroyed type hd := h'.destroyed type (h.destroyed type hd)

omit [DecidableEq τ] in
lemma lateness_cons (now : ℤ) (e : Event τ) (q : List (Event τ)) :
    lateness now (e :: q) = e.lateness now + lateness now q := by
  simp [lateness]

omit [DecidableEq τ] in
lemma lateness_due (now : ℤ) (q : List (Event τ)) : lateness now (dueEvents now q) = lateness now q := by
  induction q with
  | nil => rfl
  | cons e q ih =>
    rw [dueEvents, lateness_cons]
    by_cases he : e.time ≤ now
    · rw [filter_cons_of_pos (by simpa using he), lateness_cons]
      exact congrArg (e.lateness now + ·) ih
    · have hzero : e.lateness now = 0 := by
        rw [Event.lateness]
        omega
      rw [hzero, zero_add, filter_cons_of_neg (by simpa using he)]
      exact ih

variable {now : ℤ}

omit [DecidableEq τ] in
lemma dueEvents_cons_of_later {e : Event τ} (h : now < e.time) (q : List (Event τ)) :
    dueEvents now (e :: q) = dueEvents now q :=
  filter_cons_of_neg (by simpa using h)

variable {s s' : State τ} {type : τ}

lemma schedule_eq {ns reschedTime : ℤ} {absolute : Bool} {handle : ℕ}
    (h : s.schedule ns reschedTime type absolute handle = some s') :
    handle ∉ s.eventQueue.map (·.handle) ∧ s' = { s with
      eventQueue := ⟨if absolute then ns else s.now + ns, s.eventFifoId, type, reschedTime, handle, s.serials⟩ ::
        s.eventQueue
      eventFifoId := s.eventFifoId + 1
      serials := s.serials + 1 } := by
  unfold State.schedule at h
  split at h
  · rename_i hfree
    rw [Bool.and_eq_true, Bool.not_eq_true', contains_eq_mem, decide_eq_false_iff_not] at hfree
    exact ⟨hfree.2, (Option.some.inj h).symm⟩
  · cases h

lemma unschedule_eq {wait : Option ℕ} (h : s.unschedule type wait = some s') :
    s' = { s with
      eventQueue := s.eventQueue.filter (·.type ≠ type)
      sequenceNumber := Function.update s.sequenceNumber type (s.sequenceNumber type + 1)
      waiting := wait.toList ++ s.waiting } := by
  unfold State.unschedule at h
  split at h
  · exact (Option.some.inj h).symm
  · cases h

lemma act_acted {w w' : Owned τ} (h : Act w w') : Acted w w' := by
  cases h with
  | @schedule ns reschedTime type absolute handle s owned positive later h =>
    obtain ⟨hhandle, rfl⟩ := schedule_eq h
    refine ⟨rfl, rfl, rfl, fun hn => nodup_cons.2 ⟨hhandle, hn⟩, fun hp e he => ?_,
      fun _ => le_refl _, fun e he => .inl (mem_cons_of_mem _ he), ?_, fun _ _ => rfl, fun _ => id⟩
    · rcases mem_cons.1 he with rfl | he
      · exact positive
      · exact hp e he
    · change (dueEvents w.timing.now (_ :: w.timing.eventQueue)).Sublist _
      rw [dueEvents_cons_of_later later]
  | @unschedule type wait s owned h =>
    rw [unschedule_eq h]
    refine ⟨rfl, rfl, rfl, fun hn => hn.sublist (filter_sublist.map _),
      fun hp e he => hp e (mem_of_mem_filter he), fun t => ?_, fun e he => ?_,
      filter_sublist.filter _, fun e he => ?_, fun _ => id⟩
    · by_cases ht : t = type
      · subst ht
        simp
      · simp [ht]
    · by_cases ht : e.type = type
      · exact .inr ⟨ht ▸ owned, by simp [ht]⟩
      · exact .inl (mem_filter.2 ⟨he, by simpa using ht⟩)
    · have ht := (mem_filter.1 (mem_of_mem_filter he)).2
      exact Function.update_of_ne (by simpa using ht) _ _
  | unpause =>
    exact ⟨rfl, rfl, rfl, id, id, fun _ => le_refl _, fun _ he => .inl he, .refl _, fun _ _ => rfl, fun _ => id⟩
  | destroy type =>
    refine ⟨rfl, rfl, rfl, id, id, fun _ => le_refl _, fun _ he => .inl he, .refl _, fun _ _ => rfl,
      fun t ht => ?_⟩
    by_cases htt : t = type
    · simp [htt]
    · simpa [htt] using ht

lemma acts_acted {w w' : Owned τ} (h : Relation.ReflTransGen Act w w') : Acted w w' := by
  induction h with
  | refl => exact .refl w
  | tail _ hact ih => exact ih.trans (act_acted hact)

/-! ## One round -/

variable {c : Callbacks τ} {w w' : Owned τ}

omit [DecidableEq τ] in
lemma Acted.stays (h : Acted w w') {x : Event τ} (hx : x ∈ w.timing.eventQueue)
    (hgone : w.destroyed x.type = true) : x ∈ w'.timing.eventQueue ∧ w'.destroyed x.type = true := by
  refine ⟨(h.kept x hx).resolve_right fun hlt => ?_, h.destroyed _ hgone⟩
  rw [hlt.1] at hgone
  simp at hgone

omit [DecidableEq τ] in
lemma AtHead.handle_ne (hw : AtHead w) {e x : Event τ} (he : e ∈ w.timing.eventQueue)
    (howned : w.destroyed e.type = false) (hx : x ∈ w.timing.eventQueue) (hgone : w.destroyed x.type = true) :
    x.handle ≠ e.handle := by
  intro hhandle
  rw [inj_on_of_nodup_map hw.handles hx he hhandle, howned] at hgone
  simp at hgone

omit [DecidableEq τ] in
/-- Moving one event on makes the queue less late. -/
lemma lateness_map_lt {q : List (Event τ)} {e e' : Event τ} (he : e ∈ q)
    (hnodup : (q.map (·.handle)).Nodup) (hlt : e'.lateness now < e.lateness now) :
    lateness now (q.map fun x => if x.handle = e.handle then e' else x) < lateness now q := by
  rw [lateness, map_map]
  refine sum_lt_sum _ _ (fun x hx => ?_) ⟨e, he, by simpa using hlt⟩
  by_cases hhandle : x.handle = e.handle
  · have hxe : x = e := inj_on_of_nodup_map hnodup hx he hhandle
    simpa [hxe] using hlt.le
  · simp [hhandle]

variable {e : Event τ}

lemma lateness_lt_of_missing {q q' : List (Event τ)} (he : e ∈ q) (hdue : e.time ≤ now)
    (hsub : (dueEvents now q').Sublist (dueEvents now q)) (hmissing : e ∉ q') : lateness now q' < lateness now q := by
  have hmem : e ∈ dueEvents now q := mem_filter.2 ⟨he, by simpa using hdue⟩
  have hnot : e ∉ dueEvents now q' := fun h => hmissing (mem_of_mem_filter h)
  have herase : (dueEvents now q').Sublist ((dueEvents now q).erase e) := by
    have := hsub.erase e
    rwa [erase_of_not_mem hnot] at this
  have hle : lateness now (dueEvents now q') ≤ lateness now ((dueEvents now q).erase e) :=
    (herase.map _).sum_le_sum fun _ _ => Nat.zero_le _
  have hsum : e.lateness now + lateness now ((dueEvents now q).erase e) = lateness now (dueEvents now q) :=
    sum_map_erase (Event.lateness now) hmem
  have hpos : 0 < e.lateness now := by
    rw [Event.lateness]
    omega
  rw [← lateness_due now q, ← lateness_due now q']
  omega

omit [DecidableEq τ] in
lemma find_handle {e : Event τ} (hnodup : (s.eventQueue.map (·.handle)).Nodup)
    (he : e ∈ s.eventQueue) : s.find e.handle = some e := by
  cases hfind : s.find e.handle with
  | none =>
    have := find?_eq_none.1 hfind e he
    simp at this
  | some x =>
    have hhandle : x.handle = e.handle := by simpa using find?_some hfind
    rw [inj_on_of_nodup_map hnodup (mem_of_find?_eq_some hfind) he hhandle]

omit [DecidableEq τ] in
lemma fire_eq {e : Event τ} (htop : s.top = some e) (hdue : e.time ≤ s.globalTimer) :
    s.fire = { s with
      eventQueue := if e.rescheduleTime = 0 then s.eventQueue.filter (·.handle ≠ e.handle) else s.eventQueue
      advancing := if e.rescheduleTime = 0 then .oneShot e.type
        else .looping e.type e.handle (s.sequenceNumber e.type) e.serial
      log := .fired e.serial e.time e.rescheduleTime :: s.log } := by
  unfold State.fire
  simp only [htop, if_pos hdue]
  split_ifs <;> rfl

structure Rounded (w w' : Owned τ) : Prop where
  head : AtHead w'
  now : w'.timing.now = w.timing.now
  /-- An event of a destroyed type stays. -/
  stays : ∀ e ∈ w.timing.eventQueue, w.destroyed e.type = true → e ∈ w'.timing.eventQueue ∧ w'.destroyed e.type = true
  late : lateness w.timing.now w'.timing.eventQueue < lateness w.timing.now w.timing.eventQueue

lemma rounded_oneShot (hw : AtHead w) (htop : w.timing.top = some e)
    (hdue : e.time ≤ w.timing.globalTimer) (howned : w.destroyed e.type = false) (honce : e.rescheduleTime = 0)
    (hacted : Acted { w with timing := w.timing.fire } w') (r : Option ℤ) :
    ∃ s, w'.timing.afterCallback r = some s ∧ Rounded w { w' with timing := s } := by
  have hfire := fire_eq htop hdue
  simp only [if_pos honce] at hfire
  rw [hfire] at hacted
  have hadv : w'.timing.advancing = .oneShot e.type := hacted.advancing
  have he : e ∈ w.timing.eventQueue := mem_top htop
  rw [hw.observed] at hdue
  refine ⟨{ w'.timing with advancing := .check, globalTimer := w'.timing.now },
    by simp only [State.afterCallback, hadv], ⟨rfl, rfl, ?_, ?_⟩, hacted.now, ?_, ?_⟩
  · exact hacted.handles (hw.handles.sublist (filter_sublist.map _))
  · exact hacted.positive fun x hx => hw.positive x (mem_of_mem_filter hx)
  · intro x hx hgone
    have hne := hw.handle_ne he howned hx hgone
    exact hacted.stays (mem_filter.2 ⟨hx, by simpa using hne⟩) hgone
  · refine lateness_lt_of_missing he hdue (hacted.due.trans (filter_sublist.filter _)) fun hmem => ?_
    have hsub := hacted.due.subset (mem_filter.2 ⟨hmem, by simpa using hdue⟩)
    simpa using (mem_filter.1 (mem_of_mem_filter hsub)).2

omit [DecidableEq τ] in
lemma lateness_rescheduled {e : Event τ} {r : Option ℤ} (hdue : e.time ≤ s.now)
    (hpositive : 0 < e.rescheduleTime) (hr : ∀ t, r = some t → 0 < t) :
    (s.rescheduled e r).lateness s.now < e.lateness s.now := by
  have hnext : 0 < r.getD e.rescheduleTime := by
    cases r with
    | none => exact hpositive
    | some t => exact hr t rfl
  have htime : e.time < (s.rescheduled e r).time := by
    simp only [State.rescheduled]
    split_ifs <;> omega
  rw [Event.lateness, Event.lateness]
  omega

lemma rounded_looping (hw : AtHead w) (htop : w.timing.top = some e)
    (hdue : e.time ≤ w.timing.globalTimer) (howned : w.destroyed e.type = false) (hloops : e.rescheduleTime ≠ 0)
    (hacted : Acted { w with timing := w.timing.fire } w') {r : Option ℤ} (hr : ∀ t, r = some t → 0 < t) :
    ∃ s, w'.timing.afterCallback r = some s ∧ Rounded w { w' with timing := s } := by
  have hfire := fire_eq htop hdue
  simp only [if_neg hloops] at hfire
  rw [hfire] at hacted
  have hadv : w'.timing.advancing = .looping e.type e.handle (w.timing.sequenceNumber e.type) e.serial := hacted.advancing
  have he : e ∈ w.timing.eventQueue := mem_top htop
  rw [hw.observed] at hdue
  have hnow : w'.timing.now = w.timing.now := hacted.now
  have hhandles := hacted.handles hw.handles
  have hpositive := hacted.positive hw.positive
  by_cases hsequence : w.timing.sequenceNumber e.type = w'.timing.sequenceNumber e.type
  · -- nothing unscheduled the type, and the handle is that of the event
    have hmem : e ∈ w'.timing.eventQueue := by
      refine (hacted.kept e he).resolve_right fun hlt => ?_
      have : w.timing.sequenceNumber e.type < w'.timing.sequenceNumber e.type := hlt.2
      omega
    have hlate := lateness_rescheduled (s := w'.timing) (hnow ▸ hdue)
      (lt_of_le_of_ne (hw.positive e he) (Ne.symm hloops)) hr
    rw [hnow] at hlate
    refine ⟨{ w'.timing with
      eventQueue := w'.timing.eventQueue.map fun x =>
        if x.handle = e.handle then w'.timing.rescheduled e r else x
      eventFifoId := w'.timing.eventFifoId + 1
      advancing := .check
      globalTimer := w'.timing.now
      log := .returned e.serial r :: w'.timing.log }, ?_, ⟨rfl, rfl, ?_, ?_⟩, hnow, ?_, ?_⟩
    · simp only [State.afterCallback, hadv, hsequence, ne_eq, not_true, if_false, find_handle hhandles hmem,
        Option.map_some]
    · have hsame : (w'.timing.eventQueue.map fun x =>
          if x.handle = e.handle then w'.timing.rescheduled e r else x).map (·.handle) =
          w'.timing.eventQueue.map (·.handle) := by
        rw [map_map]
        refine map_congr_left fun x _ => ?_
        by_cases hx : x.handle = e.handle
        · simp [hx, State.rescheduled]
        · simp [hx]
      change (map _ (map _ _)).Nodup
      rwa [hsame]
    · intro x hx
      obtain ⟨y, hy, rfl⟩ := mem_map.1 hx
      split_ifs
      · cases r with
        | none => exact hw.positive e he
        | some t => exact (hr t rfl).le
      · exact hpositive y hy
    · intro x hx hgone
      obtain ⟨hx', hgone'⟩ := hacted.stays hx hgone
      have hne := hw.handle_ne he howned hx hgone
      exact ⟨mem_map.2 ⟨x, hx', by simp [hne]⟩, hgone'⟩
    · have hlt := lateness_map_lt hmem hhandles hlate
      have hle : lateness w.timing.now w'.timing.eventQueue ≤ lateness w.timing.now w.timing.eventQueue := by
        rw [← lateness_due, ← lateness_due _ w.timing.eventQueue]
        exact (hacted.due.map _).sum_le_sum fun _ _ => Nat.zero_le _
      exact hlt.trans_le hle
  · refine ⟨{ w'.timing with advancing := .check, log := .returned e.serial r :: w'.timing.log },
      by simp only [State.afterCallback, hadv, ne_eq, hsequence, not_false_iff, if_true],
      ⟨rfl, ?_, hhandles, hpositive⟩, hnow, fun x hx => hacted.stays hx, ?_⟩
    · -- the timer is not read again
      change w'.timing.globalTimer = w'.timing.now
      rw [hnow, ← hw.observed]
      exact hacted.globalTimer
    · refine lateness_lt_of_missing he hdue hacted.due fun hmem => hsequence ?_
      exact (hacted.stale e (mem_filter.2 ⟨hmem, by simpa using hdue⟩)).symm

/-- **What a round does**: it makes the queue less late, or comes to an event of a destroyed type and does nothing. -/
lemma Round.rounded (hw : AtHead w) (h : Round c w w') :
    Rounded w w' ∨ w' = w ∧ ∃ e ∈ w.timing.eventQueue, e.time ≤ w.timing.now ∧ w.destroyed e.type = true := by
  cases h with
  | @expired e htop hdue hgone =>
    have hsame : ({ w.timing with globalTimer := w.timing.now } : State τ) = w.timing := by
      rw [← hw.observed]
    exact .inr ⟨by rw [hsame], e, mem_top htop, hw.observed ▸ hdue, hgone⟩
  | @fired e w₁ r s htop hdue howned hruns hbehind =>
    have hacted := acts_acted (c.acts hruns)
    have hr : ∀ t, r = some t → 0 < t := fun t ht => c.positive (ht ▸ hruns)
    obtain ⟨s', hs', hrounded⟩ : ∃ s', w₁.timing.afterCallback r = some s' ∧ Rounded w { w₁ with timing := s' } := by
      by_cases honce : e.rescheduleTime = 0
      · exact rounded_oneShot hw htop hdue howned honce hacted r
      · exact rounded_looping hw htop hdue howned honce hacted hr
    obtain rfl : s = s' := Option.some.inj (hbehind.symm.trans hs')
    exact .inl hrounded

/-- While something is due there is another round; no callback leaves a handle behind that is not valid. -/
lemma Round.progress (hw : AtHead w) (he : e ∈ w.timing.eventQueue) (hdue : e.time ≤ w.timing.now) :
    ∃ w', Round c w w' := by
  obtain ⟨top, htop⟩ : ∃ top, w.timing.top = some top := by
    cases htop : w.timing.top with
    | none =>
      rw [argmin_eq_none.1 htop] at he
      simp at he
    | some top => exact ⟨top, rfl⟩
  have htopDue : top.time ≤ w.timing.globalTimer := by
    rw [hw.observed]
    exact (time_top_le htop he).trans hdue
  cases howned : w.destroyed top.type with
  | true => exact ⟨_, .expired htop htopDue howned⟩
  | false =>
    obtain ⟨w₁, r, hruns⟩ := c.returns { w with timing := w.timing.fire } top
    have hacted := acts_acted (c.acts hruns)
    have hr : ∀ t, r = some t → 0 < t := fun t ht => c.positive (ht ▸ hruns)
    by_cases honce : top.rescheduleTime = 0
    · obtain ⟨s, hs, -⟩ := rounded_oneShot hw htop htopDue howned honce hacted r
      exact ⟨_, .fired htop htopDue howned hruns hs⟩
    · obtain ⟨s, hs, -⟩ := rounded_looping hw htop htopDue howned honce hacted hr
      exact ⟨_, .fired htop htopDue howned hruns hs⟩

/-! ## The whole call -/

lemma AtHead.reached (hw : AtHead w) (h : Relation.ReflTransGen (Round c) w w') :
    AtHead w' ∧ w'.timing.now = w.timing.now := by
  induction h with
  | refl => exact ⟨hw, rfl⟩
  | tail _ hround ih =>
    rcases hround.rounded ih.1 with hrounded | ⟨rfl, -⟩
    · exact ⟨hrounded.head, hrounded.now.trans ih.2⟩
    · exact ih

lemma not_acc_of_expired (h : Acc (fun b a => Round c a b) w) (hw : AtHead w)
    (he : e ∈ w.timing.eventQueue) (hdue : e.time ≤ w.timing.now) (hgone : w.destroyed e.type = true) : False := by
  induction h with
  | intro w _ ih =>
    obtain ⟨w', hround⟩ := Round.progress (c := c) hw he hdue
    rcases hround.rounded hw with hrounded | ⟨rfl, -⟩
    · obtain ⟨he', hgone'⟩ := hrounded.stays e he hgone
      exact ih w' hround hrounded.head he' (hrounded.now ▸ hdue) hgone'
    · exact ih w' hround hw he hdue hgone

/-- Without such an event every round makes the queue less late. -/
lemma acc_of_noneExpired (hw : AtHead w) (h : NoneExpired c w) : Acc (fun b a => Round c a b) w := by
  suffices hn : ∀ n w', Relation.ReflTransGen (Round c) w w' →
      lateness w.timing.now w'.timing.eventQueue < n → Acc (fun b a => Round c a b) w' from
    hn _ w .refl (Nat.lt_succ_self _)
  intro n
  induction n with
  | zero => exact fun _ _ hlt => absurd hlt (Nat.not_lt_zero _)
  | succ n ih =>
    intro w' hreach hlt
    obtain ⟨hw', hnow⟩ := hw.reached hreach
    refine Acc.intro w' fun w'' hround => ih w'' (hreach.tail hround) ?_
    rcases hround.rounded hw' with hrounded | ⟨-, e, he, hdue, hgone⟩
    · have hlate := hrounded.late
      rw [hnow] at hlate
      omega
    · rw [h w' hreach e he (hnow ▸ hdue)] at hgone
      simp at hgone

/-- **`Advance` ends, and leaves nothing that is due, exactly if no event is due whose type is destroyed.** -/
theorem advance_ends_iff (c : Callbacks τ) {w : Owned τ} (hw : AtHead w) : Ends c w ↔ NoneExpired c w := by
  constructor
  · intro h w' hreach e he hdue
    obtain ⟨hw', hnow⟩ := hw.reached hreach
    by_contra hgone
    have hacc : Acc (fun b a => Round c a b) w' := by
      have hends := h.ends
      clear hw' hnow hdue he hgone
      induction hreach with
      | refl => exact hends
      | tail _ hround ih => exact ih.inv hround
    exact not_acc_of_expired hacc hw' he (hnow.symm ▸ hdue) (by simpa using hgone)
  · intro h
    refine ⟨acc_of_noneExpired hw h, fun w' hreach hstuck e he => ?_⟩
    obtain ⟨hw', hnow⟩ := hw.reached hreach
    by_contra hle
    exact hstuck (Round.progress hw' he (by rw [hnow]; exact not_lt.1 hle))

end Advance

def quietCallbacks : Callbacks Unit where
  runs w _ w' r := w' = w ∧ r = none
  acts h := h.1 ▸ .refl
  positive h := by simp at h
  returns w _ := ⟨w, none, rfl, rfl⟩

/-- `Advance` is called at time 0, with a looping event that is due and one that is not. -/
def twoEvents (destroyed : Bool) : Owned Unit where
  timing :=
    { (State.initial 0 : State Unit) with
      eventQueue := [⟨-5, 0, (), 3, 0, 0⟩, ⟨7, 1, (), 0, 1, 1⟩]
      advancing := .check }
  destroyed := fun _ => destroyed

lemma twoEvents_atHead (destroyed : Bool) : AtHead (twoEvents destroyed) := by
  refine ⟨rfl, rfl, ?_, ?_⟩
  · decide +revert
  · decide +revert

/-- The type is there. -/
theorem advance_ends_owned : Ends quietCallbacks (twoEvents false) := by
  refine (advance_ends_iff quietCallbacks (twoEvents_atHead false)).2 fun w' hreach e he _ => ?_
  have hsame : w'.destroyed = fun _ => false := by
    clear he
    induction hreach with
    | refl => rfl
    | tail _ hround ih =>
      cases hround with
      | expired top due gone => exact ih
      | fired top due owned runs behind =>
        rw [runs.1]
        exact ih
  rw [hsame]

/-- **The type has been destroyed**, and the call does not end. -/
theorem advance_hangs : AtHead (twoEvents true) ∧ ¬Ends quietCallbacks (twoEvents true) :=
  ⟨twoEvents_atHead true, fun h => not_acc_of_expired (e := ⟨-5, 0, (), 3, 0, 0⟩) h.ends (twoEvents_atHead true)
    mem_cons_self (by decide) rfl⟩

end Voltemu.Core.Timing
