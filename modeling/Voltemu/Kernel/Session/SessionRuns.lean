import Voltemu.Kernel.Session.KServerSession

/-!
# Every request is answered once

A request that `OnRequest` has accepted is in the list, or is the current request, or is with the one operation that
processes it, or is finished.  `places` counts the first three.

* Most steps move a request from one place to another (`Inv.move`).
* The others finish it: the session replies, or does not for a thread that is terminating, and closes its reference
  (`Inv.finish`).
* **`requests_answered_once`**: in every state that is reached, whatever the interleaving.
-/

namespace Voltemu.Kernel.ServerSession

open Function State Option List

/-- The request that an operation has taken out of the list or of the current slot. -/
def Operation.processing : Operation → Option ℕ
  | .received request _ _ => some request
  | .receiveFailed _ _ => none
  | .receiveReply request _ => some request
  | .sendReply request => some request
  | .cleanup request => request
  | .clientClosing _ none => none
  | .clientClosing _ (some c) => if c.curRequest then none else some c.request

/-- The current request on which `OnClientClosed` holds a reference of its own. -/
def Operation.holding : Operation → Option ℕ
  | .clientClosing _ (some c) => if c.curRequest then some c.request else none
  | _ => none

namespace State

variable (s : State)

def processing : Option ℕ := s.operation.bind Operation.processing

def holding : Option ℕ := s.operation.bind Operation.holding

/-- In how many places a request is. -/
def places (r : ℕ) : ℕ :=
  s.requestList.count r + (if s.currentRequest = some r then 1 else 0) + if s.processing = some r then 1 else 0

end State

/-! ## The invariant -/

structure RequestOk (s : State) (r : ℕ) (q : Request) : Prop where
  places_le : s.places r ≤ 1
  references : q.references = s.places r + if s.holding = some r then 1 else 0
  unanswered : s.places r = 1 → q.answers = 0
  finished : s.places r = 0 → q.answers = 1 ∨ q.answers = 0 ∧ s.terminationRequested q.sender = true
  thread : q.thread = some q.sender ∧ q.event.isSome = q.isAsync ∨
    q.thread = none ∧ s.terminationRequested q.sender = true ∧ s.clientClosedStarted = true ∧ r ∉ s.requestList
  waits : q.isAsync = false → s.places r = 1 → s.waiting q.sender = some r ∨ s.terminationRequested q.sender = true

/-- What holds of the operation that has `m_lock`. -/
def OperationOk (s : State) : Operation → Prop
  | .received request thread _ =>
      s.currentRequest = none ∧ s.cleanupDone = false ∧ ∃ q, s.requests request = some q ∧ q.thread = some thread
  | .receiveFailed request thread =>
      s.currentRequest = some request ∧ ∃ q, s.requests request = some q ∧ q.thread = some thread
  | .receiveReply request thread =>
      s.currentRequest = none ∧ ∃ q, s.requests request = some q ∧ q.thread = some thread
  | .sendReply request => s.requests request ≠ none
  | .cleanup request => s.serverDestroyed = true ∧ ∀ r ∈ request, s.requests r ≠ none
  | .clientClosing prevRequest closing =>
      s.clientClosedStarted = true ∧
      (∀ r q, s.currentRequest = some r → s.requests r = some q → q.thread = none → prevRequest = some r) ∧
      ∀ c ∈ closing, ∃ q, s.requests c.request = some q ∧ c.thread = some q.sender ∧
        if c.curRequest then s.currentRequest = some c.request ∧ prevRequest = some c.request
        else c.terminate = false ∧ q.thread = some q.sender ∧ c.event = q.event

structure Inv (s : State) : Prop where
  fresh : ∀ r, s.nextRequest ≤ r → s.requests r = none ∧ s.places r = 0
  request : ∀ r q, s.requests r = some q → RequestOk s r q
  accepted : ∀ r, s.places r ≠ 0 → ∃ q, s.requests r = some q
  waiting : ∀ t r, s.waiting t = some r → ∃ q, s.requests r = some q ∧ q.sender = t ∧ q.isAsync = false ∧
    s.places r = 1 ∧ s.terminationRequested t = false
  operation : ∀ op ∈ s.operation, OperationOk s op
  /-- Before `OnClientClosed` no thread of a current request is cleared. -/
  clientClosed : s.clientClosedCalled = true → s.clientDestroyed = true
  clientStarted : s.clientClosedStarted = true → s.clientDestroyed = true
  clientDestroyed : s.clientDestroyed = true → s.sessionState ≠ .normal ∧ ∀ t, s.waiting t = none
  serverDestroyed : s.serverDestroyed = true → s.sessionState ≠ .normal
  cleanup : s.cleanupDone = true → s.serverDestroyed = true ∧ s.requestList = [] ∧ s.currentRequest = none
  nullThread : s.nullThread = false
  strayWakeup : s.strayWakeup = false

section

variable {s s' : State}

/-- **A request moves**: what the invariant says of requests and threads does not depend on where a request is. -/
lemma Inv.move (h : Inv s) (hrequests : s'.requests = s.requests) (hnext : s'.nextRequest = s.nextRequest)
    (hplaces : ∀ r, s'.places r = s.places r) (hholding : s'.holding = s.holding)
    (hlist : ∀ r ∈ s'.requestList, r ∈ s.requestList) (hwaiting : s'.waiting = s.waiting)
    (hterminate : s'.terminationRequested = s.terminationRequested)
    (hstarted : s.clientClosedStarted = true → s'.clientClosedStarted = true)
    (hoperation : ∀ op ∈ s'.operation, OperationOk s' op)
    (hclosed : s'.clientClosedCalled = true → s'.clientDestroyed = true)
    (hstarted' : s'.clientClosedStarted = true → s'.clientDestroyed = true)
    (hclient : s'.clientDestroyed = true → s'.sessionState ≠ .normal ∧ ∀ t, s'.waiting t = none)
    (hserver : s'.serverDestroyed = true → s'.sessionState ≠ .normal)
    (hcleanup : s'.cleanupDone = true → s'.serverDestroyed = true ∧ s'.requestList = [] ∧ s'.currentRequest = none)
    (hnull : s'.nullThread = s.nullThread) (hstray : s'.strayWakeup = s.strayWakeup) : Inv s' where
  fresh := fun r hr => by
    rw [hrequests, hplaces]
    exact h.fresh r (hnext ▸ hr)
  request := fun r q hq => by
    obtain ⟨h1, h2, h3, h4, h5, h6⟩ := h.request r q (hrequests ▸ hq)
    refine ⟨by rwa [hplaces], by rwa [hplaces, hholding], by rwa [hplaces], by rwa [hplaces, hterminate], ?_,
      by rwa [hplaces, hterminate, hwaiting]⟩
    rcases h5 with h5 | ⟨hthread, hterm, hclosing, hnotin⟩
    · exact .inl h5
    · exact .inr ⟨hthread, by rwa [hterminate], hstarted hclosing, fun hmem => hnotin (hlist r hmem)⟩
  accepted := fun r hr => by
    rw [hrequests]
    exact h.accepted r (hplaces r ▸ hr)
  waiting := fun t r ht => by
    obtain ⟨q, h1, h2, h3, h4, h5⟩ := h.waiting t r (hwaiting ▸ ht)
    exact ⟨q, by rwa [hrequests], h2, h3, by rwa [hplaces], by rwa [hterminate]⟩
  operation := hoperation
  clientClosed := hclosed
  clientStarted := hstarted'
  clientDestroyed := hclient
  serverDestroyed := hserver
  cleanup := hcleanup
  nullThread := hnull.trans h.nullThread
  strayWakeup := hstray.trans h.strayWakeup

lemma Inv.initial : Inv initial where
  fresh := fun r _ => ⟨rfl, rfl⟩
  request := fun r q hq => by cases hq
  accepted := fun r hr => absurd rfl hr
  waiting := fun t r ht => by cases ht
  operation := fun op hop => by cases hop
  clientClosed := fun h => by cases h
  clientStarted := fun h => by cases h
  clientDestroyed := fun h => by cases h
  serverDestroyed := fun h => by cases h
  cleanup := fun h => by cases h
  nullThread := rfl
  strayWakeup := rfl

/-! ## Moves -/

lemma processing_of_none (h : s.operation = none) : s.processing = none := by
  rw [processing, h]
  rfl

lemma holding_of_none (h : s.operation = none) : s.holding = none := by
  rw [holding, h]
  rfl

variable {r : ℕ} {q : Request} {prevRequest : Option ℕ} {op : Operation}

lemma places_of_mem_list (h : r ∈ s.requestList) : s.places r ≠ 0 := by
  have := count_pos_iff.2 h
  simp only [places]
  omega

lemma places_of_current (h : s.currentRequest = some r) : s.places r ≠ 0 := by
  simp only [places, h, if_true]
  omega

lemma places_of_processing (h : s.processing = some r) : s.places r ≠ 0 := by
  simp only [places, h, if_true]
  omega

lemma Inv.thread_of_mem_list (h : Inv s) (hr : r ∈ s.requestList) :
    ∃ q, s.requests r = some q ∧ q.thread = some q.sender ∧ q.event.isSome = q.isAsync := by
  obtain ⟨q, hq⟩ := h.accepted r (places_of_mem_list hr)
  rcases (h.request r q hq).thread with hthread | ⟨-, -, -, hnotin⟩
  · exact ⟨q, hq, hthread⟩
  · exact absurd hr hnotin

lemma Inv.places_processing (h : Inv s) (hq : s.requests r = some q)
    (hprocessing : s.processing = some r) : s.places r = 1 := by
  have := places_of_processing hprocessing
  have := (h.request r q hq).places_le
  omega

lemma Inv.places_current (h : Inv s) (hq : s.requests r = some q)
    (hcurrent : s.currentRequest = some r) : s.places r = 1 := by
  have := places_of_current hcurrent
  have := (h.request r q hq).places_le
  omega

lemma places_pop {rest : List ℕ} {s' : State} (hlist : s.requestList = r :: rest)
    (hprocessing : s.processing = none) (hlist' : s'.requestList = rest) (hcurrent : s'.currentRequest = s.currentRequest)
    (hoperation : s'.operation = some op) (hop : op.processing = some r) (r' : ℕ) : s'.places r' = s.places r' := by
  have hprocessing' : s'.processing = some r := by
    rw [processing, hoperation]
    exact hop
  simp only [places, hlist, hlist', hcurrent, hprocessing, hprocessing', count_cons, some.injEq,
    beq_iff_eq, reduceCtorEq, if_false]
  omega

lemma places_take {s' : State} (hcurrent : s.currentRequest = some r)
    (hprocessing : s.processing = none) (hlist' : s'.requestList = s.requestList) (hcurrent' : s'.currentRequest = none)
    (hoperation : s'.operation = some op) (hop : op.processing = some r) (r' : ℕ) : s'.places r' = s.places r' := by
  have hprocessing' : s'.processing = some r := by
    rw [processing, hoperation]
    exact hop
  simp only [places, hlist', hcurrent, hcurrent', hprocessing, hprocessing', reduceCtorEq, if_false]
  omega

lemma Inv.not_cleanupDone (h : Inv s) (hnormal : s.sessionState = .normal) : s.cleanupDone = false := by
  by_contra hdone
  exact h.serverDestroyed (h.cleanup (by simpa using hdone)).1 hnormal

lemma Inv.receiveRequest (h : Inv s) {isHle : Bool} (hlock : s.operation = none) : Inv (s.receiveRequest isHle) := by
  unfold State.receiveRequest
  split_ifs with hnormal hcurrent
  · exact h
  · exact h
  rw [not_not] at hnormal hcurrent
  cases hlist : s.requestList with
  | nil => exact h
  | cons r rest =>
    obtain ⟨q, hq, hthread, -⟩ := h.thread_of_mem_list (r := r) (by simp [hlist])
    simp only [hq, bind_some, hthread]
    have hprocessing := processing_of_none hlock
    refine h.move rfl rfl (places_pop hlist hprocessing rfl rfl rfl rfl) ?_ ?_ rfl rfl id ?_ h.clientClosed
      h.clientStarted h.clientDestroyed h.serverDestroyed ?_ rfl rfl
    · rw [holding_of_none hlock]
      rfl
    · exact fun r' hr' => hlist ▸ mem_cons_of_mem _ hr'
    · intro op hop
      obtain rfl := some.inj hop
      exact ⟨hcurrent, h.not_cleanupDone hnormal, q, hq, hthread⟩
    · intro hdone
      have hfalse := h.not_cleanupDone hnormal
      simp only [hfalse, Bool.false_eq_true] at hdone

lemma Inv.sendReply (h : Inv s) (hlock : s.operation = none) : Inv s.sendReply := by
  unfold State.sendReply
  cases hcurrent : s.currentRequest with
  | none => exact h
  | some r =>
    obtain ⟨q, hq⟩ := h.accepted r (places_of_current hcurrent)
    refine h.move rfl rfl (places_take hcurrent (processing_of_none hlock) rfl rfl rfl rfl) ?_
      (fun _ => id) rfl rfl id ?_ h.clientClosed h.clientStarted h.clientDestroyed h.serverDestroyed ?_ rfl rfl
    · rw [holding_of_none hlock]
      rfl
    · intro op hop
      obtain rfl := some.inj hop
      exact fun hnone => by simp [hq] at hnone
    · exact fun hdone => ⟨(h.cleanup hdone).1, (h.cleanup hdone).2.1, rfl⟩

lemma Inv.cleanupNext (h : Inv s) (hprocessing : s.processing = none) (hholding : s.holding = none)
    (hserver : s.serverDestroyed = true) : Inv s.cleanupNext := by
  unfold State.cleanupNext
  cases hcurrent : s.currentRequest with
  | some r =>
    obtain ⟨q, hq⟩ := h.accepted r (places_of_current hcurrent)
    refine h.move rfl rfl (places_take hcurrent hprocessing rfl rfl rfl rfl) ?_ (fun _ => id) rfl rfl id ?_
      h.clientClosed h.clientStarted h.clientDestroyed h.serverDestroyed ?_ rfl rfl
    · exact hholding.symm
    · intro op hop
      obtain rfl := some.inj hop
      refine ⟨hserver, fun r' hr' => ?_⟩
      obtain rfl := some.inj hr'
      exact fun hnone => by simp [hq] at hnone
    · exact fun hdone => ⟨(h.cleanup hdone).1, (h.cleanup hdone).2.1, rfl⟩
  | none =>
    cases hlist : s.requestList with
    | cons r rest =>
      obtain ⟨q, hq, -⟩ := h.thread_of_mem_list (r := r) (by simp [hlist])
      refine h.move rfl rfl (places_pop hlist hprocessing rfl hcurrent.symm rfl rfl) hholding.symm ?_ rfl rfl id ?_
        h.clientClosed h.clientStarted h.clientDestroyed h.serverDestroyed ?_ rfl rfl
      · exact fun r' hr' => hlist ▸ mem_cons_of_mem _ hr'
      · intro op hop
        obtain rfl := some.inj hop
        refine ⟨hserver, fun r' hr' => ?_⟩
        obtain rfl := some.inj hr'
        exact fun hnone => by simp [hq] at hnone
      · intro hdone
        have := (h.cleanup hdone).2.1
        simp [hlist] at this
    | nil =>
      refine h.move rfl rfl (fun r => ?_) hholding.symm (fun r hr => ?_) rfl rfl id ?_ h.clientClosed
        h.clientStarted h.clientDestroyed h.serverDestroyed ?_ rfl rfl
      · rw [places, places, hprocessing, hcurrent, hlist]
        rfl
      · cases hr
      · intro op hop
        cases hop
      · exact fun _ => ⟨hserver, rfl, rfl⟩

/-! ## Changes of one request -/

/-- **One request changes.**  If it is finished then, its sender does not wait for it any more. -/
lemma Inv.change (h : Inv s) {q q' : Request} (hq : s.requests r = some q) (hsender : q'.sender = q.sender)
    (hasync : q'.isAsync = q.isAsync) (hrequests : s'.requests = update s.requests r (some q'))
    (hnext : s'.nextRequest = s.nextRequest) (hplaces : ∀ r' ≠ r, s'.places r' = s.places r')
    (hholding : ∀ r' ≠ r, s'.holding ≠ some r' ∧ s.holding ≠ some r') (hlist : s'.requestList = s.requestList)
    (hwaiting : ∀ t, s'.waiting t = if s.waiting t = some r ∧ s'.places r = 0 then none else s.waiting t)
    (hterminate : s'.terminationRequested = s.terminationRequested)
    (hstarted : s'.clientClosedStarted = s.clientClosedStarted) (hok : RequestOk s' r q')
    (hoperation : ∀ op ∈ s'.operation, OperationOk s' op) (hcalled : s'.clientClosedCalled = s.clientClosedCalled)
    (hdestroyed : s'.clientDestroyed = s.clientDestroyed) (hstate : s'.sessionState = s.sessionState)
    (hserver : s'.serverDestroyed = s.serverDestroyed) (hdone : s'.cleanupDone = s.cleanupDone)
    (hcurrent : s'.currentRequest = s.currentRequest) (hnull : s'.nullThread = s.nullThread)
    (hstray : s'.strayWakeup = s.strayWakeup) : Inv s' where
  fresh := fun r' hr' => by
    have hne : r' ≠ r := by
      rintro rfl
      have := (h.fresh r' (hnext ▸ hr')).1
      simp [hq] at this
    rw [hrequests, update_of_ne hne, hplaces r' hne]
    exact h.fresh r' (hnext ▸ hr')
  request := fun r' p hp => by
    by_cases hr : r' = r
    · subst hr
      rw [hrequests, update_self] at hp
      obtain rfl := some.inj hp
      exact hok
    · rw [hrequests, update_of_ne hr] at hp
      obtain ⟨h1, h2, h3, h4, h5, h6⟩ := h.request r' p hp
      have hpl := hplaces r' hr
      obtain ⟨hhold', hhold⟩ := hholding r' hr
      refine ⟨by rwa [hpl], ?_, by rwa [hpl], by rwa [hpl, hterminate], ?_, ?_⟩
      · rw [hpl, if_neg hhold']
        rwa [if_neg hhold] at h2
      · rwa [hterminate, hstarted, hlist]
      · rw [hpl, hterminate, hwaiting]
        intro hasync' hplace
        rcases h6 hasync' hplace with hwait | hterm
        · rw [hwait, if_neg fun hc => hr (some.inj hc.1)]
          exact .inl rfl
        · exact .inr hterm
  accepted := fun r' hr' => by
    by_cases hr : r' = r
    · subst hr
      exact ⟨q', by rw [hrequests, update_self]⟩
    · rw [hrequests, update_of_ne hr]
      exact h.accepted r' (hplaces r' hr ▸ hr')
  waiting := fun t r' ht => by
    rw [hwaiting] at ht
    split_ifs at ht with hc
    obtain ⟨p, h1, h2, h3, h4, h5⟩ := h.waiting t r' ht
    by_cases hr : r' = r
    · subst hr
      obtain rfl := some.inj (hq.symm.trans h1)
      have hplace : s'.places r' ≠ 0 := fun hzero => hc ⟨ht, hzero⟩
      have hle := hok.places_le
      exact ⟨q', by rw [hrequests, update_self], hsender.trans h2, hasync.trans h3, by omega, by rwa [hterminate]⟩
    · exact ⟨p, by rwa [hrequests, update_of_ne hr], h2, h3, by rwa [hplaces r' hr], by rwa [hterminate]⟩
  operation := hoperation
  clientClosed := by
    rw [hcalled, hdestroyed]
    exact h.clientClosed
  clientStarted := by
    rw [hstarted, hdestroyed]
    exact h.clientStarted
  clientDestroyed := fun hd => by
    obtain ⟨h1, h2⟩ := h.clientDestroyed (hdestroyed ▸ hd)
    refine ⟨by rwa [hstate], fun t => ?_⟩
    rw [hwaiting, h2 t]
    split_ifs <;> rfl
  serverDestroyed := by
    rw [hserver, hstate]
    exact h.serverDestroyed
  cleanup := by
    rw [hdone, hserver, hlist, hcurrent]
    exact h.cleanup
  nullThread := hnull.trans h.nullThread
  strayWakeup := hstray.trans h.strayWakeup

lemma modify_requests {s : State} (hq : s.requests r = some q) (f : Request → Request) :
    s.modify r f = { s with requests := update s.requests r (some (f q)) } := by
  simp only [State.modify, hq, map_some]

lemma Inv.hold (h : Inv s) (q' : Request) (c : ClosingRequest) (hcurrent : s.currentRequest = some r)
    (hq : s.requests r = some q) (hprocessing : s.processing = none) (hholding : s.holding = none)
    (hstarted : s.clientClosedStarted = true) (hc : c.request = r) (hcur : c.curRequest = true)
    (hcthread : c.thread = some q.sender) (hsender : q'.sender = q.sender) (hasync : q'.isAsync = q.isAsync)
    (hreferences : q'.references = q.references + 1) (hanswers : q'.answers = q.answers)
    (hthread : q'.thread = some q.sender ∧ q'.event.isSome = q.isAsync ∨
      q'.thread = none ∧ s.terminationRequested q.sender = true) :
    Inv { s with
      requests := update s.requests r (some q')
      operation := some (.clientClosing (some r) (some c)) } := by
  obtain ⟨h1, h2, h3, h4, h5, h6⟩ := h.request r q hq
  have hplace := h.places_current hq hcurrent
  have hnotin : r ∉ s.requestList := by
    intro hmem
    have := count_pos_iff.2 hmem
    simp only [places, hcurrent, if_true] at hplace
    omega
  have hop : (Operation.clientClosing (some r) (some c)).processing = none := by simp [Operation.processing, hcur]
  have hholds : (Operation.clientClosing (some r) (some c)).holding = some r := by simp [Operation.holding, hcur, hc]
  generalize hs' : { s with
    requests := update s.requests r (some q')
    operation := some (.clientClosing (some r) (some c)) } = s'
  have hplaces : ∀ r', s'.places r' = s.places r' := by
    intro r'
    subst hs'
    simp only [places, hprocessing]
    have hprocessing' : (some (Operation.clientClosing (some r) (some c))).bind Operation.processing = none := hop
    simp only [processing, hprocessing']
  have hholding' : s'.holding = some r := by
    subst hs'
    exact hholds
  refine h.change hq hsender hasync ?_ ?_ (fun r' _ => hplaces r') ?_ ?_ ?_ ?_ ?_ ?_ ?_ ?_ ?_ ?_ ?_ ?_ ?_ ?_ ?_
  all_goals first | (subst hs'; rfl) | skip
  · intro r' hr'
    rw [hholding, hholding']
    exact ⟨fun heq => hr' (some.inj heq).symm, by simp⟩
  · intro t
    rw [hplaces, hplace, if_neg (by simp)]
    subst hs'
    rfl
  · refine ⟨by rwa [hplaces], ?_, ?_, ?_, ?_, ?_⟩
    · rw [hreferences, h2, hplaces, hholding', hholding, if_pos rfl, if_neg (by simp)]
      simp
    · intro _
      rw [hanswers]
      exact h3 hplace
    · intro hzero
      rw [hplaces] at hzero
      omega
    · rw [hsender, hasync]
      rcases hthread with hthread | ⟨hnone, hterm⟩
      · exact .inl hthread
      · refine .inr ⟨hnone, ?_, ?_, ?_⟩ <;> subst hs' <;> assumption
    · rw [hsender, hasync, hplaces]
      subst hs'
      exact h6
  · intro op hop'
    subst hs'
    obtain rfl := some.inj hop'
    refine ⟨hstarted, ?_, fun c' hc' => ?_⟩
    · intro r' p hr' _ _
      exact hcurrent.symm.trans hr'
    · obtain rfl := some.inj hc'
      refine ⟨q', ?_, ?_, ?_⟩
      · simp [hc]
      · rw [hcthread, hsender]
      · rw [if_pos hcur, hc]
        exact ⟨hcurrent, rfl⟩

lemma Inv.clientClosingNext (h : Inv s) (hprocessing : s.processing = none)
    (hholding : s.holding = none) (hstarted : s.clientClosedStarted = true)
    (hcleared : ∀ r q, s.currentRequest = some r → s.requests r = some q → q.thread = none → prevRequest = some r) :
    Inv (s.clientClosingNext prevRequest) := by
  unfold State.clientClosingNext
  split_ifs with hcase
  · obtain ⟨hne, hprev⟩ := hcase
    obtain ⟨r, hcurrent⟩ := ne_none_iff_exists'.1 hne
    obtain ⟨q, hq⟩ := h.accepted r (places_of_current hcurrent)
    have hok := h.request r q hq
    -- The thread has not been cleared: that is done only once.
    have hthread : q.thread = some q.sender ∧ q.event.isSome = q.isAsync := by
      rcases hok.thread with hthread | ⟨hnone, -⟩
      · exact hthread
      · exact absurd (hcurrent.trans (hcleared r q hcurrent hq hnone).symm) hprev
    simp only [hcurrent]
    rw [openRequest, modify_requests hq]
    simp only [update_self, hthread.1]
    cases hterminate : s.terminationRequested q.sender with
    | false =>
      simp only [Bool.false_eq_true, if_false]
      have hinv := h.hold ⟨some q.sender, q.event, q.sender, q.isAsync, q.references + 1, q.answers⟩
        ⟨r, some q.sender, q.event, true, false⟩ hcurrent hq hprocessing hholding hstarted rfl rfl rfl rfl rfl
        rfl rfl (.inl ⟨rfl, hthread.2⟩)
      simpa only [hcurrent] using hinv
    | true =>
      simp only [if_true]
      have hinv := h.hold ⟨none, none, q.sender, q.isAsync, q.references + 1, q.answers⟩
        ⟨r, some q.sender, q.event, true, true⟩ hcurrent hq hprocessing hholding hstarted rfl rfl rfl rfl rfl
        rfl rfl (.inr ⟨rfl, hterminate⟩)
      simpa only [State.modify, update_self, map_some, update_idem, hcurrent] using hinv
  · cases hlist : s.requestList with
    | nil =>
      refine h.move rfl rfl (fun r => ?_) hholding.symm (fun r hr => ?_) rfl rfl id ?_ h.clientClosed
        h.clientStarted h.clientDestroyed h.serverDestroyed ?_ rfl rfl
      · rw [places, places, hprocessing, hlist]
        rfl
      · cases hr
      · intro op hop
        cases hop
      · exact fun hdone => ⟨(h.cleanup hdone).1, rfl, (h.cleanup hdone).2.2⟩
    | cons r rest =>
      obtain ⟨q, hq, hthread, -⟩ := h.thread_of_mem_list (r := r) (by simp [hlist])
      refine h.move rfl rfl (places_pop hlist hprocessing rfl rfl rfl rfl) hholding.symm ?_ rfl rfl id ?_
        h.clientClosed h.clientStarted h.clientDestroyed h.serverDestroyed ?_ rfl rfl
      · exact fun r' hr' => hlist ▸ mem_cons_of_mem _ hr'
      · intro op hop
        obtain rfl := some.inj hop
        refine ⟨hstarted, hcleared, fun c hc => ?_⟩
        obtain rfl := some.inj hc
        exact ⟨q, hq, by simp [hq, hthread], by simp [hq, hthread]⟩
      · intro hdone
        have := (h.cleanup hdone).2.1
        simp [hlist] at this

/-! ## Replies -/

/-- The state after a request got its answers, so that its sender does not wait for it. -/
def State.answer (s : State) (r : ℕ) (q : Request) (answers : ℕ) : State :=
  { s with
    requests := update s.requests r (some { q with answers := answers })
    waiting := fun t => if s.waiting t = some r then none else s.waiting t }

def Replied (s s' : State) (r : ℕ) (q : Request) : Prop :=
  ∃ a, s' = s.answer r q a ∧ (a = 1 ∨ a = 0 ∧ s.terminationRequested q.sender = true)

/-- Only the sender of a request waits for it, and not when it is terminating or the request has an event. -/
lemma Inv.waiting_eq (h : Inv s) {r t : ℕ} (hq : s.requests r = some q) (ht : s.waiting t = some r) :
    t = q.sender ∧ q.isAsync = false ∧ s.terminationRequested q.sender = false := by
  obtain ⟨p, hp, rfl, hasync, -, hterm⟩ := h.waiting t r ht
  obtain rfl := some.inj (hq.symm.trans hp)
  exact ⟨rfl, hasync, hterm⟩

section

variable (h : Inv s) (hq : s.requests r = some q)
include h hq

/-- No reply is sent, to a thread that is terminating. -/
lemma Inv.replied_none (hplace : s.places r = 1)
    (hterminate : s.terminationRequested q.sender = true) : Replied s s r q := by
  have hanswers := (h.request r q hq).unanswered hplace
  refine ⟨0, ?_, .inr ⟨rfl, hterminate⟩⟩
  have hrequests : update s.requests r (some { q with answers := 0 }) = s.requests := by
    rw [← hanswers]
    exact update_eq_self_iff.2 hq.symm
  have hwaiting : (fun t => if s.waiting t = some r then none else s.waiting t) = s.waiting := by
    funext t
    rw [if_neg]
    intro ht
    have := (h.waiting_eq hq ht).2.2
    rw [hterminate] at this
    cases this
  rw [State.answer, hrequests, hwaiting]

lemma Inv.reply {event : Option ℕ}
    (hplace : s.places r = 1) (hevent : event.isSome = q.isAsync) : Replied s (s.reply r q.sender event) r q := by
  have hok := h.request r q hq
  have hanswers := hok.unanswered hplace
  cases event with
  | some e =>
    refine ⟨1, ?_, .inl rfl⟩
    have hwaiting : (fun t => if s.waiting t = some r then none else s.waiting t) = s.waiting := by
      funext t
      rw [if_neg]
      intro ht
      have := (h.waiting_eq hq ht).2.1
      rw [← hevent] at this
      cases this
    rw [State.reply, modify_requests hq, State.answer, hwaiting, hanswers]
  | none =>
    rw [State.reply]
    split_ifs with hterminate
    · exact h.replied_none hq hplace hterminate
    · refine ⟨1, ?_, .inl rfl⟩
      have hwaits : s.waiting q.sender = some r := (hok.waits hevent.symm hplace).resolve_right hterminate
      have hwaiting : (fun t => if s.waiting t = some r then none else s.waiting t) =
          update s.waiting q.sender none := by
        funext t
        by_cases ht : t = q.sender
        · subst ht
          rw [if_pos hwaits, update_self]
        · rw [update_of_ne ht, if_neg fun hw => ht (h.waiting_eq hq hw).1]
      rw [endWait, if_pos hwaits, State.answer, hwaiting]
      simp only [State.modify, hq, map_some, hanswers, zero_add]

/-- The reply of `SendReply` and `CleanupRequests`: a thread that was cleared is terminating. -/
lemma Inv.replyIfThread (hprocessing : s.processing = some r) : Replied s (s.replyIfThread r q) r q := by
  have hplace := h.places_processing hq hprocessing
  rw [State.replyIfThread]
  rcases (h.request r q hq).thread with ⟨hthread, hevent⟩ | ⟨hnone, hterminate, -⟩
  · rw [hthread]
    exact h.reply hq hplace hevent
  · rw [hnone]
    exact h.replied_none hq hplace hterminate

/-- **A request is finished**: after the reply the session closes its reference. -/
lemma Inv.finish {s1 : State} {op : Option Operation}
    (hprocessing : s.processing = some r) (hreplied : Replied s s1 r q) (hop : op.bind Operation.processing = none)
    (hhold : op.bind Operation.holding = none)
    (hoperation : ∀ s', s'.clientClosedStarted = s.clientClosedStarted → s'.serverDestroyed = s.serverDestroyed →
      s'.currentRequest = s.currentRequest → (∀ r', r' ≠ r → s'.requests r' = s.requests r') →
      ∀ o ∈ op, OperationOk s' o) :
    Inv { s1.closeRequest r with operation := op } := by
  obtain ⟨a, rfl, ha⟩ := hreplied
  have hok := h.request r q hq
  have hplace := h.places_processing hq hprocessing
  have hholding : s.holding = none := by
    cases hsop : s.operation with
    | none => exact holding_of_none hsop
    | some o =>
      rw [processing, hsop] at hprocessing
      rw [holding, hsop]
      cases o with
      | clientClosing prev c =>
        cases c with
        | none => rfl
        | some c =>
          simp only [bind_some, Operation.processing] at hprocessing
          simp only [bind_some, Operation.holding]
          split_ifs at hprocessing ⊢
          rfl
      | received => rfl
      | receiveFailed => rfl
      | receiveReply => rfl
      | sendReply => rfl
      | cleanup => rfl
  have hnotcurrent : s.currentRequest ≠ some r := by
    intro hcurrent
    simp only [places, hcurrent, hprocessing, if_true] at hplace
    omega
  have hnotin : s.requestList.count r = 0 := by
    simp only [places, hprocessing, if_true] at hplace
    omega
  have hrequests : (s.answer r q a).requests r = some { q with answers := a } := update_self ..
  rw [State.closeRequest, modify_requests hrequests]
  generalize hs' : { s.answer r q a with
    requests := update (s.answer r q a).requests r (some { q with answers := a, references := q.references - 1 })
    operation := op } = s'
  have hprocessing' : s'.processing = none := by
    subst hs'
    exact hop
  have hholding' : s'.holding = none := by
    subst hs'
    exact hhold
  have hlist : s'.requestList = s.requestList := by
    subst hs'
    rfl
  have hcurrent : s'.currentRequest = s.currentRequest := by
    subst hs'
    rfl
  have hzero : s'.places r = 0 := by
    rw [places, hlist, hcurrent, hprocessing', hnotin, if_neg hnotcurrent]
    rfl
  have hsender : ({ q with answers := a, references := q.references - 1 } : Request).sender = q.sender := rfl
  refine h.change hq hsender rfl ?_ ?_ ?_ ?_ hlist ?_ ?_ ?_ ?_ ?_ ?_ ?_ ?_ ?_ ?_ hcurrent ?_ ?_
  all_goals first | (subst hs'; rfl) | skip
  · subst hs'
    simp only [State.answer, update_idem]
  · intro r' hr'
    rw [places, places, hlist, hcurrent, hprocessing', hprocessing, if_neg (fun heq => hr' (some.inj heq).symm)]
    rfl
  · intro r' _
    rw [hholding, hholding']
    exact ⟨by simp, by simp⟩
  · intro t
    simp only [hzero, and_true]
    subst hs'
    rfl
  · refine ⟨by omega, ?_, by omega, ?_, ?_, by omega⟩
    · have := hok.references
      rw [hplace, hholding] at this
      simp [this, hzero, hholding']
    · intro _
      subst hs'
      exact ha
    · subst hs'
      exact hok.thread
  · intro o ho
    refine hoperation s' ?_ ?_ hcurrent ?_ o ?_ <;> subst hs'
    · rfl
    · rfl
    · intro r' hr'
      simp only [State.answer, update_of_ne hr']
    · exact ho

end

/-! ## The operation that holds the lock -/

variable {c : ClosingRequest}

lemma Inv.release (h : Inv s)
    (hop : s.operation = some (.clientClosing prevRequest (some c))) (hcur : c.curRequest = true) :
    Inv { s.closeRequest c.request with operation := some (.clientClosing prevRequest none) } := by
  obtain ⟨hstarted, hcleared, hclosing⟩ := h.operation _ hop
  obtain ⟨q, hq, -, hcurrent⟩ := hclosing c rfl
  rw [if_pos hcur] at hcurrent
  have hprocessing : s.processing = none := by simp [processing, hop, Operation.processing, hcur]
  have hholding : s.holding = some c.request := by simp [holding, hop, Operation.holding, hcur]
  have hok := h.request _ q hq
  have hplace := h.places_current hq hcurrent.1
  rw [State.closeRequest, modify_requests hq]
  generalize hs' : { s with
    requests := update s.requests c.request (some { q with references := q.references - 1 })
    operation := some (.clientClosing prevRequest none) } = s'
  have hplaces : ∀ r, s'.places r = s.places r := by
    intro r
    subst hs'
    rw [places, places, hprocessing]
    rfl
  have hholding' : s'.holding = none := by
    subst hs'
    rfl
  have hsender : ({ q with references := q.references - 1 } : Request).sender = q.sender := rfl
  refine h.change hq hsender rfl ?_ ?_ (fun r _ => hplaces r) ?_ ?_ ?_ ?_ ?_ ?_ ?_ ?_ ?_ ?_ ?_ ?_ ?_ ?_ ?_
  all_goals first | (subst hs'; rfl) | skip
  · intro r hr
    rw [hholding, hholding']
    exact ⟨by simp, fun heq => hr (some.inj heq).symm⟩
  · intro t
    rw [hplaces, hplace, if_neg (by simp)]
    subst hs'
    rfl
  · obtain ⟨h1, h2, h3, h4, h5, h6⟩ := hok
    refine ⟨by rwa [hplaces], ?_, by rwa [hplaces], ?_, ?_, ?_⟩
    · rw [hplace, hholding, if_pos rfl] at h2
      rw [hplaces, hplace, hholding', if_neg (by simp), h2]
      simp
    · rw [hplaces]
      subst hs'
      exact h4
    · subst hs'
      exact h5
    · rw [hplaces]
      subst hs'
      exact h6
  · intro op hop'
    subst hs'
    obtain rfl := some.inj hop'
    refine ⟨hstarted, fun r p hr hp hnone => ?_, fun c' hc' => by cases hc'⟩
    obtain rfl := some.inj (hcurrent.1.symm.trans hr)
    exact hcurrent.2

lemma Inv.clientClosingRequest (h : Inv s)
    (hop : s.operation = some (.clientClosing prevRequest (some c))) : Inv (s.clientClosingRequest prevRequest c) := by
  obtain ⟨hstarted, hcleared, hclosing⟩ := h.operation _ hop
  obtain ⟨q, hq, hthread, hcase⟩ := hclosing c rfl
  unfold State.clientClosingRequest
  simp only [hthread, reduceCtorEq, and_false, if_false]
  by_cases hcur : c.curRequest = true
  · simpa [hcur] using h.release hop hcur
  rw [Bool.not_eq_true] at hcur
  rw [hcur, if_neg (by simp)] at hcase
  obtain ⟨-, hqthread, hevent⟩ := hcase
  have hprocessing : s.processing = some c.request := by simp [processing, hop, Operation.processing, hcur]
  have hok := h.request _ q hq
  have hplace := h.places_processing hq hprocessing
  have hqevent : q.event.isSome = q.isAsync := by
    rcases hok.thread with hthread | ⟨hnone, -⟩
    · exact hthread.2
    · rw [hqthread] at hnone
      cases hnone
  have hreplied : Replied s
      (if c.event.isSome = true ∧ c.curRequest = false then s.reply c.request q.sender c.event else s) c.request q := by
    rw [hevent]
    split_ifs with hsome
    · exact h.reply hq hplace hqevent
    · -- The client session is destroyed, so that the sender does not wait: it is terminating.
      have hasync : q.isAsync = false := by
        rw [← hqevent]
        simpa [hcur] using hsome
      refine h.replied_none hq hplace ((hok.waits hasync hplace).resolve_left fun hwait => ?_)
      rw [(h.clientDestroyed (h.clientStarted hstarted)).2] at hwait
      cases hwait
  refine h.finish hq hprocessing hreplied rfl rfl ?_
  intro s' hstarted' _ hcurrent' hrequests' o ho
  obtain rfl := some.inj ho
  refine ⟨hstarted'.trans hstarted, fun r p hr hp hnone => ?_, fun c' hc' => by cases hc'⟩
  have hne : r ≠ c.request := by
    rintro rfl
    rw [hcurrent'] at hr
    simp only [places, hr, hprocessing, if_true] at hplace
    omega
  exact hcleared r p (hcurrent' ▸ hr) (hrequests' r hne ▸ hp) hnone

/-- **The operation that holds the lock keeps the invariant.** -/
lemma Inv.advance (h : Inv s) {received : Bool} (hop : s.operation = some op) : Inv (s.advance received op) := by
  have hopOk := h.operation op hop
  have hprocessing : s.processing = op.processing := by rw [processing, hop, bind_some]
  have hholding : s.holding = op.holding := by rw [holding, hop, bind_some]
  cases op with
  | received r thread isHle =>
    obtain ⟨hcurrent, hdone, q, hq, hthread⟩ := hopOk
    have hplaces : ∀ (s' : State), s'.requestList = s.requestList → s'.currentRequest = some r →
        s'.processing = none → ∀ r', s'.places r' = s.places r' := by
      intro s' hlist' hcurrent' hprocessing' r'
      rw [places, places, hlist', hcurrent', hprocessing', hcurrent, hprocessing]
      simp [Operation.processing]
    have hcleanup : s.cleanupDone = true → s.serverDestroyed = true ∧ s.requestList = [] ∧ some r = none := by
      intro htrue
      rw [hdone] at htrue
      cases htrue
    simp only [advance]
    split_ifs
    · exact h.move rfl rfl (hplaces _ rfl rfl rfl) hholding.symm (fun _ => id) rfl rfl id (fun _ ho => by cases ho)
        h.clientClosed h.clientStarted h.clientDestroyed h.serverDestroyed hcleanup rfl rfl
    · refine h.move rfl rfl (hplaces _ rfl rfl rfl) hholding.symm (fun _ => id) rfl rfl id (fun o ho => ?_)
        h.clientClosed h.clientStarted h.clientDestroyed h.serverDestroyed hcleanup rfl rfl
      obtain rfl := some.inj ho
      exact ⟨rfl, q, hq, hthread⟩
  | receiveFailed r thread =>
    obtain ⟨hcurrent, q, hq, hthread⟩ := hopOk
    refine h.move rfl rfl (places_take hcurrent hprocessing rfl rfl rfl rfl) hholding.symm (fun _ => id) rfl rfl id
      (fun o ho => ?_) h.clientClosed h.clientStarted h.clientDestroyed h.serverDestroyed
      (fun hdone => ⟨(h.cleanup hdone).1, (h.cleanup hdone).2.1, rfl⟩) rfl rfl
    obtain rfl := some.inj ho
    exact ⟨rfl, q, hq, hthread⟩
  | receiveReply r thread =>
    obtain ⟨-, q, hq, hthread⟩ := hopOk
    have hok := h.request r q hq
    have hplace := h.places_processing hq hprocessing
    rcases hok.thread with ⟨hsender, hevent⟩ | ⟨hnone, -⟩
    · obtain rfl := some.inj (hsender.symm.trans hthread)
      simp only [advance, hq, bind_some]
      exact h.finish hq hprocessing (h.reply hq hplace hevent) rfl rfl fun _ _ _ _ _ _ ho => by cases ho
    · rw [hthread] at hnone
      cases hnone
  | sendReply r =>
    obtain ⟨q, hq⟩ := ne_none_iff_exists'.1 hopOk
    simp only [advance, hq]
    exact h.finish hq hprocessing (h.replyIfThread hq hprocessing) rfl rfl fun _ _ _ _ _ _ ho => by cases ho
  | cleanup request =>
    obtain ⟨hserver, hsome⟩ := hopOk
    cases request with
    | none => exact h.cleanupNext hprocessing hholding hserver
    | some r =>
      obtain ⟨q, hq⟩ := ne_none_iff_exists'.1 (hsome r rfl)
      simp only [advance, hq]
      refine h.finish hq hprocessing (h.replyIfThread hq hprocessing) rfl rfl ?_
      intro s' _ hserver' _ _ o ho
      obtain rfl := some.inj ho
      exact ⟨hserver'.trans hserver, fun r hr => by cases hr⟩
  | clientClosing prevRequest request =>
    cases request with
    | none => exact h.clientClosingNext hprocessing hholding hopOk.1 hopOk.2.1
    | some c => exact h.clientClosingRequest hop

/-! ## What does not take the lock -/

lemma Inv.terminate (h : Inv s) (thread : ℕ) : Inv (s.terminate thread) where
  fresh := h.fresh
  request := fun r q hq => by
    obtain ⟨h1, h2, h3, h4, h5, h6⟩ := h.request r q hq
    have hterm : s.terminationRequested q.sender = true → (s.terminate thread).terminationRequested q.sender = true := by
      intro htrue
      simp only [State.terminate, update_apply]
      split_ifs
      · rfl
      · exact htrue
    refine ⟨h1, h2, h3, fun hzero => (h4 hzero).imp_right fun hans => ⟨hans.1, hterm hans.2⟩,
      h5.imp_right fun hnone => ⟨hnone.1, hterm hnone.2.1, hnone.2.2⟩, fun hasync hplace => ?_⟩
    by_cases ht : q.sender = thread
    · right
      simp only [State.terminate, ht, update_self]
    · refine (h6 hasync hplace).imp (fun hwait => ?_) hterm
      simpa only [State.terminate, update_of_ne ht] using hwait
  accepted := h.accepted
  waiting := fun t r ht => by
    by_cases heq : t = thread
    · simp only [State.terminate, heq, update_self, reduceCtorEq] at ht
    · simp only [State.terminate, update_of_ne heq] at ht ⊢
      exact h.waiting t r ht
  operation := fun op hop => by
    have hopOk := h.operation op hop
    cases op <;> exact hopOk
  clientClosed := h.clientClosed
  clientStarted := h.clientStarted
  clientDestroyed := fun hd => ⟨(h.clientDestroyed hd).1, fun t => by
    simp only [State.terminate, update_apply, (h.clientDestroyed hd).2 t, ite_self]⟩
  serverDestroyed := h.serverDestroyed
  cleanup := h.cleanup
  nullThread := h.nullThread
  strayWakeup := h.strayWakeup

lemma Inv.destroyClient (h : Inv s) (hwaiting : ∀ t, s.waiting t = none) : Inv s.destroyClient := by
  unfold State.destroyClient
  split_ifs with hnormal
  · refine h.move rfl rfl (fun _ => rfl) rfl (fun _ => id) rfl rfl id (fun op hop => ?_) (fun _ => rfl) (fun _ => rfl)
      (fun _ => ⟨by simp, hwaiting⟩) (fun _ => by simp) h.cleanup rfl rfl
    have hopOk := h.operation op hop
    cases op <;> exact hopOk
  · refine h.move rfl rfl (fun _ => rfl) rfl (fun _ => id) rfl rfl id (fun op hop => ?_) (fun _ => rfl) (fun _ => rfl)
      (fun _ => ⟨hnormal, hwaiting⟩) h.serverDestroyed h.cleanup rfl rfl
    have hopOk := h.operation op hop
    cases op <;> exact hopOk

lemma Inv.destroyServer (h : Inv s) : Inv s.destroyServer := by
  unfold State.destroyServer
  have hstate : (if s.sessionState = .normal then SessionState.serverClosed else s.sessionState) ≠ .normal := by
    split_ifs with hnormal
    · simp
    · exact hnormal
  refine h.move rfl rfl (fun _ => rfl) rfl (fun _ => id) rfl rfl id (fun op hop => ?_) h.clientClosed h.clientStarted
    (fun hd => ⟨hstate, (h.clientDestroyed hd).2⟩) (fun _ => hstate) (fun hd => ⟨rfl, (h.cleanup hd).2⟩) rfl rfl
  have hopOk := h.operation op hop
  cases op with
  | cleanup r => exact ⟨rfl, hopOk.2⟩
  | received => exact hopOk
  | receiveFailed => exact hopOk
  | receiveReply => exact hopOk
  | sendReply => exact hopOk
  | clientClosing => exact hopOk

lemma places_append {s' : State} (hlist : s'.requestList = s.requestList ++ [r])
    (hcurrent : s'.currentRequest = s.currentRequest) (hoperation : s'.operation = s.operation) (r' : ℕ) :
    s'.places r' = s.places r' + if r = r' then 1 else 0 := by
  have hprocessing : s'.processing = s.processing := by rw [processing, processing, hoperation]
  simp only [places, hprocessing, hlist, hcurrent, count_append, count_singleton, beq_iff_eq]
  omega

lemma Inv.holding_current (h : Inv s) (hholding : s.holding = some r) : s.currentRequest = some r := by
  obtain ⟨op, hop, hholds⟩ := bind_eq_some_iff.1 hholding
  have hopOk := h.operation op hop
  cases op with
  | clientClosing prevRequest request =>
    cases request with
    | none => cases hholds
    | some c =>
      simp only [Operation.holding] at hholds
      split_ifs at hholds with hcur
      obtain rfl := some.inj hholds
      obtain ⟨q, -, -, hcase⟩ := hopOk.2.2 c rfl
      rw [if_pos hcur] at hcase
      exact hcase.1
  | received => cases hholds
  | receiveFailed => cases hholds
  | receiveReply => cases hholds
  | sendReply => cases hholds
  | cleanup => cases hholds

/-- A request is accepted.  Nothing else changes, but for the sender, which waits. -/
lemma Inv.accept (h : Inv s) {thread : ℕ} (event : Option ℕ) (hnormal : s.sessionState = .normal)
    (hterminate : s.terminationRequested thread = false) (hdestroyed : s.clientDestroyed = false)
    (hidle : s.waiting thread = none) {s' : State}
    (hs' : s' = { s with
      requests := update s.requests s.nextRequest (some ⟨some thread, event, thread, event.isSome, 1, 0⟩)
      nextRequest := s.nextRequest + 1
      requestList := s.requestList ++ [s.nextRequest]
      waiting := if event.isSome then s.waiting else update s.waiting thread (some s.nextRequest) }) :
    Inv s' := by
  obtain ⟨hnone, hzero⟩ := h.fresh s.nextRequest le_rfl
  have hplaces : ∀ r', s'.places r' = s.places r' + if s.nextRequest = r' then 1 else 0 := by
    subst hs'
    exact places_append rfl rfl rfl
  have hplaces_ne : ∀ r', r' ≠ s.nextRequest → s'.places r' = s.places r' := by
    intro r' hr'
    rw [hplaces, if_neg hr'.symm, add_zero]
  have hplaces_self : s'.places s.nextRequest = 1 := by rw [hplaces, if_pos rfl, hzero]
  have hrequests_ne : ∀ r', r' ≠ s.nextRequest → s'.requests r' = s.requests r' := by
    intro r' hr'
    subst hs'
    exact update_of_ne hr' ..
  have hrequests_self : s'.requests s.nextRequest = some ⟨some thread, event, thread, event.isSome, 1, 0⟩ := by
    subst hs'
    exact update_self ..
  -- A request that was there is another one.
  have hold : ∀ r q, s.requests r = some q → r ≠ s.nextRequest := by
    rintro r q hq rfl
    rw [hnone] at hq
    cases hq
  have hholding : s'.holding = s.holding := by
    subst hs'
    rfl
  have hcurrent : s'.currentRequest = s.currentRequest := by
    subst hs'
    rfl
  have hterm : s'.terminationRequested = s.terminationRequested := by
    subst hs'
    rfl
  have hmem : ∀ r', r' ≠ s.nextRequest → r' ∈ s'.requestList → r' ∈ s.requestList := by
    intro r' hr' hr
    subst hs'
    exact (mem_append.1 hr).resolve_right (by simpa using hr')
  have hwaiting_ne : ∀ t, t ≠ thread → s'.waiting t = s.waiting t := by
    intro t ht
    subst hs'
    split_ifs
    · rfl
    · exact update_of_ne ht ..
  have hwaiting_self : s'.waiting thread = if event.isSome then none else some s.nextRequest := by
    subst hs'
    split_ifs
    · exact hidle
    · exact update_self ..
  refine ⟨?_, ?_, ?_, ?_, ?_, ?_, ?_, ?_, ?_, ?_, ?_, ?_⟩
  · intro r hr
    have hr' : s.nextRequest + 1 ≤ r := by
      subst hs'
      exact hr
    rw [hrequests_ne r (by omega), hplaces_ne r (by omega)]
    exact h.fresh r (by omega)
  · intro r q hq
    by_cases hr : r = s.nextRequest
    · subst hr
      obtain rfl := some.inj (hrequests_self.symm.trans hq)
      have hnot : s'.holding ≠ some s.nextRequest := by
        rw [hholding]
        exact fun hsome => places_of_current (h.holding_current hsome) hzero
      refine ⟨hplaces_self.le, ?_, fun _ => rfl, by omega, .inl ⟨rfl, rfl⟩, fun hasync _ => .inl ?_⟩
      · rw [hplaces_self, if_neg hnot]
        rfl
      · rw [hwaiting_self, if_neg (by simpa using hasync)]
    · obtain ⟨h1, h2, h3, h4, h5, h6⟩ := h.request r q (hrequests_ne r hr ▸ hq)
      have hplace := hplaces_ne r hr
      refine ⟨by rwa [hplace], by rwa [hplace, hholding], by rwa [hplace], by rwa [hplace, hterm], ?_, ?_⟩
      · refine h5.imp_right fun ⟨h51, h52, h53, h54⟩ => ⟨h51, by rwa [hterm], ?_, fun hin => h54 (hmem r hr hin)⟩
        subst hs'
        exact h53
      · intro hasync hone
        rw [hplace] at hone
        rw [hterm]
        refine (h6 hasync hone).imp_left fun hwait => ?_
        rwa [hwaiting_ne]
        intro heq
        rw [heq, hidle] at hwait
        cases hwait
  · intro r hr
    by_cases heq : r = s.nextRequest
    · exact ⟨_, heq ▸ hrequests_self⟩
    · rw [hrequests_ne r heq]
      exact h.accepted r (hplaces_ne r heq ▸ hr)
  · intro t r ht
    by_cases heq : t = thread
    · subst heq
      rw [hwaiting_self] at ht
      split_ifs at ht with hevent
      obtain rfl := some.inj ht
      exact ⟨_, hrequests_self, rfl, by simpa using hevent, hplaces_self, by rwa [hterm]⟩
    · rw [hwaiting_ne t heq] at ht
      obtain ⟨q, h1, h2, h3, h4, h5⟩ := h.waiting t r ht
      have hne := hold r q h1
      exact ⟨q, by rwa [hrequests_ne r hne], h2, h3, by rwa [hplaces_ne r hne], by rwa [hterm]⟩
  · intro op hop
    have hsome : ∀ r q, s.requests r = some q → s'.requests r = some q := by
      intro r q hq
      rwa [hrequests_ne r (hold r q hq)]
    have hopOk : OperationOk s op := by
      subst hs'
      exact h.operation op hop
    have hclosed : s.clientClosedStarted = true → s'.clientClosedStarted = true := by
      subst hs'
      exact id
    have hserver : s.serverDestroyed = true → s'.serverDestroyed = true := by
      subst hs'
      exact id
    have hne : ∀ r, s.requests r ≠ none → s'.requests r ≠ none := by
      intro r hr
      obtain ⟨q, hq⟩ := ne_none_iff_exists'.1 hr
      rw [hsome r q hq]
      simp
    cases op with
    | received r t isHle =>
      obtain ⟨h1, h2, q, hq, hthread⟩ := hopOk
      refine ⟨hcurrent.trans h1, ?_, q, hsome r q hq, hthread⟩
      subst hs'
      exact h2
    | receiveFailed r t =>
      obtain ⟨h1, q, hq, hthread⟩ := hopOk
      exact ⟨hcurrent.trans h1, q, hsome r q hq, hthread⟩
    | receiveReply r t =>
      obtain ⟨h1, q, hq, hthread⟩ := hopOk
      exact ⟨hcurrent.trans h1, q, hsome r q hq, hthread⟩
    | sendReply r => exact hne r hopOk
    | cleanup request => exact ⟨hserver hopOk.1, fun r hr => hne r (hopOk.2 r hr)⟩
    | clientClosing prevRequest request =>
      obtain ⟨h1, h2, h3⟩ := hopOk
      refine ⟨hclosed h1, fun r q hr hq hthread => ?_, fun c hc => ?_⟩
      · rw [hcurrent] at hr
        obtain ⟨p, hp⟩ := h.accepted r (places_of_current hr)
        rw [hrequests_ne r (hold r p hp)] at hq
        exact h2 r q hr hq hthread
      · obtain ⟨q, hq, hthread, hcase⟩ := h3 c hc
        refine ⟨q, hsome _ q hq, hthread, ?_⟩
        rwa [hcurrent]
  · intro hcalled
    subst hs'
    exact h.clientClosed hcalled
  · intro hstarted
    subst hs'
    exact h.clientStarted hstarted
  · intro hd
    subst hs'
    rw [hdestroyed] at hd
    cases hd
  · intro hserver
    subst hs'
    exact h.serverDestroyed hserver
  · intro hdone
    have hfalse := h.not_cleanupDone hnormal
    subst hs'
    rw [hfalse] at hdone
    cases hdone
  · subst hs'
    exact h.nullThread
  · subst hs'
    exact h.strayWakeup

lemma Inv.onRequest (h : Inv s) {thread : ℕ} {event : Option ℕ} (hdestroyed : s.clientDestroyed = false)
    (hidle : s.waiting thread = none) : Inv (s.onRequest thread event) := by
  unfold State.onRequest
  split_ifs with hnormal hterminate
  · exact h
  · exact h
  · rw [not_not] at hnormal
    rw [Bool.not_eq_true] at hterminate
    refine h.accept event hnormal hterminate hdestroyed hidle ?_
    cases event <;> rfl

/-! ## Runs -/

lemma Inv.step (h : Inv s) {a : Action} (henabled : s.Enabled a) : Inv (s.step a) := by
  cases a with
  | onRequest thread event => exact h.onRequest henabled.1 henabled.2
  | terminate thread => exact h.terminate thread
  | destroyClient => exact h.destroyClient henabled.2
  | destroyServer => exact h.destroyServer
  | receiveRequest isHle => exact h.receiveRequest henabled
  | sendReply => exact h.sendReply henabled
  | cleanupRequests =>
    obtain ⟨hlock, hserver, -⟩ := henabled
    have hstart : Inv { s with cleanupStarted := true } :=
      h.move rfl rfl (fun _ => rfl) rfl (fun _ => id) rfl rfl id (fun op hop => by rw [hlock] at hop; cases hop)
        h.clientClosed h.clientStarted h.clientDestroyed h.serverDestroyed h.cleanup rfl rfl
    exact hstart.cleanupNext (processing_of_none hlock) (holding_of_none hlock) hserver
  | onClientClosed =>
    obtain ⟨hlock, hcalled, hnotStarted⟩ := henabled
    have hstart : Inv { s with clientClosedStarted := true } :=
      h.move rfl rfl (fun _ => rfl) rfl (fun _ => id) rfl rfl (fun _ => rfl)
        (fun op hop => by rw [hlock] at hop; cases hop) h.clientClosed (fun _ => h.clientClosed hcalled)
        h.clientDestroyed h.serverDestroyed h.cleanup rfl rfl
    refine hstart.clientClosingNext (processing_of_none hlock) (holding_of_none hlock) rfl ?_
    -- No thread has been cleared so far.
    intro r q _ hq hnone
    rcases (h.request r q hq).thread with ⟨hthread, -⟩ | ⟨-, -, hstarted, -⟩
    · rw [hthread] at hnone
      cases hnone
    · rw [hnotStarted] at hstarted
      cases hstarted
  | advance received =>
    obtain ⟨op, hop⟩ := ne_none_iff_exists'.1 henabled
    simp only [State.step, hop]
    exact h.advance hop

/-- **The invariant holds in every run.** -/
theorem Inv.of_reachable (h : Reachable s) : Inv s := by
  induction h with
  | start => exact Inv.initial
  | step _ henabled ih => exact ih.step henabled

/-- **Every request is answered once.**  In every state that a run reaches, an accepted request is queued, current,
processed by the operation that holds `m_lock`, or finished, and in one of these only; the session has a reference to it
as long as it is not finished.  It is answered when it is finished, and once, unless its sender is terminating.  When the
session is destroyed all requests are finished.  No pointer to a thread that was cleared is followed, and no thread is
woken up that does not wait for the answer. -/
theorem requests_answered_once (h : Reachable s) :
    (∀ r q, s.requests r = some q → s.places r ≤ 1 ∧ q.references = s.places r + (if s.holding = some r then 1 else 0) ∧
      (s.holding = some r → s.currentRequest = some r) ∧
      (s.places r = 1 → q.answers = 0) ∧
      (s.places r = 0 → q.answers = 1 ∨ q.answers = 0 ∧ s.terminationRequested q.sender = true) ∧
      (s.cleanupDone = true → s.operation = none → s.places r = 0)) ∧
    s.nullThread = false ∧ s.strayWakeup = false := by
  have hinv := Inv.of_reachable h
  refine ⟨fun r q hq => ?_, hinv.nullThread, hinv.strayWakeup⟩
  have hok := hinv.request r q hq
  refine ⟨hok.places_le, hok.references, hinv.holding_current, hok.unanswered, hok.finished, fun hdone hlock => ?_⟩
  obtain ⟨-, hlist, hcurrent⟩ := hinv.cleanup hdone
  rw [places, hlist, hcurrent, processing_of_none hlock]
  rfl

/-- A request with an event that `OnClientClosed` answers, before the server is closed. -/
theorem requests_answered_once_client_closed :
    let run : List Action := [.onRequest 7 (some 3), .destroyClient, .onClientClosed, .advance false, .advance false,
      .destroyServer, .cleanupRequests]
    let s := run.foldl State.step initial
    Reachable s ∧ s.cleanupDone = true ∧ s.places 0 = 0 ∧ s.nullThread = false ∧ s.strayWakeup = false ∧
      (s.requests 0).map Request.answers = some 1 := by
  intro run s
  have hreach : Reachable s := by
    have h1 := Reachable.start.step (a := .onRequest 7 (some 3)) ⟨rfl, rfl⟩
    have h2 := h1.step (a := .destroyClient) ⟨rfl, fun _ => rfl⟩
    have h3 := h2.step (a := .onClientClosed) ⟨rfl, rfl, rfl⟩
    have h4 := h3.step (a := .advance false) (some_ne_none _)
    have h5 := h4.step (a := .advance false) (some_ne_none _)
    have h6 := h5.step (a := .destroyServer) rfl
    exact h6.step (a := .cleanupRequests) ⟨rfl, rfl, rfl⟩
  obtain ⟨hrequests, hnull, hstray⟩ := requests_answered_once hreach
  obtain ⟨-, -, -, -, -, hdone⟩ := hrequests 0 ⟨some 7, some 3, 7, true, 0, 1⟩ rfl
  exact ⟨hreach, rfl, hdone rfl rfl, hnull, hstray, rfl⟩

end

end Voltemu.Kernel.ServerSession
