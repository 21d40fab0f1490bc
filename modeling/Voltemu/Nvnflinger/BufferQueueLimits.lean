import Voltemu.Nvnflinger.BufferQueueSlots

/-!
# The slots in use and the maximal count

The assertions of `GetMaxBufferCountLocked` and `WaitForFreeSlotThenRelock`: no slot from the maximal count on is in use.

* Without an override the count reaches over the slots that are queued or dequeued, but not over those that are
  acquired.  With one it is the override, which two operations set: `SetBufferCount` and `SetPreallocatedBuffer`.
* `Move` says what a step can do to the state of one slot.  As long as the override stays, `Limited` is kept by every
  step but an acquisition of a slot that the count does not reach over by itself.
* `keepsLimit` says of a step that it leaves no slot in use outside the count.
-/

namespace Voltemu.Nvnflinger

open BufferQueueCore BufferQueueProducer BufferQueueConsumer Function List

instance (priority := 2000) neZero_slots : NeZero (numBufferSlots + 1) := ⟨by decide⟩

/-- A slot may be in a state, under an override.  Without one the count reaches over what is queued or dequeued. -/
def Within (overrideCount : Fin (numBufferSlots + 1)) (s : Slot) (st : BufferState) : Prop :=
  if overrideCount = 0 then s.val < defaultMaxBufferCount ∨ st ≠ .Acquired
  else s.val < overrideCount.val ∨ st = .Free

/-- **The invariant**: every slot is within the limit. -/
def Limited (c : BufferQueueCore) : Prop := ∀ s, Within c.overrideMaxBufferCount s (c.slots s).bufferState

/-! ## What a step must not do -/

/-- The slot that `AcquireBuffer` acquires. -/
def acquiredSlot (c : BufferQueueCore) (expectedPresent : ℤ) : Option Slot :=
  if maxAcquiredBufferCount + 1 ≤ (List.finRange numBufferSlots).countP
      (fun s => (c.slots s).bufferState == .Acquired) then none
  else
    let (slots, queue) :=
      if expectedPresent = 0 then (c.slots, c.queue) else dropStale expectedPresent c.slots c.queue
    match queue with
    | [] => none
    | front :: _ =>
        if expectedPresent ≠ 0 ∧ front.timestamp > expectedPresent ∧
            front.timestamp < expectedPresent + maxReasonableNsec then none
        else if (slots front.slot).tracks front then some front.slot else none

/-- The number of preallocated slots with one more. -/
def preallocatedWith (c : BufferQueueCore) (s : Slot) : ℕ :=
  (List.finRange numBufferSlots).countP fun t => t == s || (c.slots t).isPreallocated

/-- A step leaves no slot in use that the new count does not reach over.
* `SetBufferCount` with 0: nothing from the default count on is acquired.
* `SetBufferCount` with another count, while buffers are preallocated and so kept: everything from it on is free.
* `SetPreallocatedBuffer` with a buffer: everything else from the new number of preallocated slots on is free.
* `AcquireBuffer` without an override: it takes a slot below the default count. -/
def keepsLimit (c : BufferQueueCore) : Op → Bool
  | .setBufferCount n =>
      c.isAbandoned || decide (∃ s, (c.slots s).bufferState = .Dequeued) ||
        if n = 0 then decide (∀ s : Slot, defaultMaxBufferCount ≤ s.val → (c.slots s).bufferState ≠ .Acquired)
        else decide (n < 0) || decide (c.getPreallocatedBufferCountLocked ≤ 0) ||
          decide (∀ s : Slot, n ≤ s.val → (c.slots s).bufferState = .Free)
  | .setPreallocatedBuffer slot (some _) =>
      match slotOf slot with
      | none => true
      | some s => decide (∀ t, t ≠ s → preallocatedWith c s ≤ t.val → (c.slots t).bufferState = .Free)
  | .acquireBuffer expectedPresent =>
      decide (c.overrideMaxBufferCount ≠ 0) || (acquiredSlot c expectedPresent).all (·.val < defaultMaxBufferCount)
  | _ => true

/-- Every step of a run does. -/
def System.runKeepsLimit (σ : System) : List Op → Bool
  | [] => true
  | op :: ops => keepsLimit σ.core op && match σ.step op with
      | none => true
      | some r => r.1.runKeepsLimit ops

/-! ## The maximal count -/

section Count

variable {c : BufferQueueCore}

/-- Whether a call is asynchronous makes no difference to the count. -/
lemma getMaxBufferCountLocked_async (c : BufferQueueCore) (async : Bool) :
    c.getMaxBufferCountLocked async = c.getMaxBufferCountLocked false := by
  simp [getMaxBufferCountLocked, getMinMaxBufferCountLocked, getMinUndequeuedBufferCountLocked, useAsyncBuffer]

lemma getMaxBufferCountLocked_override (h : c.overrideMaxBufferCount ≠ 0) (async : Bool) :
    c.getMaxBufferCountLocked async = c.overrideMaxBufferCount.val := by
  rw [getMaxBufferCountLocked]
  exact if_pos h

/-- A loop that keeps the last index of a list of ascending indices reaches over all of them. -/
lemma lt_foldl_last {p : Slot → Prop} [DecidablePred p] (l : List Slot) (m : ℕ) (hsorted : l.Pairwise (· < ·))
    (hm : ∀ s ∈ l, p s → m ≤ s.val) :
    m ≤ l.foldl (fun m s => if p s then s.val + 1 else m) m ∧
      ∀ s ∈ l, p s → s.val < l.foldl (fun m s => if p s then s.val + 1 else m) m := by
  induction l generalizing m with
  | nil => exact ⟨le_refl m, fun s hs => absurd hs not_mem_nil⟩
  | cons t l ih =>
    obtain ⟨ht, hsorted⟩ := pairwise_cons.1 hsorted
    rw [foldl_cons]
    by_cases hp : p t
    · rw [if_pos hp]
      obtain ⟨hle, hlt⟩ := ih (t.val + 1) hsorted fun s hs _ => ht s hs
      have hmt := hm t mem_cons_self hp
      refine ⟨by omega, fun s hs hps => ?_⟩
      rcases mem_cons.1 hs with rfl | hs
      · omega
      · exact hlt s hs hps
    · rw [if_neg hp]
      obtain ⟨hle, hlt⟩ := ih m hsorted fun s hs => hm s (mem_cons_of_mem _ hs)
      refine ⟨hle, fun s hs hps => ?_⟩
      rcases mem_cons.1 hs with rfl | hs
      · exact absurd hps hp
      · exact hlt s hs hps

lemma lt_getMaxBufferCountLocked (h : c.overrideMaxBufferCount = 0) (async : Bool) :
    defaultMaxBufferCount ≤ c.getMaxBufferCountLocked async ∧
      ∀ s, (c.slots s).bufferState = .Queued ∨ (c.slots s).bufferState = .Dequeued →
        s.val < c.getMaxBufferCountLocked async := by
  have hbase : max defaultMaxBufferCount (c.getMinMaxBufferCountLocked async) = defaultMaxBufferCount := by
    simp [getMinMaxBufferCountLocked, getMinUndequeuedBufferCountLocked, useAsyncBuffer]
  rw [getMaxBufferCountLocked]
  simp only [h, ne_eq, not_true, if_false, hbase]
  obtain ⟨hle, hlt⟩ := lt_foldl_last (p := fun s : Slot => defaultMaxBufferCount ≤ s.val ∧
    ((c.slots s).bufferState = .Queued ∨ (c.slots s).bufferState = .Dequeued)) (List.finRange numBufferSlots)
    defaultMaxBufferCount (pairwise_lt_finRange _) fun s _ hs => hs.1
  refine ⟨hle, fun s hs => ?_⟩
  by_cases hlow : s.val < defaultMaxBufferCount
  · exact lt_of_lt_of_le hlow hle
  · exact hlt s (mem_finRange s) ⟨not_lt.1 hlow, hs⟩

/-- **What is within the limit is free from the maximal count on.** -/
lemma Limited.free (h : Limited c) (async : Bool) {s : Slot} (hs : c.getMaxBufferCountLocked async ≤ s.val) :
    (c.slots s).bufferState = .Free := by
  have hwithin := h s
  rw [Within] at hwithin
  by_cases hoverride : c.overrideMaxBufferCount = 0
  · rw [if_pos hoverride] at hwithin
    obtain ⟨hle, hlt⟩ := lt_getMaxBufferCountLocked hoverride async
    have hnot : ¬((c.slots s).bufferState = .Queued ∨ (c.slots s).bufferState = .Dequeued) :=
      fun hst => not_lt.2 hs (hlt s hst)
    cases hstate : (c.slots s).bufferState with
    | Free => rfl
    | Dequeued => exact (hnot (.inr hstate)).elim
    | Queued => exact (hnot (.inl hstate)).elim
    | Acquired => exact absurd hstate (hwithin.resolve_left (by omega))
  · rw [if_neg hoverride] at hwithin
    rw [getMaxBufferCountLocked_override hoverride] at hs
    exact hwithin.resolve_left (by omega)

end Count

/-! ## What a step can do -/

/-- What a step that keeps the override may make of the state of a slot. -/
inductive Move (c : BufferQueueCore) (s : Slot) : BufferState → Prop
  | stays : Move c s (c.slots s).bufferState
  | freed : Move c s .Free
  | dequeued (lt : s.val < c.getMaxBufferCountLocked false) : Move c s .Dequeued
  | queued (was : (c.slots s).bufferState = .Dequeued) : Move c s .Queued
  | acquired (was : (c.slots s).bufferState = .Queued)
      (low : c.overrideMaxBufferCount = 0 → s.val < defaultMaxBufferCount) : Move c s .Acquired

/-- A step that keeps the override, and what it makes of the slots. -/
def Moved (c c' : BufferQueueCore) : Prop :=
  c'.overrideMaxBufferCount = c.overrideMaxBufferCount ∧ ∀ s, Move c s (c'.slots s).bufferState

section Moves

variable {c c' : BufferQueueCore} {s : Slot}

lemma Moved.refl (c : BufferQueueCore) : Moved c c := ⟨rfl, fun _ => .stays⟩

lemma Moved.of_slots (hoverride : c'.overrideMaxBufferCount = c.overrideMaxBufferCount)
    (hslots : c'.slots = c.slots) : Moved c c' :=
  ⟨hoverride, fun s => by rw [hslots]; exact .stays⟩

lemma Moved.congr {d : BufferQueueCore} (h : Moved c c')
    (hoverride : d.overrideMaxBufferCount = c.overrideMaxBufferCount) (hslots : d.slots = c.slots) :
    Moved d c' := by
  have hmax : d.getMaxBufferCountLocked false = c.getMaxBufferCountLocked false := by
    simp only [getMaxBufferCountLocked, hoverride, hslots, getMinMaxBufferCountLocked,
      getMinUndequeuedBufferCountLocked, useAsyncBuffer, Bool.not_false, if_true]
  refine ⟨h.1.trans hoverride.symm, fun s => ?_⟩
  have hs := h.2 s
  generalize (c'.slots s).bufferState = st at hs ⊢
  cases hs with
  | stays =>
    rw [← hslots]
    exact .stays
  | freed => exact .freed
  | dequeued lt => exact .dequeued (hmax ▸ lt)
  | queued was => exact .queued (hslots ▸ was)
  | acquired was low => exact .acquired (hslots ▸ was) (hoverride ▸ low)

lemma Moved.of_update {v : BufferSlot} (hoverride : c'.overrideMaxBufferCount = c.overrideMaxBufferCount)
    (hslots : c'.slots = update c.slots s v) (hv : Move c s v.bufferState) : Moved c c' := by
  refine ⟨hoverride, fun t => ?_⟩
  rw [hslots]
  by_cases ht : t = s
  · subst ht
    rwa [update_self]
  · rw [update_of_ne ht]
    exact .stays

lemma Moved.of_freed (hoverride : c'.overrideMaxBufferCount = c.overrideMaxBufferCount)
    (hslots : ∀ s, (c'.slots s).bufferState = (c.slots s).bufferState ∨ (c'.slots s).bufferState = .Free) :
    Moved c c' := by
  refine ⟨hoverride, fun s => ?_⟩
  rcases hslots s with hs | hs <;> rw [hs]
  · exact .stays
  · exact .freed

lemma Limited.moved (h : Limited c) (hmoved : Moved c c') : Limited c' := by
  obtain ⟨hoverride, hmove⟩ := hmoved
  intro s
  have hs := h s
  have hst := hmove s
  rw [hoverride]
  generalize (c'.slots s).bufferState = st at hst ⊢
  cases hst with
  | stays => exact hs
  | freed =>
    rw [Within]
    split_ifs
    · exact .inr (by simp)
    · exact .inr rfl
  | dequeued lt =>
    rw [Within]
    split_ifs with hzero
    · exact .inr (by simp)
    · rw [getMaxBufferCountLocked_override hzero] at lt
      exact .inl lt
  | queued was =>
    rw [Within, was] at hs
    rw [Within]
    split_ifs at hs ⊢
    · exact .inr (by simp)
    · exact .inl (hs.resolve_right (by simp))
  | acquired was low =>
    rw [Within, was] at hs
    rw [Within]
    split_ifs at hs ⊢ with hzero
    · exact .inl (low hzero)
    · exact .inl (hs.resolve_right (by simp))

end Moves

section Producer

variable {c : BufferQueueCore}

lemma requestBuffer_moved (slot : ℤ) : Moved c (requestBuffer c slot).1 := by
  unfold requestBuffer
  split
  · exact .refl c
  · split
    · exact .refl c
    · split
      · exact .refl c
      · exact .of_update rfl rfl .stays

lemma detachBuffer_moved (slot : ℤ) : Moved c (detachBuffer c slot).1 := by
  unfold detachBuffer
  split
  · exact .refl c
  · split
    · exact .refl c
    · split
      · exact .refl c
      · split
        · exact .refl c
        · exact .of_update rfl rfl .freed

lemma cancelBuffer_moved (slot : ℤ) (fence : Fence) : Moved c (cancelBuffer c slot fence).1 := by
  unfold cancelBuffer
  split
  · exact .refl c
  · split
    · exact .refl c
    · split
      · exact .refl c
      · exact .of_update rfl rfl .freed

lemma connect_moved (api : NativeWindowApi) (controlled : Bool) :
    Moved c (BufferQueueProducer.connect c api controlled).1 := by
  unfold BufferQueueProducer.connect
  split
  · exact .refl c
  · split
    · exact .refl c
    · split
      · exact .refl c
      · dsimp only
        split <;> exact .of_slots rfl rfl

lemma disconnect_moved (api : NativeWindowApi) : Moved c (BufferQueueProducer.disconnect c api).1 := by
  unfold BufferQueueProducer.disconnect
  split
  · exact .refl c
  · split
    · exact .refl c
    · split
      · exact .of_freed rfl fun s => .inr rfl
      · exact .refl c

lemma enqueue_slots (c : BufferQueueCore) (item : BufferItem) :
    (enqueue c item).overrideMaxBufferCount = c.overrideMaxBufferCount ∧
      ∀ s, ((enqueue c item).slots s).bufferState = (c.slots s).bufferState ∨
        ((enqueue c item).slots s).bufferState = .Free := by
  unfold enqueue
  split
  · exact ⟨rfl, fun s => .inl rfl⟩
  · rename_i front rest hq
    have hfree : ∀ s, (update c.slots front.slot
        { c.slots front.slot with bufferState := .Free, frameNumber := 0 } s).bufferState =
          (c.slots s).bufferState ∨ (update c.slots front.slot
        { c.slots front.slot with bufferState := .Free, frameNumber := 0 } s).bufferState = .Free := by
      intro s
      by_cases hs : s = front.slot
      · subst hs
        exact .inr (by rw [update_self])
      · exact .inl (by rw [update_of_ne hs])
    dsimp only
    split <;> split
    · exact ⟨rfl, hfree⟩
    · exact ⟨rfl, fun s => .inl rfl⟩
    · exact ⟨rfl, hfree⟩
    · exact ⟨rfl, fun s => .inl rfl⟩

lemma queueBuffer_moved (slot : ℤ) (input : QueueBufferInput) : Moved c (queueBuffer c slot input).1 := by
  unfold queueBuffer
  split
  · exact .refl c
  · split
    · exact .refl c
    · split
      · exact .refl c
      · rename_i s hs
        split
        · exact .refl c
        · split
          · exact .refl c
          · rename_i hdequeued
            split
            · exact .refl c
            · rw [not_not] at hdequeued
              dsimp only
              generalize newItem c s input ((c.frameCounter + 1) % 2 ^ 64) = item
              generalize hc1 : ({ c.setSlot s { c.slots s with
                  bufferState := .Queued, frameNumber := (c.frameCounter + 1) % 2 ^ 64, fence := input.fence }
                  with frameCounter := (c.frameCounter + 1) % 2 ^ 64 } : BufferQueueCore) = c1
              have hmoved : Moved c c1 := by
                rw [← hc1]
                exact .of_update rfl rfl (.queued hdequeued)
              obtain ⟨hoverride, hslots⟩ := enqueue_slots c1 item
              refine ⟨hoverride.trans hmoved.1, fun t => ?_⟩
              change Move c t ((enqueue c1 item).slots t).bufferState
              rcases hslots t with ht | ht <;> rw [ht]
              · exact hmoved.2 t
              · exact .freed

lemma waitForFreeSlot_found {async : Bool} {s : Slot} (h : (waitForFreeSlot c async).2.2 = .found s) :
    s.val < c.getMaxBufferCountLocked async ∧ (c.slots s).bufferState = .Free := by
  unfold waitForFreeSlot at h
  split at h
  · cases h
  · dsimp only at h
    split at h
    · cases h
    · split at h
      · cases h
      · split at h
        · cases h
        · split at h
          · rename_i f hfound _
            cases h
            obtain ⟨hlt, hfree⟩ := findFree_spec hfound
            refine ⟨hlt, ?_⟩
            rcases freeBeyond_cases c (c.getMaxBufferCountLocked async) s with hs | ⟨-, hle, -⟩
            · rwa [hs] at hfree
            · omega
          · split at h <;> cases h

/-- A round of the search only frees. -/
lemma waitForFreeSlot_moved (async : Bool) : Moved c (waitForFreeSlot c async).1 := by
  obtain ⟨slots, hc, hslots, -⟩ := waitForFreeSlot_spec c async
  rw [hc]
  refine .of_freed rfl fun s => ?_
  change (slots s).bufferState = _ ∨ (slots s).bufferState = _
  rcases hslots s with hs | ⟨hs, -⟩ <;> rw [hs]
  · exact .inl rfl
  · exact .inr rfl

lemma takeSlot_slots (c : BufferQueueCore) (s : Slot) (w h : ℕ) (fmt : PixelFormat) (usage : BitVec 32)
    (flag : Bool) : ∃ v : BufferSlot, v.bufferState = .Dequeued ∧
      (takeSlot c s w h fmt usage flag).1.core = c.setSlot s v ∧
      ∀ t, ((∃ fence flags, (takeSlot c s w h fmt usage flag).2 = .dequeued t fence flags) ∨
        ∃ b f a, (takeSlot c s w h fmt usage flag).1.producer = .allocating t b f a) → t = s := by
  unfold takeSlot
  dsimp only
  generalize (if w = 0 ∧ h = 0 then c.defaultWidth else w) = w'
  generalize (if w = 0 ∧ h = 0 then c.defaultHeight else h) = h'
  split
  · refine ⟨_, rfl, rfl, fun t ht => ?_⟩
    rcases ht with ⟨_, _, ht⟩ | ⟨_, _, _, ht⟩ <;> cases ht
    rfl
  · refine ⟨_, rfl, rfl, fun t ht => ?_⟩
    rcases ht with ⟨_, _, ht⟩ | ⟨_, _, _, ht⟩ <;> cases ht
    rfl

/-- The producer has a slot, or goes on to create its buffer. -/
def Takes (σ : System) (reply : Reply) (s : Slot) : Prop :=
  (∃ fence flags, reply = .dequeued s fence flags) ∨ ∃ b f a, σ.producer = .allocating s b f a

/-- **A round of `DequeueBuffer`** takes a free slot below the maximal count, if any. -/
lemma dequeueRound_moved (async : Bool) (w h : ℕ) (fmt : PixelFormat) (usage : BitVec 32) (flag : Bool) :
    Moved c (dequeueRound c async w h fmt usage flag).1.core ∧
      ∀ s, Takes (dequeueRound c async w h fmt usage flag).1 (dequeueRound c async w h fmt usage flag).2 s →
        s.val < c.getMaxBufferCountLocked async ∧ (c.slots s).bufferState = .Free := by
  have hmoved := waitForFreeSlot_moved (c := c) async
  have hfound : ∀ s, (waitForFreeSlot c async).2.2 = .found s →
      s.val < c.getMaxBufferCountLocked async ∧ (c.slots s).bufferState = .Free := fun _ => waitForFreeSlot_found
  unfold dequeueRound
  rcases hw : waitForFreeSlot c async with ⟨c', freed, round⟩
  rw [hw] at hmoved hfound
  cases round with
  | error status =>
    refine ⟨hmoved, fun s hs => ?_⟩
    rcases hs with ⟨_, _, hs⟩ | ⟨_, _, _, hs⟩ <;> cases hs
  | again =>
    refine ⟨hmoved, fun s hs => ?_⟩
    rcases hs with ⟨_, _, hs⟩ | ⟨_, _, _, hs⟩ <;> cases hs
  | found s =>
    obtain ⟨v, hv, hcore, htakes⟩ := takeSlot_slots c' s w h fmt usage (flag || freed)
    obtain ⟨hlt, hfree⟩ := hfound s rfl
    refine ⟨?_, fun t ht => ?_⟩
    · dsimp only
      rw [hcore]
      refine ⟨hmoved.1, fun t => ?_⟩
      change Move c t (update c'.slots s v t).bufferState
      by_cases ht : t = s
      · subst ht
        rw [update_self, hv]
        rw [getMaxBufferCountLocked_async] at hlt
        exact .dequeued hlt
      · rw [update_of_ne ht]
        exact hmoved.2 t
    · rw [htakes t ht]
      exact ⟨hlt, hfree⟩

lemma dequeueAllocated_moved (s : Slot) (buffer : NvGraphicBuffer) (flags : DequeueFlags) (attached : Bool) :
    Moved c (dequeueAllocated c s buffer flags attached).1 := by
  unfold dequeueAllocated
  split
  · exact .refl c
  · exact .of_update rfl rfl .stays

/-! ## The steps that set the override -/

lemma setBufferCount_limited (h : Limited c) {n : ℤ} (hkeeps : keepsLimit c (.setBufferCount n) = true) :
    Limited (setBufferCount c n).1 := by
  unfold setBufferCount
  split
  · exact h
  · rename_i habandoned
    split
    · exact h
    · rename_i hlarge
      split
      · exact h
      · rename_i hdequeued
        simp only [keepsLimit, Bool.or_eq_true, decide_eq_true_eq, hdequeued, habandoned,
          Bool.false_eq_true, or_false, false_or] at hkeeps
        split
        · rename_i hzero
          simp only [hzero, if_true, decide_eq_true_eq] at hkeeps
          intro s
          change Within 0 s (c.slots s).bufferState
          rw [Within, if_pos rfl]
          by_cases hlow : s.val < defaultMaxBufferCount
          · exact .inl hlow
          · exact .inr (hkeeps s (not_lt.1 hlow))
        · rename_i hzero
          split
          · exact h
          · rename_i hpositive
            have hcount : (Fin.ofNat (numBufferSlots + 1) n.toNat).val = n.toNat := by
              rw [Fin.val_ofNat, Nat.mod_eq_of_lt]
              omega
            have hne : Fin.ofNat (numBufferSlots + 1) n.toNat ≠ 0 := fun heq => by
              have := congrArg Fin.val heq
              rw [hcount] at this
              simp at this
              omega
            intro s
            change Within (Fin.ofNat _ n.toNat) s (BufferSlot.bufferState _)
            rw [Within, if_neg hne, hcount]
            split
            · exact .inr rfl
            · rename_i hpreallocated
              simp only [hzero, if_false, Bool.or_eq_true, decide_eq_true_eq, hpreallocated, or_false] at hkeeps
              rcases hkeeps with hneg | hfree
              · omega
              · by_cases hs : s.val < n.toNat
                · exact .inl hs
                · exact .inr (hfree s (by omega))

lemma setPreallocatedBuffer_limited (h : Limited c) {slot : ℤ} {buffer : Option NvGraphicBuffer}
    (hkeeps : keepsLimit c (.setPreallocatedBuffer slot buffer) = true) :
    Limited (setPreallocatedBuffer c slot buffer).1 := by
  unfold setPreallocatedBuffer
  split
  · exact h
  · rename_i s hs
    cases buffer with
    | none => exact h.moved (.of_update rfl rfl .freed)
    | some b =>
      simp only [keepsLimit, hs, decide_eq_true_eq] at hkeeps
      dsimp only
      generalize hv : ({ fence := Fence.noFence, graphicBuffer := some ⟨b, c.nextObject⟩,
                         isPreallocated := true } : BufferSlot) = v
      have hfree : v.bufferState = .Free := by rw [← hv]
      have hpreallocated : v.isPreallocated = true := by rw [← hv]
      -- the new number of preallocated slots
      have hcount : getPreallocatedBufferCountLocked
          { c.setSlot s v with nextObject := c.nextObject + 1 } = preallocatedWith c s := by
        refine countP_congr fun t _ => ?_
        change (update c.slots s v t).isPreallocated = true ↔ _
        by_cases ht : t = s
        · subst ht
          simp [hpreallocated]
        · simp [ht]
      have hle : preallocatedWith c s ≤ numBufferSlots := by
        have := countP_le_length (p := fun t => t == s || (c.slots t).isPreallocated) (l := List.finRange numBufferSlots)
        rwa [length_finRange] at this
      have hpos : 0 < preallocatedWith c s :=
        countP_pos_iff.2 ⟨s, mem_finRange s, by simp⟩
      have hval : (Fin.ofNat (numBufferSlots + 1) (preallocatedWith c s)).val = preallocatedWith c s := by
        rw [Fin.val_ofNat, Nat.mod_eq_of_lt (by omega)]
      have hne : Fin.ofNat (numBufferSlots + 1) (preallocatedWith c s) ≠ 0 := fun heq => by
        have := congrArg Fin.val heq
        rw [hval] at this
        simp at this
        omega
      rw [hcount]
      intro t
      change Within (Fin.ofNat _ (preallocatedWith c s)) t (update c.slots s v t).bufferState
      rw [Within, if_neg hne, hval]
      by_cases ht : t = s
      · subst ht
        rw [update_self]
        exact .inr hfree
      · rw [update_of_ne ht]
        by_cases hlt : t.val < preallocatedWith c s
        · exact .inl hlt
        · exact .inr (hkeeps t ht (not_lt.1 hlt))

end Producer

section Consumer

variable {c : BufferQueueCore} {p : Producer}

lemma dropStale_slots (expected : ℤ) : ∀ (slots : Slot → BufferSlot) (queue : List BufferItem) (s : Slot),
    ((dropStale expected slots queue).1 s).bufferState = (slots s).bufferState ∨
      ((dropStale expected slots queue).1 s).bufferState = .Free
  | _, [], _ => .inl rfl
  | _, [_], _ => .inl rfl
  | slots, first :: second :: rest, s => by
    unfold dropStale
    split
    · exact .inl rfl
    · split
      · exact .inl rfl
      · have ih := dropStale_slots expected
          (if (slots first.slot).tracks first then
            update slots first.slot { slots first.slot with bufferState := .Free }
          else slots) (second :: rest) s
        refine ih.elim (fun hs => ?_) .inr
        rw [hs]
        split
        · by_cases hfirst : s = first.slot
          · subst hfirst
            exact .inr (by rw [update_self])
          · exact .inl (by rw [update_of_ne hfirst])
        · exact .inl rfl

lemma takeFront_moved {slots : Slot → BufferSlot} {front : BufferItem} {rest : List BufferItem}
    (hinv : Inv slots (front :: rest) c.nextObject c.isAbandoned p)
    (hslots : ∀ s, (slots s).bufferState = (c.slots s).bufferState ∨ (slots s).bufferState = .Free)
    (hlow : c.overrideMaxBufferCount = 0 → (slots front.slot).tracks front = true →
      front.slot.val < defaultMaxBufferCount) :
    Moved c (takeFront { c with slots := slots, queue := front :: rest } front rest).1 := by
  have hkept : Moved c { c with slots := slots, queue := front :: rest } := .of_freed rfl hslots
  unfold takeFront
  split
  · rename_i htracks
    have htracks : (slots front.slot).tracks front = true := htracks
    have hqueued := hinv.queued_of_tracks htracks
    have hwas : (c.slots front.slot).bufferState = .Queued := by
      rw [← hqueued]
      exact ((hslots front.slot).resolve_right (by simp [hqueued])).symm
    refine ⟨rfl, fun s => ?_⟩
    change Move c s (update slots front.slot _ s).bufferState
    by_cases hs : s = front.slot
    · subst hs
      rw [update_self]
      exact .acquired hwas fun hzero => hlow hzero htracks
    · rw [update_of_ne hs]
      exact hkept.2 s
  · exact ⟨rfl, hkept.2⟩

lemma acquireBuffer_moved {expected : ℤ} (hinv : Inv c.slots c.queue c.nextObject c.isAbandoned p)
    (hkeeps : keepsLimit c (.acquireBuffer expected) = true) : Moved c (acquireBuffer c expected).1 := by
  simp only [keepsLimit, Bool.or_eq_true, decide_eq_true_eq] at hkeeps
  have hlow (s : Slot) (hs : acquiredSlot c expected = some s) (hzero : c.overrideMaxBufferCount = 0) :
      s.val < defaultMaxBufferCount := by
    have hall := hkeeps.resolve_left (not_not.2 hzero)
    simpa [hs] using hall
  unfold acquireBuffer
  split
  · exact .refl c
  · rename_i hcount
    split
    · exact .refl c
    · rename_i front rest hq
      have hsame : c = { c with slots := c.slots, queue := front :: rest } := by rw [← hq]
      split
      · rename_i hexpected
        rw [hq] at hinv
        have htake := takeFront_moved hinv (fun s => .inl rfl) fun hzero htracks => hlow _
          (by simp [acquiredSlot, hcount, hexpected, hq, htracks]) hzero
        rwa [← hsame] at htake
      · rename_i hexpected
        have hdropInv := (dropStale_spec expected (n := c.nextObject) (a := c.isAbandoned) (p := p) c.slots
          (front :: rest)).1
        have hdropSlots := dropStale_slots expected c.slots (front :: rest)
        rcases hdrop : dropStale expected c.slots (front :: rest) with ⟨slots, queue⟩
        rw [hdrop] at hdropInv hdropSlots
        rw [← hq] at hdropInv
        cases queue with
        | nil => exact .of_freed rfl hdropSlots
        | cons front' rest' =>
          dsimp only
          split
          · exact .of_freed rfl hdropSlots
          · rename_i hlater
            refine takeFront_moved (hdropInv hinv) hdropSlots fun hzero htracks => hlow _ ?_ hzero
            simp only [acquiredSlot, if_neg hcount, if_neg hexpected, hq, hdrop]
            rw [if_neg fun hc => hlater hc.2, if_pos htracks]

lemma releaseBuffer_moved (slot : ℤ) (frame : ℕ) : Moved c (releaseBuffer c slot frame).1 := by
  unfold releaseBuffer
  split
  · exact .refl c
  · split
    · exact .refl c
    · split
      · exact .refl c
      · split
        · exact .of_update rfl rfl .freed
        · split
          · exact .of_update rfl rfl .stays
          · exact .refl c

lemma consumerConnect_moved (controlled : Bool) : Moved c (BufferQueueConsumer.connect c controlled).1 := by
  unfold BufferQueueConsumer.connect
  split
  · exact .refl c
  · exact .of_slots rfl rfl

lemma consumerDisconnect_moved : Moved c (BufferQueueConsumer.disconnect c).1 := by
  unfold BufferQueueConsumer.disconnect
  split
  · exact .refl c
  · exact .of_freed rfl fun s => .inr rfl

end Consumer

/-! ## Runs -/

section Runs

variable {σ σ' : System} {reply : Reply}

variable {f : BufferQueueCore → BufferQueueCore × Reply}

lemma limited_produce (h : σ.produce f = some (σ', reply)) (hf : Limited (f σ.core).1) : Limited σ'.core := by
  obtain ⟨core, producer⟩ := σ
  cases producer with
  | idle =>
    cases h
    exact hf
  | waiting => cases h
  | allocating => cases h

lemma limited_consume (h : σ.consume f = some (σ', reply)) (hf : Limited (f σ.core).1) : Limited σ'.core := by
  cases h
  exact hf

lemma dequeue_section {op : Op} (hop : op = .dequeueWake ∨ ∃ a w h f u, op = .dequeueBuffer a w h f u)
    (h : σ.step op = some (σ', reply)) :
    Moved σ.core σ'.core ∧ ∀ s, Takes σ' reply s →
      s.val < σ.core.getMaxBufferCountLocked false ∧ (σ.core.slots s).bufferState = .Free := by
  obtain ⟨c, p⟩ := σ
  rcases hop with rfl | ⟨async, w, hgt, fmt, usage, rfl⟩
  · cases p with
    | idle => cases h
    | allocating => cases h
    | waiting async w hgt fmt usage flag =>
      simp only [System.step] at h
      split at h
      · rw [Option.some.injEq] at h
        have hround := dequeueRound_moved (c := { c with dequeuePossible := false }) async w hgt fmt usage flag
        rw [h, getMaxBufferCountLocked_async] at hround
        exact ⟨hround.1.congr rfl rfl, hround.2⟩
      · cases h
  · cases p with
    | waiting => cases h
    | allocating => cases h
    | idle =>
      simp only [System.step, Option.some.injEq] at h
      unfold dequeueBuffer at h
      split at h
      · cases h
        refine ⟨.refl c, fun s hs => ?_⟩
        rcases hs with ⟨_, _, hs⟩ | ⟨_, _, _, hs⟩ <;> cases hs
      · have hround := dequeueRound_moved (c := c) async w hgt
          (if fmt = .NoFormat then c.defaultBufferFormat else fmt) (usage ||| c.consumerUsageBit) false
        rw [h, getMaxBufferCountLocked_async] at hround
        exact hround

/-- **Every step that leaves nothing in use outside the count keeps the limit.** -/
lemma step_limited {op : Op} (hinv : σ.Inv) (hl : Limited σ.core) (hkeeps : keepsLimit σ.core op = true)
    (h : σ.step op = some (σ', reply)) : Limited σ'.core := by
  cases op with
  | connect api controlled =>
    simp only [System.step] at h
    exact limited_produce h (hl.moved (connect_moved api controlled))
  | setPreallocatedBuffer slot buffer =>
    simp only [System.step] at h
    exact limited_produce h (setPreallocatedBuffer_limited hl hkeeps)
  | dequeueBuffer async w hgt fmt usage =>
    exact hl.moved (dequeue_section (.inr ⟨async, w, hgt, fmt, usage, rfl⟩) h).1
  | dequeueWake => exact hl.moved (dequeue_section (.inl rfl) h).1
  | dequeueAllocated =>
    obtain ⟨c, p⟩ := σ
    cases p with
    | idle => cases h
    | waiting => cases h
    | allocating s buffer flags attached =>
      cases h
      exact hl.moved (dequeueAllocated_moved s buffer flags attached)
  | requestBuffer slot =>
    simp only [System.step] at h
    exact limited_produce h (hl.moved (requestBuffer_moved slot))
  | queueBuffer slot input =>
    simp only [System.step] at h
    exact limited_produce h (hl.moved (queueBuffer_moved slot input))
  | cancelBuffer slot fence =>
    simp only [System.step] at h
    exact limited_produce h (hl.moved (cancelBuffer_moved slot fence))
  | detachBuffer slot =>
    simp only [System.step] at h
    exact limited_produce h (hl.moved (detachBuffer_moved slot))
  | setBufferCount n =>
    simp only [System.step] at h
    exact limited_produce h (setBufferCount_limited hl hkeeps)
  | disconnect api =>
    simp only [System.step] at h
    exact limited_produce h (hl.moved (disconnect_moved api))
  | consumerConnect controlled =>
    simp only [System.step] at h
    exact limited_consume h (hl.moved (consumerConnect_moved controlled))
  | acquireBuffer expected =>
    simp only [System.step] at h
    exact limited_consume h (hl.moved (acquireBuffer_moved hinv hkeeps))
  | releaseBuffer slot frame =>
    simp only [System.step] at h
    exact limited_consume h (hl.moved (releaseBuffer_moved slot frame))
  | consumerDisconnect =>
    exact limited_consume h (hl.moved consumerDisconnect_moved)

lemma run_limited {ops : List Op} {replies : List Reply} (hinv : σ.Inv) (hl : Limited σ.core)
    (hkeeps : σ.runKeepsLimit ops = true) (h : σ.run ops = some (σ', replies)) : Limited σ'.core := by
  induction ops generalizing σ replies with
  | nil =>
    cases h
    exact hl
  | cons op ops ih =>
    obtain ⟨σ1, reply, rest, hs, hr, -⟩ := run_cons h
    rw [System.runKeepsLimit, hs, Bool.and_eq_true] at hkeeps
    exact ih ((step_sound hs).inv hinv) (step_limited hinv hl hkeeps.1 hs) hkeeps.2 hr

lemma init_limited : Limited System.init.core := fun s => by
  rw [Within, if_pos (show System.init.core.overrideMaxBufferCount = 0 from rfl)]
  exact .inr (by simp [System.init])

end Runs

/-- **The slots in use and the maximal count**, in every state of a run.  The override is never below the minimum, and a
section of `DequeueBuffer` only takes a slot that is free and below the maximal count.  If every step of the run leaves
nothing in use that the new count does not reach over, every slot from the maximal count on is free. -/
theorem slots_limited_of_run {ops : List Op} {σ : System} {replies : List Reply}
    (h : System.init.run ops = some (σ, replies)) :
    (∀ async, σ.core.overrideMaxBufferCount ≠ 0 →
      σ.core.getMinMaxBufferCountLocked async ≤ σ.core.overrideMaxBufferCount.val) ∧
    (∀ op σ' reply s, (op = .dequeueWake ∨ ∃ a w h f u, op = .dequeueBuffer a w h f u) →
      σ.step op = some (σ', reply) → Takes σ' reply s →
        (∀ async, s.val < σ.core.getMaxBufferCountLocked async) ∧ (σ.core.slots s).bufferState = .Free) ∧
    (System.init.runKeepsLimit ops = true →
      ∀ async s, σ.core.getMaxBufferCountLocked async ≤ s.val → (σ.core.slots s).bufferState = .Free) := by
  refine ⟨fun async _ => ?_, fun op σ' reply s hop hs htakes => ?_, fun hkeeps async s hs => ?_⟩
  · simp [getMinMaxBufferCountLocked, getMinUndequeuedBufferCountLocked, useAsyncBuffer]
  · obtain ⟨hlt, hfree⟩ := (dequeue_section hop hs).2 s htakes
    exact ⟨fun async => by rwa [getMaxBufferCountLocked_async], hfree⟩
  · exact (run_limited init_inv init_limited hkeeps h).free async hs

/-- Three buffers; the third is presented, and the others are given back. -/
def thirdPresented : List Op :=
  [.consumerConnect false, .connect .Egl false, .setBufferCount 3, plainDequeue, .dequeueAllocated, plainDequeue,
    .dequeueAllocated, plainDequeue, .dequeueAllocated, .requestBuffer 2, .queueBuffer 2 (plainInput false),
    .acquireBuffer 0, .cancelBuffer 0 Fence.noFence, .cancelBuffer 1 Fence.noFence]

/-- The count is three while the third buffer is presented. -/
theorem slots_limited_of_presented :
    (System.init.run thirdPresented).map (fun q =>
      ((q.1.core.slots 2).bufferState, q.1.core.getMaxBufferCountLocked false)) = some (.Acquired, 3) ∧
    ∀ σ replies, System.init.run thirdPresented = some (σ, replies) →
      ∀ async s, σ.core.getMaxBufferCountLocked async ≤ s.val → (σ.core.slots s).bufferState = .Free :=
  ⟨by decide +kernel, fun _ _ h => (slots_limited_of_run h).2.2 (by decide +kernel)⟩

/-- **The count is given up while the third buffer is presented**, and `DequeueBuffer` finds a slot in use beyond the
maximal count. -/
theorem slots_beyond_limit :
    ∃ σ replies, System.init.run (thirdPresented ++ [.setBufferCount 0]) = some (σ, replies) ∧
      (σ.step plainDequeue).isSome = true ∧
      ¬∀ async s, σ.core.getMaxBufferCountLocked async ≤ s.val → (σ.core.slots s).bufferState = .Free := by
  have hrun : (System.init.run (thirdPresented ++ [.setBufferCount 0])).map (fun q =>
      ((q.1.core.slots 2).bufferState, q.1.core.getMaxBufferCountLocked false, (q.1.step plainDequeue).isSome)) =
      some (.Acquired, 2, true) := by decide +kernel
  obtain ⟨⟨σ, replies⟩, hσ, hvalues⟩ := Option.map_eq_some_iff.1 hrun
  simp only [Prod.mk.injEq] at hvalues
  obtain ⟨hstate, hmax, hstep⟩ := hvalues
  refine ⟨σ, replies, hσ, hstep, fun hfree => ?_⟩
  have hslot := hfree false 2 (by rw [hmax]; decide)
  rw [hstate] at hslot
  exact BufferState.noConfusion hslot

end Voltemu.Nvnflinger
