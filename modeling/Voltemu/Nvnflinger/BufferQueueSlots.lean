import Voltemu.Nvnflinger.TrackedItems

/-!
# Slots and queue over whole runs

What every operation does to the invariant, to the queue and, when it fails, to the slots.

* `Sound` is the specification of one section under the mutex: the invariant is kept, `Log` says how the queue
  changes with the answer, and a failing section changes only what `MayChange` names.
* A failing `DequeueBuffer` may have freed buffers beyond the maximal count, and `ReleaseBuffer` notes that a stale
  buffer has come back.  Nothing else changes when an operation fails.
* An item that `AcquireBuffer` drops is followed by a timely one, so an item that is dropped is never followed by
  `PresentLater`.
-/

namespace Voltemu.Nvnflinger

open BufferQueueCore BufferQueueProducer BufferQueueConsumer List Function

/-- How the queue and the frame counter change with the answer of an operation. -/
def Log (c c' : BufferQueueCore) : Reply → Prop
  | .queued item _ =>
      item.frameNumber = (c.frameCounter + 1) % 2 ^ 64 ∧ c'.frameCounter = item.frameNumber ∧
        (c'.queue = c.queue ++ [item] ∨ ∃ front rest, c.queue = front :: rest ∧
          front.isDroppable = true ∧ c'.queue = item :: rest)
  | .acquired out =>
      c'.frameCounter = c.frameCounter ∧ ∃ item, out = handOut item ∧ (item :: c'.queue).Sublist c.queue
  | _ => c'.frameCounter = c.frameCounter ∧ c'.queue.Sublist c.queue

/-- The contents that a failed operation may leave in a slot, apart from the old one. -/
def MayChange (c : BufferQueueCore) (op : Op) (s : Slot) (v : BufferSlot) : Prop :=
  match op with
  | .dequeueBuffer .. | .dequeueWake =>
      (∃ async, c.getMaxBufferCountLocked async ≤ s.val) ∧ (c.slots s).bufferState = .Free ∧
        (c.slots s).isPreallocated = false ∧ v = (c.slots s).freeBuffer
  | .releaseBuffer slot _ =>
      slotOf slot = some s ∧ (c.slots s).needsCleanupOnRelease = true ∧
        v = { c.slots s with needsCleanupOnRelease := false }
  | _ => False

/-- The specification of one section under the mutex. -/
structure Sound (op : Op) (c c' : BufferQueueCore) (p p' : Producer) (reply : Reply) : Prop where
  inv : Inv c.slots c.queue c.nextObject c.isAbandoned p → Inv c'.slots c'.queue c'.nextObject c'.isAbandoned p'
  log : Log c c' reply
  queued : ∀ item out, reply = .queued item out → ∃ slot input, op = .queueBuffer slot input
  failed : reply.Fails → c'.queue = c.queue ∧ ∀ s, c'.slots s = c.slots s ∨ MayChange c op s (c'.slots s)

section Rules

variable {op : Op} {c c' : BufferQueueCore} {p p' : Producer} {reply : Reply}

lemma Sound.frame (hs : c'.slots = c.slots) (hq : c'.queue = c.queue)
    (hn : c'.nextObject = c.nextObject) (ha : c'.isAbandoned = c.isAbandoned)
    (hf : c'.frameCounter = c.frameCounter) (hp : p' = p)
    (hr : ∀ item out, reply ≠ .queued item out) (hr' : ∀ item, reply ≠ .acquired item) :
    Sound op c c' p p' reply where
  inv h := by rwa [hs, hq, hn, ha, hp]
  log := by
    cases reply with
    | queued item out => exact absurd rfl (hr item out)
    | acquired item => exact absurd rfl (hr' item)
    | _ => exact ⟨hf, hq ▸ List.Sublist.refl _⟩
  queued item out h := absurd h (hr item out)
  failed _ := ⟨hq, fun s => .inl (hs ▸ rfl)⟩

lemma Sound.refused (op : Op) (c : BufferQueueCore) (p : Producer) (status : Status) :
    Sound op c c p p (.status status) :=
  .frame rfl rfl rfl rfl rfl rfl (fun _ _ => Reply.noConfusion) fun _ => Reply.noConfusion

lemma Sound.success (hinv : Inv c.slots c.queue c.nextObject c.isAbandoned p →
      Inv c'.slots c'.queue c'.nextObject c'.isAbandoned p')
    (hf : c'.frameCounter = c.frameCounter) (hq : c'.queue.Sublist c.queue)
    (hr : ¬ reply.Fails) (hr' : ∀ item out, reply ≠ .queued item out)
    (hr'' : ∀ item, reply ≠ .acquired item) : Sound op c c' p p' reply where
  inv := hinv
  log := by
    cases reply with
    | queued item out => exact absurd rfl (hr' item out)
    | acquired item => exact absurd rfl (hr'' item)
    | _ => exact ⟨hf, hq⟩
  queued item out h := absurd h (hr' item out)
  failed h := absurd h hr

variable {slots : Slot → BufferSlot} {queue : List BufferItem} {n : ℕ} {a : Bool} {s : Slot} {v : BufferSlot}

lemma Inv.update_dequeued (h : Inv slots queue n a .idle)
    (hd : (slots s).bufferState = .Dequeued) (hvq : v.bufferState ≠ .Queued)
    (hvb : v.graphicBuffer = (slots s).graphicBuffer ∨ v.bufferState = .Free ∧ v.graphicBuffer = none) :
    Inv (Function.update slots s v) queue n a .idle := by
  refine h.update le_rfl hvq ?_ ?_ ?_ (fun t b f at' => Producer.noConfusion)
    fun t b f at' _ hp => Producer.noConfusion hp
  · rcases hvb with hvb | ⟨-, hvb⟩
    · exact (trackedBy_congr hvb).trans ((h.agrees s).eq_nil (by rw [hd]; exact BufferState.noConfusion))
    · exact trackedBy_none hvb
  · intro b hb
    rcases hvb with hvb | ⟨-, hvb⟩
    · exact h.slotObject s b (hvb ▸ hb)
    · rw [hvb] at hb
      cases hb
  · intro hdv hbv
    rcases hvb with hvb | ⟨hfree, -⟩
    · rcases h.dequeued s hd (hvb ▸ hbv) with ha | ⟨b, f, at', hp⟩
      · exact .inl ha
      · exact Producer.noConfusion hp
    · rw [hfree] at hdv
      exact BufferState.noConfusion hdv

lemma Inv.update_kept (h : Inv slots queue n a p) (hvb : v.graphicBuffer = (slots s).graphicBuffer)
    (hvf : v.frameNumber = (slots s).frameNumber)
    (hq : v.bufferState = .Queued ↔ (slots s).bufferState = .Queued)
    (hd : v.bufferState = .Dequeued ↔ (slots s).bufferState = .Dequeued) :
    Inv (Function.update slots s v) queue n a p := by
  refine ⟨fun t => ?_, fun t b => ?_, h.itemObject, fun t => ?_, fun t b f at' hp => ?_⟩
  all_goals by_cases ht : t = s
  · subst ht
    have ha := h.agrees t
    rw [update_self, trackedBy_congr hvb]
    simpa only [Agrees, hq, hvf] using ha
  · rw [Function.update_of_ne ht]
    exact h.agrees t
  · subst ht
    rw [update_self, hvb]
    exact h.slotObject t b
  · rw [Function.update_of_ne ht]
    exact h.slotObject t b
  · subst ht
    rw [update_self, hvb, hd]
    exact h.dequeued t
  · rw [Function.update_of_ne ht]
    exact h.dequeued t
  · subst ht
    rw [update_self, hd]
    exact h.allocating t b f at' hp
  · rw [Function.update_of_ne ht]
    exact h.allocating t b f at' hp

end Rules

section Producer

variable {c : BufferQueueCore}

lemma requestBuffer_sound (slot : ℤ) :
    Sound (.requestBuffer slot) c (requestBuffer c slot).1 .idle .idle (requestBuffer c slot).2 := by
  unfold requestBuffer
  split
  · exact .refused ..
  · split
    · exact .refused ..
    · rename_i s _
      split
      · exact .refused ..
      · rename_i hd
        refine .success (fun h => ?_) rfl (List.Sublist.refl _) id (fun _ _ => Reply.noConfusion)
          fun _ => Reply.noConfusion
        have hd' := not_not.1 hd
        refine h.update_dequeued hd' ?_ (.inl rfl)
        simp [hd']

lemma setBufferCount_sound (n : ℤ) :
    Sound (.setBufferCount n) c (setBufferCount c n).1 .idle .idle (setBufferCount c n).2 := by
  unfold setBufferCount
  split
  · exact .refused ..
  · split
    · exact .refused ..
    · split
      · exact .refused ..
      · rename_i hd
        split
        · exact .frame rfl rfl rfl rfl rfl rfl (fun _ _ => Reply.noConfusion)
            fun _ => Reply.noConfusion
        · split
          · exact .refused ..
          · -- all buffers are freed, unless some are preallocated; the queue stays
            refine .success (fun h => ?_) ?_ ?_ (by simp [Reply.Fails])
              (fun _ _ => Reply.noConfusion) fun _ => Reply.noConfusion
            · dsimp only [signalDequeueCondition]
              split
              · exact h.free fun s => .inr ⟨rfl, fun hs => hd ⟨s, hs⟩⟩
              · exact h
            · dsimp only [signalDequeueCondition]
              split <;> rfl
            · dsimp only [signalDequeueCondition]
              split <;> exact List.Sublist.refl _

lemma detachBuffer_sound (slot : ℤ) :
    Sound (.detachBuffer slot) c (detachBuffer c slot).1 .idle .idle (detachBuffer c slot).2 := by
  unfold detachBuffer
  split
  · exact .refused ..
  · split
    · exact .refused ..
    · rename_i s _
      split
      · exact .refused ..
      · rename_i hd
        split
        · exact .refused ..
        · refine .success (fun h => ?_) rfl (List.Sublist.refl _) (by simp [Reply.Fails])
            (fun _ _ => Reply.noConfusion) fun _ => Reply.noConfusion
          exact h.update_dequeued (not_not.1 hd) (by simp [BufferSlot.freeBuffer])
            (.inr ⟨rfl, rfl⟩)

lemma cancelBuffer_sound (slot : ℤ) (fence : Fence) :
    Sound (.cancelBuffer slot fence) c (cancelBuffer c slot fence).1 .idle .idle (cancelBuffer c slot fence).2 := by
  have hrefused : Sound (.cancelBuffer slot fence) c c .idle .idle .notCancelled :=
    .frame rfl rfl rfl rfl rfl rfl (fun _ _ => Reply.noConfusion) fun _ => Reply.noConfusion
  unfold cancelBuffer
  split
  · exact hrefused
  · split
    · exact hrefused
    · rename_i s _
      split
      · exact hrefused
      · rename_i hd
        refine .success (fun h => ?_) rfl (List.Sublist.refl _) id (fun _ _ => Reply.noConfusion)
          fun _ => Reply.noConfusion
        exact h.update_dequeued (not_not.1 hd) (fun hc => BufferState.noConfusion hc) (.inl rfl)

lemma connect_sound (api : NativeWindowApi) (controlled : Bool) :
    Sound (.connect api controlled) c (BufferQueueProducer.connect c api controlled).1 .idle .idle
      (BufferQueueProducer.connect c api controlled).2 := by
  unfold BufferQueueProducer.connect
  split
  · exact .refused ..
  · split
    · exact .refused ..
    · split
      · exact .refused ..
      · dsimp only
        split <;> exact .frame rfl rfl rfl rfl rfl rfl (fun _ _ => Reply.noConfusion)
          fun _ => Reply.noConfusion

lemma disconnect_sound (api : NativeWindowApi) :
    Sound (.disconnect api) c (BufferQueueProducer.disconnect c api).1 .idle .idle
      (BufferQueueProducer.disconnect c api).2 := by
  unfold BufferQueueProducer.disconnect
  split
  · exact .refused ..
  · split
    · exact .refused ..
    · split
      · exact .success (fun _ => Inv.cleared _ _ (.inr rfl)) rfl (nil_sublist _)
          (by simp [Reply.Fails]) (fun _ _ => Reply.noConfusion) fun _ => Reply.noConfusion
      · exact .refused ..

variable {slots : Slot → BufferSlot} {s : Slot}

lemma Inv.preallocate {queue : List BufferItem} {n : ℕ} {a : Bool} {v : BufferSlot} {b : NvGraphicBuffer} (h : Inv slots queue n a .idle)
    (hb : v.graphicBuffer = some ⟨b, n⟩) (hf : v.bufferState = .Free) :
    Inv (Function.update slots s v) queue (n + 1) a .idle := by
  refine h.update (Nat.le_succ n) (by rw [hf]; exact BufferState.noConfusion)
    (trackedBy_fresh hb h.itemObject) ?_ ?_ (fun t b f at' => Producer.noConfusion)
    fun t b f at' _ hp => Producer.noConfusion hp
  · intro b' hb'
    rw [hb, Option.some.injEq] at hb'
    rw [← hb']
    exact Nat.lt_succ_self n
  · intro hd
    rw [hf] at hd
    exact BufferState.noConfusion hd

lemma setPreallocatedBuffer_sound (slot : ℤ) (buffer : Option NvGraphicBuffer) :
    Sound (.setPreallocatedBuffer slot buffer) c (setPreallocatedBuffer c slot buffer).1 .idle .idle
      (setPreallocatedBuffer c slot buffer).2 := by
  unfold setPreallocatedBuffer
  split
  · exact .refused ..
  · split
    · exact .success (fun h => h.preallocate rfl rfl) rfl (List.Sublist.refl _)
        (by simp [Reply.Fails]) (fun _ _ => Reply.noConfusion) fun _ => Reply.noConfusion
    · exact .success (fun h => h.preallocate rfl rfl) rfl (List.Sublist.refl _)
        (by simp [Reply.Fails]) (fun _ _ => Reply.noConfusion) fun _ => Reply.noConfusion

lemma freeBeyond_cases (c : BufferQueueCore) (m : ℕ) (s : Slot) :
    freeBeyond c m s = c.slots s ∨ freeBeyond c m s = (c.slots s).freeBuffer ∧ m ≤ s.val ∧
      (c.slots s).bufferState = .Free ∧ (c.slots s).isPreallocated = false := by
  unfold freeBeyond
  split
  · rename_i h
    exact .inr ⟨rfl, h.1, h.2.2⟩
  · exact .inl rfl

lemma findFree_spec {m : ℕ} (h : findFree slots m = some s) : s.val < m ∧ (slots s).bufferState = .Free := by
  -- along the fold this holds of the slot found so far
  refine foldlRecOn (motive := fun found => ∀ f, found = some f → f.val < m ∧ (slots f).bufferState = .Free) _ _
    (fun f hf => by cases hf) (fun found hf t _ g hg => ?_) s h
  split at hg
  · rename_i ht
    cases found with
    | none =>
      cases hg
      exact ht
    | some f' =>
      dsimp only at hg
      split at hg
      · cases hg
        exact ht
      · exact hf g hg
  · exact hf g hg

lemma findFree_free {m : ℕ} (h : findFree slots m = some s) : (slots s).bufferState = .Free := (findFree_spec h).2

/-- A round of the search changes slots beyond the maximal count only. -/
lemma waitForFreeSlot_spec (c : BufferQueueCore) (async : Bool) :
    ∃ slots, (waitForFreeSlot c async).1 = { c with slots := slots } ∧
      (∀ s, slots s = c.slots s ∨ slots s = (c.slots s).freeBuffer ∧
        c.getMaxBufferCountLocked async ≤ s.val ∧ (c.slots s).bufferState = .Free ∧
        (c.slots s).isPreallocated = false) ∧
      ∀ s, (waitForFreeSlot c async).2.2 = .found s → (slots s).bufferState = .Free ∧ c.isAbandoned = false := by
  unfold waitForFreeSlot
  split
  · exact ⟨c.slots, rfl, fun s => .inl rfl, fun s hs => by cases hs⟩
  · rename_i ha
    dsimp only
    split
    · exact ⟨c.slots, rfl, fun s => .inl rfl, fun s hs => by cases hs⟩
    · refine ⟨freeBeyond c (c.getMaxBufferCountLocked async), ?_, freeBeyond_cases c _, ?_⟩
      · split
        · rfl
        · split
          · rfl
          · split
            · rfl
            · split <;> rfl
      · intro s
        split
        · exact fun hs => by cases hs
        · split
          · exact fun hs => by cases hs
          · split
            · rename_i f hfound _
              rintro ⟨⟩
              exact ⟨findFree_free hfound, by simpa using ha⟩
            · split <;> exact fun hs => by cases hs

lemma takeSlot_not_fails (c : BufferQueueCore) (s : Slot) (w h : ℕ) (fmt : PixelFormat)
    (usage : BitVec 32) (flag : Bool) : ¬ (takeSlot c s w h fmt usage flag).2.Fails := by
  unfold takeSlot
  dsimp only
  generalize (if w = 0 ∧ h = 0 then c.defaultWidth else w) = w'
  generalize (if w = 0 ∧ h = 0 then c.defaultHeight else h) = h'
  split <;> exact id

/-- The slot found is dequeued, and the producer goes on to create a buffer when it needs one. -/
lemma takeSlot_sound (op : Op) (c : BufferQueueCore) (p : Producer) (w h : ℕ)
    (fmt : PixelFormat) (usage : BitVec 32) (flag : Bool) (hs : (c.slots s).bufferState = .Free)
    (hp : ∀ t b f a, p ≠ .allocating t b f a) :
    Sound op c (takeSlot c s w h fmt usage flag).1.core p (takeSlot c s w h fmt usage flag).1.producer
      (takeSlot c s w h fmt usage flag).2 := by
  unfold takeSlot
  dsimp only
  generalize (if w = 0 ∧ h = 0 then c.defaultWidth else w) = w'
  generalize (if w = 0 ∧ h = 0 then c.defaultHeight else h) = h'
  split
  · refine .success (fun hinv => ?_) rfl (List.Sublist.refl _) id (fun _ _ => Reply.noConfusion)
      fun _ => Reply.noConfusion
    refine hinv.update le_rfl (fun hc => BufferState.noConfusion hc) (trackedBy_none rfl)
      (fun b hb => by cases hb) (fun _ _ => .inr ⟨_, _, _, rfl⟩) ?_
      fun t b f at' _ hal => absurd hal (hp t b f at')
    rintro t b f at' ⟨⟩
    rw [if_pos rfl]
  · rename_i hre
    refine .success (fun hinv => ?_) rfl (List.Sublist.refl _) id (fun _ _ => Reply.noConfusion)
      fun _ => Reply.noConfusion
    refine hinv.update le_rfl (fun hc => BufferState.noConfusion hc) ?_ (hinv.slotObject s) ?_
      (fun t b f at' => Producer.noConfusion) fun t b f at' _ hal => absurd hal (hp t b f at')
    · exact (trackedBy_congr rfl).trans ((hinv.agrees s).eq_nil (by rw [hs]; exact BufferState.noConfusion))
    · intro _ hnone
      exact absurd (by rw [show (c.slots s).graphicBuffer = none from hnone]; rfl) hre

/-- Nothing is being created while the producer starts or resumes the first section. -/
lemma dequeueRound_sound (op : Op) {c : BufferQueueCore} {p : Producer} (async : Bool) (w h : ℕ)
    (fmt : PixelFormat) (usage : BitVec 32) (flag : Bool)
    (hop : op = .dequeueWake ∨ ∃ a w h f u, op = .dequeueBuffer a w h f u)
    (hp : ∀ t b f a, p ≠ .allocating t b f a) :
    Sound op c (dequeueRound c async w h fmt usage flag).1.core p (dequeueRound c async w h fmt usage flag).1.producer
      (dequeueRound c async w h fmt usage flag).2 := by
  obtain ⟨slots, hc, hslots, hfound⟩ := waitForFreeSlot_spec c async
  have hfree : ∀ q, (∀ t b f a, q ≠ .allocating t b f a) → Inv c.slots c.queue c.nextObject c.isAbandoned p →
      Inv slots c.queue c.nextObject c.isAbandoned q := by
    intro q hq hinv
    have hinv' : Inv slots c.queue c.nextObject c.isAbandoned p :=
      hinv.free fun s => (hslots s).imp_right fun hs =>
        ⟨hs.1, by rw [hs.2.2.1]; exact BufferState.noConfusion⟩
    refine ⟨hinv'.agrees, hinv'.slotObject, hinv'.itemObject, fun s hd hn => ?_,
      fun s b f a ha => absurd ha (hq s b f a)⟩
    rcases hinv'.dequeued s hd hn with ha | ⟨b, f, a, ha⟩
    · exact .inl ha
    · exact absurd ha (hp s b f a)
  unfold dequeueRound
  rcases hw : waitForFreeSlot c async with ⟨c', freed, round⟩
  rw [hw] at hc hfound
  subst hc
  cases round with
  | error status =>
    refine ⟨hfree _ fun _ _ _ _ => Producer.noConfusion, ⟨rfl, List.Sublist.refl _⟩,
      fun _ _ => Reply.noConfusion, fun _ => ⟨rfl, fun s => ?_⟩⟩
    refine (hslots s).imp_right fun hs => ?_
    rcases hop with rfl | ⟨_, _, _, _, _, rfl⟩ <;>
      exact ⟨⟨async, hs.2.1⟩, hs.2.2.1, hs.2.2.2, hs.1⟩
  | again =>
    exact .success (hfree _ fun _ _ _ _ => Producer.noConfusion) rfl (List.Sublist.refl _) id
      (fun _ _ => Reply.noConfusion) fun _ => Reply.noConfusion
  | found s =>
    have htake := takeSlot_sound op { c with slots := slots } p w h fmt usage (flag || freed) (hfound s rfl).1 hp
    exact ⟨fun hinv => htake.inv (hfree p hp hinv), htake.log, htake.queued,
      fun hfails => (takeSlot_not_fails { c with slots := slots } s w h fmt usage (flag || freed) hfails).elim⟩

lemma dequeueAllocated_sound (s : Slot) (buffer : NvGraphicBuffer) (flags : DequeueFlags) (attached : Bool) :
    Sound .dequeueAllocated c (dequeueAllocated c s buffer flags attached).1
      (.allocating s buffer flags attached) .idle (dequeueAllocated c s buffer flags attached).2 := by
  unfold dequeueAllocated
  split
  · rename_i ha
    refine ⟨fun h => ?_, ⟨rfl, List.Sublist.refl _⟩, fun _ _ => Reply.noConfusion,
      fun _ => ⟨rfl, fun _ => .inl rfl⟩⟩
    exact ⟨h.agrees, h.slotObject, h.itemObject, fun _ _ _ => .inl ha,
      fun _ _ _ _ hp => Producer.noConfusion hp⟩
  · rename_i ha
    refine .success (fun h => ?_) rfl (List.Sublist.refl _) id (fun _ _ => Reply.noConfusion)
      fun _ => Reply.noConfusion
    -- the slot is still dequeued: the consumer leaves it alone
    have hd : (c.slots s).bufferState = .Dequeued :=
      (h.allocating s _ _ _ rfl).resolve_left ha
    refine h.update (Nat.le_succ _) ?_ (trackedBy_fresh rfl h.itemObject) ?_ ?_
      (fun t b f at' => Producer.noConfusion) ?_
    · change (c.slots s).bufferState ≠ .Queued
      rw [hd]
      exact BufferState.noConfusion
    · rintro b ⟨⟩
      exact Nat.lt_succ_self _
    · exact fun _ hnone => by cases hnone
    · intro t b f at' hts hp
      cases hp
      exact absurd rfl hts

lemma enqueue_queue (c : BufferQueueCore) (item : BufferItem) :
    (enqueue c item).queue = c.queue ++ [item] ∨ ∃ front rest, c.queue = front :: rest ∧
      front.isDroppable = true ∧ (enqueue c item).queue = item :: rest := by
  unfold enqueue
  split
  · rename_i hq
    exact .inl (by rw [hq]; rfl)
  · rename_i front rest hq
    dsimp only
    split
    · rename_i hdrop
      exact .inr ⟨front, rest, hq, hdrop, rfl⟩
    · exact .inl rfl

lemma enqueue_frame (c : BufferQueueCore) (item : BufferItem) :
    (enqueue c item).frameCounter = c.frameCounter ∧ (enqueue c item).nextObject = c.nextObject ∧
      (enqueue c item).isAbandoned = c.isAbandoned := by
  unfold enqueue
  split
  · exact ⟨rfl, rfl, rfl⟩
  · dsimp only
    split <;> split <;> exact ⟨rfl, rfl, rfl⟩

/-- **The queue section of `QueueBuffer`** keeps the invariant: a droppable head leaves its slot free, and the new
item is the one that the queued slot tracks. -/
lemma Inv.enqueue {c : BufferQueueCore} (v : BufferSlot) (item : BufferItem)
    (h : Inv c.slots c.queue c.nextObject c.isAbandoned .idle)
    (hd : (c.slots s).bufferState = .Dequeued) (hb : (c.slots s).graphicBuffer.isSome = true)
    (hs : item.slot = s) (hi : item.graphicBuffer = (c.slots s).graphicBuffer)
    (hvb : v.graphicBuffer = (c.slots s).graphicBuffer) (hvq : v.bufferState = .Queued)
    (hvf : item.frameNumber = v.frameNumber) :
    Inv (BufferQueueProducer.enqueue (c.setSlot s v) item).slots
      (BufferQueueProducer.enqueue (c.setSlot s v) item).queue c.nextObject c.isAbandoned .idle := by
  unfold BufferQueueProducer.enqueue
  have hq : (c.setSlot s v).queue = c.queue := rfl
  rw [hq]
  split
  · rename_i hnil
    rw [hnil] at h
    exact Inv.insert [] [] h hd hb hs hi hvb hvq hvf
  · rename_i front rest hcons
    rw [hcons] at h ⊢
    cases hdrop : front.isDroppable with
    | false =>
      have hins := Inv.insert (front :: rest) [] (by rwa [append_nil]) hd hb hs
        hi hvb hvq hvf
      simpa [setSlot] using hins
    | true =>
      cases ht : (c.slots front.slot).tracks front with
      | false =>
        have ht' : (c.setSlot s v).stillTracking front = false := by
          rw [← ht]
          by_cases hfs : front.slot = s
          · simp [stillTracking, setSlot, BufferSlot.tracks, hfs, hvb]
          · simp [stillTracking, setSlot, hfs]
        simp only [ht', Bool.and_false, Bool.false_eq_true, if_false, if_true]
        exact Inv.insert [] rest (h.tail ht) hd hb hs hi hvb hvq hvf
      | true =>
        have hfs : front.slot ≠ s := by
          rintro rfl
          have hqueued := h.queued_of_tracks ht
          rw [hd] at hqueued
          exact BufferState.noConfusion hqueued
        have ht' : (c.setSlot s v).stillTracking front = true := by
          rw [← ht]
          simp [stillTracking, setSlot, hfs]
        simp only [ht', Bool.and_true, if_true]
        have hdropped := h.dropFront (v := { c.slots front.slot with bufferState := .Free, frameNumber := 0 }) rfl
          (fun hc => BufferState.noConfusion hc) (fun hc => BufferState.noConfusion hc)
        rw [if_pos ht] at hdropped
        -- the two slots differ, so the order of the updates does not matter
        have hslots : (c.setSlot s v).setSlot front.slot
            { (c.setSlot s v).slots front.slot with bufferState := .Free, frameNumber := 0 } =
            { c with slots := Function.update (Function.update c.slots front.slot
              { c.slots front.slot with bufferState := .Free, frameNumber := 0 }) s v } := by
          simp only [setSlot, Function.update_of_ne hfs]
          rw [update_comm hfs]
        rw [hslots]
        have hne : s ≠ front.slot := fun hc => hfs hc.symm
        exact Inv.insert [] rest hdropped (by rwa [Function.update_of_ne hne])
          (by rwa [Function.update_of_ne hne]) hs (by rwa [Function.update_of_ne hne])
          (by rwa [Function.update_of_ne hne]) hvq hvf

lemma queueBuffer_sound (slot : ℤ) (input : QueueBufferInput) :
    Sound (.queueBuffer slot input) c (queueBuffer c slot input).1 .idle .idle (queueBuffer c slot input).2 := by
  unfold queueBuffer
  split
  · exact .refused ..
  · split
    · exact .refused ..
    · rename_i ha
      split
      · exact .refused ..
      · rename_i s _
        split
        · exact .refused ..
        · split
          · exact .refused ..
          · rename_i hd
            split
            · exact .refused ..
            · dsimp only
              set frame := (c.frameCounter + 1) % 2 ^ 64
              set item := newItem c s input frame
              set v : BufferSlot := { c.slots s with
                bufferState := .Queued, frameNumber := frame, fence := input.fence }
              have hframe := enqueue_frame { c.setSlot s v with frameCounter := frame } item
              refine ⟨fun h => ?_, ⟨rfl, hframe.1, ?_⟩, fun _ _ _ => ⟨slot, input, rfl⟩,
                fun hf => hf.elim⟩
              · have hd' := not_not.1 hd
                have hb : (c.slots s).graphicBuffer.isSome = true := by
                  by_contra hnone
                  rw [Bool.not_eq_true, Option.isSome_eq_false_iff, Option.isNone_iff_eq_none] at hnone
                  rcases h.dequeued s hd' hnone with hab | ⟨_, _, _, hal⟩
                  · exact ha hab
                  · exact Producer.noConfusion hal
                have henq := Inv.enqueue (c := { c with frameCounter := frame }) v item h hd' hb rfl rfl rfl rfl rfl
                change Inv _ _ (enqueue { c.setSlot s v with frameCounter := frame } item).nextObject
                  (enqueue { c.setSlot s v with frameCounter := frame } item).isAbandoned .idle
                rw [hframe.2.1, hframe.2.2]
                exact henq
              · exact enqueue_queue { c.setSlot s v with frameCounter := frame } item

end Producer

section Consumer

variable {c : BufferQueueCore} {p : Producer}

/-- **The drop loop**: the invariant is kept, what stays is the end of the queue, and a head that is set for later
means that nothing was dropped. -/
lemma dropStale_spec (expected : ℤ) {n : ℕ} {a : Bool} :
    ∀ (slots : Slot → BufferSlot) (queue : List BufferItem),
      (Inv slots queue n a p → Inv (dropStale expected slots queue).1 (dropStale expected slots queue).2 n a p) ∧
      (dropStale expected slots queue).2.Sublist queue ∧
      ∀ front rest, (dropStale expected slots queue).2 = front :: rest →
        front.timestamp > expected → dropStale expected slots queue = (slots, queue)
  | slots, [] => ⟨id, List.Sublist.refl _, fun _ _ _ _ => rfl⟩
  | slots, [first] => ⟨id, List.Sublist.refl _, fun _ _ _ _ => rfl⟩
  | slots, first :: second :: rest => by
    unfold dropStale
    split
    · exact ⟨id, List.Sublist.refl _, fun _ _ _ _ => rfl⟩
    · split
      · exact ⟨id, List.Sublist.refl _, fun _ _ _ _ => rfl⟩
      · rename_i htimely
        have ih := dropStale_spec expected (n := n) (a := a)
          (if (slots first.slot).tracks first then
            Function.update slots first.slot { slots first.slot with bufferState := .Free }
          else slots) (second :: rest)
        refine ⟨fun h => ih.1 (h.dropFront rfl (fun hc => BufferState.noConfusion hc)
          fun hc => BufferState.noConfusion hc), ih.2.1.trans (sublist_cons_self _ _), ?_⟩
        -- the item that now stands first was timely
        intro front rest' hq hlater
        have hsame := ih.2.2 front rest' hq hlater
        rw [hsame] at hq
        cases hq
        omega

lemma dropStale_ne_nil (expected : ℤ) (slots : Slot → BufferSlot) (first : BufferItem)
    (rest : List BufferItem) : (dropStale expected slots (first :: rest)).2 ≠ [] := by
  induction rest generalizing slots first with
  | nil => exact cons_ne_nil _ _
  | cons second rest ih =>
    unfold dropStale
    split
    · exact cons_ne_nil _ _
    · split
      · exact cons_ne_nil _ _
      · exact ih _ _

lemma takeFront_sound (op : Op) {front : BufferItem} {rest : List BufferItem} (hq : c.queue = front :: rest) :
    Sound op c (takeFront c front rest).1 p p (takeFront c front rest).2 := by
  refine ⟨fun h => ?_, ⟨?_, front, rfl, ?_⟩, fun _ _ => Reply.noConfusion, fun hf => hf.elim⟩
  · rw [hq] at h
    have hdrop := h.dropFront (v := { c.slots front.slot with
      acquireCalled := true, needsCleanupOnRelease := false, bufferState := .Acquired }) rfl
      (fun hc => BufferState.noConfusion hc) (fun hc => BufferState.noConfusion hc)
    unfold takeFront signalDequeueCondition
    cases ht : (c.slots front.slot).tracks front with
    | true =>
      rw [if_pos ht] at hdrop
      rw [if_pos (show c.stillTracking front = true from ht)]
      exact hdrop
    | false =>
      rw [if_neg (by rw [ht]; exact Bool.false_ne_true)] at hdrop
      rw [if_neg (by rw [stillTracking, ht]; exact Bool.false_ne_true)]
      exact hdrop
  · unfold takeFront signalDequeueCondition
    split <;> rfl
  · rw [hq]
    exact List.Sublist.refl _

lemma acquireBuffer_sound (expected : ℤ) :
    Sound (.acquireBuffer expected) c (acquireBuffer c expected).1 p p (acquireBuffer c expected).2 := by
  unfold acquireBuffer
  split
  · exact .refused ..
  · split
    · exact .refused ..
    · rename_i front rest hq
      split
      · exact takeFront_sound _ hq
      · obtain ⟨hinv, hsub, hlater⟩ := dropStale_spec expected (n := c.nextObject)
          (a := c.isAbandoned) (p := p) c.slots (front :: rest)
        rcases hdrop : dropStale expected c.slots (front :: rest) with ⟨slots, queue⟩
        rw [hdrop] at hinv hsub hlater
        rw [← hq] at hinv hsub hlater
        cases queue with
        | nil =>
          -- the loop leaves at least one item
          have hne : (dropStale expected c.slots (front :: rest)).2 ≠ [] := dropStale_ne_nil _ _ _ _
          rw [hdrop] at hne
          exact absurd rfl hne
        | cons front' rest' =>
          dsimp only
          split
          · rename_i hdefer
            have hsame := hlater front' rest' rfl hdefer.1
            rw [Prod.mk.injEq] at hsame
            refine .frame hsame.1 ?_ rfl rfl rfl rfl (fun _ _ => Reply.noConfusion)
              fun _ => Reply.noConfusion
            exact hsame.2
          · have htake := takeFront_sound (.acquireBuffer expected) (p := p)
              (c := { c with slots := slots, queue := front' :: rest' }) rfl
            refine ⟨fun h => htake.inv (hinv h), ?_, fun _ _ => Reply.noConfusion,
              fun hf => hf.elim⟩
            obtain ⟨hcounter, item, hout, hitem⟩ := htake.log
            exact ⟨hcounter, item, hout, hitem.trans hsub⟩

lemma releaseBuffer_sound (slot : ℤ) (frame : ℕ) :
    Sound (.releaseBuffer slot frame) c (releaseBuffer c slot frame).1 p p (releaseBuffer c slot frame).2 := by
  unfold releaseBuffer
  split
  · exact .refused ..
  · rename_i s hslot
    split
    · exact .refused ..
    · split
      · exact .refused ..
      · split
        · rename_i hacq
          refine .success (fun h => ?_) rfl (List.Sublist.refl _) (by simp [Reply.Fails])
            (fun _ _ => Reply.noConfusion) fun _ => Reply.noConfusion
          exact h.update_kept rfl rfl (by simp [hacq]) (by simp [hacq])
        · split
          · rename_i hclean
            refine ⟨fun h => h.update_kept rfl rfl Iff.rfl Iff.rfl, ⟨rfl, List.Sublist.refl _⟩,
              fun _ _ => Reply.noConfusion, fun _ => ⟨rfl, fun t => ?_⟩⟩
            by_cases ht : t = s
            · subst ht
              exact .inr ⟨hslot, hclean, update_self ..⟩
            · exact .inl (Function.update_of_ne ht ..)
          · exact .refused ..

lemma consumerConnect_sound (controlled : Bool) :
    Sound (.consumerConnect controlled) c (BufferQueueConsumer.connect c controlled).1 p p
      (BufferQueueConsumer.connect c controlled).2 := by
  unfold BufferQueueConsumer.connect
  split
  · exact .refused ..
  · exact .frame rfl rfl rfl rfl rfl rfl (fun _ _ => Reply.noConfusion) fun _ => Reply.noConfusion

lemma consumerDisconnect_sound :
    Sound .consumerDisconnect c (BufferQueueConsumer.disconnect c).1 p p (BufferQueueConsumer.disconnect c).2 := by
  unfold BufferQueueConsumer.disconnect
  split
  · exact .refused ..
  · exact .success (fun _ => Inv.cleared _ _ (.inl rfl)) rfl (nil_sublist _)
      (by simp [Reply.Fails]) (fun _ _ => Reply.noConfusion) fun _ => Reply.noConfusion

end Consumer

section Runs

/-- The specification of a step of the system. -/
def StepSound (op : Op) (σ σ' : System) (reply : Reply) : Prop :=
  Sound op σ.core σ'.core σ.producer σ'.producer reply

variable {σ σ' : System} {replies : List Reply} {ops : List Op}

variable {op : Op} {reply : Reply} {f : BufferQueueCore → BufferQueueCore × Reply}

lemma produce_sound (h : σ.produce f = some (σ', reply))
    (hf : Sound op σ.core (f σ.core).1 .idle .idle (f σ.core).2) : StepSound op σ σ' reply := by
  obtain ⟨core, producer⟩ := σ
  cases producer with
  | idle =>
    cases h
    exact hf
  | waiting => cases h
  | allocating => cases h

lemma consume_sound (h : σ.consume f = some (σ', reply))
    (hf : Sound op σ.core (f σ.core).1 σ.producer σ.producer (f σ.core).2) :
    StepSound op σ σ' reply := by
  cases h
  exact hf

/-- **Every section under the mutex meets its specification.** -/
lemma step_sound (h : σ.step op = some (σ', reply)) : StepSound op σ σ' reply := by
  cases op with
  | connect api controlled =>
    simp only [System.step] at h
    exact produce_sound h (connect_sound api controlled)
  | setPreallocatedBuffer slot buffer =>
    simp only [System.step] at h
    exact produce_sound h (setPreallocatedBuffer_sound slot buffer)
  | dequeueBuffer async w hgt fmt usage =>
    obtain ⟨c, p⟩ := σ
    cases p with
    | idle =>
      simp only [System.step, Option.some.injEq] at h
      unfold dequeueBuffer at h
      split at h
      · cases h
        exact .refused ..
      · have hround := dequeueRound_sound _ (c := c) (p := .idle) async w hgt
          (if fmt = .NoFormat then c.defaultBufferFormat else fmt)
          (usage ||| c.consumerUsageBit) false (.inr ⟨async, w, hgt, fmt, usage, rfl⟩)
          fun _ _ _ _ => Producer.noConfusion
        rw [h] at hround
        exact hround
    | waiting => cases h
    | allocating => cases h
  | dequeueWake =>
    obtain ⟨c, p⟩ := σ
    cases p with
    | idle => cases h
    | waiting async w hgt fmt usage flag =>
      simp only [System.step] at h
      split at h
      · rw [Option.some.injEq] at h
        have hround := dequeueRound_sound .dequeueWake
          (c := { c with dequeuePossible := false }) (p := .waiting async w hgt fmt usage flag)
          async w hgt fmt usage flag (.inl rfl) fun _ _ _ _ => Producer.noConfusion
        rw [h] at hround
        exact ⟨hround.inv, hround.log, hround.queued, hround.failed⟩
      · cases h
    | allocating => cases h
  | dequeueAllocated =>
    obtain ⟨c, p⟩ := σ
    cases p with
    | idle => cases h
    | waiting => cases h
    | allocating s buffer flags attached =>
      cases h
      exact dequeueAllocated_sound s buffer flags attached
  | requestBuffer slot =>
    simp only [System.step] at h
    exact produce_sound h (requestBuffer_sound slot)
  | queueBuffer slot input =>
    simp only [System.step] at h
    exact produce_sound h (queueBuffer_sound slot input)
  | cancelBuffer slot fence =>
    simp only [System.step] at h
    exact produce_sound h (cancelBuffer_sound slot fence)
  | detachBuffer slot =>
    simp only [System.step] at h
    exact produce_sound h (detachBuffer_sound slot)
  | setBufferCount n =>
    simp only [System.step] at h
    exact produce_sound h (setBufferCount_sound n)
  | disconnect api =>
    simp only [System.step] at h
    exact produce_sound h (disconnect_sound api)
  | consumerConnect controlled =>
    simp only [System.step] at h
    exact consume_sound h (consumerConnect_sound controlled)
  | acquireBuffer expected =>
    simp only [System.step] at h
    exact consume_sound h (acquireBuffer_sound expected)
  | releaseBuffer slot frame =>
    simp only [System.step] at h
    exact consume_sound h (releaseBuffer_sound slot frame)
  | consumerDisconnect =>
    exact consume_sound h consumerDisconnect_sound

def System.Inv (σ : System) : Prop :=
  Nvnflinger.Inv σ.core.slots σ.core.queue σ.core.nextObject σ.core.isAbandoned σ.producer

lemma init_inv : System.init.Inv where
  agrees s := Agrees.nil (fun hc => BufferState.noConfusion hc) rfl
  slotObject s b hb := by cases hb
  itemObject item hi := absurd hi not_mem_nil
  dequeued s hd := BufferState.noConfusion hd
  allocating s b f a hp := Producer.noConfusion hp

lemma run_cons (h : σ.run (op :: ops) = some (σ', replies)) :
    ∃ σ1 reply rest, σ.step op = some (σ1, reply) ∧ σ1.run ops = some (σ', rest) ∧ replies = reply :: rest := by
  unfold System.run at h
  cases hs : σ.step op with
  | none => simp [hs] at h
  | some r =>
    obtain ⟨σ1, reply⟩ := r
    simp only [hs, Option.map_eq_some_iff] at h
    obtain ⟨⟨σ2, rest⟩, hr, heq⟩ := h
    cases heq
    exact ⟨σ1, reply, rest, rfl, hr, rfl⟩

lemma run_inv (hi : σ.Inv) (h : σ.run ops = some (σ', replies)) : σ'.Inv := by
  induction ops generalizing σ replies with
  | nil =>
    cases h
    exact hi
  | cons op ops ih =>
    obtain ⟨σ1, reply, rest, hs, hr, -⟩ := run_cons h
    exact ih ((step_sound hs).inv hi) hr

/-- The items that the producer has queued, in order. -/
def queuedItems (replies : List Reply) : List BufferItem :=
  replies.filterMap fun
    | .queued item _ => some item
    | _ => none

/-- The items that the consumer has been handed, in order. -/
def handedOut (replies : List Reply) : List BufferItem :=
  replies.filterMap fun
    | .acquired item => some item
    | _ => none

/-- **No item is lost twice or made up**: what has been handed out and what is in the queue was queued, each item
once. -/
lemma run_items (h : σ.run ops = some (σ', replies)) :
    ∃ taken : List BufferItem, handedOut replies = taken.map handOut ∧
      (taken ++ σ'.core.queue).Subperm (queuedItems replies ++ σ.core.queue) := by
  induction ops generalizing σ replies with
  | nil =>
    cases h
    exact ⟨[], rfl, List.Subperm.refl _⟩
  | cons op ops ih =>
    obtain ⟨σ1, reply, rest, hs, hr, rfl⟩ := run_cons h
    obtain ⟨taken, hout, hsub⟩ := ih hr
    have hlog := (step_sound hs).log
    cases reply with
    | queued item output =>
      refine ⟨taken, hout, hsub.trans ?_⟩
      have hq : σ1.core.queue.Subperm (item :: σ.core.queue) := by
        rcases hlog.2.2 with hq | ⟨front, tail, hq, -, hq'⟩
        · rw [hq]
          exact (perm_append_singleton _ _).subperm
        · rw [hq, hq']
          exact ((sublist_cons_self _ _).cons_cons _).subperm
      refine ((subperm_append_left _).2 hq).trans ?_
      exact (perm_middle).subperm
    | acquired out =>
      obtain ⟨-, item, hitem, hq⟩ := hlog
      refine ⟨item :: taken, ?_, ?_⟩
      · simp only [handedOut, filterMap_cons, map_cons] at hout ⊢
        rw [hout, hitem]
      · refine ((subperm_cons item).2 hsub).trans ?_
        refine perm_middle.symm.subperm.trans ?_
        exact (subperm_append_left _).2 hq.subperm
    | _ =>
      refine ⟨taken, hout, hsub.trans ?_⟩
      exact (subperm_append_left _).2 hlog.2.subperm

end Runs

/-- The items of the queue that name a slot and are still tracked. -/
def BufferQueueCore.trackedItems (c : BufferQueueCore) (s : Slot) : List BufferItem :=
  c.queue.filter fun item => item.slot == s && c.stillTracking item

lemma trackedItems_eq (c : BufferQueueCore) (s : Slot) : c.trackedItems s = trackedBy (c.slots s) s c.queue := by
  unfold BufferQueueCore.trackedItems trackedBy
  refine filter_congr fun item _ => ?_
  by_cases hs : item.slot = s
  · subst hs
    rfl
  · rw [beq_false_of_ne hs, Bool.false_and, Bool.false_and]

/-- **Slots and queue agree in every reachable state.**  A slot is queued exactly when one tracked item names it,
that item has its frame number, and a slot that is not queued has no tracked item.  A failing operation keeps the
queue and the slots, apart from the buffers beyond the maximal count that a failing `DequeueBuffer` frees and the
note of a stale buffer that `ReleaseBuffer` clears.  Every item handed out was queued and is handed out once. -/
theorem slots_agree_of_run {ops : List Op} {σ : System} {replies : List Reply}
    (h : System.init.run ops = some (σ, replies)) :
    (∀ s, ((σ.core.slots s).bufferState = .Queued ↔ ∃ item, σ.core.trackedItems s = [item]) ∧
      (∀ item ∈ σ.core.trackedItems s, item.frameNumber = (σ.core.slots s).frameNumber) ∧
      ((σ.core.slots s).bufferState ≠ .Queued → σ.core.trackedItems s = [])) ∧
    (∀ op σ' reply, σ.step op = some (σ', reply) → reply.Fails →
      σ'.core.queue = σ.core.queue ∧ ∀ s, σ'.core.slots s = σ.core.slots s ∨ MayChange σ.core op s (σ'.core.slots s)) ∧
    ∃ taken : List BufferItem, handedOut replies = taken.map handOut ∧
      (taken ++ σ.core.queue).Subperm (queuedItems replies) := by
  refine ⟨fun s => ?_, fun op σ' reply hs => (step_sound hs).failed, ?_⟩
  · have ha := (run_inv init_inv h).agrees s
    rw [trackedItems_eq]
    by_cases hq : (σ.core.slots s).bufferState = .Queued
    · rw [Agrees, if_pos hq] at ha
      obtain ⟨item, hitem, hframe⟩ := ha
      refine ⟨⟨fun _ => ⟨item, hitem⟩, fun _ => hq⟩, fun i hi => ?_, fun hne => absurd hq hne⟩
      rw [hitem, mem_singleton] at hi
      exact hi ▸ hframe
    · have hnil := ha.eq_nil hq
      rw [hnil]
      refine ⟨⟨fun hc => absurd hc hq, fun hc => hc.elim fun _ hi => absurd hi.symm (cons_ne_nil _ _)⟩,
        fun i hi => absurd hi not_mem_nil, fun _ => rfl⟩
  · obtain ⟨taken, hout, hsub⟩ := run_items h
    refine ⟨taken, hout, ?_⟩
    rwa [show System.init.core.queue = [] from rfl, append_nil] at hsub

/-- A call of `QueueBuffer` with default contents. -/
def plainInput (async : Bool) : QueueBufferInput :=
  ⟨0, true, ⟨0, 0, 0, 0⟩, .Freeze, 0, async, 1, Fence.noFence⟩

/-- A call of `DequeueBuffer` that takes whatever the default is. -/
def plainDequeue : Op := .dequeueBuffer false 0 0 .NoFormat 0

/-- One buffer is dequeued, queued and acquired. -/
theorem slots_agree_of_frame :
    ((System.init.run [.consumerConnect false, .connect .Egl false, plainDequeue, .dequeueAllocated,
        .requestBuffer 0, .queueBuffer 0 (plainInput false), .acquireBuffer 0]).map fun q =>
      ((q.1.core.slots 0).bufferState, (handedOut q.2).map (·.frameNumber))) = some (.Acquired, [1]) ∧
    ∀ σ replies, System.init.run [.consumerConnect false, .connect .Egl false, plainDequeue,
        .dequeueAllocated, .requestBuffer 0, .queueBuffer 0 (plainInput false),
        .acquireBuffer 0] = some (σ, replies) →
      ∃ taken : List BufferItem, handedOut replies = taken.map handOut ∧
        (taken ++ σ.core.queue).Subperm (queuedItems replies) :=
  ⟨by decide +kernel, fun _ _ h => (slots_agree_of_run h).2.2⟩

/-- A failing `DequeueBuffer` takes the buffer of slot 5 away, which lies beyond the maximal count.  After
`SetBufferCount` has freed the buffers and kept the queue, a queued slot may be named by a second item, which it
does not track. -/
theorem failed_dequeue_frees :
    ((System.init.run [.consumerConnect false, .connect .Egl false, plainDequeue, .dequeueAllocated,
        .setPreallocatedBuffer 5 none]).bind fun q => (q.1.step plainDequeue).map fun r =>
      (r.2, (q.1.core.slots 5).graphicBuffer.isSome, (r.1.core.slots 5).graphicBuffer.isSome)) =
        some (.status .InvalidOperation, true, false) ∧
    ((System.init.run [.consumerConnect false, .connect .Egl false, plainDequeue, .dequeueAllocated,
        .requestBuffer 0, .queueBuffer 0 (plainInput false), .setBufferCount 2, plainDequeue,
        .dequeueAllocated, .requestBuffer 0, .queueBuffer 0 (plainInput false)]).map fun q =>
      ((q.1.core.slots 0).bufferState, q.1.core.queue.map (·.slot))) = some (.Queued, [0, 0]) :=
  ⟨by decide +kernel, by decide +kernel⟩

end Voltemu.Nvnflinger
