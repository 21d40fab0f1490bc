import Voltemu.Nvnflinger.BufferQueue

/-!
# What the slots and the queue know of each other

The items of the queue that a slot still tracks, and the relation between a slot and its tracked items that every
operation keeps.

* `Agrees` is the relation for one slot: a queued slot has one tracked item, with the slot's frame number, and any
  other slot has none.
* `Inv` adds what the operations rely on: the buffers that are referred to have been created, and a slot is
  dequeued without a buffer only while the producer creates one.
* The rules change one slot, take the head of the queue off, or put an item in.  Each operation is one or two of
  them.
-/

namespace Voltemu.Nvnflinger

open BufferQueueCore Function List

/-- The items that name a slot and hold its buffer. -/
def trackedBy (slot : BufferSlot) (s : Slot) (queue : List BufferItem) : List BufferItem :=
  queue.filter fun item => item.slot == s && slot.tracks item

/-- A slot agrees with the items it tracks. -/
def Agrees (slot : BufferSlot) (items : List BufferItem) : Prop :=
  if slot.bufferState = .Queued then ∃ item, items = [item] ∧ item.frameNumber = slot.frameNumber
  else items = []

/-- **The invariant of the queue**, over the fields of the core that it is about. -/
structure Inv (slots : Slot → BufferSlot) (queue : List BufferItem) (nextObject : ℕ)
    (abandoned : Bool) (producer : Producer) : Prop where
  agrees : ∀ s, Agrees (slots s) (trackedBy (slots s) s queue)
  slotObject : ∀ s b, (slots s).graphicBuffer = some b → b.object < nextObject
  itemObject : ∀ item ∈ queue, ∀ b, item.graphicBuffer = some b → b.object < nextObject
  dequeued : ∀ s, (slots s).bufferState = .Dequeued → (slots s).graphicBuffer = none →
    abandoned = true ∨ ∃ b f a, producer = .allocating s b f a
  allocating : ∀ s b f a, producer = .allocating s b f a → abandoned = true ∨ (slots s).bufferState = .Dequeued

section Tracked

variable {slot v : BufferSlot} {s : Slot} {queue rest : List BufferItem} {item : BufferItem}

lemma trackedBy_append (l₁ l₂ : List BufferItem) :
    trackedBy slot s (l₁ ++ l₂) = trackedBy slot s l₁ ++ trackedBy slot s l₂ :=
  filter_append ..

lemma trackedBy_cons :
    trackedBy slot s (item :: rest) =
      if item.slot = s ∧ slot.tracks item = true then item :: trackedBy slot s rest
      else trackedBy slot s rest := by
  simp [trackedBy, filter_cons]

lemma trackedBy_congr (h : v.graphicBuffer = slot.graphicBuffer) : trackedBy v s queue = trackedBy slot s queue := by
  simp [trackedBy, BufferSlot.tracks, h]

lemma trackedBy_none (h : v.graphicBuffer = none) : trackedBy v s queue = [] := by
  simp [trackedBy, BufferSlot.tracks, h]

lemma trackedBy_fresh {n : ℕ} {b : NvGraphicBuffer} (h : v.graphicBuffer = some ⟨b, n⟩)
    (hq : ∀ item ∈ queue, ∀ b, item.graphicBuffer = some b → b.object < n) :
    trackedBy v s queue = [] := by
  refine filter_eq_nil_iff.2 fun item hi ht => ?_
  rw [Bool.and_eq_true, BufferSlot.tracks, h] at ht
  have hb := ht.2
  cases hg : item.graphicBuffer with
  | none => simp [hg] at hb
  | some b' =>
    have hlt := hq item hi b' hg
    simp only [hg, Option.map_some, Option.isSome_some, Bool.true_and, beq_iff_eq, Option.some.injEq] at hb
    omega

lemma Agrees.nil (h : slot.bufferState ≠ .Queued) (hi : trackedBy slot s queue = []) :
    Agrees slot (trackedBy slot s queue) := by
  rw [Agrees, if_neg h]
  exact hi

lemma Agrees.eq_nil {items : List BufferItem} (h : Agrees slot items) (hs : slot.bufferState ≠ .Queued) : items = [] := by
  rwa [Agrees, if_neg hs] at h

end Tracked

section Rules

variable {slots slots' : Slot → BufferSlot} {queue rest : List BufferItem} {n n' : ℕ}
  {a : Bool} {p p' : Producer}

variable {front : BufferItem}

section

variable (h : Inv slots (front :: rest) n a p)
include h

lemma Inv.queued_of_tracks (ht : (slots front.slot).tracks front = true) : (slots front.slot).bufferState = .Queued := by
  by_contra hq
  have hnil := (h.agrees front.slot).eq_nil hq
  rw [trackedBy_cons, if_pos ⟨rfl, ht⟩] at hnil
  exact cons_ne_nil _ _ hnil

/-- A queue that has lost its head tracks what it did, the head apart. -/
lemma Inv.tail (ht : (slots front.slot).tracks front = false) : Inv slots rest n a p where
  agrees s := by
    have hs := h.agrees s
    rw [trackedBy_cons, if_neg] at hs
    · exact hs
    · rintro ⟨rfl, htrue⟩
      rw [htrue] at ht
      exact Bool.noConfusion ht
  slotObject := h.slotObject
  itemObject item hi := h.itemObject item (mem_cons_of_mem _ hi)
  dequeued := h.dequeued
  allocating := h.allocating

/-- **The head is taken off**: a tracked head leaves its slot in another state. -/
lemma Inv.dropFront {v : BufferSlot} (hb : v.graphicBuffer = (slots front.slot).graphicBuffer)
    (hq : v.bufferState ≠ .Queued) (hd : v.bufferState ≠ .Dequeued) :
    Inv (if (slots front.slot).tracks front then update slots front.slot v else slots)
      rest n a p := by
  cases ht : (slots front.slot).tracks front with
  | false => exact h.tail ht
  | true =>
    have hqueued := h.queued_of_tracks ht
    -- the head was the one tracked item of its slot
    have hrest : trackedBy (slots front.slot) front.slot rest = [] := by
      have ha := h.agrees front.slot
      rw [Agrees, if_pos hqueued, trackedBy_cons, if_pos ⟨rfl, ht⟩] at ha
      obtain ⟨item, hi, -⟩ := ha
      exact (List.cons.inj hi).2
    refine ⟨fun s => ?_, fun s b => ?_, fun item hi => ?_, fun s => ?_, fun s b f at' hp => ?_⟩
    · by_cases hs : s = front.slot
      · subst hs
        rw [if_pos rfl, update_self]
        exact Agrees.nil hq ((trackedBy_congr hb).trans hrest)
      · rw [if_pos rfl, update_of_ne hs]
        have ha := h.agrees s
        rwa [trackedBy_cons, if_neg fun hc => hs hc.1.symm] at ha
    · by_cases hs : s = front.slot
      · subst hs
        rw [if_pos rfl, update_self, hb]
        exact h.slotObject _ b
      · rw [if_pos rfl, update_of_ne hs]
        exact h.slotObject s b
    · exact h.itemObject item (mem_cons_of_mem _ hi)
    · by_cases hs : s = front.slot
      · subst hs
        rw [if_pos rfl, update_self]
        exact fun hdeq => absurd hdeq hd
      · rw [if_pos rfl, update_of_ne hs]
        exact h.dequeued s
    · rcases h.allocating s b f at' hp with ha | hdeq
      · exact .inl ha
      · refine .inr ?_
        have hs : s ≠ front.slot := by
          rintro rfl
          rw [hqueued] at hdeq
          exact BufferState.noConfusion hdeq
        rw [if_pos rfl, update_of_ne hs]
        exact hdeq

end

variable {s : Slot} {v : BufferSlot}

lemma Inv.insert {item : BufferItem} (l₁ l₂ : List BufferItem)
    (h : Inv slots (l₁ ++ l₂) n a .idle) (hd : (slots s).bufferState = .Dequeued)
    (hb : (slots s).graphicBuffer.isSome = true) (hs : item.slot = s)
    (hi : item.graphicBuffer = (slots s).graphicBuffer)
    (hvb : v.graphicBuffer = (slots s).graphicBuffer) (hvq : v.bufferState = .Queued)
    (hvf : item.frameNumber = v.frameNumber) :
    Inv (update slots s v) (l₁ ++ item :: l₂) n a .idle := by
  have hold : trackedBy (slots s) s (l₁ ++ l₂) = [] :=
    (h.agrees s).eq_nil (by rw [hd]; exact BufferState.noConfusion)
  rw [trackedBy_append, append_eq_nil_iff] at hold
  refine ⟨fun t => ?_, fun t b => ?_, fun i hmem b hib => ?_, fun t => ?_, fun t b f at' hp => ?_⟩
  · by_cases ht : t = s
    · subst ht
      have htracks : v.tracks item = true := by
        simp [BufferSlot.tracks, hvb, hi, hb]
      rw [update_self, Agrees, if_pos hvq, trackedBy_append, trackedBy_cons,
        if_pos ⟨hs, htracks⟩, trackedBy_congr hvb, trackedBy_congr hvb, hold.1, hold.2]
      exact ⟨item, rfl, hvf⟩
    · have ha := h.agrees t
      rw [update_of_ne ht, trackedBy_append, trackedBy_cons, if_neg fun hc => ht (hc.1.symm.trans hs), ← trackedBy_append]
      exact ha
  · by_cases ht : t = s
    · subst ht
      rw [update_self, hvb]
      exact h.slotObject t b
    · rw [update_of_ne ht]
      exact h.slotObject t b
  · rcases mem_append.1 hmem with h1 | h2
    · exact h.itemObject i (mem_append_left _ h1) b hib
    · rcases mem_cons.1 h2 with rfl | h2
      · exact h.slotObject s b (hi ▸ hib)
      · exact h.itemObject i (mem_append_right _ h2) b hib
  · by_cases ht : t = s
    · subst ht
      rw [update_self, hvq]
      exact fun hc => BufferState.noConfusion hc
    · rw [update_of_ne ht]
      exact h.dequeued t
  · exact Producer.noConfusion hp

/-- **One slot changes** and tracks nothing afterwards. -/
lemma Inv.update (h : Inv slots queue n a p) (hn : n ≤ n')
    (hvq : v.bufferState ≠ .Queued) (hvt : trackedBy v s queue = [])
    (hvo : ∀ b, v.graphicBuffer = some b → b.object < n')
    (hvd : v.bufferState = .Dequeued → v.graphicBuffer = none → a = true ∨ ∃ b f at', p' = .allocating s b f at')
    (hp : ∀ t b f at', p' = .allocating t b f at' → if t = s then v.bufferState = .Dequeued
      else a = true ∨ (slots t).bufferState = .Dequeued)
    (hp' : ∀ t b f at', t ≠ s → p = .allocating t b f at' → a = true ∨ p' = p) :
    Inv (update slots s v) queue n' a p' := by
  refine ⟨fun t => ?_, fun t b ht => ?_, fun i hi b hb => ?_, fun t hdeq hnone => ?_,
    fun t b f at' hpt => ?_⟩
  · by_cases ht : t = s
    · subst ht
      rw [update_self]
      exact Agrees.nil hvq hvt
    · rw [update_of_ne ht]
      exact h.agrees t
  · by_cases hts : t = s
    · subst hts
      rw [update_self] at ht
      exact hvo b ht
    · rw [update_of_ne hts] at ht
      exact (h.slotObject t b ht).trans_le hn
  · exact (h.itemObject i hi b hb).trans_le hn
  · by_cases hts : t = s
    · subst hts
      rw [update_self] at hdeq hnone
      exact hvd hdeq hnone
    · rw [update_of_ne hts] at hdeq hnone
      rcases h.dequeued t hdeq hnone with ha | ⟨b, f, at', hal⟩
      · exact .inl ha
      · rcases hp' t b f at' hts hal with ha | hpp
        · exact .inl ha
        · exact .inr ⟨b, f, at', hpp.trans hal⟩
  · have hcase := hp t b f at' hpt
    by_cases hts : t = s
    · subst hts
      rw [if_pos rfl] at hcase
      rw [update_self]
      exact .inr hcase
    · rw [if_neg hts] at hcase
      rw [update_of_ne hts]
      exact hcase

lemma Inv.free (h : Inv slots queue n a p)
    (hs : ∀ s, slots' s = slots s ∨ slots' s = (slots s).freeBuffer ∧ (slots s).bufferState ≠ .Dequeued) :
    Inv slots' queue n a p where
  agrees s := by
    rcases hs s with hs | ⟨hs, -⟩ <;> rw [hs]
    · exact h.agrees s
    · exact Agrees.nil (by simp [BufferSlot.freeBuffer]) (trackedBy_none rfl)
  slotObject s b hb := by
    rcases hs s with hs | ⟨hs, -⟩ <;> rw [hs] at hb
    · exact h.slotObject s b hb
    · simp [BufferSlot.freeBuffer] at hb
  itemObject := h.itemObject
  dequeued s hd hb := by
    rcases hs s with hs | ⟨hs, -⟩ <;> rw [hs] at hd hb
    · exact h.dequeued s hd hb
    · simp [BufferSlot.freeBuffer] at hd
  allocating s b f at' hp := by
    rcases h.allocating s b f at' hp with ha | hd
    · exact .inl ha
    · rcases hs s with hs | ⟨-, hne⟩
      · exact .inr (hs ▸ hd)
      · exact absurd hd hne

/-- With an empty queue and every buffer freed the invariant holds. -/
lemma Inv.cleared (slots : Slot → BufferSlot) (n : ℕ) (hp : a = true ∨ p = .idle) :
    Inv (fun s => (slots s).freeBuffer) [] n a p where
  agrees s := Agrees.nil (by simp [BufferSlot.freeBuffer]) rfl
  slotObject s b hb := by simp [BufferSlot.freeBuffer] at hb
  itemObject item hi := absurd hi (not_mem_nil)
  dequeued s hd := by simp [BufferSlot.freeBuffer] at hd
  allocating s b f at' hal := by
    rcases hp with ha | hp
    · exact .inl ha
    · exact Producer.noConfusion (hp.symm.trans hal)

end Rules

end Voltemu.Nvnflinger
