import Voltemu.Nvnflinger.BufferQueueSlots

/-!
# The order of the frames

The frame numbers of the items that `AcquireBuffer` hands out.

* As long as `QueueBuffer` appends, the queue holds ascending frame numbers, all above those handed out and none
  above the frame counter.
* A droppable head is overwritten with the newest frame.  That is harmless when it stands alone; when older items
  stand behind it, the newest frame is presented before them.
-/

namespace Voltemu.Nvnflinger

open BufferQueueCore BufferQueueProducer BufferQueueConsumer List

/-- No item stands behind a droppable head. -/
def headStaysOrAlone : List BufferItem → Bool
  | front :: _ :: _ => !front.isDroppable
  | _ => true

/-- A step keeps the order: `QueueBuffer` meets no droppable head with items behind it, and the 64 bits of the
frame counter are not used up. -/
def keepsOrder (σ : System) : Op → Bool
  | .queueBuffer _ _ =>
      headStaysOrAlone σ.core.queue && decide (σ.core.frameCounter + 1 < 2 ^ 64)
  | _ => true

def System.runKeepsOrder (σ : System) : List Op → Bool
  | [] => true
  | op :: ops => keepsOrder σ op && match σ.step op with
      | none => true
      | some r => r.1.runKeepsOrder ops

/-- **The order**: the frames handed out and then those in the queue ascend, up to the frame counter. -/
structure Ordered (done : List ℕ) (c : BufferQueueCore) : Prop where
  ascending : (done ++ c.queue.map (·.frameNumber)).Pairwise (· < ·)
  bounded : ∀ f ∈ done ++ c.queue.map (·.frameNumber), f ≤ c.frameCounter

section

variable {done : List ℕ} {c c' : BufferQueueCore}

lemma Ordered.sublist (h : Ordered done c) (hq : c'.queue.Sublist c.queue)
    (hc : c'.frameCounter = c.frameCounter) : Ordered done c' := by
  have hsub := (List.Sublist.refl done).append (hq.map (·.frameNumber))
  refine ⟨h.ascending.sublist hsub, fun f hf => ?_⟩
  rw [hc]
  exact h.bounded f (hsub.subset hf)

lemma Ordered.push {item : BufferItem} (h : Ordered done c) (hq : c'.queue = c.queue ++ [item])
    (hc : c'.frameCounter = item.frameNumber) (hf : item.frameNumber = c.frameCounter + 1) :
    Ordered done c' := by
  have hframes : done ++ c'.queue.map (·.frameNumber) = (done ++ c.queue.map (·.frameNumber)) ++ [item.frameNumber] := by
    simp [hq]
  refine ⟨?_, fun f hmem => ?_⟩
  · rw [hframes, pairwise_append]
    refine ⟨h.ascending, pairwise_singleton _ _, fun f hmem g hg => ?_⟩
    rw [mem_singleton] at hg
    have hle := h.bounded f hmem
    omega
  · rw [hframes, mem_append, mem_singleton] at hmem
    rcases hmem with hmem | rfl
    · have hle := h.bounded f hmem
      omega
    · omega

end

def framesOf (reply : Reply) : List ℕ := (handedOut [reply]).map (·.frameNumber)

lemma handedOut_cons (reply : Reply) (rest : List Reply) :
    (handedOut (reply :: rest)).map (·.frameNumber) = framesOf reply ++ (handedOut rest).map (·.frameNumber) := by
  cases reply <;> rfl

variable {done : List ℕ} {σ σ' : System}

lemma Ordered.step {op : Op} {reply : Reply}
    (h : Ordered done σ.core) (hs : σ.step op = some (σ', reply)) (hk : keepsOrder σ op = true) :
    Ordered (done ++ framesOf reply) σ'.core := by
  have hsound := step_sound hs
  have hlog := hsound.log
  cases reply with
  | queued item out =>
    obtain ⟨slot, input, rfl⟩ := hsound.queued item out rfl
    obtain ⟨hframe, hcounter, hqueue⟩ := hlog
    rw [keepsOrder, Bool.and_eq_true, decide_eq_true_eq] at hk
    have hnew : item.frameNumber = σ.core.frameCounter + 1 :=
      hframe.trans (Nat.mod_eq_of_lt hk.2)
    rw [show framesOf (.queued item out) = [] from rfl, append_nil]
    rcases hqueue with hq | ⟨front, rest, hq, hdrop, hq'⟩
    · exact h.push hq hcounter hnew
    · -- the overwritten head stood alone
      have hrest : rest = [] := by
        cases rest with
        | nil => rfl
        | cons second rest =>
          rw [hq] at hk
          simp [headStaysOrAlone, hdrop] at hk
      subst hrest
      have hempty : Ordered done { σ.core with queue := [] } :=
        h.sublist (nil_sublist _) rfl
      exact hempty.push hq' hcounter hnew
  | acquired out =>
    obtain ⟨hcounter, item, hout, hsub⟩ := hlog
    have hframes : framesOf (.acquired out) = [item.frameNumber] := by
      rw [hout]
      rfl
    have hmoved : Ordered done { σ.core with queue := item :: σ'.core.queue } :=
      h.sublist hsub rfl
    refine ⟨?_, ?_⟩
    · simpa [hframes] using hmoved.ascending
    · rw [hcounter]
      simpa [hframes] using hmoved.bounded
  | _ =>
    rw [show framesOf _ = [] from rfl, append_nil]
    exact h.sublist hlog.2 hlog.1

lemma Ordered.run {ops : List Op} {replies : List Reply} (h : Ordered done σ.core) (hr : σ.run ops = some (σ', replies))
    (hk : σ.runKeepsOrder ops = true) :
    Ordered (done ++ (handedOut replies).map (·.frameNumber)) σ'.core := by
  induction ops generalizing σ done replies with
  | nil =>
    cases hr
    simpa [handedOut] using h
  | cons op ops ih =>
    obtain ⟨σ1, reply, rest, hs, hrest, rfl⟩ := run_cons hr
    rw [System.runKeepsOrder, hs, Bool.and_eq_true] at hk
    have hfinal := ih (h.step hs hk.1) hrest hk.2
    rwa [append_assoc, ← handedOut_cons] at hfinal

/-- **Frames are presented in order** in every run in which `QueueBuffer` never meets a droppable head with items
behind it. -/
theorem frames_ascend_of_run {ops : List Op} {σ : System} {replies : List Reply}
    (h : System.init.run ops = some (σ, replies)) (hk : System.init.runKeepsOrder ops = true) :
    ((handedOut replies).map (·.frameNumber)).Pairwise (· < ·) := by
  have hinit : Ordered [] System.init.core := ⟨List.Pairwise.nil, fun f hf => by cases hf⟩
  have hrun := (hinit.run h hk).ascending
  rw [nil_append] at hrun
  exact (pairwise_append.1 hrun).1

/-- Three calls of `DequeueBuffer` and `QueueBuffer`, the first synchronous; then the consumer takes the first item,
its slot is queued again, and the two items left are acquired. -/
def overtaken : List Op :=
  [.consumerConnect false, .connect .Egl false, .setBufferCount 3,
    plainDequeue, .dequeueAllocated, .requestBuffer 0, .queueBuffer 0 (plainInput false),
    plainDequeue, .dequeueAllocated, .requestBuffer 1, .queueBuffer 1 (plainInput true),
    plainDequeue, .dequeueAllocated, .requestBuffer 2, .queueBuffer 2 (plainInput true),
    .acquireBuffer 0, .releaseBuffer 0 1, plainDequeue, .queueBuffer 0 (plainInput true),
    .acquireBuffer 0, .releaseBuffer 0 4, .acquireBuffer 0]

/-- Without the second call of `QueueBuffer` for slot 0 the frames ascend. -/
theorem frames_ascend_of_start :
    ((System.init.run (overtaken.take 17 ++ [.acquireBuffer 0])).map fun q =>
      (handedOut q.2).map (·.frameNumber)) = some [1, 2] ∧
    ∀ σ replies, System.init.run (overtaken.take 17 ++ [.acquireBuffer 0]) = some (σ, replies) →
      ((handedOut replies).map (·.frameNumber)).Pairwise (· < ·) :=
  ⟨by decide +kernel, fun _ _ h => frames_ascend_of_run h (by decide +kernel)⟩

/-- The fourth frame overwrites the droppable second one at the head of the queue and is presented before the
third. -/
theorem frames_overtake :
    ((System.init.run overtaken).map fun q => (handedOut q.2).map (·.frameNumber)) = some [1, 4, 3] := by
  decide +kernel

end Voltemu.Nvnflinger
