import Voltemu.Lib.Ring

/-!
# The ring of audio buffers

`audio_core/device/audio_buffers.h`: a ring of `N` audio buffers with three sections.  Each section has the index
behind its last buffer and a count.

* An appended buffer waits for the backend, a registered one is with the backend, a released one has been played
  and waits for the guest.
* `RegisterBuffers`, `ReleaseBuffers` and `FlushBuffers` move the oldest buffers of one section to the next,
  `GetReleasedBuffers` hands out the tags of the oldest released ones.
* `index - count`, corrected by `N` when negative, is `Ring.back`.  The indices and counts are `s32`; none of them
  exceeds `N`.
* The answers of the backend and the clock are inputs: one for every round of the loop in `ReleaseBuffers`.
-/

namespace Voltemu.Audio

open Voltemu.Lib

structure AudioBuffer where
  startTimestamp : ℕ
  endTimestamp : ℕ
  playedTimestamp : ℤ
  samples : ℕ
  tag : ℕ
  size : ℕ
deriving DecidableEq

def bufferAppendLimit : ℕ := 4

@[ext]
structure AudioBuffers (N : ℕ) where
  appendLimit : ℕ
  buffers : ℕ → AudioBuffer
  releasedIndex : ℕ
  releasedCount : ℕ
  registeredIndex : ℕ
  registeredCount : ℕ
  appendedIndex : ℕ
  appendedCount : ℕ

/-- What `ReleaseBuffers` learns in its `k`-th round: `DeviceSession::IsBufferConsumed` and the time. -/
structure Rounds where
  isBufferConsumed : ℕ → AudioBuffer → Bool
  globalTimeNs : ℕ → ℤ

/-- What `ReleaseBuffers` does with the session: whom it asks about, whom it gives back. -/
structure Released where
  asked : List AudioBuffer
  given : List AudioBuffer
deriving DecidableEq

namespace AudioBuffers

variable {N : ℕ}

def init (limit : ℕ) : AudioBuffers N where
  appendLimit := limit
  buffers := fun _ => ⟨0, 0, 0, 0, 0, 0⟩
  releasedIndex := 0
  releasedCount := 0
  registeredIndex := 0
  registeredCount := 0
  appendedIndex := 0
  appendedCount := 0

def appendBuffer (b : AudioBuffers N) (buffer : AudioBuffer) : AudioBuffers N :=
  { b with
    buffers := Function.update b.buffers b.appendedIndex buffer
    appendedCount := b.appendedCount + 1
    appendedIndex := (b.appendedIndex + 1) % b.appendLimit }

/-- One round of `RegisterBuffers`: the oldest appended buffer is registered. -/
def registerOne (b : AudioBuffers N) : AudioBuffers N :=
  { b with
    registeredCount := b.registeredCount + 1
    registeredIndex := (b.registeredIndex + 1) % b.appendLimit
    appendedCount := b.appendedCount - 1 }

def registerLoop : ℕ → AudioBuffers N → List AudioBuffer → AudioBuffers N × List AudioBuffer
  | 0, b, out => (b, out)
  | i + 1, b, out =>
      let out := out ++ [b.buffers (Ring.back N b.appendedIndex b.appendedCount)]
      let b := b.registerOne
      if b.appendedCount = 0 then (b, out) else registerLoop i b out

def registerBuffers (b : AudioBuffers N) : AudioBuffers N × List AudioBuffer :=
  let toRegister := min (min b.appendedCount bufferAppendLimit) (bufferAppendLimit - b.registeredCount)
  registerLoop toRegister b []

def releaseBuffer (b : AudioBuffers N) (index : ℕ) (timestamp : ℤ) : AudioBuffers N :=
  { b with
    buffers := Function.update b.buffers index { b.buffers index with playedTimestamp := timestamp }
    registeredCount := b.registeredCount - 1
    releasedCount := b.releasedCount + 1
    releasedIndex := (b.releasedIndex + 1) % b.appendLimit }

/-- The loop of `ReleaseBuffers`, from its round `k` on.  Each round takes one buffer out of the registered ones,
so their count bounds the rounds. -/
def releaseLoop (rounds : Rounds) (force : Bool) : ℕ → ℕ → AudioBuffers N → Released → AudioBuffers N × Released
  | 0, _, b, out => (b, out)
  | fuel + 1, k, b, out =>
      if b.registeredCount = 0 then (b, out)
      else
        let index := Ring.back N b.registeredIndex b.registeredCount
        let buffer := b.buffers index
        let out := if force then out else { out with asked := out.asked ++ [buffer] }
        if !force && !rounds.isBufferConsumed k buffer then (b, out)
        else releaseLoop rounds force fuel (k + 1) (b.releaseBuffer index (rounds.globalTimeNs k))
          { out with given := out.given ++ [buffer] }

def releaseBuffers (b : AudioBuffers N) (rounds : Rounds) (force : Bool) : AudioBuffers N × Released × Bool :=
  let (b, out) := releaseLoop rounds force b.registeredCount 0 b ⟨[], []⟩
  (b, out, !out.given.isEmpty || b.registeredCount == 0)

/-- One round of `GetReleasedBuffers`: the oldest released buffer is free. -/
def takeReleased (b : AudioBuffers N) : AudioBuffers N :=
  let index := Ring.back N b.releasedIndex b.releasedCount
  { b with
    releasedCount := b.releasedCount - 1
    buffers := Function.update b.buffers index
      { b.buffers index with playedTimestamp := 0, samples := 0, tag := 0, size := 0 } }

/-- The loop of `GetReleasedBuffers`; the released count bounds the rounds. -/
def getReleasedLoop : ℕ → AudioBuffers N → List ℕ → ℕ → AudioBuffers N × List ℕ × ℕ
  | 0, b, tags, released => (b, tags, released)
  | fuel + 1, b, tags, released =>
      if b.releasedCount = 0 then (b, tags, released)
      else
        let tag := (b.buffers (Ring.back N b.releasedIndex b.releasedCount)).tag
        let b := b.takeReleased
        if tag = 0 then (b, tags, released)
        else
          let tags := if released < tags.length then tags.set released tag else tags
          if tags.length ≤ released + 1 then (b, tags, released + 1)
          else getReleasedLoop fuel b tags (released + 1)

/-- `GetReleasedBuffers`: the span after the call, and how many tags were released. -/
def getReleasedBuffers (b : AudioBuffers N) (tags : List ℕ) : AudioBuffers N × List ℕ × ℕ :=
  getReleasedLoop b.releasedCount b tags 0

/-- One round of the first loop of `GetRegisteredAppendedBuffers`. -/
def flushRegistered (b : AudioBuffers N) : AudioBuffers N :=
  { b with
    registeredCount := b.registeredCount - 1
    releasedCount := b.releasedCount + 1
    releasedIndex := (b.releasedIndex + 1) % b.appendLimit }

/-- One round of the second loop of `GetRegisteredAppendedBuffers`.  The registered index stays. -/
def flushAppended (b : AudioBuffers N) : AudioBuffers N :=
  { b with
    appendedCount := b.appendedCount - 1
    releasedCount := b.releasedCount + 1
    releasedIndex := (b.releasedIndex + 1) % b.appendLimit }

def flushRegisteredLoop (toFlush : ℕ) : ℕ → AudioBuffers N → List AudioBuffer → AudioBuffers N × List AudioBuffer
  | 0, b, flushed => (b, flushed)
  | fuel + 1, b, flushed =>
      if b.registeredCount = 0 then (b, flushed)
      else
        let flushed := flushed ++ [b.buffers (Ring.back N b.registeredIndex b.registeredCount)]
        if toFlush ≤ flushed.length then (b.flushRegistered, flushed)
        else flushRegisteredLoop toFlush fuel b.flushRegistered flushed

def flushAppendedLoop (toFlush : ℕ) : ℕ → AudioBuffers N → List AudioBuffer → AudioBuffers N × List AudioBuffer
  | 0, b, flushed => (b, flushed)
  | fuel + 1, b, flushed =>
      if b.appendedCount = 0 then (b, flushed)
      else
        let flushed := flushed ++ [b.buffers (Ring.back N b.appendedIndex b.appendedCount)]
        if toFlush ≤ flushed.length then (b.flushAppended, flushed)
        else flushAppendedLoop toFlush fuel b.flushAppended flushed

def getRegisteredAppendedBuffers (b : AudioBuffers N) (maxBuffers : ℕ) : AudioBuffers N × List AudioBuffer :=
  if b.registeredCount + b.appendedCount = 0 then (b, [])
  else
    let toFlush := min (b.registeredCount + b.appendedCount) maxBuffers
    if toFlush = 0 then (b, [])
    else
      let (b, flushed) := flushRegisteredLoop toFlush b.registeredCount b []
      flushAppendedLoop toFlush b.appendedCount b flushed

/-- `FlushBuffers`: how many buffers were flushed, and whether all of them fit. -/
def flushBuffers (b : AudioBuffers N) : AudioBuffers N × ℕ × Bool :=
  let (b, flushed) := b.getRegisteredAppendedBuffers b.appendLimit
  (b, flushed.length,
    if 0 < b.registeredCount then false
    else if b.appendLimit < b.releasedCount + b.appendedCount then false
    else true)

def containsLoop (b : AudioBuffers N) (tag : ℕ) : ℕ → ℕ → Bool
  | 0, _ => false
  | i + 1, index =>
      if (b.buffers index).tag = tag then true else b.containsLoop tag i ((index + 1) % b.appendLimit)

def getTotalBufferCount (b : AudioBuffers N) : ℕ :=
  b.appendedCount + b.registeredCount + b.releasedCount

def containsBuffer (b : AudioBuffers N) (tag : ℕ) : Bool :=
  if b.getTotalBufferCount = 0 then false
  else b.containsLoop tag b.getTotalBufferCount (Ring.back b.appendLimit b.releasedIndex b.releasedCount)

end AudioBuffers

/-! ## Runs -/

/-- A call.  The tags of `getReleased` are what the span holds before it. -/
inductive Call
  | append (buffer : AudioBuffer)
  | register
  | release (rounds : Rounds) (force : Bool)
  | getReleased (tags : List ℕ)
  | flush
  | contains (tag : ℕ)

/-- What a call returns, with what it says to the session. -/
inductive Answer
  | done
  | registered (buffers : List AudioBuffer)
  | released (session : Released) (signal : Bool)
  | handedOut (tags : List ℕ) (count : ℕ)
  | flushed (count : ℕ) (ok : Bool)
  | contains (found : Bool)
deriving DecidableEq

def AudioBuffers.call {N : ℕ} (b : AudioBuffers N) : Call → AudioBuffers N × Answer
  | .append buffer => (b.appendBuffer buffer, .done)
  | .register => (b.registerBuffers.1, .registered b.registerBuffers.2)
  | .release rounds force =>
      ((b.releaseBuffers rounds force).1,
        .released (b.releaseBuffers rounds force).2.1 (b.releaseBuffers rounds force).2.2)
  | .getReleased tags =>
      ((b.getReleasedBuffers tags).1, .handedOut (b.getReleasedBuffers tags).2.1 (b.getReleasedBuffers tags).2.2)
  | .flush => (b.flushBuffers.1, .flushed b.flushBuffers.2.1 b.flushBuffers.2.2)
  | .contains tag => (b, .contains (b.containsBuffer tag))

def AudioBuffers.run {N : ℕ} (b : AudioBuffers N) : List Call → AudioBuffers N × List Answer
  | [] => (b, [])
  | c :: cs => (((b.call c).1.run cs).1, (b.call c).2 :: ((b.call c).1.run cs).2)

/-- `System::AppendBuffer` appends only while there is room; the tags that the guest gives are not zero, and
there is room for a tag in the span that it wants filled. -/
def AudioBuffers.Admits {N : ℕ} (b : AudioBuffers N) : Call → Prop
  | .append buffer => b.getTotalBufferCount < N ∧ buffer.tag ≠ 0
  | .getReleased tags => tags ≠ []
  | _ => True

/-- A flush that leaves the registered index in its place: nothing is appended, or the whole ring is. -/
def AudioBuffers.Flushable {N : ℕ} (b : AudioBuffers N) : Call → Prop
  | .flush => b.appendedCount = 0 ∨ b.appendedCount = N
  | _ => True

/-- Every call of the run meets the condition in the state before it. -/
def AudioBuffers.Always {N : ℕ} (P : AudioBuffers N → Call → Prop) (b : AudioBuffers N) : List Call → Prop
  | [] => True
  | c :: cs => P b c ∧ (b.call c).1.Always P cs

section Decidable

variable {N : ℕ} (b : AudioBuffers N)

instance : DecidablePred b.Admits
  | .append buffer => inferInstanceAs (Decidable (b.getTotalBufferCount < N ∧ buffer.tag ≠ 0))
  | .getReleased tags => inferInstanceAs (Decidable (tags ≠ []))
  | .register | .release _ _ | .flush | .contains _ => .isTrue trivial

instance : DecidablePred b.Flushable
  | .flush => inferInstanceAs (Decidable (b.appendedCount = 0 ∨ b.appendedCount = N))
  | .append _ | .register | .release _ _ | .getReleased _ | .contains _ => .isTrue trivial

instance AudioBuffers.decidableAlways (P : AudioBuffers N → Call → Prop) [∀ b, DecidablePred (P b)]
    (b : AudioBuffers N) : DecidablePred (b.Always P)
  | [] => .isTrue trivial
  | c :: cs => @instDecidableAnd _ _ _ (decidableAlways P (b.call c).1 cs)

end Decidable

end Voltemu.Audio
