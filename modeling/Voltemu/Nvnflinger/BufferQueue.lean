import Mathlib.Data.BitVec

/-!
# The buffer queue

`core/hle/service/nvnflinger/buffer_queue_core.cpp`, `buffer_queue_producer.cpp` and `buffer_queue_consumer.cpp`:
the slots and the queue that a producer and a consumer share.

* A slot is `Free`, `Dequeued`, `Queued` or `Acquired`.  The queue holds the items that the producer has queued and
  the consumer has not taken yet.  An item names a slot and holds a reference to the buffer that the slot had then.
* A graphic buffer is an object: `GraphicBuffer.object` is its identity, and `nextObject` counts the objects
  created so far.  An item keeps its buffer alive, so a new buffer never has the address of one that is compared
  with it.
* Every operation runs under the mutex of the core.  `DequeueBuffer` gives it up twice: while it waits for a free
  slot, and while it creates a buffer.  `Producer` says where the producer stands in it, and the steps
  `dequeueWake` and `dequeueAllocated` are the sections of the call that follow.
* `use_async_buffer`, `max_acquired_buffer_count` and `default_max_buffer_count` never change.
* The buffer history, the listeners and the events are left out: nothing here reads them.
-/

namespace Voltemu.Nvnflinger

inductive BufferState
  | Free
  | Dequeued
  | Queued
  | Acquired
deriving DecidableEq

/-- `PixelFormat`, read from a parcel: any other number may come too. -/
inductive PixelFormat
  | NoFormat
  | Rgba8888
  | Rgbx8888
  | Rgb888
  | Rgb565
  | Bgra8888
  | Rgba5551
  | Rgba4444
  | other (value : ℕ)
deriving DecidableEq

/-- `NativeWindowApi`, read from a parcel. -/
inductive NativeWindowApi
  | NoConnectedApi
  | Egl
  | Cpu
  | Media
  | Camera
  | other (value : ℤ)
deriving DecidableEq

/-- `NativeWindowScalingMode`, read from a parcel. -/
inductive NativeWindowScalingMode
  | Freeze
  | ScaleToWindow
  | ScaleCrop
  | NoScaleCrop
  | PreserveAspectRatio
  | other (value : ℤ)
deriving DecidableEq

/-- `Status`.  The two flags that `DequeueBuffer` returns share their numbers with errors and are kept apart, in
`DequeueFlags`. -/
inductive Status
  | NoError
  | StaleBufferSlot
  | NoBufferAvailable
  | PresentLater
  | WouldBlock
  | Busy
  | NoInit
  | BadValue
  | InvalidOperation
deriving DecidableEq

/-- `BufferNeedsReallocation` and `ReleaseAllBuffers`. -/
structure DequeueFlags where
  bufferNeedsReallocation : Bool
  releaseAllBuffers : Bool
deriving DecidableEq

structure NvFence where
  id : ℤ
  value : ℕ
deriving DecidableEq

structure Fence where
  numFences : ℕ
  fences : List NvFence
deriving DecidableEq

def Fence.noFence : Fence := ⟨0, List.replicate 4 ⟨-1, 0⟩⟩

/-- A fence as its constructor leaves it. -/
def Fence.default : Fence := ⟨0, List.replicate 4 ⟨0, 0⟩⟩

/-- `NvGraphicBuffer`: what the queue reads of it. -/
structure NvGraphicBuffer where
  width : ℕ
  height : ℕ
  format : PixelFormat
  usage : BitVec 32
deriving DecidableEq

/-- `GraphicBuffer`, an object with an identity. -/
structure GraphicBuffer extends NvGraphicBuffer where
  object : ℕ
deriving DecidableEq

abbrev numBufferSlots : ℕ := 64

abbrev Slot := Fin numBufferSlots

structure BufferSlot where
  graphicBuffer : Option GraphicBuffer := none
  bufferState : BufferState := .Free
  requestBufferCalled : Bool := false
  frameNumber : ℕ := 0
  fence : Fence := Fence.default
  acquireCalled : Bool := false
  needsCleanupOnRelease : Bool := false
  attachedByConsumer : Bool := false
  isPreallocated : Bool := false
deriving DecidableEq

/-- `Rectangle<s32>`. -/
structure Rectangle where
  left : ℤ
  top : ℤ
  right : ℤ
  bottom : ℤ
deriving DecidableEq

structure BufferItem where
  graphicBuffer : Option GraphicBuffer
  fence : Fence
  crop : Rectangle
  transform : BitVec 32
  scalingMode : NativeWindowScalingMode
  timestamp : ℤ
  isAutoTimestamp : Bool
  frameNumber : ℕ
  slot : Slot
  isDroppable : Bool
  acquireCalled : Bool
  transformToDisplayInverse : Bool
  swapInterval : ℤ
deriving DecidableEq

structure QueueBufferInput where
  timestamp : ℤ
  isAutoTimestamp : Bool
  crop : Rectangle
  scalingMode : NativeWindowScalingMode
  transform : BitVec 32
  async : Bool
  swapInterval : ℤ
  fence : Fence
deriving DecidableEq

structure QueueBufferOutput where
  width : ℕ
  height : ℕ
  transformHint : ℕ
  numPendingBuffers : ℕ
deriving DecidableEq

/-- `BufferQueueCore`.  `overrideMaxBufferCount` never exceeds the number of slots. -/
structure BufferQueueCore where
  isAbandoned : Bool := false
  consumerControlledByApp : Bool := false
  consumerListener : Bool := false
  consumerUsageBit : BitVec 32 := 0
  connectedApi : NativeWindowApi := .NoConnectedApi
  slots : Slot → BufferSlot := fun _ => {}
  queue : List BufferItem := []
  overrideMaxBufferCount : Fin (numBufferSlots + 1) := 0
  dequeuePossible : Bool := false
  dequeueBufferCannotBlock : Bool := false
  defaultBufferFormat : PixelFormat := .Rgba8888
  defaultWidth : ℕ := 1
  defaultHeight : ℕ := 1
  bufferHasBeenQueued : Bool := false
  frameCounter : ℕ := 0
  transformHint : ℕ := 0
  nextObject : ℕ := 0

def useAsyncBuffer : Bool := false

def maxAcquiredBufferCount : ℕ := 0

def defaultMaxBufferCount : ℕ := 2

/-- `UINT32_MAX`, the frame number of a slot without a frame. -/
def uint32Max : ℕ := 4294967295

def maxReasonableNsec : ℤ := 1000000000

def inverseDisplay : BitVec 32 := 8

/-- The range check on a slot index: `slot < 0 || slot >= NUM_BUFFER_SLOTS`. -/
def slotOf (slot : ℤ) : Option Slot :=
  if h : 0 ≤ slot ∧ slot < numBufferSlots then some ⟨slot.toNat, by omega⟩ else none

/-- The tracking test of a slot: its buffer is there and is the object that the item holds. -/
def BufferSlot.tracks (slot : BufferSlot) (item : BufferItem) : Bool :=
  slot.graphicBuffer.isSome && (item.graphicBuffer.map (·.object) == slot.graphicBuffer.map (·.object))

/-- `FreeBufferLocked`, on the slot. -/
def BufferSlot.freeBuffer (slot : BufferSlot) : BufferSlot :=
  { slot with
    graphicBuffer := none
    needsCleanupOnRelease := slot.needsCleanupOnRelease || (slot.bufferState == .Acquired)
    bufferState := .Free
    frameNumber := uint32Max
    acquireCalled := false
    fence := Fence.noFence }

namespace BufferQueueCore

def setSlot (c : BufferQueueCore) (s : Slot) (v : BufferSlot) : BufferQueueCore :=
  { c with slots := Function.update c.slots s v }

def signalDequeueCondition (c : BufferQueueCore) : BufferQueueCore :=
  { c with dequeuePossible := true }

def getMinUndequeuedBufferCountLocked (c : BufferQueueCore) (async : Bool) : ℕ :=
  if !useAsyncBuffer then 0
  else if c.dequeueBufferCannotBlock || async then maxAcquiredBufferCount + 1
  else maxAcquiredBufferCount

def getMinMaxBufferCountLocked (c : BufferQueueCore) (async : Bool) : ℕ :=
  c.getMinUndequeuedBufferCountLocked async

def getMaxBufferCountLocked (c : BufferQueueCore) (async : Bool) : ℕ :=
  let base := max defaultMaxBufferCount (c.getMinMaxBufferCountLocked async)
  if c.overrideMaxBufferCount ≠ 0 then c.overrideMaxBufferCount
  else (List.finRange numBufferSlots).foldl (fun m s =>
    if base ≤ s.val ∧ ((c.slots s).bufferState = .Queued ∨ (c.slots s).bufferState = .Dequeued)
    then s.val + 1 else m) base

def getPreallocatedBufferCountLocked (c : BufferQueueCore) : ℕ :=
  (List.finRange numBufferSlots).countP fun s => (c.slots s).isPreallocated

def freeBufferLocked (c : BufferQueueCore) (s : Slot) : BufferQueueCore :=
  c.setSlot s (c.slots s).freeBuffer

def freeAllBuffersLocked (c : BufferQueueCore) : BufferQueueCore :=
  { c with bufferHasBeenQueued := false, slots := fun s => (c.slots s).freeBuffer }

def stillTracking (c : BufferQueueCore) (item : BufferItem) : Bool :=
  (c.slots item.slot).tracks item

end BufferQueueCore

/-- Where the producer stands in `DequeueBuffer`. -/
inductive Producer
  | idle
  /-- In `WaitForDequeueCondition`. -/
  | waiting (async : Bool) (width height : ℕ) (format : PixelFormat) (usage : BitVec 32) (releaseAllBuffers : Bool)
  /-- Between the two sections, creating the buffer of a slot. -/
  | allocating (slot : Slot) (buffer : NvGraphicBuffer) (flags : DequeueFlags) (attachedByConsumer : Bool)
deriving DecidableEq

structure System where
  core : BufferQueueCore
  producer : Producer

inductive Reply
  | status (status : Status)
  /-- `DequeueBuffer` has not returned yet. -/
  | pending
  | dequeued (slot : Slot) (fence : Fence) (flags : DequeueFlags)
  | requested (buffer : Option GraphicBuffer)
  | queued (item : BufferItem) (output : QueueBufferOutput)
  | connected (output : QueueBufferOutput)
  | cancelled
  /-- `CancelBuffer` returns nothing when it refuses either. -/
  | notCancelled
  | acquired (item : BufferItem)
deriving DecidableEq

def Reply.Fails : Reply → Prop
  | .status s => s ≠ .NoError
  | .notCancelled => True
  | _ => False

instance : DecidablePred Reply.Fails := fun r => by
  cases r <;> unfold Reply.Fails <;> infer_instance

namespace BufferQueueProducer

open BufferQueueCore

def requestBuffer (c : BufferQueueCore) (slot : ℤ) : BufferQueueCore × Reply :=
  if c.isAbandoned then (c, .status .NoInit)
  else match slotOf slot with
    | none => (c, .status .BadValue)
    | some s =>
        if (c.slots s).bufferState ≠ .Dequeued then (c, .status .BadValue)
        else (c.setSlot s { c.slots s with requestBufferCalled := true }, .requested (c.slots s).graphicBuffer)

def setBufferCount (c : BufferQueueCore) (bufferCount : ℤ) : BufferQueueCore × Reply :=
  if c.isAbandoned then (c, .status .NoInit)
  else if bufferCount > numBufferSlots then (c, .status .BadValue)
  else if ∃ s, (c.slots s).bufferState = .Dequeued then (c, .status .BadValue)
  else if bufferCount = 0 then
    (signalDequeueCondition { c with overrideMaxBufferCount := 0 }, .status .NoError)
  else if bufferCount < c.getMinMaxBufferCountLocked false then (c, .status .BadValue)
  else
    let c' := if c.getPreallocatedBufferCountLocked ≤ 0 then c.freeAllBuffersLocked else c
    (signalDequeueCondition
      { c' with overrideMaxBufferCount := Fin.ofNat _ bufferCount.toNat }, .status .NoError)

/-- The slots after the loop that frees the buffers beyond the maximal count. -/
def freeBeyond (c : BufferQueueCore) (maxBufferCount : ℕ) : Slot → BufferSlot := fun s =>
  if maxBufferCount ≤ s.val ∧ (c.slots s).graphicBuffer.isSome ∧ (c.slots s).bufferState = .Free ∧
      (c.slots s).isPreallocated = false
  then (c.slots s).freeBuffer else c.slots s

/-- The loop frees a buffer: `ReleaseAllBuffers` is returned. -/
def freesBeyond (c : BufferQueueCore) (maxBufferCount : ℕ) : Bool :=
  (List.finRange numBufferSlots).any fun s =>
    maxBufferCount ≤ s.val && (c.slots s).graphicBuffer.isSome &&
      (c.slots s).bufferState == .Free && !(c.slots s).isPreallocated

/-- The oldest free slot below the maximal count. -/
def findFree (slots : Slot → BufferSlot) (maxBufferCount : ℕ) : Option Slot :=
  (List.finRange numBufferSlots).foldl (fun found s =>
    if s.val < maxBufferCount ∧ (slots s).bufferState = .Free then
      match found with
      | none => some s
      | some f => if (slots s).frameNumber < (slots f).frameNumber then some s else some f
    else found) none

/-- The slots below the maximal count that are in the given state. -/
def countState (slots : Slot → BufferSlot) (maxBufferCount : ℕ) (st : BufferState) : ℕ :=
  (List.finRange numBufferSlots).countP fun s =>
    decide (s.val < maxBufferCount) && (slots s).bufferState == st

/-- How a round of `WaitForFreeSlotThenRelock` ends. -/
inductive Round
  | error (status : Status)
  | again
  | found (slot : Slot)

/-- One round of `WaitForFreeSlotThenRelock`, and whether it freed a buffer. -/
def waitForFreeSlot (c : BufferQueueCore) (async : Bool) : BufferQueueCore × Bool × Round :=
  if c.isAbandoned then (c, false, .error .NoInit)
  else
    let maxBufferCount := c.getMaxBufferCountLocked async
    if async ∧ c.overrideMaxBufferCount ≠ 0 ∧ c.overrideMaxBufferCount.val < maxBufferCount then
      (c, false, .error .BadValue)
    else
      let c' := { c with slots := freeBeyond c maxBufferCount }
      let freed := freesBeyond c maxBufferCount
      let dequeuedCount := countState c'.slots maxBufferCount .Dequeued
      let acquiredCount := countState c'.slots maxBufferCount .Acquired
      if c.overrideMaxBufferCount = 0 ∧ dequeuedCount ≠ 0 then (c', freed, .error .InvalidOperation)
      else if c.bufferHasBeenQueued ∧ (maxBufferCount : ℤ) - (dequeuedCount + 1) <
          c.getMinUndequeuedBufferCountLocked async then (c', freed, .error .InvalidOperation)
      else
        match findFree c'.slots maxBufferCount, decide (c.queue.length > maxBufferCount) with
        | some s, false => (c', freed, .found s)
        | _, _ =>
            if c.dequeueBufferCannotBlock ∧ acquiredCount ≤ maxAcquiredBufferCount then
              (c', freed, .error .WouldBlock)
            else (c', freed, .again)

/-- The buffer in a slot does not fit what is asked for. -/
def needsReallocation (buffer : Option GraphicBuffer) (width height : ℕ) (format : PixelFormat)
    (usage : BitVec 32) : Bool :=
  match buffer with
  | none => true
  | some b => b.width != width || b.height != height || b.format != format ||
      (b.usage &&& usage) != usage

/-- The rest of the first section of `DequeueBuffer`, for the slot found. -/
def takeSlot (c : BufferQueueCore) (s : Slot) (width height : ℕ) (format : PixelFormat)
    (usage : BitVec 32) (releaseAllBuffers : Bool) : System × Reply :=
  let slot := c.slots s
  let width' := if width = 0 ∧ height = 0 then c.defaultWidth else width
  let height' := if width = 0 ∧ height = 0 then c.defaultHeight else height
  if needsReallocation slot.graphicBuffer width' height' format usage then
    (⟨c.setSlot s { slot with
        bufferState := .Dequeued
        acquireCalled := false
        graphicBuffer := none
        requestBufferCalled := false
        fence := Fence.noFence },
      .allocating s ⟨width', height', format, usage⟩ ⟨true, releaseAllBuffers⟩ slot.attachedByConsumer⟩, .pending)
  else
    (⟨c.setSlot s { slot with bufferState := .Dequeued, fence := Fence.noFence }, .idle⟩,
      .dequeued s slot.fence ⟨slot.attachedByConsumer, releaseAllBuffers⟩)

/-- One round of the first section of `DequeueBuffer`, with what the call has accumulated. -/
def dequeueRound (c : BufferQueueCore) (async : Bool) (width height : ℕ) (format : PixelFormat)
    (usage : BitVec 32) (releaseAllBuffers : Bool) : System × Reply :=
  match waitForFreeSlot c async with
  | (c', _, .error status) => (⟨c', .idle⟩, .status status)
  | (c', freed, .again) =>
      (⟨c', .waiting async width height format usage (releaseAllBuffers || freed)⟩, .pending)
  | (c', freed, .found s) => takeSlot c' s width height format usage (releaseAllBuffers || freed)

/-- `DequeueBuffer`, up to the first time it gives up the mutex. -/
def dequeueBuffer (c : BufferQueueCore) (async : Bool) (width height : ℕ) (format : PixelFormat)
    (usage : BitVec 32) : System × Reply :=
  if (width ≠ 0 ∧ height = 0) ∨ (width = 0 ∧ height ≠ 0) then (⟨c, .idle⟩, .status .BadValue)
  else dequeueRound c async width height
    (if format = .NoFormat then c.defaultBufferFormat else format)
    (usage ||| c.consumerUsageBit) false

/-- The second section of `DequeueBuffer`: the new buffer enters its slot. -/
def dequeueAllocated (c : BufferQueueCore) (s : Slot) (buffer : NvGraphicBuffer)
    (flags : DequeueFlags) (attachedByConsumer : Bool) : BufferQueueCore × Reply :=
  if c.isAbandoned then (c, .status .NoInit)
  else
    ({ c.setSlot s { c.slots s with
        frameNumber := uint32Max
        graphicBuffer := some ⟨buffer, c.nextObject⟩ } with nextObject := c.nextObject + 1 },
      .dequeued s Fence.noFence
        { flags with
          bufferNeedsReallocation := flags.bufferNeedsReallocation || attachedByConsumer })

def detachBuffer (c : BufferQueueCore) (slot : ℤ) : BufferQueueCore × Reply :=
  if c.isAbandoned then (c, .status .NoInit)
  else match slotOf slot with
    | none => (c, .status .BadValue)
    | some s =>
        if (c.slots s).bufferState ≠ .Dequeued then (c, .status .BadValue)
        else if (c.slots s).requestBufferCalled = false then (c, .status .BadValue)
        else (signalDequeueCondition (c.freeBufferLocked s), .status .NoError)

/-- The scaling modes that `QueueBuffer` knows. -/
def knownScalingMode : NativeWindowScalingMode → Bool
  | .other _ => false
  | _ => true

/-- The item that `QueueBuffer` builds for a slot, with the new frame number. -/
def newItem (c : BufferQueueCore) (s : Slot) (input : QueueBufferInput) (frame : ℕ) : BufferItem :=
  { graphicBuffer := (c.slots s).graphicBuffer
    fence := input.fence
    crop := input.crop
    transform := input.transform &&& ~~~inverseDisplay
    scalingMode := input.scalingMode
    timestamp := input.timestamp
    isAutoTimestamp := input.isAutoTimestamp
    frameNumber := frame
    slot := s
    isDroppable := c.dequeueBufferCannotBlock || input.async
    acquireCalled := (c.slots s).acquireCalled
    transformToDisplayInverse := (input.transform &&& inverseDisplay) != 0
    swapInterval := input.swapInterval }

/-- The end of the queue section of `QueueBuffer`: the item is appended, or overwrites a droppable head. -/
def enqueue (c : BufferQueueCore) (item : BufferItem) : BufferQueueCore :=
  match c.queue with
  | [] => { c with queue := [item] }
  | front :: rest =>
      let c' := if front.isDroppable && c.stillTracking front then
          c.setSlot front.slot
            { c.slots front.slot with bufferState := .Free, frameNumber := 0 }
        else c
      if front.isDroppable then { c' with queue := item :: rest }
      else { c' with queue := c.queue ++ [item] }

/-- `QueueBuffer`.  The frame counter is 64 bits wide. -/
def queueBuffer (c : BufferQueueCore) (slot : ℤ) (input : QueueBufferInput) : BufferQueueCore × Reply :=
  if knownScalingMode input.scalingMode = false then (c, .status .BadValue)
  else if c.isAbandoned then (c, .status .NoInit)
  else match slotOf slot with
    | none => (c, .status .BadValue)
    | some s =>
        if c.getMaxBufferCountLocked input.async ≤ s.val then (c, .status .BadValue)
        else if (c.slots s).bufferState ≠ .Dequeued then (c, .status .BadValue)
        else if (c.slots s).requestBufferCalled = false then (c, .status .BadValue)
        else
          let frame := (c.frameCounter + 1) % 2 ^ 64
          let item := newItem c s input frame
          let c1 := { c.setSlot s { c.slots s with
            bufferState := .Queued, frameNumber := frame, fence := input.fence } with
            frameCounter := frame }
          let c2 := enqueue c1 item
          (signalDequeueCondition { c2 with bufferHasBeenQueued := true },
            .queued item ⟨c.defaultWidth, c.defaultHeight, c.transformHint, c2.queue.length⟩)

def cancelBuffer (c : BufferQueueCore) (slot : ℤ) (fence : Fence) : BufferQueueCore × Reply :=
  if c.isAbandoned then (c, .notCancelled)
  else match slotOf slot with
    | none => (c, .notCancelled)
    | some s =>
        if (c.slots s).bufferState ≠ .Dequeued then (c, .notCancelled)
        else (signalDequeueCondition (c.setSlot s { c.slots s with
          bufferState := .Free, frameNumber := 0, fence := fence }), .cancelled)

/-- The interfaces that `Connect` and `Disconnect` know. -/
def knownApi : NativeWindowApi → Bool
  | .Egl | .Cpu | .Media | .Camera => true
  | _ => false

/-- `Connect`.  An unknown interface is refused after the two flags at the end have been set. -/
def connect (c : BufferQueueCore) (api : NativeWindowApi) (producerControlledByApp : Bool) : BufferQueueCore × Reply :=
  if c.isAbandoned then (c, .status .NoInit)
  else if c.consumerListener = false then (c, .status .NoInit)
  else if c.connectedApi ≠ .NoConnectedApi then (c, .status .BadValue)
  else
    let c' := { c with
      bufferHasBeenQueued := false
      dequeueBufferCannotBlock := c.consumerControlledByApp && producerControlledByApp }
    if knownApi api then
      ({ c' with connectedApi := api },
        .connected ⟨c.defaultWidth, c.defaultHeight, c.transformHint, c.queue.length⟩)
    else (c', .status .BadValue)

def disconnect (c : BufferQueueCore) (api : NativeWindowApi) : BufferQueueCore × Reply :=
  if c.isAbandoned then (c, .status .NoError)
  else if c.connectedApi = .NoConnectedApi then (c, .status .NoInit)
  else if knownApi api ∧ c.connectedApi = api then
    (signalDequeueCondition { ({ c with queue := [] } : BufferQueueCore).freeAllBuffersLocked with
      connectedApi := .NoConnectedApi }, .status .NoError)
  else (c, .status .BadValue)

/-- `SetPreallocatedBuffer`: the slot starts afresh, whatever its state. -/
def setPreallocatedBuffer (c : BufferQueueCore) (slot : ℤ) (buffer : Option NvGraphicBuffer) : BufferQueueCore × Reply :=
  match slotOf slot with
  | none => (c, .status .BadValue)
  | some s =>
      match buffer with
      | none =>
          (signalDequeueCondition { c.setSlot s
            { fence := Fence.noFence, graphicBuffer := some ⟨⟨0, 0, .NoFormat, 0⟩, c.nextObject⟩ } with
            nextObject := c.nextObject + 1 }, .status .NoError)
      | some b =>
          let c' := { c.setSlot s
            { fence := Fence.noFence, graphicBuffer := some ⟨b, c.nextObject⟩,
              isPreallocated := true } with nextObject := c.nextObject + 1 }
          (signalDequeueCondition { c' with
            overrideMaxBufferCount := Fin.ofNat _ c'.getPreallocatedBufferCountLocked
            defaultWidth := b.width
            defaultHeight := b.height
            defaultBufferFormat := b.format }, .status .NoError)

end BufferQueueProducer

namespace BufferQueueConsumer

open BufferQueueCore

/-- The loop of `AcquireBuffer`: the head is dropped while the item behind it is timely. -/
def dropStale (expectedPresent : ℤ) : (Slot → BufferSlot) → List BufferItem → (Slot → BufferSlot) × List BufferItem
  | slots, first :: second :: rest =>
      if first.isAutoTimestamp then (slots, first :: second :: rest)
      else if second.timestamp < expectedPresent - maxReasonableNsec ∨
          second.timestamp > expectedPresent then (slots, first :: second :: rest)
      else dropStale expectedPresent
        (if (slots first.slot).tracks first then
          Function.update slots first.slot { slots first.slot with bufferState := .Free }
        else slots) (second :: rest)
  | slots, queue => (slots, queue)

/-- The consumer gets the item without its buffer when it has acquired the buffer before. -/
def handOut (item : BufferItem) : BufferItem :=
  { item with graphicBuffer := if item.acquireCalled then none else item.graphicBuffer }

/-- The end of `AcquireBuffer`: the head is handed out. -/
def takeFront (c : BufferQueueCore) (front : BufferItem) (rest : List BufferItem) : BufferQueueCore × Reply :=
  let c' := if c.stillTracking front then
      c.setSlot front.slot { c.slots front.slot with
        acquireCalled := true, needsCleanupOnRelease := false, bufferState := .Acquired }
    else c
  (signalDequeueCondition { c' with queue := rest }, .acquired (handOut front))

def acquireBuffer (c : BufferQueueCore) (expectedPresent : ℤ) : BufferQueueCore × Reply :=
  if maxAcquiredBufferCount + 1 ≤ (List.finRange numBufferSlots).countP
      (fun s => (c.slots s).bufferState == .Acquired) then (c, .status .InvalidOperation)
  else
    match c.queue with
    | [] => (c, .status .NoBufferAvailable)
    | front :: rest =>
        if expectedPresent = 0 then takeFront c front rest
        else
          let (slots, queue) := dropStale expectedPresent c.slots (front :: rest)
          let c' := { c with slots := slots, queue := queue }
          match queue with
          | [] => (c', .status .NoBufferAvailable)
          | front :: rest =>
              if front.timestamp > expectedPresent ∧
                  front.timestamp < expectedPresent + maxReasonableNsec then
                (c', .status .PresentLater)
              else takeFront c' front rest

/-- `ReleaseBuffer`.  The fence is not stored. -/
def releaseBuffer (c : BufferQueueCore) (slot : ℤ) (frameNumber : ℕ) : BufferQueueCore × Reply :=
  match slotOf slot with
  | none => (c, .status .BadValue)
  | some s =>
      if frameNumber ≠ (c.slots s).frameNumber then (c, .status .StaleBufferSlot)
      else if ∃ item ∈ c.queue, item.slot = s then (c, .status .BadValue)
      else if (c.slots s).bufferState = .Acquired then
        (signalDequeueCondition (c.setSlot s { c.slots s with bufferState := .Free }), .status .NoError)
      else if (c.slots s).needsCleanupOnRelease then
        (c.setSlot s { c.slots s with needsCleanupOnRelease := false }, .status .StaleBufferSlot)
      else (c, .status .BadValue)

/-- `Connect`, of a consumer. -/
def connect (c : BufferQueueCore) (controlledByApp : Bool) : BufferQueueCore × Reply :=
  if c.isAbandoned then (c, .status .NoInit)
  else ({ c with consumerListener := true, consumerControlledByApp := controlledByApp }, .status .NoError)

/-- `Disconnect`, of the consumer. -/
def disconnect (c : BufferQueueCore) : BufferQueueCore × Reply :=
  if c.consumerListener = false then (c, .status .BadValue)
  else (signalDequeueCondition ({ c with
    isAbandoned := true, consumerListener := false, queue := [] } :
      BufferQueueCore).freeAllBuffersLocked, .status .NoError)

end BufferQueueConsumer

/-- The operations, and the sections of `DequeueBuffer` after it has given up the mutex. -/
inductive Op
  | connect (api : NativeWindowApi) (producerControlledByApp : Bool)
  | setPreallocatedBuffer (slot : ℤ) (buffer : Option NvGraphicBuffer)
  | dequeueBuffer (async : Bool) (width height : ℕ) (format : PixelFormat) (usage : BitVec 32)
  | dequeueWake
  | dequeueAllocated
  | requestBuffer (slot : ℤ)
  | queueBuffer (slot : ℤ) (input : QueueBufferInput)
  | cancelBuffer (slot : ℤ) (fence : Fence)
  | detachBuffer (slot : ℤ)
  | setBufferCount (bufferCount : ℤ)
  | disconnect (api : NativeWindowApi)
  | consumerConnect (controlledByApp : Bool)
  | acquireBuffer (expectedPresent : ℤ)
  | releaseBuffer (slot : ℤ) (frameNumber : ℕ)
  | consumerDisconnect
deriving DecidableEq

namespace System

/-- An operation of the producer, which does one at a time. -/
def produce (σ : System) (f : BufferQueueCore → BufferQueueCore × Reply) : Option (System × Reply) :=
  match σ.producer with
  | .idle => some (⟨(f σ.core).1, .idle⟩, (f σ.core).2)
  | _ => none

/-- An operation of the consumer, which may come at any time. -/
def consume (σ : System) (f : BufferQueueCore → BufferQueueCore × Reply) : Option (System × Reply) :=
  some (⟨(f σ.core).1, σ.producer⟩, (f σ.core).2)

/-- One section under the mutex.  A waiting producer wakes when a slot may have become free. -/
def step (σ : System) : Op → Option (System × Reply)
  | .connect api controlled => σ.produce fun c => BufferQueueProducer.connect c api controlled
  | .setPreallocatedBuffer slot buffer =>
      σ.produce fun c => BufferQueueProducer.setPreallocatedBuffer c slot buffer
  | .dequeueBuffer async width height format usage =>
      match σ.producer with
      | .idle => some (BufferQueueProducer.dequeueBuffer σ.core async width height format usage)
      | _ => none
  | .dequeueWake =>
      match σ.producer with
      | .waiting async width height format usage flag =>
          if σ.core.dequeuePossible then
            some (BufferQueueProducer.dequeueRound { σ.core with dequeuePossible := false }
              async width height format usage flag)
          else none
      | _ => none
  | .dequeueAllocated =>
      match σ.producer with
      | .allocating s buffer flags attached =>
          some (⟨(BufferQueueProducer.dequeueAllocated σ.core s buffer flags attached).1, .idle⟩,
            (BufferQueueProducer.dequeueAllocated σ.core s buffer flags attached).2)
      | _ => none
  | .requestBuffer slot => σ.produce fun c => BufferQueueProducer.requestBuffer c slot
  | .queueBuffer slot input => σ.produce fun c => BufferQueueProducer.queueBuffer c slot input
  | .cancelBuffer slot fence => σ.produce fun c => BufferQueueProducer.cancelBuffer c slot fence
  | .detachBuffer slot => σ.produce fun c => BufferQueueProducer.detachBuffer c slot
  | .setBufferCount n => σ.produce fun c => BufferQueueProducer.setBufferCount c n
  | .disconnect api => σ.produce fun c => BufferQueueProducer.disconnect c api
  | .consumerConnect controlled => σ.consume fun c => BufferQueueConsumer.connect c controlled
  | .acquireBuffer expected => σ.consume fun c => BufferQueueConsumer.acquireBuffer c expected
  | .releaseBuffer slot frame => σ.consume fun c => BufferQueueConsumer.releaseBuffer c slot frame
  | .consumerDisconnect => σ.consume BufferQueueConsumer.disconnect

def init : System := ⟨{}, .idle⟩

/-- A run: the final state and the answers, in order. -/
def run (σ : System) : List Op → Option (System × List Reply)
  | [] => some (σ, [])
  | op :: ops =>
      match σ.step op with
      | none => none
      | some (σ', reply) => (σ'.run ops).map fun r => (r.1, reply :: r.2)

end System

end Voltemu.Nvnflinger
