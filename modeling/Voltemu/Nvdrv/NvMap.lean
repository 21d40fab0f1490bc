import Mathlib.Data.BitVec

/-!
# Pins of nvmap handles

`NvMap` in `nvmap.cpp`: the first pin of a handle maps its memory for the device.  The last unpin leaves it mapped and
in `unmap_queue`, from where `PinHandle` is to take space when an allocation fails.

* `Host1x` — the device memory with its allocators and the mappers of the sessions, a parameter.
* `fuel` bounds the rounds of `PinHandle`; the front of an empty queue is `Stuck.emptyQueue`.
* `pin_hangs` — under pressure `PinHandle` never ends: before it unmaps the front of the queue it asks whether the
  handle that it pins is mapped, and that one never is.
-/

namespace Voltemu.Nvdrv.NvMap

open Function

structure Host1x (Device : Type) where
  allocate : Device → ℕ → ℕ × Device
  free : Device → ℕ → ℕ → Device
  map : Device → ℕ → ℕ → ℕ → ℕ → Device
  unmap : Device → ℕ → ℕ → Device
  isInBounds : Device → ℕ → ℕ → ℕ → Bool
  heapMap : Device → ℕ → ℕ → ℕ → ℕ × Device
  heapUnmap : Device → ℕ → ℕ → ℕ → Device
  lowAllocate : Device → ℕ → ℕ × Device
  lowFree : Device → ℕ → ℕ → Device
  lowMap : Device → ℕ → ℕ → ℕ → Device
  lowUnmap : Device → ℕ → ℕ → Device

structure Handle where
  size : ℕ
  alignedSize : ℕ
  address : ℕ
  sessionId : ℕ
  allocated : Bool
  dupes : ℤ
  internalDupes : ℤ
  pins : ℤ
  dAddress : ℕ
  pinVirtAddress : ℕ
  inHeap : Bool

/-- `NvMap`: `handles` are the ids in its map, and `unmap_queue_entry` of a handle is its place in the queue. -/
structure State (Device : Type) where
  device : Device
  handle : ℕ → Handle
  handles : ℕ → Bool
  unmapQueue : List ℕ

inductive Stuck
  | emptyQueue
  | running

def pageSize : ℕ := 4096

def bigPageSize : ℕ := pageSize * 16

def alignUp (value size : ℕ) : ℕ := (value + size - 1) / size * size

section Code

variable {Device : Type} (host : Host1x Device)

def State.set (s : State Device) (id : ℕ) (h : Handle) : State Device :=
  { s with handle := update s.handle id h }

/-- `CreateHandle`, with an id that no handle has. -/
def createHandle (s : State Device) (id size : ℕ) : State Device :=
  { s.set id ⟨size, size, 0, 0, false, 1, 0, 0, 0, 0, false⟩ with handles := update s.handles id true }

def alloc (s : State Device) (id align address sessionId : ℕ) : State Device :=
  let h := s.handle id
  if h.allocated then s
  else
    let size := alignUp h.size pageSize
    s.set id { h with
      sessionId, size, address
      alignedSize := alignUp size (max align pageSize)
      allocated := true }

def duplicateHandle (s : State Device) (id : ℕ) (internalSession : Bool) : State Device :=
  let h := s.handle id
  if !h.allocated then s
  else if internalSession then s.set id { h with internalDupes := h.internalDupes + 1 }
  else s.set id { h with dupes := h.dupes + 1 }

def unmapHandle (s : State Device) (id : ℕ) : State Device :=
  let h := s.handle id
  let device :=
    if h.pinVirtAddress ≠ 0 then
      host.lowFree (host.lowUnmap s.device h.pinVirtAddress h.alignedSize) h.pinVirtAddress (h.alignedSize % 2 ^ 32)
    else s.device
  let device :=
    if h.inHeap then host.heapUnmap device h.sessionId h.address h.alignedSize
    else host.free (host.unmap device h.dAddress h.alignedSize) h.dAddress (alignUp h.alignedSize bigPageSize)
  { s.set id { h with dAddress := 0, pinVirtAddress := 0, inHeap := false } with
    device
    unmapQueue := s.unmapQueue.erase id }

def mapLowArea (s : State Device) (id : ℕ) : State Device :=
  let h := s.handle id
  if h.pinVirtAddress = 0 then
    let (address, device) := host.lowAllocate s.device (h.alignedSize % 2 ^ 32)
    { s.set id { h with pinVirtAddress := address } with
      device := host.lowMap device address h.dAddress h.alignedSize }
  else s

/-- The end of `PinHandle`, for a handle that is mapped. -/
def finishPin (s : State Device) (id : ℕ) (lowAreaPin : Bool) : State Device × ℕ :=
  let s := if lowAreaPin then mapLowArea host s id else s
  let h := s.handle id
  (s.set id { h with pins := h.pins + 1 }, if lowAreaPin then h.pinVirtAddress else h.dAddress)

/-- The loop of `PinHandle`: handles are freed until the allocation succeeds. -/
def allocateLoop (id size : ℕ) : ℕ → State Device → Except Stuck (State Device × ℕ)
  | 0, _ => .error .running
  | fuel + 1, s =>
      let (address, device) := host.allocate s.device size
      let s := { s with device }
      if address ≠ 0 then .ok (s, address)
      else
        match s.unmapQueue with
        | [] => .error .emptyQueue
        -- the address that is looked at is not the one of the handle to be freed
        | first :: _ => allocateLoop id size fuel (if (s.handle id).dAddress ≠ 0 then unmapHandle host s first else s)

def pinHandle (fuel : ℕ) (s : State Device) (id : ℕ) (lowAreaPin : Bool) : Except Stuck (State Device × ℕ) :=
  let h := s.handle id
  if !s.handles id then .ok (s, 0)
  else if h.pins ≠ 0 then .ok (finishPin host s id lowAreaPin)
  else if id ∈ s.unmapQueue then
    .ok (finishPin host { s with unmapQueue := s.unmapQueue.erase id } id lowAreaPin)
  else if host.isInBounds s.device h.sessionId h.address h.alignedSize then
    let (address, device) := host.heapMap s.device h.sessionId h.address h.alignedSize
    .ok (finishPin host { s.set id { h with dAddress := address, inHeap := true } with device } id lowAreaPin)
  else do
    let (s, address) ← allocateLoop host id (alignUp h.alignedSize bigPageSize) fuel s
    let device := host.map s.device address h.address h.alignedSize h.sessionId
    .ok (finishPin host { s.set id { s.handle id with dAddress := address, inHeap := false } with device } id lowAreaPin)

def unpinHandle (s : State Device) (id : ℕ) : State Device :=
  if !s.handles id then s
  else
    let h := s.handle id
    let s := s.set id { h with pins := h.pins - 1 }
    if h.pins = 1 then { s with unmapQueue := s.unmapQueue ++ [id] } else s

def freeHandle (s : State Device) (id : ℕ) (internalSession : Bool) : State Device :=
  if !s.handles id then s
  else
    let h := s.handle id
    let s :=
      if internalSession then s.set id { h with internalDupes := h.internalDupes - 1 }
      else if h.dupes = 1 then
        let s := if h.dAddress ≠ 0 then unmapHandle host s id else s
        s.set id { s.handle id with dupes := 0, pins := 0 }
      else s.set id { h with dupes := h.dupes - 1 }
    if (s.handle id).dupes = 0 ∧ (s.handle id).internalDupes = 0 then
      { s with handles := update s.handles id false }
    else s

/-- The states of every run.  An id is used for a new handle when no handle has it. -/
inductive Reached (device : Device) : State Device → Prop
  | init : Reached device ⟨device, fun _ => ⟨0, 0, 0, 0, false, 1, 0, 0, 0, 0, false⟩, fun _ => false, []⟩
  | create {s} (id size) : Reached device s → s.handles id = false → id ∉ s.unmapQueue →
      Reached device (createHandle s id size)
  | alloc {s} (id align address sessionId) : Reached device s → Reached device (alloc s id align address sessionId)
  | duplicate {s} (id internalSession) : Reached device s → Reached device (duplicateHandle s id internalSession)
  | unpin {s} (id) : Reached device s → Reached device (unpinHandle s id)
  | free {s} (id internalSession) : Reached device s → Reached device (freeHandle host s id internalSession)
  | pin {s s' address} (fuel id lowAreaPin) : Reached device s →
      pinHandle host fuel s id lowAreaPin = .ok (s', address) → Reached device s'

/-- A handle is to be mapped anew, and the allocator has no room for it. -/
structure Pressed (s : State Device) (id : ℕ) : Prop where
  known : s.handles id = true
  unpinned : (s.handle id).pins = 0
  unmapped : id ∉ s.unmapQueue
  outside : host.isInBounds s.device (s.handle id).sessionId (s.handle id).address (s.handle id).alignedSize = false
  full : (host.allocate s.device (alignUp (s.handle id).alignedSize bigPageSize)).1 = 0

/-- `PinHandle` ends, without reading the front of an empty queue. -/
def Ends (s : State Device) (id : ℕ) (lowAreaPin : Bool) : Prop :=
  ∃ fuel result, pinHandle host fuel s id lowAreaPin = .ok result

/-- An allocation that fails leaves the allocator as it was. -/
def FailsQuietly : Prop :=
  ∀ device size, (host.allocate device size).1 = 0 → (host.allocate device size).2 = device

/-- A handle that is neither pinned nor queued is not mapped. -/
def Released (s : State Device) : Prop :=
  ∀ id, (s.handle id).pins ≤ 0 → id ∉ s.unmapQueue → (s.handle id).dAddress = 0

end Code

variable {Device : Type} {host : Host1x Device} {s s' : State Device} {id : ℕ}

lemma Released.change (h : Released s) (id : ℕ) (hhandle : ∀ other, other ≠ id → s'.handle other = s.handle other)
    (hqueue : ∀ other, other ≠ id → other ∈ s.unmapQueue → other ∈ s'.unmapQueue)
    (hid : (s'.handle id).pins ≤ 0 → id ∉ s'.unmapQueue → (s'.handle id).dAddress = 0) : Released s' := by
  intro other hpins hout
  obtain rfl | hother := eq_or_ne other id
  · exact hid hpins hout
  · rw [hhandle other hother] at hpins ⊢
    exact h other hpins fun hin => hout (hqueue other hother hin)

lemma Released.set (h : Released s) {new : Handle} (hpins : new.pins = (s.handle id).pins)
    (haddress : new.dAddress = (s.handle id).dAddress) : Released (s.set id new) := by
  refine h.change id (fun other hother => by simp [State.set, hother]) (fun _ _ hin => hin) ?_
  simpa [State.set, hpins, haddress] using h id

lemma Released.unmapHandle (h : Released s) (id : ℕ) : Released (unmapHandle host s id) :=
  h.change id (fun other hother => by simp [NvMap.unmapHandle, State.set, hother])
    (fun other hother hin => (List.mem_erase_of_ne hother).2 hin) fun _ _ => by simp [NvMap.unmapHandle, State.set]

lemma mapLowArea_handle (s : State Device) (id other : ℕ) :
    ((mapLowArea host s id).handle other).pins = (s.handle other).pins ∧
      ((mapLowArea host s id).handle other).dAddress = (s.handle other).dAddress := by
  unfold mapLowArea
  dsimp only
  split
  · obtain rfl | hother := eq_or_ne other id <;> simp_all [State.set]
  · exact ⟨rfl, rfl⟩

lemma mapLowArea_unmapQueue (s : State Device) (id : ℕ) : (mapLowArea host s id).unmapQueue = s.unmapQueue := by
  unfold mapLowArea
  dsimp only
  split <;> rfl

lemma released_finishPin (id : ℕ) (lowAreaPin : Bool)
    (hothers : ∀ other, other ≠ id → (s.handle other).pins ≤ 0 → other ∉ s.unmapQueue → (s.handle other).dAddress = 0)
    (hid : (s.handle id).pins < 0 → id ∉ s.unmapQueue → (s.handle id).dAddress = 0) :
    Released (finishPin host s id lowAreaPin).1 := by
  intro other hpins hout
  obtain rfl | hother := eq_or_ne other id
  · cases lowAreaPin <;>
      simp only [finishPin, State.set, update_self, Bool.false_eq_true, if_false, if_true,
        mapLowArea_unmapQueue, mapLowArea_handle] at hpins hout ⊢ <;>
      exact hid (by omega) hout
  · cases lowAreaPin <;>
      simp only [finishPin, State.set, update_of_ne hother, Bool.false_eq_true, if_false, if_true,
        mapLowArea_unmapQueue, mapLowArea_handle] at hpins hout ⊢ <;>
      exact hothers other hother hpins hout

variable {address fuel size : ℕ}

lemma allocateLoop_keeps (hunmapped : (s.handle id).dAddress = 0)
    (hloop : allocateLoop host id size fuel s = .ok (s', address)) : ∃ device, s' = { s with device } := by
  induction fuel generalizing s with
  | zero => cases hloop
  | succ fuel ih =>
    rw [allocateLoop] at hloop
    dsimp only at hloop
    split at hloop
    · cases hloop
      exact ⟨_, rfl⟩
    · split at hloop
      · cases hloop
      · rw [if_neg (not_not.2 hunmapped)] at hloop
        obtain ⟨device, hdevice⟩ := ih (s := { s with device := (host.allocate s.device size).2 }) hunmapped hloop
        exact ⟨device, hdevice⟩

/-- So it does not end where the allocator is full. -/
lemma allocateLoop_stuck (hquiet : FailsQuietly host) (hunmapped : (s.handle id).dAddress = 0)
    (hfull : (host.allocate s.device size).1 = 0) (fuel : ℕ) :
    ∃ why, allocateLoop host id size fuel s = .error why := by
  induction fuel with
  | zero => exact ⟨_, rfl⟩
  | succ fuel ih =>
    rw [allocateLoop]
    dsimp only
    rw [if_neg (not_not.2 hfull)]
    cases hqueue : s.unmapQueue with
    | nil => exact ⟨_, rfl⟩
    | cons first rest =>
      dsimp only
      rwa [if_neg (not_not.2 hunmapped), hquiet _ _ hfull, ← hqueue]

lemma released_pinHandle {lowAreaPin : Bool} (h : Released s)
    (hpin : pinHandle host fuel s id lowAreaPin = .ok (s', address)) : Released s' := by
  unfold pinHandle at hpin
  dsimp only at hpin
  split at hpin
  · cases hpin
    exact h
  split at hpin
  · obtain rfl : _ = s' := congrArg Prod.fst (Except.ok.inj hpin)
    exact released_finishPin id lowAreaPin (fun other _ => h other) fun hpins => h id (by omega)
  have hzero : (s.handle id).pins = 0 := by simpa using ‹¬ (s.handle id).pins ≠ 0›
  split at hpin
  · obtain rfl : _ = s' := congrArg Prod.fst (Except.ok.inj hpin)
    refine released_finishPin id lowAreaPin (fun other hother hpins hout => h other hpins fun hin => hout ?_) ?_
    · exact (List.mem_erase_of_ne hother).2 hin
    · simp [hzero]
  -- the handle is mapped, and then pinned
  have hmapped : ∀ (device : Device) (new : Handle), new.pins = 0 →
      Released (finishPin host { s.set id new with device } id lowAreaPin).1 := by
    intro device new hnew
    refine released_finishPin id lowAreaPin (fun other hother => ?_) ?_
    · simpa [State.set, hother] using h other
    · simp [State.set, hnew]
  split at hpin
  · obtain rfl : _ = s' := congrArg Prod.fst (Except.ok.inj hpin)
    exact hmapped _ _ hzero
  · cases hloop : allocateLoop host id (alignUp (s.handle id).alignedSize bigPageSize) fuel s with
    | error why =>
      rw [hloop] at hpin
      cases hpin
    | ok result =>
      rw [hloop] at hpin
      obtain ⟨device, hresult⟩ := allocateLoop_keeps (h id (by omega) ‹_›) hloop
      obtain rfl : _ = s' := congrArg Prod.fst (Except.ok.inj hpin)
      rw [hresult]
      exact hmapped _ _ hzero

lemma released_freeHandle (h : Released s) (id : ℕ) (internalSession : Bool) :
    Released (freeHandle host s id internalSession) := by
  have hkept : ∀ s : State Device, Released s → Released
      (if (s.handle id).dupes = 0 ∧ (s.handle id).internalDupes = 0 then
        { s with handles := update s.handles id false }
      else s) := by
    intro s hs
    split <;> exact hs
  unfold freeHandle
  dsimp only
  split
  · exact h
  apply hkept
  split
  · exact h.set rfl rfl
  split
  · split
    · have hunmapped : Released (unmapHandle host s id) := h.unmapHandle id
      refine hunmapped.change id (fun other hother => by simp [State.set, hother])
        (fun _ _ hin => hin) fun _ _ => by simp [State.set, unmapHandle]
    · refine h.change id (fun other hother => by simp [State.set, hother]) (fun _ _ hin => hin) fun _ _ => ?_
      simpa [State.set] using ‹¬ (s.handle id).dAddress ≠ 0›
  · exact h.set rfl rfl

lemma Reached.released {device : Device} (hs : Reached host device s) : Released s := by
  induction hs with
  | init => exact fun _ _ _ => rfl
  | create id size _ _ _ ih =>
    exact ih.change id (fun other hother => by simp [createHandle, State.set, hother]) (fun _ _ hin => hin)
      fun _ _ => by simp [createHandle, State.set]
  | alloc id align address sessionId _ ih =>
    unfold NvMap.alloc
    dsimp only
    split
    · exact ih
    · exact ih.set rfl rfl
  | duplicate id internalSession _ ih =>
    unfold duplicateHandle
    dsimp only
    split
    · exact ih
    · split <;> exact ih.set rfl rfl
  | @unpin s id _ ih =>
    unfold unpinHandle
    dsimp only
    split
    · exact ih
    have hothers : ∀ other, other ≠ id →
        ((s.set id { s.handle id with pins := (s.handle id).pins - 1 }).handle other) = s.handle other := by
      intro other hother
      simp [State.set, hother]
    split
    · exact ih.change id hothers (fun _ _ hin => List.mem_append_left _ hin) fun _ hout => by simp at hout
    · refine ih.change id hothers (fun _ _ hin => hin) fun hpins hout => ?_
      simp only [State.set, update_self] at hpins ⊢
      exact ih id (by omega) hout
  | free id internalSession _ ih => exact released_freeHandle ih id internalSession
  | pin _ _ _ _ hpin ih => exact released_pinHandle ih hpin

lemma Pressed.not_ends (h : Pressed host s id) (hquiet : FailsQuietly host) (hs : Released s) (lowAreaPin : Bool) :
    ¬ Ends host s id lowAreaPin := by
  rintro ⟨fuel, result, hpin⟩
  obtain ⟨why, hloop⟩ := allocateLoop_stuck hquiet (hs id (by simp [h.unpinned]) h.unmapped) h.full fuel
  unfold pinHandle at hpin
  simp [h.known, h.unpinned, h.unmapped, h.outside, hloop] at hpin
  cases hpin

/-- **Under pressure no pin ends**, whatever the handles that wait in the queue would give back. -/
theorem pin_hangs {Device : Type} (host : Host1x Device) (hquiet : FailsQuietly host) {device : Device}
    {s : State Device} (hs : Reached host device s) {id : ℕ} (hpressed : Pressed host s id) (lowAreaPin : Bool) :
    ¬ Ends host s id lowAreaPin :=
  hpressed.not_ends hquiet hs.released lowAreaPin

/-- Room for some buffers, which all get one address. -/
def rooms : Host1x ℕ where
  allocate room _ := if room = 0 then (0, 0) else (bigPageSize, room - 1)
  free room _ _ := room + 1
  map room _ _ _ _ := room
  unmap room _ _ := room
  isInBounds _ _ _ _ := false
  heapMap room _ _ _ := (0, room)
  heapUnmap room _ _ _ := room
  lowAllocate room _ := (0, room)
  lowFree room _ _ := room
  lowMap room _ _ _ := room
  lowUnmap room _ _ := room

lemma rooms_failsQuietly : FailsQuietly rooms := by
  intro room size hfull
  by_cases hroom : room = 0 <;> simp_all [rooms, bigPageSize, pageSize]

/-- A handle waits in the queue with all the room that there is, and another one is to be pinned. -/
lemma reached_one_room : ∃ s, Reached rooms 1 s ∧ Pressed rooms s 8 ∧
    (rooms.allocate (s.unmapQueue.foldl (unmapHandle rooms) s).device bigPageSize).1 ≠ 0 := by
  refine ⟨_, .alloc 8 0 0x20000 0 (.create 8 4096 (.unpin 4 (.pin 1 4 false (.alloc 4 0 0x10000 0
    (.create 4 4096 .init rfl (by simp))) rfl)) rfl (by decide)), ⟨rfl, rfl, by decide, rfl, rfl⟩, by decide⟩

theorem pin_hangs_one_room : ∃ s, Reached rooms 1 s ∧ ¬ Ends rooms s 8 false := by
  obtain ⟨s, hs, hpressed, -⟩ := reached_one_room
  exact ⟨s, hs, pin_hangs rooms rooms_failsQuietly hs hpressed false⟩

/-- The room of the queued handle would do, but it is not given back. -/
theorem queue_keeps_room : ¬ ∀ s, Reached rooms 1 s → Pressed rooms s 8 →
    (rooms.allocate (s.unmapQueue.foldl (unmapHandle rooms) s).device bigPageSize).1 ≠ 0 → Ends rooms s 8 false := by
  obtain ⟨s, hs, hpressed, hroom⟩ := reached_one_room
  exact fun h => hpressed.not_ends rooms_failsQuietly hs.released false (h s hs hpressed hroom)

end Voltemu.Nvdrv.NvMap
