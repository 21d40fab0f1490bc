import Mathlib.Tactic

/-!
# `KHandleTable`: the handles of a process

`k_handle_table.{h,cpp}`.  A handle packs an entry index and a linear id; an entry holds an object
pointer and, in one union, either the linear id of the handle it was given out under or the index of
the next free entry.

* `HandlePack` cuts a handle into 15 + 15 + 2 bits.
* The union `EntryInfo` is its 16 bits: `linear_id` reads them unsigned, `next_free_index` signed.
* The arrays have `MaxTableSize` entries in the source; here they are functions of the index.
* `KAutoObject*` is `Option Obj`.  `Open`, `Close` and the locks are outside this model.
-/

namespace Voltemu.Kernel

open Function

/-- `Handle`, a `u32`. -/
abbrev Handle := BitVec 32

namespace HandlePack

/-- `BitField<0, 15, u32> index`. -/
def index (h : Handle) : ℕ := h.toNat % 2 ^ 15

/-- `BitField<15, 15, u32> linear_id`. -/
def linearId (h : Handle) : ℕ := h.toNat / 2 ^ 15 % 2 ^ 15

/-- `BitField<30, 2, u32> reserved`. -/
def reserved (h : Handle) : ℕ := h.toNat / 2 ^ 30 % 2 ^ 2

end HandlePack

/-- `Svc::IsPseudoHandle`: the current thread and the current process. -/
def isPseudoHandle (h : Handle) : Bool := h == 0xFFFF8000#32 || h == 0xFFFF8001#32

structure KHandleTable (Obj : Type*) where
  entryInfos : ℕ → BitVec 16
  objects : ℕ → Option Obj
  freeHeadIndex : ℤ
  tableSize : ℕ
  maxCount : ℕ
  nextLinearId : ℕ
  count : ℕ

namespace KHandleTable

variable {Obj : Type*}

def MaxTableSize : ℕ := 1024
def MinLinearId : ℕ := 1
def MaxLinearId : ℕ := 0x7FFF

def getLinearId (info : BitVec 16) : ℕ := info.toNat

def getNextFreeIndex (info : BitVec 16) : ℤ := info.toInt

def encodeHandle (index linearId : ℕ) : Handle :=
  BitVec.ofNat 32 (index % 2 ^ 15 + linearId % 2 ^ 15 * 2 ^ 15)

/-- The loop of `Initialize` over the entries `[0, i)`. -/
def freeAllEntries (t : KHandleTable Obj) : ℕ → KHandleTable Obj
  | 0 => t
  | i + 1 =>
      let t := freeAllEntries t i
      { t with
        objects := update t.objects i none
        entryInfos := update t.entryInfos i (BitVec.ofInt 16 ((i : ℤ) - 1))
        freeHeadIndex := i }

/-- "Initialize all fields": no entry is free yet. -/
def emptyTable (tableSize : ℕ) : KHandleTable Obj where
  entryInfos := fun _ => 0
  objects := fun _ => none
  freeHeadIndex := -1
  tableSize := tableSize
  maxCount := 0
  nextLinearId := MinLinearId
  count := 0

def initializeTable (size : ℤ) : Option (KHandleTable Obj) :=
  if size ≤ MaxTableSize then
    let tableSize := if size ≤ 0 then MaxTableSize else size.toNat
    some ((emptyTable tableSize).freeAllEntries tableSize)
  else none

def allocateEntry (t : KHandleTable Obj) : ℕ × KHandleTable Obj :=
  let index := t.freeHeadIndex.toNat
  (index,
    { t with
      freeHeadIndex := getNextFreeIndex (t.entryInfos index)
      count := t.count + 1
      maxCount := max t.maxCount (t.count + 1) })

def freeEntry (t : KHandleTable Obj) (index : ℕ) : KHandleTable Obj :=
  { t with
    objects := update t.objects index none
    entryInfos := update t.entryInfos index (BitVec.ofInt 16 t.freeHeadIndex)
    freeHeadIndex := index
    count := t.count - 1 }

def allocateLinearId (t : KHandleTable Obj) : ℕ × KHandleTable Obj :=
  (t.nextLinearId,
    { t with
      nextLinearId := if t.nextLinearId + 1 > MaxLinearId then MinLinearId else t.nextLinearId + 1 })

def isValidHandle (t : KHandleTable Obj) (handle : Handle) : Bool :=
  if handle = 0 then false
  else if HandlePack.linearId handle = 0 then false
  else if HandlePack.index handle ≥ t.tableSize then false
  else if (t.objects (HandlePack.index handle)).isNone then false
  else if getLinearId (t.entryInfos (HandlePack.index handle)) ≠ HandlePack.linearId handle then
    false
  else true

/-- `GetObjectImpl`, what `GetObject` comes down to for a handle that is not a pseudo-handle. -/
def getObject (t : KHandleTable Obj) (handle : Handle) : Option Obj :=
  if HandlePack.reserved handle ≠ 0 then none
  else if t.isValidHandle handle then t.objects (HandlePack.index handle)
  else none

def remove (t : KHandleTable Obj) (handle : Handle) : Bool × KHandleTable Obj :=
  if isPseudoHandle handle then (false, t)
  else if HandlePack.reserved handle ≠ 0 then (false, t)
  else if t.isValidHandle handle then (true, t.freeEntry (HandlePack.index handle))
  else (false, t)

/-- `Add`: the handle, unless the table is full. -/
def add (t : KHandleTable Obj) (obj : Obj) : Option Handle × KHandleTable Obj :=
  if t.count < t.tableSize then
    let (linearId, t) := t.allocateLinearId
    let (index, t) := t.allocateEntry
    (some (encodeHandle index linearId),
      { t with
        entryInfos := update t.entryInfos index (BitVec.ofNat 16 linearId)
        objects := update t.objects index (some obj) })
  else (none, t)

/-- `Reserve`: the handle, unless the table is full. -/
def reserve (t : KHandleTable Obj) : Option Handle × KHandleTable Obj :=
  if t.count < t.tableSize then
    let (index, t) := t.allocateEntry
    let (linearId, t) := t.allocateLinearId
    (some (encodeHandle index linearId), t)
  else (none, t)

/-- `Unreserve`, which does not look at the linear id. -/
def unreserve (t : KHandleTable Obj) (handle : Handle) : KHandleTable Obj :=
  if HandlePack.index handle < t.tableSize then t.freeEntry (HandlePack.index handle) else t

def register (t : KHandleTable Obj) (handle : Handle) (obj : Obj) : KHandleTable Obj :=
  if HandlePack.index handle < t.tableSize then
    { t with
      entryInfos := update t.entryInfos (HandlePack.index handle) (BitVec.ofNat 16 (HandlePack.linearId handle))
      objects := update t.objects (HandlePack.index handle) (some obj) }
  else t

end KHandleTable

end Voltemu.Kernel
