import Voltemu.Lib.Linked

/-!
# The multi-address storage of the device memory manager

`MultiAddressContainer` of `core/device_memory_manager.inc`: lists of values, threaded through one array of entries.
An entry is named by its index plus one, and `0` is the end of a list.  Unused entries wait in a queue.

* A loop that follows the links is bounded by the number of entries and gives `none` when it runs longer or leaves the
  array.
* `Threaded c ids` — the lists `ids` and the queue share the entries out among them.
* `threaded_register`, `threaded_append`, `threaded_unregister`, `threaded_release` — what the operations do to them.
-/

namespace Voltemu.Core

open Function List Option

structure Entry where
  nextEntry : BitVec 32
  value : BitVec 32
deriving DecidableEq

structure MultiAddressContainer where
  storage : List Entry
  freeEntries : List (BitVec 32)
deriving DecidableEq

namespace MultiAddressContainer

/-- The index `entry_id - 1`. -/
def index (id : BitVec 32) : ℕ := (id - 1).toNat

def storageAt (c : MultiAddressContainer) (id : BitVec 32) : Option Entry := c.storage[index id]?

def setEntry (c : MultiAddressContainer) (id : BitVec 32) (e : Entry) : MultiAddressContainer :=
  { c with storage := c.storage.set (index id) e }

/-- The loop of `GatherValues`. -/
def gatherFrom (c : MultiAddressContainer) : ℕ → BitVec 32 → Option (List (BitVec 32))
  | 0, _ => none
  | fuel + 1, iterEntry => do
      let current ← c.storageAt iterEntry
      if current.nextEntry ≠ 0 then
        (c.gatherFrom fuel current.nextEntry).map (current.value :: ·)
      else some [current.value]

def gatherValues (c : MultiAddressContainer) (startEntry : BitVec 32) : Option (List (BitVec 32)) :=
  c.gatherFrom c.storage.length startEntry

def getNewEntry (c : MultiAddressContainer) : BitVec 32 × MultiAddressContainer :=
  match c.freeEntries with
  | result :: rest => (result, { c with freeEntries := rest })
  | [] =>
      let storage := c.storage ++ [⟨0, 0⟩]
      (BitVec.ofNat 32 storage.length, { c with storage := storage })

/-- `RegisterImplementation`, and `Register` without a list. -/
def register (c : MultiAddressContainer) (value : BitVec 32) : BitVec 32 × MultiAddressContainer :=
  let (entryId, c) := c.getNewEntry
  (entryId, c.setEntry entryId ⟨0, value⟩)

/-- The loop of `Register` with a list: its last entry. -/
def lastFrom (c : MultiAddressContainer) : ℕ → BitVec 32 → Option (BitVec 32)
  | 0, _ => none
  | fuel + 1, iterEntry => do
      let current ← c.storageAt iterEntry
      if current.nextEntry ≠ 0 then c.lastFrom fuel current.nextEntry else some iterEntry

/-- `Register` with a list. -/
def registerAt (c : MultiAddressContainer) (value startEntry : BitVec 32) :
    Option MultiAddressContainer := do
  let (entryId, c) := c.register value
  let last ← c.lastFrom c.storage.length startEntry
  let current ← c.storageAt last
  some (c.setEntry last { current with nextEntry := entryId })

/-- The loop of `Unregister`: the previous entry, the entry with the value, and the number of entries before it. -/
def findFrom (c : MultiAddressContainer) (value : BitVec 32) :
    ℕ → Option (BitVec 32) → ℕ → BitVec 32 → Option (Option (BitVec 32) × BitVec 32 × ℕ)
  | 0, _, _, _ => none
  | fuel + 1, previous, count, iterEntry => do
      let current ← c.storageAt iterEntry
      if current.value ≠ value then
        c.findFrom value fuel (some iterEntry) (count + 1) current.nextEntry
      else some (previous, iterEntry, count)

/-- `Unregister`: whether more than one entry remains, and the start of the list. -/
def unregister (c : MultiAddressContainer) (value startEntry : BitVec 32) :
    Option ((Bool × BitVec 32) × MultiAddressContainer) := do
  let (previous, iterEntry, count) ← c.findFrom value c.storage.length none 0 startEntry
  let current ← c.storageAt iterEntry
  let nextEntry := current.nextEntry
  let moreThanOneRemaining ←
    if nextEntry ≠ 0 then do
      let next ← c.storageAt nextEntry
      some (decide (next.nextEntry ≠ 0) || previous.isSome)
    else some false
  let (resultStart, c) ← match previous with
    | some id => do
        let entry ← c.storageAt id
        some (startEntry, c.setEntry id { entry with nextEntry := nextEntry })
    | none => some (nextEntry, c)
  some ((moreThanOneRemaining || decide (count > 1), resultStart),
    { c with freeEntries := c.freeEntries ++ [iterEntry] })

def releaseEntry (c : MultiAddressContainer) (startEntry : BitVec 32) :
    Option (BitVec 32 × MultiAddressContainer) := do
  let current ← c.storageAt startEntry
  some (current.value, { c with freeEntries := c.freeEntries ++ [startEntry] })

/-! ## Reading and writing entries -/

/-- The name of an entry of the array. -/
def Valid (c : MultiAddressContainer) (id : BitVec 32) : Prop :=
  id ≠ 0 ∧ id.toNat ≤ c.storage.length

def next (c : MultiAddressContainer) (id : BitVec 32) : Option (BitVec 32) :=
  (c.storageAt id).bind fun e => if e.nextEntry = 0 then none else some e.nextEntry

def valueOf (c : MultiAddressContainer) (id : BitVec 32) : BitVec 32 :=
  ((c.storageAt id).map Entry.value).getD 0

variable {c c' : MultiAddressContainer} {id id' : BitVec 32}

lemma toNat_pos_of_ne_zero (h : id ≠ 0) : 0 < id.toNat := by
  rcases Nat.eq_zero_or_pos id.toNat with h0 | h0
  · exact absurd (BitVec.eq_of_toNat_eq h0) h
  · exact h0

lemma index_eq (h : id ≠ 0) : index id = id.toNat - 1 := by
  have hpos := toNat_pos_of_ne_zero h
  have hone : (1 : BitVec 32).toNat = 1 := rfl
  rw [index, BitVec.toNat_sub, hone]
  omega

lemma index_ne (h : id ≠ 0) (h' : id' ≠ 0) (hne : id ≠ id') : index id ≠ index id' := by
  rw [index_eq h, index_eq h']
  intro heq
  have hpos := toNat_pos_of_ne_zero h
  have hpos' := toNat_pos_of_ne_zero h'
  exact hne (BitVec.eq_of_toNat_eq (by omega))

lemma Valid.index_lt (h : c.Valid id) : index id < c.storage.length := by
  have hpos := toNat_pos_of_ne_zero h.1
  rw [index_eq h.1]
  exact Nat.lt_of_lt_of_le (Nat.sub_lt hpos Nat.one_pos) h.2

lemma Valid.exists_entry (h : c.Valid id) : ∃ e, c.storageAt id = some e :=
  ⟨_, getElem?_eq_getElem h.index_lt⟩

variable {e : Entry}

lemma next_eq (h : c.storageAt id = some e) : c.next id = if e.nextEntry = 0 then none else some e.nextEntry := by
  rw [next, h]
  rfl

lemma valueOf_eq (h : c.storageAt id = some e) : c.valueOf id = e.value := by
  rw [valueOf, h]
  rfl

lemma entry_setEntry_self (h : c.Valid id) : (c.setEntry id e).storageAt id = some e := by
  simp only [setEntry, storageAt]
  exact getElem?_set_self h.index_lt

lemma entry_setEntry_ne (h : id ≠ 0) (h' : id' ≠ 0) (hne : id ≠ id') :
    (c.setEntry id e).storageAt id' = c.storageAt id' := by
  simp only [setEntry, storageAt]
  exact getElem?_set_ne (index_ne h h' hne)

lemma valid_setEntry : (c.setEntry id e).Valid id' ↔ c.Valid id' := by
  simp [Valid, setEntry]

/-! ## Lists that share the entries out -/

/-- **The lists, and the queue of unused entries, share the entries out among them.** -/
structure Threaded {κ : Type*} (c : MultiAddressContainer) (ids : κ → List (BitVec 32)) : Prop where
  chain : ∀ p, Linked.Chain c.next (ids p).head? (ids p)
  valid : ∀ p, ∀ id ∈ ids p, c.Valid id
  valid_free : ∀ id ∈ c.freeEntries, c.Valid id
  nodup : ∀ p, (ids p).Nodup
  nodup_free : c.freeEntries.Nodup
  apart : ∀ p q, p ≠ q → List.Disjoint (ids p) (ids q)
  apart_free : ∀ p, List.Disjoint (ids p) c.freeEntries
  cover : ∀ id, c.Valid id → id ∈ c.freeEntries ∨ ∃ p, id ∈ ids p

/-- Names without repetition are no more than there are entries. -/
lemma length_le_of_nodup {l : List (BitVec 32)} (hnodup : l.Nodup) (hvalid : ∀ id ∈ l, c.Valid id) :
    l.length ≤ c.storage.length := by
  have hnodup' : (l.map index).Nodup := by
    refine List.Nodup.map_on ?_ hnodup
    intro a ha b hb heq
    by_contra hne
    exact index_ne (hvalid a ha).1 (hvalid b hb).1 hne heq
  have hsub : l.map index ⊆ range c.storage.length := by
    intro n hn
    obtain ⟨id, hid, rfl⟩ := mem_map.1 hn
    exact mem_range.2 (hvalid id hid).index_lt
  have hle := (hnodup'.subperm hsub).length_le
  simpa using hle

section Loops

variable {l : List (BitVec 32)} {start : BitVec 32}

lemma chain_cases {i : BitVec 32} {l : List (BitVec 32)} (hchain : Linked.Chain c.next (some start) (i :: l))
    (hvalid : c.Valid i) :
    i = start ∧ ∃ e, c.storageAt start = some e ∧
      (l = [] ∧ e.nextEntry = 0 ∨ e.nextEntry ≠ 0 ∧ l ≠ [] ∧ Linked.Chain c.next (some e.nextEntry) l) := by
  obtain ⟨hstart, hrest⟩ := hchain
  cases hstart
  obtain ⟨e, he⟩ := hvalid.exists_entry
  refine ⟨rfl, e, he, ?_⟩
  rw [next_eq he] at hrest
  by_cases hzero : e.nextEntry = 0
  · rw [if_pos hzero] at hrest
    exact .inl ⟨Linked.chain_none hrest, hzero⟩
  · rw [if_neg hzero] at hrest
    refine .inr ⟨hzero, ?_, hrest⟩
    rintro rfl
    cases hrest

lemma gatherFrom_eq {fuel : ℕ} (hchain : Linked.Chain c.next (some start) l)
    (hvalid : ∀ id ∈ l, c.Valid id) (hfuel : l.length ≤ fuel) :
    c.gatherFrom fuel start = some (l.map c.valueOf) := by
  induction fuel generalizing start l with
  | zero =>
    cases l with
    | nil => cases hchain
    | cons i l => simp at hfuel
  | succ fuel ih =>
    cases l with
    | nil => cases hchain
    | cons i l =>
      obtain ⟨rfl, e, he, h⟩ := chain_cases hchain (hvalid i mem_cons_self)
      rw [gatherFrom, he]
      rcases h with ⟨rfl, hzero⟩ | ⟨hzero, -, hrest⟩
      · simp [hzero, valueOf_eq he]
      · have hgather := ih hrest (fun j hj => hvalid j (mem_cons_of_mem _ hj)) (Nat.le_of_succ_le_succ hfuel)
        simp only [bind_eq_bind, bind_some, if_pos hzero, hgather, map_some, map_cons, valueOf_eq he]

lemma lastFrom_eq {fuel : ℕ} {x : BitVec 32} (hchain : Linked.Chain c.next (some start) (l ++ [x]))
    (hvalid : ∀ id ∈ l ++ [x], c.Valid id) (hfuel : l.length < fuel) :
    c.lastFrom fuel start = some x := by
  induction fuel generalizing start l with
  | zero => simp at hfuel
  | succ fuel ih =>
    cases l with
    | nil =>
      obtain ⟨rfl, e, he, h⟩ := chain_cases hchain (hvalid x (by simp))
      rcases h with ⟨-, hzero⟩ | ⟨-, hne, -⟩
      · simp [lastFrom, he, hzero]
      · exact absurd rfl hne
    | cons i l =>
      obtain ⟨rfl, e, he, h⟩ := chain_cases hchain (hvalid i (by simp))
      rcases h with ⟨hnil, -⟩ | ⟨hzero, -, hrest⟩
      · simp at hnil
      · have hlast := ih hrest (fun j hj => hvalid j (mem_cons_of_mem _ hj)) (by simpa using hfuel)
        simp only [lastFrom, he, bind_eq_bind, bind_some, if_pos hzero, hlast]

lemma findFrom_eq {fuel count : ℕ} {previous : Option (BitVec 32)} {l₁ l₂ : List (BitVec 32)}
    {x value : BitVec 32} (hchain : Linked.Chain c.next (some start) (l₁ ++ x :: l₂))
    (hvalid : ∀ id ∈ l₁ ++ x :: l₂, c.Valid id) (hvalue : c.valueOf x = value)
    (hfirst : ∀ id ∈ l₁, c.valueOf id ≠ value) (hfuel : l₁.length < fuel) :
    c.findFrom value fuel previous count start = some (l₁.getLast?.or previous, x, count + l₁.length) := by
  induction fuel generalizing start l₁ previous count with
  | zero => simp at hfuel
  | succ fuel ih =>
    cases l₁ with
    | nil =>
      obtain ⟨rfl, e, he, -⟩ := chain_cases hchain (hvalid x (by simp))
      rw [valueOf_eq he] at hvalue
      simp [findFrom, he, hvalue]
    | cons i l₁ =>
      obtain ⟨rfl, e, he, h⟩ := chain_cases hchain (hvalid i (by simp))
      have hne : e.value ≠ value := by
        rw [← valueOf_eq he]
        exact hfirst i mem_cons_self
      rcases h with ⟨hnil, -⟩ | ⟨hzero, -, hrest⟩
      · simp at hnil
      · have hfind := @ih _ (count + 1) (some i) _ hrest
          (fun j hj => hvalid j (mem_cons_of_mem _ hj))
          (fun j hj => hfirst j (mem_cons_of_mem _ hj)) (by simpa using hfuel)
        simp only [findFrom, he, bind_eq_bind, bind_some, if_pos hne, hfind]
        rw [getLast?_cons, length_cons]
        cases l₁.getLast? <;> simp <;> omega

end Loops

/-! ## What the operations do to the lists -/

section Operations

variable {κ : Type*} {ids : κ → List (BitVec 32)} {p : κ}

variable {start value x : BitVec 32} {l l₁ l₂ : List (BitVec 32)}

lemma Threaded.chain_start (h : Threaded c ids)
    (hp : ids p = start :: l) : Linked.Chain c.next (some start) (start :: l) := by
  have hchain := h.chain p
  rwa [hp] at hchain

lemma Threaded.gatherValues_eq (h : Threaded c ids)
    (hp : ids p = start :: l) : c.gatherValues start = some ((ids p).map c.valueOf) := by
  rw [hp]
  have hvalid : ∀ id ∈ start :: l, c.Valid id := hp ▸ h.valid p
  exact gatherFrom_eq (h.chain_start hp) hvalid (length_le_of_nodup (hp ▸ h.nodup p) hvalid)

lemma chain_of_entries {head : Option (BitVec 32)}
    (h : Linked.Chain c.next head l) (hentry : ∀ id ∈ l, c'.storageAt id = c.storageAt id) :
    Linked.Chain c'.next head l := by
  refine h.congr fun id hid => ?_
  rw [next, next, hentry id hid]

/-- The array grows only when no entry is free. -/
def Grows (c c' : MultiAddressContainer) : Prop :=
  c'.storage.length = c.storage.length ∨ c.freeEntries = [] ∧ c'.storage.length = c.storage.length + 1

lemma getNewEntry_fresh (h : Threaded c ids) (hsize : c.storage.length < 2 ^ 31) {e : BitVec 32}
    (hnew : c.getNewEntry = (e, c')) :
    c'.Valid e ∧ e ∉ c'.freeEntries ∧ (∀ q, e ∉ ids q) ∧ (∀ id, c.Valid id → c'.Valid id) ∧
      (∀ id, c'.Valid id → id = e ∨ c.Valid id ∧ (id ∈ c.freeEntries → id ∈ c'.freeEntries)) ∧
      (∀ q, ∀ id ∈ ids q, c'.storageAt id = c.storageAt id) ∧ c'.freeEntries.Sublist c.freeEntries ∧
      c.Grows c' := by
  unfold getNewEntry at hnew
  cases hfree : c.freeEntries with
  | cons result rest =>
    rw [hfree] at hnew
    cases hnew
    have hnodup := h.nodup_free
    rw [hfree] at hnodup
    refine ⟨h.valid_free e (by simp [hfree]), (nodup_cons.1 hnodup).1, ?_,
      fun id hid => hid, ?_, fun _ _ _ => rfl, sublist_cons_self _ _, .inl rfl⟩
    · intro q hq
      exact h.apart_free q hq (by simp [hfree])
    · intro id hid
      by_cases hide : id = e
      · exact .inl hide
      · refine .inr ⟨hid, fun hmem => ?_⟩
        exact (mem_cons.1 hmem).resolve_left hide
  | nil =>
    rw [hfree] at hnew
    cases hnew
    have htoNat : (BitVec.ofNat 32 (c.storage ++ [Entry.mk 0 0]).length).toNat = c.storage.length + 1 := by
      rw [BitVec.toNat_ofNat, length_append, length_singleton]
      omega
    have hold : ∀ id, c.Valid id → (c.storage ++ [Entry.mk 0 0])[index id]? = c.storage[index id]? :=
      fun id hid => getElem?_append_left hid.index_lt
    refine ⟨⟨?_, ?_⟩, by simp, ?_, ?_, ?_, fun q id hid => hold id (h.valid q id hid),
      List.Sublist.refl _, .inr ⟨hfree, by simp⟩⟩
    · intro hzero
      rw [hzero] at htoNat
      have : (0 : BitVec 32).toNat = 0 := rfl
      omega
    · rw [htoNat]
      simp
    · intro q hq
      have hle := (h.valid q _ hq).2
      omega
    · intro id hid
      refine ⟨hid.1, ?_⟩
      have hle := hid.2
      simp only [length_append, length_singleton]
      omega
    · intro id hid
      have hle : id.toNat ≤ c.storage.length + 1 := by simpa using hid.2
      by_cases heq : id.toNat = c.storage.length + 1
      · exact .inl (BitVec.eq_of_toNat_eq (heq.trans htoNat.symm))
      · refine .inr ⟨⟨hid.1, by omega⟩, ?_⟩
        simp

/-- One list is exchanged for another. -/
lemma Threaded.replace [DecidableEq κ] (h : Threaded c ids) (hchain : Linked.Chain c'.next l.head? l) (hnodup : l.Nodup)
    (hentry : ∀ q, q ≠ p → ∀ id ∈ ids q, c'.storageAt id = c.storageAt id)
    (hvalid : ∀ q, q ≠ p → ∀ id ∈ ids q, c'.Valid id)
    (hl : ∀ id ∈ l, c'.Valid id ∧ id ∉ c'.freeEntries ∧ ∀ q, q ≠ p → id ∉ ids q)
    (hnodup_free : c'.freeEntries.Nodup)
    (hfree : ∀ id ∈ c'.freeEntries, c'.Valid id ∧ ∀ q, q ≠ p → id ∉ ids q)
    (hcover : ∀ id, c'.Valid id → id ∈ c'.freeEntries ∨ id ∈ l ∨ ∃ q, q ≠ p ∧ id ∈ ids q) :
    Threaded c' (update ids p l) := by
  have hother : ∀ q, q ≠ p → update ids p l q = ids q :=
    fun q hq => update_of_ne hq _ _
  constructor
  · intro q
    by_cases hq : q = p
    · subst hq
      rw [update_self]
      exact hchain
    · rw [hother q hq]
      exact chain_of_entries (h.chain q) (hentry q hq)
  · intro q id hid
    by_cases hq : q = p
    · subst hq
      rw [update_self] at hid
      exact (hl id hid).1
    · rw [hother q hq] at hid
      exact hvalid q hq id hid
  · exact fun id hid => (hfree id hid).1
  · intro q
    by_cases hq : q = p
    · subst hq
      rw [update_self]
      exact hnodup
    · rw [hother q hq]
      exact h.nodup q
  · exact hnodup_free
  · intro q r hqr
    by_cases hq : q = p
    · subst hq
      rw [update_self, hother r (Ne.symm hqr)]
      exact fun id hid hid' => (hl id hid).2.2 r (Ne.symm hqr) hid'
    · by_cases hr : r = p
      · subst hr
        rw [update_self, hother q hq]
        exact fun id hid hid' => (hl id hid').2.2 q hq hid
      · rw [hother q hq, hother r hr]
        exact h.apart q r hqr
  · intro q id hid hid'
    by_cases hq : q = p
    · subst hq
      rw [update_self] at hid
      exact (hl id hid).2.1 hid'
    · rw [hother q hq] at hid
      exact (hfree id hid').2 q hq hid
  · intro id hid
    rcases hcover id hid with hmem | hmem | ⟨q, hq, hmem⟩
    · exact .inl hmem
    · exact .inr ⟨p, by rwa [update_self]⟩
    · exact .inr ⟨q, by rwa [hother q hq]⟩

/-- What `RegisterImplementation` gives: an entry that is in no list and not free. -/
lemma register_fresh (h : Threaded c ids) (hsize : c.storage.length < 2 ^ 31) {e : BitVec 32}
    (hreg : c.register value = (e, c')) :
    c'.Valid e ∧ e ∉ c'.freeEntries ∧ (∀ q, e ∉ ids q) ∧ (∀ id, c.Valid id → c'.Valid id) ∧
      (∀ id, c'.Valid id → id = e ∨ c.Valid id ∧ (id ∈ c.freeEntries → id ∈ c'.freeEntries)) ∧
      (∀ q, ∀ id ∈ ids q, c'.storageAt id = c.storageAt id) ∧ c'.freeEntries.Sublist c.freeEntries ∧
      c.Grows c' ∧ c'.storageAt e = some ⟨0, value⟩ := by
  unfold register at hreg
  rcases hnew : c.getNewEntry with ⟨e0, c0⟩
  rw [hnew] at hreg
  cases hreg
  obtain ⟨hvalid, hfree, hout, hvalid_old, hvalid_new, hentry, hsub, hlength⟩ :=
    getNewEntry_fresh h hsize hnew
  refine ⟨valid_setEntry.2 hvalid, hfree, hout, fun id hid => valid_setEntry.2 (hvalid_old id hid),
    fun id hid => hvalid_new id (valid_setEntry.1 hid), ?_, hsub, by simpa [Grows, setEntry] using hlength,
    entry_setEntry_self hvalid⟩
  intro q id hid
  rw [entry_setEntry_ne hvalid.1 (h.valid q id hid).1 (fun heq => hout q (heq ▸ hid))]
  exact hentry q id hid

/-- **`Register` starts a new list.** -/
theorem threaded_register [DecidableEq κ] (h : Threaded c ids) (hsize : c.storage.length < 2 ^ 31)
    (hp : ids p = []) {e : BitVec 32} (hreg : c.register value = (e, c')) :
    Threaded c' (update ids p [e]) ∧ c'.valueOf e = value ∧
      (∀ q, ∀ id ∈ ids q, c'.valueOf id = c.valueOf id) ∧ c.Grows c' := by
  obtain ⟨hvalid, hfree, hout, hvalid_old, hvalid_new, hentry, hsub, hlength, hself⟩ :=
    register_fresh h hsize hreg
  refine ⟨?_, valueOf_eq hself, fun q id hid => by rw [valueOf, valueOf, hentry q id hid], hlength⟩
  refine h.replace ?_ (nodup_singleton e) (fun q _ => hentry q)
    (fun q _ id hid => hvalid_old id (h.valid q id hid)) ?_ (h.nodup_free.sublist hsub) ?_ ?_
  · refine ⟨rfl, ?_⟩
    rw [next_eq hself]
    rfl
  · intro id hid
    rw [mem_singleton.1 hid]
    exact ⟨hvalid, hfree, fun q _ => hout q⟩
  · intro id hid
    have hid' := hsub.subset hid
    exact ⟨hvalid_old id (h.valid_free id hid'), fun q _ hq => h.apart_free q hq hid'⟩
  · intro id hid
    rcases hvalid_new id hid with rfl | ⟨hid, hkeep⟩
    · exact .inr (.inl (by simp))
    · rcases h.cover id hid with hmem | ⟨q, hq⟩
      · exact .inl (hkeep hmem)
      · exact .inr (.inr ⟨q, fun heq => by simp [heq, hp] at hq, hq⟩)

/-- **`Register` with a list appends to it.** -/
theorem threaded_append [DecidableEq κ] (h : Threaded c ids) (hsize : c.storage.length < 2 ^ 31)
    (hp : ids p = start :: l) :
    ∃ e c', c.registerAt value start = some c' ∧ Threaded c' (update ids p (ids p ++ [e])) ∧
      c'.valueOf e = value ∧ (∀ q, ∀ id ∈ ids q, c'.valueOf id = c.valueOf id) ∧ c.Grows c' := by
  rcases hreg : c.register value with ⟨e, c1⟩
  obtain ⟨hvalid, hfree, hout, hvalid_old, hvalid_new, hentry, hsub, hlength, hself⟩ :=
    register_fresh h hsize hreg
  -- the list again, as its last entry and those before
  obtain ⟨l', x, hlast⟩ : ∃ l' x, ids p = l' ++ [x] := by
    rw [hp]
    exact ⟨_, _, (dropLast_append_getLast (cons_ne_nil start l)).symm⟩
  have hchain : Linked.Chain c1.next (some start) (l' ++ [x]) := by
    rw [← hlast, hp]
    exact chain_of_entries (h.chain_start hp) fun id hid => hentry p id (hp ▸ hid)
  have hvalid_list : ∀ id ∈ l' ++ [x], c1.Valid id :=
    fun id hid => hvalid_old id (h.valid p id (hlast ▸ hid))
  have hnodup : (l' ++ [x]).Nodup := hlast ▸ h.nodup p
  have hx : x ∈ ids p := by simp [hlast]
  have hlast_eq : c1.lastFrom c1.storage.length start = some x := by
    refine lastFrom_eq hchain hvalid_list ?_
    have hle := length_le_of_nodup hnodup hvalid_list
    simpa using hle
  obtain ⟨current, hcurrent⟩ := (hvalid_list x (by simp)).exists_entry
  have hxe : x ≠ e := fun heq => hout p (heq ▸ hx)
  have hxvalid := hvalid_list x (by simp)
  set c2 := c1.setEntry x { current with nextEntry := e } with hc2
  have hentry2 : ∀ id, id ≠ 0 → id ≠ x → c2.storageAt id = c1.storageAt id :=
    fun id hid hne => entry_setEntry_ne hxvalid.1 hid (Ne.symm hne)
  have hx2 : c2.storageAt x = some { current with nextEntry := e } := entry_setEntry_self hxvalid
  have he2 : c2.storageAt e = some ⟨0, value⟩ := (hentry2 e hvalid.1 (Ne.symm hxe)).trans hself
  refine ⟨e, c2, ?_, ?_, valueOf_eq he2, ?_, by simpa [Grows, hc2, setEntry] using hlength⟩
  · simp only [registerAt, hreg, hlast_eq, bind_eq_bind, bind_some, hcurrent, hc2]
  · refine h.replace ?_ ?_ ?_ ?_ ?_ (h.nodup_free.sublist hsub) ?_ ?_
    · -- the last entry links to the new one
      have hsnoc : Linked.Chain c2.next (some start) (l' ++ [x, e]) := by
        refine hchain.snoc (fun id hid => ?_) ?_ ?_
        · have hne : id ≠ x := by
            rintro rfl
            exact (nodup_append.1 hnodup).2.2 id hid id (by simp) rfl
          rw [next, next, hentry2 id (hvalid_list id (by simp [hid])).1 hne]
        · rw [next_eq hx2, if_neg hvalid.1]
        · rw [next_eq he2]
          rfl
      have happend : ids p ++ [e] = l' ++ [x, e] := by
        rw [hlast, append_assoc]
        rfl
      rw [happend, ← hsnoc.head_eq]
      exact hsnoc
    · rw [nodup_append]
      refine ⟨h.nodup p, nodup_singleton e, ?_⟩
      rintro a ha b hb rfl
      exact hout p (mem_singleton.1 hb ▸ ha)
    · intro q hq id hid
      have hne : id ≠ x := fun heq => h.apart q p hq hid (heq ▸ hx)
      rw [hentry2 id (h.valid q id hid).1 hne]
      exact hentry q id hid
    · intro q _ id hid
      exact valid_setEntry.2 (hvalid_old id (h.valid q id hid))
    · intro id hid
      rcases mem_append.1 hid with hid | hid
      · refine ⟨valid_setEntry.2 (hvalid_old id (h.valid p id hid)), ?_, ?_⟩
        · exact fun hmem => h.apart_free p hid (hsub.subset hmem)
        · exact fun q hq hmem => h.apart q p hq hmem hid
      · rw [mem_singleton.1 hid]
        exact ⟨valid_setEntry.2 hvalid, hfree, fun q _ => hout q⟩
    · intro id hid
      have hid' := hsub.subset hid
      exact ⟨valid_setEntry.2 (hvalid_old id (h.valid_free id hid')),
        fun q _ hq => h.apart_free q hq hid'⟩
    · intro id hid
      rcases hvalid_new id (valid_setEntry.1 hid) with rfl | ⟨hid, hkeep⟩
      · exact .inr (.inl (by simp))
      · rcases h.cover id hid with hmem | ⟨q, hq⟩
        · exact .inl (hkeep hmem)
        · by_cases hqp : q = p
          · exact .inr (.inl (mem_append_left _ (hqp ▸ hq)))
          · exact .inr (.inr ⟨q, hqp, hq⟩)
  · intro q id hid
    by_cases hne : id = x
    · subst hne
      rw [valueOf_eq hx2, ← valueOf_eq hcurrent, valueOf, valueOf, hentry q id hid]
    · rw [valueOf, valueOf, hentry2 id (h.valid q id hid).1 hne, hentry q id hid]

lemma Threaded.free [DecidableEq κ] (h : Threaded c ids)
    (hp : ids p = l₁ ++ x :: l₂) (hchain : Linked.Chain c'.next (l₁ ++ l₂).head? (l₁ ++ l₂))
    (hentry : ∀ q, q ≠ p → ∀ id ∈ ids q, c'.storageAt id = c.storageAt id)
    (hlength : c'.storage.length = c.storage.length)
    (hfree : c'.freeEntries = c.freeEntries ++ [x]) :
    Threaded c' (update ids p (l₁ ++ l₂)) := by
  have hvalid : ∀ id, c'.Valid id ↔ c.Valid id := fun id => by rw [Valid, Valid, hlength]
  have hx : x ∈ ids p := by simp [hp]
  have hnodup : (l₁ ++ x :: l₂).Nodup := hp ▸ h.nodup p
  have hsub : ∀ id ∈ l₁ ++ l₂, id ∈ ids p := by
    intro id hid
    rw [hp]
    rcases mem_append.1 hid with hid | hid
    · exact mem_append_left _ hid
    · exact mem_append_right _ (mem_cons_of_mem _ hid)
  have hxout : x ∉ l₁ ++ l₂ := (nodup_cons.1 (nodup_middle.1 hnodup)).1
  refine h.replace hchain (nodup_cons.1 (nodup_middle.1 hnodup)).2 hentry
    (fun q _ id hid => (hvalid id).2 (h.valid q id hid)) ?_ ?_ ?_ ?_
  · intro id hid
    refine ⟨(hvalid id).2 (h.valid p id (hsub id hid)), ?_,
      fun q hq hmem => h.apart q p hq hmem (hsub id hid)⟩
    rw [hfree, mem_append, mem_singleton]
    rintro (hmem | rfl)
    · exact h.apart_free p (hsub id hid) hmem
    · exact hxout hid
  · rw [hfree, nodup_append]
    refine ⟨h.nodup_free, nodup_singleton x, ?_⟩
    rintro a ha b hb rfl
    exact h.apart_free p hx (mem_singleton.1 hb ▸ ha)
  · intro id hid
    rw [hfree, mem_append, mem_singleton] at hid
    rcases hid with hid | rfl
    · exact ⟨(hvalid id).2 (h.valid_free id hid), fun q _ hq => h.apart_free q hq hid⟩
    · exact ⟨(hvalid id).2 (h.valid p id hx), fun q hq hmem => h.apart q p hq hmem hx⟩
  · intro id hid
    rw [hfree]
    rcases h.cover id ((hvalid id).1 hid) with hmem | ⟨q, hq⟩
    · exact .inl (mem_append_left _ hmem)
    · by_cases hqp : q = p
      · rw [hqp, hp, mem_append, mem_cons] at hq
        rcases hq with hq | rfl | hq
        · exact .inr (.inl (mem_append_left _ hq))
        · exact .inl (by simp)
        · exact .inr (.inl (mem_append_right _ hq))
      · exact .inr (.inr ⟨q, hqp, hq⟩)

/-- `ReleaseEntry` frees the only entry of a list. -/
theorem threaded_release [DecidableEq κ] (h : Threaded c ids) (hp : ids p = [start]) :
    ∃ c', c.releaseEntry start = some (c.valueOf start, c') ∧ Threaded c' (update ids p []) ∧
      (∀ id, c'.valueOf id = c.valueOf id) ∧ c'.storage.length = c.storage.length := by
  obtain ⟨current, hcurrent⟩ := (h.valid p start (by simp [hp])).exists_entry
  refine ⟨{ c with freeEntries := c.freeEntries ++ [start] }, ?_, ?_, fun _ => rfl, rfl⟩
  · simp [releaseEntry, hcurrent, valueOf_eq hcurrent]
  · exact @Threaded.free c _ κ ids p start [] [] _ h hp rfl (fun _ _ _ _ => rfl) rfl rfl

/-- Whether there are two more entries behind an entry. -/
lemma next_next {current : Entry} (hchain : Linked.Chain c.next (some x) (x :: l)) (hvalid : ∀ id ∈ x :: l, c.Valid id)
    (hcurrent : c.storageAt x = some current) :
    (l = [] ∧ current.nextEntry = 0) ∨
      ∃ e, current.nextEntry ≠ 0 ∧ l.head? = some current.nextEntry ∧
        c.storageAt current.nextEntry = some e ∧ (e.nextEntry ≠ 0 ↔ 2 ≤ l.length) := by
  obtain ⟨-, e, he, h⟩ := chain_cases hchain (hvalid x mem_cons_self)
  cases hcurrent.symm.trans he
  rcases h with ⟨rfl, hzero⟩ | ⟨hzero, hne, hrest⟩
  · exact .inl ⟨rfl, hzero⟩
  · refine .inr ?_
    obtain ⟨l', rfl, -⟩ := Linked.chain_some hrest
    obtain ⟨-, e', he', h'⟩ := chain_cases hrest (hvalid _ (by simp))
    refine ⟨e', hzero, rfl, he', ?_⟩
    rcases h' with ⟨rfl, hzero'⟩ | ⟨hzero', hne', -⟩
    · simp [hzero']
    · have hpos : 0 < l'.length := length_pos_of_ne_nil hne'
      simp only [length_cons]
      constructor
      · intro _
        omega
      · intro _
        exact hzero'

/-- **`Unregister` takes the entry of a value out of its list**, and says whether two or more remain. -/
theorem threaded_unregister [DecidableEq κ] (h : Threaded c ids)
    (hstart : ids p = start :: l) (hp : ids p = l₁ ++ x :: l₂)
    (hvalue : c.valueOf x = value) (hfirst : ∀ id ∈ l₁, c.valueOf id ≠ value) :
    ∃ newStart c', c.unregister value start = some ((decide (2 ≤ (l₁ ++ l₂).length), newStart), c') ∧
      Threaded c' (update ids p (l₁ ++ l₂)) ∧
      (l₁ ++ l₂ ≠ [] → (l₁ ++ l₂).head? = some newStart) ∧
      (∀ q, ∀ id ∈ ids q, c'.valueOf id = c.valueOf id) ∧
      c'.storage.length = c.storage.length := by
  have hchain : Linked.Chain c.next (some start) (l₁ ++ x :: l₂) := by
    rw [← hp, hstart]
    exact h.chain_start hstart
  have hvalid : ∀ id ∈ l₁ ++ x :: l₂, c.Valid id := hp ▸ h.valid p
  have hnodup : (l₁ ++ x :: l₂).Nodup := hp ▸ h.nodup p
  have hfuel : l₁.length < c.storage.length := by
    have hle := length_le_of_nodup hnodup hvalid
    simp only [length_append, length_cons] at hle
    omega
  have hfind : c.findFrom value c.storage.length none 0 start = some (l₁.getLast?, x, l₁.length) := by
    rw [findFrom_eq hchain hvalid hvalue hfirst hfuel, or_none, Nat.zero_add]
  obtain ⟨current, hcurrent⟩ := (hvalid x (by simp)).exists_entry
  have htail : Linked.Chain c.next (some x) (x :: l₂) := hchain.from_cell
  have hnext := next_next htail (fun id hid => hvalid id (mem_append_right _ hid)) hcurrent
  rcases eq_nil_or_concat' l₁ with rfl | ⟨l0, y, rfl⟩
  · -- the first entry
    refine ⟨current.nextEntry, { c with freeEntries := c.freeEntries ++ [x] }, ?_, ?_, ?_,
      fun _ _ _ => rfl, rfl⟩
    · simp only [unregister, hfind, bind_eq_bind, bind_some, hcurrent, getLast?_nil, nil_append, length_nil]
      rcases hnext with ⟨rfl, hzero⟩ | ⟨e, hzero, -, he, htwo⟩
      · simp [hzero]
      · rw [if_pos hzero, he]
        simp only [bind_some, isSome_none, Bool.or_false, htwo, Nat.not_lt_zero, gt_iff_lt, decide_false]
    · refine h.free hp ?_ (fun _ _ _ _ => rfl) rfl rfl
      rw [nil_append, ← @Linked.Chain.next_eq _ _ _ _ [] _ htail]
      exact htail.2
    · intro hne
      rcases hnext with ⟨rfl, -⟩ | ⟨e, -, hhead, -⟩
      · exact absurd rfl hne
      · exact hhead
  · -- an entry behind another one
    have hy : y ∈ l0 ++ [y] ++ x :: l₂ := by simp
    have hyp : y ∈ ids p := hp ▸ hy
    have hyvalid := hvalid y hy
    obtain ⟨entry, hentry⟩ := hyvalid.exists_entry
    have hmiddle : l0 ++ [y] ++ x :: l₂ = l0 ++ y :: x :: l₂ := by simp
    rw [hmiddle] at hchain hnodup
    have hyout : y ∉ l0 ++ x :: l₂ := (nodup_cons.1 (nodup_middle.1 hnodup)).1
    set c1 := c.setEntry y { entry with nextEntry := current.nextEntry } with hc1
    have hother : ∀ id, id ≠ 0 → id ≠ y → c1.storageAt id = c.storageAt id :=
      fun id hid hne => entry_setEntry_ne hyvalid.1 hid (Ne.symm hne)
    have hself : c1.storageAt y = some { entry with nextEntry := current.nextEntry } :=
      entry_setEntry_self hyvalid
    have hcut : Linked.Chain c1.next (some start) (l0 ++ [y] ++ l₂) := by
      have hunlink : Linked.Chain c1.next (some start) (l0 ++ y :: l₂) := by
        refine hchain.unlink (fun id hid => ?_) ?_
        · have hmem : id ∈ l0 ++ x :: l₂ := by
            simp only [mem_append, mem_cons] at hid ⊢
            tauto
          have hne : id ≠ y := fun heq => hyout (heq ▸ hmem)
          have hzero : id ≠ 0 := (hvalid id (by simp at hmem ⊢; tauto)).1
          rw [next, next, hother id hzero hne]
        · rw [next_eq hself, next_eq hcurrent]
      simpa using hunlink
    refine ⟨start, { c1 with freeEntries := c.freeEntries ++ [x] }, ?_, ?_, ?_, ?_, ?_⟩
    · simp only [unregister, hfind, bind_eq_bind, bind_some, hcurrent, getLast?_concat, hentry, hc1]
      rcases hnext with ⟨rfl, hzero⟩ | ⟨e, hzero, hhead, he, -⟩
      · simp [hzero, setEntry, Nat.lt_iff_add_one_le]
      · have hpos : 0 < l₂.length := by
          cases l₂ with
          | nil => cases hhead
          | cons _ _ => simp
        have htwo : 2 ≤ (l0 ++ [y] ++ l₂).length := by
          simp only [length_append, length_singleton]
          omega
        rw [if_pos hzero, he, decide_eq_true htwo]
        simp only [bind_some, isSome_some, Bool.or_true, Bool.true_or]
        rfl
    · refine h.free hp ?_ ?_ (by simp [hc1, setEntry]) rfl
      · rw [← hcut.head_eq]
        exact hcut
      · intro q hq id hid
        exact hother id (h.valid q id hid).1 fun heq => h.apart q p hq hid (heq ▸ hyp)
    · intro _
      exact hcut.head_eq.symm
    · intro q id hid
      by_cases hne : id = y
      · subst hne
        exact (valueOf_eq (c := { c1 with freeEntries := c.freeEntries ++ [x] }) hself).trans (valueOf_eq hentry).symm
      · have heq := hother id (h.valid q id hid).1 hne
        simp only [valueOf, storageAt] at heq ⊢
        rw [heq]
    · simp [hc1, setEntry]

lemma Threaded.length_le (h : Threaded c ids) (hfree : c.freeEntries = []) {N : ℕ}
    (hvalue : ∀ q, ∀ id ∈ ids q, (c.valueOf id).toNat < N)
    (hinj : ∀ q r, ∀ id ∈ ids q, ∀ id' ∈ ids r, c.valueOf id = c.valueOf id' → id = id')
    (hsize : c.storage.length < 2 ^ 32) : c.storage.length ≤ N := by
  -- the name of the `n`-th entry
  have hname : ∀ n < c.storage.length, ∃ q, BitVec.ofNat 32 (n + 1) ∈ ids q := by
    intro n hn
    have htoNat : (BitVec.ofNat 32 (n + 1)).toNat = n + 1 := by
      rw [BitVec.toNat_ofNat]
      omega
    have hvalid : c.Valid (BitVec.ofNat 32 (n + 1)) := by
      refine ⟨fun hzero => ?_, by omega⟩
      rw [hzero] at htoNat
      exact absurd htoNat (by simp)
    rcases h.cover _ hvalid with hmem | hmem
    · simp [hfree] at hmem
    · exact hmem
  have hmaps : Set.MapsTo (fun n => (c.valueOf (BitVec.ofNat 32 (n + 1))).toNat)
      (Finset.range c.storage.length) (Finset.range N) := by
    intro n hn
    obtain ⟨q, hq⟩ := hname n (Finset.mem_range.1 (Finset.mem_coe.1 hn))
    exact Finset.mem_coe.2 (Finset.mem_range.2 (hvalue q _ hq))
  have hinjOn : Set.InjOn (fun n => (c.valueOf (BitVec.ofNat 32 (n + 1))).toNat) (Finset.range c.storage.length) := by
    intro n hn k hk heq
    have hn := Finset.mem_range.1 (Finset.mem_coe.1 hn)
    have hk := Finset.mem_range.1 (Finset.mem_coe.1 hk)
    obtain ⟨q, hq⟩ := hname n hn
    obtain ⟨r, hr⟩ := hname k hk
    have hid := congrArg BitVec.toNat (hinj q r _ hq _ hr (BitVec.eq_of_toNat_eq heq))
    rw [BitVec.toNat_ofNat, BitVec.toNat_ofNat] at hid
    omega
  have hcard := Finset.card_le_card_of_injOn _ hmaps hinjOn
  simpa using hcard

end Operations

end MultiAddressContainer

end Voltemu.Core
