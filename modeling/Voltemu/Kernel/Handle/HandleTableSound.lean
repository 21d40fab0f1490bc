import Voltemu.Kernel.Handle.KHandleTable
import Voltemu.Lib.Linked

/-!
# Handles resolve to their objects

The abstract handle table is a map from the registered handles to their objects and a set of
reserved handles (`HandleState.live`, `HandleState.reserved`); `allocated` records the handles in
the order they were given out.  The table refines it:

* the free list threaded through the entry infos visits exactly the entries no handle holds;
* `GetObject` is the abstract map, so a removed or never registered handle resolves to nothing;
* linear ids are given out round robin, so one handle value is given out twice only with 0x7FFF
  ids from one time to the other.

**`handleTable_sound`** is the statement over runs.  `stale_handle_resolves_again` shows that the
distance is not counted from the removal.
-/

namespace Voltemu.Kernel

open Linked HandlePack Function List KHandleTable

namespace HandlePack

lemma eq_of_fields {h h' : Handle} (hindex : index h = index h') (hid : linearId h = linearId h')
    (hres : reserved h = reserved h') : h = h' := by
  refine BitVec.eq_of_toNat_eq ?_
  simp only [index, linearId, reserved] at *
  omega

end HandlePack

namespace KHandleTable

variable {Obj : Type*}

section Encode

variable {i l : ℕ} (hi : i < MaxTableSize) (hl : l ≤ MaxLinearId)

private lemma encodeHandle_toNat : (encodeHandle i l).toNat = i % 2 ^ 15 + l % 2 ^ 15 * 2 ^ 15 := by
  rw [encodeHandle, BitVec.toNat_ofNat]
  omega

include hi in
lemma index_encodeHandle : index (encodeHandle i l) = i := by
  rw [index, encodeHandle_toNat]
  simp only [MaxTableSize] at hi
  omega

include hl in
lemma linearId_encodeHandle : linearId (encodeHandle i l) = l := by
  rw [linearId, encodeHandle_toNat]
  simp only [MaxLinearId] at hl
  omega

lemma reserved_encodeHandle : reserved (encodeHandle i l) = 0 := by
  rw [reserved, encodeHandle_toNat]
  omega

end Encode

/-! ## The free list -/

/-- An index as a link: negative ones end the list. -/
def toLink (z : ℤ) : Option ℕ := if z < 0 then none else some z.toNat

/-- The link an entry info holds while the entry is free. -/
def link (infos : ℕ → BitVec 16) (i : ℕ) : Option ℕ := toLink (getNextFreeIndex (infos i))

lemma toLink_natCast (i : ℕ) : toLink (i : ℤ) = some i := by
  simp [toLink]

variable {z : ℤ} {i : ℕ}

lemma toLink_eq_some_iff : toLink z = some i ↔ z = i := by
  rw [toLink]
  split_ifs with h
  · simp only [false_iff]
    omega
  · rw [Option.some.injEq]
    omega

lemma getNextFreeIndex_ofInt (h : -2 ^ 15 ≤ z) (h' : z < 2 ^ 15) : getNextFreeIndex (BitVec.ofInt 16 z) = z := by
  rw [getNextFreeIndex, BitVec.toInt_ofInt]
  exact Int.bmod_eq_of_le (by norm_num; omega) (by norm_num; omega)

lemma getNextFreeIndex_bounds (info : BitVec 16) : -2 ^ 15 ≤ getNextFreeIndex info ∧ getNextFreeIndex info < 2 ^ 15 :=
  ⟨BitVec.le_toInt info, BitVec.toInt_lt⟩

lemma freeEntry_objects (t : KHandleTable Obj) (i j : ℕ) :
    (t.freeEntry i).objects j = if j = i then none else t.objects j :=
  update_apply _ _ _ _

lemma freeEntry_entryInfos (t : KHandleTable Obj) (i j : ℕ) :
    (t.freeEntry i).entryInfos j = if j = i then BitVec.ofInt 16 t.freeHeadIndex else t.entryInfos j :=
  update_apply _ _ _ _

variable {t : KHandleTable Obj}

lemma add_eq (hroom : t.count < t.tableSize) (hhead : t.freeHeadIndex = i) (obj : Obj) :
    t.add obj = (some (encodeHandle i t.nextLinearId),
      { t with
        freeHeadIndex := getNextFreeIndex (t.entryInfos i)
        count := t.count + 1
        maxCount := max t.maxCount (t.count + 1)
        nextLinearId := t.allocateLinearId.2.nextLinearId
        entryInfos := update t.entryInfos i (BitVec.ofNat 16 t.nextLinearId)
        objects := update t.objects i (some obj) }) := by
  have hi : t.freeHeadIndex.toNat = i := by rw [hhead, Int.toNat_natCast]
  simp only [add, allocateLinearId, allocateEntry, hi, if_pos hroom]

lemma remove_eq (t : KHandleTable Obj) (h : Handle) :
    t.remove h = if isPseudoHandle h = false ∧ reserved h = 0 ∧ t.isValidHandle h = true
      then (true, t.freeEntry (index h)) else (false, t) := by
  by_cases hp : isPseudoHandle h = true
  · simp [remove, hp]
  · by_cases hres : reserved h = 0
    · simp [remove, hp, hres]
    · simp [remove, hp, hres]

lemma remove_encodeHandle {l : ℕ} {o : Obj} (hi : i < t.tableSize)
    (hsize : t.tableSize ≤ MaxTableSize) (hl : 0 < l) (hl' : l ≤ MaxLinearId)
    (ho : t.objects i = some o) (hinfo : getLinearId (t.entryInfos i) = l) :
    t.getObject (encodeHandle i l) = some o ∧ t.remove (encodeHandle i l) = (true, t.freeEntry i) := by
  have hindex : index (encodeHandle i l) = i := index_encodeHandle (lt_of_lt_of_le hi hsize)
  have hid : linearId (encodeHandle i l) = l := linearId_encodeHandle hl'
  have hres : reserved (encodeHandle i l) = 0 := reserved_encodeHandle
  have hne : encodeHandle i l ≠ 0#32 := by
    intro h0
    rw [h0] at hid
    simp [linearId] at hid
    omega
  have hpseudo : isPseudoHandle (encodeHandle i l) = false := by
    by_contra hp
    rw [Bool.not_eq_false, isPseudoHandle, Bool.or_eq_true, beq_iff_eq, beq_iff_eq] at hp
    rcases hp with hp | hp <;> rw [hp] at hres <;> simp [reserved] at hres
  have hvalid : t.isValidHandle (encodeHandle i l) = true := by
    simp [isValidHandle, hne, hindex, hid, hi, hl.ne', ho, hinfo]
  constructor
  · rw [getObject, if_neg (not_not.2 hres), if_pos hvalid, hindex, ho]
  · rw [remove_eq, if_pos ⟨hpseudo, hres, hvalid⟩, hindex]

def FreeList (t : KHandleTable Obj) (l : List ℕ) : Prop :=
  Chain (link t.entryInfos) (toLink t.freeHeadIndex) l

end KHandleTable

/-! ## The abstract handle table -/

inductive HandleOp (Obj : Type*)
  | add (obj : Obj)
  | reserve
  | register (handle : Handle) (obj : Obj)
  | unreserve (handle : Handle)
  | remove (handle : Handle)

/-- A table, with the objects of its registered handles, its reserved handles, and the handles given
out so far, oldest first. -/
structure HandleState (Obj : Type*) where
  table : KHandleTable Obj
  live : Handle → Option Obj
  reserved : Finset Handle
  allocated : List Handle

namespace HandleState

variable {Obj : Type*}

def start (t : KHandleTable Obj) : HandleState Obj where
  table := t
  live := fun _ => none
  reserved := ∅
  allocated := []

/-- One operation, on the table and on the abstract table. -/
def exec (s : HandleState Obj) : HandleOp Obj → HandleState Obj
  | .add obj =>
      match s.table.add obj with
      | (some h, t) =>
          { s with
            table := t
            live := update s.live h (some obj)
            allocated := s.allocated ++ [h] }
      | (none, t) => { s with table := t }
  | .reserve =>
      match s.table.reserve with
      | (some h, t) =>
          { s with
            table := t
            reserved := insert h s.reserved
            allocated := s.allocated ++ [h] }
      | (none, t) => { s with table := t }
  | .register h obj =>
      { s with
        table := s.table.register h obj
        live := update s.live h (some obj)
        reserved := s.reserved.erase h }
  | .unreserve h =>
      { s with
        table := s.table.unreserve h
        reserved := s.reserved.erase h }
  | .remove h =>
      match s.table.remove h with
      | (true, t) => { s with table := t, live := update s.live h none }
      | (false, t) => { s with table := t }

/-- `Register` and `Unreserve` are called with a reserved handle. -/
def Admissible (s : HandleState Obj) : HandleOp Obj → Prop
  | .register h _ => h ∈ s.reserved
  | .unreserve h => h ∈ s.reserved
  | .add _ | .reserve | .remove _ => True

def Step (s s' : HandleState Obj) : Prop := ∃ op, s.Admissible op ∧ s' = s.exec op

def Held (s : HandleState Obj) (h : Handle) : Prop := (s.live h).isSome ∨ h ∈ s.reserved

/-- The free list and the handles share the entries out between them. -/
structure Entries (s : HandleState Obj) (free : List ℕ) : Prop where
  chain : s.table.FreeList free
  nodup : free.Nodup
  mem_iff : ∀ i, i ∈ free ↔ i < s.table.tableSize ∧ ∀ h, s.Held h → index h ≠ i
  length : free.length + s.table.count = s.table.tableSize

structure Inv (s : HandleState Obj) : Prop where
  size_le : s.table.tableSize ≤ KHandleTable.MaxTableSize
  head_bounds : -2 ^ 15 ≤ s.table.freeHeadIndex ∧ s.table.freeHeadIndex < 2 ^ 15
  entries : ∃ free, s.Entries free
  held : ∀ h, s.Held h → index h < s.table.tableSize ∧ HandlePack.reserved h = 0 ∧ 0 < linearId h
  held_inj : ∀ h h', s.Held h → s.Held h' → index h = index h' → h = h'
  live : ∀ h o, s.live h = some o → s.table.objects (index h) = some o ∧
    getLinearId (s.table.entryInfos (index h)) = linearId h
  reserved : ∀ h ∈ s.reserved, s.table.objects (index h) = none
  object : ∀ i o, i < s.table.tableSize → s.table.objects i = some o → ∃ h, s.live h = some o ∧ index h = i
  nextId : s.table.nextLinearId = s.allocated.length % KHandleTable.MaxLinearId + 1
  allocatedId : ∀ k h, s.allocated[k]? = some h → linearId h = k % KHandleTable.MaxLinearId + 1

variable {s : HandleState Obj}

lemma Inv.getObject_eq (hs : s.Inv) (h : Handle) : s.table.getObject h = s.live h := by
  have hvalid : s.table.isValidHandle h = true ↔ h ≠ 0#32 ∧ linearId h ≠ 0 ∧
      index h < s.table.tableSize ∧ (s.table.objects (index h)).isSome ∧
      getLinearId (s.table.entryInfos (index h)) = linearId h := by
    rw [isValidHandle]
    split_ifs with h1 h2 h3 h4 h5
    all_goals simp_all [Option.isSome_iff_ne_none]
  ext o
  rw [getObject]
  constructor
  · intro hget
    split_ifs at hget with hres hval
    obtain ⟨-, -, hlt, -, hid⟩ := hvalid.1 hval
    obtain ⟨h', hlive, hindex⟩ := hs.object _ o hlt hget
    obtain ⟨-, hid'⟩ := hs.live h' o hlive
    obtain ⟨-, hres', -⟩ := hs.held h' (Or.inl (by simp [hlive]))
    rw [hindex, hid] at hid'
    rwa [HandlePack.eq_of_fields hindex.symm hid' ((not_not.1 hres).trans hres'.symm)]
  · intro hlive
    obtain ⟨hlt, hres, hid⟩ := hs.held h (Or.inl (by simp [hlive]))
    obtain ⟨hobj, hid'⟩ := hs.live h o hlive
    have hne : h ≠ 0#32 := by
      rintro rfl
      simp [linearId] at hid
    rw [if_neg (by simpa using hres), if_pos, hobj]
    exact hvalid.2 ⟨hne, hid.ne', hlt, by simp [hobj], hid'⟩

/-! ## Giving out an entry -/

lemma Entries.exists_head {free : List ℕ} (h : s.Entries free) (hroom : s.table.count < s.table.tableSize) :
    ∃ i rest, free = i :: rest ∧ s.table.freeHeadIndex = i := by
  have hlen := h.length
  cases free with
  | nil =>
    simp only [length_nil] at hlen
    omega
  | cons i rest => exact ⟨i, rest, rfl, toLink_eq_some_iff.1 h.chain.1⟩

lemma Inv.object_of_free (hs : s.Inv) {free : List ℕ} (h : s.Entries free)
    {i : ℕ} (hi : i ∈ free) : s.table.objects i = none := by
  obtain ⟨hlt, hnot⟩ := (h.mem_iff i).1 hi
  by_contra hne
  obtain ⟨o, ho⟩ := Option.ne_none_iff_exists'.1 hne
  obtain ⟨x, hx, hindex⟩ := hs.object i o hlt ho
  exact hnot x (Or.inl (by simp [hx])) hindex

/-- What `Add` and `Reserve` have in common: entry `i` leaves the free list, `h` is given out for
it. -/
structure Allocates (s s' : HandleState Obj) (i : ℕ) (h : Handle) : Prop where
  handle : h = encodeHandle i s.table.nextLinearId
  size : s'.table.tableSize = s.table.tableSize
  head : s'.table.freeHeadIndex = getNextFreeIndex (s.table.entryInfos i)
  count : s'.table.count = s.table.count + 1
  nextId : s'.table.nextLinearId = if s.table.nextLinearId + 1 > KHandleTable.MaxLinearId
    then KHandleTable.MinLinearId else s.table.nextLinearId + 1
  infos : ∀ j ≠ i, s'.table.entryInfos j = s.table.entryInfos j
  objects : ∀ j ≠ i, s'.table.objects j = s.table.objects j
  allocated : s'.allocated = s.allocated ++ [h]
  live : ∀ x ≠ h, s'.live x = s.live x
  reserved : ∀ x ≠ h, (x ∈ s'.reserved ↔ x ∈ s.reserved)
  held : s'.Held h
  new : (∃ o, s'.live h = some o ∧ h ∉ s'.reserved ∧ s'.table.objects i = some o ∧
      getLinearId (s'.table.entryInfos i) = linearId h) ∨
    s'.live h = none ∧ s'.table.objects i = none

private lemma roundRobin_succ (n : ℕ) :
    (if n % KHandleTable.MaxLinearId + 1 + 1 > KHandleTable.MaxLinearId then KHandleTable.MinLinearId
      else n % KHandleTable.MaxLinearId + 1 + 1) = (n + 1) % KHandleTable.MaxLinearId + 1 := by
  rw [KHandleTable.MaxLinearId, KHandleTable.MinLinearId]
  split_ifs <;> omega

namespace Allocates

variable {s' : HandleState Obj} {i : ℕ} {h : Handle} {rest : List ℕ} (ha : Allocates s s' i h) (hs : s.Inv)
  (he : s.Entries (i :: rest))
include ha hs he

lemma index_eq : index h = i := by
  have hi := lt_of_lt_of_le ((he.mem_iff i).1 (by simp)).1 hs.size_le
  rw [ha.handle, index_encodeHandle hi]

omit he in
lemma linearId_eq : linearId h = s.table.nextLinearId := by
  rw [ha.handle, linearId_encodeHandle]
  rw [hs.nextId]
  exact Nat.mod_lt _ (by decide)

lemma other {x : Handle} (hx : s.Held x) : x ≠ h ∧ index x ≠ i := by
  have hfree := ((he.mem_iff i).1 (by simp)).2
  constructor
  · rintro rfl
    exact hfree x hx (ha.index_eq hs he)
  · exact hfree x hx

omit hs he in
lemma held_iff (x : Handle) : s'.Held x ↔ s.Held x ∨ x = h := by
  by_cases hx : x = h
  · simp [hx, ha.held]
  · simp [Held, ha.live x hx, ha.reserved x hx, hx]

lemma entries : s'.Entries rest := by
  obtain ⟨hnot, hnodup⟩ := nodup_cons.1 he.nodup
  have hindex := ha.index_eq hs he
  refine ⟨?_, hnodup, ?_, ?_⟩
  · rw [KHandleTable.FreeList, ha.head]
    refine Chain.congr he.chain.2 ?_
    intro j hj
    have hji : j ≠ i := fun hji => hnot (hji ▸ hj)
    rw [link, link, ha.infos j hji]
  · intro j
    rw [ha.size]
    constructor
    · intro hmem
      obtain ⟨hlt, hfree⟩ := (he.mem_iff j).1 (mem_cons_of_mem _ hmem)
      refine ⟨hlt, ?_⟩
      intro x hx hxj
      rcases (ha.held_iff x).1 hx with hx | rfl
      · exact hfree x hx hxj
      · exact hnot (hindex ▸ hxj ▸ hmem)
    · rintro ⟨hlt, hfree⟩
      have hmem := (he.mem_iff j).2 ⟨hlt, fun x hx => hfree x ((ha.held_iff x).2 (Or.inl hx))⟩
      rcases mem_cons.1 hmem with rfl | hmem
      · exact absurd hindex (hfree h ha.held)
      · exact hmem
  · have hlen := he.length
    rw [ha.size, ha.count]
    simp only [length_cons] at hlen
    omega

lemma held_fields (x : Handle) (hx : s'.Held x) :
    index x < s'.table.tableSize ∧ HandlePack.reserved x = 0 ∧ 0 < linearId x := by
  rw [ha.size]
  rcases (ha.held_iff x).1 hx with hx | rfl
  · exact hs.held x hx
  · refine ⟨?_, ?_, ?_⟩
    · rw [ha.index_eq hs he]
      exact ((he.mem_iff i).1 (by simp)).1
    · rw [ha.handle]
      exact reserved_encodeHandle
    · rw [ha.linearId_eq hs, hs.nextId]
      exact Nat.succ_pos _

lemma held_inj (x y : Handle) (hx : s'.Held x) (hy : s'.Held y) (hxy : index x = index y) : x = y := by
  have hindex := ha.index_eq hs he
  rcases (ha.held_iff x).1 hx with hx | rfl <;> rcases (ha.held_iff y).1 hy with hy | rfl
  · exact hs.held_inj x y hx hy hxy
  · exact absurd (hxy.trans hindex) (ha.other hs he hx).2
  · exact absurd (hxy.symm.trans hindex) (ha.other hs he hy).2
  · rfl

lemma live_object (x : Handle) (o : Obj) (hx : s'.live x = some o) :
    s'.table.objects (index x) = some o ∧ getLinearId (s'.table.entryInfos (index x)) = linearId x := by
  by_cases hxh : x = h
  · subst hxh
    rw [ha.index_eq hs he]
    rcases ha.new with ⟨o', hlive, -, hobj, hlid⟩ | ⟨hnone, -⟩
    · obtain rfl : o' = o := Option.some.inj (hlive.symm.trans hx)
      exact ⟨hobj, hlid⟩
    · rw [hnone] at hx
      exact absurd hx (by simp)
  · rw [ha.live x hxh] at hx
    obtain ⟨-, hne⟩ := ha.other hs he (x := x) (Or.inl (by simp [hx]))
    rw [ha.objects _ hne, ha.infos _ hne]
    exact hs.live x o hx

lemma reserved_object (x : Handle) (hx : x ∈ s'.reserved) : s'.table.objects (index x) = none := by
  by_cases hxh : x = h
  · subst hxh
    rcases ha.new with ⟨-, -, hnot, -, -⟩ | ⟨-, hnone⟩
    · exact absurd hx hnot
    · rw [ha.index_eq hs he]
      exact hnone
  · have hx' := (ha.reserved x hxh).1 hx
    rw [ha.objects _ (ha.other hs he (Or.inr hx')).2]
    exact hs.reserved x hx'

lemma object_live (j : ℕ) (o : Obj) (hj : j < s'.table.tableSize)
    (hobj : s'.table.objects j = some o) : ∃ x, s'.live x = some o ∧ index x = j := by
  by_cases hji : j = i
  · subst hji
    rcases ha.new with ⟨o', hlive, -, hobj', -⟩ | ⟨-, hnone⟩
    · obtain rfl : o' = o := Option.some.inj (hobj'.symm.trans hobj)
      exact ⟨h, hlive, ha.index_eq hs he⟩
    · rw [hnone] at hobj
      exact absurd hobj (by simp)
  · rw [ha.objects j hji] at hobj
    obtain ⟨x, hx, hxj⟩ := hs.object j o (ha.size ▸ hj) hobj
    refine ⟨x, ?_, hxj⟩
    rw [ha.live x (ha.other hs he (Or.inl (by simp [hx]))).1]
    exact hx

omit he in
/-- Ids are given out round robin. -/
lemma nextId_eq : s'.table.nextLinearId = s'.allocated.length % KHandleTable.MaxLinearId + 1 := by
  have hlen : s'.allocated.length = s.allocated.length + 1 := by
    rw [ha.allocated, length_append, length_singleton]
  rw [ha.nextId, hs.nextId, hlen]
  exact roundRobin_succ _

omit he in
lemma allocatedId_eq (k : ℕ) (x : Handle) (hx : s'.allocated[k]? = some x) :
    linearId x = k % KHandleTable.MaxLinearId + 1 := by
  rw [ha.allocated] at hx
  rw [getElem?_append] at hx
  split_ifs at hx with hk
  · exact hs.allocatedId k x hx
  · rw [getElem?_singleton] at hx
    split_ifs at hx with hlast
    obtain rfl : h = x := Option.some.inj hx
    rw [ha.linearId_eq hs, hs.nextId, show k = s.allocated.length by omega]

lemma inv : s'.Inv where
  size_le := ha.size ▸ hs.size_le
  head_bounds := ha.head ▸ getNextFreeIndex_bounds _
  entries := ⟨rest, ha.entries hs he⟩
  held := ha.held_fields hs he
  held_inj := ha.held_inj hs he
  live := ha.live_object hs he
  reserved := ha.reserved_object hs he
  object := ha.object_live hs he
  nextId := ha.nextId_eq hs
  allocatedId := ha.allocatedId_eq hs

end Allocates

/-! ## Taking an entry back -/

/-- What `Unreserve` and `Remove` have in common: the entry of `h` goes to the front of the free
list. -/
structure Releases (s s' : HandleState Obj) (h : Handle) : Prop where
  held : s.Held h
  table : s'.table = s.table.freeEntry (index h)
  allocated : s'.allocated = s.allocated
  live : ∀ x, s'.live x = if x = h then none else s.live x
  reserved : ∀ x, x ∈ s'.reserved ↔ x ∈ s.reserved ∧ x ≠ h

namespace Releases

variable {s' : HandleState Obj} {h : Handle} (hr : Releases s s' h) (hs : s.Inv)
include hr

lemma held_iff (x : Handle) : s'.Held x ↔ s.Held x ∧ x ≠ h := by
  rw [Held, Held, hr.live, hr.reserved]
  split_ifs with hx
  · simp [hx]
  · simp [hx]

include hs

lemma other {x : Handle} (hx : s'.Held x) : index x ≠ index h := by
  intro hindex
  obtain ⟨hx, hne⟩ := (hr.held_iff x).1 hx
  exact hne (hs.held_inj x h hx hr.held hindex)

lemma entries {free : List ℕ} (he : s.Entries free) : s'.Entries (index h :: free) := by
  have hnot : index h ∉ free := fun hmem => ((he.mem_iff _).1 hmem).2 h hr.held rfl
  have hnodup : (index h :: free).Nodup := nodup_cons.2 ⟨hnot, he.nodup⟩
  obtain ⟨hlt, -, -⟩ := hs.held h hr.held
  refine ⟨?_, hnodup, ?_, ?_⟩
  · rw [KHandleTable.FreeList, hr.table]
    refine ⟨toLink_natCast _, ?_⟩
    have hlink : link (s.table.freeEntry (index h)).entryInfos (index h) = toLink s.table.freeHeadIndex := by
      rw [link, freeEntry_entryInfos, if_pos rfl, getNextFreeIndex_ofInt hs.head_bounds.1 hs.head_bounds.2]
    rw [hlink]
    refine Chain.congr he.chain ?_
    intro j hj
    have hne : j ≠ index h := fun hji => hnot (hji ▸ hj)
    rw [link, freeEntry_entryInfos, if_neg hne, link]
  · intro j
    have hsize : s'.table.tableSize = s.table.tableSize := by
      rw [hr.table]
      rfl
    rw [mem_cons, he.mem_iff, hsize]
    constructor
    · rintro (rfl | ⟨hj, hfree⟩)
      · exact ⟨hlt, fun x hx => hr.other hs hx⟩
      · exact ⟨hj, fun x hx => hfree x ((hr.held_iff x).1 hx).1⟩
    · rintro ⟨hj, hfree⟩
      by_cases hjh : j = index h
      · exact Or.inl hjh
      · refine Or.inr ⟨hj, ?_⟩
        intro x hx hxj
        by_cases hxh : x = h
        · exact hjh (hxh ▸ hxj.symm)
        · exact hfree x ((hr.held_iff x).2 ⟨hx, hxh⟩) hxj
  · have hlen := he.length
    have hsub : index h :: free ⊆ range s.table.tableSize := by
      intro j hj
      rcases mem_cons.1 hj with rfl | hj
      · exact mem_range.2 hlt
      · exact mem_range.2 ((he.mem_iff j).1 hj).1
    have hle := (hnodup.subperm hsub).length_le
    rw [hr.table]
    simp only [length_cons, length_range, freeEntry] at *
    omega

lemma inv : s'.Inv := by
  obtain ⟨free, he⟩ := hs.entries
  have hobj : ∀ j, s'.table.objects j = if j = index h then none else s.table.objects j := by
    intro j
    rw [hr.table, freeEntry_objects]
  have hlive : ∀ x o, s'.live x = some o → s.live x = some o ∧ index x ≠ index h := by
    intro x o hx
    refine ⟨?_, hr.other hs (Or.inl (by simp [hx]))⟩
    rw [hr.live] at hx
    split_ifs at hx
    exact hx
  obtain ⟨hlt, -, -⟩ := hs.held h hr.held
  refine ⟨?_, ?_, ⟨_, hr.entries hs he⟩, ?_, ?_, ?_, ?_, ?_, ?_, ?_⟩
  · rw [hr.table]
    exact hs.size_le
  · have hle := hs.size_le
    rw [hr.table]
    simp only [freeEntry, KHandleTable.MaxTableSize] at *
    omega
  · intro x hx
    rw [hr.table]
    exact hs.held x ((hr.held_iff x).1 hx).1
  · intro x y hx hy
    exact hs.held_inj x y ((hr.held_iff x).1 hx).1 ((hr.held_iff y).1 hy).1
  · intro x o hx
    obtain ⟨hx', hne⟩ := hlive x o hx
    rw [hobj, if_neg hne, hr.table, freeEntry_entryInfos, if_neg hne]
    exact hs.live x o hx'
  · intro x hx
    have hne := hr.other hs (x := x) (Or.inr hx)
    rw [hobj, if_neg hne]
    exact hs.reserved x ((hr.reserved x).1 hx).1
  · intro j o hj ho
    rw [hobj] at ho
    split_ifs at ho with hjh
    obtain ⟨x, hx, hxj⟩ := hs.object j o (by rw [hr.table] at hj; exact hj) ho
    refine ⟨x, ?_, hxj⟩
    rw [hr.live, if_neg, hx]
    rintro rfl
    exact hjh hxj.symm
  · rw [hr.table, hr.allocated]
    exact hs.nextId
  · rw [hr.allocated]
    exact hs.allocatedId

end Releases

/-! ## Registering a reserved handle -/

variable {h : Handle}

lemma register_inv (hs : s.Inv) (hh : h ∈ s.reserved) (obj : Obj) : (s.exec (.register h obj)).Inv := by
  obtain ⟨free, he⟩ := hs.entries
  obtain ⟨hlt, hres, hid⟩ := hs.held h (Or.inr hh)
  have htable : (s.exec (.register h obj)).table
      = { s.table with
          entryInfos := update s.table.entryInfos (index h) (BitVec.ofNat 16 (linearId h))
          objects := update s.table.objects (index h) (some obj) } := by
    rw [exec, register, if_pos hlt]
  have hheld : ∀ x, (s.exec (.register h obj)).Held x ↔ s.Held x := by
    intro x
    by_cases hx : x = h
    · simp [Held, exec, hx, hh]
    · simp [Held, exec, hx]
  have hother : ∀ x, s.Held x → x ≠ h → index x ≠ index h := fun x hx hne hindex =>
    hne (hs.held_inj x h hx (Or.inr hh) hindex)
  have hnot : index h ∉ free := fun hmem => ((he.mem_iff _).1 hmem).2 h (Or.inr hh) rfl
  have hlid : getLinearId (BitVec.ofNat 16 (linearId h)) = linearId h := by
    rw [getLinearId, BitVec.toNat_ofNat, linearId]
    omega
  refine ⟨?_, ?_, ⟨free, ?_, he.nodup, ?_, ?_⟩, ?_, ?_, ?_, ?_, ?_, ?_, hs.allocatedId⟩
  · rw [htable]
    exact hs.size_le
  · rw [htable]
    exact hs.head_bounds
  · rw [KHandleTable.FreeList, htable]
    refine Chain.congr he.chain ?_
    intro j hj
    have hne : j ≠ index h := fun hji => hnot (hji ▸ hj)
    simp only [link, update_of_ne hne]
  · intro j
    simp only [hheld, htable]
    exact he.mem_iff j
  · rw [htable]
    exact he.length
  · intro x hx
    rw [htable]
    exact hs.held x ((hheld x).1 hx)
  · intro x y hx hy
    exact hs.held_inj x y ((hheld x).1 hx) ((hheld y).1 hy)
  · intro x o hx
    rw [htable]
    by_cases hxh : x = h
    · subst hxh
      obtain rfl : obj = o := by simpa [exec] using hx
      simp [hlid]
    · have hx' : s.live x = some o := by simpa [exec, hxh] using hx
      have hne := hother x (Or.inl (by simp [hx'])) hxh
      simp only [update_of_ne hne]
      exact hs.live x o hx'
  · intro x hx
    obtain ⟨hxh, hx'⟩ : x ≠ h ∧ x ∈ s.reserved := by simpa [exec] using hx
    rw [htable]
    simp only [update_of_ne (hother x (Or.inr hx') hxh)]
    exact hs.reserved x hx'
  · intro j o hj ho
    rw [htable] at hj ho
    by_cases hjh : j = index h
    · subst hjh
      obtain rfl : obj = o := by simpa using ho
      exact ⟨h, by simp [exec], rfl⟩
    · simp only [update_of_ne hjh] at ho
      obtain ⟨x, hx, hxj⟩ := hs.object j o hj ho
      have hxh : x ≠ h := by
        rintro rfl
        exact hjh hxj.symm
      exact ⟨x, by simpa [exec, hxh] using hx, hxj⟩
  · rw [htable]
    exact hs.nextId

/-! ## The step -/

/-- `Add` gives out the first free entry, unless the table is full. -/
lemma add_cases (hs : s.Inv) (obj : Obj) :
    s.exec (.add obj) = s ∨ ∃ i rest h, s.Entries (i :: rest) ∧ Allocates s (s.exec (.add obj)) i h := by
  obtain ⟨free, he⟩ := hs.entries
  by_cases hroom : s.table.count < s.table.tableSize
  · obtain ⟨i, rest, rfl, hhead⟩ := he.exists_head hroom
    set h := encodeHandle i s.table.nextLinearId with hh
    have hfresh : h ∉ s.reserved := by
      intro hmem
      have hlt := lt_of_lt_of_le ((he.mem_iff i).1 (by simp)).1 hs.size_le
      exact ((he.mem_iff i).1 (by simp)).2 h (Or.inr hmem) (index_encodeHandle hlt)
    have hid : linearId h = s.table.nextLinearId := by
      refine linearId_encodeHandle ?_
      rw [hs.nextId]
      exact Nat.mod_lt _ (by decide)
    have hadd := add_eq hroom hhead obj
    rw [← hh] at hadd
    have halloc : Allocates s (s.exec (.add obj)) i h := by
      simp only [exec, hadd]
      refine ⟨rfl, rfl, rfl, rfl, rfl, ?_, ?_, rfl, ?_, ?_, Or.inl (by simp), ?_⟩
      · intro j hj
        exact update_of_ne hj _ _
      · intro j hj
        exact update_of_ne hj _ _
      · intro x hx
        exact update_of_ne hx _ _
      · exact fun x _ => Iff.rfl
      · refine Or.inl ⟨obj, by simp, hfresh, by simp, ?_⟩
        rw [hid]
        simp only [update_self, getLinearId, BitVec.toNat_ofNat]
        have hlt : linearId h < 2 ^ 15 := Nat.mod_lt _ (by norm_num)
        omega
    exact Or.inr ⟨i, rest, h, he, halloc⟩
  · exact Or.inl (by simp only [exec, add, if_neg hroom])

/-- `Reserve` gives out the first free entry, unless the table is full. -/
lemma reserve_cases (hs : s.Inv) :
    s.exec .reserve = s ∨ ∃ i rest h, s.Entries (i :: rest) ∧ Allocates s (s.exec .reserve) i h := by
  obtain ⟨free, he⟩ := hs.entries
  by_cases hroom : s.table.count < s.table.tableSize
  · obtain ⟨i, rest, rfl, hhead⟩ := he.exists_head hroom
    have hi : s.table.freeHeadIndex.toNat = i := by rw [hhead, Int.toNat_natCast]
    set h := encodeHandle i s.table.nextLinearId with hh
    have hfresh : s.live h = none := by
      have hlt := lt_of_lt_of_le ((he.mem_iff i).1 (by simp)).1 hs.size_le
      by_contra hne
      refine ((he.mem_iff i).1 (by simp)).2 h (Or.inl ?_) (index_encodeHandle hlt)
      exact Option.isSome_iff_ne_none.2 hne
    have hreserve : s.table.reserve = (some h,
        { s.table with
          freeHeadIndex := getNextFreeIndex (s.table.entryInfos i)
          count := s.table.count + 1
          maxCount := max s.table.maxCount (s.table.count + 1)
          nextLinearId := s.table.allocateLinearId.2.nextLinearId }) := by
      simp only [reserve, allocateLinearId, allocateEntry, hi, if_pos hroom, hh]
    have halloc : Allocates s (s.exec .reserve) i h := by
      simp only [exec, hreserve]
      refine ⟨rfl, rfl, rfl, rfl, rfl, fun _ _ => rfl, fun _ _ => rfl, rfl, fun _ _ => rfl, ?_,
        Or.inr (Finset.mem_insert_self _ _), Or.inr ⟨hfresh, hs.object_of_free he (by simp)⟩⟩
      intro x hx
      simp [hx]
    exact Or.inr ⟨i, rest, h, he, halloc⟩
  · exact Or.inl (by simp only [exec, reserve, if_neg hroom])

lemma Inv.not_reserved (hs : s.Inv) {o : Obj} (ho : s.live h = some o) : h ∉ s.reserved := by
  intro hmem
  have hobj := (hs.live h o ho).1
  rw [hs.reserved h hmem] at hobj
  exact absurd hobj (by simp)

lemma unreserve_inv (hs : s.Inv) (hh : h ∈ s.reserved) : (s.exec (.unreserve h)).Inv := by
  obtain ⟨hlt, -, -⟩ := hs.held h (Or.inr hh)
  have hdead : s.live h = none := by
    by_contra hne
    obtain ⟨o, ho⟩ := Option.ne_none_iff_exists'.1 hne
    exact hs.not_reserved ho hh
  refine Releases.inv (h := h) ⟨Or.inr hh, ?_, rfl, ?_, ?_⟩ hs
  · simp only [exec, unreserve, if_pos hlt]
  · intro x
    simp only [exec]
    split_ifs with hx
    · rw [hx, hdead]
    · rfl
  · intro x
    simp only [exec, Finset.mem_erase]
    exact and_comm

lemma remove_inv (hs : s.Inv) (h : Handle) : (s.exec (.remove h)).Inv := by
  have hremove := s.table.remove_eq h
  split_ifs at hremove with hvalid
  · have hlive : ∃ o, s.live h = some o := by
      obtain ⟨-, hres, hval⟩ := hvalid
      rw [← hs.getObject_eq h, getObject, if_neg (not_not.2 hres), if_pos hval]
      rw [isValidHandle] at hval
      split_ifs at hval with _ _ _ hobj _
      exact Option.isSome_iff_exists.1 (by simpa [Option.isSome_iff_ne_none] using hobj)
    obtain ⟨o, ho⟩ := hlive
    refine Releases.inv (h := h) ⟨Or.inl (by simp [ho]), ?_, ?_, ?_, ?_⟩ hs
    · simp only [exec, hremove]
    · simp only [exec, hremove]
    · intro x
      simp only [exec, hremove, update_apply]
    · intro x
      simp only [exec, hremove]
      refine ⟨fun hx => ⟨hx, ?_⟩, fun hx => hx.1⟩
      rintro rfl
      exact hs.not_reserved ho hx
  · have hsame : s.exec (.remove h) = s := by
      simp only [exec, hremove]
    rwa [hsame]

variable {op : HandleOp Obj}

lemma exec_inv (hs : s.Inv) (hop : s.Admissible op) : (s.exec op).Inv := by
  cases op with
  | add obj =>
    rcases add_cases hs obj with hfull | ⟨i, rest, h, he, halloc⟩
    · rwa [hfull]
    · exact halloc.inv hs he
  | reserve =>
    rcases reserve_cases hs with hfull | ⟨i, rest, h, he, halloc⟩
    · rwa [hfull]
    · exact halloc.inv hs he
  | register h obj => exact register_inv hs hop obj
  | unreserve h => exact unreserve_inv hs hop
  | remove h => exact remove_inv hs h

/-- A registered handle keeps its object under every operation but its own removal. -/
lemma live_exec (hs : s.Inv) (hop : s.Admissible op)
    {o : Obj} (ho : s.live h = some o) (hne : ∀ h', op = .remove h' → h' ≠ h) :
    (s.exec op).live h = some o := by
  have hheld : s.Held h := Or.inl (by simp [ho])
  cases op with
  | add obj =>
    rcases add_cases hs obj with hfull | ⟨i, rest, h', he, halloc⟩
    · rwa [hfull]
    · rwa [halloc.live h (halloc.other hs he hheld).1]
  | reserve =>
    rcases reserve_cases hs with hfull | ⟨i, rest, h', he, halloc⟩
    · rwa [hfull]
    · rwa [halloc.live h (halloc.other hs he hheld).1]
  | register h' obj =>
    have hh : h ≠ h' := by
      rintro rfl
      exact hs.not_reserved ho hop
    simpa [exec, hh] using ho
  | unreserve h' => exact ho
  | remove h' =>
    have hh : h ≠ h' := (hne h' rfl).symm
    simp only [exec]
    split
    · simpa [hh] using ho
    · exact ho

/-! ## Runs -/

lemma freeAllEntries_spec (t : KHandleTable Obj) (hhead : t.freeHeadIndex = -1)
    (hobj : ∀ i, t.objects i = none) {n : ℕ} (hn : n ≤ KHandleTable.MaxTableSize) :
    (t.freeAllEntries n).freeHeadIndex = (n : ℤ) - 1 ∧ (t.freeAllEntries n).FreeList (range n).reverse ∧
      (∀ i, (t.freeAllEntries n).objects i = none) ∧
      (t.freeAllEntries n).tableSize = t.tableSize ∧ (t.freeAllEntries n).count = t.count ∧
      (t.freeAllEntries n).nextLinearId = t.nextLinearId := by
  induction n with
  | zero =>
    refine ⟨by simpa [freeAllEntries] using hhead, ?_, hobj, rfl, rfl, rfl⟩
    rw [KHandleTable.FreeList, freeAllEntries, hhead]
    rfl
  | succ n ih =>
    obtain ⟨ihead, ichain, iobj, isize, icount, iid⟩ := ih (by omega)
    refine ⟨?_, ?_, ?_, isize, icount, iid⟩
    · simp [freeAllEntries]
    · rw [range_succ, reverse_append]
      refine ⟨by simp [freeAllEntries, toLink_natCast], ?_⟩
      have hlink : link (t.freeAllEntries (n + 1)).entryInfos n = toLink (t.freeAllEntries n).freeHeadIndex := by
        simp only [KHandleTable.MaxTableSize] at hn
        simp only [link, freeAllEntries, update_self, ihead]
        rw [getNextFreeIndex_ofInt (by omega) (by omega)]
      rw [hlink]
      refine Chain.congr ichain ?_
      intro j hj
      have hne : j ≠ n := by
        have := mem_range.1 (mem_reverse.1 hj)
        omega
      simp only [link, freeAllEntries, update_of_ne hne]
    · intro i
      simp only [freeAllEntries, update_apply, iobj, ite_self]

variable {t : KHandleTable Obj}

variable {size : ℤ}

lemma initializeTable_eq (ht : initializeTable size = some t) :
    ∃ n ≤ KHandleTable.MaxTableSize, t = (emptyTable n).freeAllEntries n := by
  by_cases hle : size ≤ KHandleTable.MaxTableSize
  · by_cases hpos : size ≤ 0
    · simp only [initializeTable, hle, hpos, if_true, Option.some.injEq] at ht
      exact ⟨_, le_rfl, ht.symm⟩
    · simp only [initializeTable, hle, hpos, if_true, if_false, Option.some.injEq] at ht
      exact ⟨_, by omega, ht.symm⟩
  · simp [initializeTable, hle] at ht

lemma start_inv (ht : initializeTable size = some t) : (start t).Inv := by
  obtain ⟨n, hn, rfl⟩ := initializeTable_eq ht
  obtain ⟨hhead, hchain, hobj, hsize, hcount, hid⟩ :=
    freeAllEntries_spec (emptyTable n : KHandleTable Obj) rfl (fun _ => rfl) hn
  generalize (emptyTable n : KHandleTable Obj).freeAllEntries n = t at *
  have hsize' : t.tableSize = n := hsize
  have hnone : ∀ h, ¬ (start t).Held h := by
    intro h
    simp [Held, start]
  refine ⟨?_, ?_, ⟨_, hchain, ?_, ?_, ?_⟩, ?_, ?_, ?_, ?_, ?_, ?_, ?_⟩
  · exact hsize'.le.trans hn
  · simp only [KHandleTable.MaxTableSize] at hn
    simp only [start, hhead]
    omega
  · exact nodup_reverse.2 nodup_range
  · intro i
    simp only [mem_reverse, mem_range, start, hsize']
    refine ⟨fun hi => ⟨hi, fun h hh => absurd hh (hnone h)⟩, fun hi => hi.1⟩
  · simp only [length_reverse, length_range, start, hcount, hsize']
    rfl
  · exact fun h hh => absurd hh (hnone h)
  · exact fun h _ hh => absurd hh (hnone h)
  · intro h o hh
    simp [start] at hh
  · intro h hh
    simp [start] at hh
  · intro i o _ ho
    rw [start, hobj] at ho
    exact absurd ho (by simp)
  · exact hid
  · intro k h hk
    simp [start] at hk

lemma run_inv (ht : initializeTable size = some t) (hrun : Relation.ReflTransGen Step (start t) s) : s.Inv := by
  induction hrun with
  | refl => exact start_inv ht
  | tail _ hstep ih =>
    obtain ⟨op, hop, rfl⟩ := hstep
    exact exec_inv ih hop

/-- **The handle table is sound.**  In every state of a run from `Initialize`:

* the free list is a simple list over exactly the entries that no registered or reserved handle
  has, as long as the table has room;
* a handle resolves to the object it is registered with, and to nothing if it was never registered
  or has been removed; only its own removal takes the object away;
* one handle value is given out twice only with at least 0x7FFF linear ids from one time to the
  other. -/
theorem handleTable_sound {size : ℤ} {t : KHandleTable Obj} (ht : initializeTable size = some t) {s : HandleState Obj}
    (hrun : Relation.ReflTransGen Step (start t) s) :
    (∃ free, s.table.FreeList free ∧ free.Nodup ∧ (∀ i, i ∈ free ↔ i < s.table.tableSize ∧ ∀ h, s.Held h → index h ≠ i) ∧
      free.length = s.table.tableSize - s.table.count ∧ s.table.count ≤ s.table.tableSize) ∧
    (∀ h, s.table.getObject h = s.live h) ∧
    (∀ op h o, s.Admissible op → (∀ h', op = .remove h' → h' ≠ h) → s.live h = some o → (s.exec op).live h = some o) ∧
    ∀ k k' h, k < k' → s.allocated[k]? = some h → s.allocated[k']? = some h → k + 0x7FFF ≤ k' := by
  have hs := run_inv ht hrun
  obtain ⟨free, he⟩ := hs.entries
  have hlen := he.length
  refine ⟨⟨free, he.chain, he.nodup, he.mem_iff, by omega, by omega⟩, hs.getObject_eq,
    fun op h o hop hne ho => live_exec hs hop ho hne, ?_⟩
  intro k k' h hkk hk hk'
  have hid := (hs.allocatedId k h hk).symm.trans (hs.allocatedId k' h hk')
  simp only [KHandleTable.MaxLinearId] at hid
  omega

/-- A table of two entries with one object added. -/
theorem handleTable_sound_two_entries :
    ∃ t : KHandleTable ℕ, initializeTable 2 = some t ∧ Relation.ReflTransGen Step (start t) ((start t).exec (.add 7)) ∧
      ((start t).exec (.add 7)).live (encodeHandle 1 1) = some 7 ∧
      ((start t).exec (.add 7)).table.getObject (encodeHandle 1 1) = some 7 := by
  have hrun : ∀ t : KHandleTable ℕ, Relation.ReflTransGen Step (start t) ((start t).exec (.add 7)) := fun t =>
    Relation.ReflTransGen.single ⟨.add 7, trivial, rfl⟩
  have hinit : initializeTable 2 = some ((emptyTable 2 : KHandleTable ℕ).freeAllEntries 2) := rfl
  refine ⟨_, hinit, hrun _, rfl, ?_⟩
  rw [(handleTable_sound hinit (hrun _)).2.1]
  rfl

/-! ## The distance is counted from the allocation

With handle `(1, 1)` registered, every other entry taken and given back moves the next linear id on;
after 0x7FFE of them it is 1 again.
-/

/-- Entry 1 of 2 is in use under id 1, entry 0 is free, and the next linear id is that of
allocation `k`. -/
structure OneInUse (k : ℕ) (t : KHandleTable ℕ) : Prop where
  size : t.tableSize = 2
  count : t.count = 1
  head : t.freeHeadIndex = 0
  last : getNextFreeIndex (t.entryInfos 0) = -1
  info : getLinearId (t.entryInfos 1) = 1
  object : t.objects 1 = some 0
  nextId : t.nextLinearId = k % KHandleTable.MaxLinearId + 1

lemma OneInUse.add_freeEntry {k : ℕ} {t : KHandleTable ℕ} (h : OneInUse k t) : OneInUse (k + 1) ((t.add 1).2.freeEntry 0) := by
  obtain ⟨hsize, hcount, hhead, hlast, hinfo, hobj, hid⟩ := h
  rw [add_eq (by rw [hsize, hcount]; norm_num) hhead 1]
  refine ⟨hsize, ?_, rfl, ?_, ?_, ?_, ?_⟩
  · simp [freeEntry, hcount]
  · rw [freeEntry_entryInfos, if_pos rfl]
    simp only [hlast]
    rfl
  · simp [freeEntry_entryInfos, hinfo]
  · simp [freeEntry_objects, hobj]
  · simp only [freeEntry, allocateLinearId, hid]
    exact roundRobin_succ k

lemma exec_add_table {obj : Obj} : (s.exec (.add obj)).table = (s.table.add obj).2 := by
  rw [exec]
  split <;> simp_all

lemma exec_remove_table {h : Handle} : (s.exec (.remove h)).table = (s.table.remove h).2 := by
  rw [exec]
  split <;> simp_all

/-- `Add`, and `Remove` of what it returned. -/
lemma OneInUse.fill {k : ℕ} {s : HandleState ℕ} (h : OneInUse k s.table) :
    ∃ s', Relation.ReflTransGen Step s s' ∧ OneInUse (k + 1) s'.table := by
  have hnext := h.add_freeEntry
  have hid := h.nextId
  have hle : s.table.nextLinearId ≤ KHandleTable.MaxLinearId := by
    rw [hid]
    exact Nat.mod_lt _ (by decide)
  have hpos : 0 < s.table.nextLinearId := by
    rw [hid]
    exact Nat.succ_pos _
  have hadd := add_eq (by rw [h.size, h.count]; norm_num) h.head 1
  have hback : getLinearId (BitVec.ofNat 16 s.table.nextLinearId) = s.table.nextLinearId := by
    rw [getLinearId, BitVec.toNat_ofNat]
    simp only [KHandleTable.MaxLinearId] at hle
    omega
  have hremove := (remove_encodeHandle (t := (s.table.add 1).2) (i := 0) (o := 1)
    (by rw [hadd]; simp [h.size]) (by rw [hadd]; simp [h.size, KHandleTable.MaxTableSize]) hpos hle
    (by rw [hadd]; simp) (by rw [hadd]; simpa using hback)).2
  refine ⟨(exec (exec s (.add 1)) (.remove (encodeHandle 0 s.table.nextLinearId))), ?_, ?_⟩
  · exact (Relation.ReflTransGen.single ⟨.add 1, trivial, rfl⟩).tail
      ⟨.remove (encodeHandle 0 s.table.nextLinearId), trivial, rfl⟩
  · have htable : (exec (exec s (.add 1)) (.remove (encodeHandle 0 s.table.nextLinearId))).table = (s.table.add 1).2.freeEntry 0 := by
      rw [exec_remove_table, exec_add_table, hremove]
    rw [htable]
    exact hnext

lemma OneInUse.fill_many (n : ℕ) {k : ℕ} {s : HandleState ℕ} (h : OneInUse k s.table) :
    ∃ s', Relation.ReflTransGen Step s s' ∧ OneInUse (k + n) s'.table := by
  induction n with
  | zero => exact ⟨s, .refl, h⟩
  | succ n ih =>
    obtain ⟨s1, hrun, h₁⟩ := ih
    obtain ⟨s2, hrun', h₂⟩ := h₁.fill
    exact ⟨s2, hrun.trans hrun', h₂⟩

/-- **A stale handle can come back at once.**  After 0x7FFE allocations elsewhere, removing a handle
and adding one object makes the removed handle resolve to the new object: one linear id after the
removal. -/
theorem stale_handle_resolves_again :
    ∃ (t : KHandleTable ℕ) (s : HandleState ℕ) (h : Handle),
      initializeTable 2 = some t ∧ Relation.ReflTransGen Step (start t) s ∧
      s.table.getObject h = some 0 ∧
      (s.table.remove h).1 = true ∧
      (s.exec (.remove h)).table.getObject h = none ∧
      ((s.exec (.remove h)).exec (.add 1)).allocated.length = (s.exec (.remove h)).allocated.length + 1 ∧
      ((s.exec (.remove h)).exec (.add 1)).table.getObject h = some 1 := by
  have hfirst : OneInUse 1 ((start ((emptyTable 2 : KHandleTable ℕ).freeAllEntries 2)).exec (.add 0)).table := by
    constructor <;> rfl
  obtain ⟨s, hrun, h⟩ := hfirst.fill_many 0x7FFE
  refine ⟨_, s, encodeHandle 1 1, rfl, (Relation.ReflTransGen.single ⟨.add 0, trivial, rfl⟩).trans hrun, ?_⟩
  obtain ⟨t, live, res, alloc⟩ := s
  obtain ⟨hsize, hcount, hhead, hlast, hinfo, hobj, hid⟩ := h
  simp only at hsize hcount hhead hlast hinfo hobj hid
  obtain ⟨hget, hremove⟩ := remove_encodeHandle (t := t) (i := 1) (o := 0)
    (by omega) (by rw [hsize]; decide) one_pos (by decide) hobj hinfo
  have hone : t.nextLinearId = 1 := hid
  -- the entry just freed is the first one given out again, and under the same id
  have hadd := add_eq (t := t.freeEntry 1) (i := 1) (by simp [freeEntry, hsize, hcount]) rfl 1
  have hid' : (t.freeEntry 1).nextLinearId = 1 := hone
  rw [hid'] at hadd
  have hagain := (remove_encodeHandle (t := ((t.freeEntry 1).add 1).2) (i := 1)
    (l := 1) (o := 1) (by rw [hadd]; simp [freeEntry, hsize])
    (by rw [hadd]; simp [freeEntry, hsize, KHandleTable.MaxTableSize]) one_pos
    (by decide) (by rw [hadd]; simp) (by rw [hadd]; simp [getLinearId])).1
  refine ⟨hget, by rw [hremove], ?_, ?_, ?_⟩
  · simp only [exec, hremove]
    rw [getObject]
    split_ifs
    · rfl
    · rw [index_encodeHandle (by decide), freeEntry_objects, if_pos rfl]
    · rfl
  · simp only [exec, hremove, hadd, length_append, length_singleton]
  · simp only [exec, hremove, hadd]
    rwa [hadd] at hagain

end HandleState

end Voltemu.Kernel
