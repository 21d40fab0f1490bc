import Voltemu.Nvdrv.NvhostAsGpu
import Mathlib.Tactic

/-!
# The bookkeeping of the GPU address space

Five containers describe the same mappings.  `Consistent` says that they agree: `map_buffer_offsets` are the keys of
`mapping_map`, allocations record keys of it, the pages that are taken are those of the live allocations and of the live
mappings that are not fixed, and pins count mappings.

* The calls do not keep it.  `UnmapBuffer` leaves a fixed mapping recorded in its allocation and gives back too few
  pages, `FreeSpace` leaves offsets behind, and `MapBufferEx` pins before it fails.
* `Meets` is the condition under which a call keeps it.
* `Inv` is the invariant: besides, the allocators hold the live pages, and a fixed mapping lies in the allocation that
  records it.
* `Inv.fresh`: the address of a page that was free is no key of the maps.
-/

namespace Voltemu.Nvdrv

open Voltemu.Common AddressSpace FlatAllocator List

/-! ## The property -/

/-- The pages of an allocation, if they are of this size. -/
def allocationRegion (vm : Vm) (big : Bool) (e : Σ _ : ℕ, Allocation) : Option (ℕ × ℕ) :=
  if decide (e.2.pageSize ≠ yuzuPageSize) = big then
    some (e.1 >>> vm.pageBits big, e.2.size >>> vm.pageBits big)
  else none

/-- The pages of a mapping that is not fixed, if they are of this size.  A page that is used in part counts. -/
def mappingRegion (vm : Vm) (big : Bool) (e : Σ _ : ℕ, Mapping) : Option (ℕ × ℕ) :=
  if e.2.fixed = false ∧ e.2.bigPage = big then
    some (e.1 >>> vm.pageBits big, (e.2.size + 2 ^ vm.pageBits big - 1) / 2 ^ vm.pageBits big)
  else none

/-- The pages of the live allocations and mappings. -/
def live (vm : Vm) (s : AsGpu) (big : Bool) : List (ℕ × ℕ) :=
  s.allocationMap.entries.filterMap (allocationRegion vm big) ++ s.mappingMap.entries.filterMap (mappingRegion vm big)

def Taken (vm : Vm) (s : AsGpu) (big : Bool) (page : ℕ) : Prop :=
  (vm.allocator big).base.translate (s.pageAllocator big).blocks page ≠ none

instance (vm : Vm) (s : AsGpu) (big : Bool) (page : ℕ) : Decidable (Taken vm s big page) :=
  inferInstanceAs (Decidable (_ ≠ _))

/-- **The containers agree.** -/
structure Consistent (vm : Vm) (s : AsGpu) : Prop where
  offsets : ∀ offset, offset ∈ s.mapBufferOffsets ↔ offset ∈ s.mappingMap
  recorded : ∀ base allocation, s.allocationMap.lookup base = some allocation →
    ∀ offset ∈ allocation.mappings, offset ∈ s.mappingMap
  pages : ∀ big page, Taken vm s big page ↔ ∃ r ∈ live vm s big, InRegion r page
  pins : ∀ handle, s.pins handle = s.mappingMap.entries.countP fun e => e.2.handle = handle

/-! ## The condition -/

/-- The values of a call have the source's types. -/
def Ioctl.WellTyped : Ioctl → Prop
  | .allocateSpace pages _ _ _ _ => pages < 2 ^ 32
  | .mapBufferEx _ mappingSize offset _ _ => mappingSize < 2 ^ 64 ∧ offset < 2 ^ 64
  | .unmapBuffer _ => True
  | .freeSpace _ _ _ => True

/-- The range of pages is within the allocator's and none of them is taken. -/
def FreePages (vm : Vm) (s : AsGpu) (big : Bool) (page pages : ℕ) : Prop :=
  (vm.allocator big).virtStart ≤ page ∧ page + pages ≤ (vm.allocator big).vaLimit ∧
    ∀ p, InRegion (page, pages) p → ¬ Taken vm s big p

/-- **The condition.**

* `AllocateSpace` of at least one page.  A fixed one is at a multiple of the page size, over free pages; for another
  one the allocator's condition holds.
* `MapBufferEx`, when it is no remap and finds the handle.  A fixed mapping lies in an allocation and its offset is
  not mapped.  For another one the number of pages fits in 32 bits, the allocator's condition holds, and there is
  room.
* `UnmapBuffer` of a mapping that is not fixed and whose size is a multiple of the page size, with the allocator's
  condition.
* `FreeSpace`, when it finds the allocation, of one without mappings, with the allocator's condition. -/
def Meets (vm : Vm) (nvmap : ℕ → Option HandleInfo) (s : AsGpu) : Ioctl → Prop
  | .allocateSpace pages pageSize offset fixed sparse =>
      (pageSize = yuzuPageSize ∨ pageSize = vm.bigPageSize) → (pageSize ≠ vm.bigPageSize → sparse = false) →
        let big := decide (pageSize ≠ yuzuPageSize)
        0 < pages ∧
          if fixed then
            offset % 2 ^ vm.pageBits big = 0 ∧ FreePages vm s big (offset >>> vm.pageBits big) pages
          else (vm.allocator big).AllocateMeets (s.pageAllocator big) pages
  | .mapBufferEx handle mappingSize offset fixed remap =>
      remap = false → ∀ info, nvmap handle = some info →
        let size := if mappingSize ≠ 0 then mappingSize else info.origSize
        if fixed then
          offset ∉ s.mappingMap ∧ ∃ base allocation,
            predecessor offset s.allocationMap.entries = some ⟨base, allocation⟩ ∧ offset - base + size ≤ allocation.size
        else
          let big := decide (info.align % vm.bigPageSize = 0)
          let pages := (size + 2 ^ vm.pageBits big - 1) / 2 ^ vm.pageBits big
          pages < 2 ^ 32 ∧ (vm.allocator big).AllocateMeets (s.pageAllocator big) pages ∧
            ∃ g, (vm.allocator big).Gap (s.pageAllocator big) g pages
  | .unmapBuffer offset =>
      ∀ mapping, s.mappingMap.lookup offset = some mapping →
        mapping.fixed = false ∧ mapping.size % 2 ^ vm.pageBits mapping.bigPage = 0 ∧
          (vm.allocator mapping.bigPage).FreeMeets (s.pageAllocator mapping.bigPage)
            (offset >>> vm.pageBits mapping.bigPage) (mapping.size >>> vm.pageBits mapping.bigPage)
  | .freeSpace offset pages pageSize =>
      ∀ allocation, s.allocationMap.lookup offset = some allocation → allocation.pageSize = pageSize →
        allocation.size = pages * pageSize →
        allocation.mappings = [] ∧
          (vm.allocator (decide (pageSize ≠ yuzuPageSize))).FreeMeets (s.pageAllocator (decide (pageSize ≠ yuzuPageSize)))
            (offset >>> vm.pageBits (decide (pageSize ≠ yuzuPageSize))) pages

/-- The ranges that `AllocAsEx` has set up: small pages below the split and big pages above it, a split at a multiple of
the big page size, and page numbers of 32 bits. -/
structure Vm.Sound (vm : Vm) : Prop where
  start_pos : 2 ^ pageSizeBits ≤ vm.vaRangeStart
  start_le : vm.vaRangeStart ≤ vm.vaRangeSplit
  split_lt : vm.vaRangeSplit < 2 ^ 44
  split_aligned : vm.vaRangeSplit % vm.bigPageSize = 0
  end_le : vm.vaRangeSplit >>> vm.bigPageSizeBits ≤ (vm.allocator true).vaLimit

inductive Run (vm : Vm) (nvmap : ℕ → Option HandleInfo) : AsGpu → Prop
  | start : Run vm nvmap (AsGpu.initial vm)
  | call {s s' : AsGpu} {a : Ioctl} {result : NvResult} (run : Run vm nvmap s) (typed : a.WellTyped)
      (meets : Meets vm nvmap s a) (exec : ioctl vm nvmap s a = .ok (result, s')) : Run vm nvmap s'

/-! ## The ranges of the allocators -/

namespace Vm

variable {vm : Vm}

lemma pageBits_pos (vm : Vm) (big : Bool) : 0 < 2 ^ vm.pageBits big := by positivity

lemma Sound.virtStart_pos (h : vm.Sound) (big : Bool) : 0 < (vm.allocator big).virtStart := by
  have hstart := h.start_pos
  have hle := h.start_le
  have hlt := h.split_lt
  have haligned := h.split_aligned
  cases big with
  | false =>
    simp only [allocator, Bool.false_eq_true, if_false, Nat.shiftRight_eq_div_pow, pageSizeBits] at hstart ⊢
    omega
  | true =>
    simp only [allocator, if_true, Nat.shiftRight_eq_div_pow, pageSizeBits, bigPageSize] at hstart haligned ⊢
    rcases vm.supported with hbits | hbits <;> rw [hbits] at haligned ⊢ <;> omega

lemma Sound.virtStart_le (h : vm.Sound) (big : Bool) : (vm.allocator big).virtStart ≤ (vm.allocator big).vaLimit := by
  have hle := h.start_le
  have hlt := h.split_lt
  cases big with
  | false =>
    simp only [allocator, Bool.false_eq_true, if_false, Nat.shiftRight_eq_div_pow, pageSizeBits]
    omega
  | true => exact (Nat.mod_le _ _).trans h.end_le

lemma Sound.address_split (h : vm.Sound) {big : Bool} {a : ℕ}
    (hstart : (vm.allocator big).virtStart ≤ a >>> vm.pageBits big)
    (hlimit : a >>> vm.pageBits big < (vm.allocator big).vaLimit) :
    if big then vm.vaRangeSplit ≤ a else a < vm.vaRangeSplit := by
  have hlt := h.split_lt
  have haligned := h.split_aligned
  cases big with
  | false =>
    simp only [allocator, pageBits, Bool.false_eq_true, if_false, Nat.shiftRight_eq_div_pow, pageSizeBits] at hlimit ⊢
    omega
  | true =>
    simp only [allocator, pageBits, if_true, Nat.shiftRight_eq_div_pow, bigPageSize] at hstart haligned ⊢
    rcases vm.supported with hbits | hbits <;> rw [hbits] at haligned hstart <;> omega

end Vm

/-! ## Entries of the maps -/

section

variable {β : Type} {m : AList fun _ : ℕ => β} {k : ℕ} {v : β}

lemma mem_of_lookup (h : m.lookup k = some v) : k ∈ m := AList.lookup_isSome.1 (by rw [h]; rfl)

lemma mem_entries_iff : (⟨k, v⟩ : Σ _ : ℕ, β) ∈ m.entries ↔ m.lookup k = some v := AList.mem_lookup_iff.symm

lemma entries_perm (h : m.lookup k = some v) : m.entries.Perm (⟨k, v⟩ :: (m.erase k).entries) := by
  obtain ⟨b, l₁, l₂, -, hentries, herase⟩ := exists_of_kerase (AList.mem_keys.1 (mem_of_lookup h))
  have hmem : (⟨k, b⟩ : Σ _ : ℕ, β) ∈ m.entries := by
    rw [hentries]
    simp
  obtain rfl : b = v := Option.some.inj ((mem_entries_iff.1 hmem).symm.trans h)
  change m.entries.Perm (_ :: List.kerase k m.entries)
  rw [herase, hentries]
  exact perm_middle

lemma predecessor_mem {α : Type} {key : ℕ} {l : List (Σ _ : ℕ, α)} {e : Σ _ : ℕ, α} (h : predecessor key l = some e) :
    e ∈ l ∧ e.1 ≤ key := by
  induction l generalizing e with
  | nil => cases h
  | cons e' l ih =>
    rw [predecessor] at h
    cases hl : predecessor key l with
    | none =>
      rw [hl] at h
      simp only at h
      split_ifs at h with hle
      obtain rfl := Option.some.inj h
      exact ⟨mem_cons_self, hle⟩
    | some e'' =>
      obtain ⟨hmem, hle⟩ := ih hl
      rw [hl] at h
      simp only at h
      split_ifs at h with hc
      · obtain rfl := Option.some.inj h
        exact ⟨mem_cons_self, hc.1⟩
      · obtain rfl := Option.some.inj h
        exact ⟨mem_cons_of_mem _ hmem, hle⟩

end

/-! ## The live pages -/

section

variable {vm : Vm} {s s' : AsGpu} {big : Bool}

@[simp] lemma pageAllocator_setPageAllocator (s : AsGpu) (big big' : Bool) (a : AllocatorState) :
    (s.setPageAllocator big a).pageAllocator big' = if big' = big then a else s.pageAllocator big' := by
  cases big <;> cases big' <;> rfl

@[simp] lemma setPageAllocator_self (s : AsGpu) (big : Bool) : s.setPageAllocator big (s.pageAllocator big) = s := by
  cases big <;> rfl

@[simp] lemma setPageAllocator_mappingMap (s : AsGpu) (big : Bool) (a : AllocatorState) :
    (s.setPageAllocator big a).mappingMap = s.mappingMap := by
  cases big <;> rfl

@[simp] lemma setPageAllocator_allocationMap (s : AsGpu) (big : Bool) (a : AllocatorState) :
    (s.setPageAllocator big a).allocationMap = s.allocationMap := by
  cases big <;> rfl

@[simp] lemma setPageAllocator_mapBufferOffsets (s : AsGpu) (big : Bool) (a : AllocatorState) :
    (s.setPageAllocator big a).mapBufferOffsets = s.mapBufferOffsets := by
  cases big <;> rfl

@[simp] lemma setPageAllocator_pins (s : AsGpu) (big : Bool) (a : AllocatorState) :
    (s.setPageAllocator big a).pins = s.pins := by
  cases big <;> rfl

variable {a : Allocation} {offset : ℕ}

variable {base : ℕ}

lemma allocationRegion_mem (h : s.allocationMap.lookup base = some a) :
    (base >>> vm.pageBits (decide (a.pageSize ≠ yuzuPageSize)),
      a.size >>> vm.pageBits (decide (a.pageSize ≠ yuzuPageSize))) ∈ live vm s (decide (a.pageSize ≠ yuzuPageSize)) := by
  refine mem_append_left _ (mem_filterMap.2 ⟨⟨base, a⟩, mem_entries_iff.2 h, ?_⟩)
  rw [allocationRegion, if_pos rfl]

variable {m : Mapping}

lemma mappingRegion_mem (h : s.mappingMap.lookup offset = some m) (hfixed : m.fixed = false) :
    (offset >>> vm.pageBits m.bigPage, (m.size + 2 ^ vm.pageBits m.bigPage - 1) / 2 ^ vm.pageBits m.bigPage) ∈
        live vm s m.bigPage := by
  refine mem_append_right _ (mem_filterMap.2 ⟨⟨offset, m⟩, mem_entries_iff.2 h, ?_⟩)
  rw [mappingRegion, if_pos ⟨hfixed, rfl⟩]

lemma live_insertAllocation (hfresh : base ∉ s.allocationMap)
    (ha : s'.allocationMap = s.allocationMap.insert base a) (hm : s'.mappingMap = s.mappingMap) (b : Bool) :
    (live vm s' b).Perm (if b = decide (a.pageSize ≠ yuzuPageSize) then
      (base >>> vm.pageBits b, a.size >>> vm.pageBits b) :: live vm s b else live vm s b) := by
  rw [live, ha, hm, AList.entries_insert_of_notMem hfresh, filterMap_cons, allocationRegion]
  by_cases hb : b = decide (a.pageSize ≠ yuzuPageSize)
  · rw [if_pos hb.symm, if_pos hb]
    rfl
  · rw [if_neg (Ne.symm hb), if_neg hb]
    rfl

lemma live_insertMapping (hfresh : offset ∉ s.mappingMap) (hfixed : m.fixed = false)
    (ha : s'.allocationMap = s.allocationMap) (hm : s'.mappingMap = s.mappingMap.insert offset m) (b : Bool) :
    (live vm s' b).Perm (if b = m.bigPage then
      (offset >>> vm.pageBits b, (m.size + 2 ^ vm.pageBits b - 1) / 2 ^ vm.pageBits b) :: live vm s b
        else live vm s b) := by
  rw [live, ha, hm, AList.entries_insert_of_notMem hfresh, filterMap_cons, mappingRegion]
  by_cases hb : b = m.bigPage
  · rw [if_pos ⟨hfixed, hb.symm⟩, if_pos hb]
    exact perm_middle
  · rw [if_neg fun h => hb h.2.symm, if_neg hb]
    rfl

lemma live_eraseAllocation (h : s.allocationMap.lookup base = some a)
    (ha : s'.allocationMap = s.allocationMap.erase base) (hm : s'.mappingMap = s.mappingMap) (b : Bool) :
    (live vm s b).Perm (if b = decide (a.pageSize ≠ yuzuPageSize) then
      (base >>> vm.pageBits b, a.size >>> vm.pageBits b) :: live vm s' b else live vm s' b) := by
  have hp := ((entries_perm h).filterMap (allocationRegion vm b)).append_right
    (s.mappingMap.entries.filterMap (mappingRegion vm b))
  refine hp.trans (List.Perm.of_eq ?_)
  rw [live, ha, hm, filterMap_cons, allocationRegion]
  by_cases hb : b = decide (a.pageSize ≠ yuzuPageSize)
  · rw [if_pos hb.symm, if_pos hb]
    rfl
  · rw [if_neg (Ne.symm hb), if_neg hb]

lemma live_eraseMapping (h : s.mappingMap.lookup offset = some m) (hfixed : m.fixed = false)
    (ha : s'.allocationMap = s.allocationMap) (hm : s'.mappingMap = s.mappingMap.erase offset) (b : Bool) :
    (live vm s b).Perm (if b = m.bigPage then
      (offset >>> vm.pageBits b, (m.size + 2 ^ vm.pageBits b - 1) / 2 ^ vm.pageBits b) :: live vm s' b
        else live vm s' b) := by
  have hp := ((entries_perm h).filterMap (mappingRegion vm b)).append_left
    (s.allocationMap.entries.filterMap (allocationRegion vm b))
  refine hp.trans ?_
  rw [live, ha, hm, filterMap_cons, mappingRegion]
  by_cases hb : b = m.bigPage
  · rw [if_pos ⟨hfixed, hb.symm⟩, if_pos hb]
    exact perm_middle
  · rw [if_neg fun h => hb h.2.symm, if_neg hb]

def AllocatorsHold (vm : Vm) (s : AsGpu) : Prop :=
  ∀ big, AllocInv (vm.allocator big) (s.pageAllocator big) (live vm s big)

variable {r : Bool → ℕ × ℕ}

lemma AllocatorsHold.add (h : AllocatorsHold vm s) {a : AllocatorState}
    (hbig : AllocInv (vm.allocator big) a (r big :: live vm s big))
    (hlive : ∀ b, (live vm s' b).Perm (if b = big then r b :: live vm s b else live vm s b))
    (ha : ∀ b, s'.pageAllocator b = if b = big then a else s.pageAllocator b) : AllocatorsHold vm s' := by
  intro b
  refine AllocInv.perm ?_ (hlive b).symm
  rw [ha]
  by_cases hb : b = big
  · subst hb
    simpa using hbig
  · simpa [hb] using h b

lemma AllocatorsHold.remove (h : AllocatorsHold vm s) {a : AllocatorState}
    (hbig : AllocInv (vm.allocator big) a ((live vm s big).erase (r big)))
    (hlive : ∀ b, (live vm s b).Perm (if b = big then r b :: live vm s' b else live vm s' b))
    (ha : ∀ b, s'.pageAllocator b = if b = big then a else s.pageAllocator b) : AllocatorsHold vm s' := by
  intro b
  rw [ha]
  have hp := hlive b
  by_cases hb : b = big
  · subst hb
    rw [if_pos rfl] at hp ⊢
    have hperm := hp.erase (r b)
    rw [erase_cons_head] at hperm
    exact hbig.perm hperm
  · rw [if_neg hb] at hp ⊢
    exact (h b).perm hp

end

/-! ## The invariant -/

/-- What holds of an allocation.  Its mappings are distinct, fixed and within it. -/
structure AllocationOk (vm : Vm) (s : AsGpu) (base : ℕ) (a : Allocation) : Prop where
  pageSize : a.pageSize = yuzuPageSize ∨ a.pageSize = vm.bigPageSize
  aligned : base % a.pageSize = 0
  sizeAligned : a.size % a.pageSize = 0
  nodup : a.mappings.Nodup
  inside : ∀ offset ∈ a.mappings, base ≤ offset ∧ offset < base + a.size ∧
    ∃ m, s.mappingMap.lookup offset = some m ∧ m.fixed = true

/-- What holds of a mapping.  A fixed one is recorded in an allocation. -/
structure MappingOk (vm : Vm) (s : AsGpu) (offset : ℕ) (m : Mapping) : Prop where
  offset_eq : m.offset = offset
  aligned : m.fixed = false → offset % 2 ^ vm.pageBits m.bigPage = 0
  recorded : m.fixed = true → ∃ base a, s.allocationMap.lookup base = some a ∧ offset ∈ a.mappings

structure Inv (vm : Vm) (s : AsGpu) : Prop where
  offsets : ∀ offset, offset ∈ s.mapBufferOffsets ↔ offset ∈ s.mappingMap
  allocators : AllocatorsHold vm s
  pins : ∀ handle, s.pins handle = s.mappingMap.entries.countP fun e => e.2.handle = handle
  allocation : ∀ base a, s.allocationMap.lookup base = some a → AllocationOk vm s base a
  mapping : ∀ offset m, s.mappingMap.lookup offset = some m → MappingOk vm s offset m

section

variable {vm : Vm} {nvmap : ℕ → Option HandleInfo} {s s' : AsGpu} {big : Bool}

lemma Inv.consistent (h : Inv vm s) : Consistent vm s where
  offsets := h.offsets
  recorded := fun base a ha offset ho => by
    obtain ⟨-, -, m, hm, -⟩ := (h.allocation base a ha).inside offset ho
    exact mem_of_lookup hm
  pages := fun big page => (h.allocators big).mapped page
  pins := h.pins

lemma Vm.pow_pageBits {pageSize : ℕ} (h : pageSize = yuzuPageSize ∨ pageSize = vm.bigPageSize) :
    2 ^ vm.pageBits (decide (pageSize ≠ yuzuPageSize)) = pageSize := by
  by_cases hsmall : pageSize = yuzuPageSize
  · simp [Vm.pageBits, hsmall, yuzuPageSize, pageSizeBits]
  · rw [Vm.pageBits, if_pos (decide_eq_true hsmall)]
    exact (h.resolve_left hsmall).symm

lemma Inv.page_of_key (h : Inv vm s) {key : ℕ} (hkey : key ∈ s.allocationMap ∨ key ∈ s.mappingMap) :
    ∃ big, ∃ r ∈ live vm s big, InRegion r (key >>> vm.pageBits big) := by
  -- A byte of an allocation lies in one of its pages.
  have hinside : ∀ base a, s.allocationMap.lookup base = some a → base ≤ key → key < base + a.size →
      ∃ big, ∃ r ∈ live vm s big, InRegion r (key >>> vm.pageBits big) := by
    intro base a ha hle hlt
    have hok := h.allocation base a ha
    refine ⟨_, _, allocationRegion_mem ha, ?_⟩
    have hpow := Vm.pow_pageBits hok.pageSize
    have haligned := hok.aligned
    have hsize := hok.sizeAligned
    rw [← hpow] at haligned hsize
    have hpos := vm.pageBits_pos (decide (a.pageSize ≠ yuzuPageSize))
    simp only [InRegion, Nat.shiftRight_eq_div_pow]
    refine ⟨Nat.div_le_div_right hle, ?_⟩
    rw [Nat.div_lt_iff_lt_mul hpos, Nat.add_mul, Nat.div_mul_cancel (Nat.dvd_of_mod_eq_zero haligned),
      Nat.div_mul_cancel (Nat.dvd_of_mod_eq_zero hsize)]
    exact hlt
  rcases hkey with hkey | hkey
  · obtain ⟨a, ha⟩ := Option.isSome_iff_exists.1 (AList.lookup_isSome.2 hkey)
    have hpos := ((h.allocators _).inSpace _ (allocationRegion_mem ha)).2.1
    refine hinside key a ha le_rfl (Nat.lt_add_of_pos_right (Nat.pos_of_ne_zero fun hzero => ?_))
    simp [hzero] at hpos
  · obtain ⟨m, hm⟩ := Option.isSome_iff_exists.1 (AList.lookup_isSome.2 hkey)
    cases hfixed : m.fixed with
    | false =>
      refine ⟨_, _, mappingRegion_mem hm hfixed, le_rfl, ?_⟩
      exact Nat.lt_add_of_pos_right ((h.allocators _).inSpace _ (mappingRegion_mem hm hfixed)).2.1
    | true =>
      obtain ⟨base, a, ha, hrecorded⟩ := (h.mapping key m hm).recorded hfixed
      obtain ⟨hle, hlt, -⟩ := (h.allocation base a ha).inside key hrecorded
      exact hinside base a ha hle hlt

lemma Inv.fresh (h : Inv vm s) (hvm : vm.Sound) {a : AllocatorState} {page pages address : ℕ}
    (hinv : AllocInv (vm.allocator big) a ((page, pages) :: live vm s big))
    (haddress : address >>> vm.pageBits big = page) : address ∉ s.allocationMap ∧ address ∉ s.mappingMap := by
  rw [← not_or]
  intro hkey
  obtain ⟨big', r, hr, hin⟩ := h.page_of_key hkey
  obtain ⟨hstart, hpos, hlimit⟩ := hinv.inSpace _ mem_cons_self
  obtain ⟨hstart', -, hlimit'⟩ := (h.allocators big').inSpace r hr
  simp only at hstart hpos hlimit
  have hsplit := hvm.address_split (haddress ▸ hstart) (by omega : address >>> vm.pageBits big < _)
  have hsplit' := hvm.address_split (hstart'.trans hin.1) (hin.2.trans_le hlimit')
  by_cases hbig : big' = big
  · subst hbig
    have hdisjoint := (pairwise_cons.1 hinv.disjoint).1 r hr
    refine hdisjoint.not_both (a := page) ⟨le_rfl, ?_⟩ (haddress ▸ hin)
    simp only
    omega
  · cases big <;> cases big' <;> simp at hbig hsplit hsplit' <;> omega

end

end Voltemu.Nvdrv
