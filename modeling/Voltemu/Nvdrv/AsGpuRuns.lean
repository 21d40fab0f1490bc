import Voltemu.Nvdrv.AsGpuBookkeeping

/-!
# Runs of the GPU address space

Every call that meets its condition completes and keeps the invariant, by its own lemma.

* **`bookkeeping_of_run`**: in every run whose calls meet the condition, the containers agree after every call,
  `FreeSpace` of a live allocation succeeds, and without allocations and mappings no page is taken.
* `fixed_mapping_stays_recorded`: what happens otherwise.
-/

namespace Voltemu.Nvdrv

open Voltemu.Common AddressSpace FlatAllocator Function List Nat

section

variable {vm : Vm} {nvmap : ℕ → Option HandleInfo} {s s' : AsGpu} {big : Bool}

/-! ## The calls -/

lemma Inv.initial (hvm : vm.Sound) : Inv vm (AsGpu.initial vm) where
  offsets := fun offset => by simp [AsGpu.initial]
  allocators := fun big => by
    have hlive : live vm (AsGpu.initial vm) big = [] := rfl
    rw [hlive]
    cases big with
    | false => exact allocInv_start (hvm.virtStart_le false)
    | true => exact allocInv_start (hvm.virtStart_le true)
  pins := fun handle => rfl
  allocation := fun base a h => by simp [AsGpu.initial] at h
  mapping := fun offset m h => by simp [AsGpu.initial] at h

variable {allocation : Allocation} {a : AllocatorState}

variable {base pageSize pages offset k size handle : ℕ}

/-- **A new allocation** over pages that were free. -/
lemma Inv.insertAllocation (h : Inv vm s) (hvm : vm.Sound)
    (hsize : pageSize = yuzuPageSize ∨ pageSize = vm.bigPageSize) (hbig : big = decide (pageSize ≠ yuzuPageSize))
    (haligned : base % pageSize = 0)
    (hinv : AllocInv (vm.allocator big) a ((base >>> vm.pageBits big, pages) :: live vm s big)) :
    Inv vm { s.setPageAllocator big a with
      allocationMap := s.allocationMap.insert base ⟨[], pages * pageSize, pageSize, big⟩ } := by
  obtain ⟨hfresh, -⟩ := h.fresh hvm hinv rfl
  subst hbig
  have hok : AllocationOk vm s base ⟨[], pages * pageSize, pageSize, decide (pageSize ≠ yuzuPageSize)⟩ :=
    ⟨hsize, haligned, mul_mod_left _ _, nodup_nil, by simp⟩
  have hpages : (pages * pageSize) >>> vm.pageBits (decide (pageSize ≠ yuzuPageSize)) = pages := by
    have hpow := Vm.pow_pageBits hsize
    rw [shiftRight_eq_div_pow, hpow]
    refine Nat.mul_div_cancel _ ?_
    rw [← hpow]
    exact vm.pageBits_pos _
  refine ⟨by simpa using h.offsets, ?_, by simpa using h.pins, ?_, ?_⟩
  · refine h.allocators.add (r := fun b => (base >>> vm.pageBits b, (pages * pageSize) >>> vm.pageBits b))
      (by rwa [hpages]) (fun b => ?_) fun b => pageAllocator_setPageAllocator s _ b a
    refine live_insertAllocation (a := ⟨[], pages * pageSize, pageSize, decide (pageSize ≠ yuzuPageSize)⟩) hfresh ?_ ?_ b
    · rfl
    · exact setPageAllocator_mappingMap s _ a
  · intro base' a' ha'
    by_cases hbase : base' = base
    · subst hbase
      simp only [AList.lookup_insert, Option.some.injEq] at ha'
      subst ha'
      exact ⟨hok.pageSize, hok.aligned, hok.sizeAligned, hok.nodup, by simp⟩
    · simp only [AList.lookup_insert_ne hbase] at ha'
      obtain ⟨h1, h2, h3, h4, h5⟩ := h.allocation base' a' ha'
      exact ⟨h1, h2, h3, h4, by simpa using h5⟩
  · intro offset m hm
    obtain ⟨h1, h2, h3⟩ := h.mapping offset m (by simpa using hm)
    refine ⟨h1, h2, fun hfixed => ?_⟩
    obtain ⟨base', a', ha', hmem⟩ := h3 hfixed
    refine ⟨base', a', ?_, hmem⟩
    have hne : base' ≠ base := by
      rintro rfl
      exact hfresh (mem_of_lookup ha')
    simpa [AList.lookup_insert_ne hne] using ha'

lemma Inv.allocateSpace (h : Inv vm s) (hvm : vm.Sound) {fixed sparse : Bool}
    (htyped : pages < 2 ^ 32) (hmeets : Meets vm nvmap s (.allocateSpace pages pageSize offset fixed sparse)) :
    ∃ result offset' s', Nvdrv.allocateSpace vm s pages pageSize offset fixed sparse = .ok (result, offset', s') ∧
      Inv vm s' := by
  unfold Nvdrv.allocateSpace
  split_ifs with hsize hsparse hfixed
  · exact ⟨_, _, _, rfl, h⟩
  · exact ⟨_, _, _, rfl, h⟩
  all_goals
    have hsize' : pageSize = yuzuPageSize ∨ pageSize = vm.bigPageSize := by tauto
    obtain ⟨hpages, hmeets⟩ := hmeets hsize' (by simpa using hsparse)
    have hpow := Vm.pow_pageBits hsize'
  · rw [if_pos hfixed] at hmeets
    obtain ⟨haligned, hstart, hlimit, hfree⟩ := hmeets
    have hpage : (offset >>> vm.pageBits (decide (pageSize ≠ yuzuPageSize))) % 2 ^ 32 =
        offset >>> vm.pageBits (decide (pageSize ≠ yuzuPageSize)) :=
      Nat.mod_eq_of_lt ((le_of_add_right_le hlimit).trans_lt (vm.allocator _).vaLimit_lt)
    obtain ⟨a, hcall, hinv⟩ := (h.allocators (decide (pageSize ≠ yuzuPageSize))).map (hvm.virtStart_pos _) hstart
      hpages hlimit (fun p hp => not_not.1 (hfree p hp)) (h.allocators _).cursor
    refine ⟨.success, offset, _, ?_, h.insertAllocation hvm hsize' rfl (by rwa [hpow] at haligned) hinv⟩
    simp only [FlatAllocator.allocateFixed, hpage, hcall, bind, Except.bind]
  · rw [if_neg hfixed] at hmeets
    obtain ⟨page, a, hcall, hcases⟩ := (h.allocators (decide (pageSize ≠ yuzuPageSize))).allocate
      (hvm.virtStart_pos _) hpages htyped hmeets
    simp only [hcall, bind, Except.bind]
    rcases hcases with ⟨hne, hgap, hinv⟩ | ⟨rfl, rfl, -⟩
    · have hoffset : page <<< vm.pageBits (decide (pageSize ≠ yuzuPageSize)) ≠ 0 := by
        rw [shiftLeft_eq]
        exact mul_ne_zero hne (vm.pageBits_pos _).ne'
      rw [if_neg hoffset]
      refine ⟨.success, _, _, rfl, h.insertAllocation hvm hsize' rfl ?_ ?_⟩
      · rw [shiftLeft_eq, hpow]
        exact mul_mod_left _ _
      · rwa [shiftLeft_shiftRight]
    · rw [zero_shiftLeft, if_pos rfl]
      refine ⟨_, _, _, rfl, ?_⟩
      rwa [setPageAllocator_self]

/-- **An allocation without mappings goes**, and its pages with it. -/
lemma Inv.eraseAllocation (h : Inv vm s)
    (hlookup : s.allocationMap.lookup base = some allocation) (hmappings : allocation.mappings = [])
    (hbig : big = decide (allocation.pageSize ≠ yuzuPageSize))
    (hinv : AllocInv (vm.allocator big) a
      ((live vm s big).erase (base >>> vm.pageBits big, allocation.size >>> vm.pageBits big))) :
    Inv vm { s.setPageAllocator big a with allocationMap := s.allocationMap.erase base } := by
  subst hbig
  refine ⟨by simpa using h.offsets, ?_, by simpa using h.pins, ?_, ?_⟩
  · refine h.allocators.remove (r := fun b => (base >>> vm.pageBits b, allocation.size >>> vm.pageBits b)) hinv
      (fun b => ?_) fun b => pageAllocator_setPageAllocator s _ b a
    refine live_eraseAllocation hlookup ?_ ?_ b
    · rfl
    · exact setPageAllocator_mappingMap s _ a
  · intro base' a' ha'
    have hne : base' ≠ base := by
      rintro rfl
      simp [AList.lookup_erase] at ha'
    obtain ⟨h1, h2, h3, h4, h5⟩ := h.allocation base' a' (by simpa [AList.lookup_erase_ne hne] using ha')
    exact ⟨h1, h2, h3, h4, by simpa using h5⟩
  · intro offset m hm
    obtain ⟨h1, h2, h3⟩ := h.mapping offset m (by simpa using hm)
    refine ⟨h1, h2, fun hfixed => ?_⟩
    obtain ⟨base', a', ha', hmem⟩ := h3 hfixed
    -- No mapping is recorded in the allocation that goes.
    have hne : base' ≠ base := by
      rintro rfl
      obtain rfl := Option.some.inj (hlookup.symm.trans ha')
      rw [hmappings] at hmem
      cases hmem
    exact ⟨base', a', by simpa [AList.lookup_erase_ne hne] using ha', hmem⟩

lemma Inv.allocationPages (h : Inv vm s)
    (hlookup : s.allocationMap.lookup base = some allocation) (hpages : allocation.size = pages * allocation.pageSize) :
    allocation.size >>> vm.pageBits (decide (allocation.pageSize ≠ yuzuPageSize)) = pages ∧ pages < 2 ^ 32 ∧
      base >>> vm.pageBits (decide (allocation.pageSize ≠ yuzuPageSize)) < 2 ^ 32 := by
  have hpow := Vm.pow_pageBits (h.allocation base allocation hlookup).pageSize
  have hshift : allocation.size >>> vm.pageBits (decide (allocation.pageSize ≠ yuzuPageSize)) = pages := by
    rw [shiftRight_eq_div_pow, hpow, hpages]
    refine Nat.mul_div_cancel _ ?_
    rw [← hpow]
    exact vm.pageBits_pos _
  obtain ⟨-, -, hlimit⟩ := (h.allocators _).inSpace _ (allocationRegion_mem hlookup)
  have hlt := hlimit.trans_lt (vm.allocator _).vaLimit_lt
  simp only [hshift] at hlt
  exact ⟨hshift, lt_of_le_of_lt (le_add_left _ _) hlt, lt_of_le_of_lt (le_add_right _ _) hlt⟩

/-- Freeing the fixed mappings of an allocation succeeds, and leaves the allocators and the allocations as they are. -/
lemma freeMappings_fixed {mappings : List ℕ} (hnodup : mappings.Nodup)
    (hfixed : ∀ offset ∈ mappings, ∃ m, s.mappingMap.lookup offset = some m ∧ m.fixed = true) :
    ∃ s', freeMappings vm s mappings = .ok (true, s') ∧ (∀ b, s'.pageAllocator b = s.pageAllocator b) ∧
      s'.allocationMap = s.allocationMap := by
  induction mappings generalizing s with
  | nil => exact ⟨s, rfl, fun _ => rfl, rfl⟩
  | cons offset rest ih =>
    obtain ⟨hnotin, hnodup⟩ := nodup_cons.1 hnodup
    obtain ⟨m, hm, hmfixed⟩ := hfixed offset mem_cons_self
    obtain ⟨s', hcall, hallocators, hallocations⟩ := ih
      (s := { s.unpinHandle m.handle with mappingMap := s.mappingMap.erase offset }) hnodup fun o ho => by
        have hne : o ≠ offset := by
          rintro rfl
          exact hnotin ho
        simpa [AList.lookup_erase_ne hne] using hfixed o (mem_cons_of_mem _ ho)
    refine ⟨s', ?_, fun b => (hallocators b).trans rfl, hallocations⟩
    simp only [freeMappings, freeMappingLocked, hm, hmfixed, if_true, bind, Except.bind]
    exact hcall

/-- **`FreeSpace` of a live allocation with its own size and page size succeeds.** -/
lemma Inv.freeSpace_succeeds (h : Inv vm s) (hvm : vm.Sound)
    (hlookup : s.allocationMap.lookup base = some allocation) (hpages : allocation.size = pages * allocation.pageSize)
    (hmeets : (vm.allocator (decide (allocation.pageSize ≠ yuzuPageSize))).FreeMeets
      (s.pageAllocator (decide (allocation.pageSize ≠ yuzuPageSize)))
      (base >>> vm.pageBits (decide (allocation.pageSize ≠ yuzuPageSize))) pages) :
    ∃ s1 a, freeMappings vm s allocation.mappings = .ok (true, s1) ∧
      freeSpace vm s base pages allocation.pageSize =
        .ok (.success, { s1.setPageAllocator (decide (allocation.pageSize ≠ yuzuPageSize)) a with
          allocationMap := s1.allocationMap.erase base }) ∧
      AllocInv (vm.allocator (decide (allocation.pageSize ≠ yuzuPageSize))) a
        ((live vm s (decide (allocation.pageSize ≠ yuzuPageSize))).erase
          (base >>> vm.pageBits (decide (allocation.pageSize ≠ yuzuPageSize)),
            allocation.size >>> vm.pageBits (decide (allocation.pageSize ≠ yuzuPageSize)))) := by
  have hok := h.allocation base allocation hlookup
  obtain ⟨hshift, hpages_lt, hbase_lt⟩ := h.allocationPages hlookup hpages
  obtain ⟨s1, hmappings, hallocators, -⟩ : ∃ s', freeMappings vm s allocation.mappings = .ok (true, s') ∧
      (∀ b, s'.pageAllocator b = s.pageAllocator b) ∧ s'.allocationMap = s.allocationMap :=
    freeMappings_fixed hok.nodup fun o ho => (hok.inside o ho).2.2
  rw [← hshift] at hmeets
  obtain ⟨blocks, hcall, -, hinv⟩ := (h.allocators _).free (hvm.virtStart_pos _) (allocationRegion_mem hlookup) hmeets
  refine ⟨s1, _, hmappings, ?_, hinv⟩
  rw [freeSpace, hlookup]
  simp only [ne_eq, not_true_eq_false, hpages, or_self, if_false, hmappings, bind, Except.bind, if_true]
  rw [← hpages, hshift, Nat.mod_eq_of_lt hpages_lt, Nat.mod_eq_of_lt hbase_lt, FlatAllocator.free, hallocators]
  rw [hshift] at hcall
  simp only [hcall, bind, Except.bind]

lemma Inv.freeSpace (h : Inv vm s) (hvm : vm.Sound) (hmeets : Meets vm nvmap s (.freeSpace base pages pageSize)) :
    ∃ result s', Nvdrv.freeSpace vm s base pages pageSize = .ok (result, s') ∧ Inv vm s' := by
  cases hlookup : s.allocationMap.lookup base with
  | none => exact ⟨.badValue, s, by rw [Nvdrv.freeSpace, hlookup], h⟩
  | some allocation =>
    by_cases hsame : allocation.pageSize = pageSize ∧ allocation.size = pages * pageSize
    · obtain ⟨rfl, hpages⟩ := hsame
      obtain ⟨hempty, hfree⟩ := hmeets allocation hlookup rfl hpages
      obtain ⟨s1, a, hmappings, hcall, hinv⟩ := h.freeSpace_succeeds hvm hlookup hpages hfree
      rw [hempty] at hmappings
      obtain ⟨-, rfl⟩ := Prod.mk.inj (Except.ok.inj hmappings)
      exact ⟨_, _, hcall, h.eraseAllocation hlookup hempty rfl hinv⟩
    · refine ⟨.badValue, s, ?_, h⟩
      have hdiffers : allocation.pageSize ≠ pageSize ∨ allocation.size ≠ pages * pageSize := by tauto
      rw [Nvdrv.freeSpace, hlookup]
      simp only [if_pos hdiffers]

/-! ### Mappings -/

variable {m : AList fun _ : ℕ => Mapping} {v : Mapping}

lemma countP_insert (hfresh : k ∉ m) (handle : ℕ) :
    ((m.insert k v).entries.countP fun e => e.2.handle = handle) =
      m.entries.countP (fun e => e.2.handle = handle) + if v.handle = handle then 1 else 0 := by
  rw [AList.entries_insert_of_notMem hfresh, countP_cons]
  simp

lemma countP_erase (h : m.lookup k = some v) (handle : ℕ) :
    m.entries.countP (fun e => e.2.handle = handle) =
      ((m.erase k).entries.countP fun e => e.2.handle = handle) + if v.handle = handle then 1 else 0 := by
  rw [(entries_perm h).countP_eq, countP_cons]
  simp

/-- The pages of a mapping, as `MapBufferEx` computes them. -/
lemma alignUp_pages {bits : ℕ} (hbits : bits ≤ 17) (hpages : (size + 2 ^ bits - 1) / 2 ^ bits < 2 ^ 32) :
    (alignUp size (2 ^ bits) >>> bits) % 2 ^ 32 = (size + 2 ^ bits - 1) / 2 ^ bits := by
  have hpos : 0 < 2 ^ bits := by positivity
  have hdiv := div_add_mod size (2 ^ bits)
  rw [shiftRight_eq_div_pow, alignUp]
  split_ifs with hzero
  · have heq : (size + 2 ^ bits - 1) / 2 ^ bits = size / 2 ^ bits := by
      have hsplit : size + 2 ^ bits - 1 = (2 ^ bits - 1) + size / 2 ^ bits * 2 ^ bits := by
        rw [Nat.div_mul_cancel (Nat.dvd_of_mod_eq_zero hzero)]
        omega
      rw [hsplit, add_mul_div_right _ _ hpos, div_eq_of_lt (by omega), zero_add]
    rw [heq] at hpages ⊢
    exact Nat.mod_eq_of_lt hpages
  · have heq : (size + 2 ^ bits - 1) / 2 ^ bits = size / 2 ^ bits + 1 := by
      have hsplit : size + 2 ^ bits - 1 = (size % 2 ^ bits - 1) + (size / 2 ^ bits + 1) * 2 ^ bits := by
        rw [add_mul, mul_comm (size / 2 ^ bits)]
        omega
      rw [hsplit, add_mul_div_right _ _ hpos, div_eq_of_lt (by omega), zero_add]
    rw [heq] at hpages ⊢
    have hvalue : size - size % 2 ^ bits + 2 ^ bits = (size / 2 ^ bits + 1) * 2 ^ bits := by
      rw [add_mul, mul_comm (size / 2 ^ bits)]
      omega
    have hbound : (size / 2 ^ bits + 1) * 2 ^ bits < 2 ^ 64 :=
      calc (size / 2 ^ bits + 1) * 2 ^ bits < 2 ^ 32 * 2 ^ bits := mul_lt_mul_of_pos_right hpages hpos
        _ ≤ 2 ^ 32 * 2 ^ 17 := Nat.mul_le_mul_left _ (Nat.pow_le_pow_right (by decide) hbits)
        _ < 2 ^ 64 := by norm_num
    rw [hvalue, Nat.mod_eq_of_lt hbound, Nat.mul_div_cancel _ hpos, Nat.mod_eq_of_lt hpages]

lemma Vm.pageBits_le (vm : Vm) (big : Bool) : vm.pageBits big ≤ 17 := by
  rcases vm.supported with hbits | hbits <;> cases big <;> simp [Vm.pageBits, pageSizeBits, hbits]

/-- **A new mapping** over pages that were free. -/
lemma Inv.insertMapping (h : Inv vm s) (hvm : vm.Sound) (haligned : offset % 2 ^ vm.pageBits big = 0)
    (hinv : AllocInv (vm.allocator big) a ((offset >>> vm.pageBits big,
      (size + 2 ^ vm.pageBits big - 1) / 2 ^ vm.pageBits big) :: live vm s big)) :
    Inv vm { (s.pinHandle handle).setPageAllocator big a with
      mappingMap := s.mappingMap.insert offset ⟨handle, offset, size, false, big⟩
      mapBufferOffsets := insert offset s.mapBufferOffsets } := by
  obtain ⟨-, hfresh⟩ := h.fresh hvm hinv rfl
  refine ⟨?_, ?_, ?_, ?_, ?_⟩
  · intro o
    simp [h.offsets o]
  · refine h.allocators.add (r := fun b => (offset >>> vm.pageBits b,
      (size + 2 ^ vm.pageBits b - 1) / 2 ^ vm.pageBits b)) hinv (fun b => ?_) fun b =>
        pageAllocator_setPageAllocator (s.pinHandle handle) _ b a
    refine live_insertMapping (m := ⟨handle, offset, size, false, big⟩) hfresh rfl ?_ ?_ b
    · exact setPageAllocator_allocationMap (s.pinHandle handle) _ a
    · rfl
  · intro handle'
    simp only [countP_insert hfresh, setPageAllocator_pins, AsGpu.pinHandle]
    by_cases hhandle : handle' = handle
    · subst hhandle
      simp [h.pins]
    · simp [update_of_ne hhandle, h.pins, Ne.symm hhandle]
  · intro base a' ha'
    obtain ⟨h1, h2, h3, h4, h5⟩ := h.allocation base a' (by simpa [AsGpu.pinHandle] using ha')
    refine ⟨h1, h2, h3, h4, fun o ho => ?_⟩
    obtain ⟨hle, hlt, m, hm, hfixed⟩ := h5 o ho
    have hne : o ≠ offset := by
      rintro rfl
      exact hfresh (mem_of_lookup hm)
    exact ⟨hle, hlt, m, by simpa [AList.lookup_insert_ne hne] using hm, hfixed⟩
  · intro o m hm
    by_cases ho : o = offset
    · subst ho
      simp only [AList.lookup_insert, Option.some.injEq] at hm
      subst hm
      exact ⟨rfl, fun _ => haligned, fun hfixed => absurd hfixed (by simp)⟩
    · obtain ⟨h1, h2, h3⟩ := h.mapping o m (by simpa [AList.lookup_insert_ne ho] using hm)
      exact ⟨h1, h2, by simpa [AsGpu.pinHandle] using h3⟩

lemma Inv.insertFixed (h : Inv vm s) {bigPage : Bool}
    (hlookup : s.allocationMap.lookup base = some allocation) (hfresh : offset ∉ s.mappingMap) (hle : base ≤ offset)
    (hlt : offset < base + allocation.size) :
    Inv vm { s.pinHandle handle with
      allocationMap := s.allocationMap.insert base { allocation with mappings := allocation.mappings ++ [offset] }
      mappingMap := s.mappingMap.insert offset ⟨handle, offset, size, true, bigPage⟩
      mapBufferOffsets := insert offset s.mapBufferOffsets } := by
  have hok := h.allocation base allocation hlookup
  have hnew : offset ∉ allocation.mappings := by
    intro hmem
    obtain ⟨-, -, m, hm, -⟩ := hok.inside offset hmem
    exact hfresh (mem_of_lookup hm)
  have hkept : ∀ o m, s.mappingMap.lookup o = some m →
      (s.mappingMap.insert offset ⟨handle, offset, size, true, bigPage⟩).lookup o = some m := by
    intro o m hm
    have hne : o ≠ offset := by
      rintro rfl
      exact hfresh (mem_of_lookup hm)
    rwa [AList.lookup_insert_ne hne]
  refine ⟨?_, ?_, ?_, ?_, ?_⟩
  · intro o
    simp [h.offsets o]
  · intro b
    refine AllocInv.perm (h.allocators b) ?_
    -- The allocation keeps its pages, and a fixed mapping has none.
    refine List.Perm.append (((entries_perm hlookup).filterMap _).trans (List.Perm.of_eq ?_)) (List.Perm.of_eq ?_)
    · rw [AList.entries_insert, filterMap_cons, filterMap_cons]
      rfl
    · rw [AList.entries_insert_of_notMem hfresh, filterMap_cons, mappingRegion, if_neg (by simp)]
  · intro handle'
    simp only [countP_insert hfresh, AsGpu.pinHandle]
    by_cases hhandle : handle' = handle
    · subst hhandle
      simp [h.pins]
    · simp [update_of_ne hhandle, h.pins, Ne.symm hhandle]
  · intro base' a' ha'
    by_cases hbase : base' = base
    · subst hbase
      simp only [AList.lookup_insert, Option.some.injEq] at ha'
      subst ha'
      refine ⟨hok.pageSize, hok.aligned, hok.sizeAligned, ?_, fun o ho => ?_⟩
      · refine nodup_append.2 ⟨hok.nodup, nodup_singleton _, fun o ho o' ho' heq => ?_⟩
        obtain rfl := mem_singleton.1 ho'
        exact hnew (heq ▸ ho)
      · rcases mem_append.1 ho with ho | ho
        · obtain ⟨hle', hlt', m, hm, hfixed⟩ := hok.inside o ho
          exact ⟨hle', hlt', m, hkept o m hm, hfixed⟩
        · obtain rfl := mem_singleton.1 ho
          exact ⟨hle, hlt, _, AList.lookup_insert _, rfl⟩
    · simp only [AList.lookup_insert_ne hbase] at ha'
      obtain ⟨h1, h2, h3, h4, h5⟩ := h.allocation base' a' ha'
      refine ⟨h1, h2, h3, h4, fun o ho => ?_⟩
      obtain ⟨hle', hlt', m, hm, hfixed⟩ := h5 o ho
      exact ⟨hle', hlt', m, hkept o m hm, hfixed⟩
  · intro o m hm
    by_cases ho : o = offset
    · subst ho
      simp only [AList.lookup_insert, Option.some.injEq] at hm
      subst hm
      refine ⟨rfl, fun hfixed => absurd hfixed (by simp), fun _ => ⟨base, _, AList.lookup_insert _, ?_⟩⟩
      exact mem_append_right _ (mem_singleton_self _)
    · obtain ⟨h1, h2, h3⟩ := h.mapping o m (by simpa [AList.lookup_insert_ne ho] using hm)
      refine ⟨h1, h2, fun hfixed => ?_⟩
      obtain ⟨base', a', ha', hmem⟩ := h3 hfixed
      by_cases hbase : base' = base
      · subst hbase
        obtain rfl := Option.some.inj (hlookup.symm.trans ha')
        exact ⟨base', _, AList.lookup_insert _, mem_append_left _ hmem⟩
      · exact ⟨base', a', by simpa [AList.lookup_insert_ne hbase] using ha', hmem⟩

lemma Inv.mapBufferEx (h : Inv vm s) (hvm : vm.Sound) {mappingSize : ℕ} {fixed remap : Bool}
    (hmeets : Meets vm nvmap s (.mapBufferEx handle mappingSize offset fixed remap)) :
    ∃ result offset' s', Nvdrv.mapBufferEx vm nvmap s handle mappingSize offset fixed remap =
      .ok (result, offset', s') ∧ Inv vm s' := by
  unfold Nvdrv.mapBufferEx
  cases hremap : remap with
  | true =>
    rw [if_pos rfl]
    cases s.mappingMap.lookup offset with
    | none => exact ⟨_, _, _, rfl, h⟩
    | some m => exact ⟨_, _, _, rfl, h⟩
  | false =>
    simp only [Bool.false_eq_true, if_false]
    cases hinfo : nvmap handle with
    | none => exact ⟨_, _, _, rfl, h⟩
    | some info =>
      have hmeets := hmeets hremap info hinfo
      have hsize : 0 < if mappingSize ≠ 0 then mappingSize else info.origSize := by
        split_ifs with hzero
        · exact pos_of_ne_zero hzero
        · exact info.origSize_pos
      simp only at hmeets ⊢
      generalize (if mappingSize ≠ 0 then mappingSize else info.origSize) = size at *
      cases hfixed : fixed with
      | true =>
        rw [if_pos hfixed] at hmeets
        obtain ⟨hfresh, base, allocation, hbase, hinside⟩ := hmeets
        obtain ⟨hmem, hle⟩ := predecessor_mem hbase
        simp only at hle
        have hentries : predecessor offset (s.pinHandle handle).allocationMap.entries = some ⟨base, allocation⟩ := hbase
        have hfits : ¬ (offset - base + size) % 2 ^ 64 > allocation.size :=
          not_lt.2 ((mod_le _ _).trans hinside)
        simp only [if_true, hentries, if_neg hfits]
        exact ⟨_, _, _, rfl, h.insertFixed (mem_entries_iff.1 hmem) hfresh hle (by omega)⟩
      | false =>
        rw [if_neg (by simp [hfixed])] at hmeets
        simp only [Bool.false_eq_true, if_false]
        generalize decide (info.align % vm.bigPageSize = 0) = big at *
        obtain ⟨hpages, hallocate, g, hgap⟩ := hmeets
        have hpos : 0 < (size + 2 ^ vm.pageBits big - 1) / 2 ^ vm.pageBits big :=
          div_pos (by omega) (vm.pageBits_pos big)
        obtain ⟨page, a, hcall, hcases⟩ := (h.allocators big).allocate (hvm.virtStart_pos big) hpos hpages hallocate
        rcases hcases with ⟨hne, -, hinv⟩ | ⟨-, -, hnone⟩
        · have hoffset : page <<< vm.pageBits big ≠ 0 := by
            rw [shiftLeft_eq]
            exact mul_ne_zero hne (vm.pageBits_pos big).ne'
          have hcall' : (vm.allocator big).allocate ((s.pinHandle handle).pageAllocator big)
              ((alignUp size (2 ^ vm.pageBits big) >>> vm.pageBits big) % 2 ^ 32) = .ok (page, a) := by
            rw [alignUp_pages (vm.pageBits_le big) hpages]
            exact hcall
          simp only [hcall', bind, Except.bind, if_neg hoffset]
          refine ⟨_, _, _, rfl, ?_⟩
          have haligned : page <<< vm.pageBits big % 2 ^ vm.pageBits big = 0 := by
            rw [shiftLeft_eq]
            exact mul_mod_left _ _
          rw [← shiftLeft_shiftRight page (vm.pageBits big)] at hinv
          have hmap : ((s.pinHandle handle).setPageAllocator big a).mappingMap = s.mappingMap :=
            setPageAllocator_mappingMap _ _ _
          have hoffsets : ((s.pinHandle handle).setPageAllocator big a).mapBufferOffsets =
              s.mapBufferOffsets := setPageAllocator_mapBufferOffsets _ _ _
          rw [hmap, hoffsets]
          exact h.insertMapping hvm haligned hinv
        · exact absurd hgap (hnone g)

/-- **A mapping that is not fixed goes**, and its pages with it. -/
lemma Inv.eraseMapping (h : Inv vm s) {m : Mapping}
    (hlookup : s.mappingMap.lookup offset = some m) (hfixed : m.fixed = false)
    (hinv : AllocInv (vm.allocator m.bigPage) a ((live vm s m.bigPage).erase (offset >>> vm.pageBits m.bigPage,
      (m.size + 2 ^ vm.pageBits m.bigPage - 1) / 2 ^ vm.pageBits m.bigPage))) :
    Inv vm { (s.setPageAllocator m.bigPage a).unpinHandle m.handle with
      mappingMap := s.mappingMap.erase offset
      mapBufferOffsets := s.mapBufferOffsets.erase offset } := by
  refine ⟨?_, ?_, ?_, ?_, ?_⟩
  · intro o
    simp [h.offsets o, AList.mem_erase]
  · refine h.allocators.remove (r := fun b => (offset >>> vm.pageBits b,
      (m.size + 2 ^ vm.pageBits b - 1) / 2 ^ vm.pageBits b)) hinv (fun b => ?_) fun b =>
        pageAllocator_setPageAllocator s _ b a
    refine live_eraseMapping hlookup hfixed ?_ ?_ b
    · exact setPageAllocator_allocationMap s _ a
    · rfl
  · intro handle
    have hcount := countP_erase hlookup handle
    have hpins := h.pins handle
    simp only [AsGpu.unpinHandle, setPageAllocator_pins]
    by_cases hhandle : handle = m.handle
    · subst hhandle
      rw [update_self]
      rw [if_pos rfl] at hcount
      omega
    · rw [update_of_ne hhandle]
      rw [if_neg (Ne.symm hhandle)] at hcount
      omega
  · intro base a' ha'
    obtain ⟨h1, h2, h3, h4, h5⟩ := h.allocation base a' (by simpa [AsGpu.unpinHandle] using ha')
    refine ⟨h1, h2, h3, h4, fun o ho => ?_⟩
    obtain ⟨hle, hlt, m', hm', hfixed'⟩ := h5 o ho
    -- Recorded mappings are fixed.
    have hne : o ≠ offset := by
      rintro rfl
      obtain rfl := Option.some.inj (hlookup.symm.trans hm')
      rw [hfixed] at hfixed'
      cases hfixed'
    exact ⟨hle, hlt, m', by simpa [AList.lookup_erase_ne hne] using hm', hfixed'⟩
  · intro o m' hm'
    have hne : o ≠ offset := by
      rintro rfl
      simp [AList.lookup_erase] at hm'
    obtain ⟨h1, h2, h3⟩ := h.mapping o m' (by simpa [AList.lookup_erase_ne hne] using hm')
    exact ⟨h1, h2, by simpa [AsGpu.unpinHandle] using h3⟩

lemma Inv.unmapBuffer (h : Inv vm s) (hvm : vm.Sound) (hmeets : Meets vm nvmap s (.unmapBuffer offset)) :
    ∃ result s', Nvdrv.unmapBuffer vm s offset = .ok (result, s') ∧ Inv vm s' := by
  unfold Nvdrv.unmapBuffer
  by_cases hmem : offset ∉ s.mapBufferOffsets
  · rw [if_pos hmem]
    exact ⟨_, _, rfl, h⟩
  · rw [if_neg hmem]
    obtain ⟨m, hm⟩ := Option.isSome_iff_exists.1 (AList.lookup_isSome.2 ((h.offsets offset).1 (not_not.1 hmem)))
    obtain ⟨hfixed, hsize, hfree⟩ := hmeets m hm
    have hok := h.mapping offset m hm
    have hpos := vm.pageBits_pos m.bigPage
    have hpages : m.size >>> vm.pageBits m.bigPage =
        (m.size + 2 ^ vm.pageBits m.bigPage - 1) / 2 ^ vm.pageBits m.bigPage := by
      have hsplit : m.size + 2 ^ vm.pageBits m.bigPage - 1 =
          (2 ^ vm.pageBits m.bigPage - 1) + m.size / 2 ^ vm.pageBits m.bigPage * 2 ^ vm.pageBits m.bigPage := by
        rw [Nat.div_mul_cancel (Nat.dvd_of_mod_eq_zero hsize)]
        omega
      rw [hsplit, add_mul_div_right _ _ hpos, div_eq_of_lt (by omega), zero_add, shiftRight_eq_div_pow]
    have hmem' : (offset >>> vm.pageBits m.bigPage,
        (m.size + 2 ^ vm.pageBits m.bigPage - 1) / 2 ^ vm.pageBits m.bigPage) ∈ live vm s m.bigPage :=
      mappingRegion_mem hm hfixed
    obtain ⟨-, -, hlimit⟩ := (h.allocators m.bigPage).inSpace _ hmem'
    have hlt := hlimit.trans_lt (vm.allocator m.bigPage).vaLimit_lt
    rw [hpages] at hfree
    obtain ⟨blocks, hcall, -, hinv⟩ := (h.allocators m.bigPage).free (hvm.virtStart_pos _) hmem' hfree
    have hoffset_lt : offset >>> vm.pageBits m.bigPage < 2 ^ 32 := lt_of_le_of_lt (le_add_right _ _) hlt
    have hpages_lt : (m.size + 2 ^ vm.pageBits m.bigPage - 1) / 2 ^ vm.pageBits m.bigPage < 2 ^ 32 :=
      lt_of_le_of_lt (le_add_left _ _) hlt
    simp only [hm, hfixed, Bool.false_eq_true, if_false, hok.offset_eq, hpages, Nat.mod_eq_of_lt hoffset_lt,
      Nat.mod_eq_of_lt hpages_lt, FlatAllocator.free, hcall, bind, Except.bind]
    refine ⟨_, _, rfl, ?_⟩
    have hmap : ((s.setPageAllocator m.bigPage ⟨blocks, (s.pageAllocator m.bigPage).currentLinearAllocEnd⟩).unpinHandle
        m.handle).mappingMap = s.mappingMap := setPageAllocator_mappingMap _ _ _
    have hoffsets : ((s.setPageAllocator m.bigPage
        ⟨blocks, (s.pageAllocator m.bigPage).currentLinearAllocEnd⟩).unpinHandle m.handle).mapBufferOffsets =
          s.mapBufferOffsets := setPageAllocator_mapBufferOffsets _ _ _
    rw [hmap, hoffsets]
    exact h.eraseMapping hm hfixed hinv

/-! ## Runs -/

/-- **Every call that meets the condition** completes and keeps the invariant. -/
lemma Inv.ioctl (h : Inv vm s) (hvm : vm.Sound) {a : Ioctl} (htyped : a.WellTyped) (hmeets : Meets vm nvmap s a) :
    ∃ result s', Nvdrv.ioctl vm nvmap s a = .ok (result, s') ∧ Inv vm s' := by
  cases a with
  | allocateSpace pages pageSize offset fixed sparse =>
    obtain ⟨result, _, s', hcall, hinv⟩ := h.allocateSpace hvm htyped hmeets
    exact ⟨result, s', by simp only [Nvdrv.ioctl, hcall, bind, Except.bind], hinv⟩
  | mapBufferEx handle mappingSize offset fixed remap =>
    obtain ⟨result, _, s', hcall, hinv⟩ := h.mapBufferEx hvm hmeets
    exact ⟨result, s', by simp only [Nvdrv.ioctl, hcall, bind, Except.bind], hinv⟩
  | unmapBuffer offset => exact h.unmapBuffer hvm hmeets
  | freeSpace offset pages pageSize => exact h.freeSpace hvm hmeets

lemma Run.inv (hvm : vm.Sound) (hrun : Run vm nvmap s) : Inv vm s := by
  induction hrun with
  | start => exact Inv.initial hvm
  | call _ htyped hmeets hexec ih =>
    obtain ⟨result, s', hexec', hinv⟩ := ih.ioctl hvm htyped hmeets
    obtain ⟨-, rfl⟩ := Prod.mk.inj (Except.ok.inj (hexec'.symm.trans hexec))
    exact hinv

end

/-- **The bookkeeping of the address space.**  In every run whose calls meet the condition, after every call: the
containers agree; the next call that meets the condition completes; `FreeSpace` of a live allocation with its own size and
page size succeeds, with mappings in it or not, if the allocator's condition for it holds; and once there are no
allocations and no mappings, no page is taken. -/
theorem bookkeeping_of_run (vm : Vm) (hvm : vm.Sound) (nvmap : ℕ → Option HandleInfo) {s : AsGpu}
    (hrun : Run vm nvmap s) :
    Consistent vm s ∧
    (∀ a : Ioctl, a.WellTyped → Meets vm nvmap s a → ∃ result s', ioctl vm nvmap s a = .ok (result, s')) ∧
    (∀ base allocation pages, s.allocationMap.lookup base = some allocation →
      allocation.size = pages * allocation.pageSize →
      (vm.allocator (decide (allocation.pageSize ≠ yuzuPageSize))).FreeMeets
        (s.pageAllocator (decide (allocation.pageSize ≠ yuzuPageSize)))
        (base >>> vm.pageBits (decide (allocation.pageSize ≠ yuzuPageSize))) pages →
      ∃ s', ioctl vm nvmap s (.freeSpace base pages allocation.pageSize) = .ok (.success, s')) ∧
    (s.allocationMap.entries = [] → s.mappingMap.entries = [] → ∀ big page, ¬ Taken vm s big page) := by
  have hinv := hrun.inv hvm
  refine ⟨hinv.consistent, ?_, ?_, ?_⟩
  · intro a htyped hmeets
    obtain ⟨result, s', hexec, -⟩ := hinv.ioctl hvm htyped hmeets
    exact ⟨result, s', hexec⟩
  · intro base allocation pages hlookup hpages hfree
    obtain ⟨s₁, a, -, hcall, -⟩ := hinv.freeSpace_succeeds hvm hlookup hpages hfree
    exact ⟨_, hcall⟩
  · intro hallocations hmappings big page htaken
    obtain ⟨r, hr, -⟩ := (hinv.consistent.pages big page).1 htaken
    rw [live, hallocations, hmappings] at hr
    cases hr

/-- The address space that `AllocAsEx` sets up without parameters. -/
def defaultVm : Vm where
  bigPageSizeBits := 17
  vaRangeStart := 2 ^ 27
  vaRangeSplit := 2 ^ 34
  vaRangeEnd := 2 ^ 37
  supported := .inr rfl

/-- One handle of 0x1800 bytes, for small pages. -/
def oneHandle (id : ℕ) : Option HandleInfo :=
  if id = 4 then some ⟨0x1000, 0x1800, by decide⟩ else none

def sixteenPages : AsGpu where
  smallPageAllocator := ⟨[⟨0, 0, ()⟩, ⟨0x8000, 1, ()⟩, ⟨0x8010, 0, ()⟩], 0x8010⟩
  bigPageAllocator := (defaultVm.allocator true).initialState
  mappingMap := ∅
  allocationMap := AList.singleton 0x8000000 ⟨[], 0x10000, 0x1000, false⟩
  mapBufferOffsets := ∅
  pins := fun _ => 0

/-- And a mapping of two pages is made behind them. -/
def twoMorePages : AsGpu where
  smallPageAllocator := ⟨[⟨0, 0, ()⟩, ⟨0x8000, 1, ()⟩, ⟨0x8010, 1, ()⟩, ⟨0x8012, 0, ()⟩], 0x8012⟩
  bigPageAllocator := (defaultVm.allocator true).initialState
  mappingMap := AList.singleton 0x8010000 ⟨4, 0x8010000, 0x2000, false, false⟩
  allocationMap := AList.singleton 0x8000000 ⟨[], 0x10000, 0x1000, false⟩
  mapBufferOffsets := {0x8010000}
  pins := update (fun _ => 0) 4 1

/-- Sixteen pages are allocated, a mapping of two pages is made behind them, and it is unmapped. -/
theorem bookkeeping_of_run_unmapped :
    ∃ s, Run defaultVm oneHandle s ∧ Consistent defaultVm s ∧
      s.allocationMap.entries = [⟨0x8000000, ⟨[], 0x10000, 0x1000, false⟩⟩] ∧ s.mappingMap.entries = [] ∧
      ¬ Taken defaultVm s false 0x8010 := by
  have hvm : defaultVm.Sound := ⟨by decide, by decide, by decide, by decide, by decide⟩
  have hallocate : Meets defaultVm oneHandle (AsGpu.initial defaultVm) (.allocateSpace 16 0x1000 0 false false) := by
    intro _ _
    refine ⟨by decide, fun _ e he => ?_, fun hbad => absurd hbad (by decide)⟩
    obtain rfl : (⟨0, 0, ()⟩ : Block 1 Unit) = e := Option.some.inj he
    exact rfl
  have hallocated : Run defaultVm oneHandle sixteenPages :=
    .call (a := .allocateSpace 16 0x1000 0 false false) .start (show 16 < 2 ^ 32 by decide) hallocate rfl
  have hmap : Meets defaultVm oneHandle sixteenPages (.mapBufferEx 4 0x2000 0 false false) := by
    intro _ info hinfo
    obtain rfl := Option.some.inj hinfo
    refine ⟨by decide, ⟨fun _ e he => ?_, fun hbad => absurd hbad (by decide)⟩, 0x8010, by decide, by decide, ?_⟩
    · obtain rfl : (⟨0x8010, 0, ()⟩ : Block 1 Unit) = e := Option.some.inj he
      exact rfl
    · rintro a ⟨hle, hlt⟩
      have ha : a = 0x8010 ∨ a = 0x8011 := by
        change 0x8010 ≤ a at hle
        change a < 0x8012 at hlt
        omega
      rcases ha with rfl | rfl <;> decide
  have hmapped : Run defaultVm oneHandle twoMorePages :=
    .call (a := .mapBufferEx 4 0x2000 0 false false) hallocated ⟨by decide, by decide⟩ hmap rfl
  have hunmap : Meets defaultVm oneHandle twoMorePages (.unmapBuffer 0x8010000) := by
    intro m hm
    obtain rfl : (⟨4, 0x8010000, 0x2000, false, false⟩ : Mapping) = m := Option.some.inj hm
    exact ⟨rfl, rfl, .inl (by decide)⟩
  have hrun := Run.call (a := .unmapBuffer 0x8010000) hmapped trivial hunmap rfl
  exact ⟨_, hrun, (bookkeeping_of_run defaultVm hvm oneHandle hrun).1, rfl, rfl, by decide⟩

def ioctls (vm : Vm) (nvmap : ℕ → Option HandleInfo) (s : AsGpu) : List Ioctl → Except Fault (List NvResult × AsGpu)
  | [] => .ok ([], s)
  | a :: rest => do
      let (result, s) ← ioctl vm nvmap s a
      let (results, s) ← ioctls vm nvmap s rest
      .ok (result :: results, s)

/-- A fixed mapping that is unmapped stays recorded in its allocation, and `FreeSpace` then fails.  A mapping of one page
and a half that is unmapped leaves a page taken. -/
theorem fixed_mapping_stays_recorded :
    (∃ results s, ioctls defaultVm oneHandle (AsGpu.initial defaultVm)
        [.allocateSpace 16 0x1000 0 false false, .mapBufferEx 4 0x1000 0x8000000 true false, .unmapBuffer 0x8000000] =
          .ok (results, s) ∧ ¬ Consistent defaultVm s ∧
      ∃ s', ioctl defaultVm oneHandle s (.freeSpace 0x8000000 16 0x1000) = .ok (.badValue, s')) ∧
    ∃ results s, ioctls defaultVm oneHandle (AsGpu.initial defaultVm)
        [.mapBufferEx 4 0 0 false false, .unmapBuffer 0x8000000] = .ok (results, s) ∧
      s.allocationMap.entries = [] ∧ s.mappingMap.entries = [] ∧ Taken defaultVm s false 0x8001 := by
  refine ⟨⟨_, _, rfl, ?_, _, rfl⟩, _, _, rfl, rfl, rfl, ?_⟩
  · intro h
    have hrecorded := h.recorded 0x8000000 ⟨[0x8000000], 0x10000, 0x1000, false⟩ rfl 0x8000000 (by decide)
    exact absurd hrecorded (by decide)
  · decide

end Voltemu.Nvdrv
