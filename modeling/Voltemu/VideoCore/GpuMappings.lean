import Voltemu.VideoCore.MemoryManager

/-!
# GPU mappings

What holds after every run of `Map`, `MapSparse` and `Unmap`.

* Entries: a word holds the entries of 32 pages, and a write of one of them leaves the others as they are.
* `SmallWritten` and `BigWritten`: what an operation on a range of pages writes.
* `Backed`: every mapped page has device memory behind it, and a big page that is marked as continuous has it at one place.
* `Apart`: no small page is mapped in a big page that is reserved.  The block operations and the translation of one address
  treat such a page differently.
* `Meant`: what a run means for the device addresses of the pages of both sizes.
-/

namespace Voltemu.VideoCore

open Voltemu.Core Overwrite Function BitVec Option Nat

/-! ## Entries -/

section Entries

/-- **A field of a word after a field is written**: `k` bits from `s` on are replaced. -/
lemma field_written {mask w v : BitVec 64} {k s t : ℕ} (hmask : ∀ i, mask.getLsbD i = decide (i < k))
    (hv : ∀ i, k ≤ i → v.getLsbD i = false) (hs : s + k ≤ 64) (hapart : t = s ∨ t + k ≤ s ∨ s + k ≤ t) :
    ((~~~(mask <<< s) &&& w ||| v <<< s) >>> t) &&& mask = if t = s then v else (w >>> t) &&& mask := by
  apply eq_of_getLsbD_eq
  intro i hi
  by_cases hik : i < k
  · by_cases hts : t = s
    · subst hts
      rw [if_pos rfl]
      simp only [getLsbD_and, getLsbD_ushiftRight, getLsbD_or, getLsbD_not, getLsbD_shiftLeft, hmask, add_sub_cancel_left]
      simp [hik, show t + i < 64 by omega]
    · rw [if_neg hts]
      simp only [getLsbD_and, getLsbD_ushiftRight, getLsbD_or, getLsbD_not, getLsbD_shiftLeft, hmask]
      by_cases hlow : t + i < s
      · simp [hik, hlow, show t + i < 64 by omega]
      · by_cases h64 : t + i < 64
        · simp only [hik, hlow, h64, hv (t + i - s) (by omega), show ¬ t + i - s < k by omega]
          simp
        · simp [h64, getLsbD_of_ge w _ (by omega : 64 ≤ t + i)]
  · by_cases hts : t = s
    · rw [if_pos hts, hv i (by omega), getLsbD_and, hmask, decide_eq_false hik, Bool.and_false]
    · rw [if_neg hts, getLsbD_and, getLsbD_and, hmask, decide_eq_false hik, Bool.and_false, Bool.and_false]

lemma three_bits (i : ℕ) : (3#64).getLsbD i = decide (i < 2) := by
  rcases lt_or_ge i 64 with h | h
  · interval_cases i <;> decide
  · simp [getLsbD_of_ge _ _ h]
    omega

lemma one_bits (i : ℕ) : (1#64).getLsbD i = decide (i < 1) := by
  rcases lt_or_ge i 64 with h | h
  · interval_cases i <;> decide
  · simp [getLsbD_of_ge _ _ h]
    omega

lemma value_bits (e : EntryType) (i : ℕ) (hi : 2 ≤ i) : e.value.getLsbD i = false := by
  have h : e.value &&& 3#64 = e.value := by cases e <;> decide
  rw [← h, getLsbD_and, three_bits, decide_eq_false (by omega), Bool.and_false]

lemma entryAt_withEntry (entries : ℕ → BitVec 64) (p q : ℕ) (e : EntryType) :
    entryAt (withEntry entries p e.value) q = if q = p then e.value else entryAt entries q := by
  unfold entryAt withEntry
  by_cases hword : q / 32 = p / 32
  · rw [hword, update_self, field_written three_bits (value_bits e) (by omega) (by omega)]
    by_cases hq : q = p
    · rw [if_pos hq, if_pos (by omega)]
    · rw [if_neg hq, if_neg (by omega)]
  · rw [update_of_ne hword, if_neg (by rintro rfl; exact hword rfl)]

lemma value_inj {e e' : EntryType} : e.value = e'.value ↔ e = e' := by
  cases e <;> cases e' <;> decide

end Entries

/-! ## Operations on ranges -/

namespace MemoryManager

/-- **The page sizes of an address space.**  Small pages are those of device memory.  The arrays have words of 64 bits, and an
address space fills them. -/
structure Geometry (m : MemoryManager) : Prop where
  page : m.pageBits = cpuPageBits
  big : cpuPageBits ≤ m.bigPageBits
  words : m.bigPageBits + 6 ≤ m.addressSpaceBits
  levels : 26 ≤ m.addressSpaceBits
  address : m.addressSpaceBits < 64

variable {m m' : MemoryManager} {memory : DeviceMemoryManager}

lemma usedPageSize_pos (m : MemoryManager) (b : Bool) : 0 < m.usedPageSize b := Nat.two_pow_pos _

lemma Geometry.usedPageBits_le (h : m.Geometry) (b : Bool) : m.usedPageBits b ≤ m.addressSpaceBits := by
  obtain ⟨hpage, hbig, hwords, -, -⟩ := h
  cases b with
  | false => simp only [usedPageBits, Bool.false_eq_true, if_false]; omega
  | true => simp only [usedPageBits, if_true]; omega

def pages (m : MemoryManager) (b : Bool) : ℕ := 2 ^ (m.addressSpaceBits - m.usedPageBits b)

lemma Geometry.pages_mul (h : m.Geometry) (b : Bool) : m.pages b * m.usedPageSize b = m.addressSpaceSize := by
  rw [pages, usedPageSize, ← pow_add, Nat.sub_add_cancel (h.usedPageBits_le b), addressSpaceSize]

variable {b : Bool} {a dev k n : ℕ}

lemma Geometry.page_lt (h : m.Geometry) (ha : a < m.addressSpaceSize) : a / m.usedPageSize b < m.pages b :=
  Nat.div_lt_of_lt_mul (by rw [mul_comm, h.pages_mul]; exact ha)

variable {p : ℕ}

lemma pageEntryIndex_page (hp : p < m.pages b) : m.pageEntryIndex b (p * m.usedPageSize b) = p := by
  rw [pageEntryIndex, Nat.mul_div_cancel _ (m.usedPageSize_pos b)]
  exact Nat.mod_eq_of_lt hp

lemma pageEntryIndex_of_lt (h : m.Geometry) (ha : a < m.addressSpaceSize) :
    m.pageEntryIndex b a = a / m.usedPageSize b := Nat.mod_eq_of_lt (h.page_lt ha)

/-- **What an operation on small pages writes**: `n` entries from a page on, and what is mapped there. -/
structure SmallWritten (m m' : MemoryManager) (e : EntryType) (p n dev : ℕ) : Prop where
  rest : m' = { m with entries := m'.entries, pageTable := m'.pageTable }
  entries : entryAt m'.entries = overwrite (entryAt m.entries) p n fun _ => e.value
  table : m'.pageTable =
    if e = .mapped then overwrite m.pageTable p n fun k => subValue (dev + k * m.usedPageSize false) else m.pageTable

/-- **What an operation on big pages writes.** -/
structure BigWritten (m m' : MemoryManager) (memory : DeviceMemoryManager) (e : EntryType) (p n dev : ℕ) : Prop where
  rest : m' = { m with
    bigEntries := m'.bigEntries, bigPageTableDev := m'.bigPageTableDev, bigPageContinuous := m'.bigPageContinuous }
  entries : entryAt m'.bigEntries = overwrite (entryAt m.bigEntries) p n fun _ => e.value
  table : m'.bigPageTableDev =
    if e = .mapped then overwrite m.bigPageTableDev p n fun k => subValue (dev + k * m.usedPageSize true)
    else m.bigPageTableDev
  continuous : m'.isBigPageContinuous =
    if e = .mapped then overwrite m.isBigPageContinuous p n fun k => m.isContinuous memory (dev + k * m.usedPageSize true)
    else m.isBigPageContinuous

lemma entryAt_withEntry_eq (entries : ℕ → BitVec 64) (p : ℕ) (e : EntryType) :
    entryAt (withEntry entries p e.value) = overwrite (entryAt entries) p 1 fun _ => e.value := by
  funext q
  rw [entryAt_withEntry]
  by_cases hq : q = p
  · rw [if_pos hq, overwrite_inside (by omega)]
  · rw [if_neg hq, overwrite_outside (by omega)]

lemma pageOp_eq (m : MemoryManager) (e : EntryType) (dev : ℕ) (hp : p < m.pages false) :
    m.pageOp e (p * m.usedPageSize false) dev =
      { m with
        entries := withEntry m.entries p e.value
        pageTable := if e = .mapped then update m.pageTable p (subValue dev) else m.pageTable } := by
  have hindex := pageEntryIndex_page hp
  have hdiv : p * m.usedPageSize false / m.usedPageSize false = p := Nat.mul_div_cancel _ (m.usedPageSize_pos false)
  unfold pageOp setEntry
  rw [if_neg Bool.false_ne_true, hdiv]
  by_cases he : e = .mapped
  · rw [if_pos he, if_pos he]
    change MemoryManager.mk _ _ _ _ _ (update m.pageTable (m.pageEntryIndex false _) _) _ _ = _
    rw [hindex]
  · rw [if_neg he, if_neg he]

lemma SmallWritten.pageOp (m : MemoryManager) (e : EntryType) (dev : ℕ) (hp : p < m.pages false) :
    m.SmallWritten (m.pageOp e (p * m.usedPageSize false) dev) e p 1 dev := by
  rw [pageOp_eq m e dev hp]
  refine ⟨rfl, entryAt_withEntry_eq _ _ _, ?_⟩
  by_cases he : e = .mapped
  · dsimp only
    rw [if_pos he, if_pos he, update_eq_overwrite]
    refine overwrite_congr fun k hk => ?_
    rw [show k = 0 by omega, Nat.zero_mul, Nat.add_zero]
  · dsimp only
    rw [if_neg he, if_neg he]

variable {m1 m2 : MemoryManager}

lemma SmallWritten.append {e : EntryType} {p : ℕ} (h1 : m.SmallWritten m1 e p k dev)
    (h2 : m1.SmallWritten m2 e (p + k) n (dev + k * m.usedPageSize false)) : m.SmallWritten m2 e p (k + n) dev := by
  have hsize : m1.usedPageSize false = m.usedPageSize false := by rw [h1.rest]; rfl
  refine ⟨?_, ?_, ?_⟩
  · rw [h2.rest, h1.rest]
  · rw [h2.entries]
    exact Patched.append h1.entries fun _ _ => rfl
  · rw [h2.table]
    have htable := h1.table
    by_cases he : e = .mapped
    · rw [if_pos he] at htable ⊢
      rw [if_pos he]
      refine Patched.append htable fun i _ => ?_
      rw [hsize, Nat.add_mul, Nat.add_assoc]
    · rw [if_neg he] at htable ⊢
      rw [if_neg he, htable]

lemma SmallWritten.zero (m : MemoryManager) (e : EntryType) (p dev : ℕ) : m.SmallWritten m e p 0 dev := by
  refine ⟨rfl, Patched.refl _ _ _, ?_⟩
  by_cases he : e = .mapped
  · rw [if_pos he]
    exact Patched.refl _ _ _
  · rw [if_neg he]

lemma pageTableOpLoop_spec (e : EntryType) (n : ℕ) (dev : ℕ) (m : MemoryManager) (hp : p + n ≤ m.pages false) :
    m.SmallWritten (pageTableOpLoop e n (p * m.usedPageSize false) dev m) e p n dev := by
  induction n generalizing p dev m with
  | zero => exact .zero m e p dev
  | succ n ih =>
    have hfirst := SmallWritten.pageOp m e dev (by omega : p < m.pages false)
    have hsize : (m.pageOp e (p * m.usedPageSize false) dev).usedPageSize false = m.usedPageSize false := by
      rw [hfirst.rest]; rfl
    have hpages : (m.pageOp e (p * m.usedPageSize false) dev).pages false = m.pages false := by rw [hfirst.rest]; rfl
    have hrest := ih (dev + m.usedPageSize false) (m.pageOp e (p * m.usedPageSize false) dev)
      (by rw [hpages]; omega : p + 1 + n ≤ _)
    rw [hsize, Nat.add_mul, Nat.one_mul] at hrest
    rw [pageTableOpLoop, Nat.add_comm n 1]
    exact hfirst.append (by rwa [Nat.one_mul])

lemma bigPageOp_eq (m : MemoryManager) (memory : DeviceMemoryManager) (e : EntryType) (dev : ℕ) (hp : p < m.pages true) :
    m.bigPageOp memory e (p * m.usedPageSize true) dev =
      if e = .mapped then
        { m with
          bigEntries := withEntry m.bigEntries p e.value
          bigPageTableDev := update m.bigPageTableDev p (subValue dev) }.setBigPageContinuous p
            (m.isContinuous memory dev)
      else { m with bigEntries := withEntry m.bigEntries p e.value } := by
  have hindex := pageEntryIndex_page hp
  have hdiv : p * m.usedPageSize true / m.usedPageSize true = p := Nat.mul_div_cancel _ (m.usedPageSize_pos true)
  unfold bigPageOp setEntry
  rw [if_pos rfl, hdiv]
  by_cases he : e = .mapped
  · rw [if_pos he, if_pos he]
    change MemoryManager.setBigPageContinuous
      { m with
        bigEntries := withEntry m.bigEntries p e.value
        bigPageTableDev := update m.bigPageTableDev (m.pageEntryIndex true _) _ }
      (m.pageEntryIndex true _) (m.isContinuous memory dev) = _
    rw [hindex]
  · rw [if_neg he, if_neg he]

lemma isBigPageContinuous_set (m : MemoryManager) (p q : ℕ) (v : Bool) :
    (m.setBigPageContinuous p v).isBigPageContinuous q = if q = p then v else m.isBigPageContinuous q := by
  have hvalue : (if v then 1#64 <<< (p % 64) else 0#64) = (if v then 1#64 else 0#64) <<< (p % 64) := by
    cases v <;> simp
  have hbits : ∀ i, 1 ≤ i → (if v then 1#64 else 0#64).getLsbD i = false := by
    intro i hi
    cases v with
    | false => simp
    | true => rw [if_pos rfl, one_bits, decide_eq_false (by omega)]
  unfold isBigPageContinuous setBigPageContinuous
  dsimp only
  by_cases hword : q / 64 = p / 64
  · rw [hword, update_self, hvalue, field_written one_bits hbits (by omega) (by omega)]
    by_cases hq : q = p
    · rw [if_pos hq, if_pos (by omega)]
      cases v <;> rfl
    · rw [if_neg hq, if_neg (by omega)]
  · rw [update_of_ne hword, if_neg (by rintro rfl; exact hword rfl)]

lemma isBigPageContinuous_set_eq (m : MemoryManager) (p : ℕ) (v : Bool) :
    (m.setBigPageContinuous p v).isBigPageContinuous = overwrite m.isBigPageContinuous p 1 fun _ => v := by
  funext q
  rw [isBigPageContinuous_set]
  by_cases hq : q = p
  · rw [if_pos hq, overwrite_inside (by omega)]
  · rw [if_neg hq, overwrite_outside (by omega)]

lemma BigWritten.bigPageOp (m : MemoryManager) (memory : DeviceMemoryManager) (e : EntryType) (dev : ℕ)
    (hp : p < m.pages true) :
    m.BigWritten (m.bigPageOp memory e (p * m.usedPageSize true) dev) memory e p 1 dev := by
  rw [bigPageOp_eq m memory e dev hp]
  by_cases he : e = .mapped
  · rw [if_pos he]
    refine ⟨rfl, entryAt_withEntry_eq _ _ _, ?_, ?_⟩
    · rw [if_pos he]
      change update m.bigPageTableDev p (subValue dev) = _
      rw [update_eq_overwrite]
      refine overwrite_congr fun k hk => ?_
      rw [show k = 0 by omega, Nat.zero_mul, Nat.add_zero]
    · rw [if_pos he, isBigPageContinuous_set_eq]
      refine overwrite_congr fun k hk => ?_
      rw [show k = 0 by omega, Nat.zero_mul, Nat.add_zero]
  · rw [if_neg he]
    exact ⟨rfl, entryAt_withEntry_eq _ _ _, (if_neg he).symm, (if_neg he).symm⟩

lemma BigWritten.append {e : EntryType} {p : ℕ} (h1 : m.BigWritten m1 memory e p k dev)
    (h2 : m1.BigWritten m2 memory e (p + k) n (dev + k * m.usedPageSize true)) : m.BigWritten m2 memory e p (k + n) dev := by
  have hsize : m1.usedPageSize true = m.usedPageSize true := by rw [h1.rest]; rfl
  have hcontinuous : m1.isContinuous memory = m.isContinuous memory := by rw [h1.rest]; rfl
  refine ⟨?_, ?_, ?_, ?_⟩
  · rw [h2.rest, h1.rest]
  · rw [h2.entries]
    exact Patched.append h1.entries fun _ _ => rfl
  · rw [h2.table]
    have htable := h1.table
    by_cases he : e = .mapped
    · rw [if_pos he] at htable ⊢
      rw [if_pos he]
      refine Patched.append htable fun i _ => ?_
      rw [hsize, Nat.add_mul, Nat.add_assoc]
    · rw [if_neg he] at htable ⊢
      rw [if_neg he, htable]
  · rw [h2.continuous]
    have hbits := h1.continuous
    by_cases he : e = .mapped
    · rw [if_pos he] at hbits ⊢
      rw [if_pos he]
      refine Patched.append hbits fun i _ => ?_
      rw [hsize, hcontinuous, Nat.add_mul, Nat.add_assoc]
    · rw [if_neg he] at hbits ⊢
      rw [if_neg he, hbits]

lemma BigWritten.zero (m : MemoryManager) (memory : DeviceMemoryManager) (e : EntryType) (p dev : ℕ) :
    m.BigWritten m memory e p 0 dev := by
  refine ⟨rfl, Patched.refl _ _ _, ?_, ?_⟩
  all_goals
    by_cases he : e = .mapped
    · rw [if_pos he]
      exact Patched.refl _ _ _
    · rw [if_neg he]

lemma bigPageTableOp_spec (memory : DeviceMemoryManager) (e : EntryType) (n : ℕ) (dev : ℕ) (m : MemoryManager)
    (hp : p + n ≤ m.pages true) :
    m.BigWritten (bigPageTableOp memory e n (p * m.usedPageSize true) dev m) memory e p n dev := by
  induction n generalizing p dev m with
  | zero => exact .zero m memory e p dev
  | succ n ih =>
    have hfirst := BigWritten.bigPageOp m memory e dev (by omega : p < m.pages true)
    have hsize : (m.bigPageOp memory e (p * m.usedPageSize true) dev).usedPageSize true = m.usedPageSize true := by
      rw [hfirst.rest]; rfl
    have hpages : (m.bigPageOp memory e (p * m.usedPageSize true) dev).pages true = m.pages true := by
      rw [hfirst.rest]; rfl
    have hrest := ih (dev + m.usedPageSize true) (m.bigPageOp memory e (p * m.usedPageSize true) dev)
      (by rw [hpages]; omega : p + 1 + n ≤ _)
    rw [hsize, Nat.add_mul, Nat.one_mul] at hrest
    rw [bigPageTableOp, Nat.add_comm n 1]
    exact hfirst.append (by rwa [Nat.one_mul])

end MemoryManager

/-! ## Device memory behind pages -/

section Pointers

variable (memory : DeviceMemoryManager)

lemma pageSize_pos : 0 < pageSize := by decide

variable {o a : ℕ}

lemma getPointer_add (p : ℕ) (ho : o < pageSize) :
    getPointer memory (p * pageSize + o) = (getPointer memory (p * pageSize)).map (· + o) := by
  have hdiv : (p * pageSize + o) / pageSize = p := by
    rw [Nat.add_comm, add_mul_div_right o p pageSize_pos, Nat.div_eq_of_lt ho, zero_add]
  have hmod : (p * pageSize + o) % pageSize = o := mul_add_mod_of_lt ho
  unfold getPointer
  rw [hdiv, hmod, Nat.mul_div_cancel p pageSize_pos, mul_mod_left]
  by_cases h : (memory.trackedEntries p).compressedPhysicalPtr = 0
  · rw [if_pos h, if_pos h]; rfl
  · rw [if_neg h, if_neg h, map_some, Nat.add_zero]

lemma getPointer_eq (a : ℕ) :
    getPointer memory a = (getPointer memory (a / pageSize * pageSize)).map (· + a % pageSize) := by
  rw [← getPointer_add memory _ (mod_lt _ pageSize_pos), div_add_mod']

lemma getPointer_within (ho : a % pageSize + o < pageSize) :
    getPointer memory (a + o) = (getPointer memory a).map (· + o) := by
  rw [getPointer_eq memory a, map_map, show a + o = a / pageSize * pageSize + (a % pageSize + o) by
    rw [← Nat.add_assoc, div_add_mod'], getPointer_add memory _ ho]
  congr 1
  funext x
  exact (Nat.add_assoc _ _ _).symm

lemma getPointer_isSome_iff (a : ℕ) :
    (getPointer memory a).isSome = (getPointer memory (a / pageSize * pageSize)).isSome := by
  rw [getPointer_eq, isSome_map]

def DeviceMapped (address : ℕ) : Prop := address < devicePages * pageSize ∧ (getPointer memory address).isSome

lemma devAddrBase_subValue (ha : a < devicePages * pageSize) :
    MemoryManager.devAddrBase (MemoryManager.subValue a) = a / pageSize * pageSize := by
  have hpage : a / 4096 < 2 ^ 32 := by
    unfold devicePages pageSize pageBits at ha
    omega
  unfold MemoryManager.devAddrBase MemoryManager.subValue MemoryManager.cpuPageBits pageSize pageBits
  rw [toNat_ofNat, Nat.shiftRight_eq_div_pow, Nat.shiftLeft_eq]
  rw [Nat.mod_eq_of_lt hpage]
  norm_num

end Pointers

namespace MemoryManager

variable {m m' : MemoryManager} {memory : DeviceMemoryManager}

lemma Geometry.small_eq (h : m.Geometry) : m.usedPageSize false = pageSize := by
  rw [usedPageSize, usedPageBits, if_neg Bool.false_ne_true, h.page]
  rfl

lemma Geometry.small_dvd (h : m.Geometry) : pageSize ∣ m.usedPageSize true := by
  rw [usedPageSize, usedPageBits, if_pos rfl]
  exact pow_dvd_pow 2 h.big

variable {j n dev p : ℕ}

lemma isContinuousLoop_spec {U start base : ℕ} (h : isContinuousLoop memory U n start base = true) (hj : j < n) :
    getPointer memory (start + j * U) = some (base + (j + 1) * U) := by
  induction n generalizing start base j with
  | zero => omega
  | succ n ih =>
    unfold isContinuousLoop at h
    cases hptr : getPointer memory start with
    | none => rw [hptr] at h; exact absurd h Bool.false_ne_true
    | some next =>
      rw [hptr] at h
      dsimp only at h
      by_cases hnext : base + U = next
      · rw [if_pos hnext] at h
        cases j with
        | zero => rw [Nat.zero_mul, Nat.add_zero, hptr, zero_add, Nat.one_mul, hnext]
        | succ j =>
          rw [show start + (j + 1) * U = start + U + j * U by ring, ih h (by omega)]
          congr 1
          ring
      · rw [if_neg hnext] at h
        exact absurd h Bool.false_ne_true

/-- **A big page that is found continuous**: its small pages follow each other. -/
lemma isContinuous_spec (hg : m.Geometry) (h : m.isContinuous memory dev = true)
    (hj : j * pageSize < m.usedPageSize true) :
    getPointer memory (dev + j * pageSize) = (getPointer memory dev).map (· + j * pageSize) := by
  unfold isContinuous at h
  cases hptr : getPointer memory dev with
  | none => rw [hptr] at h; exact absurd h Bool.false_ne_true
  | some base =>
    rw [hptr, hg.small_eq] at h
    cases j with
    | zero => rw [Nat.zero_mul, Nat.add_zero, hptr]; rfl
    | succ j =>
      have hlt : j < (m.usedPageSize true - 1) / pageSize :=
        (le_div_iff_mul_le pageSize_pos).2 (by rw [succ_eq_add_one]; omega)
      have hnext := isContinuousLoop_spec h hlt
      rw [show dev + (j + 1) * pageSize = dev + pageSize + j * pageSize by ring, hnext]
      rfl

/-- **Every mapped page has device memory behind it**, which is at one place if the page is marked as continuous. -/
structure Backed (m : MemoryManager) (memory : DeviceMemoryManager) : Prop where
  small : ∀ p, entryAt m.entries p = EntryType.mapped.value → (getPointer memory (devAddrBase (m.pageTable p))).isSome
  big : ∀ p, entryAt m.bigEntries p = EntryType.mapped.value → ∀ o < m.usedPageSize true,
    (getPointer memory (devAddrBase (m.bigPageTableDev p) + o)).isSome
  continuous : ∀ p, entryAt m.bigEntries p = EntryType.mapped.value → m.isBigPageContinuous p = true →
    ∀ o < m.usedPageSize true, getPointer memory (devAddrBase (m.bigPageTableDev p) + o) =
      (getPointer memory (devAddrBase (m.bigPageTableDev p))).map (· + o)

lemma SmallWritten.backed {e : EntryType} (h : m.SmallWritten m' e p n dev)
    (hb : m.Backed memory) (hdev : e = .mapped → ∀ o < n * m.usedPageSize false, DeviceMapped memory (dev + o)) :
    m'.Backed memory := by
  have hpos := m.usedPageSize_pos false
  refine ⟨?_, ?_, ?_⟩
  · intro q hq
    rw [h.entries] at hq
    by_cases hin : p ≤ q ∧ q < p + n
    · rw [overwrite_inside hin, value_inj] at hq
      have hmapped := hdev hq ((q - p) * m.usedPageSize false) (mul_lt_mul_of_pos_right (by omega) hpos)
      rw [h.table, if_pos hq, overwrite_inside hin, devAddrBase_subValue hmapped.1, ← getPointer_isSome_iff]
      exact hmapped.2
    · rw [overwrite_outside hin] at hq
      have htable : m'.pageTable q = m.pageTable q := by
        rw [h.table]
        by_cases he : e = .mapped
        · rw [if_pos he, overwrite_outside hin]
        · rw [if_neg he]
      rw [htable]
      exact hb.small q hq
  · rw [h.rest]
    exact hb.big
  · rw [h.rest]
    exact hb.continuous

lemma getPointer_offset (dev o : ℕ) :
    getPointer memory (dev / pageSize * pageSize + o) =
      (getPointer memory ((dev + o / pageSize * pageSize) / pageSize * pageSize)).map (· + o % pageSize) := by
  have hpage : dev / pageSize * pageSize + o / pageSize * pageSize = (dev + o / pageSize * pageSize) / pageSize * pageSize := by
    rw [add_mul_div_right _ _ pageSize_pos, Nat.add_mul]
  rw [← getPointer_add memory _ (mod_lt _ pageSize_pos), ← hpage, Nat.add_assoc, div_add_mod']

/-- **A big page that is found continuous** has one range of memory behind it. -/
lemma isContinuous_together (hg : m.Geometry) (h : m.isContinuous memory dev = true) :
    ∃ ptr, ∀ o < m.usedPageSize true, getPointer memory (dev / pageSize * pageSize + o) = some (ptr + o) := by
  have hfound : (getPointer memory dev).isSome := by
    unfold isContinuous at h
    cases hptr : getPointer memory dev with
    | none => rw [hptr] at h; exact absurd h Bool.false_ne_true
    | some base => rfl
  obtain ⟨base, hbase⟩ := isSome_iff_exists.1 hfound
  rw [getPointer_eq] at hbase
  obtain ⟨first, hfirst, rfl⟩ := map_eq_some_iff.1 hbase
  refine ⟨first, fun o ho => ?_⟩
  have hcont := isContinuous_spec hg h ((div_mul_le_self o pageSize).trans_lt ho)
  rw [getPointer_eq memory dev, hfirst, getPointer_eq memory (dev + _), add_mul_mod_self_right] at hcont
  obtain ⟨next, hnext, heq⟩ := map_eq_some_iff.1 hcont
  rw [getPointer_offset, hnext]
  have hsum := div_add_mod' o pageSize
  simp only [map_some, Option.some.injEq] at heq ⊢
  omega

lemma bigPage_backed (hg : m.Geometry) (hdev : ∀ o < m.usedPageSize true, DeviceMapped memory (dev + o)) :
    (∀ o < m.usedPageSize true, (getPointer memory (dev / pageSize * pageSize + o)).isSome) ∧
      (m.isContinuous memory dev = true → ∀ o < m.usedPageSize true,
        getPointer memory (dev / pageSize * pageSize + o) =
          (getPointer memory (dev / pageSize * pageSize)).map (· + o)) := by
  refine ⟨?_, ?_⟩
  · intro o ho
    rw [getPointer_offset, isSome_map, ← getPointer_isSome_iff]
    exact (hdev _ ((div_mul_le_self o pageSize).trans_lt ho)).2
  · intro hcont o ho
    obtain ⟨ptr, htogether⟩ := isContinuous_together hg hcont
    have hfirst := htogether 0 (m.usedPageSize_pos true)
    rw [Nat.add_zero, Nat.add_zero] at hfirst
    rw [htogether o ho, hfirst]
    rfl

lemma BigWritten.backed {e : EntryType} (h : m.BigWritten m' memory e p n dev) (hg : m.Geometry)
    (hb : m.Backed memory) (hdev : e = .mapped → ∀ o < n * m.usedPageSize true, DeviceMapped memory (dev + o)) :
    m'.Backed memory := by
  have hpos := m.usedPageSize_pos true
  have hsize : m'.usedPageSize true = m.usedPageSize true := by rw [h.rest]; rfl
  -- the pages outside of the range
  have hout : ∀ q, ¬ (p ≤ q ∧ q < p + n) → m'.bigPageTableDev q = m.bigPageTableDev q ∧
      m'.isBigPageContinuous q = m.isBigPageContinuous q := by
    intro q hq
    rw [h.table, h.continuous]
    by_cases he : e = .mapped
    · rw [if_pos he, if_pos he, overwrite_outside hq, overwrite_outside hq]
      exact ⟨rfl, rfl⟩
    · rw [if_neg he, if_neg he]
      exact ⟨rfl, rfl⟩
  -- and those in it
  have hin : ∀ q, p ≤ q ∧ q < p + n → e = .mapped →
      (∀ o < m.usedPageSize true, DeviceMapped memory (dev + (q - p) * m.usedPageSize true + o)) ∧
        devAddrBase (m'.bigPageTableDev q) = (dev + (q - p) * m.usedPageSize true) / pageSize * pageSize ∧
        m'.isBigPageContinuous q = m.isContinuous memory (dev + (q - p) * m.usedPageSize true) := by
    intro q hq he
    have hmapped : ∀ o < m.usedPageSize true, DeviceMapped memory (dev + (q - p) * m.usedPageSize true + o) := by
      intro o ho
      have hlt : (q - p) * m.usedPageSize true + o < n * m.usedPageSize true := by
        have := mul_le_mul_right (m.usedPageSize true) (by omega : q - p + 1 ≤ n)
        rw [Nat.add_mul, Nat.one_mul] at this
        omega
      rw [Nat.add_assoc]
      exact hdev he _ hlt
    refine ⟨hmapped, ?_, ?_⟩
    · rw [h.table, if_pos he, overwrite_inside hq]
      exact devAddrBase_subValue (hmapped 0 hpos).1
    · rw [h.continuous, if_pos he, overwrite_inside hq]
  refine ⟨?_, ?_, ?_⟩
  · rw [h.rest]
    exact hb.small
  · intro q hq o ho
    rw [hsize] at ho
    rw [h.entries] at hq
    by_cases hrange : p ≤ q ∧ q < p + n
    · rw [overwrite_inside hrange, value_inj] at hq
      obtain ⟨hmapped, htable, -⟩ := hin q hrange hq
      rw [htable]
      exact (bigPage_backed hg hmapped).1 o ho
    · rw [overwrite_outside hrange] at hq
      rw [(hout q hrange).1]
      exact hb.big q hq o ho
  · intro q hq hcont o ho
    rw [hsize] at ho
    rw [h.entries] at hq
    by_cases hrange : p ≤ q ∧ q < p + n
    · rw [overwrite_inside hrange, value_inj] at hq
      obtain ⟨hmapped, htable, hbits⟩ := hin q hrange hq
      rw [hbits] at hcont
      rw [htable]
      exact (bigPage_backed hg hmapped).2 hcont o ho
    · rw [overwrite_outside hrange] at hq
      rw [(hout q hrange).2] at hcont
      rw [(hout q hrange).1]
      exact hb.continuous q hq hcont o ho

end MemoryManager

/-! ## Runs -/

/-- `Map`, `MapSparse` and `Unmap`, with their arguments. -/
inductive GpuOp
  | map (gpuAddr devAddr size : ℕ) (isBigPages : Bool)
  | mapSparse (gpuAddr size : ℕ) (isBigPages : Bool)
  | unmap (gpuAddr size : ℕ)

namespace GpuOp

def apply (memory : DeviceMemoryManager) (m : MemoryManager) : GpuOp → Option MemoryManager
  | map gpuAddr devAddr size isBigPages => m.map memory gpuAddr devAddr size isBigPages
  | mapSparse gpuAddr size isBigPages => m.mapSparse memory gpuAddr size isBigPages
  | unmap gpuAddr size => m.unmap memory gpuAddr size

def InPages (m : MemoryManager) (isBigPages : Bool) (gpuAddr size : ℕ) : Prop :=
  m.usedPageSize isBigPages ∣ gpuAddr ∧ m.usedPageSize isBigPages ∣ size ∧ gpuAddr + size ≤ m.addressSpaceSize

/-- **Ranges are aligned to the page size that they use**, and what is mapped is mapped to device memory. -/
def Valid (memory : DeviceMemoryManager) (m : MemoryManager) : GpuOp → Prop
  | map gpuAddr devAddr size isBigPages => InPages m isBigPages gpuAddr size ∧ ∀ o < size, DeviceMapped memory (devAddr + o)
  | mapSparse gpuAddr size isBigPages => InPages m isBigPages gpuAddr size
  | unmap gpuAddr size => InPages m true gpuAddr size

end GpuOp

namespace MemoryManager

variable {m m' : MemoryManager} {memory : DeviceMemoryManager}

/-- An address in a small page that is mapped and in a big page that is reserved. -/
def Conflict (m : MemoryManager) (gpuAddr : ℕ) : Prop :=
  m.getEntry true gpuAddr = EntryType.reserved.value ∧ m.getEntry false gpuAddr = EntryType.mapped.value

/-- **No small page is mapped in a big page that is reserved.** -/
def Apart (m : MemoryManager) : Prop := ∀ a < m.addressSpaceSize, ¬ m.Conflict a

end MemoryManager

/-- **An operation keeps the two page sizes apart**: it maps no small page where big pages are reserved, and reserves no big
page where small pages are mapped. -/
def GpuOp.KeepsApart (m : MemoryManager) : GpuOp → Prop
  | map gpuAddr _ size false => ∀ a, gpuAddr ≤ a → a < gpuAddr + size → m.getEntry true a ≠ EntryType.reserved.value
  | mapSparse gpuAddr size true => ∀ a, gpuAddr ≤ a → a < gpuAddr + size → m.getEntry false a ≠ EntryType.mapped.value
  | _ => True

/-- **Which operations the code carries out**: small pages are mapped before the end of an address space that has them.  The
last index that is reserved is that of the end. -/
def GpuOp.Fits (m : MemoryManager) : GpuOp → Prop
  | map gpuAddr _ size false => m.pageBits ≠ m.bigPageBits ∧ gpuAddr + size < m.addressSpaceSize
  | _ => True

/-- **What an operation means** for the device addresses of the two page sizes. -/
def GpuOp.meaning (σ : Bool → ℕ → Option ℕ) : GpuOp → Bool → ℕ → Option ℕ
  | map gpuAddr devAddr size isBigPages =>
      update σ isBigPages (overwrite (σ isBigPages) gpuAddr size fun i => some (devAddr / pageSize * pageSize + i))
  | mapSparse gpuAddr size isBigPages => update σ isBigPages (overwrite (σ isBigPages) gpuAddr size fun _ => none)
  | unmap gpuAddr size => fun isBigPages => overwrite (σ isBigPages) gpuAddr size fun _ => none

/-- The states after runs of operations that meet a condition. -/
inductive Reached (memory : DeviceMemoryManager) (ok : MemoryManager → GpuOp → Prop) (start : MemoryManager) :
    MemoryManager → Prop
  | start : Reached memory ok start start
  | step {m m' : MemoryManager} {op : GpuOp} : Reached memory ok start m → ok m op → op.apply memory m = some m' →
      Reached memory ok start m'

/-- The states after runs of operations, and what the runs mean. -/
inductive Meant (memory : DeviceMemoryManager) (start : MemoryManager) : MemoryManager → (Bool → ℕ → Option ℕ) → Prop
  | start : Meant memory start start fun _ _ => none
  | step {m m' : MemoryManager} {op : GpuOp} {σ : Bool → ℕ → Option ℕ} : Meant memory start m σ → op.Valid memory m →
      op.apply memory m = some m' → Meant memory start m' (op.meaning σ)

namespace MemoryManager

variable {m m' : MemoryManager} {memory : DeviceMemoryManager}

variable {p n dev : ℕ} {g s : ℕ}

lemma inPages_spec (hg : m.Geometry) {b : Bool} (h : GpuOp.InPages m b g s) :
    ∃ p, g = p * m.usedPageSize b ∧ s = m.iterations b s * m.usedPageSize b ∧ p + m.iterations b s ≤ m.pages b := by
  obtain ⟨⟨p, hp⟩, ⟨n, hn⟩, hin⟩ := h
  have hpos := m.usedPageSize_pos b
  have hiter : m.iterations b s = n := by
    rw [iterations, hn, Nat.add_sub_assoc hpos, Nat.mul_add_div hpos, Nat.div_eq_of_lt (by omega), Nat.add_zero]
  refine ⟨p, by rw [hp, Nat.mul_comm], by rw [hiter, hn, Nat.mul_comm], ?_⟩
  rw [hiter]
  have hle : (p + n) * m.usedPageSize b ≤ m.pages b * m.usedPageSize b := by
    rw [hg.pages_mul, Nat.add_mul, Nat.mul_comm p, Nat.mul_comm n, ← hp, ← hn]
    exact hin
  exact le_of_mul_le_mul_right hle hpos

lemma page_mem_iff {b : Bool} {p n a : ℕ} :
    (p ≤ a / m.usedPageSize b ∧ a / m.usedPageSize b < p + n) ↔
      p * m.usedPageSize b ≤ a ∧ a < p * m.usedPageSize b + n * m.usedPageSize b := by
  have hpos := m.usedPageSize_pos b
  rw [le_div_iff_mul_le hpos, div_lt_iff_lt_mul hpos, Nat.add_mul]

lemma SmallWritten.getEntry {e : EntryType} (h : m.SmallWritten m' e p n dev) (a : ℕ) :
    m'.getEntry true a = m.getEntry true a ∧
      (p ≤ a / m.usedPageSize false ∧ a / m.usedPageSize false < p + n → m'.getEntry false a = e.value) ∧
      (¬ (p ≤ a / m.usedPageSize false ∧ a / m.usedPageSize false < p + n) → m'.getEntry false a = m.getEntry false a) := by
  have hsmall : m'.getEntry false a = entryAt m'.entries (a / m.usedPageSize false) := by rw [h.rest]; rfl
  refine ⟨by rw [h.rest]; rfl, ?_, ?_⟩
  · intro hin
    rw [hsmall, h.entries, overwrite_inside hin]
  · intro hout
    rw [hsmall, h.entries, overwrite_outside hout]
    rfl

lemma BigWritten.getEntry {e : EntryType} (h : m.BigWritten m' memory e p n dev) (a : ℕ) :
    m'.getEntry false a = m.getEntry false a ∧
      (p ≤ a / m.usedPageSize true ∧ a / m.usedPageSize true < p + n → m'.getEntry true a = e.value) ∧
      (¬ (p ≤ a / m.usedPageSize true ∧ a / m.usedPageSize true < p + n) → m'.getEntry true a = m.getEntry true a) := by
  have hbig : m'.getEntry true a = entryAt m'.bigEntries (a / m.usedPageSize true) := by rw [h.rest]; rfl
  refine ⟨by rw [h.rest]; rfl, ?_, ?_⟩
  · intro hin
    rw [hbig, h.entries, overwrite_inside hin]
  · intro hout
    rw [hbig, h.entries, overwrite_outside hout]
    rfl

lemma SmallWritten.geometry {e : EntryType} (h : m.SmallWritten m' e p n dev) (hg : m.Geometry) : m'.Geometry := by
  rw [h.rest]
  exact ⟨hg.page, hg.big, hg.words, hg.levels, hg.address⟩

lemma BigWritten.geometry {e : EntryType} (h : m.BigWritten m' memory e p n dev) (hg : m.Geometry) : m'.Geometry := by
  rw [h.rest]
  exact ⟨hg.page, hg.big, hg.words, hg.levels, hg.address⟩

lemma BigWritten.apart {e : EntryType} (h : m.BigWritten m' memory e p n dev) (ha : m.Apart)
    (hkeeps : e = .reserved → ∀ a, p * m.usedPageSize true ≤ a → a < p * m.usedPageSize true + n * m.usedPageSize true →
      m.getEntry false a ≠ EntryType.mapped.value) : m'.Apart := by
  rintro a hlt ⟨hreserved, hmapped⟩
  obtain ⟨hsmall, hin, hout⟩ := h.getEntry a
  rw [hsmall] at hmapped
  have hlt : a < m.addressSpaceSize := by rw [h.rest] at hlt; exact hlt
  by_cases hrange : p ≤ a / m.usedPageSize true ∧ a / m.usedPageSize true < p + n
  · rw [hin hrange, value_inj] at hreserved
    have hmem := page_mem_iff.1 hrange
    exact hkeeps hreserved a hmem.1 hmem.2 hmapped
  · rw [hout hrange] at hreserved
    exact ha a hlt ⟨hreserved, hmapped⟩

lemma SmallWritten.apart {e : EntryType} (h : m.SmallWritten m' e p n dev) (ha : m.Apart)
    (hkeeps : e = .mapped → ∀ a, p * m.usedPageSize false ≤ a → a < p * m.usedPageSize false + n * m.usedPageSize false →
      m.getEntry true a ≠ EntryType.reserved.value) : m'.Apart := by
  rintro a hlt ⟨hreserved, hmapped⟩
  obtain ⟨hbig, hin, hout⟩ := h.getEntry a
  rw [hbig] at hreserved
  have hlt : a < m.addressSpaceSize := by rw [h.rest] at hlt; exact hlt
  by_cases hrange : p ≤ a / m.usedPageSize false ∧ a / m.usedPageSize false < p + n
  · rw [hin hrange, value_inj] at hmapped
    have hmem := page_mem_iff.1 hrange
    exact hkeeps hmapped a hmem.1 hmem.2 hreserved
  · rw [hout hrange] at hmapped
    exact ha a hlt ⟨hreserved, hmapped⟩

structure Sound (m : MemoryManager) (memory : DeviceMemoryManager) : Prop where
  geometry : m.Geometry
  backed : m.Backed memory

lemma SmallWritten.sound {e : EntryType} (h : m.SmallWritten m' e p n dev) (hs : m.Sound memory)
    (hdev : e = .mapped → ∀ o < n * m.usedPageSize false, DeviceMapped memory (dev + o)) : m'.Sound memory :=
  ⟨h.geometry hs.geometry, h.backed hs.backed hdev⟩

lemma BigWritten.sound {e : EntryType} (h : m.BigWritten m' memory e p n dev) (hs : m.Sound memory)
    (hdev : e = .mapped → ∀ o < n * m.usedPageSize true, DeviceMapped memory (dev + o)) : m'.Sound memory :=
  ⟨h.geometry hs.geometry, h.backed hs.geometry hs.backed hdev⟩

lemma InPages.small (hg : m.Geometry) (h : GpuOp.InPages m true g s) : GpuOp.InPages m false g s := by
  obtain ⟨hgpu, hsize, hin⟩ := h
  have hdvd : m.usedPageSize false ∣ m.usedPageSize true := by
    rw [hg.small_eq]
    exact hg.small_dvd
  exact ⟨hdvd.trans hgpu, hdvd.trans hsize, hin⟩

/-- An operation on small pages writes its range, if it does not leave the first level of the page table. -/
lemma pageTableOp_spec (hg : m.Geometry) {e : EntryType} (dev : ℕ) (h : GpuOp.InPages m false g s)
    (hop : m.pageTableOp e g dev s = some m') :
    ∃ p n, g = p * m.usedPageSize false ∧ s = n * m.usedPageSize false ∧ m.SmallWritten m' e p n dev := by
  obtain ⟨p, hp, hn, hle⟩ := inPages_spec hg h
  refine ⟨p, _, hp, hn, ?_⟩
  unfold pageTableOp at hop
  by_cases hrange : e = .mapped ∧ m.reserveRange g s = false
  · rw [if_pos hrange] at hop
    exact absurd hop (by simp)
  · rw [if_neg hrange, some_inj] at hop
    rw [← hop, hp]
    exact pageTableOpLoop_spec e _ dev m hle

lemma bigPageTableOp_range (memory : DeviceMemoryManager) (hg : m.Geometry) (e : EntryType) (dev : ℕ) (h : GpuOp.InPages m true g s) :
    ∃ p n, g = p * m.usedPageSize true ∧ s = n * m.usedPageSize true ∧
      m.BigWritten (bigPageTableOp memory e (m.iterations true s) g dev m) memory e p n dev := by
  obtain ⟨p, hp, hn, hle⟩ := inPages_spec hg h
  have hloop := bigPageTableOp_spec memory e (m.iterations true s) dev m hle
  rw [← hp] at hloop
  exact ⟨p, _, hp, hn, hloop⟩

lemma reserveRange_iff (hg : m.Geometry) (g s : ℕ) :
    m.reserveRange g s = true ↔ m.pageBits ≠ m.bigPageBits ∧ g + s < m.addressSpaceSize := by
  obtain ⟨hpage, -, -, hlevels, -⟩ := hg
  have hfirst : m.addressSpaceBits + m.pageBits - 38 = m.addressSpaceBits - 26 := by
    rw [hpage, cpuPageBits]
    omega
  have hshift : m.addressSpaceBits - (m.addressSpaceBits - 26) = 26 := by omega
  have hsize : m.addressSpaceSize = 2 ^ (m.addressSpaceBits - 26) * 2 ^ 26 := by
    rw [addressSpaceSize, ← pow_add, Nat.sub_add_cancel hlevels]
  unfold reserveRange
  dsimp only
  rw [hfirst, hshift, Bool.and_eq_true, bne_iff_ne, decide_eq_true_iff, Nat.shiftRight_eq_div_pow,
    div_lt_iff_lt_mul (Nat.two_pow_pos _), hsize]

lemma apply_isSome_iff (hg : m.Geometry) (op : GpuOp) : (op.apply memory m).isSome ↔ op.Fits m := by
  have hother : ∀ {e : EntryType} (m : MemoryManager) (g dev s : ℕ), e ≠ .mapped → (m.pageTableOp e g dev s).isSome := by
    intro e m g dev s he
    unfold pageTableOp
    rw [if_neg (fun h => he h.1)]
    rfl
  cases op with
  | map g dev s b =>
    cases b with
    | false =>
      refine Iff.trans ?_ (reserveRange_iff hg g s)
      change (m.pageTableOp .mapped g dev s).isSome ↔ _
      unfold pageTableOp
      cases hrange : m.reserveRange g s <;> simp
    | true => exact iff_of_true rfl trivial
  | mapSparse g s b =>
    cases b with
    | false => exact iff_of_true (hother (e := .reserved) m g 0 s (by decide)) trivial
    | true => exact iff_of_true rfl trivial
  | unmap g s =>
    refine iff_of_true ?_ trivial
    change (m.unmap memory g s).isSome
    unfold unmap
    by_cases hzero : s = 0
    · rw [if_pos hzero]
      rfl
    · rw [if_neg hzero]
      exact hother (e := .free) _ g 0 s (by decide)

/-- **One step**: device memory stays behind every mapped page, and the page sizes stay apart if the operation keeps them so. -/
lemma sound_step {op : GpuOp} (hs : m.Sound memory) (hvalid : op.Valid memory m) (hop : op.apply memory m = some m') :
    m'.Sound memory ∧ (op.KeepsApart m → m.Apart → m'.Apart) := by
  cases op with
  | map g dev s b =>
    obtain ⟨hin, hdev⟩ := hvalid
    cases b with
    | false =>
      obtain ⟨p, n, rfl, rfl, hw⟩ := pageTableOp_spec hs.geometry dev hin hop
      exact ⟨hw.sound hs fun _ => hdev, fun hkeeps ha => hw.apart ha fun _ => hkeeps⟩
    | true =>
      obtain ⟨p, n, rfl, hn, hw⟩ := bigPageTableOp_range memory hs.geometry .mapped dev hin
      obtain rfl : bigPageTableOp memory .mapped (m.iterations true s) _ dev m = m' := some_inj.1 hop
      exact ⟨hw.sound hs fun _ => by rwa [← hn], fun _ ha => hw.apart ha (by simp)⟩
  | mapSparse g s b =>
    cases b with
    | false =>
      change m.pageTableOp .reserved g 0 s = some m' at hop
      obtain ⟨p, n, rfl, rfl, hw⟩ := pageTableOp_spec hs.geometry 0 hvalid hop
      exact ⟨hw.sound hs (by simp), fun _ ha => hw.apart ha (by simp)⟩
    | true =>
      obtain ⟨p, n, rfl, hn, hw⟩ := bigPageTableOp_range memory hs.geometry .reserved 0 hvalid
      obtain rfl : bigPageTableOp memory .reserved (m.iterations true s) _ 0 m = m' := some_inj.1 hop
      exact ⟨hw.sound hs (by simp), fun hkeeps ha => hw.apart ha fun _ => by rwa [← hn]⟩
  | unmap g s =>
    change m.unmap memory g s = some m' at hop
    unfold unmap at hop
    by_cases hzero : s = 0
    · rw [if_pos hzero, some_inj] at hop
      subst hop
      exact ⟨hs, fun _ ha => ha⟩
    · rw [if_neg hzero] at hop
      obtain ⟨p, n, -, -, hw⟩ := bigPageTableOp_range memory hs.geometry .free 0 hvalid
      have hs1 := hw.sound hs (by simp)
      have hin : GpuOp.InPages (bigPageTableOp memory .free (m.iterations true s) g 0 m) false g s := by
        have hsmall := InPages.small hs.geometry hvalid
        rw [hw.rest]
        exact hsmall
      obtain ⟨p', n', -, -, hw'⟩ := pageTableOp_spec hs1.geometry 0 hin hop
      exact ⟨hw'.sound hs1 (by simp), fun _ ha => hw'.apart (hw.apart ha (by simp)) (by simp)⟩

lemma getEntry_new (addressSpaceBits pageBits bigPageBits : ℕ) (b : Bool) (a : ℕ) :
    (new addressSpaceBits pageBits bigPageBits).getEntry b a = EntryType.free.value := by
  cases b <;> simp [getEntry, new, entryAt, EntryType.value]

lemma sound_new (memory : DeviceMemoryManager) {addressSpaceBits pageBits bigPageBits : ℕ}
    (hg : (new addressSpaceBits pageBits bigPageBits).Geometry) :
    (new addressSpaceBits pageBits bigPageBits).Sound memory ∧ (new addressSpaceBits pageBits bigPageBits).Apart := by
  have hfree : ∀ p, entryAt (fun _ => 0) p ≠ EntryType.mapped.value := by
    intro p
    simp [entryAt, EntryType.value]
  refine ⟨⟨hg, fun p hp => absurd hp (hfree p), fun p hp => absurd hp (hfree p), fun p hp => absurd hp (hfree p)⟩, ?_⟩
  rintro a - ⟨-, hmapped⟩
  rw [getEntry_new, value_inj] at hmapped
  exact absurd hmapped (by decide)

variable {start : MemoryManager}

theorem reached_sound (hstart : start.Sound memory)
    (h : Reached memory (fun m op => op.Valid memory m) start m) : m.Sound memory := by
  induction h with
  | start => exact hstart
  | step _ hvalid hop ih => exact (sound_step ih hvalid hop).1

/-- Runs that keep the page sizes apart. -/
theorem reached_apart (hstart : start.Sound memory) (ha : start.Apart)
    (h : Reached memory (fun m op => op.Valid memory m ∧ op.KeepsApart m) start m) : m.Sound memory ∧ m.Apart := by
  induction h with
  | start => exact ⟨hstart, ha⟩
  | step _ hok hop ih =>
    obtain ⟨hsound, hapart⟩ := sound_step ih.1 hok.1 hop
    exact ⟨hsound, hapart hok.2 ih.2⟩

/-! ## What runs map -/

/-- The device addresses of the pages of one size. -/
def lookUp (entries : ℕ → BitVec 64) (table : ℕ → BitVec 32) (U a : ℕ) : Option ℕ :=
  if entryAt entries (a / U) = EntryType.mapped.value then some (devAddrBase (table (a / U)) + a % U) else none

def translated (m : MemoryManager) (b : Bool) : ℕ → Option ℕ :=
  lookUp (if b then m.bigEntries else m.entries) (if b then m.bigPageTableDev else m.pageTable) (m.usedPageSize b)

variable {e : EntryType} {U : ℕ}

def pageContents (e : EntryType) (dev i : ℕ) : Option ℕ :=
  if e = .mapped then some (dev / pageSize * pageSize + i) else none

lemma lookUp_written {entries entries' : ℕ → BitVec 64} {table table' : ℕ → BitVec 32} (hpos : 0 < U)
    (hU : pageSize ∣ U) (hentries : entryAt entries' = overwrite (entryAt entries) p n fun _ => e.value)
    (htable : table' = if e = .mapped then overwrite table p n fun k => subValue (dev + k * U) else table)
    (hdev : e = .mapped → ∀ o < n * U, DeviceMapped memory (dev + o)) :
    lookUp entries' table' U = overwrite (lookUp entries table U) (p * U) (n * U) (pageContents e dev) := by
  funext a
  have hmem : (p ≤ a / U ∧ a / U < p + n) ↔ p * U ≤ a ∧ a < p * U + n * U := by
    rw [le_div_iff_mul_le hpos, div_lt_iff_lt_mul hpos, Nat.add_mul]
  unfold lookUp
  rw [hentries, htable]
  by_cases hin : p ≤ a / U ∧ a / U < p + n
  · rw [overwrite_inside hin, overwrite_inside (hmem.1 hin), pageContents]
    by_cases he : e = .mapped
    · have hmapped := hdev he ((a / U - p) * U) (mul_lt_mul_of_pos_right (by omega) hpos)
      obtain ⟨d, hd⟩ := hU.mul_left (a / U - p)
      have ha := div_add_mod' a U
      rw [← Nat.add_sub_cancel' hin.1, Nat.add_mul, hd] at ha
      rw [if_pos (value_inj.2 he), if_pos he, if_pos he, overwrite_inside hin, devAddrBase_subValue hmapped.1, hd,
        add_mul_div_left _ _ pageSize_pos, Nat.add_mul, Nat.mul_comm d, some_inj]
      omega
    · rw [if_neg (mt value_inj.1 he), if_neg he]
  · rw [overwrite_outside hin, overwrite_outside (mt hmem.2 hin), ite_apply, overwrite_outside hin, ite_self]

lemma pageTableOp_translated (memory : DeviceMemoryManager) (hg : m.Geometry) (hin : GpuOp.InPages m false g s)
    (hdev : e = .mapped → ∀ o < s, DeviceMapped memory (dev + o)) (hop : m.pageTableOp e g dev s = some m') :
    m'.translated = update m.translated false (overwrite (m.translated false) g s (pageContents e dev)) := by
  obtain ⟨p, n, rfl, rfl, h⟩ := pageTableOp_spec hg dev hin hop
  refine eq_update_iff.2 ⟨?_, fun b hb => ?_⟩
  · rw [translated, h.rest]
    exact lookUp_written (m.usedPageSize_pos false) (dvd_of_eq hg.small_eq.symm) h.entries h.table hdev
  · rw [Bool.eq_true_of_not_eq_false hb, translated, h.rest]
    rfl

lemma bigPageTableOp_translated (hg : m.Geometry) (hin : GpuOp.InPages m true g s)
    (hdev : e = .mapped → ∀ o < s, DeviceMapped memory (dev + o)) :
    (bigPageTableOp memory e (m.iterations true s) g dev m).translated =
      update m.translated true (overwrite (m.translated true) g s (pageContents e dev)) := by
  obtain ⟨p, n, rfl, hn, h⟩ := bigPageTableOp_range memory hg e dev hin
  refine eq_update_iff.2 ⟨?_, fun b hb => ?_⟩
  · rw [translated, h.rest, hn]
    exact lookUp_written (m.usedPageSize_pos true) hg.small_dvd (hn ▸ h.entries) (hn ▸ h.table) (hn ▸ hdev)
  · rw [Bool.eq_false_of_not_eq_true hb, translated, h.rest]
    rfl

/-- **One step** does what the operation means. -/
lemma translated_step {op : GpuOp} (hg : m.Geometry) (hvalid : op.Valid memory m) (hop : op.apply memory m = some m') :
    m'.translated = op.meaning m.translated := by
  cases op with
  | map g dev s b =>
    obtain ⟨hin, hdev⟩ := hvalid
    cases b with
    | false => exact pageTableOp_translated memory hg hin (fun _ => hdev) hop
    | true =>
      rw [← some_inj.1 hop]
      exact bigPageTableOp_translated hg hin fun _ => hdev
  | mapSparse g s b =>
    cases b with
    | false => exact pageTableOp_translated (e := .reserved) memory hg hvalid (by simp) hop
    | true =>
      rw [← some_inj.1 hop]
      exact bigPageTableOp_translated hg hvalid (by simp)
  | unmap g s =>
    change m.unmap memory g s = some m' at hop
    unfold unmap at hop
    by_cases hzero : s = 0
    · rw [if_pos hzero, some_inj] at hop
      subst hop hzero
      exact funext fun b => Patched.refl (m.translated b) g fun _ => none
    · rw [if_neg hzero] at hop
      have hin := InPages.small hg hvalid
      obtain ⟨p, n, -, -, hw⟩ := bigPageTableOp_range memory hg .free 0 hvalid
      rw [pageTableOp_translated memory (hw.geometry hg) (by rw [hw.rest]; exact hin) (by simp) hop,
        bigPageTableOp_translated hg hvalid (by simp)]
      funext b
      cases b <;> rfl

end MemoryManager

end Voltemu.VideoCore
