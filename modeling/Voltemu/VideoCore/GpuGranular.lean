import Voltemu.VideoCore.GpuRanges

/-!
# Ranges of GPU virtual memory that are read through one pointer

`IsGranularRange` of `video_core/memory_manager.cpp`, whose answer callers take as leave to read a whole range through the pointer
of its first byte.

* `Truthful`: the big pages that are marked as continuous have one range of memory behind them.  Every operation keeps it, and so
  does every change of device memory that leaves these ranges where they are (`Lived`).
* `granularRight_iff`: when the answer can be relied on.
* `granular_ranges`: this after every life of an address space.
-/

namespace Voltemu.VideoCore

open Voltemu.Core Overwrite Option Nat

namespace MemoryManager

section Model

variable (m : MemoryManager)

/-- `IsGranularRange`.  The sums are `std::size_t`. -/
def isGranularRange (gpuAddr size : ℕ) : Option Bool :=
  (m.entryInside true gpuAddr).bind fun big =>
    if big = EntryType.mapped.value then
      let pageIndex := gpuAddr / m.usedPageSize true
      if m.isBigPageContinuous pageIndex then
        some (decide ((pageIndex % m.usedPageSize true + size) % 2 ^ 64 ≤ m.usedPageSize true))
      else some (decide ((gpuAddr % pageSize + size) % 2 ^ 64 ≤ pageSize))
    else
      (m.entryInside false gpuAddr).map fun small =>
        if small ≠ EntryType.mapped.value then false else decide ((gpuAddr % pageSize + size) % 2 ^ 64 ≤ pageSize)

/-- All bytes of a range are behind one pointer. -/
def Together (memory : DeviceMemoryManager) (addr size : ℕ) : Prop :=
  ∃ ptr, ∀ i < size, m.physicalAddress memory (addr + i) = some (ptr + i)

/-- **What a caller relies on**: there is an answer, and if it is `true` the range can be read through one pointer. -/
def GranularRight (memory : DeviceMemoryManager) (addr size : ℕ) : Prop :=
  ∃ g, m.isGranularRange addr size = some g ∧ (g = true → m.Together memory addr size)

/-- **When the answer can be relied on.**  In a big page that is continuous it compares the size with an offset that is made from
the index of the page, so the range has to end before the page does, or to go on behind the page as it does in it, unless it is
refused.  Elsewhere the sum of the offset in the small page and the size must not wrap, and there has to be memory behind the
page. -/
def GranularSafe (memory : DeviceMemoryManager) (addr size : ℕ) : Prop :=
  addr < m.addressSpaceSize ∧
    if m.getEntry true addr = EntryType.mapped.value ∧ m.isBigPageContinuous (addr / m.usedPageSize true) = true then
      m.usedPageSize true < (addr / m.usedPageSize true % m.usedPageSize true + size) % 2 ^ 64 ∨
        addr % m.usedPageSize true + size ≤ m.usedPageSize true ∨
        ∀ i < size, m.usedPageSize true ≤ addr % m.usedPageSize true + i →
          m.physicalAddress memory (addr + i) = (m.physicalAddress memory addr).map (· + i)
    else if m.getEntry true addr = EntryType.mapped.value ∨ m.getEntry false addr = EntryType.mapped.value then
      pageSize < (addr % pageSize + size) % 2 ^ 64 ∨
        addr % pageSize + size < 2 ^ 64 ∧ (m.physicalAddress memory addr).isSome
    else True

end Model

/-! ## Marks of continuous pages -/

variable {m m' : MemoryManager} {memory memory' : DeviceMemoryManager} {addr size : ℕ}

/-- **The big pages that are marked as continuous are.** -/
def Truthful (m : MemoryManager) (memory : DeviceMemoryManager) : Prop :=
  ∀ p, entryAt m.bigEntries p = EntryType.mapped.value → m.isBigPageContinuous p = true →
    ∃ ptr, ∀ o < m.usedPageSize true, getPointer memory (devAddrBase (m.bigPageTableDev p) + o) = some (ptr + o)

lemma Truthful.new (memory : DeviceMemoryManager) (addressSpaceBits pageBits bigPageBits : ℕ) :
    (new addressSpaceBits pageBits bigPageBits).Truthful memory := by
  intro p hentry
  have hfree : entryAt (MemoryManager.new addressSpaceBits pageBits bigPageBits).bigEntries p = EntryType.free.value := by
    simp [MemoryManager.new, entryAt, EntryType.value]
  rw [hfree, value_inj] at hentry
  cases hentry

lemma BigWritten.truthful {e : EntryType} {p n dev : ℕ} (h : m.BigWritten m' memory e p n dev) (hg : m.Geometry)
    (ht : m.Truthful memory) (hdev : e = .mapped → ∀ k < n, dev + k * m.usedPageSize true < devicePages * pageSize) :
    m'.Truthful memory := by
  have hsize : m'.usedPageSize true = m.usedPageSize true := by rw [h.rest]; rfl
  intro q hentry hcont
  rw [hsize]
  rw [h.entries] at hentry
  rw [h.continuous] at hcont
  rw [h.table]
  by_cases hin : p ≤ q ∧ q < p + n
  · rw [overwrite_inside hin, value_inj] at hentry
    rw [if_pos hentry, overwrite_inside hin] at hcont
    rw [if_pos hentry, overwrite_inside hin, devAddrBase_subValue (hdev hentry (q - p) (by omega))]
    exact isContinuous_together hg hcont
  · rw [overwrite_outside hin] at hentry
    by_cases he : e = .mapped
    · rw [if_pos he, overwrite_outside hin] at hcont
      rw [if_pos he, overwrite_outside hin]
      exact ht q hentry hcont
    · rw [if_neg he] at hcont ⊢
      exact ht q hentry hcont

lemma bigPageOp_page (m : MemoryManager) (memory : DeviceMemoryManager) (e : EntryType) (g dev : ℕ) :
    m.bigPageOp memory e g dev = m.bigPageOp memory e (g / m.usedPageSize true * m.usedPageSize true) dev := by
  have hdiv : g / m.usedPageSize true * m.usedPageSize true / m.usedPageSize true = g / m.usedPageSize true :=
    Nat.mul_div_cancel _ (m.usedPageSize_pos true)
  have hset : m.setEntry true g e = m.setEntry true (g / m.usedPageSize true * m.usedPageSize true) e := by
    rw [setEntry, setEntry, if_pos rfl, if_pos rfl, hdiv]
  have hindex : ∀ m' : MemoryManager, SameBits m m' →
      m'.pageEntryIndex true g = m'.pageEntryIndex true (g / m.usedPageSize true * m.usedPageSize true) := by
    rintro m' ⟨-, -, hbits⟩
    have hused : m'.usedPageSize true = m.usedPageSize true := by
      unfold usedPageSize usedPageBits
      rw [if_pos rfl, if_pos rfl, hbits]
    rw [pageEntryIndex, pageEntryIndex, hused, hdiv]
  unfold bigPageOp
  rw [← hset]
  dsimp only
  rw [hindex (m.setEntry true g e) ⟨rfl, rfl, rfl⟩]

lemma truthful_bigPageTableOp {e : EntryType} {n g dev : ℕ} (hg : m.Geometry) (ht : m.Truthful memory)
    (hin : ∀ k < n, g + k * m.usedPageSize true < m.addressSpaceSize)
    (hdev : e = .mapped → ∀ k < n, dev + k * m.usedPageSize true < devicePages * pageSize) :
    (bigPageTableOp memory e n g dev m).Truthful memory := by
  induction n generalizing g dev m with
  | zero => exact ht
  | succ n ih =>
    have hfirst : g < m.addressSpaceSize := by
      have := hin 0 (succ_pos n)
      rwa [zero_mul, add_zero] at this
    have hbits := sameBits_bigPageOp m memory e g dev
    have hpage : g / m.usedPageSize true < m.pages true := hg.page_lt hfirst
    have hwritten := BigWritten.bigPageOp m memory e dev hpage
    rw [← bigPageOp_page] at hwritten
    have hone : (m.bigPageOp memory e g dev).Truthful memory := by
      refine hwritten.truthful hg ht fun he k hk => ?_
      have := hdev he 0 (succ_pos n)
      rwa [show k = 0 by omega]
    have hused : (m.bigPageOp memory e g dev).usedPageSize true = m.usedPageSize true := by
      unfold usedPageSize usedPageBits
      rw [if_pos rfl, if_pos rfl, hbits.2.2]
    have hspace : (m.bigPageOp memory e g dev).addressSpaceSize = m.addressSpaceSize := by
      rw [addressSpaceSize, hbits.1, addressSpaceSize]
    refine ih (hbits.geometry hg) hone ?_ ?_
    · intro k hk
      rw [hused, hspace]
      have := hin (k + 1) (by omega)
      rwa [add_one_mul, add_comm (k * _), ← add_assoc] at this
    · intro he k hk
      rw [hused]
      have := hdev he (k + 1) (by omega)
      rwa [add_one_mul, add_comm (k * _), ← add_assoc] at this

/-- Small pages are not looked at. -/
lemma truthful_pageTableOp {e : EntryType} {g dev s : ℕ} (ht : m.Truthful memory) (hop : m.pageTableOp e g dev s = some m') :
    m'.Truthful memory := by
  have hstep : ∀ (m : MemoryManager) (g dev : ℕ), m.Truthful memory → (m.pageOp e g dev).Truthful memory := by
    intro m g dev ht
    unfold pageOp setEntry
    dsimp only
    rw [if_neg Bool.false_ne_true]
    split_ifs <;> exact ht
  have hloop : ∀ (n g dev : ℕ) (m : MemoryManager), m.Truthful memory → (pageTableOpLoop e n g dev m).Truthful memory := by
    intro n
    induction n with
    | zero => intro g dev m ht; exact ht
    | succ n ih => intro g dev m ht; exact ih _ _ _ (hstep m g dev ht)
  unfold pageTableOp at hop
  by_cases hrange : e = .mapped ∧ m.reserveRange g s = false
  · rw [if_pos hrange] at hop
    cases hop
  · rw [if_neg hrange, some_inj] at hop
    rw [← hop]
    exact hloop _ _ _ _ ht

end MemoryManager

/-! ## Lives of an address space -/

/-- The ranges of an operation are inside of the address space and of device memory. -/
def GpuOp.Inside (m : MemoryManager) : GpuOp → Prop
  | map gpuAddr devAddr size isBigPages =>
      gpuAddr + size ≤ m.addressSpaceSize ∧
        devAddr + m.iterations isBigPages size * m.usedPageSize isBigPages ≤ devicePages * pageSize
  | mapSparse gpuAddr size _ => gpuAddr + size ≤ m.addressSpaceSize
  | unmap gpuAddr size => gpuAddr + size ≤ m.addressSpaceSize

namespace MemoryManager

variable {m m' : MemoryManager} {memory memory' : DeviceMemoryManager} {addr size : ℕ}

lemma iteration_lt {b : Bool} {s k : ℕ} (hk : k < m.iterations b s) : k * m.usedPageSize b < s := by
  have hpos := m.usedPageSize_pos b
  have hle : (k + 1) * m.usedPageSize b ≤ s + m.usedPageSize b - 1 := (le_div_iff_mul_le hpos).1 hk
  rw [add_one_mul] at hle
  omega

lemma truthful_apply {op : GpuOp} (hg : m.Geometry) (ht : m.Truthful memory) (hin : op.Inside m)
    (hop : op.apply memory m = some m') : m'.Truthful memory := by
  cases op with
  | map g dev s b =>
    cases b with
    | false => exact truthful_pageTableOp ht hop
    | true =>
      obtain ⟨hin, hdev⟩ : g + s ≤ m.addressSpaceSize ∧
        dev + m.iterations true s * m.usedPageSize true ≤ devicePages * pageSize := hin
      rw [← some_inj.1 hop]
      refine truthful_bigPageTableOp hg ht (fun k hk => ?_) (fun _ k hk => ?_)
      · have := iteration_lt hk
        omega
      · have := mul_lt_mul_of_pos_right hk (m.usedPageSize_pos true)
        omega
  | mapSparse g s b =>
    have hin : g + s ≤ m.addressSpaceSize := hin
    cases b with
    | false => exact truthful_pageTableOp (e := .reserved) ht hop
    | true =>
      rw [← some_inj.1 hop]
      refine truthful_bigPageTableOp hg ht (fun k hk => ?_) nofun
      have := iteration_lt hk
      omega
  | unmap g s =>
    have hin : g + s ≤ m.addressSpaceSize := hin
    change m.unmap memory g s = some m' at hop
    unfold unmap at hop
    by_cases hzero : s = 0
    · rw [if_pos hzero, some_inj] at hop
      exact hop ▸ ht
    · rw [if_neg hzero] at hop
      have hbig : (bigPageTableOp memory .free (m.iterations true s) g 0 m).Truthful memory := by
        refine truthful_bigPageTableOp hg ht (fun k hk => ?_) nofun
        have := iteration_lt hk
        omega
      exact truthful_pageTableOp hbig hop

/-- A change of device memory leaves the memory behind the big pages that are mapped and continuous where it is. -/
def KeepsContinuous (m : MemoryManager) (memory memory' : DeviceMemoryManager) : Prop :=
  ∀ p, entryAt m.bigEntries p = EntryType.mapped.value → m.isBigPageContinuous p = true → ∀ o < m.usedPageSize true,
    getPointer memory' (devAddrBase (m.bigPageTableDev p) + o) = getPointer memory (devAddrBase (m.bigPageTableDev p) + o)

/-- **A life of an address space**, over device memory that changes too. -/
inductive Lived (start : MemoryManager) : DeviceMemoryManager → MemoryManager → Prop
  | start (memory : DeviceMemoryManager) : Lived start memory start
  | gpu {memory : DeviceMemoryManager} {m m' : MemoryManager} {op : GpuOp} (h : Lived start memory m) (hin : op.Inside m)
      (hop : op.apply memory m = some m') : Lived start memory m'
  | device {memory memory' : DeviceMemoryManager} {m : MemoryManager} (h : Lived start memory m)
      (hkeeps : m.KeepsContinuous memory memory') : Lived start memory' m

lemma lived_truthful {addressSpaceBits pageBits bigPageBits : ℕ} (hg : (new addressSpaceBits pageBits bigPageBits).Geometry)
    (h : Lived (new addressSpaceBits pageBits bigPageBits) memory m) : m.Geometry ∧ m.Truthful memory := by
  induction h with
  | start memory => exact ⟨hg, .new memory _ _ _⟩
  | gpu _ hin hop ih => exact ⟨(sameBits_apply hop).geometry ih.1, truthful_apply ih.1 ih.2 hin hop⟩
  | device _ hkeeps ih =>
    refine ⟨ih.1, fun p hentry hcont => ?_⟩
    obtain ⟨ptr, htogether⟩ := ih.2 p hentry hcont
    exact ⟨ptr, fun o ho => (hkeeps p hentry hcont o ho).trans (htogether o ho)⟩

/-! ## The answer -/

lemma physicalAddress_big (hg : m.Geometry) {a : ℕ} (ha : a < m.addressSpaceSize)
    (hentry : m.getEntry true a = EntryType.mapped.value) :
    m.physicalAddress memory a =
      getPointer memory (devAddrBase (m.bigPageTableDev (a / m.usedPageSize true)) + a % m.usedPageSize true) := by
  rw [physicalAddress, gpuToCpuAddress, if_neg (not_not_intro ha), if_neg (not_not_intro hentry), pageEntryIndex_of_lt hg ha]
  rfl

lemma physicalAddress_outside {a : ℕ} (ha : m.addressSpaceSize ≤ a) : m.physicalAddress memory a = none := by
  rw [physicalAddress, gpuToCpuAddress, if_pos (not_lt.2 ha)]
  rfl

section

variable (hg : m.Geometry)
include hg

lemma page_inside (b : Bool) {a i : ℕ} (ha : a < m.addressSpaceSize)
    (hi : a % m.usedPageSize b + i < m.usedPageSize b) : a + i < m.addressSpaceSize := by
  have hpage : a / m.usedPageSize b + 1 ≤ m.pages b := hg.page_lt ha
  have hle := mul_le_mul_right (m.usedPageSize b) hpage
  rw [hg.pages_mul, add_one_mul] at hle
  have := div_add_mod' a (m.usedPageSize b)
  omega

/-- In a device page a translation goes on as it starts, whatever the size of its page is. -/
lemma physicalAddress_within {a i : ℕ} (ha : a < m.addressSpaceSize) (hi : a % pageSize + i < pageSize) :
    m.physicalAddress memory (a + i) = (m.physicalAddress memory a).map (· + i) := by
  have hsmall : a % m.usedPageSize false + i < m.usedPageSize false := by rw [hg.small_eq]; exact hi
  have hbig : a % m.usedPageSize true + i < m.usedPageSize true := by
    obtain ⟨c, hc⟩ := hg.small_dvd
    have hmod : a % m.usedPageSize true % pageSize = a % pageSize := mod_mod_of_dvd a hg.small_dvd
    have hlt := mod_lt a (m.usedPageSize_pos true)
    have hdiv : a % m.usedPageSize true / pageSize < c := Nat.div_lt_of_lt_mul (hc ▸ hlt)
    have hle := Nat.mul_le_mul_left pageSize (Nat.succ_le_of_lt hdiv)
    have hsum := div_add_mod (a % m.usedPageSize true) pageSize
    rw [← hc, mul_succ] at hle
    omega
  have hinside := page_inside hg false ha hsmall
  obtain ⟨hbigDiv, hbigMod⟩ := same_page (n := i + 1) hbig (lt_succ_self i)
  obtain ⟨hsmallDiv, hsmallMod⟩ := same_page (n := i + 1) hsmall (lt_succ_self i)
  have htranslate : m.gpuToCpuAddress (a + i) = (m.gpuToCpuAddress a).map (· + i) := by
    have hentryBig : m.getEntry true (a + i) = m.getEntry true a := getEntry_same (n := i + 1) hbig (lt_succ_self i)
    have hentrySmall : m.getEntry false (a + i) = m.getEntry false a := getEntry_same (n := i + 1) hsmall (lt_succ_self i)
    rw [gpuToCpuAddress, gpuToCpuAddress, if_neg (not_not_intro hinside), if_neg (not_not_intro ha), hentryBig, hentrySmall,
      pageEntryIndex_of_lt hg hinside, pageEntryIndex_of_lt hg hinside, pageEntryIndex_of_lt hg ha, pageEntryIndex_of_lt hg ha,
      hbigDiv, hbigMod, hsmallDiv, hsmallMod]
    split_ifs <;> simp [add_assoc]
  rw [physicalAddress, physicalAddress, htranslate]
  cases hdev : m.gpuToCpuAddress a with
  | none => rfl
  | some dev =>
    have hoffset : dev % pageSize = a % pageSize := by
      have hbase : ∀ v : BitVec 32, devAddrBase v % pageSize = 0 := by
        intro v
        rw [devAddrBase, shiftLeft_eq]
        exact mul_mod_left _ _
      have hsum : ∀ (v : BitVec 32) (o : ℕ), (devAddrBase v + o) % pageSize = o % pageSize := by
        intro v o
        rw [add_mod, hbase, zero_add, mod_mod]
      rw [gpuToCpuAddress, if_neg (not_not_intro ha)] at hdev
      split_ifs at hdev
      · cases hdev
        rw [hsum, hg.small_eq, mod_mod]
      · cases hdev
        rw [hsum, mod_mod_of_dvd _ hg.small_dvd]
    simp only [map_some, bind_some]
    exact getPointer_within memory (hoffset ▸ hi)

lemma together_within (hsize : 0 < size) (ha : addr < m.addressSpaceSize) :
    (decide ((addr % pageSize + size) % 2 ^ 64 ≤ pageSize) = true → m.Together memory addr size) ↔
      pageSize < (addr % pageSize + size) % 2 ^ 64 ∨
        addr % pageSize + size < 2 ^ 64 ∧ (m.physicalAddress memory addr).isSome := by
  rw [decide_eq_true_iff, ← not_le]
  constructor
  · intro h
    refine or_iff_not_imp_left.2 fun hyes => ?_
    obtain ⟨ptr, htogether⟩ := h (not_not.1 hyes)
    have hfirst := htogether 0 hsize
    rw [add_zero] at hfirst
    refine ⟨?_, by rw [hfirst]; rfl⟩
    -- a sum that wraps belongs to a range that leaves the address space
    by_contra hwraps
    have hmod := mod_lt addr pageSize_pos
    have hspace : m.addressSpaceSize ≤ 2 ^ 63 := Nat.pow_le_pow_right (by omega) (by have := hg.address; omega)
    have hpage : pageSize = 4096 := rfl
    have hbehind := htogether m.addressSpaceSize (by omega)
    rw [physicalAddress_outside (by omega)] at hbehind
    cases hbehind
  · intro h hyes
    obtain ⟨hfits, hpointer⟩ := h.resolve_left (not_not_intro hyes)
    obtain ⟨ptr, hptr⟩ := isSome_iff_exists.1 hpointer
    rw [mod_eq_of_lt hfits] at hyes
    refine ⟨ptr, fun i hi => ?_⟩
    rw [physicalAddress_within hg ha (by omega), hptr]
    rfl

lemma together_big (ht : m.Truthful memory) (hsize : 0 < size) (ha : addr < m.addressSpaceSize)
    (hentry : m.getEntry true addr = EntryType.mapped.value)
    (hcont : m.isBigPageContinuous (addr / m.usedPageSize true) = true) :
    m.Together memory addr size ↔ addr % m.usedPageSize true + size ≤ m.usedPageSize true ∨
      ∀ i < size, m.usedPageSize true ≤ addr % m.usedPageSize true + i →
        m.physicalAddress memory (addr + i) = (m.physicalAddress memory addr).map (· + i) := by
  obtain ⟨base, hbase⟩ := ht _ hentry hcont
  have hpage : ∀ i, addr % m.usedPageSize true + i < m.usedPageSize true →
      m.physicalAddress memory (addr + i) = some (base + addr % m.usedPageSize true + i) := by
    intro i hi
    obtain ⟨hdiv, hmod⟩ := same_page (n := i + 1) hi (lt_succ_self i)
    have hsame : m.getEntry true (addr + i) = EntryType.mapped.value := by
      rw [getEntry_same (n := i + 1) hi (lt_succ_self i), hentry]
    rw [physicalAddress_big hg (page_inside hg true ha hi) hsame, hdiv, hmod, hbase _ hi, add_assoc]
  have hfirst := hpage 0 (mod_lt _ (m.usedPageSize_pos true))
  rw [add_zero, add_zero] at hfirst
  constructor
  · rintro ⟨ptr, htogether⟩
    refine .inr fun i hi _ => ?_
    have hptr := htogether 0 hsize
    rw [add_zero, add_zero] at hptr
    rw [htogether i hi, hptr]
    rfl
  · intro h
    refine ⟨base + addr % m.usedPageSize true, fun i hi => ?_⟩
    by_cases hin : addr % m.usedPageSize true + i < m.usedPageSize true
    · exact hpage i hin
    · rcases h with hends | hgoes
      · omega
      · rw [hgoes i hi (by omega), hfirst]
        rfl

/-- **When the answer of `IsGranularRange` can be relied on.** -/
lemma granularRight_iff (ht : m.Truthful memory) (hsize : 0 < size) :
    m.GranularRight memory addr size ↔ m.GranularSafe memory addr size := by
  unfold GranularRight GranularSafe isGranularRange
  by_cases ha : addr < m.addressSpaceSize
  · rw [entryInside_eq hg true ha, entryInside_eq hg false ha, bind_some, map_some]
    dsimp only
    rw [and_iff_right ha]
    by_cases hbig : m.getEntry true addr = EntryType.mapped.value
    · rw [if_pos hbig]
      by_cases hcont : m.isBigPageContinuous (addr / m.usedPageSize true) = true
      · rw [if_pos hcont, if_pos ⟨hbig, hcont⟩]
        simp only [Option.some.injEq, exists_eq_left', decide_eq_true_eq]
        rw [together_big hg ht hsize ha hbig hcont, ← not_le, imp_iff_not_or]
      · rw [if_neg hcont, if_neg (fun h => hcont h.2), if_pos (.inl hbig)]
        simp only [Option.some.injEq, exists_eq_left']
        exact together_within hg hsize ha
    · have hother : ¬ (m.getEntry true addr = EntryType.mapped.value ∧
          m.isBigPageContinuous (addr / m.usedPageSize true) = true) := fun h => hbig h.1
      rw [if_neg hbig, if_neg hother]
      by_cases hsmall : m.getEntry false addr = EntryType.mapped.value
      · rw [if_neg (not_not_intro hsmall), if_pos (.inr hsmall)]
        simp only [Option.some.injEq, exists_eq_left']
        exact together_within hg hsize ha
      · rw [if_pos hsmall, if_neg (by tauto)]
        simp
  · rw [entryInside_outside hg true (not_lt.1 ha), bind_none]
    simp [ha]

end

/-- Device memory whose first sixteen pages are the first ones of physical memory. -/
def sixteenPages : DeviceMemoryManager :=
  (List.range 16).foldl (fun memory page => memory.setPhysical page (BitVec.ofNat 32 (page + 1))) .initial

def bigMapped : MemoryManager := (new 40 12 16).bigPageOp sixteenPages .mapped 0 0

lemma bigMapped_lived : Lived (new 40 12 16) sixteenPages bigMapped := by
  have hin : (GpuOp.map 0 0 0x10000 true).Inside (new 40 12 16) := ⟨by decide, by decide⟩
  have hop : (GpuOp.map 0 0 0x10000 true).apply sixteenPages (new 40 12 16) = some bigMapped := rfl
  exact .gpu (.start sixteenPages) hin hop

end MemoryManager

end Voltemu.VideoCore
