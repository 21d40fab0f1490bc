import Voltemu.VideoCore.GpuMappings

/-!
# Blocks of GPU virtual memory

What `ReadBlock`, `WriteBlock`, `FlushRegion` and `InvalidateRegion` do with the bytes of a range.

* `destination`: the device address that the block operations use for an address.
* `blockOperation_rule`: an invariant that every part of a block operation keeps holds at its end.
* `Right`: a range means what `GpuToCpuAddress` says of its addresses.
* `blocks_mean_translations`: after every run that is so of the ranges without a small page that is mapped in a big page that
  is reserved, and of no others.
-/

namespace Voltemu.VideoCore

open Voltemu.Core Overwrite List Option Nat

/-! ## Walks -/

/-- **What every part of a walk over device memory keeps holds at its end.** -/
lemma walkBlock_rule {S : Type} {f : ℕ → ℕ → S → S} {address size : ℕ} {s : S} (P : ℕ → S → Prop) (hstart : P 0 s)
    (hstep : ∀ k n s, 0 < n → k + n ≤ size → (address + k) % pageSize + n ≤ pageSize → P k s → P (k + n) (f (address + k) n s)) :
    P size (walkBlock f size size address s) := by
  have hloop : ∀ fuel k s, k ≤ size → size - k ≤ fuel → P k s → P size (walkBlock f fuel (size - k) (address + k) s) := by
    intro fuel
    induction fuel with
    | zero =>
      intro k s hk hfuel hs
      obtain rfl : k = size := by omega
      exact hs
    | succ fuel ih =>
      intro k s hk hfuel hs
      unfold walkBlock
      by_cases hzero : size - k = 0
      · obtain rfl : k = size := by omega
        rw [if_pos hzero]
        exact hs
      · rw [if_neg hzero]
        have hmod := mod_lt (address + k) pageSize_pos
        generalize hn : min (pageSize - (address + k) % pageSize) (size - k) = n
        have hnext := ih (k + n) (f (address + k) n s) (by omega) (by omega) (hstep k n s (by omega) (by omega) (by omega) hs)
        rwa [← Nat.sub_sub, ← Nat.add_assoc] at hnext
  have h := hloop size 0 s (Nat.zero_le _) (Nat.sub_le _ _) hstart
  rwa [Nat.sub_zero, Nat.add_zero] at h

namespace MemoryManager

variable {m : MemoryManager} {memory : DeviceMemoryManager}

variable {U addr size i n c j k ptr o p : ℕ}

lemma next_page (hU : 0 < U) (a : ℕ) : (a + (U - a % U)) / U = a / U + 1 ∧ (a + (U - a % U)) % U = 0 := by
  have hmod := mod_lt a hU
  have hfull : a + (U - a % U) = U * (a / U + 1) := by
    have := div_add_mod a U
    rw [mul_add, mul_one]
    omega
  rw [hfull, Nat.mul_div_cancel_left _ hU, Nat.mul_mod_right]
  exact ⟨rfl, rfl⟩

/-- What `MemoryOperation` does with the part of one page. -/
def pagePart {S : Type} (m : MemoryManager) (isBigPages : Bool) (mapped reserved unmapped : (pageIndex pageOffset copyAmount : ℕ) → S → S)
    (a n : ℕ) (s : S) : S :=
  let index := a / m.usedPageSize isBigPages
  let offset := a % m.usedPageSize isBigPages
  if m.getEntry isBigPages a = EntryType.mapped.value then mapped index offset n s
  else if m.getEntry isBigPages a = EntryType.reserved.value then reserved index offset n s
  else unmapped index offset n s

/-- **What every part of a `MemoryOperation` keeps holds at its end.** -/
lemma memoryOperation_rule {S : Type} {b : Bool} {mapped reserved unmapped : ℕ → ℕ → ℕ → S → S} {s : S}
    (P : ℕ → S → Prop) (hstart : P 0 s)
    (hstep : ∀ k n s, 0 < n → k + n ≤ size → (addr + k) % m.usedPageSize b + n ≤ m.usedPageSize b → P k s →
      P (k + n) (m.pagePart b mapped reserved unmapped (addr + k) n s)) :
    P size (m.memoryOperation b addr size mapped reserved unmapped s) := by
  have hpos := m.usedPageSize_pos b
  have hloop : ∀ fuel k index offset s, k ≤ size → size - k ≤ fuel →
      (k < size → index = (addr + k) / m.usedPageSize b ∧ offset = (addr + k) % m.usedPageSize b) → P k s →
      P size (m.memoryOperationLoop b mapped reserved unmapped fuel (size - k) index offset (addr + k) s) := by
    intro fuel
    induction fuel with
    | zero =>
      intro k index offset s hk hfuel _ hs
      obtain rfl : k = size := by omega
      exact hs
    | succ fuel ih =>
      intro k index offset s hk hfuel hplace hs
      unfold memoryOperationLoop
      by_cases hzero : size - k = 0
      · obtain rfl : k = size := by omega
        rw [if_pos hzero]
        exact hs
      · rw [if_neg hzero]
        obtain ⟨rfl, rfl⟩ := hplace (by omega)
        have hmod := mod_lt (addr + k) hpos
        generalize hn : min (m.usedPageSize b - (addr + k) % m.usedPageSize b) (size - k) = n
        have hpart := hstep k n s (by omega) (by omega) (by omega) hs
        have hnext := ih (k + n) ((addr + k) / m.usedPageSize b + 1) 0 _ (by omega) (by omega) ?_ hpart
        · rw [← Nat.sub_sub, ← Nat.add_assoc] at hnext
          exact hnext
        · -- the part ends with its page, or nothing is left
          intro hlt
          obtain ⟨hdiv, hmod⟩ := next_page hpos (addr + k)
          rw [show addr + (k + n) = addr + k + (m.usedPageSize b - (addr + k) % m.usedPageSize b) by omega]
          exact ⟨hdiv.symm, hmod.symm⟩
  have h := hloop size 0 _ _ s (Nat.zero_le _) (Nat.sub_le _ _) (fun _ => ⟨rfl, rfl⟩) hstart
  rwa [Nat.sub_zero, Nat.add_zero] at h

lemma same_page {a : ℕ} (h : a % U + n ≤ U) (hi : i < n) : (a + i) / U = a / U ∧ (a + i) % U = a % U + i := by
  have hsum : a + i = (a % U + i) + U * (a / U) := by
    have := mod_add_div a U
    omega
  have hpos : 0 < U := by omega
  rw [hsum, add_mul_div_left _ _ hpos, add_mul_mod_self_left, div_eq_of_lt (by omega), mod_eq_of_lt (by omega), zero_add]
  exact ⟨rfl, rfl⟩

lemma getEntry_same {b : Bool} {a : ℕ} (h : a % m.usedPageSize b + n ≤ m.usedPageSize b) (hi : i < n) :
    m.getEntry b (a + i) = m.getEntry b a := by
  unfold getEntry
  rw [(same_page h hi).1]

/-- **The device address that a block operation uses for an address.** -/
def destination (m : MemoryManager) (a : ℕ) : Option ℕ :=
  if m.getEntry true a = EntryType.mapped.value then
    some (devAddrBase (m.bigPageTableDev (a / m.usedPageSize true)) + a % m.usedPageSize true)
  else if m.getEntry true a = EntryType.reserved.value then none
  else if m.getEntry false a = EntryType.mapped.value then
    some (devAddrBase (m.pageTable (a / m.usedPageSize false)) + a % m.usedPageSize false)
  else none

lemma destination_big {a : ℕ} (h : a % m.usedPageSize true + n ≤ m.usedPageSize true) (hi : i < n)
    (hentry : m.getEntry true a = EntryType.mapped.value) :
    m.destination (a + i) =
      some (devAddrBase (m.bigPageTableDev (a / m.usedPageSize true)) + a % m.usedPageSize true + i) := by
  obtain ⟨hdiv, hmod⟩ := same_page h hi
  unfold destination
  rw [getEntry_same h hi, if_pos hentry, hdiv, hmod, Nat.add_assoc]

variable {a : ℕ}

lemma destination_small (hmapped : m.getEntry true a ≠ EntryType.mapped.value)
    (hreserved : m.getEntry true a ≠ EntryType.reserved.value) :
    m.destination a = if m.getEntry false a = EntryType.mapped.value then
      some (devAddrBase (m.pageTable (a / m.usedPageSize false)) + a % m.usedPageSize false) else none := by
  unfold destination
  rw [if_neg hmapped, if_neg hreserved]

lemma destination_reserved (h : a % m.usedPageSize true + n ≤ m.usedPageSize true) (hi : i < n)
    (hmapped : m.getEntry true a ≠ EntryType.mapped.value) (hreserved : m.getEntry true a = EntryType.reserved.value) :
    m.destination (a + i) = none := by
  unfold destination
  rw [getEntry_same h hi, if_neg hmapped, if_pos hreserved]

lemma destination_free (h : (a + k) % m.usedPageSize true + n ≤ m.usedPageSize true) (hj : j + c ≤ n)
    (hsmall : (a + k + j) % m.usedPageSize false + c ≤ m.usedPageSize false)
    (hmapped : m.getEntry true (a + k) ≠ EntryType.mapped.value)
    (hreserved : m.getEntry true (a + k) ≠ EntryType.reserved.value) (hi : i < c) :
    m.destination (a + (k + j) + i) = if m.getEntry false (a + k + j) = EntryType.mapped.value then
      some (devAddrBase (m.pageTable ((a + k + j) / m.usedPageSize false)) + (a + k + j) % m.usedPageSize false + i)
    else none := by
  have hsame : m.getEntry true (a + k + j + i) = m.getEntry true (a + k) := by
    rw [Nat.add_assoc (a + k)]
    exact getEntry_same h (by omega)
  obtain ⟨hdiv, hmod⟩ := same_page hsmall hi
  rw [← Nat.add_assoc a, destination_small (by rwa [hsame]) (by rwa [hsame]), getEntry_same hsmall hi, hdiv, hmod,
    Nat.add_assoc (devAddrBase _)]

/-- **What every part of a block operation keeps holds at its end.** -/
lemma blockOperation_rule {S : Type} {mappedNormal mappedBig other : ℕ → ℕ → ℕ → S → S} {s : S}
    (P : ℕ → S → Prop) (hstart : P 0 s)
    (hsmall : ∀ k n p o s, 0 < n → k + n ≤ size → o + n ≤ m.usedPageSize false → entryAt m.entries p = EntryType.mapped.value →
      (∀ i < n, m.destination (addr + k + i) = some (devAddrBase (m.pageTable p) + o + i)) → P k s →
      P (k + n) (mappedNormal p o n s))
    (hbig : ∀ k n p o s, 0 < n → k + n ≤ size → o + n ≤ m.usedPageSize true → entryAt m.bigEntries p = EntryType.mapped.value →
      (∀ i < n, m.destination (addr + k + i) = some (devAddrBase (m.bigPageTableDev p) + o + i)) → P k s →
      P (k + n) (mappedBig p o n s))
    (hother : ∀ k n p o s, k + n ≤ size → (∀ i < n, m.destination (addr + k + i) = none) → P k s →
      P (k + n) (other p o n s)) :
    P size (m.blockOperation mappedNormal mappedBig other addr size s) := by
  refine memoryOperation_rule P hstart ?_
  intro k n s hn hk hpage hs
  unfold pagePart
  dsimp only
  by_cases hmapped : m.getEntry true (addr + k) = EntryType.mapped.value
  · rw [if_pos hmapped]
    exact hbig k n _ _ s hn hk hpage hmapped (fun i hi => destination_big hpage hi hmapped) hs
  · rw [if_neg hmapped]
    by_cases hreserved : m.getEntry true (addr + k) = EntryType.reserved.value
    · rw [if_pos hreserved]
      exact hother k n _ _ s hk (fun i hi => destination_reserved hpage hi hmapped hreserved) hs
    · rw [if_neg hreserved, div_add_mod']
      refine memoryOperation_rule (fun j => P (k + j)) hs ?_
      intro j c s hc hj hsmallPage hs
      rw [← Nat.add_assoc]
      have hdest := fun i hi => destination_free hpage hj hsmallPage hmapped hreserved (i := i) hi
      unfold pagePart
      by_cases hentry : m.getEntry false (addr + k + j) = EntryType.mapped.value
      · rw [if_pos hentry]
        refine hsmall (k + j) c _ _ s hc (by omega) hsmallPage hentry (fun i hi => ?_) hs
        rw [hdest i hi, if_pos hentry]
      · have hnone : P (k + j + c) (other ((addr + k + j) / m.usedPageSize false)
            ((addr + k + j) % m.usedPageSize false) c s) := by
          refine hother (k + j) c _ _ s (by omega) (fun i hi => ?_) hs
          rw [hdest i hi, if_neg hentry]
        rw [if_neg hentry, ite_self]
        exact hnone

/-- The two translations differ where a small page is mapped in a big page that is reserved. -/
lemma destination_eq (hg : m.Geometry) (ha : a < m.addressSpaceSize) (h : ¬ m.Conflict a) :
    m.destination a = m.gpuToCpuAddress a := by
  unfold destination gpuToCpuAddress
  rw [if_neg (not_not.2 ha), pageEntryIndex_of_lt hg ha, pageEntryIndex_of_lt hg ha]
  by_cases hmapped : m.getEntry true a = EntryType.mapped.value
  · rw [if_pos hmapped, if_neg (not_not.2 hmapped)]
  · rw [if_neg hmapped, if_pos hmapped]
    by_cases hsmall : m.getEntry false a = EntryType.mapped.value
    · rw [if_pos hsmall, if_neg (not_not.2 hsmall), if_neg fun hreserved => h ⟨hreserved, hsmall⟩]
    · rw [if_neg hsmall, if_pos hsmall, ite_self]

lemma destination_conflict (ha : a < m.addressSpaceSize) (h : m.Conflict a) :
    m.destination a = none ∧ (m.gpuToCpuAddress a).isSome := by
  obtain ⟨hreserved, hmapped⟩ := h
  have hbig : m.getEntry true a ≠ EntryType.mapped.value := by
    rw [hreserved]
    decide
  unfold destination gpuToCpuAddress
  rw [if_neg hbig, if_pos hreserved, if_neg (not_not.2 ha), if_pos hbig, if_neg (not_not.2 hmapped)]
  exact ⟨rfl, rfl⟩

/-! ## What blocks mean -/

/-- The place in physical memory of the device byte of an address. -/
def physicalAddress (m : MemoryManager) (memory : DeviceMemoryManager) (a : ℕ) : Option ℕ :=
  (m.gpuToCpuAddress a).bind (getPointer memory)

/-- **The bytes that `ReadBlock` delivers** are the device bytes of the addresses that are translated, and zero for the others. -/
def ReadRight (m : MemoryManager) (memory : DeviceMemoryManager) (addr size : ℕ) : Prop :=
  ∀ (physical dest : ℕ → Byte), ∃ s, m.readBlock memory physical addr size dest = some s ∧
    (∀ i < size, ∀ dev, m.gpuToCpuAddress (addr + i) = some dev →
      ∃ ptr, getPointer memory dev = some ptr ∧ s.dest i = physical ptr) ∧
    (∀ i < size, m.gpuToCpuAddress (addr + i) = none → s.dest i = 0) ∧
    ∀ i, size ≤ i → s.dest i = dest i

/-- **The bytes that `WriteBlock` changes** are the device bytes of the addresses that are translated.  Where two addresses have
one device byte, the last one stays. -/
def WriteRight (m : MemoryManager) (memory : DeviceMemoryManager) (addr size : ℕ) : Prop :=
  ∀ (physical src : ℕ → Byte), ∃ s, m.writeBlock memory src addr size physical = some s ∧
    (∀ i < size, ∀ dev, m.gpuToCpuAddress (addr + i) = some dev → ∃ ptr, getPointer memory dev = some ptr ∧
      ((∀ j, i < j → j < size → m.physicalAddress memory (addr + j) ≠ some ptr) → s.physical ptr = src i)) ∧
    ∀ ptr, (∀ i < size, m.physicalAddress memory (addr + i) ≠ some ptr) → s.physical ptr = physical ptr

/-- The bytes of ranges that the rasterizer is told of. -/
def notifiedBytes (notified : List (ℕ × ℕ)) : List ℕ := notified.flatMap fun (start, n) => (range n).map (start + ·)

/-- **The device bytes that the rasterizer is told of** are those of the addresses that are translated, in their order. -/
def NotifyRight (m : MemoryManager) (notified : List (ℕ × ℕ)) (addr size : ℕ) : Prop :=
  notifiedBytes notified = (range size).filterMap fun i => m.gpuToCpuAddress (addr + i)

/-- **A range has one meaning.** -/
structure Right (m : MemoryManager) (memory : DeviceMemoryManager) (addr size : ℕ) : Prop where
  read : m.ReadRight memory addr size
  write : m.WriteRight memory addr size
  flush : m.NotifyRight (m.flushRegion addr size) addr size
  invalidate : m.NotifyRight (m.invalidateRegion addr size) addr size

/-! ## What block operations do -/

/-- The place in physical memory that a block operation uses for an address. -/
def place (m : MemoryManager) (memory : DeviceMemoryManager) (a : ℕ) : Option ℕ := (m.destination a).bind (getPointer memory)

lemma place_eq {a b : ℕ} (ha : m.destination a = some b) (hb : getPointer memory b = some ptr) :
    m.place memory a = some ptr := by
  rw [place, ha, bind_some, hb]

lemma place_device (memory : DeviceMemoryManager) {a : ℕ}
    (hdest : ∀ i < n, m.destination (addr + k + i) = some (a + i)) (hj : j + c ≤ n)
    (hpage : (a + j) % pageSize + c ≤ pageSize) :
    ∀ i < c, m.place memory (addr + (k + j) + i) = (getPointer memory (a + j)).map (· + i) := by
  intro i hi
  rw [place, show addr + (k + j) + i = addr + k + (j + i) by omega, hdest _ (by omega), bind_some, ← Nat.add_assoc,
    getPointer_within memory (by omega)]

def byteAt (m : MemoryManager) (memory : DeviceMemoryManager) (physical : ℕ → Byte) (a : ℕ) : Byte :=
  match m.place memory a with
  | none => 0
  | some ptr => physical ptr

variable {physical : ℕ → Byte}

lemma byteAt_some {a : ℕ} (h : m.place memory a = some ptr) : m.byteAt memory physical a = physical ptr := by
  rw [byteAt, h]

lemma byteAt_none (h : m.destination a = none) : m.byteAt memory physical a = 0 := by
  rw [byteAt, place, h]
  rfl

lemma Backed.small_part (hs : m.Sound memory) (hn : 0 < n) (ho : o + n ≤ m.usedPageSize false)
    (hentry : entryAt m.entries p = EntryType.mapped.value) :
    ∃ ptr, getPointer memory (devAddrBase (m.pageTable p) + o) = some ptr ∧
      ∀ i < n, getPointer memory (devAddrBase (m.pageTable p) + o + i) = some (ptr + i) := by
  rw [hs.geometry.small_eq] at ho
  have hbase : devAddrBase (m.pageTable p) = (m.pageTable p).toNat * pageSize := by
    rw [devAddrBase, shiftLeft_eq]
    rfl
  obtain ⟨base, hptr⟩ := isSome_iff_exists.1 (hs.backed.small p hentry)
  rw [hbase] at hptr ⊢
  have hoffset : ∀ i < n, getPointer memory ((m.pageTable p).toNat * pageSize + o + i) = some (base + o + i) := by
    intro i hi
    rw [Nat.add_assoc, getPointer_add memory _ (by omega), hptr, map_some, Nat.add_assoc]
  exact ⟨base + o, by simpa only [Nat.add_zero] using hoffset 0 hn, hoffset⟩

lemma Backed.big_part (hs : m.Sound memory) (hn : 0 < n) (ho : o + n ≤ m.usedPageSize true)
    (hentry : entryAt m.bigEntries p = EntryType.mapped.value) (hcont : m.isBigPageContinuous p = true) :
    ∃ ptr, getPointer memory (devAddrBase (m.bigPageTableDev p) + o) = some ptr ∧
      ∀ i < n, getPointer memory (devAddrBase (m.bigPageTableDev p) + o + i) = some (ptr + i) := by
  obtain ⟨base, hptr⟩ := isSome_iff_exists.1 (hs.backed.big p hentry 0 (by omega))
  rw [Nat.add_zero] at hptr
  have hoffset : ∀ i < n, getPointer memory (devAddrBase (m.bigPageTableDev p) + o + i) = some (base + o + i) := by
    intro i hi
    rw [Nat.add_assoc, hs.backed.continuous p hentry hcont _ (by omega), hptr, map_some, Nat.add_assoc]
  exact ⟨base + o, by simpa only [Nat.add_zero] using hoffset 0 hn, hoffset⟩

section Read

variable {dest : ℕ → Byte}

/-- A buffer that holds the bytes of the first `k` addresses. -/
def Delivered (m : MemoryManager) (memory : DeviceMemoryManager) (physical dest : ℕ → Byte) (addr size k : ℕ) (s : ReadState) :
    Prop :=
  s.position = k ∧ Filled dest s.dest 0 size k fun i => m.byteAt memory physical (addr + i)

lemma Delivered.fill {k n : ℕ} {s : ReadState} {bytes : ℕ → Byte} (h : m.Delivered memory physical dest addr size k s)
    (hk : k + n ≤ size) (hbytes : ∀ i < n, bytes i = m.byteAt memory physical (addr + k + i)) :
    m.Delivered memory physical dest addr size (k + n) (s.fill n bytes) := by
  obtain ⟨hposition, hfilled⟩ := h
  refine ⟨by rw [ReadState.fill, hposition], ?_⟩
  have hnext : Filled dest (overwrite s.dest (0 + k) n bytes) 0 size (k + n) _ :=
    hfilled.append hk fun i hi => by rw [hbytes i hi, Nat.add_assoc]
  rw [zero_add, ← hposition] at hnext
  rw [← hposition]
  exact hnext

lemma readDeviceBlock_spec {k n a : ℕ} {s : ReadState} (h : m.Delivered memory physical dest addr size k s) (hk : k + n ≤ size)
    (hdest : ∀ i < n, m.destination (addr + k + i) = some (a + i)) :
    m.Delivered memory physical dest addr size (k + n) (readDeviceBlock memory physical a n s) := by
  refine walkBlock_rule (fun j s => m.Delivered memory physical dest addr size (k + j) s) h ?_
  intro j c s _ hj hpage hs
  have hplace := place_device memory hdest hj hpage
  rw [← Nat.add_assoc]
  cases hptr : getPointer memory (a + j) with
  | none =>
    refine hs.fill (by omega) fun i hi => ?_
    rw [byteAt, hplace i hi, hptr]
    rfl
  | some ptr =>
    refine hs.fill (by omega) fun i hi => ?_
    rw [byteAt_some (by rw [hplace i hi, hptr]; rfl)]

/-- **`ReadBlock` delivers the bytes that the block operations find.** -/
lemma readBlock_spec (hs : m.Sound memory) (physical dest : ℕ → Byte) (addr size : ℕ) :
    ∃ s, m.readBlock memory physical addr size dest = some s ∧ m.Delivered memory physical dest addr size size s := by
  refine blockOperation_rule (fun k s => ∃ st, s = some st ∧ m.Delivered memory physical dest addr size k st)
    ⟨_, rfl, rfl, Filled.refl _ _ _ _⟩ ?_ ?_ ?_
  · rintro k n p o _ hn hk ho hentry hdest ⟨st, rfl, hst⟩
    obtain ⟨ptr, hptr, hnext⟩ := Backed.small_part hs hn ho hentry
    have hst' : m.Delivered memory physical dest addr size k
        { st with notified := st.notified ++ [(devAddrBase (m.pageTable p) + o, n)] } := hst
    dsimp only
    rw [bind_some, hptr, map_some]
    refine ⟨_, rfl, hst'.fill hk fun i hi => ?_⟩
    rw [byteAt_some (place_eq (hdest i hi) (hnext i hi))]
  · rintro k n p o _ hn hk ho hentry hdest ⟨st, rfl, hst⟩
    have hst' : m.Delivered memory physical dest addr size k
        { st with notified := st.notified ++ [(devAddrBase (m.bigPageTableDev p) + o, n)] } := hst
    dsimp only
    rw [bind_some]
    by_cases hcont : m.isBigPageContinuous p = false
    · rw [if_pos hcont]
      exact ⟨_, rfl, readDeviceBlock_spec hst' hk hdest⟩
    · obtain ⟨ptr, hptr, hnext⟩ := Backed.big_part hs hn ho hentry (Bool.not_eq_false _ ▸ hcont)
      rw [if_neg hcont, hptr, map_some]
      refine ⟨_, rfl, hst'.fill hk fun i hi => ?_⟩
      rw [byteAt_some (place_eq (hdest i hi) (hnext i hi))]
  · rintro k n p o _ hk hdest ⟨st, rfl, hst⟩
    exact ⟨_, rfl, hst.fill hk fun i hi => (byteAt_none (hdest i hi)).symm⟩

end Read

section Write

variable {src : ℕ → Byte}

/-- Physical memory to which the bytes of the first `k` addresses are written. -/
def Stored (m : MemoryManager) (memory : DeviceMemoryManager) (physical src : ℕ → Byte) (addr k : ℕ) (s : WriteState) : Prop :=
  s.position = k ∧ s.physical = scatter (fun i => m.place memory (addr + i)) src k physical

variable {s : WriteState}

lemma Stored.store {k n ptr : ℕ} (h : m.Stored memory physical src addr k s)
    (hplace : ∀ i < n, m.place memory (addr + k + i) = some (ptr + i)) :
    m.Stored memory physical src addr (k + n) (s.store src n ptr) := by
  obtain ⟨hposition, hphysical⟩ := h
  refine ⟨by rw [WriteState.store, hposition], ?_⟩
  rw [scatter_range fun i hi => by rw [← Nat.add_assoc, hplace i hi], ← hphysical, ← hposition]
  rfl

lemma Stored.skip {k n : ℕ} (h : m.Stored memory physical src addr k s)
    (hplace : ∀ i < n, m.place memory (addr + k + i) = none) : m.Stored memory physical src addr (k + n) (s.skip n) := by
  obtain ⟨hposition, hphysical⟩ := h
  refine ⟨by rw [WriteState.skip, hposition], ?_⟩
  rw [scatter_none fun i hi => by rw [← Nat.add_assoc, hplace i hi], ← hphysical]
  rfl

lemma writeDeviceBlock_spec {k n a : ℕ} (h : m.Stored memory physical src addr k s)
    (hdest : ∀ i < n, m.destination (addr + k + i) = some (a + i)) :
    m.Stored memory physical src addr (k + n) (writeDeviceBlock memory src a n s) := by
  refine walkBlock_rule (fun j s => m.Stored memory physical src addr (k + j) s) h ?_
  intro j c s _ hj hpage hs
  have hplace := place_device memory hdest hj hpage
  rw [← Nat.add_assoc]
  cases hptr : getPointer memory (a + j) with
  | none => exact hs.skip fun i hi => by rw [hplace i hi, hptr, map_none]
  | some ptr => exact hs.store fun i hi => by rw [hplace i hi, hptr, map_some]

/-- **`WriteBlock` writes the bytes to where the block operations find them.** -/
lemma writeBlock_spec (hs : m.Sound memory) (physical src : ℕ → Byte) (addr size : ℕ) :
    ∃ s, m.writeBlock memory src addr size physical = some s ∧ m.Stored memory physical src addr size s := by
  refine blockOperation_rule (fun k s => ∃ st, s = some st ∧ m.Stored memory physical src addr k st)
    ⟨_, rfl, rfl, rfl⟩ ?_ ?_ ?_
  · rintro k n p o _ hn hk ho hentry hdest ⟨st, rfl, hst⟩
    obtain ⟨ptr, hptr, hnext⟩ := Backed.small_part hs hn ho hentry
    have hst' : m.Stored memory physical src addr k
        { st with notified := st.notified ++ [(devAddrBase (m.pageTable p) + o, n)] } := hst
    dsimp only
    rw [bind_some, hptr, map_some]
    exact ⟨_, rfl, hst'.store fun i hi => place_eq (hdest i hi) (hnext i hi)⟩
  · rintro k n p o _ hn hk ho hentry hdest ⟨st, rfl, hst⟩
    have hst' : m.Stored memory physical src addr k
        { st with notified := st.notified ++ [(devAddrBase (m.bigPageTableDev p) + o, n)] } := hst
    dsimp only
    rw [bind_some]
    by_cases hcont : m.isBigPageContinuous p = false
    · rw [if_pos hcont]
      exact ⟨_, rfl, writeDeviceBlock_spec hst' hdest⟩
    · obtain ⟨ptr, hptr, hnext⟩ := Backed.big_part hs hn ho hentry (Bool.not_eq_false _ ▸ hcont)
      rw [if_neg hcont, hptr, map_some]
      exact ⟨_, rfl, hst'.store fun i hi => place_eq (hdest i hi) (hnext i hi)⟩
  · rintro k n p o _ hk hdest ⟨st, rfl, hst⟩
    refine ⟨_, rfl, hst.skip fun i hi => ?_⟩
    rw [place, hdest i hi]
    rfl

end Write

section Notify

/-- **The rasterizer is told of the bytes that the block operations find.** -/
lemma notifyRegion_spec (m : MemoryManager) (addr size : ℕ) :
    notifiedBytes (m.notifyRegion addr size) = (range size).filterMap fun i => m.destination (addr + i) := by
  have hpart : ∀ {k n a : ℕ} {notified : List (ℕ × ℕ)},
      notifiedBytes notified = ((range k).filterMap fun i => m.destination (addr + i)) →
      (∀ i < n, m.destination (addr + k + i) = some (a + i)) →
      notifiedBytes (notified ++ [(a, n)]) = (range (k + n)).filterMap fun i => m.destination (addr + i) := by
    intro k n a notified hnotified hdest
    have hnext : ((range n).map (k + ·)).filterMap (fun i => m.destination (addr + i)) = (range n).map (a + ·) := by
      rw [filterMap_map, ← filterMap_eq_map]
      refine filterMap_congr fun i hi => ?_
      rw [Function.comp_apply, ← Nat.add_assoc, hdest i (mem_range.1 hi)]
      rfl
    rw [range_add, filterMap_append, hnext, ← hnotified]
    simp [notifiedBytes]
  refine blockOperation_rule (fun k notified =>
    notifiedBytes notified = (range k).filterMap fun i => m.destination (addr + i)) rfl ?_ ?_ ?_
  · intro k n p o notified _ _ _ _ hdest h
    exact hpart h hdest
  · intro k n p o notified _ _ _ _ hdest h
    exact hpart h hdest
  · intro k n p o notified _ hdest h
    have hnone : ((range n).map (k + ·)).filterMap (fun i => m.destination (addr + i)) = [] := by
      rw [filterMap_map, filterMap_eq_nil_iff]
      intro i hi
      rw [Function.comp_apply, ← Nat.add_assoc, hdest i (mem_range.1 hi)]
    rw [range_add, filterMap_append, hnone, append_nil, h]

end Notify

/-! ## Ranges -/

lemma destination_backed (hs : m.Sound memory) {a dev : ℕ} (h : m.destination a = some dev) :
    ∃ ptr, getPointer memory dev = some ptr := by
  have hbig := mod_lt a (m.usedPageSize_pos true)
  have hsmall := mod_lt a (m.usedPageSize_pos false)
  unfold destination at h
  by_cases hmapped : m.getEntry true a = EntryType.mapped.value
  · rw [if_pos hmapped, some_inj] at h
    rw [← h]
    exact isSome_iff_exists.1 (hs.backed.big _ hmapped _ hbig)
  · rw [if_neg hmapped] at h
    by_cases hreserved : m.getEntry true a = EntryType.reserved.value
    · rw [if_pos hreserved] at h
      exact absurd h (by simp)
    · rw [if_neg hreserved] at h
      by_cases hentry : m.getEntry false a = EntryType.mapped.value
      · rw [if_pos hentry, some_inj] at h
        obtain ⟨ptr, hptr, -⟩ := Backed.small_part hs one_pos (succ_le_of_lt hsmall) hentry
        exact ⟨ptr, h ▸ hptr⟩
      · rw [if_neg hentry] at h
        exact absurd h (by simp)

lemma right_of_no_conflict (hs : m.Sound memory) (hin : addr + size ≤ m.addressSpaceSize)
    (h : ∀ i < size, ¬ m.Conflict (addr + i)) : m.Right memory addr size := by
  have hdest : ∀ i < size, m.destination (addr + i) = m.gpuToCpuAddress (addr + i) :=
    fun i hi => destination_eq hs.geometry (by omega) (h i hi)
  have hplace : ∀ i < size, m.place memory (addr + i) = m.physicalAddress memory (addr + i) := by
    intro i hi
    rw [place, physicalAddress, hdest i hi]
  have hnotify : m.NotifyRight (m.notifyRegion addr size) addr size := by
    rw [NotifyRight, notifyRegion_spec]
    exact filterMap_congr fun i hi => hdest i (mem_range.1 hi)
  refine ⟨?_, ?_, hnotify, hnotify⟩
  · intro physical dest
    obtain ⟨s, hread, -, hfilled⟩ := readBlock_spec hs physical dest addr size
    have hbyte : ∀ i < size, s.dest i = m.byteAt memory physical (addr + i) := by
      intro i hi
      rw [← hfilled.done i hi, zero_add]
    refine ⟨s, hread, ?_, ?_, fun i hi => hfilled.frame i (by omega)⟩
    · intro i hi dev hdev
      rw [← hdest i hi] at hdev
      obtain ⟨ptr, hptr⟩ := destination_backed hs hdev
      exact ⟨ptr, hptr, by rw [hbyte i hi, byteAt_some (place_eq hdev hptr)]⟩
    · intro i hi hnone
      rw [hbyte i hi, byteAt_none ((hdest i hi).trans hnone)]
  · intro physical src
    obtain ⟨s, hwrite, -, hphysical⟩ := writeBlock_spec hs physical src addr size
    refine ⟨s, hwrite, ?_, ?_⟩
    · intro i hi dev hdev
      rw [← hdest i hi] at hdev
      obtain ⟨ptr, hptr⟩ := destination_backed hs hdev
      refine ⟨ptr, hptr, fun hlast => ?_⟩
      rw [hphysical]
      exact scatter_last hi (place_eq hdev hptr) fun j hij hj => by
        rw [hplace j hj]
        exact hlast j hij hj
    · intro ptr huntouched
      rw [hphysical]
      exact scatter_untouched fun i hi => by
        rw [hplace i hi]
        exact huntouched i hi

/-- A byte that is translated and read as zero. -/
lemma not_right_of_conflict (hs : m.Sound memory) (hin : addr + size ≤ m.addressSpaceSize) (hi : i < size)
    (h : m.Conflict (addr + i)) : ¬ m.Right memory addr size := by
  intro hright
  obtain ⟨hnone, hsome⟩ := destination_conflict (by omega) h
  obtain ⟨dev, hdev⟩ := isSome_iff_exists.1 hsome
  obtain ⟨s, hread, hbytes, -, -⟩ := hright.read (fun _ => 1) (fun _ => 0)
  obtain ⟨ptr, -, hone⟩ := hbytes i hi dev hdev
  obtain ⟨s', hread', -, hfilled⟩ := readBlock_spec hs (fun _ => 1) (fun _ => 0) addr size
  obtain rfl : s = s' := some_inj.1 (hread.symm.trans hread')
  have hzero := hfilled.done i hi
  rw [zero_add, byteAt_none hnone, hone] at hzero
  exact absurd hzero (by decide)

lemma right_iff (hs : m.Sound memory) (hin : addr + size ≤ m.addressSpaceSize) :
    m.Right memory addr size ↔ ∀ i < size, ¬ m.Conflict (addr + i) :=
  ⟨fun h _ hi hconflict => not_right_of_conflict hs hin hi hconflict h, right_of_no_conflict hs hin⟩

/-- **GPU virtual memory has one meaning** where no small page is mapped in a big page that is reserved, and there only: in
every state after a run the block operations on a range do what the translations of its addresses say if and only if the
range has no such page.  In runs that make none it is so of every range.  The code carries every operation out but those
that map small pages up to the end of the address space, or that have no small pages. -/
theorem blocks_mean_translations {addressSpaceBits pageBits bigPageBits : ℕ}
    (hg : (new addressSpaceBits pageBits bigPageBits).Geometry) (memory : DeviceMemoryManager) :
    (∀ m, Reached memory (fun m op => op.Valid memory m) (new addressSpaceBits pageBits bigPageBits) m →
      (∀ addr size, addr + size ≤ m.addressSpaceSize → (m.Right memory addr size ↔ ∀ i < size, ¬ m.Conflict (addr + i))) ∧
      ∀ op : GpuOp, op.Valid memory m → ((op.apply memory m).isSome ↔ op.Fits m)) ∧
    ∀ m, Reached memory (fun m op => op.Valid memory m ∧ op.KeepsApart m) (new addressSpaceBits pageBits bigPageBits) m →
      ∀ addr size, addr + size ≤ m.addressSpaceSize → m.Right memory addr size := by
  obtain ⟨hs, ha⟩ := sound_new memory hg
  refine ⟨?_, ?_⟩
  · intro m hreached
    have hm := reached_sound hs hreached
    exact ⟨fun addr size hin => right_iff hm hin, fun op _ => apply_isSome_iff hm.geometry op⟩
  · intro m hreached addr size hin
    obtain ⟨hm, hapart⟩ := reached_apart hs ha hreached
    exact right_of_no_conflict hm hin fun i hi => hapart (addr + i) (by omega)

/-- Device memory whose first page is the first one of physical memory. -/
def firstPage : DeviceMemoryManager := DeviceMemoryManager.initial.setPhysical 0 1

lemma firstPage_mapped (ho : o < 4096) : DeviceMapped firstPage (0 + o) := by
  refine ⟨?_, ?_⟩
  · unfold devicePages pageSize Core.pageBits
    omega
  · have hpage : (0 + o) / pageSize = 0 := div_eq_of_lt (by unfold pageSize Core.pageBits; omega)
    unfold getPointer
    rw [hpage]
    rfl

lemma geometry_of_gpu : (new 40 12 16).Geometry := ⟨rfl, by decide, by decide, by decide, by decide⟩

def smallMapped : MemoryManager := (new 40 12 16).pageOp .mapped 0 0

def bigReserved : MemoryManager := smallMapped.bigPageOp firstPage .reserved 0 0

lemma map_valid : (GpuOp.map 0 0 4096 false).Valid firstPage (new 40 12 16) :=
  ⟨⟨by decide, by decide, by decide⟩, fun _ ho => firstPage_mapped ho⟩

theorem blocks_mean_translations_smallMapped : (new 40 12 16).Geometry ∧
    Reached firstPage (fun m op => op.Valid firstPage m ∧ op.KeepsApart m) (new 40 12 16) smallMapped ∧
    smallMapped.Right firstPage 0 0x2000 := by
  have hfree : ∀ a, (new 40 12 16).getEntry true a ≠ EntryType.reserved.value := by
    intro a
    rw [getEntry_new]
    decide
  have hreached : Reached firstPage (fun m op => op.Valid firstPage m ∧ op.KeepsApart m) (new 40 12 16) smallMapped :=
    .step .start ⟨map_valid, fun a _ _ => hfree a⟩ rfl
  exact ⟨geometry_of_gpu, hreached,
    (blocks_mean_translations geometry_of_gpu firstPage).2 smallMapped hreached 0 0x2000 (by decide)⟩

/-- **A small page that is mapped in a big page that is reserved afterwards**: it is translated, and blocks do not see it. -/
theorem blocks_miss_small_page :
    ∃ m, Reached firstPage (fun m op => op.Valid firstPage m) (new 40 12 16) m ∧ 0 + 1 ≤ m.addressSpaceSize ∧
      ¬ m.Right firstPage 0 1 := by
  have hvalid : (GpuOp.mapSparse 0 0x10000 true).Valid firstPage smallMapped := ⟨by decide, by decide, by decide⟩
  have hreached : Reached firstPage (fun m op => op.Valid firstPage m) (new 40 12 16) bigReserved :=
    .step (.step .start map_valid rfl) hvalid rfl
  have hs := reached_sound (sound_new firstPage geometry_of_gpu).1 hreached
  exact ⟨bigReserved, hreached, by decide, not_right_of_conflict hs (by decide) one_pos ⟨by decide, by decide⟩⟩

/-- **The last operation on an address decides.**  After every run an address has the device address that the last operation on
its big page gave it, or else the one that the last operation on its small page gave it. -/
theorem gpuToCpuAddress_of_run {addressSpaceBits pageBits bigPageBits : ℕ} {σ : Bool → ℕ → Option ℕ}
    (hg : (new addressSpaceBits pageBits bigPageBits).Geometry)
    (h : Meant memory (new addressSpaceBits pageBits bigPageBits) m σ) (ha : a < m.addressSpaceSize) :
    m.gpuToCpuAddress a = (σ true a).or (σ false a) := by
  have hrun : m.Sound memory ∧ m.translated = σ := by
    clear ha
    induction h with
    | start =>
      refine ⟨(sound_new memory hg).1, ?_⟩
      funext b a
      exact if_neg (by rw [← getEntry, getEntry_new]; decide)
    | step _ hvalid hop ih =>
      obtain ⟨hs, rfl⟩ := ih
      exact ⟨(sound_step hs hvalid hop).1, translated_step hs.geometry hvalid hop⟩
  obtain ⟨hs, rfl⟩ := hrun
  unfold gpuToCpuAddress
  rw [if_neg (not_not.2 ha), pageEntryIndex_of_lt hs.geometry ha, pageEntryIndex_of_lt hs.geometry ha]
  by_cases hbig : m.getEntry true a = EntryType.mapped.value
  · rw [if_neg (not_not.2 hbig), show m.translated true a = _ from if_pos hbig]
    rfl
  · rw [if_pos hbig, show m.translated true a = _ from if_neg hbig, none_or, ite_not]
    rfl

theorem gpuToCpuAddress_of_run_smallMapped : smallMapped.gpuToCpuAddress 5 = some 5 :=
  gpuToCpuAddress_of_run geometry_of_gpu (.step .start map_valid rfl) (by decide)

/-- **What is written is read back.**  In every state after a run, a read after a write delivers the last byte written to
the place of an address, also through another address, the byte that was there if none was, and zero where there is no
place. -/
theorem readBlock_writeBlock {addressSpaceBits pageBits bigPageBits : ℕ}
    (hg : (new addressSpaceBits pageBits bigPageBits).Geometry)
    (h : Reached memory (fun m op => op.Valid memory m) (new addressSpaceBits pageBits bigPageBits) m)
    (physical src dest : ℕ → Byte) (addr size addr' size' : ℕ) :
    ∃ w s, m.writeBlock memory src addr size physical = some w ∧
      m.readBlock memory w.physical addr' size' dest = some s ∧
      (∀ i, size' ≤ i → s.dest i = dest i) ∧ ∀ i < size', (m.place memory (addr' + i) = none → s.dest i = 0) ∧
        ∀ ptr, m.place memory (addr' + i) = some ptr →
          (∀ j < size, m.place memory (addr + j) = some ptr →
            (∀ k, j < k → k < size → m.place memory (addr + k) ≠ some ptr) → s.dest i = src j) ∧
          ((∀ j < size, m.place memory (addr + j) ≠ some ptr) → s.dest i = physical ptr) := by
  have hs := reached_sound (sound_new memory hg).1 h
  obtain ⟨w, hwrite, -, hphysical⟩ := writeBlock_spec hs physical src addr size
  obtain ⟨s, hread, -, hfilled⟩ := readBlock_spec hs w.physical dest addr' size'
  refine ⟨w, s, hwrite, hread, fun i hi => hfilled.frame i (by omega), fun i hi => ?_⟩
  have hbyte : s.dest i = m.byteAt memory w.physical (addr' + i) := by rw [← hfilled.done i hi, zero_add]
  refine ⟨fun hnone => by rw [hbyte, byteAt, hnone], fun ptr hptr => ?_⟩
  rw [hbyte, byteAt_some hptr, hphysical]
  exact ⟨fun j hj hplace hlast => scatter_last hj hplace hlast, scatter_untouched⟩

theorem readBlock_writeBlock_smallMapped : ∃ w s,
    smallMapped.writeBlock firstPage (fun _ => 7) 4 2 (fun _ => 0) = some w ∧
    smallMapped.readBlock firstPage w.physical 0 8 (fun _ => 0) = some s ∧ s.dest 5 = 7 := by
  obtain ⟨w, s, hwrite, hread, -, h⟩ := readBlock_writeBlock geometry_of_gpu
    (.step .start map_valid rfl : Reached firstPage _ _ smallMapped) (fun _ => 0) (fun _ => 7) (fun _ => 0) 4 2 0 8
  exact ⟨w, s, hwrite, hread, ((h 5 (by decide)).2 5 rfl).1 1 (by decide) rfl fun k _ _ => by omega⟩

end MemoryManager

end Voltemu.VideoCore
