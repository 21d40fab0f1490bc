import Voltemu.Kernel.Ipc.ReceiveMapping

/-!
# The pages of an IPC mapping

What `SetupForIpcServer` maps for a buffer, counted in pages of the client.

* `Extents` are the ends of a buffer in pages: `start` pages, zero or one, come before the whole ones, and the end page, if
  there is one, is page `whole`.
* `Traversed` is the invariant of the traversal: which pages are mapped, and which form the current block.
* `mapBuffer_spec`: every page of the buffer is mapped.
* `startBytes_spec`, `endBytes_spec`: what the partial pages hold.
-/

namespace Voltemu.Kernel

/-! ## Extents -/

structure IpcBuffer.Extents (b : IpcBuffer) (first start whole pages : ℕ) : Prop where
  alignedStart : b.alignedSrcStart = first * PageSize
  mappingStart : b.mappingSrcStart = (first + start) * PageSize
  mappingEnd : b.mappingSrcEnd = (first + whole) * PageSize
  alignedEnd : b.alignedSrcEnd = (first + pages) * PageSize
  start_le : start ≤ 1
  whole_le : whole ≤ pages
  pages_le : pages ≤ whole + 1
  pos : 0 < pages
  address : first * PageSize ≤ b.address ∧ b.address ≤ (first + start) * PageSize
  head : b.address < (first + 1) * PageSize
  tail : (first + whole) * PageSize ≤ b.address + b.size ∧ b.address + b.size < (first + whole + 1) * PageSize
  startPage : 0 < start ↔ first * PageSize < b.address
  endPage : whole < pages ↔ (first + whole) * PageSize < b.address + b.size

lemma IpcBuffer.extents (b : IpcBuffer) (hsize : 0 < b.size) :
    ∃ first start whole pages, b.Extents first start whole pages := by
  refine ⟨b.address / PageSize, if b.address % PageSize = 0 then 0 else 1,
    (b.address + b.size) / PageSize - b.address / PageSize,
    (b.address + b.size) / PageSize - b.address / PageSize + if (b.address + b.size) % PageSize = 0 then 0 else 1, ?_⟩
  have hle : b.address / PageSize ≤ (b.address + b.size) / PageSize := Nat.div_le_div_right (by omega)
  constructor <;>
    simp only [alignedSrcStart, mappingSrcStart, mappingSrcEnd, alignedSrcEnd, alignDown, alignUp, PageSize] at * <;>
    (try split_ifs) <;> omega

def IpcBuffer.Contains (b : IpcBuffer) (x : ℕ) : Prop := b.address ≤ x ∧ x < b.address + b.size

instance (b : IpcBuffer) (x : ℕ) : Decidable (b.Contains x) := inferInstanceAs (Decidable (_ ∧ _))

/-! ## Traversals -/

/-- A page of a client.  It is not mapped at its own address: a traversal would take it for unmapped. -/
structure ClientPage (entries : PageEntries) (page phys : ℕ) : Prop where
  entry : entries page = entryOf page phys
  aligned : phys % PageSize = 0
  pos : 0 < phys
  lt : phys < 2 ^ 64
  page_lt : page * PageSize < 2 ^ 64
  apart : phys ≠ page * PageSize

variable {entries : PageEntries} {page numPages physAddr virtPage : ℕ}

lemma ClientPage.addr_ne_zero {phys : ℕ} (h : ClientPage entries page phys) : (entries page).addr ≠ 0 := by
  have h1 := h.lt
  have h2 := h.page_lt
  have h3 := h.apart
  rw [h.entry, entryOf]
  dsimp only
  omega

lemma ClientPage.traverse {phys offset : ℕ} (h : ClientPage entries page phys) (hoffset : offset < PageSize) :
    continueTraversal entries ⟨page, page * PageSize + offset⟩ =
      (phys + offset, ⟨page + 1, page * PageSize + offset + PageSize⟩) := by
  have h1 := h.lt
  have h2 := h.page_lt
  have h3 := h.aligned
  have hne := h.addr_ne_zero
  rw [continueTraversal, if_pos hne, h.entry, entryOf]
  have heq : ((phys + (2 ^ 64 - page * PageSize)) % 2 ^ 64 + (page * PageSize + offset)) % 2 ^ 64 = phys + offset := by
    simp only [PageSize] at *
    omega
  rw [heq]

lemma mapPages_inside {i : ℕ} (hphys : physAddr ≠ 0) (hi : i < numPages) :
    mapPages entries (virtPage * PageSize) numPages physAddr (virtPage + i) =
      entryOf (virtPage + i) (physAddr + i * PageSize) := by
  have hdiv : virtPage * PageSize / PageSize = virtPage := Nat.mul_div_cancel _ (by decide)
  rw [mapPages, hdiv, if_pos ⟨by omega, by omega⟩, if_neg hphys, Nat.add_sub_cancel_left]

lemma mapPages_outside (hpage : page < virtPage ∨ virtPage + numPages ≤ page) :
    mapPages entries (virtPage * PageSize) numPages physAddr page = entries page := by
  have hdiv : virtPage * PageSize / PageSize = virtPage := Nat.mul_div_cancel _ (by decide)
  rw [mapPages, hdiv, if_neg (by omega)]

/-! ## The mapping -/

namespace MapProgress

section Mapping

variable {env : IpcEnvironment} {b : IpcBuffer} {send : Bool}
variable {first start whole pages dst : ℕ} {phys : ℕ → ℕ}

/-- **The invariant of the traversal.**  The first `k` pages were traversed and `m` of them are mapped, to the physical
pages `source`.  The others form a block of consecutive physical pages. -/
structure Traversed (phys : ℕ → ℕ) (first dst : ℕ) (source : ℕ → ℕ) (bytes : ℕ → BitVec 8) (m k : ℕ)
    (p : MapProgress) : Prop where
  le : m ≤ k
  total : p.totBlockSize = k * PageSize
  current : p.curBlockSize = (k - m) * PageSize
  context : p.context = ⟨first + k, (first + k) * PageSize⟩
  mappedAddr : p.curMappedAddr = (dst + m) * PageSize
  block : ∀ i, m ≤ i → i < k → phys i = p.curBlockAddr + (i - m) * PageSize
  mapped : ∀ i, i < m → p.server.entries (dst + i) = entryOf (dst + i) (source i)
  bytes_eq : p.server.memory.bytes = bytes

variable {source : ℕ → ℕ} {bytes : ℕ → BitVec 8} {m k : ℕ} {p : MapProgress}

lemma operateMap_bytes (s : IpcServer) (virtAddr numPages physAddr : ℕ) :
    (s.operateMap env virtAddr numPages physAddr).memory.bytes = s.memory.bytes := by
  rw [IpcServer.operateMap]
  dsimp only
  split_ifs <;> rfl

lemma Traversed.operateMap (h : Traversed phys first dst source bytes m k p) (env : IpcEnvironment) (hlt : m < k)
    (hsource : ∀ i, m ≤ i → i < k → source i = phys i) (hpos : ∀ i, m ≤ i → i < k → 0 < phys i) :
    (∀ i, i < k → (p.server.operateMap env p.curMappedAddr (k - m) p.curBlockAddr).entries (dst + i) =
      entryOf (dst + i) (source i)) ∧
    (p.server.operateMap env p.curMappedAddr (k - m) p.curBlockAddr).memory.bytes = bytes := by
  have hblock : p.curBlockAddr = phys m := by
    rw [h.block m le_rfl hlt, Nat.sub_self, Nat.zero_mul, Nat.add_zero]
  have hne : p.curBlockAddr ≠ 0 := by
    rw [hblock]
    exact (hpos m le_rfl hlt).ne'
  refine ⟨fun i hi => ?_, (operateMap_bytes ..).trans h.bytes_eq⟩
  show mapPages p.server.entries p.curMappedAddr (k - m) p.curBlockAddr (dst + i) = _
  rw [h.mappedAddr]
  by_cases hold : i < m
  · rw [mapPages_outside (by omega)]
    exact h.mapped i hold
  · obtain ⟨j, rfl⟩ := Nat.exists_eq_add_of_le (Nat.le_of_not_lt hold)
    rw [← Nat.add_assoc, mapPages_inside hne (by omega), hsource (m + j) (by omega) hi, h.block (m + j) (by omega) hi,
      Nat.add_sub_cancel_left]

def ClientPages (entries : PageEntries) (first pages : ℕ) (phys : ℕ → ℕ) : Prop :=
  ∀ i, i < pages → ClientPage entries (first + i) (phys i)

lemma ClientPages.traverse (h : ClientPages entries first pages phys) (hk : k < pages) :
    continueTraversal entries ⟨first + k, (first + k) * PageSize⟩ =
      (phys k, ⟨first + (k + 1), (first + (k + 1)) * PageSize⟩) := by
  have htraverse : continueTraversal entries ⟨first + k, (first + k) * PageSize + 0⟩ =
      (phys k + 0, ⟨first + k + 1, (first + k) * PageSize + 0 + PageSize⟩) := (h k hk).traverse (by decide)
  rw [Nat.add_zero, Nat.add_zero] at htraverse
  rw [htraverse, ← Nat.add_assoc first k 1, Nat.add_mul (first + k), Nat.one_mul]

def bytesAfterStart (b : IpcBuffer) (send : Bool) (s : IpcServer) (startPage physAddr : ℕ) : PhysicalMemory :=
  if startPage = 0 then s.memory else startBytes b send s.memory s.ipcFillValue startPage physAddr

lemma endBytes_congr {memory memory' : PhysicalMemory} (h : memory.bytes = memory'.bytes) {fillValue : BitVec 8}
    {page blockAddr : ℕ} :
    (endBytes b send memory fillValue page blockAddr).bytes = (endBytes b send memory' fillValue page blockAddr).bytes := by
  simp only [endBytes]
  split_ifs <;> simp only [PhysicalMemory.fill, PhysicalMemory.copy, h]

section Steps

variable (hext : b.Extents first start whole pages) (hclient : ClientPages entries first pages phys)
include hext hclient

lemma begin_spec (s : IpcServer) :
    Traversed phys first dst source s.memory.bytes 0 1 (begin entries b s (dst * PageSize)) := by
  have hpos := hext.pos
  have htraverse := hclient.traverse hpos
  have haligned := (hclient 0 hpos).aligned
  have hbegin : beginTraversal entries b.alignedSrcStart = (phys 0, ⟨first + 1, (first + 1) * PageSize⟩) := by
    rw [beginTraversal, hext.alignedStart, Nat.mul_div_cancel _ (by decide)]
    exact htraverse
  rw [begin, hbegin]
  dsimp only
  refine ⟨by omega, by rw [haligned]; rfl, by rw [haligned]; rfl, rfl, rfl, ?_, fun i hi => by omega, rfl⟩
  intro i hi hi'
  obtain rfl : i = 0 := by omega
  rfl

variable {startPage endPage : ℕ}

lemma mapStart_spec (hstart : startPage = 0 ↔ start = 0) (hsource : start = 1 → source 0 = startPage) (s : IpcServer) :
    Traversed phys first dst source (bytesAfterStart b send s startPage (phys 0)).bytes start (min (start + 1) pages)
      (mapStart env entries b send startPage (begin entries b s (dst * PageSize))) ∧
    (mapStart env entries b send startPage (begin entries b s (dst * PageSize))).server.ipcFillValue = s.ipcFillValue := by
  have hpos := hext.pos
  have hbegin : Traversed phys first dst source s.memory.bytes 0 1 _ := begin_spec hext hclient s
  have hserver : (begin entries b s (dst * PageSize)).server = s := rfl
  have hle := hext.start_le
  rw [mapStart, bytesAfterStart]
  by_cases hzero : startPage = 0
  · obtain rfl := hstart.1 hzero
    rw [if_pos hzero, if_pos hzero, Nat.min_eq_left (by omega)]
    exact ⟨hbegin, rfl⟩
  · rw [if_neg hzero, if_neg hzero]
    obtain rfl : start = 1 := by
      by_contra hne
      exact hzero (hstart.2 (by omega))
    generalize hp : begin entries b s (dst * PageSize) = p at hbegin hserver
    subst hserver
    have hblock : p.curBlockAddr = phys 0 := by
      have := hbegin.block 0 le_rfl (by omega)
      simpa using this.symm
    have haddr : p.curMappedAddr = dst * PageSize := hbegin.mappedAddr
    have hcur : p.curBlockSize = PageSize := by simpa using hbegin.current
    have htotal : p.totBlockSize = PageSize := by simpa using hbegin.total
    have hcontext := hbegin.context
    have hmore : b.alignedSrcEnd - b.alignedSrcStart > PageSize ↔ 1 < pages := by
      rw [hext.alignedEnd, hext.alignedStart]
      simp only [PageSize]
      omega
    have hentry : ∀ server : IpcServer,
        (server.operateMap env (dst * PageSize) 1 startPage).entries (dst + 0) = entryOf (dst + 0) (source 0) := by
      intro server
      have hmap : mapPages server.entries (dst * PageSize) 1 startPage (dst + 0) =
          entryOf (dst + 0) (startPage + 0 * PageSize) := mapPages_inside hzero (by omega)
      rw [hsource rfl]
      exact hmap
    simp only [hcur, htotal, haddr, hblock, Nat.sub_self, hmore, true_and]
    by_cases hpages : 1 < pages
    · rw [if_pos hpages, hcontext, hclient.traverse hpages, Nat.min_eq_left (by omega)]
      refine ⟨⟨by omega, by simp only [PageSize], by simp only [PageSize], rfl, ?_, ?_, ?_, operateMap_bytes ..⟩, rfl⟩
      · simp only [PageSize]
        omega
      · intro i hi hi'
        obtain rfl : i = 1 := by omega
        rfl
      · intro i hi
        obtain rfl : i = 0 := by omega
        exact hentry _
    · rw [if_neg hpages, hcontext, Nat.min_eq_right (by omega)]
      obtain rfl : pages = 1 := by omega
      refine ⟨⟨le_rfl, by simp only [PageSize], by simp only [PageSize], rfl, ?_, ?_, ?_, operateMap_bytes ..⟩, rfl⟩
      · simp only [PageSize]
        omega
      · exact fun i hi hi' => by omega
      · intro i hi
        obtain rfl : i = 0 := by omega
        exact hentry _

/-- **The loop** traverses the whole pages, and maps a block when the next page does not continue it. -/
lemma mapLoop_spec (env : IpcEnvironment) (hsource : ∀ i, start ≤ i → i < whole → source i = phys i)
    (fuel : ℕ) (h : Traversed phys first dst source bytes m k p) (hstart : start ≤ m) (hlt : k < whole → m < k)
    (hfuel : whole ≤ k + fuel) :
    ∃ m', Traversed phys first dst source bytes m' (max k whole) (mapLoop env entries b fuel p) ∧ start ≤ m' ∧
      (k < whole → m' < whole) ∧ (whole ≤ k → m' = m) ∧
      (mapLoop env entries b fuel p).server.ipcFillValue = p.server.ipcFillValue := by
  induction fuel generalizing m k p with
  | zero =>
    rw [mapLoop, Nat.max_eq_left (by omega)]
    exact ⟨m, h, hstart, fun _ => by omega, fun _ => rfl, rfl⟩
  | succ fuel ih =>
    have hguard : b.alignedSrcStart + p.totBlockSize < b.mappingSrcEnd ↔ k < whole := by
      rw [h.total, hext.alignedStart, hext.mappingEnd]
      simp only [PageSize]
      omega
    rw [mapLoop]
    simp only [hguard]
    by_cases hmore : k < whole
    · have hk : k < pages := hmore.trans_le hext.whole_le
      have hmk := hlt hmore
      have hmax : max k whole = max (k + 1) whole := by omega
      have hpages : p.curBlockSize / PageSize = k - m := by
        rw [h.current, Nat.mul_div_cancel _ (by decide)]
      rw [if_pos hmore, h.context, hclient.traverse hk]
      dsimp only
      by_cases hjump : phys k ≠ p.curBlockAddr + p.curBlockSize
      · -- The block is mapped, and the page starts the next one.
        obtain ⟨hmapped, hbytes⟩ := h.operateMap env hmk
          (fun i hi hi' => hsource i (by omega) (by omega)) (fun i hi hi' => (hclient i (by omega)).pos)
        rw [if_pos hjump, hpages]
        have hnext : Traversed phys first dst source bytes k (k + 1)
            ⟨p.server.operateMap env p.curMappedAddr (k - m) p.curBlockAddr,
              ⟨first + (k + 1), (first + (k + 1)) * PageSize⟩, p.curMappedAddr + p.curBlockSize, phys k, PageSize,
              p.totBlockSize + PageSize⟩ := by
          refine ⟨by omega, ?_, ?_, rfl, ?_, ?_, hmapped, hbytes⟩
          · show p.totBlockSize + PageSize = _
            rw [h.total, Nat.add_mul, Nat.one_mul]
          · show PageSize = _
            rw [Nat.add_sub_cancel_left, Nat.one_mul]
          · show p.curMappedAddr + p.curBlockSize = _
            rw [h.mappedAddr, h.current, ← Nat.add_mul]
            congr 1
            omega
          · intro i hi hi'
            obtain rfl : i = k := by omega
            rw [Nat.sub_self, Nat.zero_mul, Nat.add_zero]
        obtain ⟨m', h1, h2, h3, h4, h5⟩ := ih hnext (by omega) (by omega) (by omega)
        refine ⟨m', hmax ▸ h1, h2, fun _ => ?_, fun hle => by omega, h5⟩
        by_cases hlast : k + 1 < whole
        · exact h3 hlast
        · have := h4 (by omega)
          omega
      · rw [if_neg hjump]
        rw [not_not] at hjump
        have hnext : Traversed phys first dst source bytes m (k + 1)
            { p with
              context := ⟨first + (k + 1), (first + (k + 1)) * PageSize⟩
              curBlockSize := p.curBlockSize + PageSize
              totBlockSize := p.totBlockSize + PageSize } := by
          refine ⟨by omega, ?_, ?_, rfl, h.mappedAddr, ?_, h.mapped, h.bytes_eq⟩
          · show p.totBlockSize + PageSize = _
            rw [h.total, Nat.add_mul, Nat.one_mul]
          · show p.curBlockSize + PageSize = _
            rw [h.current, Nat.succ_sub hmk.le, Nat.succ_mul]
          · intro i hi hi'
            rcases Nat.lt_or_ge i k with hik | hik
            · exact h.block i hi hik
            · obtain rfl : i = k := by omega
              rw [hjump, h.current]
        obtain ⟨m', h1, h2, h3, h4, h5⟩ := ih hnext hstart (by omega) (by omega)
        refine ⟨m', hmax ▸ h1, h2, fun _ => ?_, fun hle => by omega, h5⟩
        by_cases hlast : k + 1 < whole
        · exact h3 hlast
        · have := h4 (by omega)
          omega
    · rw [if_neg hmore, Nat.max_eq_left (by omega)]
      exact ⟨m, h, hstart, fun hno => absurd hno hmore, fun _ => rfl, rfl⟩

/-- **The last block of whole pages** is mapped, and the traversal is at the end page, if there is one. -/
lemma mapLast_spec (env : IpcEnvironment) (hsource : ∀ i, start ≤ i → i < whole → source i = phys i)
    (h : Traversed phys first dst source bytes m k p) (hk : k = max (min (start + 1) pages) whole) (hstart : start ≤ m)
    (hwhole : min (start + 1) pages < whole → m < whole) (hsame : whole ≤ min (start + 1) pages → m = start) :
    (∀ i, i < max start whole → (mapLast env entries b p).server.entries (dst + i) = entryOf (dst + i) (source i)) ∧
    (mapLast env entries b p).server.memory.bytes = bytes ∧
    (mapLast env entries b p).server.ipcFillValue = p.server.ipcFillValue ∧
    (whole < pages → 0 < whole ∨ start = 0 → (mapLast env entries b p).curMappedAddr = (dst + whole) * PageSize ∧
      (mapLast env entries b p).curBlockAddr = phys whole) := by
  have hle := h.le
  have hpages := hext.pos
  have hwhole_le := hext.whole_le
  have hpages_le := hext.pages_le
  have hend : b.alignedSrcStart + p.totBlockSize - p.curBlockSize = (first + m) * PageSize := by
    rw [h.total, h.current, hext.alignedStart]
    simp only [PageSize]
    omega
  have hguard : (first + m) * PageSize < b.mappingSrcEnd ↔ m < whole := by
    rw [hext.mappingEnd]
    simp only [PageSize]
    omega
  rw [mapLast]
  simp only [hend, hguard]
  by_cases hmore : m < whole
  · rw [if_pos hmore]
    obtain rfl : k = whole := by omega
    have hsize : b.mappingSrcEnd - (first + m) * PageSize = (k - m) * PageSize := by
      rw [hext.mappingEnd, ← Nat.sub_mul]
      congr 1
      omega
    have hdiv : (k - m) * PageSize / PageSize = k - m := Nat.mul_div_cancel _ (by decide)
    have hnext : (first + m) * PageSize + (k - m) * PageSize < b.alignedSrcEnd ↔ k < pages := by
      rw [hext.alignedEnd, ← Nat.add_mul, Nat.mul_lt_mul_right (by decide)]
      omega
    obtain ⟨hmapped, hbytes⟩ := h.operateMap env hmore
      (fun i hi hi' => hsource i (by omega) (by omega)) (fun i hi hi' => (hclient i (by omega)).pos)
    have haddr : p.curMappedAddr + (k - m) * PageSize = (dst + k) * PageSize := by
      rw [h.mappedAddr, ← Nat.add_mul]
      congr 1
      omega
    rw [hsize, hdiv]
    simp only [h.current, hnext, and_true]
    by_cases hlast : k < pages
    · rw [if_pos hlast, h.context, hclient.traverse hlast]
      exact ⟨fun i hi => hmapped i (by omega), hbytes, rfl, fun _ _ => ⟨haddr, rfl⟩⟩
    · rw [if_neg hlast]
      exact ⟨fun i hi => hmapped i (by omega), hbytes, rfl, fun hno => absurd hno hlast⟩
  · rw [if_neg hmore]
    have hm : m = start := hsame (by omega)
    refine ⟨fun i hi => h.mapped i (by omega), h.bytes_eq, rfl, fun hlast hcase => ?_⟩
    obtain rfl : whole = m := by
      have := hext.start_le
      omega
    refine ⟨h.mappedAddr, ?_⟩
    rw [h.block whole le_rfl (by omega), Nat.sub_self, Nat.zero_mul, Nat.add_zero]

def serverPage (phys : ℕ → ℕ) (start whole startPage endPage : ℕ) (i : ℕ) : ℕ :=
  if i < start then startPage else if whole ≤ i then endPage else phys i

def bytesAfterEnd (b : IpcBuffer) (send : Bool) (s : IpcServer) (startPage endPage startPhys endPhys : ℕ) : PhysicalMemory :=
  if endPage = 0 then bytesAfterStart b send s startPage startPhys
  else endBytes b send (bytesAfterStart b send s startPage startPhys) s.ipcFillValue endPage endPhys

omit hext hclient in
lemma bytesAfterEnd_congr {s s' : IpcServer} (h : s.memory.bytes = s'.memory.bytes)
    (hfill : s.ipcFillValue = s'.ipcFillValue) {startPhys endPhys : ℕ} :
    (bytesAfterEnd b send s startPage endPage startPhys endPhys).bytes =
      (bytesAfterEnd b send s' startPage endPage startPhys endPhys).bytes := by
  have hstart : (bytesAfterStart b send s startPage startPhys).bytes =
      (bytesAfterStart b send s' startPage startPhys).bytes := by
    simp only [bytesAfterStart, startBytes]
    split_ifs <;> simp only [PhysicalMemory.fill, PhysicalMemory.copy, h, hfill]
  rw [bytesAfterEnd, bytesAfterEnd]
  split_ifs with hzero
  · exact hstart
  · rw [hfill]
    exact endBytes_congr hstart

lemma mapBuffer_spec (hstart : startPage = 0 ↔ start = 0)
    (hend : endPage = 0 ↔ ¬ (whole < pages ∧ (0 < whole ∨ start = 0))) (s : IpcServer) :
    (∀ i, i < pages → (mapBuffer env entries b send s (dst * PageSize) startPage endPage).entries (dst + i) =
      entryOf (dst + i) (serverPage phys start whole startPage endPage i)) ∧
    (mapBuffer env entries b send s (dst * PageSize) startPage endPage).memory.bytes =
      (bytesAfterEnd b send s startPage endPage (phys 0) (phys whole)).bytes := by
  have hstart_le := hext.start_le
  have hwhole_le := hext.whole_le
  have hpages_le := hext.pages_le
  generalize hserver : serverPage phys start whole startPage endPage = source
  have hfirst : start = 1 → source 0 = startPage := fun hone => by
    rw [← hserver, serverPage, if_pos (by omega)]
  have hwhole : ∀ i, start ≤ i → i < whole → source i = phys i := fun i hi hi' => by
    rw [← hserver, serverPage, if_neg (by omega), if_neg (by omega)]
  obtain ⟨hp, hpfill⟩ : Traversed phys first dst source _ start (min (start + 1) pages)
      (mapStart env entries b send startPage (begin entries b s (dst * PageSize))) ∧ _ :=
    mapStart_spec hext hclient hstart hfirst s
  have hfuel : (b.mappingSrcEnd - b.alignedSrcStart) / PageSize = whole := by
    rw [hext.mappingEnd, hext.alignedStart, ← Nat.sub_mul, Nat.mul_div_cancel _ (by decide), Nat.add_sub_cancel_left]
  rw [mapBuffer, hfuel]
  generalize mapStart env entries b send startPage (begin entries b s (dst * PageSize)) = p at hp hpfill
  obtain ⟨m, hq, hm, hmore, hsame, hqfill⟩ := mapLoop_spec hext hclient env hwhole whole hp le_rfl
    (fun hlt => by have := hext.pos; omega) (by omega)
  generalize mapLoop env entries b whole p = q at hq hqfill
  obtain ⟨hmapped, hbytes, hrfill, hlast⟩ := mapLast_spec hext hclient env hwhole hq rfl hm hmore hsame
  generalize mapLast env entries b q = r at hmapped hbytes hrfill hlast
  rw [mapEnd, bytesAfterEnd]
  by_cases hzero : endPage = 0
  · rw [if_pos hzero, if_pos hzero]
    refine ⟨fun i hi => hmapped i ?_, hbytes⟩
    have := hend.1 hzero
    omega
  · rw [if_neg hzero, if_neg hzero]
    have hneeds : whole < pages ∧ (0 < whole ∨ start = 0) := by
      by_contra hno
      exact hzero (hend.2 hno)
    obtain ⟨haddr, hblock⟩ := hlast hneeds.1 hneeds.2
    refine ⟨fun i hi => ?_, ?_⟩
    · show mapPages r.server.entries r.curMappedAddr 1 endPage (dst + i) = _
      rw [haddr]
      by_cases hi' : i < whole
      · rw [mapPages_outside (by omega)]
        exact hmapped i (by omega)
      · obtain rfl : i = whole := by omega
        have hmap : mapPages r.server.entries ((dst + i) * PageSize) 1 endPage (dst + i + 0) =
            entryOf (dst + i + 0) (endPage + 0 * PageSize) := mapPages_inside hzero (by omega)
        rw [Nat.zero_mul, Nat.add_zero, Nat.add_zero] at hmap
        rw [hmap, ← hserver, serverPage, if_neg (by omega), if_pos le_rfl]
    · rw [operateMap_bytes, hblock, hrfill, hqfill, hpfill]
      exact endBytes_congr hbytes

end Steps

/-! ## The partial pages -/

section Bytes

variable (hext : b.Extents first start whole pages) (memory : PhysicalMemory) (fillValue : BitVec 8)
include hext

/-- **The start page** holds the bytes of the buffer if they are sent, and the fill value. -/
lemma startBytes_spec (hstart : start = 1) (hpage : page % PageSize = 0) (hphys : physAddr % PageSize = 0)
    (hne : page ≠ physAddr) :
    (∀ offset, offset < PageSize → (startBytes b send memory fillValue page physAddr).bytes (page + offset) =
      if send = true ∧ b.Contains (first * PageSize + offset) then memory.bytes (physAddr + offset) else fillValue) ∧
    ∀ x, ¬ (page ≤ x ∧ x < page + PageSize) →
      (startBytes b send memory fillValue page physAddr).bytes x = memory.bytes x := by
  have hstartPage := hext.startPage.1 (by omega)
  have hhead := hext.head
  have halignedStart := hext.alignedStart
  have hmappingStart := hext.mappingStart
  subst hstart
  cases send with
  | false =>
    rw [startBytes, if_neg (by simp)]
    refine ⟨fun offset hoffset => ?_, fun x hx => ?_⟩
    · rw [PhysicalMemory.fill_bytes, if_pos (by omega), if_neg (by simp)]
    · rw [PhysicalMemory.fill_bytes, if_neg hx]
  | true =>
    rw [startBytes, if_pos rfl]
    -- The parts of the page: before the buffer, the buffer, and behind it.
    generalize hoff : b.address - b.alignedSrcStart = off
    generalize hcopy : (if b.address + b.size < b.mappingSrcStart then b.size else b.mappingSrcStart - b.address) =
      copySize
    generalize hclear : (if b.address + b.size < b.mappingSrcStart then b.mappingSrcStart - (b.address + b.size)
      else 0) = clearSize
    have hparts : off + copySize + clearSize = PageSize := by
      rw [← hoff, ← hcopy, ← hclear, halignedStart, hmappingStart]
      simp only [PageSize] at *
      split_ifs <;> omega
    have hcontains : ∀ offset, offset < PageSize →
        (b.Contains (first * PageSize + offset) ↔ off ≤ offset ∧ offset < off + copySize) := by
      intro offset hoffset
      rw [← hoff, ← hcopy, halignedStart, hmappingStart, IpcBuffer.Contains]
      simp only [PageSize] at *
      split_ifs <;> omega
    refine ⟨fun offset hoffset => ?_, fun x hx => ?_⟩
    · simp only [PhysicalMemory.fill_bytes, PhysicalMemory.copy_bytes, hcontains offset hoffset, true_and]
      by_cases hbehind : off + copySize ≤ offset
      · rw [if_pos (by omega), if_neg (by omega)]
      rw [if_neg (by omega)]
      by_cases hin : off ≤ offset
      · -- The bytes of the client are not in the page that is filled.
        have hsrc : physAddr + off + (page + offset - (page + off)) = physAddr + offset := by omega
        have hapart : ¬ (page ≤ physAddr + offset ∧ physAddr + offset < page + off) := by
          simp only [PageSize] at *
          omega
        rw [if_pos (by omega), hsrc, if_neg hapart, if_pos (by omega)]
      · rw [if_neg (by omega), if_pos (by omega), if_neg (by omega)]
    · simp only [PhysicalMemory.fill_bytes, PhysicalMemory.copy_bytes]
      rw [if_neg (by omega), if_neg (by omega), if_neg (by omega)]

lemma endBytes_spec (hcase : 0 < whole ∨ start = 0) :
    (∀ offset, offset < PageSize → (endBytes b send memory fillValue page physAddr).bytes (page + offset) =
      if send = true ∧ b.Contains ((first + whole) * PageSize + offset) then memory.bytes (physAddr + offset)
      else fillValue) ∧
    ∀ x, ¬ (page ≤ x ∧ x < page + PageSize) →
      (endBytes b send memory fillValue page physAddr).bytes x = memory.bytes x := by
  have hmappingEnd := hext.mappingEnd
  have htail := hext.tail
  have hstart := hext.address.2
  have hle := hext.start_le
  cases send with
  | false =>
    rw [endBytes, if_neg (by simp)]
    refine ⟨fun offset hoffset => ?_, fun x hx => ?_⟩
    · rw [PhysicalMemory.fill_bytes, if_pos (by omega), if_neg (by simp)]
    · rw [PhysicalMemory.fill_bytes, if_neg hx]
  | true =>
    rw [endBytes, if_pos rfl]
    generalize hcopy : b.address + b.size - b.mappingSrcEnd = copySize
    have hsize : copySize < PageSize := by
      rw [← hcopy, hmappingEnd]
      simp only [PageSize] at *
      omega
    have hcontains : ∀ offset, b.Contains ((first + whole) * PageSize + offset) ↔ offset < copySize := by
      intro offset
      rw [← hcopy, hmappingEnd, IpcBuffer.Contains]
      simp only [PageSize] at *
      omega
    refine ⟨fun offset hoffset => ?_, fun x hx => ?_⟩
    · simp only [PhysicalMemory.fill_bytes, PhysicalMemory.copy_bytes, hcontains offset, true_and]
      by_cases hin : offset < copySize
      · rw [if_neg (by omega), if_pos (by omega), if_pos hin]
        congr 1
        omega
      · rw [if_pos (by omega), if_neg hin]
    · simp only [PhysicalMemory.fill_bytes, PhysicalMemory.copy_bytes]
      rw [if_neg (by omega), if_neg (by omega)]

end Bytes

end Mapping

end MapProgress

end Voltemu.Kernel
