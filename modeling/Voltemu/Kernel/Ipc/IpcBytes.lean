import Voltemu.Kernel.Ipc.IpcMapping
import Voltemu.Kernel.Ipc.IpcFailure

/-!
# IPC buffers carry the bytes of the client

* `setupForIpcServer_ok`: what a successful `SetupForIpcServer` has mapped, and with which bytes.
* `copyMemoryFromUserToLinear_page`: a copy inside of a page.
* `processSendMessageReceiveMapping_ok`: the reply copies the partial pages back.
* **`ipc_buffer_carries_bytes`**: from the setup to the reply.
-/

namespace Voltemu.Kernel

open MapProgress Option Nat

/-! ## The setup -/

/-- The kernel finds areas of pages, and allocates pages that nothing refers to. -/
structure IpcEnvironment.Sound (env : IpcEnvironment) : Prop where
  area : ∀ m numPages, env.findFreeArea m numPages % PageSize = 0
  page : ∀ references, env.allocatePage references % PageSize = 0
  free : ∀ references, env.allocatePage references ≠ 0 → references (env.allocatePage references / PageSize) = 0

/-- The partial pages are none of the client's. -/
structure Fresh (phys : ℕ → ℕ) (pages startPage endPage : ℕ) : Prop where
  startAligned : startPage % PageSize = 0
  endAligned : endPage % PageSize = 0
  start_ne : startPage ≠ 0 → ∀ i, i < pages → startPage ≠ phys i
  end_ne : endPage ≠ 0 → ∀ i, i < pages → endPage ≠ phys i
  ne : startPage ≠ 0 → endPage ≠ startPage

lemma closePartial_entries (s : IpcServer) (page : ℕ) : (s.closePartial page).entries = s.entries := by
  rw [IpcServer.closePartial]
  split_ifs <;> rfl

lemma closePartial_bytes (s : IpcServer) (page : ℕ) : (s.closePartial page).memory.bytes = s.memory.bytes := by
  rw [IpcServer.closePartial]
  split_ifs <;> rfl

lemma reserve_memory {s s' : IpcServer} {value : ℕ} (h : s.reserve value = some s') :
    s'.memory = s.memory ∧ s'.ipcFillValue = s.ipcFillValue := by
  rw [IpcServer.reserve] at h
  split_ifs at h <;> obtain rfl := Option.some.inj h <;> exact ⟨rfl, rfl⟩

/-- **The outcome of an allocation** that may not be needed. -/
structure Allocated (s : IpcServer) (needs : Prop) (out : IpcServer × ℕ) : Prop where
  aligned : out.2 % PageSize = 0
  needed : out.2 ≠ 0 → needs
  free : out.2 ≠ 0 → s.memory.references (out.2 / PageSize) = 0
  opened : out.2 ≠ 0 → out.1.memory.references (out.2 / PageSize) ≠ 0
  used : ∀ page, s.memory.references page ≠ 0 → out.1.memory.references page ≠ 0
  bytes : out.1.memory.bytes = s.memory.bytes
  fillValue : out.1.ipcFillValue = s.ipcFillValue

lemma allocateAndOpen_spec {env : IpcEnvironment} (henv : env.Sound) (s : IpcServer) (needs : Prop) [Decidable needs] :
    Allocated s needs (if needs then s.allocateAndOpen env else (s, 0)) := by
  by_cases hneeds : needs
  · rw [if_pos hneeds]
    have hfree := henv.free s.memory.references
    have haligned := henv.page s.memory.references
    simp only [IpcServer.allocateAndOpen]
    split_ifs with hpage
    · exact ⟨rfl, fun h => absurd rfl h, fun h => absurd rfl h, fun h => absurd rfl h, fun _ h => h, rfl, rfl⟩
    · refine ⟨haligned, fun _ => hneeds, hfree, fun _ => ?_, fun page h => ?_, rfl, rfl⟩
      · simp only [PhysicalMemory.openPages]
        rw [if_pos ⟨le_rfl, by omega⟩]
        omega
      · simp only [PhysicalMemory.openPages]
        split_ifs <;> omega
  · rw [if_neg hneeds]
    exact ⟨rfl, fun h => absurd rfl h, fun h => absurd rfl h, fun h => absurd rfl h, fun _ h => h, rfl, rfl⟩

variable {page dst size srcAddr : ℕ}

lemma ne_of_references {references : ℕ → ℕ} {page' : ℕ} (h : references (page / PageSize) = 0)
    (h' : references (page' / PageSize) ≠ 0) : page ≠ page' := by
  rintro rfl
  exact h' h

section Setup

variable {env : IpcEnvironment} {entries : PageEntries} {b : IpcBuffer} {send : Bool} {first start whole pages : ℕ}
variable {phys : ℕ → ℕ} {s s' : IpcServer} {address : ℕ}

lemma setupForIpcServer_ok (henv : env.Sound) (hext : b.Extents first start whole pages)
    (hclient : ClientPages entries first pages phys)
    (hused : ∀ i, i < pages → s.memory.references (phys i / PageSize) ≠ 0)
    (h : s.setupForIpcServer env entries b send = some (s', .ok address)) :
    ∃ dst startPage endPage, address = dst * PageSize + (b.address - first * PageSize) ∧
      (startPage = 0 ↔ start = 0) ∧ (endPage = 0 ↔ ¬ (whole < pages ∧ (0 < whole ∨ start = 0))) ∧
      Fresh phys pages startPage endPage ∧
      (startPage ≠ 0 → s.memory.references (startPage / PageSize) = 0) ∧
      (endPage ≠ 0 → s.memory.references (endPage / PageSize) = 0) ∧
      (∀ i, i < pages → s'.entries (dst + i) = entryOf (dst + i) (serverPage phys start whole startPage endPage i)) ∧
      s'.memory.bytes = (bytesAfterEnd b send s startPage endPage (phys 0) (phys whole)).bytes := by
  have hneedsStart : b.alignedSrcStart < b.mappingSrcStart ↔ start ≠ 0 := by
    rw [hext.alignedStart, hext.mappingStart]
    simp only [PageSize]
    omega
  have hneedsEnd : (b.mappingSrcEnd < b.alignedSrcEnd ∧
      (b.alignedSrcStart < b.mappingSrcEnd ∨ b.alignedSrcStart = b.mappingSrcStart)) ↔
        whole < pages ∧ (0 < whole ∨ start = 0) := by
    rw [hext.mappingEnd, hext.alignedEnd, hext.alignedStart, hext.mappingStart]
    simp only [PageSize]
    omega
  unfold IpcServer.setupForIpcServer at h
  by_cases hregion : ¬ b.size < s.aliasRegionEnd - s.aliasRegionStart
  · rw [if_pos hregion] at h
    cases h
  rw [if_neg hregion] at h
  dsimp only at h
  have harea := henv.area s.manager ((b.alignedSrcEnd - b.alignedSrcStart) / PageSize)
  generalize env.findFreeArea s.manager ((b.alignedSrcEnd - b.alignedSrcStart) / PageSize) = area at h harea
  obtain ⟨dst, rfl⟩ : ∃ dst, area = dst * PageSize := ⟨area / PageSize, by simp only [PageSize] at *; omega⟩
  by_cases hfree : dst * PageSize = 0
  · rw [if_pos hfree] at h
    cases h
  rw [if_neg hfree] at h
  by_cases hblocks : s.freeBlocks < 2
  · rw [if_pos hblocks] at h
    cases h
  rw [if_neg hblocks] at h
  generalize (b.alignedSrcEnd - b.alignedSrcStart -
    if b.mappingSrcStart < b.mappingSrcEnd then b.mappingSrcEnd - b.mappingSrcStart else 0) = value at h
  cases hreserve : s.reserve value with
  | none =>
    rw [hreserve] at h
    cases h
  | some s1 =>
    rw [hreserve] at h
    obtain ⟨hmemory, hfill⟩ := reserve_memory hreserve
    simp only [hneedsStart, hneedsEnd, decide_eq_true_eq] at h
    -- The start page.
    have hout1 := allocateAndOpen_spec henv s1 (start ≠ 0)
    generalize hone : (if start ≠ 0 then s1.allocateAndOpen env else (s1, 0)) = out1 at h hout1
    by_cases hnostart : start ≠ 0 ∧ out1.2 = 0
    · rw [if_pos hnostart] at h
      cases h
    rw [if_neg hnostart] at h
    -- The end page.
    have hout2 := allocateAndOpen_spec henv out1.1 (whole < pages ∧ (0 < whole ∨ start = 0))
    generalize htwo : (if whole < pages ∧ (0 < whole ∨ start = 0) then out1.1.allocateAndOpen env
      else (out1.1, 0)) = out2 at h hout2
    by_cases hnoend : (whole < pages ∧ (0 < whole ∨ start = 0)) ∧ out2.2 = 0
    · rw [if_pos hnoend] at h
      cases h
    rw [if_neg hnoend] at h
    obtain ⟨m, -, hm⟩ := map_eq_some_iff.1 h
    obtain ⟨rfl, haddress⟩ := Prod.mk.inj hm
    have hstartPage : out1.2 = 0 ↔ start = 0 := by
      refine ⟨fun hzero => by_contra fun hne => hnostart ⟨hne, hzero⟩, fun hzero => ?_⟩
      by_contra hne
      exact hout1.needed hne hzero
    have hendPage : out2.2 = 0 ↔ ¬ (whole < pages ∧ (0 < whole ∨ start = 0)) :=
      ⟨fun hzero hneeds => hnoend ⟨hneeds, hzero⟩, fun hno => by_contra fun hne => hno (hout2.needed hne)⟩
    obtain ⟨hentries, hbytes⟩ : (∀ i, i < pages →
        (mapBuffer env entries b send out2.1 (dst * PageSize) out1.2 out2.2).entries (dst + i) = _) ∧ _ :=
      mapBuffer_spec hext hclient hstartPage hendPage out2.1
    have hused1 : ∀ i, i < pages → out1.1.memory.references (phys i / PageSize) ≠ 0 := fun i hi =>
      hout1.used _ (by rw [hmemory]; exact hused i hi)
    refine ⟨dst, out1.2, out2.2, ?_, hstartPage, hendPage, ?_, ?_, ?_, ?_, ?_⟩
    · have haddr := Except.ok.inj haddress
      rw [← haddr, hext.alignedStart]
    · refine ⟨hout1.aligned, hout2.aligned, fun hne i hi => ?_, fun hne i hi => ?_, fun hne heq => ?_⟩
      · exact ne_of_references (hout1.free hne) (by rw [hmemory]; exact hused i hi)
      · exact ne_of_references (hout2.free hne) (hused1 i hi)
      · exact ne_of_references (hout2.free (heq ▸ hne)) (hout1.opened hne) heq
    · intro hne
      rw [← hmemory]
      exact hout1.free hne
    · intro hne
      rw [← hmemory]
      by_contra hsome
      exact hout1.used _ hsome (hout2.free hne)
    · intro i hi
      rw [closePartial_entries, closePartial_entries]
      exact hentries i hi
    · rw [closePartial_bytes, closePartial_bytes]
      refine hbytes.trans (bytesAfterEnd_congr ?_ ?_)
      · rw [hout2.bytes, hout1.bytes, hmemory]
      · rw [hout2.fillValue, hout1.fillValue, hfill]

/-- An address is in a partial page, if there is one. -/
def InPartial (page x : ℕ) : Prop := page ≠ 0 ∧ page ≤ x ∧ x < page + PageSize

/-- Different pages have different addresses. -/
lemma not_inPartial {page page' offset : ℕ} (hpage : page % PageSize = 0) (hpage' : page' % PageSize = 0)
    (hne : page ≠ 0 → page ≠ page') (hoffset : offset < PageSize) : ¬ InPartial page (page' + offset) := by
  rintro ⟨hzero, hle, hlt⟩
  simp only [PageSize] at *
  omega

variable {endPage startPage : ℕ}

lemma bytesAfterStart_frame (hext : b.Extents first start whole pages) (hclient : ClientPages entries first pages phys)
    (hfresh : Fresh phys pages startPage endPage) (hstart : startPage = 0 ↔ start = 0) {x : ℕ}
    (hx : ¬ InPartial startPage x) : (bytesAfterStart b send s startPage (phys 0)).bytes x = s.memory.bytes x := by
  rw [bytesAfterStart]
  by_cases hzero : startPage = 0
  · rw [if_pos hzero]
  · rw [if_neg hzero]
    have hone : start = 1 := by
      have := hext.start_le
      omega
    exact (startBytes_spec hext s.memory s.ipcFillValue hone hfresh.startAligned (hclient 0 hext.pos).aligned
      (hfresh.start_ne hzero 0 hext.pos)).2 x fun hin => hx ⟨hzero, hin⟩

/-- **The bytes after the setup.**  The partial pages hold the bytes of the buffer if they are sent, and the fill value;
no other byte has changed. -/
lemma bytesAfterEnd_spec (send : Bool) (s : IpcServer) (hext : b.Extents first start whole pages)
    (hclient : ClientPages entries first pages phys)
    (hfresh : Fresh phys pages startPage endPage) (hstart : startPage = 0 ↔ start = 0)
    (hend : endPage = 0 ↔ ¬ (whole < pages ∧ (0 < whole ∨ start = 0))) :
    (∀ i, i < pages → ¬ (start ≤ i ∧ i < whole) → ∀ offset, offset < PageSize →
      (bytesAfterEnd b send s startPage endPage (phys 0) (phys whole)).bytes
          (serverPage phys start whole startPage endPage i + offset) =
        if send = true ∧ b.Contains ((first + i) * PageSize + offset) then s.memory.bytes (phys i + offset)
        else s.ipcFillValue) ∧
    ∀ x, ¬ InPartial startPage x → ¬ InPartial endPage x →
      (bytesAfterEnd b send s startPage endPage (phys 0) (phys whole)).bytes x = s.memory.bytes x := by
  have hstart_le := hext.start_le
  have hpages_le := hext.pages_le
  have hframe : ∀ {x}, ¬ InPartial startPage x →
      (bytesAfterStart b send s startPage (phys 0)).bytes x = s.memory.bytes x :=
    bytesAfterStart_frame hext hclient hfresh hstart
  -- The end page does not change what the start page has.
  have hlast : ∀ {x}, ¬ InPartial endPage x →
      (bytesAfterEnd b send s startPage endPage (phys 0) (phys whole)).bytes x =
        (bytesAfterStart b send s startPage (phys 0)).bytes x := by
    intro x hx
    rw [bytesAfterEnd]
    by_cases hzero : endPage = 0
    · rw [if_pos hzero]
    · rw [if_neg hzero]
      have hneeds := not_not.1 (mt hend.2 hzero)
      exact (endBytes_spec hext _ s.ipcFillValue hneeds.2).2 x fun hin => hx ⟨hzero, hin⟩
  refine ⟨fun i hi hpartly offset hoffset => ?_, fun x hx hx' => (hlast hx').trans (hframe hx)⟩
  rw [serverPage]
  by_cases hfirst : i < start
  · obtain rfl : i = 0 := by omega
    have hone : start = 1 := by omega
    have hzero : startPage ≠ 0 := fun h => by
      omega
    rw [if_pos hfirst, hlast (not_inPartial hfresh.endAligned hfresh.startAligned (fun _ => hfresh.ne hzero) hoffset),
      bytesAfterStart, if_neg hzero]
    exact (startBytes_spec hext s.memory s.ipcFillValue hone hfresh.startAligned (hclient 0 hext.pos).aligned
      (hfresh.start_ne hzero 0 hext.pos)).1 offset hoffset
  · obtain rfl : i = whole := by omega
    have hneeds : i < pages ∧ (0 < i ∨ start = 0) := by omega
    have hzero : endPage ≠ 0 := fun h => hend.1 h hneeds
    rw [if_neg hfirst, if_pos le_rfl, bytesAfterEnd, if_neg hzero,
      (endBytes_spec hext _ s.ipcFillValue hneeds.2).1 offset hoffset]
    rw [hframe (not_inPartial hfresh.startAligned (hclient i hi).aligned (fun h => hfresh.start_ne h i hi) hoffset)]

end Setup

/-! ## The reply -/

/-- A range of physical memory after the bytes of the server from `srcAddr` on were copied to it. -/
def Copied (current : CurrentMemory) (memory memory' : PhysicalMemory) (srcAddr dst size : ℕ) : Prop :=
  ∀ x, memory'.bytes x =
    if dst ≤ x ∧ x < dst + size then (current.entries.read memory (srcAddr + (x - dst))).getD 0 else memory.bytes x

/-- The server does not see the range that is written. -/
def Apart (current : CurrentMemory) (srcAddr dst size : ℕ) : Prop :=
  ∀ j, j < size → ∀ page, (current.entries ((srcAddr + j) / PageSize)).ptr = some page →
    ¬ (dst ≤ page + (srcAddr + j) % PageSize ∧ page + (srcAddr + j) % PageSize < dst + size)

variable {current : CurrentMemory} {memory memory' : PhysicalMemory}

lemma readBlock_true (h : (current.readBlock memory srcAddr dst size).2 = true) :
    Copied current memory (current.readBlock memory srcAddr dst size).1 srcAddr dst size := by
  rw [CurrentMemory.readBlock] at h ⊢
  by_cases hspace : current.addressSpaceContains srcAddr size = true
  · rw [if_pos hspace]
    exact fun x => rfl
  · rw [if_neg hspace] at h
    cases h

variable {entries : PageEntries}

lemma read_congr {address : ℕ}
    (h : ∀ page, (entries (address / PageSize)).ptr = some page →
      memory'.bytes (page + address % PageSize) = memory.bytes (page + address % PageSize)) :
    entries.read memory' address = entries.read memory address := by
  rw [PageEntries.read, PageEntries.read]
  cases hptr : (entries (address / PageSize)).ptr with
  | none => rfl
  | some page =>
    rw [map_some, map_some, h page hptr]

/-- **One copy after the other**: the second reads what the first did not write. -/
lemma Copied.append {memory1 memory2 : PhysicalMemory} {size' : ℕ}
    (hapart : Apart current srcAddr dst (size + size')) (h₁ : Copied current memory memory1 srcAddr dst size)
    (h₂ : Copied current memory1 memory2 (srcAddr + size) (dst + size) size') :
    Copied current memory memory2 srcAddr dst (size + size') := by
  intro x
  rw [h₂ x]
  by_cases hsecond : dst + size ≤ x ∧ x < dst + size + size'
  · rw [if_pos hsecond, if_pos (by omega)]
    have haddr : srcAddr + size + (x - (dst + size)) = srcAddr + (x - dst) := by omega
    rw [haddr]
    refine congrArg (·.getD 0) (read_congr fun page hpage => ?_)
    rw [h₁, if_neg]
    have := hapart (x - dst) (by omega) page hpage
    omega
  · rw [if_neg hsecond, h₁ x]
    by_cases hfirst : dst ≤ x ∧ x < dst + size
    · rw [if_pos hfirst, if_pos (by omega)]
    · rw [if_neg hfirst, if_neg (by omega)]

namespace CopyProgress

variable {isLinear : ℕ → Bool}
variable {p : CopyProgress}

lemma copyAligned_true (h : (copyAligned current p).2 = true) :
    ∃ size, size ≤ p.curSize ∧ (copyAligned current p).1.srcAddr = p.srcAddr + size ∧
      (copyAligned current p).1.curAddr = p.curAddr + size ∧ (copyAligned current p).1.curSize = p.curSize - size ∧
      Copied current p.memory (copyAligned current p).1.memory p.srcAddr p.curAddr size := by
  rw [copyAligned] at h ⊢
  by_cases hfour : 4 ≤ p.curSize
  · rw [if_pos hfour] at h ⊢
    dsimp only at h ⊢
    by_cases hok : (current.readBlock p.memory p.srcAddr p.curAddr (p.curSize - p.curSize % 4)).2 = true
    · rw [if_pos hok]
      exact ⟨p.curSize - p.curSize % 4, sub_le _ _, rfl, rfl, rfl, readBlock_true hok⟩
    · rw [if_neg hok] at h
      cases h
  · rw [if_neg hfour]
    refine ⟨0, zero_le _, rfl, rfl, rfl, fun x => ?_⟩
    rw [if_neg (by omega)]

lemma copyRemaining_true (h : (copyRemaining current p).2 = true) :
    Copied current p.memory (copyRemaining current p).1.memory p.srcAddr p.curAddr p.curSize := by
  rw [copyRemaining] at h ⊢
  by_cases hsome : 0 < p.curSize
  · rw [if_pos hsome] at h ⊢
    exact readBlock_true h
  · rw [if_neg hsome]
    intro x
    rw [if_neg (by omega)]

lemma performCopy_true (hapart : Apart current p.srcAddr p.curAddr p.curSize)
    (h : (performCopy isLinear current p).2 = true) :
    Copied current p.memory (performCopy isLinear current p).1.memory p.srcAddr p.curAddr p.curSize := by
  rw [performCopy] at h ⊢
  by_cases hlinear : isLinear p.curAddr = false
  · rw [if_pos hlinear] at h
    cases h
  rw [if_neg hlinear] at h ⊢
  dsimp only at h ⊢
  by_cases hok : (copyAligned current p).2 = true
  · rw [if_pos hok] at h ⊢
    obtain ⟨size, hle, hsrc, hcur, hsize, hcopied⟩ := copyAligned_true hok
    have hremaining := copyRemaining_true h
    rw [hsrc, hcur, hsize] at hremaining
    have hsum : size + (p.curSize - size) = p.curSize := by omega
    rw [← hsum] at hapart ⊢
    exact hcopied.append hapart hremaining
  · rw [if_neg hok] at h
    cases h

lemma copyRange_page {page phys offset size srcAddr : ℕ} (hpage : ClientPage entries page phys)
    (hsize : offset + size ≤ PageSize) (hpos : 0 < size) (hapart : Apart current srcAddr (phys + offset) size)
    (h : (copyRange isLinear current entries memory (page * PageSize + offset) size srcAddr).2 = true) :
    Copied current memory (copyRange isLinear current entries memory (page * PageSize + offset) size srcAddr).1
      srcAddr (phys + offset) size := by
  have hoffset : offset < PageSize := by omega
  have halign := hpage.aligned
  have hmod : (phys + offset) % PageSize = offset := by
    simp only [PageSize] at *
    omega
  have hdiv : (page * PageSize + offset) / PageSize = page := by
    simp only [PageSize] at *
    omega
  have hbegin : begin entries memory (page * PageSize + offset) srcAddr =
      ⟨memory, ⟨page + 1, page * PageSize + offset + PageSize⟩, srcAddr, phys + offset, PageSize - offset,
        PageSize - offset⟩ := by
    rw [begin, beginTraversal, hdiv, hpage.traverse hoffset]
    dsimp only
    rw [hmod]
  -- The page is not left.
  have hloop : ∀ fuel, copyLoop isLinear current entries size fuel
      (begin entries memory (page * PageSize + offset) srcAddr) =
        (begin entries memory (page * PageSize + offset) srcAddr, true) := by
    intro fuel
    cases fuel with
    | zero => rfl
    | succ fuel =>
      rw [copyLoop, hbegin]
      dsimp only
      rw [if_neg (by omega)]
  rw [copyRange, hloop] at h ⊢
  rw [hbegin] at h ⊢
  simp only [if_true] at h ⊢
  have hcut : (if size < PageSize - offset then
      (⟨memory, ⟨page + 1, page * PageSize + offset + PageSize⟩, srcAddr, phys + offset,
        PageSize - offset - (PageSize - offset - size), PageSize - offset⟩ : CopyProgress)
      else ⟨memory, ⟨page + 1, page * PageSize + offset + PageSize⟩, srcAddr, phys + offset, PageSize - offset,
        PageSize - offset⟩) =
      ⟨memory, ⟨page + 1, page * PageSize + offset + PageSize⟩, srcAddr, phys + offset, size, PageSize - offset⟩ := by
    have hless : PageSize - offset - (PageSize - offset - size) = size := by omega
    split_ifs with hlt
    · rw [hless]
    · have heq : size = PageSize - offset := by omega
      rw [heq]
  rw [hcut] at h ⊢
  exact performCopy_true hapart h

end CopyProgress

lemma copyMemoryFromUserToLinear_page {t : KPageTable} {isLinear : ℕ → Bool}
    {test : KMemoryState × KMemoryAttribute}
    {phys offset : ℕ} (hpage : ClientPage entries page phys) (hsize : offset + size ≤ PageSize)
    (hpos : 0 < size) (hapart : Apart current srcAddr (phys + offset) size)
    (h : t.copyMemoryFromUserToLinear isLinear current entries memory (page * PageSize + offset) size test srcAddr =
      some (memory', .ok ())) : Copied current memory memory' srcAddr (phys + offset) size := by
  unfold KPageTable.copyMemoryFromUserToLinear at h
  by_cases hcontains : t.contains (page * PageSize + offset) size = false
  · rw [if_pos hcontains] at h
    cases h
  rw [if_neg hcontains] at h
  obtain ⟨checked, -, hcopy⟩ := map_eq_some_iff.1 h
  cases checked with
  | false => cases hcopy
  | true =>
    have hpaged : (CopyProgress.copyRange isLinear current entries memory (page * PageSize + offset) size srcAddr).2 =
        true → _ := CopyProgress.copyRange_page hpage hsize hpos hapart
    rw [if_pos rfl] at hcopy
    generalize CopyProgress.copyRange isLinear current entries memory (page * PageSize + offset) size srcAddr = out
      at hcopy hpaged
    obtain ⟨rfl, hok⟩ := Prod.mk.inj hcopy
    refine hpaged ?_
    by_contra hfailed
    rw [if_neg hfailed] at hok
    cases hok

section Reply

variable {t : KPageTable} {isLinear : ℕ → Bool}
variable {b : IpcBuffer} {first start whole pages startPage endPage : ℕ}
variable {phys : ℕ → ℕ}

/-- The server sees its pages of the buffer. -/
def Sees (current : CurrentMemory) (dst pages : ℕ) (source : ℕ → ℕ) : Prop :=
  ∀ i, i < pages → (current.entries (dst + i)).ptr = some (source i)

variable {source : ℕ → ℕ} {i offset : ℕ}

lemma Sees.read (h : Sees current dst pages source) (memory : PhysicalMemory)
    (hi : i < pages) (hoffset : offset < PageSize) :
    current.entries.read memory ((dst + i) * PageSize + offset) = some (memory.bytes (source i + offset)) := by
  have hdiv : ((dst + i) * PageSize + offset) / PageSize = dst + i := by
    simp only [PageSize] at *
    omega
  have hmod : ((dst + i) * PageSize + offset) % PageSize = offset := by
    simp only [PageSize] at *
    omega
  rw [PageEntries.read, hdiv, hmod, h i hi, map_some]

lemma Sees.apart (h : Sees current dst pages source) {size physAddr : ℕ} (hi : i < pages)
    (hsize : offset + size ≤ PageSize) (hsource : source i % PageSize = 0) (hphys : physAddr % PageSize = 0)
    (hne : source i ≠ physAddr) : Apart current ((dst + i) * PageSize + offset) (physAddr + offset) size := by
  intro j hj page hpage
  have hdiv : ((dst + i) * PageSize + offset + j) / PageSize = dst + i := by
    simp only [PageSize] at *
    omega
  have hmod : ((dst + i) * PageSize + offset + j) % PageSize = offset + j := by
    simp only [PageSize] at *
    omega
  rw [hdiv, h i hi] at hpage
  obtain rfl := Option.some.inj hpage
  rw [hmod]
  simp only [PageSize] at *
  omega

/-- The bytes of the start page and of the end page that belong to the buffer. -/
def headSize (b : IpcBuffer) : ℕ := min b.size (b.mappingSrcStart - b.address)

def tailSize (b : IpcBuffer) : ℕ := b.address + b.size - b.mappingSrcEnd

section

variable (hext : b.Extents first start whole pages)
include hext

lemma contains_head (hone : start = 1) {offset : ℕ}
    (hoffset : offset < PageSize) : b.Contains (first * PageSize + offset) ↔
      b.address - first * PageSize ≤ offset ∧ offset < b.address - first * PageSize + headSize b := by
  have haddress := hext.address
  rw [headSize, hext.mappingStart, hone, IpcBuffer.Contains]
  simp only [PageSize] at *
  omega

lemma contains_tail (hcase : 0 < whole ∨ start = 0) {offset : ℕ} :
    b.Contains ((first + whole) * PageSize + offset) ↔ offset < tailSize b := by
  have haddress := hext.address
  have hle := hext.start_le
  rw [tailSize, hext.mappingEnd, IpcBuffer.Contains]
  simp only [PageSize] at *
  omega

lemma head_fits (hone : start = 1) : b.address - first * PageSize + headSize b ≤ PageSize := by
  have haddress := hext.address
  rw [headSize, hext.mappingStart, hone]
  simp only [PageSize] at *
  omega

lemma tail_fits : tailSize b < PageSize := by
  have htail := hext.tail
  rw [tailSize, hext.mappingEnd]
  simp only [PageSize] at *
  omega

end

lemma processSendMessageReceiveMapping_ok (hsize : 0 < b.size) (hext : b.Extents first start whole pages)
    (hclient : ClientPages entries first pages phys) (hfresh : Fresh phys pages startPage endPage)
    (hstart : startPage = 0 ↔ start = 0) (hend : endPage = 0 ↔ ¬ (whole < pages ∧ (0 < whole ∨ start = 0)))
    (hsees : Sees current dst pages (serverPage phys start whole startPage endPage))
    (h : processSendMessageReceiveMapping t isLinear current entries memory b
      (dst * PageSize + (b.address - first * PageSize)) = some (memory', .ok ())) :
    ∃ memory1, (startPage = 0 → memory1 = memory) ∧
      (startPage ≠ 0 → Copied current memory memory1 (dst * PageSize + (b.address - first * PageSize))
        (phys 0 + (b.address - first * PageSize)) (headSize b)) ∧
      (endPage = 0 → memory' = memory1) ∧
      (endPage ≠ 0 → Copied current memory1 memory' ((dst + whole) * PageSize) (phys whole) (tailSize b)) := by
  have hstart_le := hext.start_le
  have hhead := hext.head
  have haddress := hext.address
  have htail := hext.tail
  unfold processSendMessageReceiveMapping at h
  rw [if_neg hsize.ne'] at h
  cases htest : testStateOf b.dstState with
  | none =>
    rw [htest] at h
    cases h
  | some test =>
    rw [htest] at h
    obtain ⟨⟨memory1, r⟩, hfirst, hrest⟩ := bind_eq_some_iff.1 h
    cases r with
    | error e => cases hrest
    | ok u =>
      refine ⟨memory1, ?_, ?_, ?_, ?_⟩
      · intro hzero
        have hnone : ¬ b.alignedSrcStart ≠ b.mappingSrcStart := by
          rw [hext.alignedStart, hext.mappingStart, hstart.1 hzero]
          exact fun hne => hne rfl
        rw [processStart, if_neg hnone] at hfirst
        exact (congrArg Prod.fst (Option.some.inj hfirst)).symm
      · intro hzero
        have hone : start = 1 := by
          omega
        have hsome : b.alignedSrcStart ≠ b.mappingSrcStart := by
          rw [hext.alignedStart, hext.mappingStart, hone]
          simp only [PageSize]
          omega
        have hsource : serverPage phys start whole startPage endPage 0 = startPage := by
          rw [serverPage, if_pos (by omega)]
        -- The bytes of the buffer in the start page.
        obtain ⟨offset, hoffset⟩ : ∃ offset, b.address = first * PageSize + offset :=
          ⟨b.address - first * PageSize, by omega⟩
        have hsub : b.address - first * PageSize = offset := by omega
        have hfits : offset + headSize b ≤ PageSize := by
          rw [← hsub]
          exact head_fits hext hone
        have hpos : 0 < headSize b := by
          rw [headSize, hext.mappingStart, hone]
          omega
        have hapart := hsees.apart hext.pos hfits (by rw [hsource]; exact hfresh.startAligned)
          (hclient 0 hext.pos).aligned (by rw [hsource]; exact hfresh.start_ne hzero 0 hext.pos)
        rw [processStart, if_pos hsome] at hfirst
        rw [hsub] at hfirst ⊢
        rw [show min b.size (b.mappingSrcStart - b.address) = headSize b from rfl, hoffset] at hfirst
        exact copyMemoryFromUserToLinear_page (hclient 0 hext.pos) hfits hpos hapart hfirst
      · intro hzero
        have hnone : ¬ (b.mappingSrcEnd < b.alignedSrcEnd ∧
            (b.alignedSrcStart = b.mappingSrcStart ∨ b.alignedSrcStart < b.mappingSrcEnd)) := by
          rw [hext.mappingEnd, hext.alignedEnd, hext.alignedStart, hext.mappingStart]
          simp only [PageSize]
          omega
        dsimp only at hrest
        rw [processEnd, if_neg hnone] at hrest
        exact (congrArg Prod.fst (Option.some.inj hrest)).symm
      · intro hzero
        have hneeds := not_not.1 (mt hend.2 hzero)
        have hsome : b.mappingSrcEnd < b.alignedSrcEnd ∧
            (b.alignedSrcStart = b.mappingSrcStart ∨ b.alignedSrcStart < b.mappingSrcEnd) := by
          rw [hext.mappingEnd, hext.alignedEnd, hext.alignedStart, hext.mappingStart]
          simp only [PageSize]
          omega
        have hsource : serverPage phys start whole startPage endPage whole = endPage := by
          rw [serverPage, if_neg (by omega), if_pos le_rfl]
        have hdown : alignDown (dst * PageSize + (b.address - first * PageSize) + b.size) = (dst + whole) * PageSize := by
          simp only [alignDown, PageSize] at *
          omega
        have hfits : 0 + tailSize b ≤ PageSize := by
          have := tail_fits hext
          omega
        have hpos : 0 < tailSize b := by
          have := hext.endPage.1 hneeds.1
          rw [tailSize, hext.mappingEnd]
          omega
        have hapart := hsees.apart hneeds.1 hfits (by rw [hsource]; exact hfresh.endAligned)
          (hclient whole hneeds.1).aligned (by rw [hsource]; exact hfresh.end_ne hzero whole hneeds.1)
        dsimp only at hrest
        rw [processEnd, if_pos hsome, hdown, show b.address + b.size - b.mappingSrcEnd = tailSize b from rfl,
          hext.mappingEnd, ← add_zero ((first + whole) * PageSize), ← add_zero ((dst + whole) * PageSize)]
          at hrest
        have hcopied := copyMemoryFromUserToLinear_page (hclient whole hneeds.1) hfits hpos hapart hrest
        rwa [add_zero, add_zero] at hcopied

/-- A byte of a partial page that belongs to the buffer. -/
def InReply (b : IpcBuffer) (first start whole pages : ℕ) (phys : ℕ → ℕ) (x : ℕ) : Prop :=
  ∃ i offset, i < pages ∧ ¬ (start ≤ i ∧ i < whole) ∧ offset < PageSize ∧
    b.Contains ((first + i) * PageSize + offset) ∧ x = phys i + offset

/-- **The bytes after the reply.**  Only bytes of partial pages that belong to the buffer have changed, and a byte that
the buffer has once is the one that the server sees. -/
lemma reply_bytes (hsize : 0 < b.size) (hext : b.Extents first start whole pages)
    (hclient : ClientPages entries first pages phys) (hfresh : Fresh phys pages startPage endPage)
    (hstart : startPage = 0 ↔ start = 0) (hend : endPage = 0 ↔ ¬ (whole < pages ∧ (0 < whole ∨ start = 0)))
    (hsees : Sees current dst pages (serverPage phys start whole startPage endPage))
    (h : processSendMessageReceiveMapping t isLinear current entries memory b
      (dst * PageSize + (b.address - first * PageSize)) = some (memory', .ok ())) :
    (∀ x, ¬ InReply b first start whole pages phys x → memory'.bytes x = memory.bytes x) ∧
    ∀ i offset, i < pages → offset < PageSize → b.Contains ((first + i) * PageSize + offset) →
      (∀ j offset', j < pages → offset' < PageSize → b.Contains ((first + j) * PageSize + offset') →
        phys j + offset' = phys i + offset → j = i) →
      memory'.bytes (phys i + offset) = memory'.bytes (serverPage phys start whole startPage endPage i + offset) := by
  obtain ⟨memory1, hnostart, hhead, hnoend, htail⟩ :=
    processSendMessageReceiveMapping_ok hsize hext hclient hfresh hstart hend hsees h
  have hstart_le := hext.start_le
  have hpages_le := hext.pages_le
  have hone : startPage ≠ 0 → start = 1 := fun hzero => by
    omega
  have hneeds : endPage ≠ 0 → whole < pages ∧ (0 < whole ∨ start = 0) := fun hzero => not_not.1 (mt hend.2 hzero)
  -- What each copy leaves alone.
  have hframe1 : ∀ x, ¬ InReply b first start whole pages phys x → memory1.bytes x = memory.bytes x := by
    intro x hx
    by_cases hzero : startPage = 0
    · rw [hnostart hzero]
    · rw [hhead hzero x, if_neg]
      rintro ⟨hle, hlt⟩
      have hfits := head_fits hext (hone hzero)
      refine hx ⟨0, x - phys 0, hext.pos, by rw [hone hzero]; omega, by omega, ?_, by omega⟩
      exact (contains_head hext (hone hzero) (by omega)).2 (by omega)
  have hframe2 : ∀ x, ¬ InReply b first start whole pages phys x → memory'.bytes x = memory1.bytes x := by
    intro x hx
    by_cases hzero : endPage = 0
    · rw [hnoend hzero]
    · rw [htail hzero x, if_neg]
      rintro ⟨hle, hlt⟩
      have hfits := tail_fits hext
      refine hx ⟨whole, x - phys whole, (hneeds hzero).1, by omega, by omega, ?_, by omega⟩
      exact (contains_tail hext (hneeds hzero).2).2 (by omega)
  refine ⟨fun x hx => (hframe2 x hx).trans (hframe1 x hx), fun i offset hi hoffset hcontains honce => ?_⟩
  -- A fresh page is not written.
  have hapart : ∀ page, page % PageSize = 0 → (∀ j, j < pages → page ≠ phys j) →
      ¬ InReply b first start whole pages phys (page + offset) := by
    rintro page hpage hne ⟨j, offset', hj, -, hoffset', -, heq⟩
    have haligned := (hclient j hj).aligned
    have := hne j hj
    simp only [PageSize] at *
    omega
  by_cases hfirst : i < start
  · obtain rfl : i = 0 := by omega
    have hzero : startPage ≠ 0 := fun hzero => by
      omega
    have hsource : serverPage phys start whole startPage endPage 0 = startPage := if_pos hfirst
    have hin := (contains_head hext (hone hzero) hoffset).1 (by simpa using hcontains)
    have hstartPage := hapart startPage hfresh.startAligned (hfresh.start_ne hzero)
    -- The end page does not have the byte.
    have hlast : memory'.bytes (phys 0 + offset) = memory1.bytes (phys 0 + offset) := by
      by_cases hzero' : endPage = 0
      · rw [hnoend hzero']
      · rw [htail hzero' _, if_neg]
        rintro ⟨hle, hlt⟩
        have hfits := tail_fits hext
        have hsame := honce whole (phys 0 + offset - phys whole) (hneeds hzero').1 (by omega)
          ((contains_tail hext (hneeds hzero').2).2 (by omega)) (by omega)
        omega
    have hread : current.entries.read memory (dst * PageSize + offset) = some (memory.bytes (startPage + offset)) := by
      have hread' := hsees.read memory hext.pos hoffset
      rw [hsource] at hread'
      exact hread'
    have haddr : dst * PageSize + (b.address - first * PageSize) +
        (phys 0 + offset - (phys 0 + (b.address - first * PageSize))) = dst * PageSize + offset := by omega
    rw [hsource, hlast, hhead hzero, if_pos (by omega), haddr, hread, hframe2 _ hstartPage, hframe1 _ hstartPage,
      getD_some]
  · by_cases hwhole : i < whole
    · rw [serverPage, if_neg hfirst, if_neg (by omega)]
    · obtain rfl : i = whole := by omega
      have hneeds' : i < pages ∧ (0 < i ∨ start = 0) := by omega
      have hzero : endPage ≠ 0 := fun hzero => hend.1 hzero hneeds'
      have hsource : serverPage phys start i startPage endPage i = endPage := by
        rw [serverPage, if_neg hfirst, if_pos le_rfl]
      have hin := (contains_tail hext hneeds'.2).1 hcontains
      have hread := hsees.read memory1 hi hoffset
      rw [hsource] at hread
      rw [hsource, htail hzero, if_pos (by omega), Nat.add_sub_cancel_left, hread,
        hframe2 _ (hapart endPage hfresh.endAligned (hfresh.end_ne hzero)), getD_some]

end Reply

/-! ## From the setup to the reply -/

namespace IpcBuffer

variable (b : IpcBuffer)

/-- The buffer has a byte in a page of the client. -/
def Touches (page : ℕ) : Prop := b.alignedSrcStart ≤ page * PageSize ∧ page * PageSize < b.alignedSrcEnd

/-- The page belongs to the buffer as a whole. -/
def Whole (page : ℕ) : Prop := b.mappingSrcStart ≤ page * PageSize ∧ page * PageSize < b.mappingSrcEnd

/-- The page of the server that corresponds to a page of the client, if the buffer is at `s`. -/
def serverPage (s page : ℕ) : ℕ := s / PageSize + (page - b.address / PageSize)

end IpcBuffer

/-- The byte of physical memory behind an address. -/
def physByte (phys : ℕ → ℕ) (v : ℕ) : ℕ := phys (v / PageSize) + v % PageSize

/-- **What a server gets**: the whole pages of the client, and fresh pages with the bytes of the buffer and the fill
value. -/
structure Carried (server server' : IpcServer) (b : IpcBuffer) (send : Bool) (phys : ℕ → ℕ) (s : ℕ) : Prop where
  congruent : s % PageSize = b.address % PageSize
  whole : ∀ page, b.Whole page → (server'.entries (b.serverPage s page)).ptr = some (phys page)
  ends : ∀ page, b.Touches page → ¬ b.Whole page →
    ∃ fresh, (server'.entries (b.serverPage s page)).ptr = some fresh ∧ server.memory.references (fresh / PageSize) = 0 ∧
      ∀ offset, offset < PageSize → server'.memory.bytes (fresh + offset) =
        if send = true ∧ b.Contains (page * PageSize + offset) then server.memory.bytes (phys page + offset)
        else server.ipcFillValue
  client : ∀ page, b.Touches page → ∀ offset, offset < PageSize →
    server'.memory.bytes (phys page + offset) = server.memory.bytes (phys page + offset)

/-- **What a client gets**: the bytes that the server sees, and no other byte. -/
structure Replied (entries : PageEntries) (current : CurrentMemory) (memory memory' : PhysicalMemory) (b : IpcBuffer)
    (phys : ℕ → ℕ) (s : ℕ) : Prop where
  bytes : ∀ v, b.Contains v → (∀ w, b.Contains w → physByte phys w = physByte phys v → w = v) →
    entries.read memory' v = current.entries.read memory' (s + (v - b.address))
  frame : ∀ v, (∀ page, (entries (v / PageSize)).ptr = some page → ∀ w, b.Contains w → ¬ b.Whole (w / PageSize) →
    page + v % PageSize ≠ physByte phys w) → entries.read memory' v = entries.read memory v

/-- A setup that succeeds has set up both sides. -/
lemma setupForIpc_ok {σ : Type} {t t' : KPageTable} (ht : ClientTable t) {freeBlocks : ℕ} {server server' : σ}
    {setupForIpcServer : σ → Option (σ × Except KResult ℕ)} {b : IpcBuffer} {s : ℕ}
    (h : t.setupForIpc freeBlocks server setupForIpcServer b = some (t', server', .ok s)) :
    KPageTable.Holds t.manager b ∧ setupForIpcServer server = some (server', .ok s) := by
  obtain ⟨⟨t0, r⟩, hc, hrest⟩ := bind_eq_some_iff.1 h
  cases r with
  | error e => cases hrest
  | ok n =>
    refine ⟨(KPageTable.setupForIpcClient_ok ht.shaped ht.start_lt_end ht.end_lt hc).1, ?_⟩
    dsimp only at hrest
    by_cases hblocks : freeBlocks < n
    · rw [if_pos hblocks] at hrest
      cases hrest
    rw [if_neg hblocks] at hrest
    obtain ⟨⟨server1, r⟩, hsetup, hlast⟩ := bind_eq_some_iff.1 hrest
    cases r with
    | error e => cases hlast
    | ok address =>
      have heq : server1 = server' ∧ address = s := by
        split_ifs at hlast
        · obtain ⟨m, -, hm⟩ := map_eq_some_iff.1 hlast
          cases hm
          exact ⟨rfl, rfl⟩
        · cases hlast
          exact ⟨rfl, rfl⟩
      obtain ⟨rfl, rfl⟩ := heq
      exact hsetup

section Virtual

variable {b : IpcBuffer} {first start whole pages : ℕ}

section

variable (hext : b.Extents first start whole pages)
include hext

lemma touches_iff {page : ℕ} : b.Touches page ↔ ∃ i, i < pages ∧ page = first + i := by
  rw [IpcBuffer.Touches, hext.alignedStart, hext.alignedEnd]
  simp only [PageSize]
  constructor
  · rintro ⟨h1, h2⟩
    exact ⟨page - first, by omega, by omega⟩
  · rintro ⟨i, hi, rfl⟩
    omega

lemma whole_iff (i : ℕ) : b.Whole (first + i) ↔ start ≤ i ∧ i < whole := by
  rw [IpcBuffer.Whole, hext.mappingStart, hext.mappingEnd]
  simp only [PageSize]
  omega

lemma Whole.touches {page : ℕ} (h : b.Whole page) : b.Touches page := by
  have h1 := hext.whole_le
  rw [IpcBuffer.Whole, hext.mappingStart, hext.mappingEnd] at h
  rw [IpcBuffer.Touches, hext.alignedStart, hext.alignedEnd]
  rw [Nat.mul_le_mul_right_iff (by decide), Nat.mul_lt_mul_right (by decide)] at h ⊢
  omega

lemma exists_page {v : ℕ} (h : b.Contains v) :
    ∃ i offset, i < pages ∧ offset < PageSize ∧ v = (first + i) * PageSize + offset := by
  obtain ⟨h1, h2⟩ := h
  have haddress := hext.address.1
  have htail := hext.tail.2
  have hwhole := hext.whole_le
  have hlast : (first + whole) * PageSize ≤ v → whole < pages := fun hle => hext.endPage.2 (hle.trans_lt h2)
  have hv : v / PageSize * PageSize + v % PageSize = v := div_add_mod' v PageSize
  have hlt : v % PageSize < PageSize := mod_lt _ (by decide)
  have hfirst : first ≤ v / PageSize := (le_div_iff_mul_le (by decide)).2 (by omega)
  have hwhole' : v / PageSize < first + whole + 1 := (div_lt_iff_lt_mul (by decide)).2 (by omega)
  refine ⟨v / PageSize - first, v % PageSize, ?_, hlt, ?_⟩
  · by_cases hi : v / PageSize < first + whole
    · omega
    · have := hlast ((le_div_iff_mul_le (by decide)).1 (by omega))
      omega
  · rw [Nat.add_sub_cancel' hfirst, hv]

end

variable {offset : ℕ}

lemma page_div (h : offset < PageSize) : (page * PageSize + offset) / PageSize = page := by
  simp only [PageSize] at *
  omega

lemma page_mod (h : offset < PageSize) : (page * PageSize + offset) % PageSize = offset := by
  simp only [PageSize] at *
  omega

end Virtual

/-- **IPC buffers carry the bytes of the client.** -/
theorem ipc_buffer_carries_bytes {env : IpcEnvironment} (henv : env.Sound) {t t' : KPageTable} (ht : ClientTable t)
    {freeBlocks : ℕ} {server server' : IpcServer} {entries : PageEntries} {b : IpcBuffer} {send : Bool} {phys : ℕ → ℕ}
    {s : ℕ} (hclient : ∀ page, b.Touches page → ClientPage entries page (phys page))
    (hused : ∀ page, b.Touches page → server.memory.references (phys page / PageSize) ≠ 0)
    (hsetup : t.setupForIpc freeBlocks server (·.setupForIpcServer env entries b send) b = some (t', server', .ok s)) :
    Carried server server' b send phys s ∧
    ∀ (t₁ : KPageTable) (isLinear : ℕ → Bool) (current : CurrentMemory) (entries₁ : PageEntries)
      (memory memory' : PhysicalMemory), (∀ page, b.Touches page → entries₁ page = entries page) →
      (∀ page, b.Touches page → current.entries (b.serverPage s page) = server'.entries (b.serverPage s page)) →
      processSendMessageReceiveMapping t₁ isLinear current entries₁ memory b s = some (memory', .ok ()) →
      Replied entries₁ current memory memory' b phys s := by
  obtain ⟨hholds, hserver⟩ := setupForIpc_ok ht hsetup
  have hsize := hholds.2.1
  obtain ⟨first, start, whole, pages, hext⟩ := b.extents hsize
  have htouches : ∀ i, i < pages → b.Touches (first + i) := fun i hi => (touches_iff hext).2 ⟨i, hi, rfl⟩
  have hpages : ClientPages entries first pages (fun i => phys (first + i)) := fun i hi =>
    hclient (first + i) (htouches i hi)
  obtain ⟨dst, startPage, endPage, rfl, hstart, hend, hfresh, hstartFree, hendFree, hentries, hbytes⟩ :=
    setupForIpcServer_ok henv hext hpages (fun i hi => hused (first + i) (htouches i hi)) hserver
  obtain ⟨hpartly, hframe⟩ := bytesAfterEnd_spec send server hext hpages hfresh hstart hend
  have hoffset : b.address - first * PageSize < PageSize := by
    have := hext.head
    simp only [PageSize] at *
    omega
  have hfirst : b.address / PageSize = first := by
    have h1 := hext.address.1
    have h2 := hext.head
    simp only [PageSize] at *
    omega
  have hnumber : ∀ i, b.serverPage (dst * PageSize + (b.address - first * PageSize)) (first + i) = dst + i := by
    intro i
    rw [IpcBuffer.serverPage, page_div hoffset, hfirst, Nat.add_sub_cancel_left]
  refine ⟨⟨?_, ?_, ?_, ?_⟩, ?_⟩
  · rw [page_mod hoffset]
    have h1 := hext.address.1
    simp only [PageSize] at *
    omega
  · intro page hwhole
    obtain ⟨i, hi, rfl⟩ := (touches_iff hext).1 (Whole.touches hext hwhole)
    have hin := (whole_iff hext i).1 hwhole
    rw [hnumber, hentries i hi, serverPage, if_neg (by omega), if_neg (by omega)]
    rfl
  · intro page htouch hpart
    obtain ⟨i, hi, rfl⟩ := (touches_iff hext).1 htouch
    have hout : ¬ (start ≤ i ∧ i < whole) := fun hin => hpart ((whole_iff hext i).2 hin)
    refine ⟨serverPage (fun i => phys (first + i)) start whole startPage endPage i, ?_, ?_, ?_⟩
    · rw [hnumber, hentries i hi]
      rfl
    · have hlast := hext.pages_le
      rw [serverPage]
      split_ifs with h1 h2
      · exact hstartFree fun hzero => by
          omega
      · exact hendFree fun hzero => hend.1 hzero (by omega)
      · omega
    · intro offset hoff
      rw [hbytes]
      exact hpartly i hi hout offset hoff
  · intro page htouch offset hoff
    obtain ⟨i, hi, rfl⟩ := (touches_iff hext).1 htouch
    rw [hbytes]
    exact hframe _ (not_inPartial hfresh.startAligned (hpages i hi).aligned (fun hne => hfresh.start_ne hne i hi) hoff)
      (not_inPartial hfresh.endAligned (hpages i hi).aligned (fun hne => hfresh.end_ne hne i hi) hoff)
  · intro t₁ isLinear current entries₁ memory memory' hsame hcurrent hreply
    have hpages₁ : ClientPages entries₁ first pages (fun i => phys (first + i)) := fun i hi =>
      { hpages i hi with entry := (hsame _ (htouches i hi)).trans (hpages i hi).entry }
    have hsees : Sees current dst pages (serverPage (fun i => phys (first + i)) start whole startPage endPage) := by
      intro i hi
      have heq := hcurrent _ (htouches i hi)
      rw [hnumber, hentries i hi] at heq
      rw [heq]
      rfl
    obtain ⟨hunchanged, hequal⟩ := reply_bytes hsize hext hpages₁ hfresh hstart hend hsees hreply
    have hread : ∀ i offset, i < pages → offset < PageSize → ∀ m : PhysicalMemory,
        entries₁.read m ((first + i) * PageSize + offset) = some (m.bytes (phys (first + i) + offset)) := by
      intro i offset hi hoff m
      rw [PageEntries.read, page_div hoff, page_mod hoff, (hpages₁ i hi).entry]
      rfl
    have hbyte : ∀ {i offset}, offset < PageSize →
        physByte phys ((first + i) * PageSize + offset) = phys (first + i) + offset := by
      intro i offset hoff
      rw [physByte, page_div hoff, page_mod hoff]
    refine ⟨fun v hv honce => ?_, fun v hv => ?_⟩
    · obtain ⟨i, offset, hi, hoff, rfl⟩ := exists_page hext hv
      have hserverAddress : dst * PageSize + (b.address - first * PageSize) +
          ((first + i) * PageSize + offset - b.address) = (dst + i) * PageSize + offset := by
        have h1 := hext.address.1
        have h2 := hv.1
        simp only [add_mul] at *
        omega
      rw [hread i offset hi hoff, hserverAddress, hsees.read memory' hi hoff]
      refine congrArg some (hequal i offset hi hoff hv fun j offset' hj hoff' hcontains heq => ?_)
      have hsame' := honce _ hcontains (by rw [hbyte hoff', hbyte hoff, heq])
      have := congrArg (· / PageSize) hsame'
      simp only [page_div hoff, page_div hoff'] at this
      omega
    · refine read_congr fun page hpage => hunchanged _ ?_
      rintro ⟨i, offset, hi, hout, hoff, hcontains, heq⟩
      refine hv page hpage _ hcontains ?_ (by rw [hbyte hoff, heq])
      rw [page_div hoff]
      exact fun hwhole => hout ((whole_iff hext i).1 hwhole)

section Instances

/-- A server with room for a buffer.  The pages below `0x90000000` are in use. -/
def roomyServer : IpcServer where
  manager :=
    { memoryBlockTree :=
        [KMemoryBlock.initializeBlock 0 16 KMemoryState.Normal KMemoryPermission.UserReadWrite KMemoryAttribute.None]
      startAddress := 0
      endAddress := 0x10000 }
  entries := fun _ => unmappedEntry
  memory := ⟨fun _ => 0, fun page => if page < 0x90000 then 1 else 0⟩
  aliasRegionStart := 0x4000
  aliasRegionEnd := 0x10000
  freeBlocks := 2
  limitValue := 0x4000
  currentValue := 0
  currentHint := 0
  ipcFillValue := 0

def twoFreePages : IpcEnvironment where
  findFreeArea := fun _ _ => 0x8000
  allocatePage := fun references =>
    if references 0x90000 = 0 then 0x90000000 else if references 0x90001 = 0 then 0x90001000 else 0
  isHeapPhysicalAddress := fun _ => true

lemma twoFreePages_sound : twoFreePages.Sound where
  area _ _ := by
    show 0x8000 % PageSize = 0
    decide
  page references := by
    simp only [twoFreePages]
    split_ifs <;> rfl
  free references := by
    simp only [twoFreePages]
    split_ifs with h1 h2
    · exact fun _ => h1
    · exact fun _ => h2
    · exact fun h => absurd rfl h

/-- A buffer over the end of page 0, pages 1 and 2, and the start of page 3. -/
def exchangedBuffer : IpcBuffer := ⟨0xF00, 0x2200, .exchange, KMemoryState.Ipc, sentBuffer.size_lt⟩

def spreadPages (page : ℕ) : ℕ := 0x80000000 + page * 0x2000

/-- The buffer is exchanged with a client whose pages are not adjacent. -/
theorem ipc_buffer_carries_bytes_exchanged :
    ∃ t' server', fourPages.setupForIpc 2 roomyServer
      (·.setupForIpcServer twoFreePages (fun page => entryOf page (spreadPages page)) exchangedBuffer true)
        exchangedBuffer = some (t', server', .ok 0x8F00) ∧
      Carried roomyServer server' exchangedBuffer true spreadPages 0x8F00 := by
  obtain ⟨t', server', hsetup⟩ : ∃ t' server', fourPages.setupForIpc 2 roomyServer
      (·.setupForIpcServer twoFreePages (fun page => entryOf page (spreadPages page)) exchangedBuffer true)
        exchangedBuffer = some (t', server', .ok 0x8F00) := ⟨_, _, rfl⟩
  have hend : exchangedBuffer.alignedSrcEnd = 0x4000 := by decide
  have hlt : ∀ page, exchangedBuffer.Touches page → page < 4 := by
    intro page htouch
    have := htouch.2
    rw [hend] at this
    simp only [PageSize] at this
    omega
  refine ⟨t', server', hsetup, (ipc_buffer_carries_bytes twoFreePages_sound fourPages_clientTable ?_ ?_ hsetup).1⟩
  · intro page htouch
    have := hlt page htouch
    refine ⟨rfl, ?_, ?_, ?_, ?_, ?_⟩ <;> simp only [spreadPages, PageSize] <;> omega
  · intro page htouch
    have := hlt page htouch
    have hused : spreadPages page / PageSize < 0x90000 := by
      simp only [spreadPages, PageSize]
      omega
    show (if spreadPages page / PageSize < 0x90000 then 1 else 0) ≠ 0
    rw [if_pos hused]
    omega

/-- A buffer in pages 0 and 1. -/
def foldedBuffer : IpcBuffer := ⟨0x100, 0x1E00, .exchange, KMemoryState.Ipc, by decide⟩

/-- What the server has written: ones to the start page, and twos to the end page. -/
def writtenMemory : PhysicalMemory := ⟨fun x => if x < 0x90001000 then 1 else 2, fun _ => 1⟩

/-- The server, with the pages of the buffer. -/
def foldedServer : CurrentMemory where
  entries := fun page =>
    if page = 8 then entryOf 8 0x90000000 else if page = 9 then entryOf 9 0x90001000 else unmappedEntry
  addressSpaceBits := 39

/-- **Pages that share a physical page**: the end page overwrites the bytes of the start page. -/
theorem shared_page_mixes_bytes :
    (∃ t' server', fourPages.setupForIpc 2 roomyServer
        (·.setupForIpcServer twoFreePages (fun page => entryOf page 0x80000000) foldedBuffer true) foldedBuffer =
          some (t', server', .ok 0x8100) ∧
      t'.manager = fourPages.manager ∧ server'.entries 8 = foldedServer.entries 8 ∧
      server'.entries 9 = foldedServer.entries 9) ∧
    ∃ memory', processSendMessageReceiveMapping fourPages (fun _ => true) foldedServer
        (fun page => entryOf page 0x80000000) writtenMemory foldedBuffer 0x8100 = some (memory', .ok ()) ∧
      PageEntries.read (fun page => entryOf page 0x80000000) memory' 0x100 = some 2 ∧
      foldedServer.entries.read memory' 0x8100 = some 1 :=
  ⟨⟨_, _, rfl, rfl, rfl, rfl⟩, ⟨_, rfl, rfl, rfl⟩⟩

end Instances

end Voltemu.Kernel
