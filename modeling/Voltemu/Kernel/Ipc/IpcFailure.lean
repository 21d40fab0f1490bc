import Voltemu.Kernel.Ipc.IpcRuns
import Voltemu.Kernel.Ipc.SetupForIpcServer

/-!
# A failed IPC mapping

What `SetupForIpc` leaves behind when it returns an error.

* `setupForIpcServer_error`: the server is as it was, with its pages, its references and its resource limit.
* `setupFailureLoop_spec`: `CleanupForIpcClientOnServerSetupFailure` restores the permissions of the client.
* It is not called if the update allocator of the client gets no block, after `SetupForIpcClient` has changed
  permissions.  **`failed_setup_leaves_no_trace`** says that this is the only case.
-/

namespace Voltemu.Kernel

open Tiling RunLength
open KMemoryBlock KMemoryBlockManager KPageTable
open KMemoryPermission (IpcLockChangeMask)

/-! ## The server -/

lemma closePage_openPages (memory : PhysicalMemory) (page : ℕ) : (memory.openPages page 1).closePage page = memory := by
  have hreferences : ((memory.openPages page 1).closePage page).references = memory.references := by
    funext q
    simp only [PhysicalMemory.closePage, PhysicalMemory.openPages]
    by_cases hq : q = page / PageSize
    · subst hq
      simp
    · rw [Function.update_of_ne hq, if_neg]
      omega
  cases memory
  simpa only [PhysicalMemory.closePage, PhysicalMemory.openPages, PhysicalMemory.mk.injEq, true_and] using hreferences

lemma closePartial_allocateAndOpen (s : IpcServer) (env : IpcEnvironment) :
    (s.allocateAndOpen env).1.closePartial (s.allocateAndOpen env).2 = s := by
  simp only [IpcServer.allocateAndOpen]
  split_ifs with hpage
  · exact if_pos rfl
  · rw [IpcServer.closePartial, if_neg hpage]
    dsimp only
    rw [closePage_openPages]

variable {s s' : IpcServer} {env : IpcEnvironment}

lemma allocateAndOpen_failed (h : (s.allocateAndOpen env).2 = 0) : (s.allocateAndOpen env).1 = s := by
  simp only [IpcServer.allocateAndOpen] at h ⊢
  split_ifs at h ⊢ with hpage
  · rfl
  · exact absurd h hpage

lemma release_reserve {value : ℕ} (h : s.reserve value = some s') : s'.release value = s := by
  rw [IpcServer.reserve] at h
  split_ifs at h with hzero hfits
  · obtain rfl := Option.some.inj h
    subst hzero
    rfl
  · obtain rfl := Option.some.inj h
    simp only [IpcServer.release, Nat.add_sub_cancel]

variable {test : KMemoryState × KMemoryAttribute} {b : IpcBuffer} {t : KPageTable}

/-- **A server that fails is as it was.** -/
lemma setupForIpcServer_error {entries : PageEntries} {send : Bool}
    {e : KResult} (h : s.setupForIpcServer env entries b send = some (s', .error e)) : s' = s := by
  have hsame : ∀ {x : IpcServer} {e' : KResult}, some (x, Except.error e') = some (s', Except.error (α := ℕ) e) → s' = x := by
    intro x e' hx
    exact (congrArg Prod.fst (Option.some.inj hx)).symm
  unfold IpcServer.setupForIpcServer at h
  by_cases hregion : ¬ b.size < s.aliasRegionEnd - s.aliasRegionStart
  · rw [if_pos hregion] at h
    exact hsame h
  rw [if_neg hregion] at h
  dsimp only at h
  by_cases hfree : env.findFreeArea s.manager ((b.alignedSrcEnd - b.alignedSrcStart) / PageSize) = 0
  · rw [if_pos hfree] at h
    exact hsame h
  rw [if_neg hfree] at h
  by_cases hblocks : s.freeBlocks < 2
  · rw [if_pos hblocks] at h
    exact hsame h
  rw [if_neg hblocks] at h
  generalize hvalue : (b.alignedSrcEnd - b.alignedSrcStart -
    if b.mappingSrcStart < b.mappingSrcEnd then b.mappingSrcEnd - b.mappingSrcStart else 0) = value at h
  cases hreserve : s.reserve value with
  | none =>
    rw [hreserve] at h
    exact hsame h
  | some s1 =>
    rw [hreserve] at h
    dsimp only at h
    generalize hstart : (if decide (b.alignedSrcStart < b.mappingSrcStart) = true then s1.allocateAndOpen env
      else (s1, 0)) = start at h
    have hstart1 : start.1.closePartial start.2 = s1 := by
      rw [← hstart]
      split_ifs
      · exact closePartial_allocateAndOpen s1 env
      · exact if_pos rfl
    by_cases hnostart : decide (b.alignedSrcStart < b.mappingSrcStart) = true ∧ start.2 = 0
    · rw [if_pos hnostart] at h
      rw [hsame h, ← release_reserve hreserve]
      congr 1
      rw [← hstart1, hnostart.2]
      exact (if_pos rfl).symm
    rw [if_neg hnostart] at h
    generalize hend : (if decide (b.mappingSrcEnd < b.alignedSrcEnd ∧
      (b.alignedSrcStart < b.mappingSrcEnd ∨ b.alignedSrcStart = b.mappingSrcStart)) = true then
        start.1.allocateAndOpen env else (start.1, 0)) = last at h
    by_cases hnoend : decide (b.mappingSrcEnd < b.alignedSrcEnd ∧
        (b.alignedSrcStart < b.mappingSrcEnd ∨ b.alignedSrcStart = b.mappingSrcStart)) = true ∧ last.2 = 0
    · rw [if_pos hnoend] at h
      rw [hsame h, ← release_reserve hreserve, ← hstart1]
      congr 2
      rw [if_pos hnoend.1] at hend
      rw [← hend]
      exact allocateAndOpen_failed (hend ▸ hnoend.2)
    · rw [if_neg hnoend] at h
      obtain ⟨m, -, hm⟩ := Option.map_eq_some_iff.1 h
      cases hm

/-! ## The rollback of the client -/

/-- `CleanupForIpcClientOnServerSetupFailure` restores the permissions of a range, if those of locked blocks were not
changed. -/
lemma setupFailureLoop_spec {srcMapStart srcMapEnd : ℕ} {protPerm : KMemoryPermission} {blocks : List KMemoryBlock}
    {x y : ℕ} (htiles : BlockTiles x blocks y) (hstart : srcMapStart % PageSize = 0) (hend : srcMapEnd % PageSize = 0)
    (haligned : x % PageSize = 0) (hx : x < srcMapEnd) (hle : srcMapStart < srcMapEnd) (hy : srcMapEnd ≤ y)
    (hlocked : ∀ blk ∈ blocks, ∀ z, blk.address ≤ z → z < blk.getEndAddress → srcMapStart ≤ z → z < srcMapEnd →
      blk.ipcLockCount ≠ 0 → blk.permission &&& IpcLockChangeMask = protPerm)
    (hkept : ∀ blk ∈ blocks, ∀ z, blk.address ≤ z → z < blk.getEndAddress → srcMapStart ≤ z → z < srcMapEnd →
      blk.permission &&& IpcLockChangeMask = protPerm →
        t.applied z &&& IpcLockChangeMask = blk.permission &&& IpcLockChangeMask) :
    (setupFailureLoop srcMapStart srcMapEnd protPerm blocks t).manager = t.manager ∧
    (∀ blk ∈ blocks, ∀ z, blk.address ≤ z → z < blk.getEndAddress → srcMapStart ≤ z → z < srcMapEnd →
      (setupFailureLoop srcMapStart srcMapEnd protPerm blocks t).applied z &&& IpcLockChangeMask =
        blk.permission &&& IpcLockChangeMask) ∧
    ∀ z, ¬ (srcMapStart ≤ z ∧ x ≤ z ∧ z < srcMapEnd) →
      (setupFailureLoop srcMapStart srcMapEnd protPerm blocks t).applied z = t.applied z := by
  induction blocks generalizing x t with
  | nil =>
    have := tiles_nil.1 htiles
    omega
  | cons info rest ih =>
    obtain ⟨rfl, hlt, hrest⟩ := htiles
    have hlast : info.getLastAddress = info.getEndAddress - 1 := rfl
    have haligned' := getEndAddress_aligned haligned
    -- The part of the block in the range.
    generalize hcurStart : (if srcMapStart ≤ info.address then info.address else srcMapStart) = curStart
    generalize hcurEnd : (if srcMapEnd - 1 ≤ info.getLastAddress then srcMapEnd else info.getEndAddress) = curEnd
    have hcurStart' : curStart = max srcMapStart info.address := by
      rw [← hcurStart]
      split_ifs <;> omega
    have hcurEnd' : curEnd = min srcMapEnd info.getEndAddress := by
      rw [← hcurEnd]
      split_ifs <;> omega
    generalize ht1 : (if fixesProtection srcMapStart srcMapEnd curEnd protPerm info = true then
      t.operate curStart ((curEnd - curStart) / PageSize) info.permission else t) = t1
    have hmanager : t1.manager = t.manager := by
      rw [← ht1]
      split_ifs <;> rfl
    have hframe : ∀ z, ¬ (curStart ≤ z ∧ z < curEnd) → t1.applied z = t.applied z := by
      intro z hz
      rw [← ht1]
      split_ifs
      · rw [operate]
        refine if_neg fun hin => hz ⟨hin.1, ?_⟩
        have := hin.2
        simp only [PageSize] at *
        omega
      · rfl
    have hinside : ∀ z, curStart ≤ z → z < curEnd →
        t1.applied z &&& IpcLockChangeMask = info.permission &&& IpcLockChangeMask := by
      intro z hz hz'
      rw [← ht1]
      by_cases hfixes : fixesProtection srcMapStart srcMapEnd curEnd protPerm info = true
      · rw [if_pos hfixes, operate]
        dsimp only
        rw [if_pos]
        refine ⟨hz, ?_⟩
        simp only [PageSize] at *
        omega
      · rw [if_neg hfixes]
        refine hkept info (by simp) z (by omega) (by omega) (by omega) (by omega) ?_
        by_contra hperm
        -- A block that is not locked is fixed, and a locked one did not change.
        by_cases hcount : info.ipcLockCount = 0
        · refine hfixes ?_
          simp [fixesProtection, hcount, hperm]
        · exact hperm (hlocked info (by simp) z (by omega) (by omega) (by omega) (by omega) hcount)
    have hloop : setupFailureLoop srcMapStart srcMapEnd protPerm (info :: rest) t =
        if srcMapEnd - 1 ≤ info.getLastAddress then t1
        else setupFailureLoop srcMapStart srcMapEnd protPerm rest t1 := by
      rw [setupFailureLoop, hcurStart, hcurEnd, ht1]
    rw [hloop]
    split_ifs with hdone
    · refine ⟨hmanager, fun blk hblk z h1 h2 h3 h4 => ?_, fun z hz => hframe z (by omega)⟩
      rcases List.mem_cons.1 hblk with rfl | hblk
      · exact hinside z (by omega) (by omega)
      · have := hrest.bounds hblk
        omega
    · obtain ⟨hmanager', hinside', hframe'⟩ := ih hrest haligned' (by omega) (t := t1)
        (fun blk hblk => hlocked blk (by simp [hblk]))
        (fun blk hblk z h1 h2 h3 h4 hperm => by
          have := hrest.bounds hblk
          rw [hframe z (by omega)]
          exact hkept blk (by simp [hblk]) z h1 h2 h3 h4 hperm)
      refine ⟨hmanager'.trans hmanager, fun blk hblk z h1 h2 h3 h4 => ?_, fun z hz => ?_⟩
      · rcases List.mem_cons.1 hblk with rfl | hblk
        · rw [hframe' z (by omega)]
          exact hinside z (by omega) (by omega)
        · exact hinside' blk hblk z h1 h2 h3 h4
      · rw [hframe' z (by omega), hframe z (by omega)]

/-! ## The client -/

/-- **The client tables of the kernel.**  The last two fields hold in every run of setups and cleanups. -/
structure ClientTable (t : KPageTable) : Prop where
  shaped : t.manager.Shaped
  start_lt_end : t.manager.startAddress < t.manager.endAddress
  end_lt : t.manager.endAddress < 2 ^ 64
  inStep : t.InStep
  /-- A block is locked with the permission of a buffer. -/
  narrowed : ∀ blk ∈ t.manager.memoryBlockTree, blk.ipcLockCount ≠ 0 →
    ∃ b : IpcBuffer, blk.permission &&& IpcLockChangeMask = b.srcPerm

/-- A block that passes the check of a buffer and is locked has the permission of the buffer. -/
lemma ClientTable.locked (h : ClientTable t)
    {blk : KMemoryBlock} (hblk : blk ∈ t.manager.memoryBlockTree) (hcheck : setupCheck b test blk = true)
    (hcount : blk.ipcLockCount ≠ 0) : blk.permission &&& IpcLockChangeMask = b.srcPerm := by
  obtain ⟨b', hb'⟩ := h.narrowed blk hblk hcount
  have htest : b.kind.testPerm &&& IpcLockChangeMask = b.kind.testPerm := by cases b.kind <;> decide
  have hpasses := (passes_of_check hcheck).permission
  rw [show blk.props.permission = blk.permission from rfl] at hpasses
  have hnarrow : narrow b'.srcPerm blk.permission = blk.permission := by
    rw [narrow, b'.srcPerm_and_mask, ← hb', ← BitVec.and_or_distrib_left]
    rw [show IpcLockChangeMask ||| ~~~IpcLockChangeMask = 0xFF#8 by decide]
    exact BitVec.and_allOnes
  rw [← hnarrow] at hpasses
  rw [hb', (b.srcPerm_eq_of_test hpasses).1]

/-- **The rollback of a part of a buffer.**  The pages before `x'` had been set up. -/
lemma rollback {t p : KPageTable} (h : ClientTable t)
    (hholds : Holds t.manager b) {x' : ℕ} (hmanager : p.manager = t.manager) (hx : b.mappingSrcStart < x')
    (hx' : x' ≤ b.mappingSrcEnd) (haligned : x' % PageSize = 0)
    (hchanged : ∀ blk ∈ t.manager.memoryBlockTree, ∀ y, blk.address ≤ y → y < blk.getEndAddress →
      b.mappingSrcStart ≤ y → y < x' → setupCheck b test blk = true ∧ p.applied y =
        if blk.permission &&& IpcLockChangeMask ≠ b.srcPerm then b.srcPerm else t.applied y)
    (hframe : ∀ y, ¬ (b.mappingSrcStart ≤ y ∧ y < x') → p.applied y = t.applied y) :
    (p.cleanupForIpcClientOnServerSetupFailure b.mappingSrcStart (x' - b.mappingSrcStart) b.srcPerm).manager = t.manager ∧
    (p.cleanupForIpcClientOnServerSetupFailure b.mappingSrcStart (x' - b.mappingSrcStart) b.srcPerm).InStep := by
  obtain ⟨hstart, -, hend⟩ := hholds.extents h.shaped
  obtain ⟨hal, har⟩ := b.aligned_le
  obtain ⟨pre, blk, post, htree, hfrom, htiles, hle, hlt, hpre⟩ :=
    blocksFrom_spec (t := p) (a := b.mappingSrcStart) (hmanager ▸ h.shaped) (by rw [hmanager]; omega)
      (by rw [hmanager]; omega)
  rw [hmanager] at htree htiles
  have hblk := tiles_aligned h.shaped.tiles h.shaped.aligned blk (by simp [htree])
  have hmem : ∀ c ∈ blk :: post, c ∈ t.manager.memoryBlockTree := fun c hc => by
    rw [htree]
    exact List.mem_append_right _ hc
  have hms : b.mappingSrcStart % PageSize = 0 := IpcBuffer.alignUp_aligned _
  rw [cleanupForIpcClientOnServerSetupFailure, hfrom, Nat.add_sub_cancel' hx.le]
  have hlocked : ∀ c ∈ blk :: post, ∀ z, c.address ≤ z → z < c.getEndAddress → b.mappingSrcStart ≤ z → z < x' →
      c.ipcLockCount ≠ 0 → c.permission &&& IpcLockChangeMask = b.srcPerm := fun c hc z hz hz' hz1 hz2 hcount =>
    h.locked (hmem c hc) (hchanged c (hmem c hc) z hz hz' hz1 hz2).1 hcount
  have hkept : ∀ c ∈ blk :: post, ∀ z, c.address ≤ z → z < c.getEndAddress → b.mappingSrcStart ≤ z → z < x' →
      c.permission &&& IpcLockChangeMask = b.srcPerm →
      p.applied z &&& IpcLockChangeMask = c.permission &&& IpcLockChangeMask := by
    intro c hc z hz hz' hz1 hz2 hperm
    rw [(hchanged c (hmem c hc) z hz hz' hz1 hz2).2, if_neg (not_not.2 hperm)]
    exact h.inStep c (hmem c hc) z hz hz'
  obtain ⟨h1, h2, h3⟩ := setupFailureLoop_spec htiles hms haligned hblk (by omega) hx (by omega) hlocked hkept
  refine ⟨h1.trans hmanager, ?_⟩
  rw [InStep, h1, hmanager]
  intro c hc z hz hz'
  by_cases hin : b.mappingSrcStart ≤ z ∧ z < x'
  · have hc' : c ∈ blk :: post := by
      rw [htree] at hc
      rcases List.mem_append.1 hc with hc | hc
      · have := hpre c hc
        omega
      · exact hc
    exact h2 c hc' z hz hz' hin.1 hin.2
  · rw [h3 z (by omega), hframe z hin]
    exact h.inStep c hc z hz hz'

/-- The buffer passes the checks of `SetupForIpcClient`. -/
def Accepts (t : KPageTable) (b : IpcBuffer) : Prop :=
  Holds t.manager b ∧ ∃ test, testStateOf b.dstState = some test ∧
    ∀ blk ∈ t.manager.memoryBlockTree, b.alignedSrcStart < blk.getEndAddress → blk.address < b.alignedSrcEnd →
      setupCheck b test blk = true

/-- The buffer fills a page whose permission `SetupForIpcClient` has to change. -/
def Changes (t : KPageTable) (b : IpcBuffer) : Prop :=
  ∃ blk ∈ t.manager.memoryBlockTree, ∃ y, blk.address ≤ y ∧ y < blk.getEndAddress ∧ b.range.Covers y ∧
    blk.permission &&& IpcLockChangeMask ≠ b.srcPerm

/-- **What `SetupForIpcClient` leaves behind**: everything if it fails, and else the new permissions. -/
lemma setupForIpcClient_spec (h : ClientTable t) {t' : KPageTable}
    {r : Except KResult ℕ} (hclient : t.setupForIpcClient b = some (t', r)) :
    match r with
    | .error _ => (b.Fills → ¬ Accepts t b) ∧ t'.manager = t.manager ∧ t'.InStep
    | .ok n => (b.Fills → Accepts t b ∧ n = splits b t.manager.memoryBlockTree) ∧ (¬ b.Fills → n = 0 ∧ t' = t) := by
  unfold setupForIpcClient at hclient
  by_cases hcontains : t.contains b.address b.size = false
  · rw [if_pos hcontains] at hclient
    obtain ⟨rfl, rfl⟩ := Prod.mk.inj (Option.some.inj hclient)
    refine ⟨fun _ haccepts => ?_, rfl, h.inStep⟩
    rw [(contains_iff h.start_lt_end h.end_lt b).2 haccepts.1] at hcontains
    cases hcontains
  rw [if_neg hcontains] at hclient
  rw [Bool.not_eq_false, contains_iff h.start_lt_end h.end_lt] at hcontains
  cases htest : testStateOf b.dstState with
  | none =>
    rw [htest] at hclient
    obtain ⟨rfl, rfl⟩ := Prod.mk.inj (Option.some.inj hclient)
    refine ⟨fun _ haccepts => ?_, rfl, h.inStep⟩
    obtain ⟨-, test, htest', -⟩ := haccepts
    rw [htest] at htest'
    cases htest'
  | some test =>
    rw [htest] at hclient
    dsimp only at hclient
    by_cases hfill : b.Fills
    · obtain ⟨p', ok, x', hloop, hmanager, hx, hx', haligned, hmapped, hchanged, hframe, hok, hchecks⟩ :=
        setupLoop_client h.shaped hcontains hfill (setupCheck b test)
      rw [hloop, Option.map_some] at hclient
      cases ok with
      | false =>
        obtain ⟨ht', rfl⟩ := Prod.mk.inj (Option.some.inj hclient)
        refine ⟨fun _ haccepts => ?_, ?_⟩
        · obtain ⟨-, test', htest', hall⟩ := haccepts
          obtain rfl := Option.some.inj (htest.symm.trans htest')
          exact absurd (hchecks.2 hall) (by decide)
        · dsimp only at ht'
          rw [hmapped] at ht'
          subst ht'
          by_cases hsome : 0 < x' - b.mappingSrcStart
          · rw [if_pos hsome]
            exact rollback h hcontains hmanager (by omega) hx' haligned hchanged hframe
          · rw [if_neg hsome]
            refine ⟨hmanager, ?_⟩
            rw [InStep, hmanager]
            intro c hc z hz hz'
            rw [hframe z (by omega)]
            exact h.inStep c hc z hz hz'
      | true =>
        obtain ⟨-, rfl⟩ := Prod.mk.inj (Option.some.inj hclient)
        exact ⟨fun _ => ⟨⟨hcontains, test, htest, hchecks.1 rfl⟩, (hok rfl).2⟩, fun hno => absurd hfill hno⟩
    · obtain ⟨hstart, hlt, hend⟩ := hcontains.extents h.shaped
      obtain ⟨pre, blk, post, -, hfrom, htiles, hle, -, -⟩ := blocksFrom_spec h.shaped hstart (by omega)
      obtain ⟨ok, hloop⟩ := setupLoop_of_not_fills hfill (setupCheck b test) htiles (by omega) hend ⟨t, 0, 0⟩
      rw [hfrom, hloop, Option.map_some] at hclient
      cases ok with
      | false =>
        obtain ⟨rfl, rfl⟩ := Prod.mk.inj (Option.some.inj hclient)
        exact ⟨fun hyes => absurd hyes hfill, rfl, h.inStep⟩
      | true =>
        obtain ⟨rfl, rfl⟩ := Prod.mk.inj (Option.some.inj hclient)
        exact ⟨fun hyes => absurd hyes hfill, fun _ => ⟨rfl, rfl⟩⟩

/-! ## Failures -/

/-- The failure that leaves a trace: the client has too few blocks for a buffer that passes its checks. -/
structure Stranded (freeBlocks : ℕ) (t : KPageTable) (b : IpcBuffer) : Prop where
  accepts : Accepts t b
  changes : Changes t b
  exhausted : freeBlocks < splits b t.manager.memoryBlockTree

/-- The server and the block map of the client are as they were, and the permissions are those that the blocks record. -/
structure NoTrace (t t' : KPageTable) (server server' : IpcServer) : Prop where
  manager : t'.manager = t.manager
  server : server' = server
  inStep : t'.InStep

/-- The permissions after `SetupForIpcClient` differ from the recorded ones if there is something to change. -/
lemma not_inStep_of_changes {t t' : KPageTable}
    (hdone : SetupDone t t' b test) (hchanges : Changes t b) : ¬ t'.InStep := by
  obtain ⟨blk, hblk, y, hy, hy', hcovers, hperm⟩ := hchanges
  intro hstep
  have happlied := hstep blk (by rw [hdone.manager]; exact hblk) y hy hy'
  rw [hdone.changed blk hblk y hy hy' hcovers, if_pos hperm, b.srcPerm_and_mask] at happlied
  exact hperm happlied.symm

lemma inStep_of_not_changes {t t' : KPageTable} (h : t.InStep) (hdone : SetupDone t t' b test) (hchanges : ¬ Changes t b) :
    t'.InStep := by
  rw [InStep, hdone.manager]
  intro blk hblk y hy hy'
  rw [← h blk hblk y hy hy']
  by_cases hcovers : b.range.Covers y
  · rw [hdone.changed blk hblk y hy hy' hcovers, if_neg]
    exact fun hperm => hchanges ⟨blk, hblk, y, hy, hy', hcovers, hperm⟩
  · rw [hdone.frame y hcovers]

lemma Changes.fills (h : Changes t b) : b.Fills := by
  obtain ⟨-, -, y, -, -, hcovers, -⟩ := h
  by_contra hfill
  exact b.not_covers hfill y hcovers

/-- **A failed mapping leaves no trace**, unless the client runs out of blocks when permissions were changed. -/
theorem failed_setup_leaves_no_trace {t t' : KPageTable} (h : ClientTable t) {freeBlocks : ℕ}
    {server server' : IpcServer} {env : IpcEnvironment} {entries : PageEntries} {b : IpcBuffer} {send : Bool}
    {e : KResult}
    (hfail : t.setupForIpc freeBlocks server (·.setupForIpcServer env entries b send) b = some (t', server', .error e)) :
    NoTrace t t' server server' ↔ ¬ Stranded freeBlocks t b := by
  obtain ⟨⟨t₁, r⟩, hclient, hrest⟩ := Option.bind_eq_some_iff.1 hfail
  have hspec := setupForIpcClient_spec h hclient
  cases r with
  | error e' =>
    -- The checks of the client.
    obtain ⟨hrejects, hmanager, hstep⟩ := hspec
    obtain ⟨rfl, hserver⟩ := Prod.mk.inj (Option.some.inj hrest)
    obtain ⟨rfl, -⟩ := Prod.mk.inj hserver
    exact ⟨fun _ hstranded => hrejects hstranded.changes.fills hstranded.accepts, fun _ => ⟨hmanager, rfl, hstep⟩⟩
  | ok n =>
    obtain ⟨hfills, hnone⟩ := hspec
    obtain ⟨hholds, test, htest, hdone⟩ := setupForIpcClient_ok h.shaped h.start_lt_end h.end_lt hclient
    dsimp only at hrest
    by_cases hblocks : freeBlocks < n
    · -- The update allocator: nothing is rolled back.
      rw [if_pos hblocks] at hrest
      obtain ⟨rfl, hserver⟩ := Prod.mk.inj (Option.some.inj hrest)
      obtain ⟨rfl, -⟩ := Prod.mk.inj hserver
      have hfill : b.Fills := by
        by_contra hno
        have := (hnone hno).1
        omega
      obtain ⟨haccepts, rfl⟩ := hfills hfill
      constructor
      · intro htrace hstranded
        exact not_inStep_of_changes hdone hstranded.changes htrace.inStep
      · intro hok
        exact ⟨hdone.manager, rfl, inStep_of_not_changes h.inStep hdone fun hchanges => hok ⟨haccepts, hchanges, hblocks⟩⟩
    · -- The server: the client is rolled back.
      rw [if_neg hblocks] at hrest
      obtain ⟨⟨server₁, r⟩, hsetup, hrest⟩ := Option.bind_eq_some_iff.1 hrest
      have hnot : ¬ Stranded freeBlocks t b := by
        intro hstranded
        have hexhausted := hstranded.exhausted
        rw [← (hfills hstranded.changes.fills).2] at hexhausted
        omega
      refine ⟨fun _ => hnot, fun _ => ?_⟩
      cases r with
      | ok address =>
        dsimp only at hrest
        split_ifs at hrest
        · obtain ⟨m, -, hm⟩ := Option.map_eq_some_iff.1 hrest
          cases hm
        · cases hrest
      | error e' =>
        obtain ⟨rfl, hserver⟩ := Prod.mk.inj (Option.some.inj hrest)
        obtain ⟨rfl, -⟩ := Prod.mk.inj hserver
        obtain rfl := setupForIpcServer_error hsetup
        by_cases hfill : b.Fills
        · have hrange : ∀ y, b.range.Covers y ↔ b.mappingSrcStart ≤ y ∧ y < b.mappingSrcEnd := by
            intro y
            rw [PageRange.Covers, b.range_endAddress hfill]
            rfl
          rw [if_pos (show b.mappingSrcStart < b.mappingSrcEnd from hfill)]
          obtain ⟨hmanager, hstep⟩ := rollback h hholds hdone.manager hfill le_rfl (IpcBuffer.alignDown_aligned _)
            (fun blk hblk y h1 h2 h3 h4 =>
              ⟨hdone.check blk hblk y h1 h2 ((hrange y).2 ⟨h3, h4⟩),
                hdone.changed blk hblk y h1 h2 ((hrange y).2 ⟨h3, h4⟩)⟩)
            (fun y hy => hdone.frame y fun hcovers => hy ((hrange y).1 hcovers))
          exact ⟨hmanager, rfl, hstep⟩
        · rw [if_neg (show ¬ b.mappingSrcStart < b.mappingSrcEnd from hfill), (hnone hfill).2]
          exact ⟨rfl, rfl, h.inStep⟩

section Instances

lemma fourPages_clientTable : ClientTable fourPages where
  shaped := fourPages_wellFormed.toShaped
  start_lt_end := by decide
  end_lt := by decide
  inStep := fourPages_inStep
  narrowed := by
    intro blk hblk hcount
    obtain rfl := List.mem_singleton.1 hblk
    exact absurd rfl hcount

/-- A server without an alias region. -/
def fullServer : IpcServer where
  manager := fourPages.manager
  entries := fun _ => unmappedEntry
  memory := ⟨fun _ => 0, fun _ => 0⟩
  aliasRegionStart := 0x4000
  aliasRegionEnd := 0x4000
  freeBlocks := 2
  limitValue := 0x4000
  currentValue := 0
  currentHint := 0
  ipcFillValue := 0

def emptyEnvironment : IpcEnvironment where
  findFreeArea := fun _ _ => 0
  allocatePage := fun _ => 0
  isHeapPhysicalAddress := fun _ => true

/-- The server has no room, and the client is rolled back. -/
theorem failed_setup_leaves_no_trace_server :
    ∃ t', fourPages.setupForIpc 2 fullServer
      (·.setupForIpcServer emptyEnvironment (fun _ => unmappedEntry) sentBuffer true) sentBuffer =
        some (t', fullServer, .error .outOfAddressSpace) ∧ NoTrace fourPages t' fullServer fullServer := by
  obtain ⟨t', ht'⟩ : ∃ t', fourPages.setupForIpc 2 fullServer
      (·.setupForIpcServer emptyEnvironment (fun _ => unmappedEntry) sentBuffer true) sentBuffer =
        some (t', fullServer, .error .outOfAddressSpace) := ⟨_, rfl⟩
  refine ⟨t', ht', (failed_setup_leaves_no_trace fourPages_clientTable ht').2 fun hstranded => ?_⟩
  exact absurd hstranded.exhausted (by decide)

/-- **A client without free blocks**: the buffer is not sent, and its pages can no longer be written. -/
theorem exhausted_slab_strands_permissions :
    ∃ t', fourPages.setupForIpc 0 fullServer
      (·.setupForIpcServer emptyEnvironment (fun _ => unmappedEntry) sentBuffer true) sentBuffer =
        some (t', fullServer, .error .outOfResource) ∧ t'.applied 0x1000 = KMemoryPermission.UserRead ∧ ¬ t'.InStep := by
  refine ⟨_, rfl, rfl, fun hstep => ?_⟩
  have h := hstep (initializeBlock 0 4 KMemoryState.Normal KMemoryPermission.UserReadWrite KMemoryAttribute.None)
    (List.mem_singleton_self _) 0x1000 (by decide) (by decide)
  exact absurd h (by decide)

end Instances

end Voltemu.Kernel
