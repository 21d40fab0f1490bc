import Voltemu.Kernel.Ipc.IpcPermissions

/-!
# Runs of IPC setups and cleanups

A run starts from a client without outstanding buffers.  Its steps are successful calls of `SetupForIpc`, each with a
server of its own, and calls of `CleanupForIpcClient` for outstanding buffers, in any order.

* `IpcInv.setup` and `IpcInv.cleanup`: the steps keep the invariant, and the assertions of a cleanup hold.
* **`ipc_permissions_in_step`**: in every run.
-/

namespace Voltemu.Kernel

open Tiling RunLength List
open KMemoryBlock KMemoryBlockManager KPageTable
open KMemoryBlockDisableMergeAttribute (IpcLeft AllLeft AllRight)
open KMemoryPermission (IpcLockChangeMask)
open KMemoryAttribute (IpcLocked)

/-! ## Pages and blocks -/

section Cells

variable {m : KMemoryBlockManager}

lemma block_of_cell (hm : m.Shaped) {c : PageCell} (hc : c ∈ m.cells) :
    ∃ blk ∈ m.memoryBlockTree, c.mid = blk.props ∧ c.pos % PageSize = 0 ∧ blk.address ≤ c.pos ∧
      c.pos + PageSize ≤ blk.getEndAddress := by
  obtain ⟨blk, hblk, hcell⟩ := mem_flatMap.1 hc
  have haligned := tiles_aligned hm.tiles hm.aligned blk hblk
  obtain ⟨i, hi, rfl⟩ := Run.mem_cells hcell
  refine ⟨blk, hblk, rfl, ?_, ?_, ?_⟩ <;>
    simp only [toRun, getEndAddress, getSize, PageSize] at * <;> omega

lemma cell_of_block {blk : KMemoryBlock} (hblk : blk ∈ m.memoryBlockTree) {y : ℕ} (hy : blk.address ≤ y)
    (hy' : y < blk.getEndAddress) :
    ∃ c ∈ m.cells, c.mid = blk.props ∧ c.pos ≤ y ∧ y < c.pos + PageSize := by
  have hi : (y - blk.address) / PageSize < blk.numPages := by
    simp only [getEndAddress, getSize, PageSize] at *
    omega
  refine ⟨blk.cellAt ((y - blk.address) / PageSize), mem_flatMap.2 ⟨blk, hblk, cellAt_mem hi⟩, rfl, ?_, ?_⟩ <;>
    simp only [cellAt, PageSize] at * <;> omega

lemma inStep_iff {t : KPageTable} (hm : t.manager.Shaped) :
    t.InStep ↔ ∀ c ∈ t.manager.cells, ∀ y, c.pos ≤ y → y < c.pos + PageSize →
      t.applied y &&& IpcLockChangeMask = c.mid.permission &&& IpcLockChangeMask := by
  constructor
  · intro h c hc y hy hy'
    obtain ⟨blk, hblk, hmid, -, h1, h2⟩ := block_of_cell hm hc
    rw [h blk hblk y (by omega) (by omega), hmid]
    rfl
  · intro h blk hblk y hy hy'
    obtain ⟨c, hc, hmid, h1, h2⟩ := cell_of_block hblk hy hy'
    rw [h c hc y h1 h2, hmid]
    rfl

lemma covers_page {r : PageRange} (hr : r.address % PageSize = 0) {x y : ℕ} (hx : x % PageSize = 0) (hxy : x ≤ y)
    (hyx : y < x + PageSize) : r.Covers y ↔ r.Covers x := by
  simp only [PageRange.Covers, PageRange.endAddress, PageSize] at *
  omega

end Cells

/-! ## The state of a run -/

/-- A client with its outstanding buffers. -/
structure IpcState where
  table : KPageTable
  outstanding : Multiset IpcBuffer

/-- **The invariant of a run** that started with the pages `cs0`. -/
structure IpcInv (cs0 : List PageCell) (s : IpcState) : Prop where
  map : IpcMap cs0 s.outstanding s.table.manager
  inStep : s.table.InStep
  holds : ∀ b ∈ s.outstanding, Holds s.table.manager b ∧ ∃ test, testStateOf b.dstState = some test
  end_lt : s.table.manager.endAddress < 2 ^ 64

section Steps

variable {cs0 : List PageCell} {s : IpcState}

variable {test : KMemoryState × KMemoryAttribute} {b : IpcBuffer} {blk : KMemoryBlock} {t : KPageTable}

variable {m : KMemoryBlockManager}

lemma KPageTable.Holds.inRange (hm : m.Shaped) (h : Holds m b) (hfill : b.Fills) :
    m.InRange b.range.address b.range.numPages := by
  obtain ⟨h1, h2, h3⟩ := h.extents hm
  obtain ⟨h4, h5⟩ := b.aligned_le
  have hend := b.range_endAddress hfill
  have hfills : b.mappingSrcStart < b.mappingSrcEnd := hfill
  have hstart : b.range.address = b.mappingSrcStart := rfl
  rw [PageRange.endAddress] at hend
  exact ⟨b.range_aligned, by omega, by omega, by omega⟩

lemma passes_of_check (h : setupCheck b test blk = true) : Passes b test blk.props := by
  simp only [setupCheck, checkMemoryState, Bool.and_eq_true, beq_iff_eq] at h
  exact ⟨h.1.1, h.1.2, h.2⟩

lemma IpcInv.lock (h : IpcInv cs0 s)
    (hholds : Holds s.table.manager b) (hfill : b.Fills) (htest : testStateOf b.dstState = some test)
    (hdone : SetupDone s.table t b test) (hfit : CountsFit (ranges (b ::ₘ s.outstanding))) :
    ∃ m, t.manager.updateLock b.range.address b.range.numPages .lockForIpc b.srcPerm = some m ∧
      IpcInv cs0 ⟨{ t with manager := m }, b ::ₘ s.outstanding⟩ := by
  have hshaped := h.map.shaped
  obtain ⟨m, hupdate, hmap, hstart, hend, hcells⟩ := h.map.updateLock .lockForIpc b.srcPerm
    (hholds.inRange hshaped hfill) (b.range_pages hfill) (CellOp.lockForIpc b.srcPerm)
    (fun blk hs he => lockForIpc_cells hs he b.srcPerm)
    (fun c0 _ c hc hcell => hcell.lock hfill hfit htest fun hcovers => by
      obtain ⟨blk, hblk, hmid, -, h1, h2⟩ := block_of_cell hshaped hc
      rw [hmid]
      exact passes_of_check (hdone.check blk hblk c.pos h1 (by simp only [PageSize] at h2; omega) hcovers))
  refine ⟨m, by rw [hdone.manager]; exact hupdate, hmap, ?_, ?_, by simpa only [hend] using h.end_lt⟩
  · refine (inStep_iff hmap.shaped).2 fun c' hc' y hy hy' => ?_
    obtain ⟨c0, -, hcell'⟩ := hmap.exists_base hc'
    rw [hcells] at hc'
    obtain ⟨c, hc, rfl⟩ := mem_map.1 hc'
    obtain ⟨blk, hblk, hmid, haligned, h1, h2⟩ := block_of_cell hshaped hc
    have hold := (inStep_iff hshaped).1 h.inStep c hc y
    by_cases hin : b.range.Covers c.pos
    · have hpos : ((CellOp.lockForIpc b.srcPerm).onCell b.range.address b.range.endAddress c).pos = c.pos := by
        rw [CellOp.onCell_inside _ hin]
      rw [hpos] at hy hy'
      have hcovers := (covers_page b.range_aligned haligned hy hy').2 hin
      rw [hcell'.narrowed b (Multiset.mem_cons_self _ _) (by rw [hpos]; exact hin), b.narrow_srcPerm_and_mask]
      show t.applied y &&& IpcLockChangeMask = b.srcPerm
      rw [hdone.changed blk hblk y (by omega) (by omega) hcovers]
      split_ifs with hperm
      · exact b.srcPerm_and_mask
      · rw [hold hy hy', hmid]
        exact not_not.1 hperm
    · rw [CellOp.onCell_outside _ hin] at hy hy' ⊢
      have hcovers : ¬ b.range.Covers y := fun hc => hin ((covers_page b.range_aligned haligned hy hy').1 hc)
      show t.applied y &&& IpcLockChangeMask = _
      rw [hdone.frame y hcovers]
      exact hold hy hy'
  · have hkeep : ∀ q, Holds s.table.manager q → Holds m q := by
      intro q hq
      rw [Holds, hstart, hend]
      exact hq
    intro q hq
    rcases Multiset.mem_cons.1 hq with rfl | hq
    · exact ⟨hkeep q hholds, test, htest⟩
    · exact ⟨hkeep q (h.holds q hq).1, (h.holds q hq).2⟩

/-- A buffer without a full page locks nothing. -/
lemma ipcMap_cons_of_not_fills {bs : Multiset IpcBuffer} (hfill : ¬ b.Fills) :
    IpcMap cs0 (b ::ₘ bs) m ↔ IpcMap cs0 bs m := by
  have hiff : ∀ c0 c, IpcCell (b ::ₘ bs) c0 c ↔ IpcCell bs c0 c := fun c0 c =>
    ipcCell_cons_outside (b.not_covers hfill c.pos)
  constructor
  · rintro ⟨h1, h2, h3, h4⟩
    exact ⟨h1, h2, h3, h4.imp fun c0 c hc => (hiff c0 c).1 hc⟩
  · rintro ⟨h1, h2, h3, h4⟩
    exact ⟨h1, h2, h3, h4.imp fun c0 c hc => (hiff c0 c).2 hc⟩

lemma IpcInv.setup (h : IpcInv cs0 s) {σ : Type} {freeBlocks : ℕ} {server server' : σ}
    {setupForIpcServer : σ → Option (σ × Except KResult ℕ)} {t' : KPageTable} {address : ℕ}
    (hsetup : s.table.setupForIpc freeBlocks server setupForIpcServer b = some (t', server', .ok address))
    (hfit : CountsFit (ranges (b ::ₘ s.outstanding))) : IpcInv cs0 ⟨t', b ::ₘ s.outstanding⟩ := by
  have hshaped := h.map.shaped
  unfold setupForIpc at hsetup
  obtain ⟨⟨t, result⟩, hclient, hrest⟩ := Option.bind_eq_some_iff.1 hsetup
  cases result with
  | error e => cases hrest
  | ok n =>
    obtain ⟨hholds, test, htest, hdone⟩ := setupForIpcClient_ok hshaped h.map.start_lt_end h.end_lt hclient
    dsimp only at hrest
    by_cases hfree : freeBlocks < n
    · rw [if_pos hfree] at hrest
      cases hrest
    rw [if_neg hfree] at hrest
    obtain ⟨⟨server1, result⟩, -, hrest⟩ := Option.bind_eq_some_iff.1 hrest
    cases result with
    | error e => cases hrest
    | ok out =>
      dsimp only at hrest
      by_cases hfill : b.Fills
      · rw [if_pos (show b.mappingSrcStart < b.mappingSrcEnd from hfill)] at hrest
        obtain ⟨m, hupdate, hinv⟩ := h.lock hholds hfill htest hdone hfit
        have hlock : t.manager.updateLock b.mappingSrcStart ((b.mappingSrcEnd - b.mappingSrcStart) / PageSize)
            .lockForIpc b.srcPerm = some m := hupdate
        rw [hlock] at hrest
        obtain rfl : { t with manager := m } = t' := congrArg Prod.fst (Option.some.inj hrest)
        exact hinv
      · rw [if_neg (show ¬ b.mappingSrcStart < b.mappingSrcEnd from hfill)] at hrest
        obtain rfl : t = t' := congrArg Prod.fst (Option.some.inj hrest)
        have happlied : ∀ y, t.applied y = s.table.applied y := fun y =>
          hdone.frame y (b.not_covers hfill y)
        refine ⟨?_, ?_, ?_, ?_⟩
        · show IpcMap cs0 (b ::ₘ s.outstanding) t.manager
          rw [hdone.manager, ipcMap_cons_of_not_fills hfill]
          exact h.map
        · intro blk hblk y hy hy'
          show t.applied y &&& IpcLockChangeMask = _
          rw [happlied]
          exact h.inStep blk (hdone.manager ▸ hblk) y hy hy'
        · intro q hq
          show Holds t.manager q ∧ _
          rw [hdone.manager]
          rcases Multiset.mem_cons.1 hq with rfl | hq
          · exact ⟨hholds, test, htest⟩
          · exact h.holds q hq
        · show t.manager.endAddress < 2 ^ 64
          rw [hdone.manager]
          exact h.end_lt

/-! ## Cleanup -/

lemma IpcInv.filled (h : IpcInv cs0 s) (hb : b ∈ s.outstanding) (hfill : b.Fills)
    (hblk : blk ∈ s.table.manager.memoryBlockTree) (h1 : b.mappingSrcStart < blk.getEndAddress)
    (h2 : blk.address < b.mappingSrcEnd) : Filled s.table b blk := by
  refine ⟨hblk, ?_, ?_⟩
  · by_contra hlt
    have hle : blk.getEndAddress ≤ b.mappingSrcStart := h.map.block_starts hb hfill hblk (not_le.1 hlt)
    omega
  · have hend := b.range_endAddress hfill
    have hle := h.map.block_ends hb hfill hblk (by omega)
    omega

lemma IpcInv.filled_cell (h : IpcInv cs0 s) (hfill : b.Fills) (hblk : Filled s.table b blk) :
    ∃ c0 ∈ cs0, IpcCell s.outstanding c0 blk.firstCell ∧ b.range.Covers blk.firstCell.pos := by
  obtain ⟨hmem, h1, h2⟩ := hblk
  have hpos := numPages_pos h.map.shaped.tiles blk hmem
  have hlt := (h.map.shaped.tiles.bounds hmem).2.1
  have hend := b.range_endAddress hfill
  obtain ⟨c0, hc0, hcell⟩ := h.map.exists_base (mem_flatMap.2 ⟨blk, hmem, firstCell_mem hpos⟩)
  refine ⟨c0, hc0, hcell, ?_⟩
  show b.mappingSrcStart ≤ blk.address ∧ blk.address < b.range.endAddress
  omega

lemma IpcInv.cleanupReady (h : IpcInv cs0 s) (hb : b ∈ s.outstanding) (hfill : b.Fills) : CleanupReady s.table b where
  shaped := h.map.shaped
  inStep := h.inStep
  narrowed := fun blk hblk => by
    obtain ⟨c0, -, hcell, hcovers⟩ := h.filled_cell hfill hblk
    have hperm : blk.permission = narrow b.srcPerm c0.mid.permission := hcell.narrowed b hb hcovers
    rw [hperm, b.narrow_srcPerm_and_mask]
  ends := fun blk hblk hlt => by
    have hend := b.range_endAddress hfill
    have hle := h.map.block_ends hb hfill hblk (by omega)
    omega

private lemma locked_attr {a t : KMemoryAttribute} (h1 : a &&& IpcLocked = 0#8) (h2 : a &&& t = 0#8)
    (h3 : IpcLocked &&& t = 0#8) :
    (a ||| IpcLocked) &&& (t ||| IpcLocked) = IpcLocked := by
  rw [BitVec.and_or_distrib_left, BitVec.and_or_distrib_right, BitVec.and_or_distrib_right, h1, h2, h3, BitVec.or_zero,
    BitVec.zero_or, BitVec.zero_or, BitVec.and_self]

private lemma testStateOf_mask {dstState : KMemoryState}
    (h : testStateOf dstState = some test) : IpcLocked &&& test.2 = 0#8 := by
  unfold testStateOf at h
  split_ifs at h <;> obtain rfl := Option.some.inj h <;> decide

section

variable (h : IpcInv cs0 s) (hb : b ∈ s.outstanding) (hfill : b.Fills)
include h hb hfill

lemma IpcInv.cleanupCheck (htest : testStateOf b.dstState = some test)
    (hblk : Filled s.table b blk) : KPageTable.cleanupCheck test blk = true := by
  obtain ⟨c0, hc0, hcell, hcovers⟩ := h.filled_cell hfill hblk
  obtain ⟨test', htest', hpasses⟩ := hcell.passes b hb hcovers
  obtain rfl := Option.some.inj (htest.symm.trans htest')
  have hpos := covering_pos hb hcovers
  have hstate : blk.memoryState = c0.mid.memoryState := hcell.page.state
  have hattr : blk.attr = c0.mid.attr ||| IpcLocked := by
    have := hcell.page.attr
    rwa [flagIf, if_neg hpos.ne'] at this
  simp only [KPageTable.cleanupCheck, checkMemoryState, Bool.and_eq_true, beq_iff_eq]
  refine ⟨⟨?_, ?_⟩, ?_⟩
  · rw [hstate]
    exact hpasses.state
  · exact BitVec.and_zero
  · rw [hattr]
    exact locked_attr (h.map.unlocked c0 hc0).attr hpasses.attr (testStateOf_mask htest)

/-- **The assertions of the unlock do not fail**, and no block is split. -/
lemma IpcInv.unlockAsserts (ht : t.manager = s.table.manager) :
    t.unlockAsserts b.range.address b.range.numPages = true := by
  have hend := b.range_endAddress hfill
  rw [PageRange.endAddress] at hend
  simp only [KPageTable.unlockAsserts, all_eq_true, ht, hend]
  intro blk hmem
  have hstart : b.range.address = b.mappingSrcStart := rfl
  by_cases hbefore : blk.getEndAddress ≤ b.range.address
  · simp [hbefore]
  by_cases hafter : b.mappingSrcEnd ≤ blk.address
  · simp [hafter]
  have hblk := h.filled hb hfill hmem (by omega) (by omega)
  obtain ⟨-, h1, h2⟩ := id hblk
  obtain ⟨c0, hc0, hcell, hcovers⟩ := h.filled_cell hfill hblk
  obtain ⟨test, -, hpasses⟩ := hcell.passes b hb hcovers
  have hpos := covering_pos hb hcovers
  have hcount : blk.ipcLockCount = covering (ranges s.outstanding) blk.firstCell.pos := hcell.page.ipc
  have hattr : blk.attr &&& IpcLocked = IpcLocked := by
    have heq : blk.attr = _ := hcell.page.attr
    rw [heq, flagIf, if_neg hpos.ne', BitVec.and_or_distrib_right, (h.map.unlocked c0 hc0).attr]
    decide
  have horiginal : blk.originalPermission ≠ KMemoryPermission.None := by
    have heq : blk.originalPermission = _ := hcell.page.original
    rw [heq, if_neg hpos.ne']
    intro hnone
    have := hpasses.permission
    rw [hnone] at this
    exact b.testPerm_ne_zero (this.symm.trans BitVec.zero_and)
  have hleft : blk.address = b.range.address → 0 < blk.ipcDisableMergeCount := by
    intro heq
    have hmark : blk.ipcDisableMergeCount = starting (ranges s.outstanding) blk.address :=
      congrArg (·.2.1) hcell.left
    rw [hmark, heq, starting, Multiset.countP_pos]
    exact ⟨b.range, Multiset.mem_map.2 ⟨b, Multiset.mem_filter.2 ⟨hb, hfill⟩, rfl⟩, rfl⟩
  have hasserts : blk.unlockForIpcAsserts (blk.address == b.range.address) = true := by
    simp only [unlockForIpcAsserts, Bool.and_eq_true, Bool.or_eq_true, beq_iff_eq, decide_eq_true_eq, bne_iff_ne,
      Bool.not_eq_true', beq_eq_false_iff_ne]
    refine ⟨⟨⟨hattr, by omega⟩, .inr horiginal⟩, ?_⟩
    by_cases heq : blk.address = b.range.address
    · exact .inr (hleft heq)
    · exact .inl heq
  simp [hasserts, h2, hstart ▸ h1]

lemma IpcInv.unlock (hmanager : t.manager = s.table.manager)
    (hdone : ∀ blk, Filled s.table b blk → ∀ y, blk.address ≤ y → y < blk.getEndAddress →
      t.applied y &&& IpcLockChangeMask = unlockedPermission blk &&& IpcLockChangeMask)
    (huntouched : ∀ y, ¬ b.range.Covers y → t.applied y = s.table.applied y) :
    ∃ m, t.manager.updateLock b.range.address b.range.numPages .unlockForIpc KMemoryPermission.None = some m ∧
      IpcInv cs0 ⟨{ t with manager := m }, s.outstanding.erase b⟩ := by
  have hshaped := h.map.shaped
  have hholds := (h.holds b hb).1
  have hcons : b ::ₘ s.outstanding.erase b = s.outstanding := Multiset.cons_erase hb
  have hend := b.range_endAddress hfill
  obtain ⟨m, hupdate, hmap, hstart', hend', hcells⟩ := h.map.updateLock .unlockForIpc KMemoryPermission.None
    (hholds.inRange hshaped hfill) (b.range_pages hfill) CellOp.unlockForIpc
    (fun blk hs he => unlockForIpc_cells hs he)
    (fun c0 hc0 c _ hcell => IpcCell.unlock (hcons.symm ▸ hcell) (h.map.unlocked c0 hc0) hfill)
  refine ⟨m, by rw [hmanager]; exact hupdate, hmap, ?_, ?_, by simpa only [hend'] using h.end_lt⟩
  · refine (inStep_iff hmap.shaped).2 fun c' hc' y hy hy' => ?_
    have hc'' : c' ∈ m.cells := hc'
    rw [hcells] at hc''
    obtain ⟨c, hc, rfl⟩ := mem_map.1 hc''
    obtain ⟨blk, hblk, hmid, haligned, h1, h2⟩ := block_of_cell hshaped hc
    show t.applied y &&& IpcLockChangeMask = _
    by_cases hin : b.range.Covers c.pos
    · rw [CellOp.onCell_inside _ hin] at hy hy' ⊢
      obtain ⟨hle, hlt⟩ := hin
      have hle' : b.mappingSrcStart ≤ c.pos := hle
      have hfilled := h.filled hb hfill hblk (by simp only [PageSize] at h2; omega) (by omega)
      rw [hdone blk hfilled y (by dsimp only at hy; omega) (by dsimp only at hy'; omega)]
      simp only [CellOp.unlockForIpc, hmid, KMemoryBlock.props, unlockedPermission, beq_iff_eq]
    · rw [CellOp.onCell_outside _ hin] at hy hy' ⊢
      have hcovers : ¬ b.range.Covers y := fun hc => hin ((covers_page b.range_aligned haligned hy hy').1 hc)
      rw [huntouched y hcovers]
      exact (inStep_iff hshaped).1 h.inStep c hc y hy hy'
  · intro q hq
    have hq' := h.holds q (Multiset.mem_of_mem_erase hq)
    refine ⟨?_, hq'.2⟩
    show Holds m q
    rw [Holds, hstart', hend']
    exact hq'.1

/-- **The pages of an outstanding buffer are cleaned up.** -/
lemma IpcInv.cleanupPages (htest : testStateOf b.dstState = some test) :
    ∃ t, s.table.cleanupPages b.mappingSrcStart b.mappingSrcEnd test = some ⟨t, true, .ok ()⟩ ∧
      IpcInv cs0 ⟨t, s.outstanding.erase b⟩ := by
  have hshaped := h.map.shaped
  have hfills : b.mappingSrcStart < b.mappingSrcEnd := hfill
  obtain ⟨h1, h2, h3⟩ := (h.holds b hb).1.extents hshaped
  obtain ⟨h4, h5⟩ := b.aligned_le
  have hready := h.cleanupReady hb hfill
  obtain ⟨pre, cur, rest, htree, hfrom, htiles, hle, hlt, -⟩ :=
    blocksFrom_spec (a := b.mappingSrcStart) hshaped (by omega) (by omega)
  have hcur : Filled s.table b cur := h.filled hb hfill (by simp [htree]) hlt (by omega)
  have haddress : cur.address = b.mappingSrcStart := le_antisymm hle hcur.2.1
  have hgroup : GroupOk s.table b (firstGroup cur) s.table := by
    refine ⟨rfl, hcur, rfl, tiles_aligned hshaped.tiles hshaped.aligned cur hcur.1, ⟨hcur.2.1, htiles.2.1⟩, ?_, ?_, ?_⟩
    · intro blk hblk _ hbefore
      have hpos := (hshaped.tiles.bounds hblk.1).2.1
      have hstarts := hblk.2.1
      obtain rfl := hshaped.tiles.eq_of_mem hblk.1 le_rfl hpos hcur.1 (by omega) hbefore
      exact ⟨le_rfl, rfl, rfl, rfl⟩
    · intro blk hblk y hy _ hbefore
      have hstarts := hblk.2.1
      simp only [firstGroup] at hbefore
      omega
    · exact fun _ _ => rfl
  have hcheck : ∀ blk, Filled s.table b blk → KPageTable.cleanupCheck test blk = true := fun blk hblk =>
    h.cleanupCheck hb hfill htest hblk
  obtain ⟨g, next, t, hloop, hg, hgend⟩ := cleanupLoop_spec hready hcheck rest true hgroup
    (fun blk hblk => by simp [htree, hblk]) htiles.2.2 (by omega)
  obtain ⟨hmanager, hdone, huntouched⟩ := hg.reprotect hready
    (g.first || needsSetPerm g.curInfo || lastLockCount g.curInfo next == 1) (fun hneeds => by simp [hneeds])
  have hend := b.range_endAddress hfill
  obtain ⟨m, hupdate, hinv⟩ := h.unlock hb hfill hmanager
    (fun blk hblk y hy hy' => hdone blk hblk y hy hy' (by have := hblk.2.2; omega))
    (fun y hy => huntouched y (by
      by_contra hin
      refine hy ⟨?_, by omega⟩
      show b.mappingSrcStart ≤ y
      omega))
  have hasserts := h.unlockAsserts hb hfill hmanager
  refine ⟨_, ?_, hinv⟩
  rw [KPageTable.cleanupPages, hfrom]
  dsimp only
  rw [hcheck cur hcur, hloop]
  dsimp only
  rw [show (b.mappingSrcEnd - b.mappingSrcStart) / PageSize = b.range.numPages from rfl,
    show b.mappingSrcStart = b.range.address from rfl, hupdate, hasserts]
  rfl

end

/-- **`CleanupForIpcClient` for an outstanding buffer** succeeds, its assertions hold and it keeps the invariant. -/
lemma IpcInv.cleanup (h : IpcInv cs0 s) (hb : b ∈ s.outstanding) :
    ∃ t, s.table.cleanupForIpcClient b.address b.size b.dstState = some ⟨t, true, .ok ()⟩ ∧
      IpcInv cs0 ⟨t, s.outstanding.erase b⟩ := by
  obtain ⟨hholds, test, htest⟩ := h.holds b hb
  have hcontains : s.table.contains b.address b.size = true :=
    (contains_iff h.map.start_lt_end h.end_lt b).2 hholds
  have hcons : b ::ₘ s.outstanding.erase b = s.outstanding := Multiset.cons_erase hb
  rw [KPageTable.cleanupForIpcClient, hcontains, if_neg (by simp)]
  dsimp only
  by_cases hfill : b.Fills
  · have hfills : alignUp b.address < alignDown (b.address + b.size) := hfill
    rw [if_neg (not_not.2 hfills), htest]
    exact h.cleanupPages hb hfill htest
  · have hfills : ¬ alignUp b.address < alignDown (b.address + b.size) := hfill
    rw [if_pos hfills]
    refine ⟨s.table, rfl, ?_, h.inStep, fun q hq => h.holds q (Multiset.mem_of_mem_erase hq), h.end_lt⟩
    have hmap := h.map
    rw [← hcons, ipcMap_cons_of_not_fills hfill] at hmap
    exact hmap

end Steps

/-! ## Runs -/

/-- The steps of a run: a successful `SetupForIpc`, and a `CleanupForIpcClient` for an outstanding buffer.  The counters
of `LockForIpc` do not wrap around, as it asserts. -/
inductive IpcStep : IpcState → IpcState → Prop
  | setup {s : IpcState} {σ : Type} {freeBlocks : ℕ} {server server' : σ}
      {setupForIpcServer : σ → Option (σ × Except KResult ℕ)} {b : IpcBuffer} {t : KPageTable} {address : ℕ}
      (success : s.table.setupForIpc freeBlocks server setupForIpcServer b = some (t, server', .ok address))
      (fits : CountsFit (ranges (b ::ₘ s.outstanding))) : IpcStep s ⟨t, b ::ₘ s.outstanding⟩
  | cleanup {s : IpcState} {b : IpcBuffer} {out : CleanupOutcome} (outstanding : b ∈ s.outstanding)
      (cleaned : s.table.cleanupForIpcClient b.address b.size b.dstState = some out) :
      IpcStep s ⟨out.table, s.outstanding.erase b⟩

/-- A block map without pages that are locked for IPC: no lock count, attribute, flag or original permission is left.
Merge counts of devices have their flags. -/
structure Unlocked (m : KMemoryBlockManager) : Prop where
  ipc : ∀ blk ∈ m.memoryBlockTree, blk.ipcLockCount = 0 ∧ blk.ipcDisableMergeCount = 0
  attr : ∀ blk ∈ m.memoryBlockTree, blk.attr &&& IpcLocked = KMemoryAttribute.None
  original : ∀ blk ∈ m.memoryBlockTree, blk.originalPermission = KMemoryPermission.None
  flags : ∀ blk ∈ m.memoryBlockTree, blk.disableMergeAttribute &&& IpcLeft = 0#8
  marked : ∀ blk ∈ m.memoryBlockTree, blk.Marked

section Run

variable {m0 : KMemoryBlockManager}

lemma Unlocked.cell (h : Unlocked m0) {c : PageCell} (hc : c ∈ m0.cells) : UnlockedCell c ∧ IpcCell 0 c c := by
  obtain ⟨blk, hblk, hcell⟩ := mem_flatMap.1 hc
  obtain ⟨i, -, rfl⟩ := Run.mem_cells hcell
  obtain ⟨hcount, hmerge⟩ := h.ipc blk hblk
  have hmarked := h.marked blk hblk
  have hzero : ∀ x, starting (ranges 0) x = 0 ∧ covering (ranges 0) x = 0 := fun _ => ⟨rfl, rfl⟩
  refine ⟨⟨h.attr blk hblk, ?_, ⟨?_, ?_⟩⟩, rfl, ?_, ?_, rfl, fun b hb => absurd hb (Multiset.notMem_zero b),
    fun b hb => absurd hb (Multiset.notMem_zero b)⟩
  · dsimp only
    split_ifs
    · have hflag := h.flags blk hblk
      show blk.disableMergeAttribute &&& AllLeft &&& IpcLeft = 0#8
      rw [BitVec.and_assoc]
      exact hflag
    · rfl
  · dsimp only
    split_ifs
    · exact hmarked.left
    · exact fun _ => rfl
  · dsimp only
    split_ifs
    · exact hmarked.right
    · exact fun _ => rfl
  · refine ⟨rfl, rfl, hcount, ?_, h.original blk hblk, fun _ => rfl⟩
    simp [(hzero _).2, flagIf]
  · simp only [(hzero _).1, flagIf]
    split_ifs
    · simp [toRun, hmerge]
    · rfl

lemma ipcInv_of_run {t0 : KPageTable} (hm : t0.manager.WellFormed) (hunlocked : Unlocked t0.manager)
    (h64 : t0.manager.endAddress < 2 ^ 64) (hstep : t0.InStep) {s : IpcState}
    (hrun : Relation.ReflTransGen IpcStep ⟨t0, 0⟩ s) : IpcInv t0.manager.cells s := by
  induction hrun with
  | refl =>
    refine ⟨⟨hm.toShaped, hm.start_lt_end, fun c hc => (hunlocked.cell hc).1, ?_⟩, hstep,
      fun b hb => absurd hb (Multiset.notMem_zero b), h64⟩
    exact forall₂_same.2 fun c hc => (hunlocked.cell hc).2
  | tail _ hlast ih =>
    cases hlast with
    | setup success fits => exact ih.setup success fits
    | cleanup outstanding cleaned =>
      obtain ⟨t, hcleaned, hinv⟩ := ih.cleanup outstanding
      obtain rfl := Option.some.inj (hcleaned.symm.trans cleaned)
      exact hinv

end Run

section Instances

/-- A client with four pages that it can read and write. -/
def fourPages : KPageTable where
  manager :=
    { memoryBlockTree :=
        [initializeBlock 0 4 KMemoryState.Normal KMemoryPermission.UserReadWrite KMemoryAttribute.None]
      startAddress := 0
      endAddress := 0x4000 }
  applied := fun _ => KMemoryPermission.UserReadWrite

lemma fourPages_wellFormed : fourPages.manager.WellFormed := by
  refine ⟨⟨rfl, ⟨rfl, by decide, rfl⟩, ?_⟩, by decide, ?_⟩
  · exact isChain_singleton _
  · intro blk hblk
    obtain rfl := mem_singleton.1 hblk
    exact ⟨by decide, by decide, by decide, by decide⟩

lemma fourPages_inStep : fourPages.InStep := by
  intro blk hblk x _ _
  obtain rfl := mem_singleton.1 hblk
  rfl

/-- A buffer over the end of page 0, pages 1 and 2, and the start of page 3. -/
def sentBuffer : IpcBuffer := ⟨0xF00, 0x2200, .send, KMemoryState.Ipc, by decide⟩

end Instances

end Voltemu.Kernel
