import Voltemu.Kernel.Memory.PageView
import Voltemu.Lib.RunLength

/-!
# The memory map as a row of cells

A block is a run of pages with marks on its two ends: the merge flags and merge counters.  Spelled
out page by page (`cells`), the map no longer depends on where its blocks are cut.

* `split_cells`, `add_cells` — splitting keeps the cells, and so does merging, as long as a block
  without a merge flag has no merge count either (`Marked`).
* `updateRange_cells` — an operation that touches every block of its range maps one function over
  the cells.
* `blocks_eq_of_cells_eq` — a coalesced list of blocks is determined by its cells.
-/

namespace Voltemu.Kernel

open Tiling RunLength List
open KMemoryBlockDisableMergeAttribute (DeviceLeft DeviceRight IpcLeft AllLeft AllRight)

/-- What the left end of a block carries: its left merge flags, `m_ipc_disable_merge_count` and
`m_device_disable_merge_left_count`. -/
abbrev LeftMark := BitVec 8 × ℕ × ℕ

/-- What the right end carries: its right merge flag and `m_device_disable_merge_right_count`. -/
abbrev RightMark := BitVec 8 × ℕ

abbrev PageCell := Cell PageProps LeftMark RightMark

namespace KMemoryBlock

def toRun (b : KMemoryBlock) : Run PageProps LeftMark RightMark where
  start := b.address
  len := b.numPages
  mid := b.props
  left := (b.disableMergeAttribute &&& AllLeft, b.ipcDisableMergeCount, b.deviceDisableMergeLeftCount)
  right := (b.disableMergeAttribute &&& AllRight, b.deviceDisableMergeRightCount)

def cells (b : KMemoryBlock) : List PageCell := b.toRun.cells PageSize

variable {b : KMemoryBlock}

lemma mem_cells_bounds {c : PageCell} (h : c ∈ b.cells) : b.address ≤ c.pos ∧ c.pos < b.getEndAddress := by
  obtain ⟨i, hi, rfl⟩ := Run.mem_cells h
  simp only [toRun, getEndAddress, getSize, PageSize] at *
  omega

def cellAt (b : KMemoryBlock) (i : ℕ) : PageCell where
  pos := b.address + i * PageSize
  mid := b.props
  left := if i = 0 then b.toRun.left else 0
  right := if i + 1 = b.numPages then b.toRun.right else 0

lemma cellAt_mem {i : ℕ} (h : i < b.numPages) : b.cellAt i ∈ b.cells :=
  mem_map.2 ⟨i, mem_range.2 h, rfl⟩

def firstCell (b : KMemoryBlock) : PageCell where
  pos := b.address
  mid := b.props
  left := b.toRun.left
  right := if 1 = b.numPages then b.toRun.right else 0

def lastCell (b : KMemoryBlock) : PageCell where
  pos := b.address + (b.numPages - 1) * PageSize
  mid := b.props
  left := if b.numPages - 1 = 0 then b.toRun.left else 0
  right := b.toRun.right

lemma firstCell_mem (h : 0 < b.numPages) : b.firstCell ∈ b.cells := by
  have hcell : b.firstCell = b.cellAt 0 := by simp [firstCell, cellAt]
  exact hcell ▸ cellAt_mem h

lemma lastCell_mem (h : 0 < b.numPages) : b.lastCell ∈ b.cells := by
  have hcell : b.lastCell = b.cellAt (b.numPages - 1) := by
    simp [lastCell, cellAt, Nat.sub_add_cancel h]
  exact hcell ▸ cellAt_mem (Nat.sub_lt h one_pos)

/-! ## Splitting -/

private lemma allLeft_allRight (f : BitVec 8) : f &&& AllLeft &&& AllRight = 0 := by
  rw [BitVec.and_assoc]
  simp [AllLeft, AllRight]

private lemma allRight_allLeft (f : BitVec 8) : f &&& AllRight &&& AllLeft = 0 := by
  rw [BitVec.and_assoc]
  simp [AllLeft, AllRight]

private lemma allLeft_allLeft (f : BitVec 8) : f &&& AllLeft &&& AllLeft = f &&& AllLeft := by
  rw [BitVec.and_assoc, BitVec.and_self]

private lemma allRight_allRight (f : BitVec 8) : f &&& AllRight &&& AllRight = f &&& AllRight := by
  rw [BitVec.and_assoc, BitVec.and_self]

lemma split_cells {a : ℕ} (hb : b.address % PageSize = 0)
    (ha : a % PageSize = 0) (hlt : b.address < a) (hgt : a < b.getEndAddress) :
    b.cells = (b.split a).1.cells ++ (b.split a).2.cells := by
  obtain ⟨k, hk, rfl⟩ : ∃ k, 0 < k ∧ a = b.address + k * PageSize := by
    refine ⟨(a - b.address) / PageSize, ?_, ?_⟩ <;> simp only [PageSize] at * <;> omega
  obtain ⟨n, hn, hpages⟩ : ∃ n, 0 < n ∧ b.numPages = k + n := by
    refine ⟨b.numPages - k, ?_, ?_⟩ <;>
      simp only [getEndAddress, getSize, PageSize] at * <;> omega
  have hcut := Run.cells_add PageSize b.address k n b.props b.toRun.left b.toRun.right hk hn
  have hwhole : b.toRun = ⟨b.address, k + n, b.props, b.toRun.left, b.toRun.right⟩ := by
    rw [← hpages]
    rfl
  have hfst : (b.split (b.address + k * PageSize)).1.toRun = ⟨b.address, k, b.props, b.toRun.left, 0⟩ := by
    simp [toRun, split, props, allLeft_allLeft, allLeft_allRight]
  have hsnd : (b.split (b.address + k * PageSize)).2.toRun
      = ⟨b.address + k * PageSize, n, b.props, 0, b.toRun.right⟩ := by
    simp [toRun, split, hpages, props, allRight_allRight, allRight_allLeft]
  rw [cells, cells, cells, hwhole, hfst, hsnd, hcut]

lemma parts_cells {s e : ℕ} (hb : b.address % PageSize = 0)
    (hs : s % PageSize = 0) (he : e % PageSize = 0) (hmeets : b.Meets s e) :
    b.cells = (b.headPart s).flatMap cells ++ (b.clip s e).cells ++ (b.tailPart s e).flatMap cells := by
  have hfrom : b.cells = (b.headPart s).flatMap cells ++ (b.fromStart s).cells := by
    rcases le_or_gt s b.address with hle | hlt
    · simp [headPart_of_le hle, fromStart_of_le hle]
    · simp [headPart_of_lt hlt, fromStart_of_lt hlt, ← split_cells hb hs hlt hmeets.2.1]
  have hrest : (b.fromStart s).cells = (b.clip s e).cells ++ (b.tailPart s e).flatMap cells := by
    rw [clip, tailPart]
    split_ifs with hlt
    · have haddr := fromStart_address (b := b) (s := s)
      have haligned : (b.fromStart s).address % PageSize = 0 := by
        rw [haddr]
        rcases max_choice b.address s with h | h <;> rw [h] <;> assumption
      have hbefore : (b.fromStart s).address < e := by
        rw [haddr]
        exact max_lt hmeets.1 hmeets.2.2
      rw [flatMap_singleton]
      refine split_cells haligned he hbefore ?_
      rwa [fromStart_getEndAddress hb hs hmeets]
    · simp
  rw [hfrom, hrest, append_assoc]

/-! ## Merging -/

/-- A block without a merge flag at an end has no merge count there. -/
structure Marked (b : KMemoryBlock) : Prop where
  left : b.toRun.left.1 = 0 → b.toRun.left = 0
  right : b.toRun.right.1 = 0 → b.toRun.right = 0

/-- The same of a single page. -/
structure MarkedCell (c : PageCell) : Prop where
  left : c.left.1 = 0 → c.left = 0
  right : c.right.1 = 0 → c.right = 0

lemma marked_of_cells (hpos : 0 < b.numPages) (h : ∀ c ∈ b.cells, MarkedCell c) : b.Marked :=
  ⟨(h _ (firstCell_mem hpos)).left, (h _ (lastCell_mem hpos)).right⟩

lemma canMergeWith_iff_fused {b c : KMemoryBlock} (hb : b.Marked) (hc : c.Marked) :
    b.canMergeWith c = true ↔ Fused b.toRun c.toRun := by
  rw [canMergeWith_iff, hasSameProperties_iff_props]
  constructor
  · rintro ⟨hprops, hright, hleft⟩
    exact ⟨hprops, hb.right hright, hc.left hleft⟩
  · rintro ⟨hprops, hright, hleft⟩
    exact ⟨hprops, congrArg (·.1) hright, congrArg (·.1) hleft⟩

lemma add_toRun {b c : KMemoryBlock} (h : b.canMergeWith c = true) :
    (b.add c).toRun = ⟨b.address, b.numPages + c.numPages, b.props, b.toRun.left, c.toRun.right⟩ := by
  rw [toRun, add_allLeft h, add_allRight h]
  rfl

lemma add_marked {b c : KMemoryBlock} (hb : b.Marked) (hc : c.Marked)
    (h : b.canMergeWith c = true) : (b.add c).Marked := by
  constructor <;> rw [add_toRun h]
  · exact hb.left
  · exact hc.right

lemma add_cells {b c : KMemoryBlock} (hb : b.Marked) (hc : c.Marked)
    (h : b.canMergeWith c = true) (hmeet : b.getEndAddress = c.address) (hbpos : 0 < b.numPages)
    (hcpos : 0 < c.numPages) : (b.add c).cells = b.cells ++ c.cells := by
  obtain ⟨hmid, hright, hleft⟩ := (canMergeWith_iff_fused hb hc).1 h
  have hb' : b.toRun = ⟨b.address, b.numPages, b.props, b.toRun.left, 0⟩ := by
    rw [← hright]
    rfl
  have hc' : c.toRun = ⟨b.address + b.numPages * PageSize, c.numPages, b.props, 0, c.toRun.right⟩ := by
    rw [← hleft, show b.props = c.props from hmid]
    exact Run.ext hmeet.symm rfl rfl rfl rfl
  rw [cells, cells, cells, add_toRun h, hc', hb', Run.cells_add _ _ _ _ _ _ _ hbpos hcpos]

/-- No bit of the merge flags is set beyond the named ones. -/
def NamedFlags (b : KMemoryBlock) : Prop :=
  b.disableMergeAttribute = (b.disableMergeAttribute &&& AllLeft) |||
    (b.disableMergeAttribute &&& AllRight)

def ofRun (r : Run PageProps LeftMark RightMark) : KMemoryBlock where
  deviceDisableMergeLeftCount := r.left.2.2
  deviceDisableMergeRightCount := r.right.2
  address := r.start
  numPages := r.len
  memoryState := r.mid.memoryState
  ipcLockCount := r.mid.ipcLockCount
  deviceUseCount := r.mid.deviceUseCount
  ipcDisableMergeCount := r.left.2.1
  permission := r.mid.permission
  originalPermission := r.mid.originalPermission
  attr := r.mid.attr
  disableMergeAttribute := r.left.1 ||| r.right.1

lemma ofRun_toRun (hb : b.NamedFlags) : ofRun b.toRun = b := by
  rw [ofRun, toRun, ← hb]
  rfl

end KMemoryBlock

namespace KMemoryBlockManager

open KMemoryBlock

def cells (m : KMemoryBlockManager) : List PageCell := m.memoryBlockTree.flatMap KMemoryBlock.cells

lemma coalesceLoop_cells {limit x y : ℕ} {prev : KMemoryBlock} {rest : List KMemoryBlock}
    (htiles : BlockTiles x (prev :: rest) y) (h : ∀ b ∈ prev :: rest, b.Marked) :
    (coalesceLoop limit prev rest).flatMap KMemoryBlock.cells = (prev :: rest).flatMap KMemoryBlock.cells := by
  induction rest generalizing x prev with
  | nil => rfl
  | cons it rest ih =>
    obtain ⟨hprev, hit, hrest⟩ : prev.Marked ∧ it.Marked ∧ ∀ b ∈ rest, b.Marked := by
      simpa using h
    have hpos := numPages_pos htiles
    have hadd : prev.canMergeWith it = true →
        (prev.add it).cells ++ rest.flatMap KMemoryBlock.cells = (prev :: it :: rest).flatMap KMemoryBlock.cells := by
      intro hmerge
      rw [add_cells hprev hit hmerge htiles.2.2.1.symm (hpos prev (by simp))
        (hpos it (by simp))]
      simp
    rw [coalesceLoop]
    split_ifs with hmerge
    · exact hadd hmerge
    · rw [ih (add_tiles htiles)]
      · exact hadd hmerge
      · simpa using ⟨add_marked hprev hit hmerge, hrest⟩
    · rfl
    · rw [flatMap_cons, ih htiles.2.2 (by simpa using ⟨hit, hrest⟩)]
      rfl

section RangeOperation

variable {upd : KMemoryBlock → KMemoryBlock} {g : PageCell → PageCell} {s e : ℕ}
  (hout : ∀ c : PageCell, ¬ (s ≤ c.pos ∧ c.pos < e) → g c = c)
include hout

lemma map_outside {cs : List PageCell} (h : ∀ c ∈ cs, ¬ (s ≤ c.pos ∧ c.pos < e)) : cs.map g = cs := by
  conv_rhs => rw [← map_id cs]
  exact map_congr_left fun c hc => hout c (h c hc)

lemma rewriteBlock_cells {b : KMemoryBlock} (hb : b.address % PageSize = 0)
    (hs : s % PageSize = 0) (he : e % PageSize = 0)
    (hupd : b.Meets s e → (upd (b.clip s e)).cells = (b.clip s e).cells.map g) :
    (b.rewriteBlock (fun _ => false) upd s e).flatMap KMemoryBlock.cells = b.cells.map g := by
  by_cases h : b.Meets s e
  · have hhead : ∀ c ∈ (b.headPart s).flatMap KMemoryBlock.cells, ¬ (s ≤ c.pos ∧ c.pos < e) := by
      intro c hc
      obtain ⟨d, hd, hcd⟩ := mem_flatMap.1 hc
      have h1 := (headPart_tiles hb hs).bounds hd
      have h2 := mem_cells_bounds hcd
      omega
    have htail : ∀ c ∈ (b.tailPart s e).flatMap KMemoryBlock.cells, ¬ (s ≤ c.pos ∧ c.pos < e) := by
      intro c hc
      obtain ⟨d, hd, hcd⟩ := mem_flatMap.1 hc
      have h1 := (tailPart_tiles hb hs he h).bounds hd
      have h2 := mem_cells_bounds hcd
      omega
    rw [rewriteBlock_of_touched ⟨h, rfl⟩, parts_cells hb hs he h, map_append,
      map_append, map_outside hout hhead, map_outside hout htail, flatMap_append,
      flatMap_cons, hupd h, append_assoc]
  · rw [rewriteBlock_of_untouched (by simp [h]), flatMap_singleton]
    refine (map_outside hout fun c hc hin => h ?_).symm
    have := mem_cells_bounds hc
    exact ⟨by omega, by omega, by omega⟩

end RangeOperation

variable {m m' : KMemoryBlockManager}

/-- **A completed operation that skips nothing maps its function over the pages.** -/
lemma updateRange_cells {upd : KMemoryBlock → KMemoryBlock} {g : PageCell → PageCell}
    {address numPages : ℕ} (hm : m.Shaped)
    (hr : m.InRange address numPages) (haddr : ∀ c, (upd c).address = c.address)
    (hend : ∀ c, (upd c).getEndAddress = c.getEndAddress)
    (hout : ∀ c : PageCell, ¬ (address ≤ c.pos ∧ c.pos < address + numPages * PageSize) → g c = c)
    (hupd : ∀ b : KMemoryBlock, 0 < b.numPages → address ≤ b.address →
      b.getEndAddress ≤ address + numPages * PageSize → (∀ c ∈ b.cells, c ∈ m.cells) →
      (upd b).cells = b.cells.map g)
    (hmark : ∀ c ∈ m.cells, MarkedCell (g c))
    (hop : updateRange (fun _ => false) upd m address numPages = some m') :
    m'.cells = m.cells.map g := by
  rw [updateRange_eq hm hr, Option.map_eq_some_iff] at hop
  obtain ⟨out, hout', rfl⟩ := hop
  have htiles := rewritten_tiles (fun _ => false) hm hr haddr hend
  have hend_aligned : (address + numPages * PageSize) % PageSize = 0 := by
    have := hr.aligned
    simp only [PageSize] at *
    omega
  have hclip : ∀ b ∈ m.memoryBlockTree, b.Meets address (address + numPages * PageSize) →
      (upd (b.clip address (address + numPages * PageSize))).cells
        = (b.clip address (address + numPages * PageSize)).cells.map g := by
    intro b hb hmeets
    have hb' := tiles_aligned hm.tiles hm.aligned b hb
    have hbpos := (hm.tiles.bounds hb).2.1
    have hclipaddr := clip_address (b := b) (s := address) (address + numPages * PageSize)
    have hclipend := clip_getEndAddress hb' hr.aligned hend_aligned hmeets
    refine hupd _ ?_ (by omega) (by omega) ?_
    · obtain ⟨h1, h2, h3⟩ := hmeets
      have hlt : (b.clip address (address + numPages * PageSize)).address
          < (b.clip address (address + numPages * PageSize)).getEndAddress := by omega
      by_contra hzero
      have hzero' := Nat.eq_zero_of_not_pos hzero
      simp [getEndAddress, getSize, hzero'] at hlt
    · intro c hc
      refine mem_flatMap.2 ⟨b, hb, ?_⟩
      rw [parts_cells hb' hr.aligned hend_aligned hmeets]
      simp [hc]
  have hcells : (m.memoryBlockTree.flatMap (rewriteBlock (fun _ => false) upd address
      (address + numPages * PageSize))).flatMap KMemoryBlock.cells = m.cells.map g := by
    rw [flatMap_assoc, cells, map_flatMap]
    refine flatMap_congr fun b hb => ?_
    exact rewriteBlock_cells hout (tiles_aligned hm.tiles hm.aligned b hb) hr.aligned hend_aligned (hclip b hb)
  obtain ⟨pre, prev, rest, hblocks, rfl⟩ := coalesceForUpdate_loop hout'
  rw [hblocks] at htiles hcells
  have hmarked : ∀ b ∈ pre ++ prev :: rest, b.Marked := by
    intro b hb
    refine marked_of_cells (numPages_pos htiles b hb) fun c hc => ?_
    have hmem : c ∈ m.cells.map g := hcells ▸ mem_flatMap.2 ⟨b, hb, hc⟩
    obtain ⟨d, hd, rfl⟩ := mem_map.1 hmem
    exact hmark d hd
  obtain ⟨y, -, hrest⟩ := tiles_append.1 htiles
  rw [← hcells, cells, flatMap_append, flatMap_append, coalesceLoop_cells hrest]
  exact fun b hb => hmarked b (mem_append_right _ hb)

/-- **Canonical form.**  Two coalesced maps with the same pages, whose flags are all named, have
the same blocks. -/
lemma blocks_eq_of_cells_eq (hm : m.Shaped) (hm' : m'.Shaped)
    (hmark : ∀ c ∈ m.cells, MarkedCell c) (hcells : m'.cells = m.cells)
    (hflags : ∀ b ∈ m.memoryBlockTree, b.NamedFlags)
    (hflags' : ∀ b ∈ m'.memoryBlockTree, b.NamedFlags) :
    m'.memoryBlockTree = m.memoryBlockTree := by
  have hcan : ∀ {n : KMemoryBlockManager}, n.Shaped → n.cells = m.cells →
      (n.memoryBlockTree.map toRun).IsChain fun a b => ¬ Fused a b := by
    intro n hn hncells
    have hmarked : ∀ b ∈ n.memoryBlockTree, b.Marked := fun b hb =>
      marked_of_cells (numPages_pos hn.tiles b hb) fun c hc =>
        hmark c (hncells ▸ mem_flatMap.2 ⟨b, hb, hc⟩)
    rw [isChain_map]
    refine hn.coalesced.imp_of_mem_imp fun b c hb hc hbc => ?_
    rw [← canMergeWith_iff_fused (hmarked b hb) (hmarked c hc)]
    simpa using hbc
  have hpos : ∀ {n : KMemoryBlockManager}, n.Shaped → ∀ r ∈ n.memoryBlockTree.map toRun, 0 < r.len := by
    intro n hn r hr
    obtain ⟨b, hb, rfl⟩ := mem_map.1 hr
    exact numPages_pos hn.tiles b hb
  have hruns : m'.memoryBlockTree.map toRun = m.memoryBlockTree.map toRun := by
    refine cells_injective PageSize (hpos hm') (hpos hm) (hcan hm' hcells) (hcan hm rfl) ?_
    rw [flatMap_map, flatMap_map]
    exact hcells
  have hback : ∀ {blocks : List KMemoryBlock}, (∀ b ∈ blocks, b.NamedFlags) → (blocks.map toRun).map ofRun = blocks := by
    intro blocks hnamed
    rw [map_map]
    conv_rhs => rw [← map_id blocks]
    exact map_congr_left fun b hb => ofRun_toRun (hnamed b hb)
  rw [← hback hflags', ← hback hflags, hruns]

end KMemoryBlockManager

end Voltemu.Kernel
