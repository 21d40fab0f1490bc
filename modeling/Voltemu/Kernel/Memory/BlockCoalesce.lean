import Voltemu.Kernel.Memory.BlockWalk

/-!
# Coalescing, and the shape of the map after a range operation

After the walk the only neighbours that may have become mergeable start inside the window
`[address, address + size]` (`WindowRel`).  `CoalesceForUpdate` walks that window, so it ends with
no mergeable neighbours at all (`coalesceLoop_coalesced`).

One thing can go wrong.  The function steps back one block whenever `address` is not the start of
the map, and there is no block to step back to when the block over `address` is the first one.
The walk leaves it in that position exactly when it passes over the first block and `address` lies
strictly inside it: `LosesIterator`.  `updateRange_eq_none_iff` and `updateRange_shape` settle the
two cases.
-/

namespace Voltemu.Kernel.KMemoryBlockManager

open Tiling KMemoryBlock List

/-- No two neighbours can be merged. -/
abbrev Coalesced (blocks : List KMemoryBlock) : Prop :=
  blocks.IsChain fun b c => b.canMergeWith c = false

/-- Neighbours that can be merged start at or before `limit`. -/
abbrev CoalescedPast (limit : ℕ) (blocks : List KMemoryBlock) : Prop :=
  blocks.IsChain fun b c => b.canMergeWith c = true → c.address ≤ limit

/-! ## The loop -/

variable {rest : List KMemoryBlock} {b : KMemoryBlock}

variable {limit y x a : ℕ}

lemma coalesced_of_past (htiles : BlockTiles b.getEndAddress rest y) (hlimit : limit < b.getEndAddress)
    (h : CoalescedPast limit (b :: rest)) : Coalesced (b :: rest) := by
  refine h.imp_of_mem_tail_imp fun x c _ hc hxc => ?_
  by_contra hmerge
  have hle := hxc (by simpa using hmerge)
  have := (htiles.bounds hc).1
  omega

lemma coalesceLoop_head (limit : ℕ) (prev : KMemoryBlock) (rest : List KMemoryBlock) :
    ∃ b out, coalesceLoop limit prev rest = b :: out ∧ LeftAlike b prev ∧ b.address = prev.address := by
  induction rest generalizing prev with
  | nil => exact ⟨prev, [], rfl, fun _ => rfl, rfl⟩
  | cons it rest ih =>
    rw [coalesceLoop]
    split_ifs with hmerge hlimit hlimit
    · exact ⟨prev.add it, rest, rfl, add_leftAlike hmerge, rfl⟩
    · obtain ⟨b, out, hout, halike, haddr⟩ := ih (prev.add it)
      refine ⟨b, out, hout, fun x => ?_, haddr⟩
      rw [halike, add_leftAlike hmerge]
    · exact ⟨prev, it :: rest, rfl, fun _ => rfl, rfl⟩
    · exact ⟨prev, coalesceLoop limit it rest, rfl, fun _ => rfl, rfl⟩

variable {prev : KMemoryBlock}

lemma add_tiles {it : KMemoryBlock} (h : BlockTiles x (prev :: it :: rest) y) : BlockTiles x (prev.add it :: rest) y := by
  obtain ⟨hx, hpos, hit, hitpos, hrest⟩ := h
  have hend : (prev.add it).getEndAddress = it.getEndAddress := add_getEndAddress hit.symm
  exact ⟨hx, by rw [hend]; omega, by rw [hend]; exact hrest⟩

lemma coalesceLoop_tiles (h : BlockTiles x (prev :: rest) y) : BlockTiles x (coalesceLoop limit prev rest) y := by
  induction rest generalizing x prev with
  | nil => exact h
  | cons it rest ih =>
    rw [coalesceLoop]
    split_ifs
    · exact add_tiles h
    · exact ih (add_tiles h)
    · exact h
    · exact ⟨h.1, h.2.1, ih h.2.2⟩

/-- **The loop leaves nothing to merge**, if nothing past `limit` was mergeable before it. -/
lemma coalesceLoop_coalesced (htiles : BlockTiles x (prev :: rest) y) (h : CoalescedPast limit (prev :: rest)) :
    Coalesced (coalesceLoop limit prev rest) := by
  induction rest generalizing x prev with
  | nil => exact isChain_singleton _
  | cons it rest ih =>
    obtain ⟨-, -, hit, hitpos, hrest⟩ := id htiles
    obtain ⟨-, hpast⟩ := isChain_cons_cons.1 h
    rw [coalesceLoop]
    split_ifs with hmerge hlimit hlimit
    · have hend := add_getEndAddress hit.symm
      refine coalesced_of_past (by rw [hend]; exact hrest) hlimit ?_
      exact hpast.imp_head fun {z} hz hmz => hz (by rwa [add_rightAlike hmerge] at hmz)
    · refine ih (add_tiles htiles) ?_
      exact hpast.imp_head fun {z} hz hmz => hz (by rwa [add_rightAlike hmerge] at hmz)
    · exact isChain_cons_cons.2 ⟨by simpa using hmerge, coalesced_of_past hrest hlimit hpast⟩
    · obtain ⟨b, out, hout, halike, -⟩ := coalesceLoop_head limit it rest
      have hrec := ih ⟨hit, hitpos, hrest⟩ hpast
      rw [hout] at hrec ⊢
      exact isChain_cons_cons.2 ⟨by rw [halike]; simpa using hmerge, hrec⟩

/-! ## `FindIterator` -/

lemma compareKey_ne_zero_iff (hpos : b.address < b.getEndAddress) :
    (compareKey a b != 0) = true ↔ a < b.address ∨ b.getEndAddress ≤ a := by
  have hlast : b.getLastAddress = b.getEndAddress - 1 := rfl
  rw [compareKey]
  split_ifs with h1 h2
  · simp [h1]
  · simp only [bne_self_eq_false, Bool.false_eq_true, false_iff]
    omega
  · simp only [Int.reduceBNe, true_iff]
    omega

variable {blocks : List KMemoryBlock}

lemma findIterator_eq {pre post : List KMemoryBlock}
    (htiles : BlockTiles x blocks y) (hblocks : blocks = pre ++ b :: post) (hle : b.address ≤ a)
    (hlt : a < b.getEndAddress) (hpre : ∀ c ∈ pre, c.getEndAddress ≤ a) :
    findIterator blocks a = (pre, b :: post) := by
  have hb : ¬ (fun c => compareKey a c != 0) b = true := by
    have hpos := (htiles.bounds (b := b) (by simp [hblocks])).2.1
    rw [compareKey_ne_zero_iff hpos]
    omega
  have hpass : ∀ c ∈ pre, (fun c => compareKey a c != 0) c = true := by
    intro c hc
    have hpos := (htiles.bounds (b := c) (by simp [hblocks, hc])).2.1
    exact (compareKey_ne_zero_iff hpos).2 (Or.inr (hpre c hc))
  rw [findIterator, hblocks, takeWhile_append_of_pos hpass, dropWhile_append_of_pos hpass,
    takeWhile_cons_of_neg (p := fun c => compareKey a c != 0) hb,
    dropWhile_cons_of_neg (p := fun c => compareKey a c != 0) hb, append_nil]

lemma findIterator_inside (htiles : BlockTiles x blocks y) (hxa : x ≤ a) (hay : a < y) :
    ∃ pre b post, findIterator blocks a = (pre, b :: post) ∧ blocks = pre ++ b :: post ∧
      b.address ≤ a ∧ a < b.getEndAddress ∧ ∀ c ∈ pre, c.getEndAddress ≤ a := by
  obtain ⟨pre, b, post, hblocks, hle, hlt, hpre⟩ := htiles.exists_cover hxa hay
  exact ⟨pre, b, post, findIterator_eq htiles hblocks hle hlt hpre, hblocks, hle, hlt, hpre⟩

/-! ## `CoalesceForUpdate` -/

section Coalesce

variable {st nd pages : ℕ} (htiles : BlockTiles st blocks nd) (hsta : st ≤ a) (hand : a < nd)
include htiles hsta hand

/-- The step back fails exactly when the block over `a` is the first block and starts before. -/
lemma coalesceForUpdate_eq_none_iff :
    coalesceForUpdate st blocks a pages = none ↔ st < a ∧ ∃ b ∈ blocks.head?, a < b.getEndAddress := by
  obtain ⟨pre, b, post, hfind, hblocks, hle, hlt, hpre⟩ := findIterator_inside htiles hsta hand
  simp only [coalesceForUpdate, hfind]
  rcases pre.eq_nil_or_concat with rfl | ⟨pre', prev, rfl⟩
  · split_ifs with hne
    · simp only [getLast?_nil, true_iff]
      exact ⟨by omega, b, by simp [hblocks], hlt⟩
    · simp only [false_iff, not_and]
      intro h
      omega
  · have hhead : ∀ c ∈ blocks.head?, c.getEndAddress ≤ a := by
      intro c hc
      refine hpre c ?_
      cases pre' with
      | nil => simpa [hblocks, eq_comm] using hc
      | cons d ds =>
        obtain rfl : d = c := by simpa [hblocks] using hc
        simp
    have hno : ¬ ∃ c ∈ blocks.head?, a < c.getEndAddress := by
      rintro ⟨c, hc, hac⟩
      exact absurd (hhead c hc) (by omega)
    simp only [concat_eq_append, getLast?_append, getLast?_singleton, hno]
    split_ifs <;> simp

/-- When it succeeds, the map tiles the same range and has nothing left to merge. -/
lemma coalesceForUpdate_shape {out : List KMemoryBlock} (hwin : blocks.IsChain (WindowRel a (a + pages * PageSize)))
    (hout : coalesceForUpdate st blocks a pages = some out) :
    BlockTiles st out nd ∧ Coalesced out := by
  obtain ⟨pre, b, post, hfind, hblocks, hle, hlt, hpre⟩ := findIterator_inside htiles hsta hand
  have hpast : CoalescedPast (a + pages * PageSize) blocks := hwin.imp fun _ _ h hm => (h hm).2
  simp only [coalesceForUpdate, hfind] at hout
  subst hblocks
  split_ifs at hout with hne
  · rcases pre.eq_nil_or_concat with rfl | ⟨pre', prev, rfl⟩
    · simp at hout
    · simp only [concat_eq_append, getLast?_append, getLast?_singleton,
        Option.some_or, dropLast_concat, Option.some.injEq] at hout
      subst hout
      simp only [concat_eq_append, append_assoc, cons_append, nil_append] at htiles hpast hwin hpre
      obtain ⟨m, hpre', hrest⟩ := tiles_append.1 htiles
      refine ⟨tiles_append.2 ⟨m, hpre', coalesceLoop_tiles hrest⟩, ?_⟩
      obtain ⟨c, out, hloop, halike, -⟩ := coalesceLoop_head (a + pages * PageSize) prev (b :: post)
      have hcoal := coalesceLoop_coalesced hrest hpast.right_of_append
      -- up to `prev` the blocks start before the window, so they were not mergeable
      have hbefore : Coalesced (pre' ++ [prev]) := by
        have hchain : (pre' ++ [prev]).IsChain (WindowRel a (a + pages * PageSize)) := by
          have hall : (pre' ++ [prev] ++ b :: post).IsChain (WindowRel a (a + pages * PageSize)) := by simpa using hwin
          exact hall.left_of_append
        refine hchain.imp_of_mem_imp fun x y _ hy hxy => ?_
        by_contra hmerge
        have hya := (hxy (by simpa using hmerge)).1
        have hyend := hpre y (by simpa using hy)
        have hypos := (htiles.bounds (b := y) (by
          simp only [mem_append, mem_singleton] at hy
          rcases hy with hy | rfl <;> simp [*])).2.1
        omega
      rw [hloop] at hcoal ⊢
      refine isChain_append.2 ⟨hbefore.left_of_append, hcoal, ?_⟩
      intro x hx y hy
      obtain rfl : c = y := by simpa using hy
      rw [halike]
      exact (isChain_append.1 hbefore).2.2 x hx prev (by simp)
  · have hast : a = st := by simpa using hne
    have hnil : pre = [] := by
      cases pre with
      | nil => rfl
      | cons c cs =>
        have h1 := htiles.bounds (b := c) (by simp)
        have h2 := hpre c (by simp)
        omega
    subst hnil
    obtain rfl : coalesceLoop (a + pages * PageSize) b post = out := by simpa using hout
    exact ⟨coalesceLoop_tiles htiles, coalesceLoop_coalesced htiles hpast⟩

end Coalesce

/-! ## One range operation -/

/-- The iterator runs off the front of the tree: the range starts strictly inside the first block
and the walk passes over that block. -/
def LosesIterator (skip : KMemoryBlock → Bool) (m : KMemoryBlockManager) (address numPages : ℕ) : Prop :=
  m.startAddress < address ∧ ∃ b ∈ m.memoryBlockTree.head?, address < b.getEndAddress ∧ (numPages = 0 ∨ skip b = true)

structure InRange (m : KMemoryBlockManager) (address numPages : ℕ) : Prop where
  aligned : address % PageSize = 0
  start_le : m.startAddress ≤ address
  lt_end : address < m.endAddress
  end_le : address + numPages * PageSize ≤ m.endAddress

/-- The blocks tile the page-aligned range of the map and nothing is left to merge. -/
structure Shaped (m : KMemoryBlockManager) : Prop where
  aligned : m.startAddress % PageSize = 0
  tiles : BlockTiles m.startAddress m.memoryBlockTree m.endAddress
  coalesced : Coalesced m.memoryBlockTree

lemma tiles_aligned (h : BlockTiles x blocks y) (hx : x % PageSize = 0) : ∀ b ∈ blocks, b.address % PageSize = 0 := by
  induction blocks generalizing x with
  | nil => simp
  | cons b bs ih =>
    obtain ⟨hlo, -, hrest⟩ := h
    have hb : b.address % PageSize = 0 := hlo ▸ hx
    intro c hc
    rcases mem_cons.1 hc with rfl | hc
    · exact hb
    · exact ih hrest (getEndAddress_aligned hb) c hc

section RangeOperation

variable {skip : KMemoryBlock → Bool} {upd : KMemoryBlock → KMemoryBlock}
  {m : KMemoryBlockManager} {address numPages : ℕ} (hm : m.Shaped)
  (hr : m.InRange address numPages)
include hm hr

lemma updateRange_eq :
    updateRange skip upd m address numPages
      = (coalesceForUpdate m.startAddress
          (m.memoryBlockTree.flatMap (rewriteBlock skip upd address (address + numPages * PageSize)))
          address numPages).map fun blocks => { m with memoryBlockTree := blocks } := by
  obtain ⟨pre, b, post, hfind, hblocks, hle, hlt, hpre⟩ :=
    findIterator_inside hm.tiles hr.start_le hr.lt_end
  have htiles := hm.tiles
  rw [hblocks] at htiles
  obtain ⟨x, hpretiles, hrest⟩ := tiles_append.1 htiles
  have hbx : b.address = x := hrest.1
  have hx : x % PageSize = 0 :=
    hbx ▸ tiles_aligned hm.tiles hm.aligned b (by simp [hblocks])
  have hloop : updateLoop skip upd (b :: post) address numPages = some _ :=
    updateLoop_eq hrest hx hr.aligned (hbx ▸ hle) (by simpa using hlt) hr.end_le
  rw [updateRange, hfind]
  dsimp only
  rw [hloop, Option.bind_some, hblocks, flatMap_append, flatMap_rewriteBlock_before hpretiles (hbx ▸ hle)]

variable (haddr : ∀ c, (upd c).address = c.address)
  (hend : ∀ c, (upd c).getEndAddress = c.getEndAddress)
include haddr hend

variable (skip) in
lemma rewritten_tiles :
    BlockTiles m.startAddress (m.memoryBlockTree.flatMap (rewriteBlock skip upd address (address + numPages * PageSize)))
      m.endAddress := by
  refine hm.tiles.flatMap fun b hb => ?_
  refine rewriteBlock_tiles haddr hend (tiles_aligned hm.tiles hm.aligned b hb) hr.aligned ?_ (hm.tiles.bounds hb).2.1
  have := hr.aligned
  simp only [PageSize] at *
  omega

omit hr hend in
lemma rewritten_window :
    (m.memoryBlockTree.flatMap (rewriteBlock skip upd address
      (address + numPages * PageSize))).IsChain (WindowRel address (address + numPages * PageSize)) := by
  refine hm.tiles.isChain_flatMap hm.coalesced (fun _ _ => rewriteBlock_ne_nil)
    (fun _ _ => rewriteBlock_window haddr) ?_
  intro b _ c _ hbc hmeet x hx y hy
  exact rewriteBlock_seam haddr hbc hmeet hx hy

omit haddr hend in
/-- The first block after the walk still reaches past `address` iff the walk passed over it. -/
lemma rewritten_head_iff (hlt : m.startAddress < address) :
    (∃ b ∈ (m.memoryBlockTree.flatMap (rewriteBlock skip upd address
        (address + numPages * PageSize))).head?, address < b.getEndAddress) ↔
      ∃ b ∈ m.memoryBlockTree.head?, address < b.getEndAddress ∧ (numPages = 0 ∨ skip b = true) := by
  have htiles := hm.tiles
  cases hblocks : m.memoryBlockTree with
  | nil => simp
  | cons b bs =>
    rw [hblocks] at htiles
    have hbaddr : b.address = m.startAddress := htiles.1
    rw [flatMap_cons, head?_append_of_ne_nil _ rewriteBlock_ne_nil]
    by_cases htouch : b.Meets address (address + numPages * PageSize) ∧ skip b = false
    · have hne : numPages ≠ 0 := by
        rintro rfl
        have := htouch.1.2.2
        simp at this
      rw [rewriteBlock_of_touched htouch, headPart_of_lt (by omega)]
      have hsplit := split_fst_getEndAddress (b := b) (a := address) (hbaddr ▸ hm.aligned) hr.aligned (by omega)
      simp [hsplit, hne, htouch.2]
    · rw [rewriteBlock_of_untouched htouch]
      simp only [head?_cons, Option.mem_def, Option.some.injEq, exists_eq_left']
      constructor
      · intro hb
        refine ⟨hb, ?_⟩
        by_contra hno
        push Not at hno
        refine htouch ⟨⟨?_, hb, ?_⟩, by simpa using hno.2⟩
        · omega
        · have := hno.1
          simp only [PageSize]
          omega
      · exact fun h => h.1

/-- **The operation loses its iterator exactly in the case named above.** -/
theorem updateRange_eq_none_iff :
    updateRange skip upd m address numPages = none ↔ LosesIterator skip m address numPages := by
  rw [updateRange_eq hm hr, Option.map_eq_none_iff,
    coalesceForUpdate_eq_none_iff (rewritten_tiles skip hm hr haddr hend) hr.start_le hr.lt_end]
  constructor
  · rintro ⟨hlt, h⟩
    exact ⟨hlt, (rewritten_head_iff hm hr hlt).1 h⟩
  · rintro ⟨hlt, h⟩
    exact ⟨hlt, (rewritten_head_iff hm hr hlt).2 h⟩

/-- **What a completed operation leaves is again a coalesced tiling.** -/
theorem updateRange_shape {m' : KMemoryBlockManager} (h : updateRange skip upd m address numPages = some m') :
    m'.Shaped ∧ m'.startAddress = m.startAddress ∧ m'.endAddress = m.endAddress := by
  rw [updateRange_eq hm hr, Option.map_eq_some_iff] at h
  obtain ⟨out, hout, rfl⟩ := h
  obtain ⟨htiles, hcoal⟩ := coalesceForUpdate_shape (rewritten_tiles skip hm hr haddr hend) hr.start_le
    hr.lt_end (rewritten_window hm haddr) hout
  exact ⟨⟨hm.aligned, htiles, hcoal⟩, rfl, rfl⟩

end RangeOperation

end Voltemu.Kernel.KMemoryBlockManager
