import Voltemu.Kernel.Memory.BlockInvariant

/-!
# The memory map, page by page

`pageProps m x` is what the map says about the page over address `x`.  At this level the block
decomposition disappears: a range operation is a function on the properties of one page, applied
to the pages of the range.

* `updateRange_pages` — a completed operation changes the pages inside the range by the function
  on pages, and no page outside it.
* **`range_operations_page_meaning`** — the meaning of `Update`, `UpdateIfMatch` and
  `UpdateAttribute`.  They have it exactly when the iterator stays in the tree.
-/

namespace Voltemu.Kernel

open Tiling
open KMemoryAttribute (IgnoreMask)

namespace PageProps

/-- `HasProperties`, on the properties of a page. -/
def hasProperties (q : PageProps) (s : KMemoryState) (p : KMemoryPermission) (a : KMemoryAttribute) : Bool :=
  q.memoryState == s && q.permission == p && (q.attr ||| IgnoreMask) == (a ||| IgnoreMask)

/-- State, permission and attribute replaced, the lock attributes kept. -/
def updated (q : PageProps) (s : KMemoryState) (p : KMemoryPermission) (a : KMemoryAttribute) : PageProps :=
  { q with
    memoryState := s
    permission := p
    attr := a ||| (q.attr &&& IgnoreMask) }

/-- The attributes of `mask` replaced by `attr`. -/
def withAttribute (q : PageProps) (mask attr : KMemoryAttribute) : PageProps :=
  { q with attr := (q.attr &&& ~~~mask) ||| attr }

lemma updated_of_hasProperties {q : PageProps} {s : KMemoryState} {p : KMemoryPermission}
    {a : KMemoryAttribute} (ha : a &&& IgnoreMask = KMemoryAttribute.None)
    (h : q.hasProperties s p a = true) : q.updated s p a = q := by
  simp only [hasProperties, Bool.and_eq_true, beq_iff_eq] at h
  obtain ⟨⟨rfl, rfl⟩, hattr⟩ := h
  have hkept : a ||| (q.attr &&& IgnoreMask) = q.attr := by
    refine BitVec.eq_of_getLsbD_eq fun i _ => ?_
    have hai := congrArg (fun v : BitVec 8 => v.getLsbD i) ha
    have hqi := congrArg (fun v : BitVec 8 => v.getLsbD i) hattr
    simp only [BitVec.getLsbD_and, BitVec.getLsbD_or, KMemoryAttribute.None, BitVec.getLsbD_zero] at hai hqi ⊢
    revert hai hqi
    cases a.getLsbD i <;> cases q.attr.getLsbD i <;>
      cases IgnoreMask.getLsbD i <;> simp
  simp only [updated, hkept]

/-- A page that has the attributes already is not changed by setting them. -/
lemma withAttribute_of_eq {q : PageProps} {mask attr : KMemoryAttribute}
    (h : q.attr &&& mask = attr) : q.withAttribute mask attr = q := by
  have hkept : (q.attr &&& ~~~mask) ||| attr = q.attr := by
    rw [← h]
    refine BitVec.eq_of_getLsbD_eq fun i hi => ?_
    simp only [BitVec.getLsbD_and, BitVec.getLsbD_or, BitVec.getLsbD_not, hi, decide_true, Bool.true_and]
    cases q.attr.getLsbD i <;> cases mask.getLsbD i <;> rfl
  simp only [withAttribute, hkept]

end PageProps

namespace KMemoryBlockManager

open KMemoryBlock

/-- The properties of the page over address `x`. -/
def pageProps (m : KMemoryBlockManager) (x : ℕ) : Option PageProps :=
  valueAt address getEndAddress props m.memoryBlockTree x

/-- Some block of the list lies over `x` and has the properties `c`. -/
def HasPage (blocks : List KMemoryBlock) (x : ℕ) (c : PageProps) : Prop :=
  ∃ b ∈ blocks, b.address ≤ x ∧ x < b.getEndAddress ∧ b.props = c

variable {ys rest : List KMemoryBlock} {x e s : ℕ} {c q : PageProps}

@[simp] lemma hasPage_append {xs : List KMemoryBlock} : HasPage (xs ++ ys) x c ↔ HasPage xs x c ∨ HasPage ys x c := by
  simp [HasPage, or_and_right, exists_or]

@[simp] lemma hasPage_cons {b : KMemoryBlock} :
    HasPage (b :: ys) x c ↔ b.address ≤ x ∧ x < b.getEndAddress ∧ b.props = c ∨ HasPage ys x c := by
  simp [HasPage]

@[simp] lemma hasPage_nil : HasPage [] x c ↔ False := by
  simp [HasPage]

lemma hasPage_of_props {blocks : List KMemoryBlock} {p : PageProps}
    (htiles : BlockTiles s blocks e) (h : ∀ b ∈ blocks, b.props = p) :
    HasPage blocks x c ↔ s ≤ x ∧ x < e ∧ p = c := by
  have hcov := htiles.covered_iff (x := x)
  constructor
  · rintro ⟨b, hb, hle, hlt, hc⟩
    obtain ⟨h1, h2⟩ := hcov.1 ⟨b, hb, hle, hlt⟩
    exact ⟨h1, h2, (h b hb).symm.trans hc⟩
  · rintro ⟨h1, h2, hc⟩
    obtain ⟨b, hb, hle, hlt⟩ := hcov.2 ⟨h1, h2⟩
    exact ⟨b, hb, hle, hlt, (h b hb).trans hc⟩

/-! ## Merging -/

lemma add_hasPage {b c : KMemoryBlock} (hmerge : b.canMergeWith c = true) (hmeet : b.getEndAddress = c.address)
    (hb : b.address ≤ b.getEndAddress) (hc : c.address ≤ c.getEndAddress) :
    HasPage (b.add c :: rest) x q ↔ HasPage (b :: c :: rest) x q := by
  have hsame : c.props = b.props :=
    (hasSameProperties_iff_props.1 (canMergeWith_iff.1 hmerge).1).symm
  have hadd : (b.add c).props = b.props := rfl
  simp only [hasPage_cons, add_address, add_getEndAddress hmeet, hsame, hadd, ← or_assoc]
  refine or_congr_left ?_
  constructor
  · rintro ⟨h1, h2, hq⟩
    rcases lt_or_ge x b.getEndAddress with h | h
    · exact Or.inl ⟨h1, h, hq⟩
    · exact Or.inr ⟨hmeet ▸ h, h2, hq⟩
  · rintro (⟨h1, h2, hq⟩ | ⟨h1, h2, hq⟩)
    · exact ⟨h1, by omega, hq⟩
    · exact ⟨by omega, h2, hq⟩

lemma coalesceLoop_hasPage {limit : ℕ} {prev : KMemoryBlock} (htiles : BlockTiles s (prev :: rest) e) :
    HasPage (coalesceLoop limit prev rest) x q ↔ HasPage (prev :: rest) x q := by
  induction rest generalizing s prev with
  | nil => rfl
  | cons it rest ih =>
    obtain ⟨hs, hpos, hit, hitpos, hrest⟩ := id htiles
    rw [coalesceLoop]
    split_ifs with hmerge
    · exact add_hasPage hmerge hit.symm (by omega) (by omega)
    · rw [ih (add_tiles htiles)]
      exact add_hasPage hmerge hit.symm (by omega) (by omega)
    · rfl
    · rw [hasPage_cons, ih ⟨hit, hitpos, hrest⟩, hasPage_cons (b := prev)]

/-! ## Rewriting one block -/

section Rewrite

variable {skip : KMemoryBlock → Bool} {upd : KMemoryBlock → KMemoryBlock} {onPage : PageProps → PageProps}
  {b : KMemoryBlock} (haddr : ∀ c, (upd c).address = c.address)
  (hend : ∀ c, (upd c).getEndAddress = c.getEndAddress) (hprops : ∀ c, (upd c).props = onPage c.props)

include haddr hend hprops in
/-- A block passes its properties to its parts; the part inside the range gets the new ones. -/
lemma rewriteBlock_hasPage (hb : b.address % PageSize = 0) (hs : s % PageSize = 0) (he : e % PageSize = 0) :
    HasPage (b.rewriteBlock skip upd s e) x q ↔
      b.address ≤ x ∧ x < b.getEndAddress ∧
        (if s ≤ x ∧ x < e ∧ skip b = false then onPage b.props else b.props) = q := by
  have hfst : ∀ (c : KMemoryBlock) (a : ℕ), c.props = b.props → (c.split a).1.props = b.props :=
    fun _ _ h => h
  have hsnd : ∀ (c : KMemoryBlock) (a : ℕ), c.props = b.props → (c.split a).2.props = b.props :=
    fun _ _ h => h
  by_cases h : b.Meets s e ∧ skip b = false
  · have hclip := clip_getEndAddress hb hs he h.1
    have hclipprops : (upd (b.clip s e)).props = onPage b.props := by
      rw [hprops, clip_forall hfst hsnd rfl]
    rw [rewriteBlock_of_touched h, hasPage_append, hasPage_cons,
      hasPage_of_props (headPart_tiles hb hs) (headPart_forall hfst rfl),
      hasPage_of_props (tailPart_tiles hb hs he h.1) (tailPart_forall hsnd rfl), haddr, hend,
      clip_address, hclip, hclipprops]
    obtain ⟨⟨h1, h2, h3⟩, hskip⟩ := h
    simp only [hskip, and_true]
    split_ifs with hx
    · constructor
      · rintro (⟨_, _, _⟩ | ⟨_, _, hq⟩ | ⟨_, _, _⟩)
        · omega
        · exact ⟨by omega, by omega, hq⟩
        · omega
      · rintro ⟨_, _, hq⟩
        exact Or.inr (Or.inl ⟨by omega, by omega, hq⟩)
    · constructor
      · rintro (⟨_, _, hq⟩ | ⟨_, _, _⟩ | ⟨_, _, hq⟩)
        · exact ⟨by omega, by omega, hq⟩
        · omega
        · exact ⟨by omega, by omega, hq⟩
      · rintro ⟨_, _, hq⟩
        rcases lt_or_ge x s with hxs | hxs
        · exact Or.inl ⟨by omega, by omega, hq⟩
        · exact Or.inr (Or.inr ⟨by omega, by omega, hq⟩)
  · rw [rewriteBlock_of_untouched h, hasPage_cons]
    simp only [hasPage_nil, or_false]
    refine and_congr_right fun h1 => and_congr_right fun h2 => ?_
    rw [if_neg]
    rintro ⟨h3, h4, hskip⟩
    exact h ⟨⟨by omega, by omega, by omega⟩, hskip⟩

end Rewrite

/-! ## One range operation -/

/-- `m'` is `m` with the pages of the range changed by `g` and every other page as it was. -/
def PagesChanged (m m' : KMemoryBlockManager) (address numPages : ℕ) (g : PageProps → PageProps) : Prop :=
  ∀ x, m'.pageProps x =
    if address ≤ x ∧ x < address + numPages * PageSize then (m.pageProps x).map g
    else m.pageProps x

section RangeOperation

variable {skip : KMemoryBlock → Bool} {upd : KMemoryBlock → KMemoryBlock}
  {onPage g : PageProps → PageProps} {m m' : KMemoryBlockManager} {address numPages : ℕ}
  (hm : m.Shaped) (hr : m.InRange address numPages)
  (haddr : ∀ c, (upd c).address = c.address)
  (hend : ∀ c, (upd c).getEndAddress = c.getEndAddress)
  (hprops : ∀ c, (upd c).props = onPage c.props)
  (hg : ∀ b : KMemoryBlock, g b.props = if skip b = false then onPage b.props else b.props)
include hm hr haddr hend hprops

lemma updateRange_hasPage (hop : updateRange skip upd m address numPages = some m') {x : ℕ}
    {q : PageProps} :
    HasPage m'.memoryBlockTree x q ↔
      ∃ b ∈ m.memoryBlockTree, b.address ≤ x ∧ x < b.getEndAddress ∧
        (if address ≤ x ∧ x < address + numPages * PageSize ∧ skip b = false then onPage b.props
          else b.props) = q := by
  rw [updateRange_eq hm hr, Option.map_eq_some_iff] at hop
  obtain ⟨out, hout, rfl⟩ := hop
  have htiles := rewritten_tiles skip hm hr haddr hend
  have hend_aligned : (address + numPages * PageSize) % PageSize = 0 := by
    have := hr.aligned
    simp only [PageSize] at *
    omega
  obtain ⟨pre, prev, rest, hblocks, rfl⟩ := coalesceForUpdate_loop hout
  rw [hblocks] at htiles
  obtain ⟨y, -, hrest⟩ := tiles_append.1 htiles
  rw [hasPage_append, coalesceLoop_hasPage hrest, ← hasPage_append, ← hblocks]
  constructor
  · rintro ⟨c, hc, hcx⟩
    obtain ⟨b, hb, hcb⟩ := List.mem_flatMap.1 hc
    refine ⟨b, hb, (rewriteBlock_hasPage haddr hend hprops ?_ hr.aligned hend_aligned).1 ⟨c, hcb, hcx⟩⟩
    exact tiles_aligned hm.tiles hm.aligned b hb
  · rintro ⟨b, hb, hbx⟩
    obtain ⟨c, hcb, hcx⟩ := (rewriteBlock_hasPage haddr hend hprops
      (tiles_aligned hm.tiles hm.aligned b hb) hr.aligned hend_aligned).2 hbx
    exact ⟨c, List.mem_flatMap.2 ⟨b, hb, hcb⟩, hcx⟩

include hg

lemma updateRange_pages (hop : updateRange skip upd m address numPages = some m') :
    m.PagesChanged m' address numPages g := by
  obtain ⟨hshape, -, -⟩ := updateRange_shape hm hr haddr hend hop
  intro x
  ext q
  have hold : ∀ p, m.pageProps x = some p ↔ HasPage m.memoryBlockTree x p := fun _ =>
    hm.tiles.valueAt_eq_some_iff
  have hnew : m'.pageProps x = some q ↔ HasPage m'.memoryBlockTree x q :=
    hshape.tiles.valueAt_eq_some_iff
  rw [hnew, updateRange_hasPage hm hr haddr hend hprops hop]
  split_ifs with hx
  · simp only [hx, true_and, ← hg, Option.map_eq_some_iff, hold, HasPage]
    constructor
    · rintro ⟨b, hb, h1, h2, h3⟩
      exact ⟨b.props, ⟨b, hb, h1, h2, rfl⟩, h3⟩
    · rintro ⟨p, ⟨b, hb, h1, h2, rfl⟩, h3⟩
      exact ⟨b, hb, h1, h2, h3⟩
  · rw [hold]
    have hnot : ∀ b : KMemoryBlock, ¬ (address ≤ x ∧ x < address + numPages * PageSize ∧
        skip b = false) := fun b h => hx ⟨h.1, h.2.1⟩
    simp only [hnot, if_false, HasPage]

variable (onPage) in
lemma updateRange_pages_iff :
    (∃ m', updateRange skip upd m address numPages = some m' ∧
      m.PagesChanged m' address numPages g) ↔ ¬ LosesIterator skip m address numPages := by
  rw [← updateRange_eq_none_iff hm hr haddr hend]
  constructor
  · rintro ⟨m', hop, -⟩
    simp [hop]
  · intro hne
    obtain ⟨m', hop⟩ := Option.ne_none_iff_exists'.1 hne
    exact ⟨m', hop, updateRange_pages hm hr haddr hend hprops hg hop⟩

end RangeOperation

/-- **The three operations, page by page.**  Each completes and changes exactly the pages it should,
if and only if it keeps its iterator:

* `Update` sets state, permission and attribute of every page of the range, and keeps the lock
  attributes;
* `UpdateIfMatch` does so on the pages of the range that match the test;
* `UpdateAttribute` replaces the attributes of `mask` on every page of the range.

The original permission, the two counts and the pages outside the range do not change. -/
theorem range_operations_page_meaning {m : KMemoryBlockManager} (hm : m.Shaped)
    {address numPages : ℕ} (hr : m.InRange address numPages) :
    (∀ state perm attr setDisableAttr clearDisableAttr, attr &&& IgnoreMask = KMemoryAttribute.None →
      ((∃ m', m.update address numPages state perm attr setDisableAttr clearDisableAttr = some m' ∧
          m.PagesChanged m' address numPages fun q => q.updated state perm attr) ↔
        ¬ LosesIterator (fun b => b.hasProperties state perm attr) m address numPages)) ∧
    (∀ testState testPerm testAttr state perm attr setDisableAttr clearDisableAttr,
      attr &&& IgnoreMask = KMemoryAttribute.None →
      ((∃ m', m.updateIfMatch address numPages testState testPerm testAttr state perm attr
            setDisableAttr clearDisableAttr = some m' ∧
          m.PagesChanged m' address numPages fun q =>
            if q.hasProperties testState testPerm testAttr then q.updated state perm attr else q) ↔
        ¬ LosesIterator (fun b => !(b.hasProperties testState testPerm testAttr &&
            !b.hasProperties state perm attr)) m address numPages)) ∧
    (∀ mask attr,
      ((∃ m', m.updateAttribute address numPages mask attr = some m' ∧
          m.PagesChanged m' address numPages fun q => q.withAttribute mask attr) ↔
        ¬ LosesIterator (fun b => (b.attr &&& mask) == attr) m address numPages)) := by
  refine ⟨fun state perm attr setDisableAttr clearDisableAttr hattr => ?_,
    fun testState testPerm testAttr state perm attr setDisableAttr clearDisableAttr hattr => ?_,
    fun mask attr => ?_⟩
  · refine updateRange_pages_iff (fun q => q.updated state perm attr) hm hr
      (RangeOp.upd_address (.update ..) _ _) (RangeOp.upd_getEndAddress (.update ..) _ _)
      (fun _ => rfl) fun b => ?_
    cases hskip : b.hasProperties state perm attr with
    | false => simp [RangeOp.skip, hskip]
    | true =>
      have hsame : b.props.updated state perm attr = b.props :=
        PageProps.updated_of_hasProperties hattr hskip
      simpa [RangeOp.skip, hskip] using hsame
  · refine updateRange_pages_iff (fun q => q.updated state perm attr) hm hr (RangeOp.upd_address (.updateIfMatch ..) _ _)
      (RangeOp.upd_getEndAddress (.updateIfMatch ..) _ _) (fun _ => rfl) fun b => ?_
    have htest : b.props.hasProperties testState testPerm testAttr = b.hasProperties testState testPerm testAttr := rfl
    cases hskip : b.hasProperties state perm attr with
    | false => simp [RangeOp.skip, hskip, htest]
    | true =>
      have hsame : b.props.updated state perm attr = b.props :=
        PageProps.updated_of_hasProperties hattr hskip
      simp [RangeOp.skip, hskip, hsame]
  · refine updateRange_pages_iff (fun q => q.withAttribute mask attr) hm hr
      (RangeOp.upd_address (.updateAttribute ..) _ _)
      (RangeOp.upd_getEndAddress (.updateAttribute ..) _ _) (fun _ => rfl) fun b => ?_
    cases hskip : (b.attr &&& mask) == attr with
    | false => simp [RangeOp.skip, hskip]
    | true =>
      have hsame : b.props.withAttribute mask attr = b.props :=
        PageProps.withAttribute_of_eq (beq_iff_eq.1 hskip)
      simpa [RangeOp.skip, hskip] using hsame

/-- Mapping the first of four free pages. -/
theorem range_operations_page_meaning_first_page :
    (initializeManager 0 0x4000).Shaped ∧ (initializeManager 0 0x4000).InRange 0 1 ∧
      ∃ m', (initializeManager 0 0x4000).update 0 1 KMemoryState.Normal
          KMemoryPermission.UserReadWrite KMemoryAttribute.None 0x01#8 0x00#8 = some m' ∧
        (initializeManager 0 0x4000).PagesChanged m' 0 1 fun q =>
          q.updated KMemoryState.Normal KMemoryPermission.UserReadWrite KMemoryAttribute.None := by
  have hm : (initializeManager 0 0x4000).Shaped :=
    (initializeManager_wellFormed (by decide) (by decide) (by decide)).toShaped
  have hr : (initializeManager 0 0x4000).InRange 0 1 :=
    ⟨by decide, by decide, by decide, by decide⟩
  refine ⟨hm, hr, ((range_operations_page_meaning hm hr).1 _ _ _ _ _ (by decide)).2 ?_⟩
  rintro ⟨hlt, -⟩
  exact absurd hlt (by decide)

/-- `UpdateAttribute` on the third of four free pages, with the attribute the page has: the walk
passes over the only block and the call has no result. -/
theorem updateAttribute_inside_first_block_has_no_meaning :
    (initializeManager 0 0x4000).WellFormed ∧ (initializeManager 0 0x4000).InRange 0x2000 1 ∧
      KMemoryAttribute.None &&& ~~~KMemoryAttribute.Uncached = KMemoryAttribute.None ∧
      ¬ ∃ m', (initializeManager 0 0x4000).updateAttribute 0x2000 1 KMemoryAttribute.Uncached
          KMemoryAttribute.None = some m' ∧
        (initializeManager 0 0x4000).PagesChanged m' 0x2000 1 fun q =>
          q.withAttribute KMemoryAttribute.Uncached KMemoryAttribute.None := by
  refine ⟨initializeManager_wellFormed (by decide) (by decide) (by decide),
    ⟨by decide, by decide, by decide, by decide⟩, by decide, ?_⟩
  rintro ⟨m', hm', -⟩
  have hnone : (initializeManager 0 0x4000).updateAttribute 0x2000 1 KMemoryAttribute.Uncached
      KMemoryAttribute.None = none := by decide
  rw [hnone] at hm'
  exact absurd hm' (by simp)

end KMemoryBlockManager

end Voltemu.Kernel
