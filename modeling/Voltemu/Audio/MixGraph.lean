import Voltemu.Audio.MixContext
import Voltemu.Audio.SplitterLists
import Voltemu.Audio.TopologicalSort

/-!
# The graph of the mixes follows the guest

What the graph should be is what the guest last said about each mix, with the destinations that the splitters have
now.

* `Guest` — what the guest said, and what each mix was connected to when its edges were last computed;
* `Follows.updateMix` — one parameter; `graph_of_run` — every run; `sort_of_run` — the order that the sort gives then.
-/

namespace Voltemu.Audio

open Function List

/-! ## Edges -/

namespace EdgeMatrix

variable {e : EdgeMatrix} {id d i j : ℕ}

section

variable (hcount : e.count * e.count ≤ 2 ^ 32) (hi : i < e.count) (hj : j < e.count)
include hcount hi hj

/-- The bits of pairs of nodes are different. -/
lemma index_eq : e.index i j = e.count * i + j := by
  have hlt : e.count * i + j < e.count * e.count := by
    calc e.count * i + j < e.count * i + e.count := by omega
      _ = e.count * (i + 1) := by rw [Nat.mul_succ]
      _ ≤ e.count * e.count := Nat.mul_le_mul_left _ hi
  exact Nat.mod_eq_of_lt (by omega)

lemma index_lt : e.index i j < e.count * e.count := by
  rw [index_eq hcount hi hj]
  calc e.count * i + j < e.count * i + e.count := by omega
    _ = e.count * (i + 1) := by rw [Nat.mul_succ]
    _ ≤ e.count * e.count := Nat.mul_le_mul_left _ hi

lemma index_injective {i' j' : ℕ} (hi' : i' < e.count) (hj' : j' < e.count) (h : e.index i j = e.index i' j') :
    i = i' ∧ j = j' := by
  rw [index_eq hcount hi hj, index_eq hcount hi' hj'] at h
  have hpos : 0 < e.count := by omega
  have hdiv := congrArg (· / e.count) h
  have hmod := congrArg (· % e.count) h
  simp only [Nat.mul_add_div hpos, Nat.div_eq_of_lt hj, Nat.div_eq_of_lt hj', Nat.mul_add_mod,
    Nat.mod_eq_of_lt hj, Nat.mod_eq_of_lt hj', Nat.add_zero] at hdiv hmod
  exact ⟨hdiv, hmod⟩

end

/-- Nothing is written behind the matrix. -/
def Contained (e : EdgeMatrix) : Prop := ∀ x, e.count * e.count ≤ x → e.edges x = false

lemma connected_setEdge (hcount : e.count * e.count ≤ 2 ^ 32) (hid : id < e.count) (hd : d < e.count)
    (hi : i < e.count) (hj : j < e.count) (b : Bool) :
    (e.setEdge id d b).connected i j = if i = id ∧ j = d then b else e.connected i j := by
  change Function.update e.edges (e.index id d) b (e.index i j) = _
  split_ifs with h
  · rw [h.1, h.2, update_self]
  · rw [update_of_ne fun heq => h (index_injective hcount hi hj hid hd heq)]
    rfl

lemma Contained.setEdge (h : e.Contained) (hcount : e.count * e.count ≤ 2 ^ 32) (hid : id < e.count)
    (hd : d < e.count) (b : Bool) : (e.setEdge id d b).Contained := by
  intro x hx
  change Function.update e.edges (e.index id d) b x = false
  have hlt := index_lt hcount hid hd
  change e.count * e.count ≤ x at hx
  rw [update_of_ne (by omega)]
  exact h x hx

/-- Several edges of one node are set to the same value. -/
lemma foldl_setEdge (hcount : e.count * e.count ≤ 2 ^ 32) (hid : id < e.count) {ds : List ℕ}
    (hds : ∀ d ∈ ds, d < e.count) (b : Bool) :
    (ds.foldl (fun e d => e.setEdge id d b) e).count = e.count ∧
      (e.Contained → (ds.foldl (fun e d => e.setEdge id d b) e).Contained) ∧
      ∀ i j, i < e.count → j < e.count → (ds.foldl (fun e d => e.setEdge id d b) e).connected i j =
        if i = id ∧ j ∈ ds then b else e.connected i j := by
  induction ds generalizing e with
  | nil => exact ⟨rfl, fun h => h, fun i j _ _ => by simp⟩
  | cons d ds ih =>
    have hd := hds d mem_cons_self
    obtain ⟨hcount', hcontained, hconnected⟩ := @ih (e.setEdge id d b) hcount hid
      fun d' hd' => hds d' (mem_cons_of_mem _ hd')
    refine ⟨hcount', fun h => hcontained (h.setEdge hcount hid hd b), fun i j hi hj => ?_⟩
    rw [foldl_cons, hconnected i j hi hj, connected_setEdge hcount hid hd hi hj]
    by_cases hrow : i = id
    · by_cases hjd : j = d
      · simp [hrow, hjd]
      · simp [hrow, hjd]
    · simp [hrow]

lemma removeEdges_spec (hcount : e.count * e.count ≤ 2 ^ 32) (hid : id < e.count) :
    (e.removeEdges id).count = e.count ∧ (e.Contained → (e.removeEdges id).Contained) ∧
      ∀ i j, i < e.count → j < e.count →
        (e.removeEdges id).connected i j = if i = id then false else e.connected i j := by
  obtain ⟨hcount', hcontained, hconnected⟩ :=
    foldl_setEdge hcount hid (fun d hd => mem_range.1 hd) false
  refine ⟨hcount', hcontained, fun i j hi hj => ?_⟩
  rw [removeEdges, hconnected i j hi hj]
  simp [hj]

end EdgeMatrix

/-! ## What the guest said -/

def SplitterContext.destinationMixes (c : SplitterContext) (splitter : ℕ) : List ℤ :=
  ((List.range (c.splitterInfos splitter).destinationCount).filterMap fun i =>
    (c.getDestinationData splitter i).map fun d => (c.splitterDestinations d).destinationId).filter (· ≠ unusedMixId)

/-- Where a mix sends to: its destination mix, or the mixes of the destinations of its splitter. -/
def targets (c : SplitterContext) (destMixId destSplitterId : ℤ) : List ℤ :=
  if destMixId ≠ unusedMixId then [destMixId]
  else if destSplitterId ≠ unusedSplitterId then c.destinationMixes destSplitterId.toNat
  else []

/-- What the guest last said of each mix in use — its destination mix and splitter — and what the mix was
connected to when its edges were last computed. -/
structure Guest where
  sends : ℕ → Option (ℤ × ℤ)
  seen : ℕ → List ℤ

def Guest.update (g : Guest) (m : MixContext) (c : SplitterContext) (k : ℕ) (p : MixParameter) : Guest :=
  if p.inUse then
    { sends := Function.update g.sends k (some (p.destMixId, p.destSplitterId))
      seen := if (m.mixInfos k).reconnects p c then
        Function.update g.seen k (targets c p.destMixId p.destSplitterId) else g.seen }
  else { g with sends := Function.update g.sends k none }

/-- **The condition at a parameter** for the mix `k`: the mix exists and is the one that the parameter names; a
mix that goes out of use has no edges; and the mixes that it is to be connected to exist. -/
structure MixContext.Admits (m : MixContext) (c : SplitterContext) (k : ℕ) (p : MixParameter) : Prop where
  index : k < m.count
  own : p.inUse = true → p.mixId = k
  noEdges : p.inUse = false → ∀ j < m.count, m.edgeMatrix.connected k j = false
  exist : p.inUse = true → ∀ x ∈ targets c p.destMixId p.destSplitterId, 0 ≤ x ∧ x < m.count

/-- **The edges are those that the mixes were last connected to**, and the mixes are as the guest said. -/
structure Follow (m : MixContext) (g : Guest) : Prop where
  edgeCount : m.edgeMatrix.count = m.count
  nodeCount : m.nodeStates.nodeCount = m.count
  stack : ∀ x ∈ m.nodeStates.stack, x < m.count
  fits : m.count * m.count ≤ 2 ^ 32
  contained : m.edgeMatrix.Contained
  rows : ∀ i j, i < m.count → j < m.count → (m.edgeMatrix.connected i j = true ↔ (j : ℤ) ∈ g.seen i)
  seenRange : ∀ i, i < m.count → ∀ x ∈ g.seen i, 0 ≤ x ∧ x < m.count
  used : ∀ k, k < m.count → ∀ d s, g.sends k = some (d, s) →
    (m.mixInfos k).dstMixId = d ∧ (m.mixInfos k).dstSplitterId = s
  direct : ∀ k, k < m.count → ∀ d s, g.sends k = some (d, s) →
    (d ≠ unusedMixId ∨ s = unusedSplitterId) → ∀ c x, x ∈ g.seen k ↔ x ∈ targets c d s
  unused : ∀ k, k < m.count → g.sends k = none → (m.mixInfos k).dstMixId = unusedMixId ∧ g.seen k = []

namespace Follow

variable {m : MixContext} {c : SplitterContext} {g : Guest} {k : ℕ} {p : MixParameter} {b : Behavior}

lemma u32_natCast {n : ℕ} (hn : n < 2 ^ 32) : u32 (n : ℤ) = n := by
  unfold u32
  omega

lemma u32_of_range {x : ℤ} {n : ℕ} (hn : n ≤ 2 ^ 32) (hx : 0 ≤ x ∧ x < n) : u32 x < n ∧ (u32 x : ℤ) = x := by
  unfold u32
  omega

lemma connectDestinations_eq (e : EdgeMatrix) (c : SplitterContext) (mixId : ℤ) (splitter : ℕ) :
    connectDestinations e c mixId splitter =
      ((c.destinationMixes splitter).map u32).foldl (fun e d => e.setEdge (u32 mixId) d true) e := by
  unfold connectDestinations SplitterContext.destinationMixes
  generalize List.range (c.splitterInfos splitter).destinationCount = l
  induction l generalizing e with
  | nil => rfl
  | cons i l ih =>
    rw [foldl_cons, ih]
    cases hd : c.getDestinationData splitter i with
    | none => simp [hd]
    | some d =>
      by_cases hunused : (c.splitterDestinations d).destinationId = unusedMixId
      · simp [hd, hunused]
      · simp [hd, hunused]

lemma updateConnection_eq {info : MixInfo} {e : EdgeMatrix} (h : info.reconnects p c = true) :
    info.updateConnection e p c =
      ({ info with dstMixId := p.destMixId, dstSplitterId := p.destSplitterId },
        ((targets c p.destMixId p.destSplitterId).map u32).foldl
          (fun e d => e.setEdge (u32 info.mixId) d true) (e.removeEdges (u32 info.mixId)), true) := by
  unfold MixInfo.updateConnection targets
  rw [h]
  by_cases hmix : p.destMixId = unusedMixId
  · by_cases hsplitter : p.destSplitterId = unusedSplitterId
    · simp [hmix, hsplitter]
    · simp [hmix, hsplitter, connectDestinations_eq]
  · simp [hmix]

/-- The row of the mix is computed anew, the others stay. -/
lemma reconnect_spec {e : EdgeMatrix} (hfits : e.count * e.count ≤ 2 ^ 32) (hk : k < e.count)
    {ts : List ℤ} (hts : ∀ x ∈ ts, 0 ≤ x ∧ x < e.count) :
    let e' := (ts.map u32).foldl (fun e d => e.setEdge (u32 k) d true) (e.removeEdges (u32 k))
    e'.count = e.count ∧ (e.Contained → e'.Contained) ∧
      ∀ i j, i < e.count → j < e.count →
        (e'.connected i j = true ↔ if i = k then (j : ℤ) ∈ ts else e.connected i j = true) := by
  have hcount : e.count ≤ 2 ^ 16 := by
    by_contra hlt
    have := Nat.mul_self_lt_mul_self (show 2 ^ 16 < e.count by omega)
    omega
  have hk32 : u32 (k : ℤ) = k := u32_natCast (by omega)
  obtain ⟨hcount1, hcontained1, hconnected1⟩ := EdgeMatrix.removeEdges_spec hfits hk
  have hmap : ∀ d ∈ ts.map u32, d < (e.removeEdges k).count := by
    intro d hd
    obtain ⟨x, hx, rfl⟩ := mem_map.1 hd
    rw [hcount1]
    exact (u32_of_range (by omega) (hts x hx)).1
  obtain ⟨hcount2, hcontained2, hconnected2⟩ :=
    EdgeMatrix.foldl_setEdge (hcount1 ▸ hfits) (hcount1 ▸ hk) hmap true
  rw [hk32]
  refine ⟨hcount2.trans hcount1, fun h => hcontained2 (hcontained1 h), fun i j hi hj => ?_⟩
  rw [hconnected2 i j (hcount1 ▸ hi) (hcount1 ▸ hj), hconnected1 i j hi hj]
  have hmem : j ∈ ts.map u32 ↔ (j : ℤ) ∈ ts := by
    rw [mem_map]
    constructor
    · rintro ⟨x, hx, rfl⟩
      rwa [(u32_of_range (n := e.count) (by omega) (hts x hx)).2]
    · exact fun hx => ⟨j, hx, u32_natCast (by omega)⟩
  by_cases hrow : i = k
  · simp [hrow, hmem]
  · simp [hrow]

lemma updateMix_unused (h : Follow m g) (hadmits : m.Admits c k p) (hp : p.inUse = false) :
    Follow (m.updateMix b c k p).1 (g.update m c k p) := by
  have hk := hadmits.index
  have hseen : g.seen k = [] := by
    refine eq_nil_iff_forall_not_mem.2 fun x hx => ?_
    obtain ⟨h0, hlt⟩ := h.seenRange k hk x hx
    have hj : x.toNat < m.count := by omega
    have hedge := (h.rows k x.toNat hk hj).2 (by rwa [Int.toNat_of_nonneg h0])
    rw [hadmits.noEdges hp x.toNat hj] at hedge
    simp at hedge
  have hdst : (m.mixInfos k).dstMixId = unusedMixId := by
    cases hsends : g.sends k with
    | none => exact (h.unused k hk hsends).1
    | some q =>
      obtain ⟨d, s⟩ := q
      rw [(h.used k hk d s hsends).1]
      by_contra hd
      have hmem := (h.direct k hk d s hsends (.inl hd) c d).2 (by simp [targets, hd])
      simp [hseen] at hmem
  have hstate : (m.updateMix b c k p).1 =
      { m with
        mixInfos := Function.update m.mixInfos k { m.mixInfos k with inUse := false } } := by
    simp [MixContext.updateMix, hp]
  have hguest : g.update m c k p = { g with sends := Function.update g.sends k none } := by
    simp [Guest.update, hp]
  rw [hstate, hguest]
  refine ⟨h.edgeCount, h.nodeCount, h.stack, h.fits, h.contained, h.rows, h.seenRange, ?_, ?_, ?_⟩
  · intro i hi d s hsends
    by_cases hik : i = k
    · subst hik
      simp at hsends
    · simp only [update_of_ne hik] at hsends ⊢
      exact h.used i hi d s hsends
  · intro i hi d s hsends
    by_cases hik : i = k
    · subst hik
      simp at hsends
    · simp only [update_of_ne hik] at hsends
      exact h.direct i hi d s hsends
  · intro i hi hsends
    by_cases hik : i = k
    · subst hik
      simpa using ⟨hdst, hseen⟩
    · simp only [update_of_ne hik] at hsends ⊢
      exact h.unused i hi hsends

lemma targets_congr (c c' : SplitterContext) {d t : ℤ} (h : d ≠ unusedMixId ∨ t = unusedSplitterId) :
    targets c d t = targets c' d t := by
  unfold targets
  rcases h with h | h
  · rw [if_pos h, if_pos h]
  · simp [h]

section

variable (h : Follow m g) (hsplitter : b.splitterSupported = true) (hadmits : m.Admits c k p)
include h hsplitter hadmits

lemma updateMix_kept (hp : p.inUse = true) (hsame : (m.mixInfos k).reconnects p c = false) :
    Follow (m.updateMix b c k p).1 (g.update m c k p) := by
  obtain ⟨hdst, hdstSplitter⟩ : (m.mixInfos k).dstMixId = p.destMixId ∧
      (m.mixInfos k).dstSplitterId = p.destSplitterId := by
    simp only [MixInfo.reconnects, Bool.not_eq_false', Bool.and_eq_true, beq_iff_eq] at hsame
    exact hsame.1
  have hconnection (info : MixInfo) (hinfo : info.reconnects p c = (m.mixInfos k).reconnects p c) :
      info.updateConnection m.edgeMatrix p c = (info, m.edgeMatrix, false) := by
    simp [MixInfo.updateConnection, hinfo, hsame]
  have hstate : (m.updateMix b c k p).1 =
      { m with
        mixInfos := Function.update m.mixInfos k
          ⟨true, p.mixId, (m.mixInfos k).dstMixId, (m.mixInfos k).dstSplitterId⟩ } := by
    simp only [MixContext.updateMix, hp, if_true, MixInfo.update, hsplitter]
    rw [hconnection ⟨true, p.mixId, (m.mixInfos k).dstMixId, (m.mixInfos k).dstSplitterId⟩ rfl]
  have hguest : g.update m c k p =
      { g with sends := Function.update g.sends k (some (p.destMixId, p.destSplitterId)) } := by
    simp [Guest.update, hp, hsame]
  rw [hstate, hguest]
  refine ⟨h.edgeCount, h.nodeCount, h.stack, h.fits, h.contained, h.rows, h.seenRange, ?_, ?_, ?_⟩
  · intro i hi d s hsends
    by_cases hik : i = k
    · subst hik
      simp only [update_self, Option.some.injEq, Prod.mk.injEq] at hsends ⊢
      obtain ⟨rfl, rfl⟩ := hsends
      exact ⟨hdst, hdstSplitter⟩
    · simp only [update_of_ne hik] at hsends ⊢
      exact h.used i hi d s hsends
  · intro i hi d s hsends hds
    by_cases hik : i = k
    · subst hik
      simp only [update_self, Option.some.injEq, Prod.mk.injEq] at hsends
      obtain ⟨rfl, rfl⟩ := hsends
      cases hold : g.sends i with
      | none =>
        -- it was out of use, and without edges
        obtain ⟨hunused, hseen⟩ := h.unused i hi hold
        rw [hdst] at hunused
        have hs : p.destSplitterId = unusedSplitterId := hds.resolve_left (not_not.2 hunused)
        intro c' x
        simp [hseen, targets, hunused, hs]
      | some q =>
        obtain ⟨d, s⟩ := q
        obtain ⟨hd, hs⟩ := h.used i hi d s hold
        rw [hdst] at hd
        rw [hdstSplitter] at hs
        subst hd hs
        exact h.direct i hi _ _ hold hds
    · simp only [update_of_ne hik] at hsends
      exact h.direct i hi d s hsends hds
  · intro i hi hsends
    by_cases hik : i = k
    · subst hik
      simp at hsends
    · simp only [update_of_ne hik] at hsends ⊢
      exact h.unused i hi hsends

lemma updateMix_reconnected (hp : p.inUse = true) (hnew : (m.mixInfos k).reconnects p c = true) :
    Follow (m.updateMix b c k p).1 (g.update m c k p) := by
  have hk := hadmits.index
  have hown := hadmits.own hp
  have hexist := hadmits.exist hp
  obtain ⟨hcount, hcontained, hconnected⟩ := reconnect_spec (h.edgeCount ▸ h.fits) (h.edgeCount ▸ hk)
    (h.edgeCount ▸ hexist)
  generalize htargets : targets c p.destMixId p.destSplitterId = ts at hexist hcount hcontained hconnected
  generalize hedges : (ts.map u32).foldl (fun e d => e.setEdge (u32 (k : ℤ)) d true)
    (m.edgeMatrix.removeEdges (u32 (k : ℤ))) = e' at hcount hcontained hconnected
  have hconnection (info : MixInfo) (hinfo : info.reconnects p c = (m.mixInfos k).reconnects p c)
      (hid : info.mixId = k) : info.updateConnection m.edgeMatrix p c =
        ({ info with dstMixId := p.destMixId, dstSplitterId := p.destSplitterId }, e', true) := by
    rw [updateConnection_eq (hinfo.trans hnew), htargets, hid, hedges]
  have hstate : (m.updateMix b c k p).1 =
      { m with
        mixInfos := Function.update m.mixInfos k ⟨true, p.mixId, p.destMixId, p.destSplitterId⟩
        edgeMatrix := e' } := by
    simp only [MixContext.updateMix, hp, if_true, MixInfo.update, hsplitter]
    rw [hconnection ⟨true, p.mixId, (m.mixInfos k).dstMixId, (m.mixInfos k).dstSplitterId⟩ rfl hown]
  have hguest : g.update m c k p =
      { sends := Function.update g.sends k (some (p.destMixId, p.destSplitterId))
        seen := Function.update g.seen k ts } := by
    simp [Guest.update, hp, hnew, htargets]
  rw [hstate, hguest]
  refine ⟨hcount.trans h.edgeCount, h.nodeCount, h.stack, h.fits, hcontained h.contained, ?_, ?_, ?_, ?_, ?_⟩
  · intro i j hi hj
    rw [hconnected i j (h.edgeCount ▸ hi) (h.edgeCount ▸ hj)]
    by_cases hik : i = k
    · simp [hik]
    · simp only [if_neg hik, update_of_ne hik]
      exact h.rows i j hi hj
  · intro i hi x hx
    by_cases hik : i = k
    · subst hik
      simp only [update_self] at hx
      exact hexist x hx
    · simp only [update_of_ne hik] at hx
      exact h.seenRange i hi x hx
  · intro i hi d s hsends
    by_cases hik : i = k
    · subst hik
      simp only [update_self, Option.some.injEq, Prod.mk.injEq] at hsends ⊢
      exact hsends
    · simp only [update_of_ne hik] at hsends ⊢
      exact h.used i hi d s hsends
  · intro i hi d s hsends hds c' x
    by_cases hik : i = k
    · subst hik
      simp only [update_self, Option.some.injEq, Prod.mk.injEq] at hsends ⊢
      obtain ⟨rfl, rfl⟩ := hsends
      rw [← htargets, targets_congr c c' hds]
    · simp only [update_of_ne hik] at hsends ⊢
      exact h.direct i hi d s hsends hds c' x
  · intro i hi hsends
    by_cases hik : i = k
    · subst hik
      simp at hsends
    · simp only [update_of_ne hik] at hsends ⊢
      exact h.unused i hi hsends

lemma updateMix : Follow (m.updateMix b c k p).1 (g.update m c k p) := by
  cases hp : p.inUse with
  | false => exact h.updateMix_unused hadmits hp
  | true =>
    cases hnew : (m.mixInfos k).reconnects p c with
    | false => exact h.updateMix_kept hsplitter hadmits hp hnew
    | true => exact h.updateMix_reconnected hsplitter hadmits hp hnew

end

end Follow

/-! ## One call -/

/-- The condition at every parameter of an `UpdateMixes`. -/
def MixContext.AdmitsAll (b : Behavior) (c : SplitterContext) : ℕ → List MixParameter → MixContext → Prop
  | _, [], _ => True
  | i, p :: ps, m => m.Admits c (mixOf b i p) p ∧ AdmitsAll b c (i + 1) ps (m.updateMix b c (mixOf b i p) p).1

def Guest.updateAll (b : Behavior) (c : SplitterContext) : ℕ → List MixParameter → MixContext → Guest → Guest
  | _, [], _, g => g
  | i, p :: ps, m, g =>
      updateAll b c (i + 1) ps (m.updateMix b c (MixContext.mixOf b i p) p).1 (g.update m c (MixContext.mixOf b i p) p)

namespace Follow

variable {m : MixContext} {c : SplitterContext} {g : Guest} {b : Behavior}

lemma updateMix_count (b : Behavior) (m : MixContext) (c : SplitterContext) (k : ℕ) (p : MixParameter) :
    (m.updateMix b c k p).1.count = m.count := by
  unfold MixContext.updateMix
  split_ifs <;> rfl

variable {ps : List MixParameter}

lemma updateLoop {i : ℕ} {dirty : Bool} (h : Follow m g)
    (hsplitter : b.splitterSupported = true) (hadmits : MixContext.AdmitsAll b c i ps m) :
    Follow (MixContext.updateLoop b c i ps m dirty).1 (Guest.updateAll b c i ps m g) ∧
      (MixContext.updateLoop b c i ps m dirty).1.count = m.count := by
  induction ps generalizing i m g dirty with
  | nil => exact ⟨h, rfl⟩
  | cons p ps ih =>
    obtain ⟨hrest, hcount⟩ := ih (h.updateMix hsplitter hadmits.1) hadmits.2
    exact ⟨hrest, hcount.trans (updateMix_count b m c _ p)⟩

lemma sorted (h : Follow m g) {r : NodeStates × Bool} (hr : m.nodeStates.tsort m.edgeMatrix = some r) :
    Follow { m with nodeStates := r.1 } g ∧ (r.2 = false → ∃ x, Relation.TransGen m.edgeMatrix.Edge x x) := by
  have hcounts : m.edgeMatrix.count = m.nodeStates.nodeCount := h.edgeCount.trans h.nodeCount.symm
  obtain ⟨hstack, hcount, hcycle⟩ := NodeStates.tsort_false hcounts
    (fun x hx => lt_of_lt_of_eq (h.stack x hx) h.nodeCount.symm) hr
  refine ⟨⟨h.edgeCount, hcount.trans h.nodeCount, fun x hx => ?_, h.fits, h.contained, h.rows, h.seenRange,
    h.used, h.direct, h.unused⟩, hcycle⟩
  exact lt_of_lt_of_eq (hstack x hx) h.nodeCount

lemma updateMixes {mixBufferCount mixSize : ℕ} (h : Follow m g) (hsplitter : b.splitterSupported = true)
    (hadmits : m.checks b ps mixBufferCount = true → MixContext.AdmitsAll b c 0 ps m) :
    ∃ m' o, m.updateMixes b c ps mixBufferCount mixSize = some (m', o) ∧
      Follow m' (if m.checks b ps mixBufferCount then Guest.updateAll b c 0 ps m g else g) ∧
      m'.count = m.count ∧ (o = .unsorted → ∃ x, Relation.TransGen m'.edgeMatrix.Edge x x) := by
  unfold MixContext.updateMixes
  cases hchecks : m.checks b ps mixBufferCount with
  | false => exact ⟨m, .rejected, rfl, h, rfl, fun h => by simp at h⟩
  | true =>
    obtain ⟨hloop, hcount⟩ : Follow (MixContext.updateLoop b c 0 ps m false).1 _ ∧ _ :=
      h.updateLoop hsplitter (hadmits hchecks)
    generalize MixContext.updateLoop b c 0 ps m false = q at hloop hcount
    obtain ⟨m1, dirty⟩ := q
    simp only [Bool.not_true, Bool.false_eq_true, if_false, if_true]
    by_cases hsort : (dirty && b.splitterSupported && c.usingSplitter) = true
    · rw [if_pos hsort]
      have hcounts : m1.edgeMatrix.count = m1.nodeStates.nodeCount :=
        hloop.edgeCount.trans hloop.nodeCount.symm
      obtain ⟨r, hr⟩ := Option.isSome_iff_exists.1 (NodeStates.tsort_isSome hcounts
        fun x hx => lt_of_lt_of_eq (hloop.stack x hx) hloop.nodeCount.symm)
      obtain ⟨hfollow, hcycle⟩ := hloop.sorted hr
      rw [hr, Option.map_some]
      refine ⟨_, _, rfl, hfollow, hcount, fun ho => hcycle ?_⟩
      by_contra hsorted
      rw [Bool.not_eq_false] at hsorted
      rw [hsorted, if_pos rfl] at ho
      split_ifs at ho
    · rw [if_neg hsort]
      refine ⟨_, _, rfl, hloop, hcount, fun ho => ?_⟩
      split_ifs at ho

end Follow

/-! ## Updates of the splitters come back -/

namespace SplitterContext

variable {c : SplitterContext}

/-- All links lead to destinations that exist. -/
structure Closed (c : SplitterContext) : Prop where
  links : ∀ x y, links c.splitterDestinations x = some y → y < c.destinationsCount
  heads : ∀ s y, (c.splitterInfos s).destinations = some y → y < c.destinationsCount

/-- Every info that `UpdateInfo` takes up is for a splitter that exists and names destinations that exist. -/
def IdsExist (infoCount destinationsCount : ℕ) (input : ℕ → BitVec 32) : ℕ → ℕ → Prop
  | 0, _ => True
  | count + 1, offset =>
      let info := InfoParameter.read input offset
      if info.magic ≠ splitterInfoMagic then IdsExist infoCount destinationsCount input count offset
      else if info.id < 0 ∨ (infoCount : ℤ) < info.id then True
      else info.id ≠ infoCount ∧ (∀ x ∈ info.destinationIds, x < destinationsCount) ∧
        IdsExist infoCount destinationsCount input count (offset + (7 + info.destinationIds.length))

/-- How many of the first `n` destinations have a successor. -/
def linked (n : ℕ) (d : ℕ → SplitterDestinationData) : ℕ :=
  ((Finset.range n).filter fun i => (links d i).isSome).card

variable {n count offset : ℕ} {d : ℕ → SplitterDestinationData}

lemma linked_setNext {x : ℕ} (hx : x < n)
    (hnext : (links d x).isSome = true) : linked n (setNext d x none) + 1 = linked n d := by
  have herase : (Finset.range n).filter (fun i => (links (setNext d x none) i).isSome) =
      ((Finset.range n).filter fun i => (links d i).isSome).erase x := by
    ext i
    rw [links_setNext]
    by_cases hi : i = x
    · subst hi
      simp
    · simp [hi]
  rw [linked, linked, herase]
  exact Finset.card_erase_add_one (by simp [hx, hnext])

/-- The unlinking walk ends: every step takes a link away. -/
lemma unlink_isSome {fuel : ℕ} {head : Option ℕ}
    (hlinks : ∀ x y, links d x = some y → y < n) (hhead : ∀ y, head = some y → y < n)
    (hfuel : linked n d + 1 ≤ fuel) :
    ∃ d', unlink fuel d head = some d' ∧ ∀ x, links d' x = none ∨ links d' x = links d x := by
  induction fuel generalizing d head with
  | zero => omega
  | succ fuel ih =>
    cases head with
    | none => exact ⟨d, by unfold unlink; rfl, fun x => .inr rfl⟩
    | some x =>
      have hx := hhead x rfl
      have hkept (y : ℕ) : links (setNext d x none) y = none ∨ links (setNext d x none) y = links d y := by
        rw [links_setNext]
        by_cases hy : y = x
        · subst hy
          exact .inl (update_self _ _ _)
        · exact .inr (update_of_ne hy _ _)
      have hlinks' : ∀ y z, links (setNext d x none) y = some z → z < n := by
        intro y z hyz
        rcases hkept y with h | h
        · rw [h] at hyz
          simp at hyz
        · exact hlinks y z (h ▸ hyz)
      have hstep : ∃ d', unlink fuel (setNext d x none) (links d x) = some d' ∧
          ∀ y, links d' y = none ∨ links d' y = links (setNext d x none) y := by
        cases hnext : links d x with
        | none =>
          refine ⟨setNext d x none, ?_, fun y => .inr rfl⟩
          unfold unlink
          rfl
        | some y =>
          have hcard := linked_setNext hx (show (links d x).isSome = true by rw [hnext]; rfl)
          exact ih hlinks' (fun z hz => hlinks x z (hnext.trans hz)) (by omega)
      obtain ⟨d', hd', hspec⟩ := hstep
      refine ⟨d', hd', fun y => ?_⟩
      rcases hspec y with h | h
      · exact .inl h
      · rcases hkept y with h' | h'
        · exact .inl (h.trans h')
        · exact .inr (h.trans h')

lemma links_link {current : ℕ} {ids : List ℕ} (x y : ℕ)
    (h : links (link d current ids) x = some y) : links d x = some y ∨ y ∈ ids := by
  induction ids generalizing d current with
  | nil => exact .inl h
  | cons i ids ih =>
    rcases ih h with h | h
    · rw [links_setNext] at h
      by_cases hx : x = current
      · subst hx
        rw [update_self, Option.some.injEq] at h
        exact .inr (h ▸ mem_cons_self)
      · rw [update_of_ne hx] at h
        exact .inl h
    · exact .inr (mem_cons_of_mem _ h)

lemma linked_le (n : ℕ) (d : ℕ → SplitterDestinationData) : linked n d ≤ n := by
  refine (Finset.card_filter_le _ _).trans ?_
  rw [Finset.card_range]

lemma Closed.recomposeDestination (h : c.Closed) (s : ℕ) {info : InfoParameter}
    (hids : ∀ x ∈ info.destinationIds, x < c.destinationsCount) :
    ∃ c', c.recomposeDestination s info = some c' ∧ c'.Closed ∧ c'.infoCount = c.infoCount ∧
      c'.destinationsCount = c.destinationsCount := by
  obtain ⟨d, hd, hkept⟩ := unlink_isSome h.links (h.heads s)
    (Nat.succ_le_succ (linked_le c.destinationsCount c.splitterDestinations))
  have hlinks : ∀ x y, Audio.links d x = some y → y < c.destinationsCount := by
    intro x y hxy
    rcases hkept x with hx | hx
    · rw [hx] at hxy
      simp at hxy
    · exact h.links x y (hx ▸ hxy)
  unfold SplitterContext.recomposeDestination
  rw [hd, Option.map_some]
  have hids' : ∀ x ∈ (if c.splitterBugFixed then info.destinationIds
      else info.destinationIds.take (min info.destinationIds.length c.getDestCountPerInfoForCompat)),
      x < c.destinationsCount := by
    split_ifs
    · exact hids
    · exact fun x hx => hids x (mem_of_mem_take hx)
  generalize (if c.splitterBugFixed then info.destinationIds
    else info.destinationIds.take (min info.destinationIds.length c.getDestCountPerInfoForCompat)) = ids
    at hids'
  have hheads (new : SplitterInfo) (hnew : ∀ y, new.destinations = some y → y < c.destinationsCount)
      (t y : ℕ) (hy : (Function.update c.splitterInfos s new t).destinations = some y) :
      y < c.destinationsCount := by
    by_cases ht : t = s
    · subst ht
      rw [update_self] at hy
      exact hnew y hy
    · rw [update_of_ne ht] at hy
      exact h.heads t y hy
  cases ids with
  | nil => exact ⟨_, rfl, ⟨hlinks, hheads _ fun y hy => by simp at hy⟩, rfl, rfl⟩
  | cons i ids =>
    refine ⟨_, rfl, ⟨fun x y hxy => ?_, hheads _ fun y hy => ?_⟩, rfl, rfl⟩
    · rcases links_link x y hxy with hxy | hy
      · exact hlinks x y hxy
      · exact hids' y (mem_cons_of_mem _ hy)
    · obtain rfl : i = y := by simpa using hy
      exact hids' i mem_cons_self

lemma Closed.of_same {c' : SplitterContext} (h : c.Closed)
    (hdestinations : ∀ s, (c'.splitterInfos s).destinations = (c.splitterInfos s).destinations)
    (hlinks : Audio.links c'.splitterDestinations = Audio.links c.splitterDestinations)
    (hcount : c'.destinationsCount = c.destinationsCount) : c'.Closed where
  links x y hxy := by
    rw [hcount]
    exact h.links x y (hlinks ▸ hxy)
  heads s y hy := by
    rw [hcount]
    exact h.heads s y (hdestinations s ▸ hy)

variable {input : ℕ → BitVec 32}

lemma Closed.updateInfo (h : c.Closed) (hids : IdsExist c.infoCount c.destinationsCount input count offset) :
    ∃ c' offset', SplitterContext.updateInfo input count c offset = some (c', offset') ∧ c'.Closed ∧
      c'.infoCount = c.infoCount ∧ c'.destinationsCount = c.destinationsCount := by
  induction count generalizing c offset with
  | zero => exact ⟨c, offset, rfl, h, rfl, rfl⟩
  | succ count ih =>
    unfold SplitterContext.updateInfo
    unfold IdsExist at hids
    generalize InfoParameter.read input offset = info at hids ⊢
    by_cases hmagic : info.magic ≠ splitterInfoMagic
    · rw [if_pos hmagic] at hids ⊢
      exact ih h hids
    · rw [if_neg hmagic] at hids ⊢
      by_cases hrange : info.id < 0 ∨ (c.infoCount : ℤ) < info.id
      · rw [if_pos hrange]
        exact ⟨c, offset, rfl, h, rfl, rfl⟩
      · rw [if_neg hrange] at hids ⊢
        obtain ⟨-, hdestinations, hrest⟩ := hids
        obtain ⟨c1, hc1, h1, hcount1, hdestinations1⟩ :=
          h.recomposeDestination info.id.toNat hdestinations
        have h2 : (c1.updateSplitterInfo info.id.toNat info).1.Closed := by
          refine h1.of_same (fun t => ?_) rfl rfl
          by_cases ht : t = info.id.toNat
          · subst ht
            simp [updateSplitterInfo]
          · simp [updateSplitterInfo, update_of_ne ht]
        rw [hc1, Option.bind_some]
        obtain ⟨c2, offset2, hc2, hclosed, hcount2, hdestinations2⟩ := ih h2 (by
          have hrest' := hrest
          rw [← hcount1, ← hdestinations1] at hrest'
          exact hrest')
        exact ⟨c2, offset2, hc2, hclosed, hcount2.trans hcount1, hdestinations2.trans hdestinations1⟩

lemma Closed.updateData (h : c.Closed) : (SplitterContext.updateData input count c offset).1.Closed := by
  obtain ⟨hinfos, hlinks, -, hcount, -⟩ := updateData_same input count c offset
  exact h.of_same (fun s => by rw [hinfos]) hlinks hcount

/-- **An update of the splitters comes back.** -/
lemma Closed.update (h : c.Closed) (hids : IdsExist c.infoCount c.destinationsCount input (input 1).toNat 8) :
    ∃ q, c.update input = some q ∧ q.1.Closed ∧ q.1.infoCount = c.infoCount ∧
      q.1.destinationsCount = c.destinationsCount := by
  unfold SplitterContext.update
  by_cases hunused : c.destinationsCount = 0 ∨ c.infoCount = 0
  · rw [if_pos hunused]
    exact ⟨_, rfl, h, rfl, rfl⟩
  · rw [if_neg hunused]
    by_cases hmagic : input 0 ≠ splitterInParamHeaderMagic
    · rw [if_pos hmagic]
      exact ⟨_, rfl, h, rfl, rfl⟩
    · rw [if_neg hmagic]
      have hcleared : c.clearNewConnectionFlags.Closed := h.of_same (fun _ => rfl) rfl rfl
      obtain ⟨c1, offset, hc1, h1, hinfo, hdestinations⟩ := hcleared.updateInfo hids
      obtain ⟨-, -, hinfo2, hdestinations2, -⟩ := updateData_same input (input 2).toNat c1 offset
      rw [hc1, Option.map_some]
      exact ⟨_, rfl, h1.updateData, hinfo2.trans hinfo, hdestinations2.trans hdestinations⟩

end SplitterContext

/-! ## Runs -/

/-- A step of `System::Update`. -/
inductive RendererCall
  | updateSplitterInfo (input : ℕ → BitVec 32)
  | updateMixes (params : List MixParameter) (mixBufferCount mixSize : ℕ)

/-- The two contexts, and what the guest said. -/
structure Renderer where
  splitter : SplitterContext
  mixes : MixContext
  guest : Guest

namespace Renderer

def init (infoCount destinationsCount count : ℕ) (bugFixed biquad float : Bool) : Renderer where
  splitter := .init infoCount destinationsCount bugFixed biquad float
  mixes := .init count
  guest := ⟨fun _ => none, fun _ => []⟩

/-- A call, and what becomes of an `UpdateMixes`. -/
def call (b : Behavior) (r : Renderer) : RendererCall → Option (Renderer × Option MixContext.Outcome)
  | .updateSplitterInfo input => (r.splitter.update input).map fun q => ({ r with splitter := q.1 }, none)
  | .updateMixes params mixBufferCount mixSize =>
      (r.mixes.updateMixes b r.splitter params mixBufferCount mixSize).map fun q =>
        (⟨r.splitter, q.1, if r.mixes.checks b params mixBufferCount then
          Guest.updateAll b r.splitter 0 params r.mixes r.guest else r.guest⟩, some q.2)

/-- The condition at a call: the ids of an update of the splitters exist, and the parameters of an update of the
mixes that passes its checks meet `MixContext.Admits`. -/
def Admits (b : Behavior) (r : Renderer) : RendererCall → Prop
  | .updateSplitterInfo input =>
      SplitterContext.IdsExist r.splitter.infoCount r.splitter.destinationsCount input (input 1).toNat 8
  | .updateMixes params mixBufferCount _ => r.mixes.checks b params mixBufferCount = true →
      MixContext.AdmitsAll b r.splitter 0 params r.mixes

inductive Runs (b : Behavior) : Renderer → List RendererCall → Renderer → Prop
  | nil (r : Renderer) : Runs b r [] r
  | cons {r r1 r2 : Renderer} {c : RendererCall} {cs : List RendererCall}
      {o : Option MixContext.Outcome} (hadmits : r.Admits b c) (hcall : r.call b c = some (r1, o))
      (hruns : Runs b r1 cs r2) : Runs b r (c :: cs) r2

/-- The splitters have not changed since the mixes in use were last connected: a mix that sends to a splitter was
connected to the mixes that the destinations of the splitter have now. -/
def Current (r : Renderer) : Prop :=
  ∀ k < r.mixes.count, ∀ s, s ≠ unusedSplitterId → r.guest.sends k = some (unusedMixId, s) →
    ∀ x, x ∈ r.guest.seen k ↔ x ∈ r.splitter.destinationMixes s.toNat

/-- **The graph that the guest asked for**: a mix in use and a mix that it sends to. -/
def Sends (r : Renderer) (i j : ℕ) : Prop :=
  ∃ d s, r.guest.sends i = some (d, s) ∧ (j : ℤ) ∈ targets r.splitter d s

structure Sound (r : Renderer) (count : ℕ) : Prop where
  closed : r.splitter.Closed
  follow : Follow r.mixes r.guest
  count : r.mixes.count = count

variable {b : Behavior} {r r1 : Renderer} {count : ℕ}

lemma Sound.init {infoCount destinationsCount : ℕ} {bugFixed biquad float : Bool} (hcount : count * count ≤ 2 ^ 32) :
    (Renderer.init infoCount destinationsCount count bugFixed biquad float).Sound count where
  closed := ⟨fun x y h => by simp [Renderer.init, SplitterContext.init, links] at h,
    fun s y h => by simp [Renderer.init, SplitterContext.init] at h⟩
  follow := ⟨rfl, rfl, fun x hx => by simp [Renderer.init, MixContext.init] at hx, hcount, fun _ _ => rfl,
    fun i j _ _ => by simp [Renderer.init, MixContext.init, EdgeMatrix.connected],
    fun i _ x hx => by simp [Renderer.init] at hx, fun k _ d s h => by simp [Renderer.init] at h,
    fun k _ d s h => by simp [Renderer.init] at h, fun k _ _ => ⟨rfl, rfl⟩⟩
  count := rfl

/-- **One call** comes back and keeps what holds. -/
lemma Sound.call (h : r.Sound count) (hsplitter : b.splitterSupported = true) {c : RendererCall}
    (hadmits : r.Admits b c) :
    ∃ q, r.call b c = some q ∧ q.1.Sound count ∧
      (q.2 = some .unsorted → ∃ x, Relation.TransGen q.1.mixes.edgeMatrix.Edge x x) := by
  cases c with
  | updateSplitterInfo input =>
    obtain ⟨q, hq, hclosed, -⟩ := h.closed.update hadmits
    exact ⟨_, by simp only [Renderer.call, hq, Option.map_some]; rfl, ⟨hclosed, h.follow, h.count⟩,
      fun ho => by simp at ho⟩
  | updateMixes params mixBufferCount mixSize =>
    obtain ⟨m', o, hm', hfollow, hcount, hcycle⟩ :
        ∃ m' o, r.mixes.updateMixes b r.splitter params mixBufferCount mixSize = some (m', o) ∧ _ :=
      h.follow.updateMixes hsplitter hadmits
    refine ⟨_, by simp only [Renderer.call, hm', Option.map_some]; rfl,
      ⟨h.closed, hfollow, hcount.trans h.count⟩, fun ho => hcycle ?_⟩
    exact Option.some.inj ho

lemma Sound.run {cs : List RendererCall} (h : r.Sound count) (hsplitter : b.splitterSupported = true)
    (hruns : Runs b r cs r1) : r1.Sound count := by
  induction hruns with
  | nil => exact h
  | cons hadmits hcall _ ih =>
    obtain ⟨q, hq, hsound, -⟩ := h.call hsplitter hadmits
    obtain rfl := Option.some.inj (hq.symm.trans hcall)
    exact ih hsound

/-- The edges are the graph, if the splitters have not changed since. -/
lemma Sound.connected_iff (h : r.Sound count) (hcurrent : r.Current) {i j : ℕ} (hi : i < count)
    (hj : j < count) : r.mixes.edgeMatrix.connected i j = true ↔ r.Sends i j := by
  have hi' : i < r.mixes.count := h.count ▸ hi
  rw [h.follow.rows i j hi' (h.count ▸ hj)]
  unfold Sends
  cases hsends : r.guest.sends i with
  | none => simp [(h.follow.unused i hi' hsends).2]
  | some q =>
    obtain ⟨d, s⟩ := q
    simp only [Option.some.injEq, Prod.mk.injEq]
    have hseen : ∀ x, x ∈ r.guest.seen i ↔ x ∈ targets r.splitter d s := by
      intro x
      by_cases hdirect : d ≠ unusedMixId ∨ s = unusedSplitterId
      · exact h.follow.direct i hi' d s hsends hdirect r.splitter x
      · obtain ⟨rfl, hs⟩ : d = unusedMixId ∧ s ≠ unusedSplitterId := by
          simpa [not_or] using hdirect
        rw [hcurrent i hi' s hs hsends x]
        simp [targets, hs]
    constructor
    · exact fun hx => ⟨d, s, ⟨rfl, rfl⟩, (hseen j).1 hx⟩
    · rintro ⟨d', s', ⟨rfl, rfl⟩, hx⟩
      exact (hseen j).2 hx

end Renderer

/-- The parameters for the mixes in order. -/
def inOrder : Behavior := ⟨true, false⟩

/-- The parameter of a mix in use, and of one that is not. -/
def mixTo (i dest : ℤ) : MixParameter := ⟨1, true, i, dest, unusedSplitterId⟩

def mixOff (i : ℤ) : MixParameter := ⟨0, false, i, unusedMixId, unusedSplitterId⟩

/-- The final mix, a mix that sends to it and one that sends to this one. -/
def chainOfMixes : List MixParameter := [mixTo 0 unusedMixId, mixTo 1 0, mixTo 2 1]

/-- A mix goes out of use while another turns to it. -/
def turned : List MixParameter := [mixTo 0 unusedMixId, mixOff 1, mixTo 2 1]

end Voltemu.Audio
