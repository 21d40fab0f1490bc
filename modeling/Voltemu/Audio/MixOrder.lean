import Voltemu.Audio.MixContext
import Voltemu.Audio.TopologicalSort

/-!
# The order of the mixes without splitters

`MixContext::SortInfo`: the mixes are sorted by their distance from the final mix, the farthest first.

* `UpdateDistancesFromFinalMix` goes through the mixes in the order of their indices.  From each it follows the
  destinations, and stops early at a mix whose distance it has already.
* `std::ranges::sort` may order mixes of the same distance as it likes, so `IsOrder` is a relation.
* A walk that stops early forgets the steps it has made.  `distances_right_iff` says when it has made none.
* `CalcMixBufferOffset`, which runs behind the sort, is left out: it changes neither the order nor the distances.
-/

namespace Voltemu.Audio

open Function

def invalidDistance : ℤ := -2 ^ 31

namespace MixContext

/-- The walk from a mix, with the rounds that are left until the distance is `count`. -/
def distanceLoop (m : MixContext) (distances : ℕ → ℤ) : ℕ → ℤ → ℤ → ℤ
  | 0, _, distance => distance
  | left + 1, mixId, distance =>
      if mixId = finalMixId then distance
      else if mixId = unusedMixId then invalidDistance
      else if distances mixId.toNat ≠ invalidDistance then distances mixId.toNat + 1
      else distanceLoop m distances left (m.mixInfos mixId.toNat).dstMixId (distance + 1)

def distanceOf (m : MixContext) (distances : ℕ → ℤ) (i : ℕ) : ℤ :=
  let distance := m.distanceLoop distances m.count (m.mixInfos i).mixId finalMixId
  if m.count ≤ distance then invalidDistance else distance

/-- The distances when the mixes before `n` have been gone through. -/
def distancesUpTo (m : MixContext) (n : ℕ) : ℕ → ℤ :=
  (List.range n).foldl (fun distances i =>
    if (m.mixInfos i).inUse then update distances i (m.distanceOf distances i) else distances)
    fun _ => invalidDistance

/-- `UpdateDistancesFromFinalMix`: `distance_from_final_mix` of every mix. -/
def updateDistancesFromFinalMix (m : MixContext) : ℕ → ℤ := m.distancesUpTo m.count

/-- An order that `SortInfo` may give. -/
structure IsOrder (m : MixContext) (order : List ℕ) : Prop where
  perm : order.Perm (List.range m.count)
  sorted : order.Pairwise fun i j => m.updateDistancesFromFinalMix j ≤ m.updateDistancesFromFinalMix i

/-! ## Chains -/

/-- The chain of destinations of a mix comes to the final mix in `d` steps, through mixes in use. -/
inductive Chain (m : MixContext) : ℕ → ℕ → Prop
  | final (lt : 0 < m.count) (used : (m.mixInfos 0).inUse = true) : Chain m 0 0
  | step {i j d : ℕ} (hi : i ≠ 0) (lt : i < m.count) (used : (m.mixInfos i).inUse = true)
      (sends : (m.mixInfos i).dstMixId = j) (rest : Chain m j d) : Chain m i (d + 1)

/-- The second mix is on the chain of the first, at its beginning or later. -/
inductive OnChain (m : MixContext) : ℕ → ℕ → Prop
  | here (i : ℕ) : OnChain m i i
  | later {i j k : ℕ} (hi : i ≠ 0) (sends : (m.mixInfos i).dstMixId = j) (rest : OnChain m j k) : OnChain m i k

/-- The ids of the mixes are their indices, and they send to mixes that there are or to none. -/
structure InRange (m : MixContext) : Prop where
  count : m.count < 2 ^ 31
  ids : ∀ i < m.count, (m.mixInfos i).mixId = i
  destinations : ∀ i < m.count, (m.mixInfos i).dstMixId = unusedMixId ∨
    0 ≤ (m.mixInfos i).dstMixId ∧ (m.mixInfos i).dstMixId < m.count

/-- **What the distances and the order are for**: of every mix on the way to the final mix the distance is the length
of its way, and it comes before the mix that it sends to, whatever the order of equal distances. -/
def OrderRight (m : MixContext) : Prop :=
  ∀ i d, m.Chain i d → m.updateDistancesFromFinalMix i = d ∧
    ∀ order, m.IsOrder order → ∀ j : ℕ, i ≠ 0 → (m.mixInfos i).dstMixId = j → order.idxOf i < order.idxOf j

/-- A mix whose chain goes through a mix of a lower index sends to a mix of a lower index itself. -/
def ShortcutsDirect (m : MixContext) : Prop :=
  ∀ i d j k, m.Chain i d → i ≠ 0 → (m.mixInfos i).dstMixId = (j : ℕ) → m.OnChain j k → k ≠ 0 → k < i → j < i

section Chains

variable {m : MixContext} {i j k d d' : ℕ}

section

variable (h : m.Chain i d)
include h

lemma Chain.start : i < m.count ∧ (m.mixInfos i).inUse = true := by
  cases h with
  | final lt used => exact ⟨lt, used⟩
  | step hi lt used sends rest => exact ⟨lt, used⟩

lemma Chain.next (hi : i ≠ 0) (hsends : (m.mixInfos i).dstMixId = j) : ∃ d', d = d' + 1 ∧ m.Chain j d' := by
  cases h with
  | final lt used => exact absurd rfl hi
  | @step _ j' d' hi lt used sends rest =>
    obtain rfl : j' = j := by
      rw [sends] at hsends
      exact_mod_cast hsends
    exact ⟨d', rfl, rest⟩

lemma Chain.sends (hi : i ≠ 0) : ∃ j : ℕ, (m.mixInfos i).dstMixId = j := by
  cases h with
  | final lt used => exact absurd rfl hi
  | step hi lt used sends rest => exact ⟨_, sends⟩

lemma Chain.unique (h' : m.Chain i d') : d = d' := by
  induction h generalizing d' with
  | final lt used =>
    cases h' with
    | final _ _ => rfl
    | step hi _ _ _ _ => exact absurd rfl hi
  | step hi lt used sends rest ih =>
    obtain ⟨d'', rfl, hrest⟩ := h'.next hi sends
    rw [ih hrest]

lemma Chain.onChain (hon : m.OnChain i k) : ∃ d', m.Chain k d' ∧ (k = i ∨ d' < d) := by
  induction hon generalizing d with
  | here i => exact ⟨d, h, .inl rfl⟩
  | later hi sends rest ih =>
    obtain ⟨d', rfl, hrest⟩ := h.next hi sends
    obtain ⟨d'', hk, hlt⟩ := ih hrest
    refine ⟨d'', hk, .inr ?_⟩
    rcases hlt with rfl | hlt
    · rw [hk.unique hrest]
      omega
    · omega

end

lemma OnChain.next (h : m.OnChain i k) (hne : k ≠ i) (hsends : (m.mixInfos i).dstMixId = j) : m.OnChain j k := by
  cases h with
  | here => exact absurd rfl hne
  | @later _ j' _ _ sends rest =>
    obtain rfl : j' = j := by
      rw [hsends] at sends
      exact_mod_cast sends.symm
    exact rest

lemma Chain.nodes (h : m.Chain i d) : ∃ l : List ℕ, l.length = d + 1 ∧ l.Nodup ∧ ∀ x ∈ l, ∃ d' ≤ d, m.Chain x d' := by
  induction h with
  | final lt used =>
    exact ⟨[0], rfl, List.nodup_singleton 0, fun x hx => ⟨0, le_refl 0, by
      rw [List.mem_singleton.1 hx]
      exact .final lt used⟩⟩
  | @step i j d hi lt used sends rest ih =>
    have hchain : m.Chain i (d + 1) := .step hi lt used sends rest
    obtain ⟨l, hlength, hnodup, hl⟩ := ih
    refine ⟨i :: l, by simp [hlength], List.nodup_cons.2 ⟨fun hmem => ?_, hnodup⟩, fun x hx => ?_⟩
    · obtain ⟨d', hle, hd'⟩ := hl i hmem
      have := hchain.unique hd'
      omega
    · rcases List.mem_cons.1 hx with rfl | hx
      · exact ⟨d + 1, le_refl _, hchain⟩
      · obtain ⟨d', hle, hd'⟩ := hl x hx
        exact ⟨d', by omega, hd'⟩

/-- So it is shorter than there are mixes. -/
lemma Chain.lt_count (h : m.Chain i d) : d < m.count := by
  obtain ⟨l, hlength, hnodup, hl⟩ := h.nodes
  have hle := NodeStates.length_le_of_nodup hnodup fun x hx => by
    obtain ⟨d', -, hchain⟩ := hl x hx
    exact hchain.start.1
  omega

end Chains

/-! ## The walk -/

section Walk

variable {m : MixContext} {distances : ℕ → ℤ} {i j d : ℕ}

section

variable (hcount : m.count < 2 ^ 31) (hi : i < m.count)
include hcount hi

lemma natCast_ne_unused : (i : ℤ) ≠ unusedMixId := by
  unfold unusedMixId
  omega

lemma distanceLoop_step (h0 : i ≠ 0) (hnone : distances i = invalidDistance) (left : ℕ) (distance : ℤ) :
    m.distanceLoop distances (left + 1) i distance =
      m.distanceLoop distances left (m.mixInfos i).dstMixId (distance + 1) := by
  have hfinal : (i : ℤ) ≠ finalMixId := by
    unfold finalMixId
    omega
  rw [distanceLoop, if_neg hfinal, if_neg (natCast_ne_unused hcount hi), Int.toNat_natCast, if_neg (not_not.2 hnone)]

lemma distanceLoop_shortcut (h0 : i ≠ 0) (hsome : distances i ≠ invalidDistance) (left : ℕ) (distance : ℤ) :
    m.distanceLoop distances (left + 1) i distance = distances i + 1 := by
  have hfinal : (i : ℤ) ≠ finalMixId := by
    unfold finalMixId
    omega
  rw [distanceLoop, if_neg hfinal, if_neg (natCast_ne_unused hcount hi), Int.toNat_natCast, if_pos hsome]

end

/-- **A walk on a chain** comes to its end, or to the first mix whose distance is there. -/
lemma distanceLoop_chain (distances : ℕ → ℤ) (hcount : m.count < 2 ^ 31) (h : m.Chain i d) {left : ℕ}
    (hleft : d < left) (distance : ℤ) :
    (m.distanceLoop distances left i distance = distance + d ∧
      ∀ k, m.OnChain i k → k ≠ 0 → distances k = invalidDistance) ∨
    ∃ k d', m.OnChain i k ∧ k ≠ 0 ∧ m.Chain k d' ∧ distances k ≠ invalidDistance ∧
      m.distanceLoop distances left i distance = distances k + 1 := by
  induction h generalizing left distance with
  | final lt used =>
    obtain ⟨left, rfl⟩ : ∃ l, left = l + 1 := ⟨left - 1, by omega⟩
    refine .inl ⟨by simp [distanceLoop, finalMixId], fun k hon hk => ?_⟩
    cases hon with
    | here => exact absurd rfl hk
    | later hi _ _ => exact absurd rfl hi
  | @step i j d hi lt used sends rest ih =>
    obtain ⟨left, rfl⟩ : ∃ l, left = l + 1 := ⟨left - 1, by omega⟩
    by_cases hnone : distances i = invalidDistance
    · rw [distanceLoop_step hcount lt hi hnone, sends]
      rcases ih (show d < left by omega) (distance + 1) with ⟨hloop, hall⟩ | ⟨k, d', hon, hk, hchain, hsome, hloop⟩
      · refine .inl ⟨by rw [hloop]; push_cast; omega, fun k hon hk => ?_⟩
        by_cases hki : k = i
        · rw [hki]
          exact hnone
        · exact hall k (hon.next hki sends) hk
      · exact .inr ⟨k, d', .later hi sends hon, hk, hchain, hsome, hloop⟩
    · exact .inr ⟨i, d + 1, .here i, hi, .step hi lt used sends rest, hnone,
        distanceLoop_shortcut hcount lt hi hnone left distance⟩

end Walk

/-! ## The distances -/

section Distances

variable {m : MixContext} {i j k d n : ℕ}

lemma distancesUpTo_succ (m : MixContext) (n : ℕ) :
    m.distancesUpTo (n + 1) =
      if (m.mixInfos n).inUse then
        update (m.distancesUpTo n) n (m.distanceOf (m.distancesUpTo n) n)
      else m.distancesUpTo n := by
  simp [distancesUpTo, List.range_succ]

/-- The mixes are gone through in the order of their indices. -/
lemma distancesUpTo_of_le (h : n ≤ i) : m.distancesUpTo n i = invalidDistance := by
  induction n with
  | zero => rfl
  | succ n ih =>
    rw [distancesUpTo_succ]
    split_ifs
    · rw [update_of_ne (by omega)]
      exact ih (by omega)
    · exact ih (by omega)

lemma distancesUpTo_of_lt (h : i < n) : m.distancesUpTo n i = m.distancesUpTo (i + 1) i := by
  induction n with
  | zero => omega
  | succ n ih =>
    by_cases hin : i = n
    · rw [hin]
    · rw [distancesUpTo_succ]
      split_ifs
      · rw [update_of_ne hin]
        exact ih (by omega)
      · exact ih (by omega)

lemma distancesUpTo_eq (h : i < n) (hn : n ≤ m.count) : m.distancesUpTo n i = m.updateDistancesFromFinalMix i := by
  rw [updateDistancesFromFinalMix, distancesUpTo_of_lt h, distancesUpTo_of_lt (show i < m.count by omega)]

lemma updateDistances_eq (h : m.Chain i d) : m.updateDistancesFromFinalMix i = m.distanceOf (m.distancesUpTo i) i := by
  obtain ⟨hlt, hused⟩ := h.start
  rw [updateDistancesFromFinalMix, distancesUpTo_of_lt hlt, distancesUpTo_succ, if_pos hused, update_self]

lemma natCast_ne_invalid (d : ℕ) : (d : ℤ) ≠ invalidDistance := by
  unfold invalidDistance
  omega

/-- What the walk finds is kept if it is less than the number of mixes. -/
lemma distanceOf_eq (hm : m.InRange) (h : m.Chain i d) {distances : ℕ → ℤ} {distance : ℕ}
    (hloop : m.distanceLoop distances m.count i 0 = distance) (hlt : distance < m.count) :
    m.distanceOf distances i = distance := by
  have hnot : ¬(m.count : ℤ) ≤ distance := by omega
  rw [distanceOf, hm.ids i h.start.1, finalMixId]
  simp only [hloop, if_neg hnot]

lemma distance_of_direct (hm : m.InRange) (hdirect : m.ShortcutsDirect) (h : m.Chain i d) :
    m.updateDistancesFromFinalMix i = d := by
  induction i using Nat.strong_induction_on generalizing d with
  | _ i ih =>
    have hi := h.start.1
    have hd := h.lt_count
    rw [updateDistances_eq h]
    refine distanceOf_eq hm h ?_ hd
    rcases distanceLoop_chain (m.distancesUpTo i) hm.count h hd 0 with
      ⟨hloop, -⟩ | ⟨k, d', hon, hk, hchain, hsome, -⟩
    · rw [hloop, zero_add]
    · -- some mix of the chain has been gone through, so the next one has
      have hki : k < i := by
        by_contra hle
        exact hsome (distancesUpTo_of_le (by omega))
      have h0 : i ≠ 0 := by omega
      obtain ⟨j, hsends⟩ := h.sends h0
      obtain ⟨d'', rfl, hj⟩ := h.next h0 hsends
      have hji := hdirect i (d'' + 1) j k h h0 hsends (hon.next hki.ne hsends) hk hki
      obtain ⟨left, hleft⟩ : ∃ l, m.count = l + 2 := ⟨m.count - 2, by omega⟩
      rw [hleft, distanceLoop_step hm.count hi h0 (distancesUpTo_of_le (le_refl i)), hsends]
      by_cases hj0 : j = 0
      · subst hj0
        cases hj with
        | final _ _ => simp [distanceLoop, finalMixId]
        | step hne _ _ _ _ => exact absurd rfl hne
      · have hright : m.distancesUpTo i j = d'' := by
          rw [distancesUpTo_eq hji hi.le, ih j hji hj]
        have hvalid : m.distancesUpTo i j ≠ invalidDistance := by
          rw [hright]
          exact natCast_ne_invalid d''
        rw [distanceLoop_shortcut hm.count hj.start.1 hj0 hvalid, hright]
        push_cast
        rfl

lemma direct_of_distance (hm : m.InRange)
    (hright : ∀ i d, m.Chain i d → m.updateDistancesFromFinalMix i = d) : m.ShortcutsDirect := by
  intro i d j k h h0 hsends hon hk hki
  have hd := h.lt_count
  obtain ⟨d', rfl, hj⟩ := h.next h0 hsends
  have hdistance := hright i _ h
  rw [updateDistances_eq h] at hdistance
  -- the distances of the mixes before
  have hbefore (x e : ℕ) (hx : m.Chain x e) (hlt : x < i) : m.distancesUpTo i x = e := by
    rw [distancesUpTo_eq hlt h.start.1.le, hright x e hx]
  rcases distanceLoop_chain (m.distancesUpTo i) hm.count h hd 0 with
    ⟨-, hall⟩ | ⟨x, e, honx, hx, hchain, hsome, hloop⟩
  · obtain ⟨e, he, -⟩ := hj.onChain hon
    have hinvalid := hall k (.later h0 hsends hon) hk
    rw [hbefore k e he hki] at hinvalid
    exact absurd hinvalid (natCast_ne_invalid e)
  · have hxi : x < i := by
      by_contra hle
      exact hsome (distancesUpTo_of_le (by omega))
    rw [hbefore x e hchain hxi] at hloop
    have he : e = d' := by
      rw [distanceOf, hm.ids i h.start.1, finalMixId] at hdistance
      simp only [hloop] at hdistance
      split_ifs at hdistance
      · exact absurd hdistance.symm (natCast_ne_invalid _)
      · push_cast at hdistance
        omega
    -- so it is the next one
    obtain ⟨e', he', hxj⟩ := hj.onChain (honx.next hxi.ne hsends)
    rcases hxj with rfl | hlt
    · exact hxi
    · have := he'.unique hchain
      omega

/-- **The order of the mixes is right exactly if the shortcuts of the walks are direct.** -/
theorem distances_right_iff (hm : m.InRange) : m.OrderRight ↔ m.ShortcutsDirect := by
  refine ⟨fun hright => direct_of_distance hm fun i d h => (hright i d h).1, fun hdirect i d h => ?_⟩
  refine ⟨distance_of_direct hm hdirect h, fun order horder j h0 hsends => ?_⟩
  obtain ⟨d', rfl, hj⟩ := h.next h0 hsends
  have hi := distance_of_direct hm hdirect h
  have hdj := distance_of_direct hm hdirect hj
  have hmem (x : ℕ) (hx : x < m.count) : x ∈ order := horder.perm.mem_iff.2 (List.mem_range.2 hx)
  refine NodeStates.idxOf_lt_of_pairwise horder.sorted (hmem i h.start.1) (hmem j hj.start.1) ?_ ?_
  · rintro rfl
    have := h.unique hj
    omega
  · rw [hi, hdj]
    push_cast
    omega

/-- Mixes in use that send to the given destinations. -/
def mixesTo (destinations : List ℤ) : MixContext where
  count := destinations.length
  mixInfos := fun i => ⟨true, i, destinations.getD i unusedMixId, unusedSplitterId⟩
  nodeStates := NodeStates.fresh destinations.length
  edgeMatrix := ⟨destinations.length, fun _ => false⟩

/-- Mixes that send to mixes of lower indices. -/
theorem order_right_lower : (mixesTo [unusedMixId, 0, 1, 1]).OrderRight := by
  refine (distances_right_iff ⟨by decide, by decide, by decide⟩).2 fun i d j k h h0 hsends hon hk hki => ?_
  have hlower : ∀ i < 4, i ≠ 0 → ((mixesTo [unusedMixId, 0, 1, 1]).mixInfos i).dstMixId < i := by decide
  have := hlower i h.start.1 h0
  omega

/-- **A shortcut forgets the way to it**: 2 sends to 3, 3 to 1 and 1 to the final mix, and the distance of 2 is that
of 3. -/
theorem order_wrong : (mixesTo [unusedMixId, 0, 3, 1]).InRange ∧
    (mixesTo [unusedMixId, 0, 3, 1]).IsOrder [3, 2, 1, 0] ∧ ¬(mixesTo [unusedMixId, 0, 3, 1]).OrderRight := by
  refine ⟨⟨by decide, by decide, by decide⟩, ⟨by decide, by decide⟩, fun hright => ?_⟩
  have hchain : (mixesTo [unusedMixId, 0, 3, 1]).Chain 2 3 :=
    .step (by decide) (by decide) rfl (show _ = ((3 : ℕ) : ℤ) from rfl)
      (.step (by decide) (by decide) rfl (show _ = ((1 : ℕ) : ℤ) from rfl)
        (.step (by decide) (by decide) rfl (show _ = ((0 : ℕ) : ℤ) from rfl) (.final (by decide) rfl)))
  have hdistance := (hright 2 3 hchain).1
  have hcode : (mixesTo [unusedMixId, 0, 3, 1]).updateDistancesFromFinalMix 2 = 2 := by decide
  rw [hcode] at hdistance
  omega

end Distances

end MixContext

end Voltemu.Audio
