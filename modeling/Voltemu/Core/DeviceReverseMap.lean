import Voltemu.Core.DeviceMemoryManager

/-!
# The reverse map is exact

`Tracks` carries, for every physical page, the list of its device pages and how the word and the storage represent it.
One page of `Map` appends to that list and one page of `Unmap` takes one out of it.
-/

namespace Voltemu.Core

open MultiAddressContainer DeviceMemoryManager Function List Nat

/-! ## Words -/

lemma shift_eq_zero_iff {word : BitVec 32} : word >>> multiFlagBits = 0 ↔ word.toNat < 2 ^ 31 := by
  constructor
  · intro h
    have h' := congrArg BitVec.toNat h
    rw [BitVec.toNat_ushiftRight, shiftRight_eq_div_pow] at h'
    have hzero : (0 : BitVec 32).toNat = 0 := rfl
    rw [hzero, multiFlagBits] at h'
    omega
  · intro h
    apply BitVec.eq_of_toNat_eq
    rw [BitVec.toNat_ushiftRight, shiftRight_eq_div_pow, multiFlagBits]
    exact div_eq_of_lt h

lemma toNat_multiFlag : multiFlag.toNat = 2 ^ 31 := by decide

lemma flagged_shift (start : BitVec 32) : (multiFlag ||| start) >>> multiFlagBits ≠ 0 := by
  intro h
  have hlt := shift_eq_zero_iff.1 h
  have hle : multiFlag.toNat ≤ (multiFlag ||| start).toNat := by
    rw [BitVec.toNat_or]
    exact left_le_or
  rw [toNat_multiFlag] at hle
  omega

lemma flagged_ne_zero (start : BitVec 32) : multiFlag ||| start ≠ 0 := by
  intro h
  exact flagged_shift start (by rw [h]; rfl)

variable {start : BitVec 32}

lemma flagged_mask (h : start.toNat < 2 ^ 31) : (multiFlag ||| start) &&& multiMask = start := by
  apply BitVec.eq_of_getLsbD_eq
  intro i hi
  have hflag : multiFlag.getLsbD i = decide (i = 31) := by
    revert i
    decide
  simp only [multiMask, BitVec.getLsbD_and, BitVec.getLsbD_or, BitVec.getLsbD_not, hflag, hi]
  by_cases h31 : i = 31
  · subst h31
    have hmsb : start.getLsbD 31 = false := testBit_lt_two_pow h
    rw [hmsb]
    simp
  · simp [h31]

lemma toNat_page {d : ℕ} (h : d < devicePages) : (BitVec.ofNat 32 d).toNat = d := by
  rw [BitVec.toNat_ofNat]
  unfold devicePages at h
  omega

lemma page_shift {d : ℕ} (h : d < devicePages) : BitVec.ofNat 32 d >>> multiFlagBits = 0 := by
  rw [shift_eq_zero_iff, toNat_page h]
  unfold devicePages at h
  omega

lemma page_ne_zero {d : ℕ} (h : d < devicePages) (hpos : 1 ≤ d) : BitVec.ofNat 32 d ≠ 0 := by
  intro hzero
  have h' := toNat_page h
  rw [hzero] at h'
  have : (0 : BitVec 32).toNat = 0 := rfl
  omega

lemma page_inj {d d' : ℕ} (h : d < devicePages) (h' : d' < devicePages)
    (heq : BitVec.ofNat 32 d = BitVec.ofNat 32 d') : d = d' := by
  rw [← toNat_page h, heq, toNat_page h']

lemma physical_index {p : ℕ} (h : p < physicalPages) :
    (BitVec.ofNat 32 (p + 1) - 1).toNat = p ∧ BitVec.ofNat 32 (p + 1) ≠ 0 ∧
      BitVec.ofNat 32 p + 1 = BitVec.ofNat 32 (p + 1) := by
  unfold physicalPages at h
  have hone : (1 : BitVec 32).toNat = 1 := rfl
  have htoNat : (BitVec.ofNat 32 (p + 1)).toNat = p + 1 := by
    rw [BitVec.toNat_ofNat]
    omega
  refine ⟨?_, ?_, ?_⟩
  · rw [BitVec.toNat_sub, htoNat, hone]
    omega
  · intro hzero
    rw [hzero] at htoNat
    have : (0 : BitVec 32).toNat = 0 := rfl
    omega
  · apply BitVec.eq_of_toNat_eq
    rw [htoNat, BitVec.toNat_add, BitVec.toNat_ofNat, hone]
    omega

/-! ## How the device pages of a physical page are represented -/

/-- The word and the list of entries stand for the device pages `ds`. -/
def Represents (c : MultiAddressContainer) (ids : List (BitVec 32)) (word : BitVec 32) (ds : List ℕ) : Prop :=
  (ids = [] ∧ ds = [] ∧ word = 0) ∨ (ids = [] ∧ ∃ d, ds = [d] ∧ word = BitVec.ofNat 32 d) ∨
    (2 ≤ ds.length ∧ ids.map c.valueOf = ds.map (BitVec.ofNat 32) ∧
      ∃ start, ids.head? = some start ∧ word = multiFlag ||| start)

/-- `ds` are the device pages of a physical page. -/
def IsOwners (σ : Owners) (p : ℕ) (ds : List ℕ) : Prop := ds.Nodup ∧ ∀ d, d ∈ ds ↔ σ d = some p

structure Tracks (m : DeviceMemoryManager) (σ : Owners) : Prop where
  forward : ∀ d, (m.trackedEntries d).compressedPhysicalPtr =
    match σ d with
    | none => 0
    | some page => BitVec.ofNat 32 (page + 1)
  bound : ∀ d p, σ d = some p → 1 ≤ d ∧ d < devicePages ∧ p < physicalPages
  lists : ∃ ids : ℕ → List (BitVec 32), Threaded m.multiDevAddress ids ∧
    ∀ p, ∃ ds, IsOwners σ p ds ∧ Represents m.multiDevAddress (ids p) (m.compressedDeviceAddr p) ds
  size : m.multiDevAddress.storage.length ≤ devicePages + 1

variable {c c' : MultiAddressContainer} {m : DeviceMemoryManager} {σ σ' : Owners} {p d : ℕ}
  {ids : List (BitVec 32)} {word : BitVec 32} {ds : List ℕ}

lemma Represents.congr (h : Represents c ids word ds)
    (hvalue : ∀ id ∈ ids, c'.valueOf id = c.valueOf id) : Represents c' ids word ds := by
  rcases h with h | h | ⟨hlen, hmap, hstart⟩
  · exact .inl h
  · exact .inr (.inl h)
  · refine .inr (.inr ⟨hlen, ?_, hstart⟩)
    rw [← hmap]
    exact map_congr_left hvalue

lemma Represents.cases (h : Represents c ids word ds) (hds : ∀ d ∈ ds, 1 ≤ d ∧ d < devicePages) :
    (word = 0 ∧ ids = [] ∧ ds = []) ∨
      (word ≠ 0 ∧ word >>> multiFlagBits = 0 ∧ ids = [] ∧
        ∃ d, ds = [d] ∧ word = BitVec.ofNat 32 d) ∨
      (word ≠ 0 ∧ word >>> multiFlagBits ≠ 0 ∧ 2 ≤ ds.length ∧ ids.map c.valueOf = ds.map (BitVec.ofNat 32) ∧
        ∃ start, ids.head? = some start ∧ word = multiFlag ||| start) := by
  rcases h with ⟨hids, hds, hword⟩ | ⟨hids, d, rfl, rfl⟩ | ⟨hlen, hmap, start, hhead, rfl⟩
  · exact .inl ⟨hword, hids, hds⟩
  · obtain ⟨hpos, hlt⟩ := hds d mem_cons_self
    exact .inr (.inl ⟨page_ne_zero hlt hpos, page_shift hlt, hids, d, rfl, rfl⟩)
  · exact .inr (.inr ⟨flagged_ne_zero start, flagged_shift start, hlen, hmap, start, hhead, rfl⟩)

/-! ## The size of the storage -/

/-- The entries of each physical page have the device pages of it as values. -/
def Valued (c : MultiAddressContainer) (σ : Owners) (ids : ℕ → List (BitVec 32)) : Prop :=
  ∀ p, ids p = [] ∨ ∃ ds, IsOwners σ p ds ∧ (ids p).map c.valueOf = ds.map (BitVec.ofNat 32)

section Size

variable {ids : ℕ → List (BitVec 32)}

lemma Valued.value_owned (h : Valued c σ ids) {id : BitVec 32} (hid : id ∈ ids p) :
    ∃ d, σ d = some p ∧ c.valueOf id = BitVec.ofNat 32 d := by
  rcases h p with hnil | ⟨ds, hds, hmap⟩
  · simp [hnil] at hid
  · have hmem : c.valueOf id ∈ (ids p).map c.valueOf := mem_map_of_mem hid
    rw [hmap] at hmem
    obtain ⟨d, hd, heq⟩ := mem_map.1 hmem
    exact ⟨d, (hds.2 d).1 hd, heq.symm⟩

lemma Valued.length_le (h : Valued c σ ids) (hthreaded : Threaded c ids)
    (hbound : ∀ d p, σ d = some p → 1 ≤ d ∧ d < devicePages ∧ p < physicalPages)
    (hsize : c.storage.length ≤ devicePages + 1) (hgrows : c.Grows c') :
    c'.storage.length ≤ devicePages + 1 := by
  rcases hgrows with heq | ⟨hfree, heq⟩
  · rw [heq]
    exact hsize
  · have hle : c.storage.length ≤ devicePages := by
      refine hthreaded.length_le hfree ?_ ?_ ?_
      · intro q id hid
        obtain ⟨d, hd, hvalue⟩ := h.value_owned hid
        rw [hvalue, toNat_page (hbound d q hd).2.1]
        exact (hbound d q hd).2.1
      · intro q r id hid id' hid' heq
        obtain ⟨d, hd, hvalue⟩ := h.value_owned hid
        obtain ⟨d', hd', hvalue'⟩ := h.value_owned hid'
        rw [hvalue, hvalue'] at heq
        have hdd := page_inj (hbound d q hd).2.1 (hbound d' r hd').2.1 heq
        subst hdd
        obtain rfl : q = r := by simpa using hd.symm.trans hd'
        rcases h q with hnil | ⟨ds, hds, hmap⟩
        · simp [hnil] at hid
        · have hnodup : ((ids q).map c.valueOf).Nodup := by
            rw [hmap]
            refine List.Nodup.map_on ?_ hds.1
            intro a ha b hb hab
            exact page_inj (hbound a q ((hds.2 a).1 ha)).2.1 (hbound b q ((hds.2 b).1 hb)).2.1 hab
          exact inj_on_of_nodup_map hnodup hid hid' (hvalue.trans hvalue'.symm)
      · unfold devicePages at hsize
        omega
    omega

end Size

/-! ## One page of `Map` -/

lemma IsOwners.append (h : IsOwners σ p ds) (hd : σ d = none) : IsOwners (update σ d (some p)) p (ds ++ [d]) := by
  have hout : d ∉ ds := by
    intro hmem
    rw [h.2 d, hd] at hmem
    cases hmem
  refine ⟨?_, fun a => ?_⟩
  · rw [nodup_append]
    refine ⟨h.1, nodup_singleton d, ?_⟩
    rintro a ha b hb rfl
    exact hout (mem_singleton.1 hb ▸ ha)
  · by_cases had : a = d
    · subst had
      simp
    · rw [update_of_ne had, mem_append, mem_singleton, h.2 a]
      tauto

variable {v : Option ℕ}

lemma IsOwners.update_other {q : ℕ} (h : IsOwners σ q ds) (hd : σ d ≠ some q)
    (hv : v ≠ some q) : IsOwners (update σ d v) q ds := by
  refine ⟨h.1, fun a => ?_⟩
  rw [h.2 a]
  by_cases had : a = d
  · subst had
    rw [update_self]
    exact ⟨fun h => absurd h hd, fun h => absurd h hv⟩
  · rw [update_of_ne had]

lemma IsOwners.bounds (h : IsOwners σ p ds) (hbound : ∀ d p, σ d = some p → 1 ≤ d ∧ d < devicePages ∧ p < physicalPages) :
    ∀ d ∈ ds, 1 ≤ d ∧ d < devicePages := by
  intro d hd
  obtain ⟨h1, h2, -⟩ := hbound d p ((h.2 d).1 hd)
  exact ⟨h1, h2⟩

lemma forward_update {w : BitVec 32} (hw : w = match v with | none => 0 | some page => BitVec.ofNat 32 (page + 1))
    (h : ∀ a, (m.trackedEntries a).compressedPhysicalPtr =
      match σ a with
      | none => 0
      | some page => BitVec.ofNat 32 (page + 1)) (a : ℕ) :
    ((m.setPhysical d w).trackedEntries a).compressedPhysicalPtr =
      match update σ d v a with
      | none => 0
      | some page => BitVec.ofNat 32 (page + 1) := by
  by_cases had : a = d
  · subst had
    simp [setPhysical, hw]
  · simp [setPhysical, had, h a]

lemma setBacking_forward (backing : BitVec 64) (a : ℕ) :
    ((m.setBacking d backing).trackedEntries a).compressedPhysicalPtr = (m.trackedEntries a).compressedPhysicalPtr := by
  by_cases had : a = d
  · subst had
    simp [setBacking]
  · simp [setBacking, had]

variable {words : ℕ → BitVec 32} {l : List (BitVec 32)}

/-- The representation of all pages after the list of one page has changed. -/
lemma represents_update {ids : ℕ → List (BitVec 32)} (h : ∀ q, ∃ ds, IsOwners σ q ds ∧ Represents c (ids q) (words q) ds)
    (hvalue : ∀ q, q ≠ p → ∀ id ∈ ids q, c'.valueOf id = c.valueOf id)
    (hd : ∀ q, q ≠ p → σ d ≠ some q) (hv : ∀ q, q ≠ p → v ≠ some q)
    (hds : IsOwners (update σ d v) p ds)
    (hrep : Represents c' l word ds) :
    ∀ q, ∃ ds, IsOwners (update σ d v) q ds ∧ Represents c' (update ids p l q) (update words p word q) ds := by
  intro q
  by_cases hq : q = p
  · subst hq
    simp only [update_self]
    exact ⟨ds, hds, hrep⟩
  · obtain ⟨ds', hds', hrep'⟩ := h q
    rw [update_of_ne hq, update_of_ne hq]
    exact ⟨ds', hds'.update_other (hd q hq) (hv q hq), hrep'.congr (hvalue q hq)⟩

lemma valued_of_represents {ids : ℕ → List (BitVec 32)}
    (h : ∀ q, ∃ ds, IsOwners σ q ds ∧ Represents c (ids q) (words q) ds) : Valued c σ ids := by
  intro q
  obtain ⟨ds, hds, hrep⟩ := h q
  rcases hrep with ⟨hnil, -⟩ | ⟨hnil, -⟩ | ⟨-, hmap, -⟩
  · exact .inl hnil
  · exact .inl hnil
  · exact .inr ⟨ds, hds, hmap⟩

/-- The name of an entry leaves the upmost bit free. -/
lemma start_lt {ids : ℕ → List (BitVec 32)} (h : Threaded c ids) (hsize : c.storage.length ≤ devicePages + 1)
    (hhead : (ids p).head? = some start) : start.toNat < 2 ^ 31 := by
  have hle := (h.valid p start (mem_of_mem_head? hhead)).2
  unfold devicePages at hsize
  omega

/-- **One page of `Map` adds the device page.** -/
theorem tracks_mapPage (h : Tracks m σ) (hpos : 1 ≤ d) (hlt : d < devicePages) (hfree : σ d = none)
    (newVaddress : BitVec 64) (asid : ℕ) {ptr : Option ℕ}
    (hptr : ∀ raw, ptr = some raw → raw / pageSize < physicalPages) :
    ∃ m', m.mapPage d newVaddress asid ptr = some m' ∧ Tracks m' (update σ d (ptr.map (· / pageSize))) := by
  cases ptr with
  | none =>
    refine ⟨m.setPhysical d 0, rfl, ?_⟩
    have hsame : update σ d none = σ := by
      rw [← hfree]
      exact update_eq_self d σ
    refine ⟨forward_update rfl h.forward, ?_, ?_, h.size⟩
    · rw [Option.map_none, hsame]
      exact h.bound
    · rw [Option.map_none, hsame]
      exact h.lists
  | some raw =>
    obtain ⟨ids, hthreaded, hrep⟩ := h.lists
    have hphys := hptr raw rfl
    set p := raw / pageSize with hp
    obtain ⟨hindex, -, hadd⟩ := physical_index hphys
    have hshift : raw >>> pageBits = p := by rw [shiftRight_eq_div_pow, hp, pageSize]
    -- the forward entry, which the rest leaves alone
    set m1 := (m.setPhysical d (BitVec.ofNat 32 (p + 1))).insertCPUBacking d newVaddress asid with hm1
    have hforward : ∀ a, (m1.trackedEntries a).compressedPhysicalPtr =
        match update σ d (some p) a with
        | none => 0
        | some page => BitVec.ofNat 32 (page + 1) := by
      intro a
      rw [hm1, insertCPUBacking, setBacking_forward]
      exact forward_update (v := some p) rfl h.forward a
    have hbound : ∀ a q, update σ d (some p) a = some q → 1 ≤ a ∧ a < devicePages ∧ q < physicalPages := by
      intro a q haq
      by_cases had : a = d
      · subst had
        rw [update_self] at haq
        exact ⟨hpos, hlt, Option.some.inj haq ▸ hphys⟩
      · rw [update_of_ne had] at haq
        exact h.bound a q haq
    obtain ⟨ds, hds, hrepp⟩ := hrep p
    have hds' := hds.append hfree
    have hd : ∀ q, q ≠ p → σ d ≠ some q := fun q _ heq => by simp [hfree] at heq
    have hv : ∀ q, q ≠ p → some p ≠ some q := fun q hq heq => hq (Option.some.inj heq).symm
    have hvalued := valued_of_represents hrep
    have hsize : m.multiDevAddress.storage.length < 2 ^ 31 := by
      have hle := h.size
      unfold devicePages at hle
      omega
    have hmap : m.mapPage d newVaddress asid (some raw) =
        if m.compressedDeviceAddr p = 0 then some (m1.setWord p (BitVec.ofNat 32 d))
        else
          let started :=
            if m.compressedDeviceAddr p >>> multiFlagBits = 0 then
              let list := m.multiDevAddress.register (m.compressedDeviceAddr p)
              (list.1, { m1 with multiDevAddress := list.2 }.setWord p (multiFlag ||| list.1))
            else (m.compressedDeviceAddr p &&& multiMask, m1)
          (started.2.multiDevAddress.registerAt (BitVec.ofNat 32 d) started.1).map
            fun c => { started.2 with multiDevAddress := c } := by
      simp only [mapPage, hshift, hadd, hindex]
      rfl
    rw [hmap]
    rcases hrepp.cases (hds.bounds h.bound) with
      ⟨hword, hids, rfl⟩ | ⟨hword, hflag, hids, b, rfl, hb⟩ | ⟨hword, hflag, hlen, hvalues, start, hhead, hstart⟩
    · -- the first device page of the physical page
      rw [if_pos hword]
      refine ⟨_, rfl, hforward, hbound, ⟨update ids p [], ?_, ?_⟩, h.size⟩
      · rw [← hids, update_eq_self]
        exact hthreaded
      · exact represents_update hrep (fun _ _ _ _ => rfl) hd hv hds' (.inr (.inl ⟨rfl, d, rfl, rfl⟩))
    · -- the second one: a list is started
      rw [if_neg hword, if_pos hflag]
      rcases hreg : m.multiDevAddress.register (m.compressedDeviceAddr p) with ⟨e, c1⟩
      obtain ⟨hthreaded1, hvalue1, hkeep1, hgrows1⟩ := threaded_register hthreaded hsize hids hreg
      have hsize1 := hvalued.length_le hthreaded h.bound h.size hgrows1
      have hvalued1 : Valued c1 σ (update ids p [e]) := by
        intro q
        by_cases hq : q = p
        · subst hq
          refine .inr ⟨[b], hds, ?_⟩
          rw [update_self, map_singleton, map_singleton, hvalue1, hb]
        · rw [update_of_ne hq]
          rcases hvalued q with hnil | ⟨ds, hds, hmap⟩
          · exact .inl hnil
          · refine .inr ⟨ds, hds, ?_⟩
            rw [← hmap]
            exact map_congr_left (hkeep1 q)
      have hsize1' : c1.storage.length < 2 ^ 31 := by
        unfold devicePages at hsize1
        omega
      obtain ⟨e', c2, (hat : c1.registerAt (BitVec.ofNat 32 d) e = some c2), hthreaded2, hvalue2, hkeep2, hgrows2⟩ :=
        threaded_append hthreaded1 hsize1' (update_self p [e] ids)
      rw [update_self, update_idem] at hthreaded2
      refine ⟨{ { m1 with multiDevAddress := c1 }.setWord p (multiFlag ||| e) with
        multiDevAddress := c2 }, ?_, hforward, hbound, ⟨_, hthreaded2, ?_⟩,
        hvalued1.length_le hthreaded1 h.bound hsize1 hgrows2⟩
      · exact congrArg (Option.map _) hat
      · have hkept : ∀ q, q ≠ p → ∀ id ∈ ids q, c2.valueOf id = m.multiDevAddress.valueOf id := by
          intro q hq id hid
          rw [hkeep2 q id (by rwa [update_of_ne hq]), hkeep1 q id hid]
        have hvalue1' : c2.valueOf e = BitVec.ofNat 32 b := by
          rw [hkeep2 p e (by simp), hvalue1, hb]
        refine represents_update hrep hkept hd hv hds' (.inr (.inr ⟨by simp, ?_, e, rfl, rfl⟩))
        simp [hvalue1', hvalue2]
    · -- a list is there
      rw [if_neg hword, if_neg hflag]
      have hmask : m.compressedDeviceAddr p &&& multiMask = start := by
        rw [hstart, flagged_mask (start_lt hthreaded h.size hhead)]
      obtain ⟨l, hl⟩ := head?_eq_some_iff.1 hhead
      obtain ⟨e, c1, (hat : m.multiDevAddress.registerAt (BitVec.ofNat 32 d) start = some c1),
          hthreaded1, hvalue1, hkeep1, hgrows1⟩ :=
        threaded_append hthreaded hsize hl
      have hat' : m1.multiDevAddress.registerAt (BitVec.ofNat 32 d)
          (m.compressedDeviceAddr p &&& multiMask) = some c1 := hmask ▸ hat
      refine ⟨{ m1 with multiDevAddress := c1 }, congrArg (Option.map _) hat', hforward, hbound,
        ⟨_, hthreaded1, ?_⟩, hvalued.length_le hthreaded h.bound h.size hgrows1⟩
      have hword' : update m.compressedDeviceAddr p (m.compressedDeviceAddr p) =
          m.compressedDeviceAddr := update_eq_self p _
      have hupdate := represents_update (l := ids p ++ [e]) hrep (fun q _ => hkeep1 q) hd hv hds'
        (.inr (.inr ⟨?_, ?_, start, ?_, hstart⟩))
      · rw [hword'] at hupdate
        exact hupdate
      · rw [length_append]
        omega
      · rw [map_append, map_append, map_congr_left (hkeep1 p), hvalues]
        simp [hvalue1]
      · rw [hl]
        rfl

/-! ## One page of `Unmap` -/

variable {k1 k2 : List ℕ}

lemma IsOwners.remove (h : IsOwners σ p (k1 ++ d :: k2)) : IsOwners (update σ d none) p (k1 ++ k2) := by
  obtain ⟨hout, hnodup⟩ := nodup_cons.1 (nodup_middle.1 h.1)
  refine ⟨hnodup, fun a => ?_⟩
  by_cases had : a = d
  · subst had
    simp only [update_self]
    exact ⟨fun hmem => absurd hmem hout, fun h => by cases h⟩
  · rw [update_of_ne had, ← h.2 a]
    simp only [mem_append, mem_cons, had, false_or]

lemma exists_entry (hvalues : l.map c.valueOf = (k1 ++ d :: k2).map (BitVec.ofNat 32))
    (hnodup : (k1 ++ d :: k2).Nodup) (hbound : ∀ a ∈ k1 ++ d :: k2, 1 ≤ a ∧ a < devicePages) :
    ∃ l₁ x l₂, l = l₁ ++ x :: l₂ ∧ c.valueOf x = BitVec.ofNat 32 d ∧ (∀ id ∈ l₁, c.valueOf id ≠ BitVec.ofNat 32 d) ∧
      (l₁ ++ l₂).map c.valueOf = (k1 ++ k2).map (BitVec.ofNat 32) := by
  rw [map_append, map_cons] at hvalues
  obtain ⟨l₁, l', rfl, h₁, h'⟩ := map_eq_append_iff.1 hvalues
  obtain ⟨x, l₂, rfl, hx, h₂⟩ := map_eq_cons_iff.1 h'
  refine ⟨l₁, x, l₂, rfl, hx, fun id hid heq => ?_, ?_⟩
  · have hmem : c.valueOf id ∈ k1.map (BitVec.ofNat 32) := h₁ ▸ mem_map_of_mem hid
    obtain ⟨a, ha, hae⟩ := mem_map.1 hmem
    have had : a = d := page_inj (hbound a (mem_append_left _ ha)).2 (hbound d (by simp)).2
      (hae.trans heq)
    exact (nodup_cons.1 (nodup_middle.1 hnodup)).1 (mem_append_left _ (had ▸ ha))
  · rw [map_append, map_append, h₁, h₂]

/-- **One page of `Unmap` takes the device page out.** -/
theorem tracks_unmapPage (h : Tracks m σ) (d : ℕ) : ∃ m', m.unmapPage d = some m' ∧ Tracks m' (update σ d none) := by
  set m1 := (m.setPhysical d 0).setBacking d 0 with hm1
  have hforward : ∀ a, (m1.trackedEntries a).compressedPhysicalPtr =
      match update σ d none a with
      | none => 0
      | some page => BitVec.ofNat 32 (page + 1) := by
    intro a
    rw [hm1, setBacking_forward]
    exact forward_update (v := none) rfl h.forward a
  have hbound : ∀ a q, update σ d none a = some q → 1 ≤ a ∧ a < devicePages ∧ q < physicalPages := by
    intro a q haq
    by_cases had : a = d
    · subst had
      simp at haq
    · rw [update_of_ne had] at haq
      exact h.bound a q haq
  have hphysical := h.forward d
  obtain ⟨ids, hthreaded, hrep⟩ := h.lists
  cases hσ : σ d with
  | none =>
    rw [hσ] at hphysical
    have hsame : update σ d none = σ := by
      rw [← hσ]
      exact update_eq_self d σ
    refine ⟨m1, ?_, hforward, hbound, ?_, h.size⟩
    · simp only [unmapPage, hphysical]
      rfl
    · rw [hsame]
      exact ⟨ids, hthreaded, hrep⟩
  | some p =>
    rw [hσ] at hphysical
    obtain ⟨-, -, hp⟩ := h.bound d p hσ
    obtain ⟨hindex, hne, -⟩ := physical_index hp
    have hd : ∀ q, q ≠ p → σ d ≠ some q := fun q hq heq => hq (Option.some.inj (hσ.symm.trans heq)).symm
    have hv : ∀ q, q ≠ p → (none : Option ℕ) ≠ some q := fun _ _ heq => by cases heq
    obtain ⟨ds, hds, hrepp⟩ := hrep p
    have hdmem : d ∈ ds := (hds.2 d).2 hσ
    obtain ⟨k1, k2, rfl⟩ := append_of_mem hdmem
    have hds' := hds.remove
    have hunmap : m.unmapPage d =
        (if m.compressedDeviceAddr p >>> multiFlagBits = 0 then some (m1.setWord p 0)
        else do
          let left ← m.multiDevAddress.unregister (BitVec.ofNat 32 d) (m.compressedDeviceAddr p &&& multiMask)
          if !left.1.1 then
            let last ← left.2.releaseEntry left.1.2
            some ({ m1 with multiDevAddress := last.2 }.setWord p last.1)
          else some ({ m1 with multiDevAddress := left.2 }.setWord p (left.1.2 ||| multiFlag))) := by
      simp only [unmapPage, hphysical, hindex]
      rw [if_pos hne]
      rfl
    rw [hunmap]
    rcases hrepp.cases (hds.bounds h.bound) with
      ⟨-, -, hnil⟩ | ⟨-, hflag, hids, b, hb, -⟩ | ⟨-, hflag, hlen, hvalues, start, hhead, hstart⟩
    · simp at hnil
    · -- the only device page
      rw [if_pos hflag]
      have hnil : k1 ++ k2 = [] := by
        have hlength := congrArg length hb
        simp only [length_append, length_cons, length_nil] at hlength
        exact eq_nil_of_length_eq_zero (by rw [length_append]; omega)
      rw [hnil] at hds'
      refine ⟨_, rfl, hforward, hbound, ⟨update ids p [], ?_, ?_⟩, h.size⟩
      · rw [← hids, update_eq_self]
        exact hthreaded
      · exact represents_update hrep (fun _ _ _ _ => rfl) hd hv hds' (.inl ⟨rfl, rfl, rfl⟩)
    · -- one of several
      rw [if_neg hflag]
      have hmask : m.compressedDeviceAddr p &&& multiMask = start := by
        rw [hstart, flagged_mask (start_lt hthreaded h.size hhead)]
      obtain ⟨l₁, x, l₂, hl, hx, hfirst, hrest⟩ :=
        exists_entry hvalues hds.1 (hds.bounds h.bound)
      obtain ⟨l, hstartl⟩ := head?_eq_some_iff.1 hhead
      obtain ⟨newStart, c1, hun, hthreaded1, hnew, hkeep, hlength⟩ :=
        threaded_unregister hthreaded hstartl hl hx hfirst
      have hvalues1 : (l₁ ++ l₂).map c1.valueOf = (k1 ++ k2).map (BitVec.ofNat 32) := by
        rw [← hrest]
        refine map_congr_left fun id hid => hkeep p id ?_
        rw [hl]
        simp only [mem_append, mem_cons] at hid ⊢
        tauto
      have hlen1 : (l₁ ++ l₂).length = (k1 ++ k2).length := by
        simpa using congrArg length hvalues1
      have hpos : 1 ≤ (l₁ ++ l₂).length := by
        rw [hlen1]
        simp only [length_append, length_cons] at hlen ⊢
        omega
      have hne1 : l₁ ++ l₂ ≠ [] := length_pos_iff.1 hpos
      rw [hmask]
      by_cases htwo : 2 ≤ (l₁ ++ l₂).length
      · -- the list goes on
        refine ⟨{ m1 with multiDevAddress := c1 }.setWord p (newStart ||| multiFlag), ?_, hforward,
          hbound, ⟨_, hthreaded1, ?_⟩, hlength ▸ h.size⟩
        · rw [hun, decide_eq_true htwo]
          rfl
        · refine represents_update hrep (fun q _ => hkeep q) hd hv hds'
            (.inr (.inr ⟨hlen1 ▸ htwo, hvalues1, newStart, hnew hne1, BitVec.or_comm _ _⟩))
      · -- back to a single device page
        obtain ⟨y, hy⟩ : ∃ y, l₁ ++ l₂ = [y] := length_eq_one_iff.1 (by omega)
        obtain ⟨b, hb⟩ : ∃ b, k1 ++ k2 = [b] := length_eq_one_iff.1 (by omega)
        have hyn : y = newStart := by
          have := hnew hne1
          rw [hy, head?_cons] at this
          exact Option.some.inj this
        subst hyn
        rw [hy] at hthreaded1
        obtain ⟨c2, hrelease, hthreaded2, hkeep2, hlength2⟩ :=
          threaded_release hthreaded1 (update_self p [y] ids)
        rw [update_idem] at hthreaded2
        have hvalue : c1.valueOf y = BitVec.ofNat 32 b := by
          rw [hy, hb] at hvalues1
          simpa using hvalues1
        refine ⟨{ m1 with multiDevAddress := c2 }.setWord p (c1.valueOf y), ?_, hforward, hbound, ⟨_, hthreaded2, ?_⟩, ?_⟩
        · rw [hun, decide_eq_false htwo]
          simp only [Option.bind_eq_bind, Option.bind_some, Bool.not_false, if_true, hrelease]
        · rw [hb] at hds'
          refine represents_update hrep (fun q _ id hid => ?_) hd hv hds' (.inr (.inl ⟨rfl, b, rfl, hvalue⟩))
          exact (hkeep2 id).trans (hkeep q id hid)
        · show c2.storage.length ≤ devicePages + 1
          rw [hlength2, hlength]
          exact h.size

/-! ## Runs -/

/-- The pages of a call, one after the other. -/
lemma foldlM_range_tracks {f : DeviceMemoryManager → ℕ → Option DeviceMemoryManager}
    {g : ℕ → Option ℕ} {start n : ℕ} (P : Option ℕ → Prop)
    (hstep : ∀ m σ i, i < n → Tracks m σ → P (σ (start + i)) →
      ∃ m', f m i = some m' ∧ Tracks m' (update σ (start + i) (g i)))
    (hpre : ∀ i < n, P (σ (start + i))) (h : Tracks m σ) :
    ∃ m', (range n).foldlM f m = some m' ∧
      Tracks m' (fun d => if start ≤ d ∧ d < start + n then g (d - start) else σ d) := by
  induction n with
  | zero =>
    refine ⟨m, rfl, ?_⟩
    have hsame : (fun d => if start ≤ d ∧ d < start + 0 then g (d - start) else σ d) = σ := by
      funext d
      rw [if_neg (by omega)]
    rw [hsame]
    exact h
  | succ n ih =>
    obtain ⟨m1, hfold, h₁⟩ := ih (fun m σ i hi => hstep m σ i (lt_succ_of_lt hi))
      (fun i hi => hpre i (lt_succ_of_lt hi))
    have hpre1 : P (if start ≤ start + n ∧ start + n < start + n then g (start + n - start)
        else σ (start + n)) := by
      rw [if_neg (by omega)]
      exact hpre n (lt_succ_self n)
    obtain ⟨m2, hf, h₂⟩ := hstep m1 _ n (lt_succ_self n) h₁ hpre1
    refine ⟨m2, ?_, ?_⟩
    · rw [range_succ, foldlM_append, hfold]
      simp [hf]
    · have heq : update
          (fun d => if start ≤ d ∧ d < start + n then g (d - start) else σ d) (start + n) (g n) =
          fun d => if start ≤ d ∧ d < start + (n + 1) then g (d - start) else σ d := by
        funext d
        by_cases hd : d = start + n
        · subst hd
          rw [update_self, if_pos (by omega), Nat.add_sub_cancel_left]
        · rw [update_of_ne hd]
          have hiff : (start ≤ d ∧ d < start + n) ↔ start ≤ d ∧ d < start + (n + 1) := by omega
          simp only [hiff]
      rw [← heq]
      exact h₂

/-- **An allowed call keeps the invariant.** -/
theorem tracks_apply {call : DeviceCall} (h : Tracks m σ) (hallowed : call.Allowed σ) :
    ∃ m', call.apply m = some m' ∧ Tracks m' (call.effect σ) := by
  cases call with
  | map address virtualAddress size asid getPointerSilent =>
    obtain ⟨hrange, hpages, hmemory⟩ := hallowed
    refine foldlM_range_tracks (· = none)
      (g := fun i => (getPointerSilent (pageAddress virtualAddress i)).map (· / pageSize)) ?_
      (fun i hi => (hpages i hi).2) h
    intro m σ i hi h hfree
    exact tracks_mapPage h (hpages i hi).1 (by omega) hfree _ asid (hmemory _)
  | unmap address size =>
    exact foldlM_range_tracks (fun _ => True) (g := fun _ => none)
      (fun m σ i _ h _ => tracks_unmapPage h (startPage address + i)) (fun _ _ => trivial) h

lemma tracks_initial : Tracks initial fun _ => none := by
  refine ⟨fun _ => rfl, fun _ _ h => (by cases h), ⟨fun _ => [], ?_, fun p => ?_⟩, zero_le _⟩
  · constructor
    · exact fun _ => rfl
    · intro _ _ h
      cases h
    · intro _ h
      cases h
    · exact fun _ => nodup_nil
    · exact nodup_nil
    · intro _ _ _ _ h
      cases h
    · intro _ _ h
      cases h
    · intro id hid
      have hpos := toNat_pos_of_ne_zero hid.1
      have hle : id.toNat ≤ 0 := hid.2
      omega
  · exact ⟨[], ⟨nodup_nil, fun d => by simp⟩, .inl ⟨rfl, rfl, rfl⟩⟩

def runCalls : DeviceMemoryManager → List DeviceCall → Option DeviceMemoryManager :=
  foldlM fun m call => call.apply m

def runEffect : Owners → List DeviceCall → Owners := foldl DeviceCall.effect

/-- Every allowed run keeps the invariant. -/
theorem tracks_run {calls : List DeviceCall} (h : Tracks m σ) (hallowed : AllowedRun σ calls) :
    ∃ m', runCalls m calls = some m' ∧ Tracks m' (runEffect σ calls) := by
  induction calls generalizing m σ with
  | nil => exact ⟨m, rfl, h⟩
  | cons call calls ih =>
    obtain ⟨m1, happly, h₁⟩ := tracks_apply h hallowed.1
    obtain ⟨m2, hrun, h₂⟩ := ih h₁ hallowed.2
    refine ⟨m2, ?_, h₂⟩
    simp only [runCalls, foldlM_cons, happly] at hrun ⊢
    exact hrun

lemma Tracks.visits (h : Tracks m σ) (address : ℕ) :
    ∃ pages : List ℕ, IsOwners σ (address / pageSize) pages ∧
      m.applyOpOnPAddr address =
        some ((if pages = [] then [0] else pages).map fun d => d * pageSize + address % pageSize) := by
  obtain ⟨ids, hthreaded, hrep⟩ := h.lists
  obtain ⟨ds, hds, hrepp⟩ := hrep (address / pageSize)
  have hbounds := hds.bounds h.bound
  have hshift : address >>> pageBits = address / pageSize := by
    rw [shiftRight_eq_div_pow, pageSize]
  have haddress : ∀ d < devicePages, (BitVec.ofNat 32 d).toNat <<< pageBits + address % pageSize =
      d * pageSize + address % pageSize := by
    intro d hd
    rw [toNat_page hd, shiftLeft_eq, pageSize]
  refine ⟨ds, hds, ?_⟩
  simp only [applyOpOnPAddr, hshift]
  rcases hrepp.cases hbounds with
    ⟨hword, -, rfl⟩ | ⟨-, hflag, -, d, rfl, hd⟩ | ⟨-, hflag, hlen, hvalues, start, hhead, hstart⟩
  · have hflag : m.compressedDeviceAddr (address / pageSize) >>> multiFlagBits = 0 := by
      rw [hword]
      rfl
    rw [if_pos hflag, hword]
    simp
  · rw [if_pos hflag, hd, haddress d (hbounds d (by simp)).2]
    simp
  · rw [if_neg hflag]
    have hmask : m.compressedDeviceAddr (address / pageSize) &&& multiMask = start := by
      rw [hstart, flagged_mask (start_lt hthreaded h.size hhead)]
    obtain ⟨l, hl⟩ := head?_eq_some_iff.1 hhead
    have hne : ds ≠ [] := by
      rintro rfl
      simp at hlen
    rw [hmask, hthreaded.gatherValues_eq hl, hvalues, if_neg hne, Option.map_some, map_map]
    refine congrArg some (map_congr_left fun d hd => ?_)
    exact haddress d (hbounds d hd).2

lemma Tracks.exact (h : Tracks m σ) : Exact m σ := by
  refine ⟨h.forward, fun address _ => ?_, ?_⟩
  · obtain ⟨pages, hpages, hvisits⟩ := h.visits address
    exact ⟨pages, hpages.1, hpages.2, hvisits⟩
  · obtain ⟨ids, hthreaded, hrep⟩ := h.lists
    refine ⟨ids, hthreaded, fun p => ?_⟩
    obtain ⟨ds, hds, hrepp⟩ := hrep p
    rcases hrepp.cases (hds.bounds h.bound) with
      ⟨hword, hids, -⟩ | ⟨-, hflag, hids, -⟩ | ⟨-, hflag, -, -, start, hhead, hstart⟩
    · have hflag : m.compressedDeviceAddr p >>> multiFlagBits = 0 := by
        rw [hword]
        rfl
      rw [if_pos hflag]
      exact hids
    · rw [if_pos hflag]
      exact hids
    · rw [if_neg hflag, hstart, flagged_mask (start_lt hthreaded h.size hhead)]
      exact hhead

/-- Three device pages share a physical page, and one of them goes. -/
def sharedCalls : List DeviceCall :=
  [.map pageSize 0 (3 * pageSize) 0 fun _ => some (5 * pageSize), .unmap (2 * pageSize) pageSize]

end Voltemu.Core
