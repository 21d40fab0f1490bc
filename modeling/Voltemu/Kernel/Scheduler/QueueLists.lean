import Voltemu.Kernel.Scheduler.KPriorityQueue

/-!
# What the operations of the priority queue do to its lists

`Rep q slots` says that the pointers of `q` spell out well-formed lists, that the bits are those of
the non-empty ones, and that thread `x` is linked exactly into the lists `slots x`.  A core has one
entry for each thread, so a thread is in at most one list of a core; that is the side condition of
every push.

* `rep_implPushBack`, `rep_implPushFront`, `rep_implRemove`, `rep_implMoveToFront`,
  `rep_implMoveToBack` — one list;
* `rep_pushAll`, `rep_removeAll` — the loops, which go over lists of different cores;
* `rep_pushBackAt`, `rep_pushFrontAt`, `rep_removeAt`, `rep_changeAffinityMask`, `rep_changeCore` —
  the operations of the queue, in terms of the lists `slotsAt` a thread belongs into.
-/

namespace Voltemu.Kernel

open DList Function List

namespace KPriorityQueue

variable {ι : Type*}

/-- The pointers spell out the lists `L`. -/
structure Lists (q : KPriorityQueue ι) (L : Slot → List ι) : Prop where
  isList : ∀ slot, IsList (q.links slot) (L slot)
  disjoint : ∀ slot slot' x, slot.core = slot'.core → x ∈ L slot → x ∈ L slot' → slot = slot'
  available : ∀ slot, q.available slot = true ↔ L slot ≠ []

/-- Thread `x` is linked exactly into the lists `slots x`. -/
def Rep (q : KPriorityQueue ι) (slots : ι → Set Slot) : Prop :=
  ∃ L, q.Lists L ∧ ∀ x slot, x ∈ L slot ↔ slot ∈ slots x

lemma rep_empty : (empty : KPriorityQueue ι).Rep fun _ => ∅ := by
  refine ⟨fun _ => [], ⟨fun _ => isList_nil _, ?_, ?_⟩, ?_⟩
  · intro slot slot' x _ hx
    simp at hx
  · intro slot
    simp [empty]
  · intro x slot
    simp

lemma Lists.write [DecidableEq ι] {q q' : KPriorityQueue ι} {L : Slot → List ι} {slot : Slot}
    {s : Links ι} {l : List ι} (h : q.Lists L) (hs : IsList s l)
    (hroot : q'.root = update q.root slot s.root)
    (hentries : q'.entries = update q.entries slot.core s.entry)
    (hframe : ∀ x, x ∉ L slot → x ∉ l → s.entry x = q.entries slot.core x)
    (hnew : ∀ slot' x, slot'.core = slot.core → x ∈ l → x ∈ L slot' → slot' = slot)
    (havail : q'.available slot = true ↔ l ≠ [])
    (hother : ∀ slot', slot' ≠ slot → q'.available slot' = q.available slot') :
    q'.Lists (update L slot l) := by
  refine ⟨?_, ?_, ?_⟩
  · intro slot'
    by_cases heq : slot' = slot
    · subst heq
      rw [update_self]
      refine hs.congr ?_ ?_
      · simp [links, hroot]
      · intro x _
        simp [links, hentries]
    · rw [update_of_ne heq]
      refine (h.isList slot').congr ?_ ?_
      · simp [links, hroot, heq]
      · intro x hx
        simp only [links, hentries]
        by_cases hcore : slot'.core = slot.core
        · rw [hcore, update_self]
          refine hframe x ?_ ?_
          · exact fun hx' => heq (h.disjoint slot' slot x hcore hx hx')
          · exact fun hx' => heq (hnew slot' x hcore hx' hx)
        · rw [update_of_ne hcore]
  · intro slot1 slot2 x hcore h1 h2
    by_cases heq1 : slot1 = slot <;> by_cases heq2 : slot2 = slot
    · rw [heq1, heq2]
    · subst heq1
      rw [update_self] at h1
      rw [update_of_ne heq2] at h2
      exact (hnew slot2 x hcore.symm h1 h2).symm
    · subst heq2
      rw [update_self] at h2
      rw [update_of_ne heq1] at h1
      exact hnew slot1 x hcore h2 h1
    · rw [update_of_ne heq1] at h1
      rw [update_of_ne heq2] at h2
      exact h.disjoint slot1 slot2 x hcore h1 h2
  · intro slot'
    by_cases heq : slot' = slot
    · rw [heq, update_self, havail]
    · rw [update_of_ne heq, hother slot' heq, h.available slot']

section OneList

variable [DecidableEq ι] {q : KPriorityQueue ι} {slots : ι → Set Slot} {S : Set Slot} {m : ι}
  {slot : Slot}

variable {L : Slot → List ι} {l : List ι}

/-- The lists after a change to the lists of one thread. -/
private lemma mem_update_iff {T : Set Slot} (h : ∀ x slot, x ∈ L slot ↔ slot ∈ update slots m S x)
    (hself : ∀ slot', m ∈ update L slot l slot' ↔ slot' ∈ T)
    (hother : ∀ x, x ≠ m → (x ∈ l ↔ x ∈ L slot)) (x : ι) (slot' : Slot) :
    x ∈ update L slot l slot' ↔ slot' ∈ update slots m T x := by
  by_cases hx : x = m
  · rw [hx, update_self, hself]
  · rw [update_of_ne hx]
    have hL := h x slot'
    rw [update_of_ne hx] at hL
    by_cases heq : slot' = slot
    · subst heq
      rw [update_self, hother x hx, hL]
    · rw [update_of_ne heq, hL]

/-- The slots a push adds: none below the lowest priority. -/
def pushed (slot : Slot) : Set Slot := {slot' | slot' = slot ∧ slot.priority ≤ LowestPriority}

variable {q' : KPriorityQueue ι} {s : Links ι}

private lemma rep_grow (h : q.Lists L) (hL : ∀ x slot, x ∈ L slot ↔ slot ∈ update slots m S x)
    (hfree : ∀ slot' ∈ S, slot'.core ≠ slot.core) (hprio : slot.priority ≤ LowestPriority)
    (hs : IsList s l) (hl : ∀ x, x ∈ l ↔ x = m ∨ x ∈ L slot)
    (hroot : q'.root = update q.root slot s.root)
    (hentries : q'.entries = update q.entries slot.core s.entry)
    (hframe : ∀ x, x ∉ L slot → x ≠ m → s.entry x = q.entries slot.core x)
    (havail : q'.available slot = true)
    (hother : ∀ slot', slot' ≠ slot → q'.available slot' = q.available slot') :
    q'.Rep (update slots m (S ∪ pushed slot)) := by
  have hm : ∀ slot', m ∈ L slot' ↔ slot' ∈ S := by
    intro slot'
    rw [hL m slot', update_self]
  refine ⟨update L slot l, h.write hs hroot hentries ?_ ?_ ?_ hother, ?_⟩
  · intro x hx hxl
    exact hframe x hx fun heq => hxl ((hl x).2 (Or.inl heq))
  · intro slot' x hcore hx hx'
    rcases (hl x).1 hx with rfl | hx
    · exact absurd hcore (hfree slot' ((hm slot').1 hx'))
    · exact h.disjoint slot' slot x hcore hx' hx
  · have hne : l ≠ [] := ne_nil_of_mem ((hl m).2 (Or.inl rfl))
    simp [havail, hne]
  · refine mem_update_iff hL ?_ ?_
    · intro slot'
      by_cases heq : slot' = slot
      · subst heq
        simp [hl, pushed, hprio]
      · rw [update_of_ne heq, hm]
        simp [pushed, heq]
    · intro x hx
      simp [hl, hx]

private lemma not_mem_of_free (hL : ∀ x slot, x ∈ L slot ↔ slot ∈ update slots m S x)
    (hfree : ∀ slot' ∈ S, slot'.core ≠ slot.core) : m ∉ L slot := by
  intro hmem
  rw [hL m slot, update_self] at hmem
  exact hfree slot hmem rfl

lemma rep_update_union_empty (h : q.Rep (update slots m S)) (hprio : ¬ slot.priority ≤ LowestPriority) :
    q.Rep (update slots m (S ∪ pushed slot)) := by
  have hempty : pushed slot = ∅ := by
    ext slot'
    simp [pushed, hprio]
  rwa [hempty, Set.union_empty]

/-- **`PushBack` links the thread into the list.** -/
theorem rep_implPushBack (slot : Slot) (h : q.Rep (update slots m S)) (hfree : ∀ slot' ∈ S, slot'.core ≠ slot.core) :
    (q.implPushBack slot m).Rep (update slots m (S ∪ pushed slot)) := by
  rw [implPushBack]
  split_ifs with hprio hnone
  · exact rep_update_union_empty h (by omega)
  all_goals
    obtain ⟨L, hLists, hL⟩ := h
    have hlist := hLists.isList slot
    refine rep_grow hLists hL hfree (by omega)
      (isList_pushBack hlist (not_mem_of_free hL hfree)) ?_ rfl rfl ?_ ?_ ?_
    · intro x
      simp [or_comm]
    · intro x hx hxm
      exact pushBack_entry_of_ne hlist hx hxm
  · simp [setAvailable]
  · intro slot' hne
    simp [setAvailable, setLinks, hne]
  · have hne : L slot ≠ [] := by
      intro hnil
      have hlast := hlist.last
      rw [hnil] at hlast
      exact hnone (by simpa [links] using hlast)
    exact (hLists.available slot).2 hne
  · intro slot' _
    rfl

/-- **`PushFront` links the thread into the list.** -/
theorem rep_implPushFront (slot : Slot) (h : q.Rep (update slots m S)) (hfree : ∀ slot' ∈ S, slot'.core ≠ slot.core) :
    (q.implPushFront slot m).Rep (update slots m (S ∪ pushed slot)) := by
  rw [implPushFront]
  split_ifs with hprio hnone
  · exact rep_update_union_empty h (by omega)
  all_goals
    obtain ⟨L, hLists, hL⟩ := h
    have hlist := hLists.isList slot
    refine rep_grow hLists hL hfree (by omega)
      (isList_pushFront hlist (not_mem_of_free hL hfree)) ?_ rfl rfl ?_ ?_ ?_
    · intro x
      simp
    · intro x hx hxm
      exact pushFront_entry_of_ne hlist hx hxm
  · simp [setAvailable]
  · intro slot' hne
    simp [setAvailable, setLinks, hne]
  · have hne : L slot ≠ [] := by
      intro hnil
      have hhead := hlist.head
      rw [hnil] at hhead
      exact hnone (by simpa [links] using hhead)
    exact (hLists.available slot).2 hne
  · intro slot' _
    rfl

/-- **`Remove` unlinks the thread from the list.** -/
theorem rep_implRemove (slot : Slot) (h : q.Rep (update slots m S)) (hmem : slot ∈ S ↔ slot.priority ≤ LowestPriority) :
    (q.implRemove slot m).Rep (update slots m (S \ {slot})) := by
  rw [implRemove]
  by_cases hprio : slot.priority > LowestPriority
  · rw [if_pos hprio, Set.sdiff_singleton_eq_self fun hS => absurd (hmem.1 hS) (by omega)]
    exact h
  · rw [if_neg hprio]
    obtain ⟨L, hLists, hL⟩ := h
    have hlist := hLists.isList slot
    have hm : ∀ slot', m ∈ L slot' ↔ slot' ∈ S := by
      intro slot'
      rw [hL m slot', update_self]
    have hmL : m ∈ L slot := (hm slot).2 (hmem.2 (by omega))
    have hlist' := isList_remove hlist hmL
    have hnodup := hlist.nodup
    have hempty : (((q.links slot).remove m).root.next.isNone = true) ↔ (L slot).erase m = [] := by
      rw [hlist'.head, Option.isNone_iff_eq_none, head?_eq_none_iff]
    have hkey : ∀ q' : KPriorityQueue ι, q'.root = update q.root slot ((q.links slot).remove m).root →
        q'.entries = update q.entries slot.core ((q.links slot).remove m).entry →
        (q'.available slot = true ↔ (L slot).erase m ≠ []) →
        (∀ slot', slot' ≠ slot → q'.available slot' = q.available slot') →
        q'.Rep (update slots m (S \ {slot})) := by
      intro q' hroot hentries havail hother
      refine ⟨update L slot ((L slot).erase m), hLists.write hlist' hroot hentries ?_ ?_ havail hother, ?_⟩
      · intro x hx _
        exact remove_entry_of_ne hlist hmL hx
      · intro slot' x hcore hx hx'
        exact hLists.disjoint slot' slot x hcore hx' (mem_of_mem_erase hx)
      · refine mem_update_iff hL ?_ ?_
        · intro slot'
          by_cases heq : slot' = slot
          · subst heq
            simp [hnodup.mem_erase_iff]
          · rw [update_of_ne heq, hm]
            simp [heq]
        · intro x hx
          rw [hnodup.mem_erase_iff]
          simp [hx]
    have hroot : (q.setLinks slot ((q.links slot).remove m)).root slot = ((q.links slot).remove m).root := by
      simp [setLinks]
    simp only [hroot]
    split_ifs with hnone
    · refine hkey _ rfl rfl ?_ ?_
      · simp [setAvailable, hempty.1 hnone]
      · intro slot' hne
        simp [setAvailable, setLinks, hne]
    · refine hkey _ rfl rfl ?_ fun _ _ => rfl
      have hne : L slot ≠ [] := ne_nil_of_mem hmL
      have hav : q.available slot = true := (hLists.available slot).2 hne
      rw [hempty] at hnone
      simp only [setLinks, hav, ne_eq, hnone, not_false_eq_true]

private lemma rep_reorder (h : q.Lists L) (hL : ∀ x slot, x ∈ L slot ↔ slot ∈ slots x) (hs : IsList s l)
    (hl : ∀ x, x ∈ l ↔ x ∈ L slot) (hm : m ∈ L slot)
    (hroot : q'.root = update q.root slot s.root)
    (hentries : q'.entries = update q.entries slot.core s.entry)
    (hframe : ∀ x, x ∉ L slot → s.entry x = q.entries slot.core x)
    (havail : q'.available = q.available) : q'.Rep slots := by
  refine ⟨update L slot l, h.write hs hroot hentries ?_ ?_ ?_ ?_, ?_⟩
  · intro x hx _
    exact hframe x hx
  · intro slot' x hcore hx hx'
    exact h.disjoint slot' slot x hcore hx' ((hl x).1 hx)
  · have hne : l ≠ [] := ne_nil_of_mem ((hl m).2 hm)
    have hne' : L slot ≠ [] := ne_nil_of_mem hm
    rw [havail]
    simp only [(h.available slot).2 hne', ne_eq, hne, not_false_eq_true]
  · intro slot' _
    rw [havail]
  · intro x slot'
    by_cases heq : slot' = slot
    · subst heq
      rw [update_self, hl, hL]
    · rw [update_of_ne heq, hL]

section

variable (h : q.Rep slots) (hmem : slot.priority ≤ LowestPriority → slot ∈ slots m)
include h hmem

/-- **`MoveToFront` keeps the lists of every thread.** -/
theorem rep_implMoveToFront : (q.implMoveToFront slot m).Rep slots := by
  rw [implMoveToFront]
  split_ifs with hprio
  · obtain ⟨L, hLists, hL⟩ := h
    have hlist := hLists.isList slot
    have hm : m ∈ L slot := (hL m slot).2 (hmem hprio)
    have hlist' := isList_remove hlist hm
    have hnot : m ∉ (L slot).erase m := hlist.nodup.not_mem_erase
    refine rep_reorder hLists hL (isList_pushFront hlist' hnot) ?_ hm rfl rfl ?_ rfl
    · intro x
      rw [mem_cons, hlist.nodup.mem_erase_iff]
      by_cases hx : x = m <;> simp [hx, hm]
    · intro x hx
      rw [pushFront_entry_of_ne hlist' (fun hx' => hx (mem_of_mem_erase hx'))
        (fun heq => hx (heq ▸ hm)), remove_entry_of_ne hlist hm hx]
      rfl
  · exact h

/-- **`MoveToBack` keeps the lists of every thread.** -/
theorem rep_implMoveToBack : (q.implMoveToBack slot m).2.Rep slots := by
  rw [implMoveToBack]
  split_ifs with hprio
  · obtain ⟨L, hLists, hL⟩ := h
    have hlist := hLists.isList slot
    have hm : m ∈ L slot := (hL m slot).2 (hmem hprio)
    have hlist' := isList_remove hlist hm
    have hnot : m ∉ (L slot).erase m := hlist.nodup.not_mem_erase
    refine rep_reorder hLists hL (isList_pushBack hlist' hnot) ?_ hm rfl rfl ?_ rfl
    · intro x
      rw [mem_append, mem_singleton, hlist.nodup.mem_erase_iff]
      by_cases hx : x = m <;> simp [hx, hm]
    · intro x hx
      rw [pushBack_entry_of_ne hlist' (fun hx' => hx (mem_of_mem_erase hx'))
        (fun heq => hx (heq ▸ hm)), remove_entry_of_ne hlist hm hx]
      rfl
  · exact h

end

/-! ## The loops over the cores -/

lemma rep_pushAll (l : List Slot) (hcores : (l.map Slot.core).Nodup)
    (h : q.Rep (update slots m S)) (hfree : ∀ slot ∈ S, slot.core ∉ l.map Slot.core) :
    (l.foldl (fun q slot => q.implPushBack slot m) q).Rep
      (update slots m (S ∪ {slot | slot ∈ l ∧ slot.priority ≤ LowestPriority})) := by
  induction l generalizing q S with
  | nil => simpa using h
  | cons head l ih =>
    rw [map_cons, nodup_cons] at hcores
    have hpush : (q.implPushBack head m).Rep (update slots m (S ∪ pushed head)) := by
      refine rep_implPushBack head h ?_
      intro slot hslot heq
      exact hfree slot hslot (by simp [heq])
    have hrest := ih hcores.2 hpush ?_
    · have hset : S ∪ {slot | slot ∈ head :: l ∧ slot.priority ≤ LowestPriority} =
          S ∪ pushed head ∪ {slot | slot ∈ l ∧ slot.priority ≤ LowestPriority} := by
        ext slot
        simp only [Set.mem_union, Set.mem_ofPred_eq, mem_cons, pushed]
        constructor
        · rintro (hS | ⟨rfl | hl, hp⟩)
          · exact Or.inl (Or.inl hS)
          · exact Or.inl (Or.inr ⟨rfl, hp⟩)
          · exact Or.inr ⟨hl, hp⟩
        · rintro ((hS | ⟨rfl, hp⟩) | ⟨hl, hp⟩)
          · exact Or.inl hS
          · exact Or.inr ⟨Or.inl rfl, hp⟩
          · exact Or.inr ⟨Or.inr hl, hp⟩
      rw [foldl_cons, hset]
      exact hrest
    · rintro slot (hS | ⟨rfl, -⟩) hcore
      · exact hfree slot hS (by simp only [map_cons, mem_cons, hcore, or_true])
      · exact hcores.1 hcore

lemma rep_removeAll (l : List Slot) (hnodup : l.Nodup) (h : q.Rep (update slots m S))
    (hmem : ∀ slot ∈ l, slot ∈ S ↔ slot.priority ≤ LowestPriority) :
    (l.foldl (fun q slot => q.implRemove slot m) q).Rep (update slots m (S \ {slot | slot ∈ l})) := by
  induction l generalizing q S with
  | nil => simpa using h
  | cons head l ih =>
    rw [nodup_cons] at hnodup
    have hrest := ih hnodup.2 (rep_implRemove head h (hmem head (by simp))) ?_
    · have hset : S \ {slot | slot ∈ head :: l} = (S \ {head}) \ {slot | slot ∈ l} := by
        ext slot
        simp only [mem_cons, Set.mem_sdiff, Set.mem_ofPred_eq, Set.mem_singleton_iff, not_or, and_assoc]
      rw [foldl_cons, hset]
      exact hrest
    · intro slot hslot
      have hne : slot ≠ head := fun heq => hnodup.1 (heq ▸ hslot)
      rw [← hmem slot (by simp [hslot])]
      simp [hne]

end OneList

/-! ## The operations of the queue -/

/-- The lists a thread belongs into when it is queued with `priority`: the scheduled list of its
active core and the suggested lists of the other cores of its affinity mask. -/
def slotsAt (a : KThreadInfo) (priority : ℕ) : Set Slot :=
  {slot | slot.priority = priority ∧ priority ≤ LowestPriority ∧
    match slot.kind with
    | .scheduled => a.activeCore = some slot.core
    | .suggested => a.affinityMask.getLsbD slot.core = true ∧ a.activeCore ≠ some slot.core}

lemma mem_affinityCores {mask : BitVec 64} {core : ℕ} : core ∈ affinityCores mask ↔ mask.getLsbD core = true := by
  rw [affinityCores, mem_filter, mem_range]
  constructor
  · rintro ⟨-, hbit⟩
    exact hbit
  · intro hbit
    exact ⟨BitVec.lt_of_getLsbD hbit, hbit⟩

lemma affinityCores_nodup (mask : BitVec 64) : (affinityCores mask).Nodup :=
  nodup_range.filter _

section Operations

variable [DecidableEq ι] {q : KPriorityQueue ι} {slots : ι → Set Slot} {S : Set Slot} {m : ι}
  {thread : ι → KThreadInfo} {priority : ℕ}

variable {cores : List ℕ}

lemma rep_suggestAll (hnodup : cores.Nodup) (h : q.Rep (update slots m S)) (hfree : ∀ slot ∈ S, slot.core ∉ cores) :
    (q.suggestAll priority cores m).Rep (update slots m (S ∪
      {slot | slot.kind = .suggested ∧ slot.priority = priority ∧ slot.core ∈ cores ∧ priority ≤ LowestPriority})) := by
  have hcores : (cores.map fun core => (⟨.suggested, priority, core⟩ : Slot)).map Slot.core =
      cores := by
    simp [comp_def]
  have hall := rep_pushAll (cores.map fun core => (⟨.suggested, priority, core⟩ : Slot))
    (by rwa [hcores]) h (by rwa [hcores])
  have hset : {slot : Slot | slot.kind = .suggested ∧ slot.priority = priority ∧
        slot.core ∈ cores ∧ priority ≤ LowestPriority} =
      {slot | slot ∈ cores.map (fun core => (⟨.suggested, priority, core⟩ : Slot)) ∧ slot.priority ≤ LowestPriority} := by
    ext slot
    simp only [Set.mem_ofPred_eq, mem_map]
    constructor
    · rintro ⟨hkind, rfl, hcore, hprio⟩
      exact ⟨⟨slot.core, hcore, by rw [← hkind]⟩, hprio⟩
    · rintro ⟨⟨core, hcore, rfl⟩, hprio⟩
      exact ⟨rfl, rfl, hcore, hprio⟩
  rw [foldl_map] at hall
  rw [hset]
  exact hall

lemma rep_unsuggestAll (priority : ℕ) (hnodup : cores.Nodup) (h : q.Rep (update slots m S))
    (hmem : ∀ core ∈ cores, ⟨.suggested, priority, core⟩ ∈ S ↔ priority ≤ LowestPriority) :
    (q.unsuggestAll priority cores m).Rep (update slots m (S \
      {slot | slot.kind = .suggested ∧ slot.priority = priority ∧ slot.core ∈ cores})) := by
  have hinj : Function.Injective fun core => (⟨.suggested, priority, core⟩ : Slot) := by
    intro core core' heq
    simpa using heq
  have hall := rep_removeAll (cores.map fun core => (⟨.suggested, priority, core⟩ : Slot))
    (hnodup.map hinj) h (by
      intro slot hslot
      obtain ⟨core, hcore, rfl⟩ := mem_map.1 hslot
      exact hmem core hcore)
  have hset : {slot : Slot | slot.kind = .suggested ∧ slot.priority = priority ∧ slot.core ∈ cores} =
      {slot | slot ∈ cores.map (fun core => (⟨.suggested, priority, core⟩ : Slot))} := by
    ext slot
    simp only [Set.mem_ofPred_eq, mem_map]
    constructor
    · rintro ⟨hkind, rfl, hcore⟩
      exact ⟨slot.core, hcore, by rw [← hkind]⟩
    · rintro ⟨core, hcore, rfl⟩
      exact ⟨rfl, rfl, hcore⟩
  rw [foldl_map] at hall
  rw [hset]
  exact hall

variable {a : KThreadInfo}

/-- The lists of a thread with an active core: the first push and the loop over the others. -/
private lemma slotsAt_of_active {core : ℕ} (hactive : a.activeCore = some core) :
    slotsAt a priority = pushed ⟨.scheduled, priority, core⟩ ∪
      {slot | slot.kind = .suggested ∧ slot.priority = priority ∧
        slot.core ∈ (affinityCores a.affinityMask).filter (· ≠ core) ∧
        priority ≤ LowestPriority} := by
  ext ⟨kind, p, c⟩
  simp only [slotsAt, pushed, Set.mem_union, Set.mem_ofPred_eq, Slot.mk.injEq, hactive,
    mem_filter, mem_affinityCores, decide_eq_true_eq, Option.some.injEq]
  cases kind with
  | scheduled =>
    simp only [true_and, reduceCtorEq, false_and, or_false]
    constructor
    · rintro ⟨rfl, hp, rfl⟩
      exact ⟨⟨rfl, rfl⟩, hp⟩
    · rintro ⟨⟨rfl, rfl⟩, hp⟩
      exact ⟨rfl, hp, rfl⟩
  | suggested =>
    simp only [reduceCtorEq, false_and, true_and, false_or]
    constructor
    · rintro ⟨rfl, hp, hbit, hne⟩
      exact ⟨rfl, ⟨hbit, fun heq => hne (by rw [heq])⟩, hp⟩
    · rintro ⟨rfl, ⟨hbit, hne⟩, hp⟩
      exact ⟨rfl, hp, hbit, fun heq => hne (Option.some.inj heq).symm⟩

private lemma slotsAt_of_inactive (hactive : a.activeCore = none) :
    slotsAt a priority = {slot | slot.kind = .suggested ∧ slot.priority = priority ∧
      slot.core ∈ affinityCores a.affinityMask ∧ priority ≤ LowestPriority} := by
  ext ⟨kind, p, c⟩
  cases kind with
  | scheduled => simp [slotsAt, hactive]
  | suggested =>
    simp only [slotsAt, Set.mem_ofPred_eq, hactive, mem_affinityCores, true_and, ne_eq,
      reduceCtorEq, not_false_eq_true, and_true]
    tauto

private lemma rep_suggestOthers {core : ℕ} (hactive : (thread m).activeCore = some core)
    (h : q.Rep (update slots m (∅ ∪ pushed ⟨.scheduled, priority, core⟩))) :
    (q.suggestAll priority ((affinityCores (thread m).affinityMask).filter (· ≠ core)) m).Rep
      (update slots m (slotsAt (thread m) priority)) := by
  rw [slotsAt_of_active hactive, ← Set.empty_union (pushed _)]
  refine rep_suggestAll ((affinityCores_nodup _).filter _) h ?_
  rintro slot (hslot | ⟨rfl, -⟩)
  · simp at hslot
  · simp

/-- **`PushBack(priority, member)` links the thread into its lists.** -/
theorem rep_pushBackAt (h : q.Rep (update slots m ∅)) :
    (q.pushBackAt thread priority m).Rep (update slots m (slotsAt (thread m) priority)) := by
  simp only [pushBackAt]
  cases hactive : (thread m).activeCore with
  | none =>
    rw [slotsAt_of_inactive hactive, ← Set.empty_union {slot : Slot | _}]
    exact rep_suggestAll (affinityCores_nodup _) h (by simp)
  | some core => exact rep_suggestOthers hactive (rep_implPushBack _ h (by simp))

/-- **`PushFront(priority, member)` links the thread into its lists.** -/
theorem rep_pushFrontAt (h : q.Rep (update slots m ∅)) :
    (q.pushFrontAt thread priority m).Rep (update slots m (slotsAt (thread m) priority)) := by
  simp only [pushFrontAt]
  cases hactive : (thread m).activeCore with
  | none =>
    rw [slotsAt_of_inactive hactive, ← Set.empty_union {slot : Slot | _}]
    exact rep_suggestAll (affinityCores_nodup _) h (by simp)
  | some core => exact rep_suggestOthers hactive (rep_implPushFront _ h (by simp))

/-- **`Remove(priority, member)` unlinks the thread from its lists.** -/
theorem rep_removeAt (h : q.Rep (update slots m (slotsAt (thread m) priority))) :
    (q.removeAt thread priority m).Rep (update slots m ∅) := by
  simp only [removeAt]
  cases hactive : (thread m).activeCore with
  | none =>
    have hall := rep_unsuggestAll priority (affinityCores_nodup (thread m).affinityMask) h (by
      intro core hcore
      simp [slotsAt, hactive, mem_affinityCores.1 hcore])
    convert hall using 2
    rw [slotsAt_of_inactive hactive, eq_comm, Set.sdiff_eq_empty]
    rintro slot ⟨hkind, hprio, hcore, -⟩
    exact ⟨hkind, hprio, hcore⟩
  | some core =>
    have hone := rep_implRemove ⟨.scheduled, priority, core⟩ h (by
      simp [slotsAt, hactive])
    have hall := rep_unsuggestAll priority
      ((affinityCores_nodup (thread m).affinityMask).filter (· ≠ core)) hone (by
        intro core' hcore'
        obtain ⟨hbit, hne⟩ := mem_filter.1 hcore'
        have hne' : ¬ core = core' := fun heq => of_decide_eq_true hne heq.symm
        simp [slotsAt, hactive, mem_affinityCores.1 hbit, hne'])
    convert hall using 2
    rw [slotsAt_of_active hactive, eq_comm, Set.sdiff_eq_empty]
    rintro slot ⟨⟨hslot, -⟩ | ⟨hkind, hprio, hcore, -⟩, hne⟩
    · exact absurd hslot hne
    · exact ⟨hkind, hprio, hcore⟩

/-- The cores of `ChangeAffinityMask`'s loop. -/
private def maskSlots (active : Option ℕ) (mask : BitVec 64) (priority : ℕ) : List Slot :=
  ((range NumCores).filter fun core => mask.getLsbD core).map fun core =>
    ⟨kindOn active core, priority, core⟩

private lemma maskSlots_cores (active : Option ℕ) (mask : BitVec 64) (priority : ℕ) :
    ((maskSlots active mask priority).map Slot.core).Nodup := by
  rw [maskSlots, map_map]
  simpa [comp_def] using nodup_range.filter _

private lemma slotsAt_eq_maskSlots (ha : a.Valid) :
    slotsAt a priority = {slot | slot ∈ maskSlots a.activeCore a.affinityMask priority ∧
      slot.priority ≤ LowestPriority} := by
  ext ⟨kind, p, c⟩
  simp only [slotsAt, maskSlots, Set.mem_ofPred_eq, mem_map, mem_filter, mem_range, Slot.mk.injEq]
  constructor
  · rintro ⟨rfl, hp, hslot⟩
    cases kind with
    | scheduled =>
      have hbit := ha.active_mem c hslot
      exact ⟨⟨c, ⟨ha.mask_lt c hbit, hbit⟩, by simp [kindOn, hslot]⟩, hp⟩
    | suggested =>
      refine ⟨⟨c, ⟨ha.mask_lt c hslot.1, hslot.1⟩, ?_⟩, hp⟩
      simp [kindOn, Ne.symm hslot.2]
  · rintro ⟨⟨core, ⟨-, hbit⟩, hkind, rfl, rfl⟩, hp⟩
    refine ⟨rfl, hp, ?_⟩
    rw [kindOn] at hkind
    split_ifs at hkind with hactive
    · subst hkind
      exact hactive.symm
    · subst hkind
      exact ⟨hbit, fun heq => hactive heq.symm⟩

variable {info prev : KThreadInfo}

/-- **`ChangePriority` moves the thread to the lists of its new priority.** -/
theorem rep_changePriority {prevPriority : ℕ} (isRunning : Bool)
    (hinfo : thread m = info) (hdummy : info.isDummyThread = false)
    (h : q.Rep (update slots m (slotsAt info prevPriority))) :
    (q.changePriority thread prevPriority isRunning m).Rep (update slots m (slotsAt info info.priority)) := by
  subst hinfo
  simp only [changePriority, hdummy, Bool.false_eq_true, if_false]
  cases isRunning with
  | true => exact rep_pushFrontAt (rep_removeAt h)
  | false => exact rep_pushBackAt (rep_removeAt h)

/-- **`ChangeAffinityMask` moves the thread to the lists of its new core and mask.** -/
theorem rep_changeAffinityMask (hinfo : thread m = info)
    (hdummy : info.isDummyThread = false) (hvalid : info.Valid) (hprev : prev.Valid)
    (h : q.Rep (update slots m (slotsAt prev info.priority))) :
    (q.changeAffinityMask thread prev.activeCore prev.affinityMask m).Rep
      (update slots m (slotsAt info info.priority)) := by
  subst hinfo
  simp only [changeAffinityMask, hdummy, Bool.false_eq_true, if_false]
  rw [slotsAt_eq_maskSlots hprev] at h
  have hremoved := rep_removeAll (maskSlots prev.activeCore prev.affinityMask (thread m).priority)
    (List.Nodup.of_map _ (maskSlots_cores _ _ _)) h (by
      intro slot hslot
      simp [hslot])
  rw [Set.sdiff_eq_empty.2 fun slot hslot => hslot.1] at hremoved
  have hpushed := rep_pushAll (maskSlots (thread m).activeCore (thread m).affinityMask (thread m).priority)
    (maskSlots_cores _ _ _) hremoved (by simp)
  rw [Set.empty_union, ← slotsAt_eq_maskSlots hvalid] at hpushed
  simpa only [maskSlots, foldl_map, foldl_filter] using hpushed

/-- **`ChangeCore` moves the thread between the lists of its previous and its new core.** -/
theorem rep_changeCore (toFront : Bool) (hinfo : thread m = info)
    (hdummy : info.isDummyThread = false) (hvalid : info.Valid) (hprev : prev.Valid)
    (hmask : prev.affinityMask = info.affinityMask)
    (h : q.Rep (update slots m (slotsAt prev info.priority))) :
    (q.changeCore thread prev.activeCore m toFront).Rep (update slots m (slotsAt info info.priority)) := by
  subst hinfo
  have hbitPrev := hprev.active_mem
  have hbitNew := hvalid.active_mem
  have hpushNew : ∀ (slot : Slot) {q : KPriorityQueue ι} {S : Set Slot},
      q.Rep (update slots m S) → (∀ slot' ∈ S, slot'.core ≠ slot.core) →
      (if toFront then q.implPushFront slot m else q.implPushBack slot m).Rep (update slots m (S ∪ pushed slot)) := by
    intro slot q S hq hfree
    cases toFront with
    | true => exact rep_implPushFront slot hq hfree
    | false => exact rep_implPushBack slot hq hfree
  simp only [changeCore, hdummy, Bool.false_eq_true, if_false]
  generalize hp : (thread m).priority = p at h ⊢
  by_cases hne : prev.activeCore = (thread m).activeCore
  · rw [if_neg (not_not.2 hne)]
    convert h using 2
    ext slot
    simp only [slotsAt, hne, hmask]
  · rw [if_pos hne]
    cases hcore : prev.activeCore with
    | none =>
      cases hcore' : (thread m).activeCore with
      | none => exact absurd (hcore.trans hcore'.symm) hne
      | some new =>
        have hbit := hbitNew new hcore'
        have h1 := rep_implRemove ⟨.suggested, p, new⟩ h (by
          simp [slotsAt, hcore, hmask, hbit])
        have h2 := hpushNew ⟨.scheduled, p, new⟩ h1 (by
          rintro ⟨kind, p', c⟩ ⟨⟨rfl, -, hslot⟩, hslot'⟩ rfl
          cases kind <;> simp_all)
        convert h2 using 2
        ext ⟨kind, p', c⟩
        cases kind <;> simp [slotsAt, pushed, hcore, hcore', hmask] <;> grind
    | some old =>
      have h1 := rep_implRemove ⟨.scheduled, p, old⟩ h (by simp [slotsAt, hcore])
      have hfree1 : ∀ slot ∈ slotsAt prev p \ {⟨.scheduled, p, old⟩}, slot.core ≠ old := by
        rintro ⟨kind, p', c⟩ ⟨⟨rfl, -, hslot⟩, hslot'⟩ rfl
        cases kind <;> simp_all
      cases hcore' : (thread m).activeCore with
      | none =>
        have h2 := rep_implPushBack ⟨.suggested, p, old⟩ h1 hfree1
        convert h2 using 2
        ext ⟨kind, p', c⟩
        cases kind <;> simp [slotsAt, pushed, hcore, hcore', hmask] <;> grind
      | some new =>
        have hbit' := hbitNew new hcore'
        have hnew : new ≠ old := by
          rintro rfl
          exact hne (hcore.trans hcore'.symm)
        have h2 := rep_implRemove ⟨.suggested, p, new⟩ h1 (by
          simp [slotsAt, hcore, hmask, hbit', Ne.symm hnew])
        have h3 := hpushNew ⟨.scheduled, p, new⟩ h2 (by
          rintro ⟨kind, p', c⟩ ⟨⟨⟨rfl, -, hslot⟩, hslot'⟩, hslot''⟩ rfl
          cases kind <;> simp_all)
        have h4 := rep_implPushBack ⟨.suggested, p, old⟩ h3 (by
          rintro slot (hslot | ⟨rfl, -⟩)
          · exact hfree1 slot hslot.1
          · exact hnew)
        convert h4 using 2
        ext ⟨kind, p', c⟩
        cases kind <;> simp [slotsAt, pushed, hcore, hcore', hmask] <;> grind

end Operations

end KPriorityQueue

end Voltemu.Kernel
