import Voltemu.Kernel.Thread.KThreadLocks

/-!
# The records of held locks and waiting threads

`WF` ties the pointers together: a lock info in the list of a thread names that thread as its owner,
its tree is sorted and counted, and a thread points to a lock info exactly if it is in its tree.
Trees may be empty for a moment.

* `WF.addLock`, `WF.infoAddWaiter`, `WF.infoRemoveWaiter`, `WF.eraseHeldLock`, `WF.moveLock` — the
  small operations keep it;
* `lockOwner_addLock`, … — and what they do to the relation "waits for a lock of".
-/

namespace Voltemu.Kernel

open Function List

namespace LockState

variable {ι : Type*}

/-- A lock info held by `owner`. -/
structure LockOk (priority : ι → ℤ) (key : ι → ℕ × Bool) (owner : ι) (info : LockInfo ι) :
    Prop where
  owner_eq : info.owner = some owner
  nodup : info.tree.Nodup
  sorted : info.tree.Pairwise fun a b => priority a ≤ priority b
  count : info.waiterCount = info.tree.length
  key : ∀ t ∈ info.tree, key t = (info.addressKey, info.isKernelAddressKey)

/-- The lock infos and the threads point to each other. -/
structure WF (s : LockState ι) : Prop where
  ok : ∀ o, ∀ l ∈ s.heldLockInfoList o, LockOk s.priority s.threadKey o (s.lockInfo l)
  nodup : ∀ o, (s.heldLockInfoList o).Nodup
  lt : ∀ o, ∀ l ∈ s.heldLockInfoList o, l < s.nextLockInfo
  waiting : ∀ t l, s.waitingLockInfo t = some l ↔ (∃ o, l ∈ s.heldLockInfoList o) ∧ t ∈ (s.lockInfo l).tree

lemma wf_start (base : ι → ℤ) : (start base).WF := by
  refine ⟨?_, ?_, ?_, ?_⟩
  · intro o l hl
    simp [start] at hl
  · intro o
    simp [start]
  · intro o l hl
    simp [start] at hl
  · intro t l
    simp [start]

section

variable {s : LockState ι}

variable {o t : ι} {key l : ℕ} {b : Bool}

lemma mem_of_findHeldLock (h : s.findHeldLock o key b = some l) : l ∈ s.heldLockInfoList o :=
  mem_of_find?_eq_some h

lemma keyOf_of_findHeldLock (h : s.findHeldLock o key b = some l) : s.keyOf l = (key, b) := by
  have hkey := find?_some h
  exact of_decide_eq_true hkey

lemma findHeldLock_eq_none : s.findHeldLock o key b = none ↔ ∀ l ∈ s.heldLockInfoList o, s.keyOf l ≠ (key, b) := by
  simp [findHeldLock, find?_eq_none]

lemma WF.owner_unique (h : s.WF) {o' : ι} (hl : l ∈ s.heldLockInfoList o) (hl' : l ∈ s.heldLockInfoList o') : o = o' :=
  Option.some.inj ((h.ok o l hl).owner_eq.symm.trans (h.ok o' l hl').owner_eq)

lemma WF.lockOwner_eq_some (h : s.WF) : s.lockOwner t = some o ↔ ∃ l ∈ s.heldLockInfoList o, t ∈ (s.lockInfo l).tree := by
  rw [lockOwner, Option.bind_eq_some_iff]
  constructor
  · rintro ⟨l, hl, howner⟩
    obtain ⟨⟨o', ho'⟩, ht⟩ := (h.waiting t l).1 hl
    have heq := (h.ok o' l ho').owner_eq
    rw [howner, Option.some.injEq] at heq
    exact ⟨l, heq ▸ ho', ht⟩
  · rintro ⟨l, hl, ht⟩
    exact ⟨l, (h.waiting t l).2 ⟨⟨o, hl⟩, ht⟩, (h.ok o l hl).owner_eq⟩

lemma WF.lockOwner_eq_none (h : s.WF) : s.lockOwner t = none ↔ s.waitingLockInfo t = none := by
  constructor
  · intro hnone
    cases hl : s.waitingLockInfo t with
    | none => rfl
    | some l =>
      obtain ⟨⟨o, ho⟩, ht⟩ := (h.waiting t l).1 hl
      rw [h.lockOwner_eq_some.2 ⟨l, ho, ht⟩] at hnone
      simp at hnone
  · intro hnone
    simp [lockOwner, hnone]

lemma WF.not_mem_tree (h : s.WF) (ht : s.waitingLockInfo t = none)
    (hl : l ∈ s.heldLockInfoList o) : t ∉ (s.lockInfo l).tree := by
  intro hmem
  rw [(h.waiting t l).2 ⟨⟨o, hl⟩, hmem⟩] at ht
  simp at ht

lemma WF.next_fresh (h : s.WF) (o : ι) : s.nextLockInfo ∉ s.heldLockInfoList o :=
  fun hmem => absurd (h.lt o _ hmem) (lt_irrefl _)

lemma WF.waiting_ne_next (h : s.WF) (t : ι) : s.waitingLockInfo t ≠ some s.nextLockInfo := by
  intro ht
  obtain ⟨⟨o, ho⟩, -⟩ := (h.waiting t _).1 ht
  exact h.next_fresh o ho

end

/-! ## The small operations -/

section Mutators

variable [DecidableEq ι] {s : LockState ι} {o t : ι} {l : ℕ}

/-- `Create` and `AddHeldLock`. -/
def addLock (s : LockState ι) (owner : ι) (key : ℕ) (isKernel : Bool) : LockState ι :=
  (s.createLockInfo key isKernel).2.addHeldLock owner s.nextLockInfo

lemma addLock_lockInfo (s : LockState ι) (o : ι) (key : ℕ) (isKernel : Bool) :
    (s.addLock o key isKernel).lockInfo = update s.lockInfo s.nextLockInfo ⟨key, isKernel, some o, [], 0⟩ := by
  simp [addLock, addHeldLock, createLockInfo]

lemma mem_addHeld {held : ι → List ℕ} {o o' : ι} {l l' : ℕ} :
    l' ∈ update held o (l :: held o) o' ↔ (o' = o ∧ l' = l) ∨ l' ∈ held o' := by
  by_cases ho : o' = o
  · subst ho
    simp
  · simp [ho]

lemma WF.addLock (h : s.WF) (o : ι) (key : ℕ) (isKernel : Bool) : (s.addLock o key isKernel).WF := by
  have hinfo := addLock_lockInfo s o key isKernel
  have hold : ∀ o' l, l ∈ s.heldLockInfoList o' → (s.addLock o key isKernel).lockInfo l = s.lockInfo l := by
    intro o' l hl
    rw [hinfo, update_of_ne]
    rintro rfl
    exact h.next_fresh o' hl
  have hmem : ∀ o' l, l ∈ (s.addLock o key isKernel).heldLockInfoList o' ↔
      (o' = o ∧ l = s.nextLockInfo) ∨ l ∈ s.heldLockInfoList o' := fun _ _ => mem_addHeld
  refine ⟨?_, ?_, ?_, ?_⟩
  · intro o' l hl
    rcases (hmem o' l).1 hl with ⟨rfl, rfl⟩ | hl
    · rw [hinfo, update_self]
      exact ⟨rfl, nodup_nil, List.Pairwise.nil, rfl, by simp⟩
    · rw [hold o' l hl]
      exact h.ok o' l hl
  · intro o'
    show (update s.heldLockInfoList o (s.nextLockInfo :: s.heldLockInfoList o) o').Nodup
    by_cases ho : o' = o
    · subst ho
      rw [update_self]
      exact nodup_cons.2 ⟨h.next_fresh o', h.nodup o'⟩
    · rw [update_of_ne ho]
      exact h.nodup o'
  · intro o' l hl
    show l < s.nextLockInfo + 1
    rcases (hmem o' l).1 hl with ⟨-, rfl⟩ | hl
    · exact Nat.lt_succ_self _
    · exact Nat.lt_succ_of_lt (h.lt o' l hl)
  · intro t l
    show s.waitingLockInfo t = some l ↔ _
    rw [h.waiting t l]
    constructor
    · rintro ⟨⟨o', hl⟩, ht⟩
      exact ⟨⟨o', (hmem o' l).2 (Or.inr hl)⟩, by rwa [hold o' l hl]⟩
    · rintro ⟨⟨o', hl⟩, ht⟩
      rcases (hmem o' l).1 hl with ⟨-, rfl⟩ | hl
      · simp [hinfo] at ht
      · rw [hold o' l hl] at ht
        exact ⟨⟨o', hl⟩, ht⟩

lemma WF.lockOwner_addLock (h : s.WF) (o : ι) (key : ℕ) (isKernel : Bool) :
    (s.addLock o key isKernel).lockOwner = s.lockOwner := by
  funext t
  show (s.waitingLockInfo t).bind _ = (s.waitingLockInfo t).bind _
  cases hl : s.waitingLockInfo t with
  | none => rfl
  | some l =>
    have hne : l ≠ s.nextLockInfo := fun heq => h.waiting_ne_next t (heq ▸ hl)
    simp [addLock_lockInfo, hne]

omit [DecidableEq ι] in
/-- A thread goes behind those of the same priority. -/
lemma orderedInsert_sorted (priority : ι → ℤ) (t : ι) (tree : List ι)
    (h : tree.Pairwise fun a b => priority a ≤ priority b) :
    (tree.orderedInsert (fun a b => priority a < priority b) t).Pairwise
      fun a b => priority a ≤ priority b := by
  induction tree with
  | nil => simp
  | cons w tree ih =>
    obtain ⟨hw, htree⟩ := pairwise_cons.1 h
    rw [orderedInsert_cons]
    split_ifs with hlt
    · refine pairwise_cons.2 ⟨?_, h⟩
      intro b hb
      rcases mem_cons.1 hb with rfl | hb
      · exact hlt.le
      · exact hlt.le.trans (hw b hb)
    · refine pairwise_cons.2 ⟨?_, ih htree⟩
      intro b hb
      rcases (mem_orderedInsert _).1 hb with rfl | hb
      · exact not_lt.1 hlt
      · exact hw b hb

lemma WF.infoAddWaiter (h : s.WF) (hl : l ∈ s.heldLockInfoList o)
    (ht : s.waitingLockInfo t = none) (hkey : s.threadKey t = s.keyOf l) :
    (s.infoAddWaiter l t).WF := by
  have hmem : ∀ x l', x ∈ ((s.infoAddWaiter l t).lockInfo l').tree ↔ (l' = l ∧ x = t) ∨ x ∈ (s.lockInfo l').tree := by
    intro x l'
    by_cases hl' : l' = l
    · subst hl'
      simp [LockState.infoAddWaiter]
    · simp [LockState.infoAddWaiter, hl']
  refine ⟨?_, h.nodup, h.lt, ?_⟩
  · intro o' l' hl'
    by_cases heq : l' = l
    · subst heq
      obtain rfl := h.owner_unique hl hl'
      have hok := h.ok o l' hl
      have hnot := h.not_mem_tree ht hl
      simp only [LockState.infoAddWaiter, update_self]
      refine ⟨hok.owner_eq, ?_, orderedInsert_sorted _ _ _ hok.sorted, ?_, ?_⟩
      · exact (perm_orderedInsert _ _ _).nodup_iff.2 (nodup_cons.2 ⟨hnot, hok.nodup⟩)
      · rw [orderedInsert_length, hok.count]
      · intro x hx
        rcases (mem_orderedInsert _).1 hx with rfl | hx
        · exact hkey
        · exact hok.key x hx
    · have hsame : (s.infoAddWaiter l t).lockInfo l' = s.lockInfo l' :=
        update_of_ne heq _ _
      rw [hsame]
      exact h.ok o' l' hl'
  · intro x l'
    rw [hmem x l']
    show update s.waitingLockInfo t (some l) x = some l' ↔ (∃ o, l' ∈ s.heldLockInfoList o) ∧ _
    by_cases hx : x = t
    · subst hx
      rw [update_self]
      constructor
      · intro heq
        obtain rfl := Option.some.inj heq
        exact ⟨⟨o, hl⟩, Or.inl ⟨rfl, rfl⟩⟩
      · rintro ⟨⟨o', ho'⟩, ⟨rfl, -⟩ | hmem⟩
        · rfl
        · exact absurd hmem (h.not_mem_tree ht ho')
    · rw [update_of_ne hx, h.waiting x l']
      simp [hx]

lemma lockOwner_infoAddWaiter (s : LockState ι) (l : ℕ) (t : ι) :
    (s.infoAddWaiter l t).lockOwner = update s.lockOwner t (s.lockInfo l).owner := by
  have howner : ∀ l', ((s.infoAddWaiter l t).lockInfo l').owner = (s.lockInfo l').owner := by
    intro l'
    by_cases hl' : l' = l
    · subst hl'
      simp [infoAddWaiter]
    · simp [infoAddWaiter, hl']
  funext x
  show (update s.waitingLockInfo t (some l) x).bind _ = _
  simp only [howner]
  by_cases hx : x = t
  · subst hx
    simp
  · simp [hx, lockOwner]

lemma WF.infoRemoveWaiter (h : s.WF) (ht : s.waitingLockInfo t = some l) : (s.infoRemoveWaiter l t).2.WF := by
  obtain ⟨⟨o, hl⟩, htree⟩ := (h.waiting t l).1 ht
  have hok := h.ok o l hl
  have hmem : ∀ x l', (∃ o, l' ∈ s.heldLockInfoList o) →
      (x ∈ ((s.infoRemoveWaiter l t).2.lockInfo l').tree ↔ x ≠ t ∧ x ∈ (s.lockInfo l').tree) := by
    rintro x l' ⟨o', hl'⟩
    by_cases heq : l' = l
    · subst heq
      simp [LockState.infoRemoveWaiter, hok.nodup.mem_erase_iff]
    · simp only [LockState.infoRemoveWaiter, update_of_ne heq]
      refine ⟨fun hx => ⟨?_, hx⟩, fun hx => hx.2⟩
      rintro rfl
      have := (h.waiting x l').2 ⟨⟨o', hl'⟩, hx⟩
      rw [ht] at this
      exact heq (Option.some.inj this).symm
  refine ⟨?_, h.nodup, h.lt, ?_⟩
  · intro o' l' hl'
    by_cases heq : l' = l
    · subst heq
      obtain rfl := h.owner_unique hl hl'
      simp only [LockState.infoRemoveWaiter, update_self]
      refine ⟨hok.owner_eq, hok.nodup.erase t, hok.sorted.sublist erase_sublist, ?_, ?_⟩
      · rw [length_erase_of_mem htree, hok.count]
      · intro x hx
        exact hok.key x (mem_of_mem_erase hx)
    · have hsame : (s.infoRemoveWaiter l t).2.lockInfo l' = s.lockInfo l' :=
        update_of_ne heq _ _
      rw [hsame]
      exact h.ok o' l' hl'
  · intro x l'
    show update s.waitingLockInfo t none x = some l' ↔ (∃ o, l' ∈ s.heldLockInfoList o) ∧ _
    by_cases hx : x = t
    · subst hx
      rw [update_self]
      constructor
      · simp
      · rintro ⟨hlive, hx⟩
        exact absurd rfl ((hmem x l' hlive).1 hx).1
    · rw [update_of_ne hx, h.waiting x l']
      constructor
      · rintro ⟨hlive, hx'⟩
        exact ⟨hlive, (hmem x l' hlive).2 ⟨hx, hx'⟩⟩
      · rintro ⟨hlive, hx'⟩
        exact ⟨hlive, ((hmem x l' hlive).1 hx').2⟩

lemma lockOwner_infoRemoveWaiter (s : LockState ι) (l : ℕ) (t : ι) :
    (s.infoRemoveWaiter l t).2.lockOwner = update s.lockOwner t none := by
  have howner : ∀ l', ((s.infoRemoveWaiter l t).2.lockInfo l').owner = (s.lockInfo l').owner := by
    intro l'
    by_cases hl' : l' = l
    · subst hl'
      simp [infoRemoveWaiter]
    · simp [infoRemoveWaiter, hl']
  funext x
  show (update s.waitingLockInfo t none x).bind _ = _
  simp only [howner]
  by_cases hx : x = t
  · subst hx
    simp
  · simp [hx, lockOwner]

lemma WF.mem_eraseHeld (h : s.WF) (hl : l ∈ s.heldLockInfoList o) {o' : ι} {l' : ℕ} :
    l' ∈ (s.eraseHeldLock o l).heldLockInfoList o' ↔ l' ≠ l ∧ l' ∈ s.heldLockInfoList o' := by
  show l' ∈ update s.heldLockInfoList o ((s.heldLockInfoList o).erase l) o' ↔ _
  by_cases ho : o' = o
  · subst ho
    rw [update_self, (h.nodup o').mem_erase_iff]
  · rw [update_of_ne ho]
    refine ⟨fun hl' => ⟨?_, hl'⟩, fun hl' => hl'.2⟩
    rintro rfl
    exact ho (h.owner_unique hl' hl)

lemma WF.eraseHeld_nodup (h : s.WF) (o' : ι) : ((s.eraseHeldLock o l).heldLockInfoList o').Nodup := by
  show (update s.heldLockInfoList o ((s.heldLockInfoList o).erase l) o').Nodup
  by_cases ho : o' = o
  · subst ho
    rw [update_self]
    exact (h.nodup o').erase l
  · rw [update_of_ne ho]
    exact h.nodup o'

lemma WF.eraseHeldLock (h : s.WF) (hl : l ∈ s.heldLockInfoList o)
    (hempty : (s.lockInfo l).tree = []) : (s.eraseHeldLock o l).WF := by
  refine ⟨?_, fun o' => h.eraseHeld_nodup o', ?_, ?_⟩
  · intro o' l' hl'
    exact h.ok o' l' ((h.mem_eraseHeld hl).1 hl').2
  · intro o' l' hl'
    exact h.lt o' l' ((h.mem_eraseHeld hl).1 hl').2
  · intro x l'
    show s.waitingLockInfo x = some l' ↔ _ ∧ x ∈ (s.lockInfo l').tree
    rw [h.waiting x l']
    constructor
    · rintro ⟨⟨o', ho'⟩, hx⟩
      refine ⟨⟨o', (h.mem_eraseHeld hl).2 ⟨?_, ho'⟩⟩, hx⟩
      rintro rfl
      simp [hempty] at hx
    · rintro ⟨⟨o', ho'⟩, hx⟩
      exact ⟨⟨o', ((h.mem_eraseHeld hl).1 ho').2⟩, hx⟩

lemma WF.moveLock (h : s.WF) (hl : l ∈ s.heldLockInfoList o) (n : ι) : ((s.eraseHeldLock o l).addHeldLock n l).WF := by
  have hmem : ∀ o' l', l' ∈ ((s.eraseHeldLock o l).addHeldLock n l).heldLockInfoList o' ↔
      (o' = n ∧ l' = l) ∨ (l' ≠ l ∧ l' ∈ s.heldLockInfoList o') := by
    intro o' l'
    rw [← h.mem_eraseHeld hl]
    exact mem_addHeld
  have hlive : ∀ l', (∃ o', l' ∈ ((s.eraseHeldLock o l).addHeldLock n l).heldLockInfoList o') ↔
      ∃ o', l' ∈ s.heldLockInfoList o' := by
    intro l'
    constructor
    · rintro ⟨o', ho'⟩
      rcases (hmem o' l').1 ho' with ⟨-, rfl⟩ | ⟨-, ho'⟩
      · exact ⟨o, hl⟩
      · exact ⟨o', ho'⟩
    · rintro ⟨o', ho'⟩
      by_cases heq : l' = l
      · exact ⟨n, (hmem n l').2 (Or.inl ⟨rfl, heq⟩)⟩
      · exact ⟨o', (hmem o' l').2 (Or.inr ⟨heq, ho'⟩)⟩
  have hinfo : ∀ l', l' ≠ l → ((s.eraseHeldLock o l).addHeldLock n l).lockInfo l' = s.lockInfo l' :=
    fun l' hne => update_of_ne hne _ _
  have hself : ((s.eraseHeldLock o l).addHeldLock n l).lockInfo l =
      { s.lockInfo l with owner := some n } := update_self ..
  refine ⟨?_, ?_, ?_, ?_⟩
  · intro o' l' hl'
    rcases (hmem o' l').1 hl' with ⟨rfl, rfl⟩ | ⟨hne, hl'⟩
    · have hok := h.ok o l' hl
      rw [hself]
      exact ⟨rfl, hok.nodup, hok.sorted, hok.count, hok.key⟩
    · rw [hinfo l' hne]
      exact h.ok o' l' hl'
  · intro o'
    show (update (s.eraseHeldLock o l).heldLockInfoList n (l :: (s.eraseHeldLock o l).heldLockInfoList n) o').Nodup
    by_cases ho : o' = n
    · subst ho
      rw [update_self]
      exact nodup_cons.2 ⟨fun hmem => ((h.mem_eraseHeld hl).1 hmem).1 rfl, h.eraseHeld_nodup o'⟩
    · rw [update_of_ne ho]
      exact h.eraseHeld_nodup o'
  · intro o' l' hl'
    rcases (hmem o' l').1 hl' with ⟨-, rfl⟩ | ⟨-, hl'⟩
    · exact h.lt o l' hl
    · exact h.lt o' l' hl'
  · intro x l'
    rw [hlive l']
    show s.waitingLockInfo x = some l' ↔ _
    rw [h.waiting x l']
    by_cases hne : l' = l
    · rw [hne, hself]
    · rw [hinfo l' hne]

lemma lockOwner_moveLock (s : LockState ι) (o n : ι) (l : ℕ) (t : ι) :
    ((s.eraseHeldLock o l).addHeldLock n l).lockOwner t =
      if s.waitingLockInfo t = some l then some n else s.lockOwner t := by
  show (s.waitingLockInfo t).bind
    (fun l' => ((s.eraseHeldLock o l).addHeldLock n l).lockInfo l' |>.owner) = _
  cases hl : s.waitingLockInfo t with
  | none => simp [lockOwner, hl]
  | some l' =>
    by_cases heq : l' = l
    · subst heq
      simp [addHeldLock]
    · simp [addHeldLock, eraseHeldLock, lockOwner, hl, heq]

/-- A thread in no tree may get any priority. -/
lemma WF.setPriority (h : s.WF) (ht : s.waitingLockInfo t = none) (c : ℤ) : (s.setPriority t c).WF := by
  refine ⟨?_, h.nodup, h.lt, h.waiting⟩
  intro o l hl
  have hok := h.ok o l hl
  have hsame : ∀ x ∈ (s.lockInfo l).tree, (s.setPriority t c).priority x = s.priority x := by
    intro x hx
    refine update_of_ne ?_ _ _
    rintro rfl
    exact h.not_mem_tree ht hl hx
  refine ⟨hok.owner_eq, hok.nodup, ?_, hok.count, hok.key⟩
  refine hok.sorted.imp_of_mem ?_
  intro a b ha hb hab
  rwa [hsame a ha, hsame b hb]

end Mutators

end LockState

end Voltemu.Kernel
