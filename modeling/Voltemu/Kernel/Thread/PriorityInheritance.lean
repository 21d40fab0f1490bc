import Voltemu.Kernel.Thread.WaitStructure
import Voltemu.Lib.Inheritance

/-!
# The walk of `RestorePriority`

The invariant of the locks, `LockState.Inv`, says that the records are well formed, that no lock info
without waiters is kept, and that the kernel waiters are counted.  What a thread waits for is a partial
function `lockOwner`, and `RestorePriority` is a walk along it in the sense of `Inheritance`: it takes
a thread out of a tree and puts it back, so `lockOwner` stays as it is while the priorities change.

* `Inv.addWaiterImpl`, `Inv.removeWaiterImpl`, `Inv.handOver` — what the operations do to the
  relation, before any priority is restored;
* `Inv.restorePriority` — the walk ends, and then every priority is the inherited one.
-/

namespace Voltemu.Kernel

open Inheritance Function List

namespace LockState

variable {ι : Type*} [Fintype ι] [DecidableEq ι] {s s' : LockState ι} {o t : ι} {l : ℕ}

/-- The threads that wait for a kernel lock of `owner`. -/
def kernelWaiters (s : LockState ι) (owner : ι) : Finset ι :=
  Finset.univ.filter fun t => s.lockOwner t = some owner ∧ s.isKernelAddressKey t = true

structure Inv (s : LockState ι) : Prop where
  wf : s.WF
  nonempty : ∀ o, ∀ l ∈ s.heldLockInfoList o, (s.lockInfo l).tree ≠ []
  kernel : ∀ o, s.numKernelWaiters o = (s.kernelWaiters o).card

omit [Fintype ι] [DecidableEq ι] in
/-- No thread holds two lock infos of one address key. -/
def UniqueKeys (s : LockState ι) : Prop := ∀ o, ((s.heldLockInfoList o).map s.keyOf).Nodup

omit [Fintype ι] [DecidableEq ι] in
/-- The operations on lock infos do not touch the threads' own fields. -/
structure Kept (s s' : LockState ι) : Prop where
  basePriority : s'.basePriority = s.basePriority
  priority : s'.priority = s.priority
  addressKey : s'.addressKey = s.addressKey
  isKernelAddressKey : s'.isKernelAddressKey = s.isKernelAddressKey

omit [Fintype ι] [DecidableEq ι] in
lemma Kept.threadKey (h : Kept s s') : s'.threadKey = s.threadKey := by
  funext t
  rw [LockState.threadKey, LockState.threadKey, h.addressKey, h.isKernelAddressKey]

/-! ## Counting the kernel waiters -/

/-- The threads of `T`, which waited for nothing, wait for `o` now.  They all have keys of one
kind. -/
private lemma card_assign {f g : ι → Option ι} {P : ι → Bool} (T : Finset ι) (b : Bool) (o : ι)
    (hf : ∀ t ∈ T, f t = none) (hP : ∀ t ∈ T, P t = b)
    (hg : ∀ t, g t = if t ∈ T then some o else f t) (x : ι) :
    ((Finset.univ.filter fun t => g t = some x ∧ P t = true).card : ℤ) =
      (Finset.univ.filter fun t => f t = some x ∧ P t = true).card +
        if x = o then (if b then (T.card : ℤ) else 0) else 0 := by
  by_cases hx : x = o ∧ b = true
  · obtain ⟨rfl, rfl⟩ := hx
    have heq : (Finset.univ.filter fun t => g t = some x ∧ P t = true) =
        (Finset.univ.filter fun t => f t = some x ∧ P t = true) ∪ T := by
      ext t
      by_cases ht : t ∈ T
      · simp [hg, ht, hP t ht]
      · simp [hg, ht]
    have hdisj : Disjoint (Finset.univ.filter fun t => f t = some x ∧ P t = true) T := by
      rw [Finset.disjoint_right]
      intro t ht hmem
      simp [hf t ht] at hmem
    rw [heq, Finset.card_union_of_disjoint hdisj]
    simp
  · have heq : (Finset.univ.filter fun t => g t = some x ∧ P t = true) =
        Finset.univ.filter fun t => f t = some x ∧ P t = true := by
      ext t
      by_cases ht : t ∈ T
      · have hne : ¬ (o = x ∧ b = true) := fun h => hx ⟨h.1.symm, h.2⟩
        simp only [Finset.mem_filter, Finset.mem_univ, true_and, hg, if_pos ht, Option.some.injEq,
          hP t ht, hf t ht, reduceCtorEq, false_and, iff_false]
        exact hne
      · simp [hg, ht]
    have hzero : (if x = o then (if b then (T.card : ℤ) else 0) else 0) = 0 := by
      split_ifs with h1 h2
      · exact absurd ⟨h1, h2⟩ hx
      · rfl
      · rfl
    rw [heq, hzero, add_zero]

omit [Fintype ι] in
/-- The count is changed in front of the records. -/
private lemma ite_addKernelWaiters (s : LockState ι) (b : Bool) (o : ι) (n : ℤ) :
    (if b then s.addKernelWaiters o n else s) =
      { s with
        numKernelWaiters := fun x =>
          s.numKernelWaiters x + if x = o then (if b then n else 0) else 0 } := by
  cases b with
  | false => simp
  | true =>
    simp only [addKernelWaiters, if_true]
    congr 1
    funext x
    by_cases hx : x = o
    · subst hx
      simp
    · simp [hx]

/-! ## `AddWaiterImpl` -/

omit [Fintype ι] in
/-- `AddWaiterImpl` without the count of kernel waiters. -/
def recordWaiter (s : LockState ι) (owner thread : ι) : LockState ι :=
  match s.findHeldLock owner (s.addressKey thread) (s.isKernelAddressKey thread) with
  | some info => s.infoAddWaiter info thread
  | none => (s.addLock owner (s.addressKey thread) (s.isKernelAddressKey thread)).infoAddWaiter s.nextLockInfo thread

omit [Fintype ι] in
private lemma addWaiterImpl_eq (s : LockState ι) (o t : ι) :
    s.addWaiterImpl o t =
      { s.recordWaiter o t with
        numKernelWaiters := fun x => s.numKernelWaiters x +
          if x = o then (if s.isKernelAddressKey t then 1 else 0) else 0 } := by
  simp only [addWaiterImpl, ite_addKernelWaiters, recordWaiter]
  set num : ι → ℤ := fun x => s.numKernelWaiters x +
    if x = o then (if s.isKernelAddressKey t then 1 else 0) else 0
  have hfind : ({ s with numKernelWaiters := num } : LockState ι).findHeldLock o (s.addressKey t)
      (s.isKernelAddressKey t) = s.findHeldLock o (s.addressKey t) (s.isKernelAddressKey t) := rfl
  rw [hfind]
  cases s.findHeldLock o (s.addressKey t) (s.isKernelAddressKey t) <;> rfl

omit [Fintype ι] in
lemma infoAddWaiter_nonempty (h : ∀ l', l' ∈ s.heldLockInfoList o → l' ≠ l →
    (s.lockInfo l').tree ≠ []) {l' : ℕ} (hl' : l' ∈ s.heldLockInfoList o) :
    ((s.infoAddWaiter l t).lockInfo l').tree ≠ [] := by
  by_cases heq : l' = l
  · subst heq
    simp only [infoAddWaiter, update_self]
    exact ne_nil_of_mem ((mem_orderedInsert _).2 (Or.inl rfl))
  · simp only [infoAddWaiter, update_of_ne heq]
    exact h l' hl' heq

omit [Fintype ι] in
lemma infoAddWaiter_keyOf (s : LockState ι) (l : ℕ) (t : ι) : (s.infoAddWaiter l t).keyOf = s.keyOf := by
  funext l'
  by_cases heq : l' = l
  · subst heq
    simp [keyOf, infoAddWaiter]
  · simp [keyOf, infoAddWaiter, heq]

omit [Fintype ι] in
lemma WF.recordWaiter (h : s.WF) (ht : s.waitingLockInfo t = none) (o : ι) :
    (s.recordWaiter o t).WF ∧ (s.recordWaiter o t).lockOwner = update s.lockOwner t (some o) ∧
      ((∀ o', ∀ l ∈ s.heldLockInfoList o', (s.lockInfo l).tree ≠ []) →
        ∀ o', ∀ l ∈ (s.recordWaiter o t).heldLockInfoList o', ((s.recordWaiter o t).lockInfo l).tree ≠ []) ∧
      (s.UniqueKeys → (s.recordWaiter o t).UniqueKeys) := by
  rw [LockState.recordWaiter]
  cases hfind : s.findHeldLock o (s.addressKey t) (s.isKernelAddressKey t) with
  | some l =>
    have hl : l ∈ s.heldLockInfoList o := mem_of_findHeldLock hfind
    have hkey : s.threadKey t = s.keyOf l := (keyOf_of_findHeldLock hfind).symm
    refine ⟨h.infoAddWaiter hl ht hkey, ?_, ?_, ?_⟩
    · rw [lockOwner_infoAddWaiter, (h.ok o l hl).owner_eq]
    · intro hne o' l' hl'
      exact infoAddWaiter_nonempty (fun l'' hl'' _ => hne o' l'' hl'') hl'
    · intro hunique o'
      rw [infoAddWaiter_keyOf]
      exact hunique o'
  | none =>
    have hnew : s.nextLockInfo ∈ (s.addLock o (s.addressKey t) (s.isKernelAddressKey t)).heldLockInfoList o :=
      mem_addHeld.2 (Or.inl ⟨rfl, rfl⟩)
    have hinfo := addLock_lockInfo s o (s.addressKey t) (s.isKernelAddressKey t)
    have hkeyNew : (s.addLock o (s.addressKey t) (s.isKernelAddressKey t)).keyOf s.nextLockInfo =
        (s.addressKey t, s.isKernelAddressKey t) := by
      simp [keyOf, hinfo]
    have hkeyOld : ∀ l, l ≠ s.nextLockInfo →
        (s.addLock o (s.addressKey t) (s.isKernelAddressKey t)).keyOf l = s.keyOf l := by
      intro l hl
      simp [keyOf, hinfo, hl]
    refine ⟨(h.addLock o _ _).infoAddWaiter hnew ht hkeyNew.symm, ?_, ?_, ?_⟩
    · rw [lockOwner_infoAddWaiter, h.lockOwner_addLock, hinfo, update_self]
    · intro hne o' l' hl'
      refine infoAddWaiter_nonempty ?_ hl'
      intro l'' hl'' hne''
      rw [hinfo, update_of_ne hne'']
      rcases mem_addHeld.1 hl'' with ⟨-, heq⟩ | hl''
      · exact absurd heq hne''
      · exact hne o' l'' hl''
    · intro hunique o'
      rw [infoAddWaiter_keyOf]
      show ((update s.heldLockInfoList o (s.nextLockInfo :: s.heldLockInfoList o) o').map _).Nodup
      have hmap : ∀ o', (s.heldLockInfoList o').map (s.addLock o (s.addressKey t) (s.isKernelAddressKey t)).keyOf =
          (s.heldLockInfoList o').map s.keyOf := by
        intro o'
        refine map_congr_left fun l hl => hkeyOld l ?_
        rintro rfl
        exact h.next_fresh o' hl
      by_cases ho : o' = o
      · subst ho
        rw [update_self, map_cons, hkeyNew, hmap]
        refine nodup_cons.2 ⟨?_, hunique o'⟩
        intro hmem
        obtain ⟨l, hl, hkey⟩ := mem_map.1 hmem
        exact findHeldLock_eq_none.1 hfind l hl hkey
      · rw [update_of_ne ho, hmap]
        exact hunique o'

/-- **`AddWaiterImpl`** makes a thread wait for a lock of the owner. -/
theorem Inv.addWaiterImpl (hs : s.Inv) (ht : s.waitingLockInfo t = none) (o : ι) :
    (s.addWaiterImpl o t).Inv ∧ Kept s (s.addWaiterImpl o t) ∧
      (s.addWaiterImpl o t).lockOwner = update s.lockOwner t (some o) ∧
      (s.UniqueKeys → (s.addWaiterImpl o t).UniqueKeys) := by
  obtain ⟨hwf, howner, hne, hunique⟩ := hs.wf.recordWaiter ht o
  have hkept : Kept s (s.recordWaiter o t) := by
    rw [recordWaiter]
    split <;> exact ⟨rfl, rfl, rfl, rfl⟩
  rw [addWaiterImpl_eq]
  refine ⟨⟨⟨hwf.ok, hwf.nodup, hwf.lt, hwf.waiting⟩, hne hs.nonempty, ?_⟩,
    ⟨hkept.basePriority, hkept.priority, hkept.addressKey, hkept.isKernelAddressKey⟩, howner,
    hunique⟩
  intro x
  have hnone := hs.wf.lockOwner_eq_none.2 ht
  show s.numKernelWaiters x + _ = ((Finset.univ.filter fun y =>
    (s.recordWaiter o t).lockOwner y = some x ∧ (s.recordWaiter o t).isKernelAddressKey y = true).card : ℤ)
  rw [howner, hkept.isKernelAddressKey, hs.kernel x, kernelWaiters]
  have hcount := card_assign {t} (s.isKernelAddressKey t) o (f := s.lockOwner)
    (g := update s.lockOwner t (some o)) (P := s.isKernelAddressKey)
    (by simpa using hnone) (by simp)
    (fun y => by simp only [Finset.mem_singleton, update_apply]) x
  rw [hcount]
  simp

/-! ## `RemoveWaiterImpl` -/

omit [Fintype ι] in
/-- `RemoveWaiterImpl` without the count of kernel waiters. -/
def forgetWaiter (s : LockState ι) (owner thread : ι) (info : ℕ) : LockState ι :=
  if (s.infoRemoveWaiter info thread).1 then
    (s.infoRemoveWaiter info thread).2.eraseHeldLock owner info
  else (s.infoRemoveWaiter info thread).2

omit [Fintype ι] in
private lemma removeWaiterImpl_eq (hl : s.waitingLockInfo t = some l) (o : ι) :
    s.removeWaiterImpl o t = some
      { s.forgetWaiter o t l with
        numKernelWaiters := fun x => s.numKernelWaiters x +
          if x = o then (if s.isKernelAddressKey t then -1 else 0) else 0 } := by
  simp only [removeWaiterImpl, ite_addKernelWaiters, hl, forgetWaiter]
  set num : ι → ℤ := fun x => s.numKernelWaiters x +
    if x = o then (if s.isKernelAddressKey t then -1 else 0) else 0
  have hlast : (({ s with numKernelWaiters := num } : LockState ι).infoRemoveWaiter l t).1 =
      (s.infoRemoveWaiter l t).1 := rfl
  rw [hlast]
  cases (s.infoRemoveWaiter l t).1 <;> rfl

omit [Fintype ι] in
lemma WF.infoRemoveWaiter_last (h : s.WF) (hl : s.waitingLockInfo t = some l) :
    (s.infoRemoveWaiter l t).1 = true ↔ ((s.infoRemoveWaiter l t).2.lockInfo l).tree = [] := by
  obtain ⟨⟨o, ho⟩, hmem⟩ := (h.waiting t l).1 hl
  have hlen : ((s.lockInfo l).tree.erase t).length = (s.lockInfo l).waiterCount - 1 := by
    rw [length_erase_of_mem hmem, (h.ok o l ho).count]
  simp only [LockState.infoRemoveWaiter, decide_eq_true_eq, update_self]
  rw [← hlen, length_eq_zero_iff]

omit [Fintype ι] in
lemma infoRemoveWaiter_keyOf (s : LockState ι) (l : ℕ) (t : ι) : (s.infoRemoveWaiter l t).2.keyOf = s.keyOf := by
  funext l'
  by_cases heq : l' = l
  · subst heq
    simp [keyOf, infoRemoveWaiter]
  · simp [keyOf, infoRemoveWaiter, heq]

omit [Fintype ι] in
lemma infoRemoveWaiter_nonempty (h : ∀ o, ∀ l ∈ s.heldLockInfoList o, (s.lockInfo l).tree ≠ [])
    {l' : ℕ} (hl' : l' ∈ s.heldLockInfoList o) (hne : l' ≠ l) :
    ((s.infoRemoveWaiter l t).2.lockInfo l').tree ≠ [] := by
  simp only [infoRemoveWaiter, update_of_ne hne]
  exact h o l' hl'

omit [Fintype ι] in
lemma UniqueKeys.eraseHeldLock (h : s.UniqueKeys) (o : ι) (l : ℕ) : (s.eraseHeldLock o l).UniqueKeys := by
  intro o'
  show ((update s.heldLockInfoList o ((s.heldLockInfoList o).erase l) o').map s.keyOf).Nodup
  by_cases ho : o' = o
  · subst ho
    rw [update_self]
    exact (h o').sublist (erase_sublist.map _)
  · rw [update_of_ne ho]
    exact h o'

omit [Fintype ι] in
lemma WF.forgetWaiter (h : s.WF) (hl : s.waitingLockInfo t = some l) (hlo : l ∈ s.heldLockInfoList o) :
    (s.forgetWaiter o t l).WF ∧ (s.forgetWaiter o t l).lockOwner = update s.lockOwner t none ∧
      ((∀ o', ∀ l ∈ s.heldLockInfoList o', (s.lockInfo l).tree ≠ []) →
        ∀ o', ∀ l' ∈ (s.forgetWaiter o t l).heldLockInfoList o', ((s.forgetWaiter o t l).lockInfo l').tree ≠ []) ∧
      (s.UniqueKeys → (s.forgetWaiter o t l).UniqueKeys) := by
  have hwf := h.infoRemoveWaiter hl
  have hlast := h.infoRemoveWaiter_last hl
  have howner := lockOwner_infoRemoveWaiter s l t
  have hunique : s.UniqueKeys → (s.infoRemoveWaiter l t).2.UniqueKeys := by
    intro hunique o'
    rw [infoRemoveWaiter_keyOf]
    exact hunique o'
  rw [LockState.forgetWaiter]
  split_ifs with hempty
  · refine ⟨hwf.eraseHeldLock hlo (hlast.1 hempty), howner, ?_, fun hu =>
      (hunique hu).eraseHeldLock o l⟩
    intro hne o' l' hl'
    obtain ⟨hne', hl'⟩ := (hwf.mem_eraseHeld hlo).1 hl'
    exact infoRemoveWaiter_nonempty hne hl' hne'
  · refine ⟨hwf, howner, ?_, hunique⟩
    intro hne o' l' hl'
    by_cases heq : l' = l
    · subst heq
      exact fun hnil => hempty (hlast.2 hnil)
    · exact infoRemoveWaiter_nonempty hne hl' heq

/-- **`RemoveWaiterImpl`** ends the wait of a thread. -/
theorem Inv.removeWaiterImpl (hs : s.Inv) (ht : s.lockOwner t = some o) :
    ∃ s', s.removeWaiterImpl o t = some s' ∧ s'.Inv ∧ Kept s s' ∧
      s'.lockOwner = update s.lockOwner t none ∧ (s.UniqueKeys → s'.UniqueKeys) := by
  obtain ⟨l, hlo, hmem⟩ := hs.wf.lockOwner_eq_some.1 ht
  have hl := (hs.wf.waiting t l).2 ⟨⟨o, hlo⟩, hmem⟩
  obtain ⟨hwf, howner, hne, hunique⟩ := hs.wf.forgetWaiter hl hlo
  have hkept : Kept s (s.forgetWaiter o t l) := by
    rw [forgetWaiter]
    split <;> exact ⟨rfl, rfl, rfl, rfl⟩
  refine ⟨_, removeWaiterImpl_eq hl o, ⟨⟨hwf.ok, hwf.nodup, hwf.lt, hwf.waiting⟩,
    hne hs.nonempty, ?_⟩, ⟨hkept.basePriority, hkept.priority, hkept.addressKey,
    hkept.isKernelAddressKey⟩, howner, hunique⟩
  intro x
  show s.numKernelWaiters x + _ = ((Finset.univ.filter fun y =>
    (s.forgetWaiter o t l).lockOwner y = some x ∧ (s.forgetWaiter o t l).isKernelAddressKey y = true).card : ℤ)
  rw [howner, hkept.isKernelAddressKey, hs.kernel x, kernelWaiters]
  have hcount := card_assign {t} (s.isKernelAddressKey t) o
    (f := update s.lockOwner t none) (g := s.lockOwner) (P := s.isKernelAddressKey)
    (by simp) (by simp) (by
      intro y
      by_cases hy : y = t
      · subst hy
        simp [ht]
      · simp [hy]) x
  rw [hcount, Finset.card_singleton, add_assoc]
  split_ifs <;> simp

/-! ## `RemoveWaiterByKey`, before a priority is restored -/

omit [Fintype ι] in
/-- The lock info goes to the next owner without the count of kernel waiters. -/
def passLock (s : LockState ι) (owner : ι) (info : ℕ) (nextLockOwner : ι) : LockState ι :=
  if (s.infoRemoveWaiter info nextLockOwner).1 then
    (s.infoRemoveWaiter info nextLockOwner).2.eraseHeldLock owner info
  else
    ((s.infoRemoveWaiter info nextLockOwner).2.eraseHeldLock owner info).addHeldLock nextLockOwner info

omit [Fintype ι] in
private lemma handOver_eq (s : LockState ι) (o n : ι) (l : ℕ) :
    s.handOver o l n = (!(s.infoRemoveWaiter l n).1,
      { s.passLock o l n with
        numKernelWaiters := fun x => s.numKernelWaiters x +
          (if x = o then
            (if (s.lockInfo l).isKernelAddressKey then -((s.lockInfo l).waiterCount : ℤ) else 0)
          else 0) +
          (if x = n then
            (if (s.lockInfo l).isKernelAddressKey then (((s.lockInfo l).waiterCount - 1 : ℕ) : ℤ)
            else 0)
          else 0) }) := by
  simp only [handOver, ite_addKernelWaiters, passLock]
  set num : ι → ℤ := fun x => (s.eraseHeldLock o l).numKernelWaiters x +
    if x = o then
      (if (s.lockInfo l).isKernelAddressKey then
        -(((s.eraseHeldLock o l).lockInfo l).waiterCount : ℤ) else 0)
    else 0 with hnum
  have hlast : (({ s.eraseHeldLock o l with numKernelWaiters := num } :
      LockState ι).infoRemoveWaiter l n).1 = (s.infoRemoveWaiter l n).1 := rfl
  rw [hlast]
  cases hb : (s.infoRemoveWaiter l n).1 with
  | true =>
    have hzero : (s.lockInfo l).waiterCount - 1 = 0 := of_decide_eq_true hb
    simp only [if_true, hzero, Nat.cast_zero, ite_self, add_zero, Bool.not_true]
    rfl
  | false =>
    have hcount : (((({ s.eraseHeldLock o l with numKernelWaiters := num } :
        LockState ι).infoRemoveWaiter l n).2.addHeldLock n l).lockInfo l).waiterCount =
        (s.lockInfo l).waiterCount - 1 := by
      simp [addHeldLock, eraseHeldLock, infoRemoveWaiter]
    simp only [Bool.false_eq_true, if_false, hcount, Bool.not_false]
    rfl

variable {n : ι}

omit [Fintype ι] in
lemma WF.handOver_fst (h : s.WF) (hlo : l ∈ s.heldLockInfoList o) (hn : n ∈ (s.lockInfo l).tree) :
    (s.handOver o l n).1 = true ↔ ∃ t, t ≠ n ∧ t ∈ (s.lockInfo l).tree := by
  have hl := (h.waiting n l).2 ⟨⟨o, hlo⟩, hn⟩
  have htree : ((s.infoRemoveWaiter l n).2.lockInfo l).tree = (s.lockInfo l).tree.erase n := by
    simp [LockState.infoRemoveWaiter]
  rw [handOver_eq, Bool.not_eq_true', ← Bool.not_eq_true, h.infoRemoveWaiter_last hl, htree,
    eq_nil_iff_forall_not_mem, not_forall]
  refine exists_congr fun t => ?_
  rw [not_not, (h.ok o l hlo).nodup.mem_erase_iff]

omit [Fintype ι] in
lemma WF.passLock (h : s.WF) (hlo : l ∈ s.heldLockInfoList o) (hn : n ∈ (s.lockInfo l).tree) :
    (s.passLock o l n).WF ∧
      (∀ t, (s.passLock o l n).lockOwner t =
        if t = n then none else if s.waitingLockInfo t = some l then some n
        else s.lockOwner t) ∧
      ((∀ o', ∀ l ∈ s.heldLockInfoList o', (s.lockInfo l).tree ≠ []) →
        ∀ o', ∀ l' ∈ (s.passLock o l n).heldLockInfoList o', ((s.passLock o l n).lockInfo l').tree ≠ []) := by
  have hl := (h.waiting n l).2 ⟨⟨o, hlo⟩, hn⟩
  have hwf := h.infoRemoveWaiter hl
  have hlast := h.infoRemoveWaiter_last hl
  have howner := lockOwner_infoRemoveWaiter s l n
  rw [LockState.passLock]
  split_ifs with hempty
  · refine ⟨hwf.eraseHeldLock hlo (hlast.1 hempty), ?_, ?_⟩
    · intro t
      show (s.infoRemoveWaiter l n).2.lockOwner t = _
      rw [howner]
      by_cases ht : t = n
      · subst ht
        simp
      · have hnot : s.waitingLockInfo t ≠ some l := by
          intro hwait
          have hmem : t ∈ ((s.infoRemoveWaiter l n).2.lockInfo l).tree := by
            refine ((hwf.waiting t l).1 ?_).2
            exact (update_of_ne ht _ _).trans hwait
          rw [hlast.1 hempty] at hmem
          simp at hmem
        rw [update_of_ne ht, if_neg ht, if_neg hnot]
    · intro hne o' l' hl'
      obtain ⟨hne', hl'⟩ := (hwf.mem_eraseHeld hlo).1 hl'
      exact infoRemoveWaiter_nonempty hne hl' hne'
  · refine ⟨hwf.moveLock hlo n, ?_, ?_⟩
    · intro t
      rw [lockOwner_moveLock, howner]
      show (if update s.waitingLockInfo n none t = some l then _ else _) = _
      by_cases ht : t = n
      · subst ht
        simp
      · rw [update_of_ne ht, update_of_ne ht, if_neg ht]
    · intro hne o' l' hl'
      by_cases heq : l' = l
      · subst heq
        intro hnil
        refine hempty (hlast.2 ?_)
        simpa [addHeldLock, LockState.eraseHeldLock] using hnil
      · have hl'' : l' ∈ s.heldLockInfoList o' := by
          rcases mem_addHeld.1 hl' with ⟨-, heq'⟩ | hl'
          · exact absurd heq' heq
          · exact ((hwf.mem_eraseHeld hlo).1 hl').2
        have hsame : (((s.infoRemoveWaiter l n).2.eraseHeldLock o l).addHeldLock n l).lockInfo l' =
            (s.infoRemoveWaiter l n).2.lockInfo l' := update_of_ne heq _ _
        rw [hsame]
        exact infoRemoveWaiter_nonempty hne hl'' heq

omit [Fintype ι] in
/-- What the hand-over needs for the keys: the next owner has no lock info of the key already, or
there is no waiter left to hand over. -/
def HandOverOk (s : LockState ι) (owner : ι) (info : ℕ) (next : ι) : Prop :=
  next = owner ∨ (s.lockInfo info).tree.length = 1 ∨
    s.findHeldLock next (s.lockInfo info).addressKey (s.lockInfo info).isKernelAddressKey = none

omit [Fintype ι] in
lemma UniqueKeys.passLock (hs : s.WF) (h : s.UniqueKeys) (hlo : l ∈ s.heldLockInfoList o)
    (hok : s.HandOverOk o l n) : (s.passLock o l n).UniqueKeys := by
  have hremoved : (s.infoRemoveWaiter l n).2.UniqueKeys := by
    intro o'
    rw [infoRemoveWaiter_keyOf]
    exact h o'
  have herased := hremoved.eraseHeldLock o l
  rw [LockState.passLock]
  split_ifs with hlast
  · exact herased
  · have hkey : (((s.infoRemoveWaiter l n).2.eraseHeldLock o l).addHeldLock n l).keyOf = s.keyOf := by
      funext l'
      by_cases heq : l' = l
      · subst heq
        simp [keyOf, addHeldLock, LockState.eraseHeldLock, infoRemoveWaiter]
      · simp [keyOf, addHeldLock, LockState.eraseHeldLock, infoRemoveWaiter, heq]
    have hkey' : ((s.infoRemoveWaiter l n).2.eraseHeldLock o l).keyOf = s.keyOf :=
      infoRemoveWaiter_keyOf s l n
    intro o'
    rw [hkey]
    show ((update ((s.infoRemoveWaiter l n).2.eraseHeldLock o l).heldLockInfoList n
      (l :: ((s.infoRemoveWaiter l n).2.eraseHeldLock o l).heldLockInfoList n) o').map _).Nodup
    have hold := herased o'
    rw [hkey'] at hold
    by_cases ho : o' = n
    · subst ho
      rw [update_self, map_cons]
      refine nodup_cons.2 ⟨?_, hold⟩
      intro hmem
      obtain ⟨l', hl', heq⟩ := mem_map.1 hmem
      rcases hok with rfl | hone | hnone
      · -- the lock info itself was taken out of the list
        have hl'' : l' ∈ (s.heldLockInfoList o').erase l := by
          simpa [LockState.eraseHeldLock, infoRemoveWaiter] using hl'
        obtain ⟨hne, hl''⟩ := (hs.nodup o').mem_erase_iff.1 hl''
        exact hne (inj_on_of_nodup_map (h o') hl'' hlo heq)
      · refine hlast (decide_eq_true ?_)
        rw [(hs.ok o l hlo).count, hone]
      · have hl'' : l' ∈ s.heldLockInfoList o' := by
          have hsub : ((s.infoRemoveWaiter l o').2.eraseHeldLock o l).heldLockInfoList o' ⊆
              s.heldLockInfoList o' := by
            intro a ha
            by_cases hoo : o' = o
            · subst hoo
              simp only [LockState.eraseHeldLock, infoRemoveWaiter, update_self] at ha
              exact mem_of_mem_erase ha
            · simpa [LockState.eraseHeldLock, infoRemoveWaiter, hoo] using ha
          exact hsub hl'
        exact findHeldLock_eq_none.1 hnone l' hl'' heq
    · rw [update_of_ne ho]
      exact hold

/-- **The hand-over of a lock** to a thread of its tree. -/
theorem Inv.handOver (hs : s.Inv) (hlo : l ∈ s.heldLockInfoList o) (hn : n ∈ (s.lockInfo l).tree) :
    (s.handOver o l n).2.Inv ∧ Kept s (s.handOver o l n).2 ∧
      (∀ t, (s.handOver o l n).2.lockOwner t =
        if t = n then none else if s.waitingLockInfo t = some l then some n
        else s.lockOwner t) ∧
      (s.UniqueKeys → s.HandOverOk o l n → (s.handOver o l n).2.UniqueKeys) := by
  obtain ⟨hwf, howner, hne⟩ := hs.wf.passLock hlo hn
  have hok := hs.wf.ok o l hlo
  have hkept : Kept s (s.passLock o l n) := by
    rw [LockState.passLock]
    split <;> exact ⟨rfl, rfl, rfl, rfl⟩
  rw [handOver_eq]
  refine ⟨⟨⟨hwf.ok, hwf.nodup, hwf.lt, hwf.waiting⟩, hne hs.nonempty, ?_⟩,
    ⟨hkept.basePriority, hkept.priority, hkept.addressKey, hkept.isKernelAddressKey⟩, howner,
    fun hu h => hu.passLock hs.wf hlo h⟩
  intro x
  -- both relations come from the one in which nobody in the tree waits
  set f : ι → Option ι := fun t => if t ∈ (s.lockInfo l).tree then none else s.lockOwner t with hf
  have hwaiting : ∀ t, s.waitingLockInfo t = some l ↔ t ∈ (s.lockInfo l).tree := by
    intro t
    rw [hs.wf.waiting t l]
    exact ⟨fun h => h.2, fun h => ⟨⟨o, hlo⟩, h⟩⟩
  have hkind : ∀ t ∈ (s.lockInfo l).tree, s.isKernelAddressKey t = (s.lockInfo l).isKernelAddressKey :=
    fun t ht => congrArg Prod.snd (hok.key t ht)
  have hbefore := card_assign (s.lockInfo l).tree.toFinset (s.lockInfo l).isKernelAddressKey o
    (f := f) (g := s.lockOwner) (P := s.isKernelAddressKey)
    (by intro t ht; simp [hf, mem_toFinset.1 ht])
    (fun t ht => hkind t (mem_toFinset.1 ht)) (by
      intro t
      by_cases ht : t ∈ (s.lockInfo l).tree
      · simp [ht, hs.wf.lockOwner_eq_some.2 ⟨l, hlo, ht⟩]
      · simp [hf, ht]) x
  have hafter := card_assign ((s.lockInfo l).tree.toFinset.erase n)
    (s.lockInfo l).isKernelAddressKey n (f := f) (g := (s.passLock o l n).lockOwner)
    (P := s.isKernelAddressKey)
    (by
      intro t ht
      have ht' := mem_toFinset.1 (Finset.mem_of_mem_erase ht)
      simp [hf, ht'])
    (fun t ht => hkind t (mem_toFinset.1 (Finset.mem_of_mem_erase ht))) (by
      intro t
      simp only [howner t, hwaiting t]
      by_cases htn : t = n
      · subst htn
        simp [hf, hn]
      · by_cases ht : t ∈ (s.lockInfo l).tree <;> simp [hf, ht, htn]) x
  rw [Finset.card_erase_of_mem (mem_toFinset.2 hn), toFinset_card_of_nodup hok.nodup, ← hok.count] at hafter
  rw [toFinset_card_of_nodup hok.nodup, ← hok.count] at hbefore
  show s.numKernelWaiters x + _ + _ = ((Finset.univ.filter fun y =>
    (s.passLock o l n).lockOwner y = some x ∧ (s.passLock o l n).isKernelAddressKey y = true).card : ℤ)
  rw [hkept.isKernelAddressKey, hafter, hs.kernel x, kernelWaiters, hbefore]
  split_ifs <;> ring

/-! ## `RestorePriority` -/

omit [Fintype ι] [DecidableEq ι] in
/-- A step of the loop over the held locks: the first thread of a tree has the least priority. -/
private lemma inherited_fold (hs : s.WF) (hne : ∀ l ∈ s.heldLockInfoList o,
    (s.lockInfo l).tree ≠ []) (infos : List ℕ) (hsub : infos ⊆ s.heldLockInfoList o) (c : ℤ) :
    ∃ c', infos.foldlM (fun new info => (s.lockInfo info).tree.head?.map
        fun waiter => min new (s.priority waiter)) c = some c' ∧
      IsLeast {a | a = c ∨ ∃ l ∈ infos, ∃ t ∈ (s.lockInfo l).tree, a = s.priority t} c' := by
  induction infos generalizing c with
  | nil =>
    refine ⟨c, rfl, Or.inl rfl, ?_⟩
    rintro a (rfl | ⟨l, hl, -⟩)
    · exact le_rfl
    · simp at hl
  | cons l infos ih =>
    have hl : l ∈ s.heldLockInfoList o := hsub (by simp)
    have hok := hs.ok o l hl
    cases htree : (s.lockInfo l).tree with
    | nil => exact absurd htree (hne l hl)
    | cons w rest =>
      obtain ⟨c', hc', hmem, hleast⟩ := ih (fun a ha => hsub (by simp [ha]))
        (min c (s.priority w))
      refine ⟨c', ?_, ?_, ?_⟩
      · rw [foldlM_cons, htree]
        exact hc'
      · rcases hmem with heq | ⟨l', hl', t, ht, heq⟩
        · rcases min_choice c (s.priority w) with hmin | hmin
          · exact Or.inl (heq.trans hmin)
          · exact Or.inr ⟨l, by simp, w, by simp [htree], heq.trans hmin⟩
        · exact Or.inr ⟨l', by simp [hl'], t, ht, heq⟩
      · have hlow : c' ≤ min c (s.priority w) := hleast (Or.inl rfl)
        rintro a (rfl | ⟨l', hl', t, ht, rfl⟩)
        · exact hlow.trans (min_le_left _ _)
        · rcases mem_cons.1 hl' with rfl | hl'
          · refine (hlow.trans (min_le_right _ _)).trans ?_
            rw [htree] at ht
            have hsorted := hok.sorted
            rw [htree] at hsorted
            rcases mem_cons.1 ht with rfl | ht
            · exact le_rfl
            · exact (pairwise_cons.1 hsorted).1 t ht
          · exact hleast (Or.inr ⟨l', hl', t, ht, rfl⟩)

/-- **The inherited priority** is the least of the thread's own and those of its waiters. -/
lemma Inv.inheritedPriority (hs : s.Inv) (x : ι) :
    ∃ c, s.inheritedPriority x = some c ∧ IsLeast (sources s.basePriority s.lockOwner s.priority x) c := by
  obtain ⟨c, hc, hleast⟩ := inherited_fold hs.wf (hs.nonempty x) (s.heldLockInfoList x)
    (List.Subset.refl _) (s.basePriority x)
  refine ⟨c, hc, ?_⟩
  convert hleast using 1
  ext a
  simp only [sources, Set.mem_ofPred_eq, hs.wf.lockOwner_eq_some]
  constructor
  · rintro (h | ⟨t, ⟨l, hl, ht⟩, h⟩)
    · exact Or.inl h
    · exact Or.inr ⟨l, hl, t, ht, h⟩
  · rintro (h | ⟨l, hl, t, ht, h⟩)
    · exact Or.inl h
    · exact Or.inr ⟨t, ⟨l, hl, ht⟩, h⟩

/-- Every priority is the inherited one. -/
def AllSettled (s : LockState ι) : Prop := ∀ x, Settled s.basePriority s.lockOwner s.priority x

/-- What a walk leaves as it is. -/
structure Restored (s s' : LockState ι) : Prop where
  basePriority : s'.basePriority = s.basePriority
  threadKey : s'.threadKey = s.threadKey
  lockOwner : s'.lockOwner = s.lockOwner
  uniqueKeys : s.UniqueKeys → s'.UniqueKeys

lemma Inv.setPriority (hs : s.Inv) (ht : s.waitingLockInfo t = none) (c : ℤ) : (s.setPriority t c).Inv :=
  ⟨hs.wf.setPriority ht c, hs.nonempty, hs.kernel⟩

/-- **The walk ends, and leaves every priority inherited.**  `k` bounds the threads left to
change. -/
theorem Inv.restorePriority (k : ℕ) (hs : s.Inv) {x : ι}
    (hpending : Pending s.basePriority s.lockOwner s.priority x k) (fuel : ℕ) (hfuel : k < fuel) :
    ∃ s', restorePriority fuel s (some x) = some s' ∧ s'.Inv ∧ s'.AllSettled ∧ Restored s s' := by
  obtain ⟨fuel, rfl⟩ := Nat.exists_eq_succ_of_ne_zero (Nat.ne_of_gt (Nat.zero_lt_of_lt hfuel))
  induction k generalizing s x fuel with
  | zero =>
    obtain ⟨c, hc, hleast⟩ := hs.inheritedPriority x
    have heq := hpending.settled_of_zero hleast
    refine ⟨s, ?_, hs, hpending.allSettled hleast heq, ⟨rfl, rfl, rfl, id⟩⟩
    simp only [LockState.restorePriority, hc, heq, if_true]
  | succ k ih =>
    obtain ⟨c, hc, hleast⟩ := hs.inheritedPriority x
    simp only [LockState.restorePriority, hc]
    split_ifs with heq
    · exact ⟨s, rfl, hs, hpending.allSettled hleast heq, ⟨rfl, rfl, rfl, id⟩⟩
    · cases hy : s.lockOwner x with
      | none =>
        exact ⟨_, rfl, hs.setPriority (hs.wf.lockOwner_eq_none.1 hy) c,
          settled_of_walk_end hpending.settled hleast hy, ⟨rfl, rfl, rfl, id⟩⟩
      | some y =>
        -- out of the tree, the new priority, and back in
        obtain ⟨s1, hs1, hinv1, hkept1, howner1, hunique1⟩ := hs.removeWaiterImpl hy
        have hfree : s1.waitingLockInfo x = none := by
          rw [← hinv1.wf.lockOwner_eq_none, howner1, update_self]
        obtain ⟨hinv2, hkept2, howner2, hunique2⟩ :=
          (hinv1.setPriority hfree c).addWaiterImpl (t := x) hfree y
        have howner : ((s1.setPriority x c).addWaiterImpl y x).lockOwner = s.lockOwner := by
          rw [howner2]
          show update s1.lockOwner x (some y) = s.lockOwner
          rw [howner1, update_idem, ← hy, update_eq_self]
        have hbase : ((s1.setPriority x c).addWaiterImpl y x).basePriority = s.basePriority :=
          hkept2.basePriority.trans hkept1.basePriority
        have hprio : ((s1.setPriority x c).addWaiterImpl y x).priority =
            update s.priority x c := by
          rw [hkept2.priority]
          show update s1.priority x c = _
          rw [hkept1.priority]
        obtain ⟨fuel, rfl⟩ := Nat.exists_eq_succ_of_ne_zero (n := fuel) (by omega)
        obtain ⟨s', hs', hinv', hsettled, hrest⟩ := ih hinv2 (x := y)
          (by rw [hbase, howner, hprio]; exact hpending.step hleast heq hy) fuel (by omega)
        simp only [hs1]
        exact ⟨s', hs', hinv', hsettled, hrest.basePriority.trans hbase,
          hrest.threadKey.trans (hkept2.threadKey.trans hkept1.threadKey),
          hrest.lockOwner.trans howner, fun hu => hrest.uniqueKeys (hunique2 (hunique1 hu))⟩

end LockState

end Voltemu.Kernel
