import Voltemu.Kernel.Thread.PriorityInheritance

/-!
# Priority inheritance over runs

Every operation starts a walk only where its own test says that a priority may have changed.  The lemmas
here show that the tests are the right ones; then every run keeps all priorities inherited.

* `Inv.addWaiter`, `Inv.removeWaiter`, `Inv.removeWaiterByKey` — one operation each;
* `Inv.exec` — every operation of a run completes and keeps the invariant;
* `priority_inheritance_of_run` — what holds after every run in which no lock goes to a thread that
  holds a lock of the same key;
* `held_key_twice` — a run in which one does.
-/

namespace Voltemu.Kernel

open Inheritance Function List

namespace LockState

variable {ι : Type*} [Fintype ι] [DecidableEq ι] {s s' : LockState ι} {o t : ι} {l : ℕ}

/-! ## The operations -/

section

variable (hs : s.Inv)
include hs

variable {fuel key : ℕ}

lemma Inv.restore_if (hfuel : Fintype.card ι < fuel)
    (hsettled : ∀ x, x ≠ o → Settled s.basePriority s.lockOwner s.priority x)
    (P : Prop) [Decidable P]
    (hP : ¬ P → Settled s.basePriority s.lockOwner s.priority o) :
    ∃ s', (if P then LockState.restorePriority fuel s (some o) else some s) = some s' ∧ s'.Inv ∧
      s'.AllSettled ∧ Restored s s' := by
  split_ifs with h
  · obtain ⟨c, -, hleast⟩ := hs.inheritedPriority o
    exact hs.restorePriority _ (pending_start hsettled hleast) fuel hfuel
  · refine ⟨s, rfl, hs, ?_, ⟨rfl, rfl, rfl, id⟩⟩
    intro x
    by_cases hx : x = o
    · exact hx ▸ hP h
    · exact hsettled x hx

lemma Inv.setAddressKey (ht : s.waitingLockInfo t = none) (key : ℕ) (b : Bool) : (s.setAddressKey t key b).Inv := by
  have hsame : ∀ x, x ≠ t → (s.setAddressKey t key b).threadKey x = s.threadKey x := by
    intro x hx
    simp [threadKey, LockState.setAddressKey, hx]
  refine ⟨⟨?_, hs.wf.nodup, hs.wf.lt, hs.wf.waiting⟩, hs.nonempty, ?_⟩
  · intro o l hl
    have hok := hs.wf.ok o l hl
    refine ⟨hok.owner_eq, hok.nodup, hok.sorted, hok.count, ?_⟩
    intro x hx
    rw [hsame x]
    · exact hok.key x hx
    · rintro rfl
      exact hs.wf.not_mem_tree ht hl hx
  · intro o
    show s.numKernelWaiters o = _
    rw [hs.kernel o, kernelWaiters, kernelWaiters]
    congr 2
    ext x
    have hnone := hs.wf.lockOwner_eq_none.2 ht
    rw [Finset.mem_filter_univ, Finset.mem_filter_univ]
    show s.lockOwner x = some o ∧ s.isKernelAddressKey x = true ↔
      s.lockOwner x = some o ∧ update s.isKernelAddressKey t b x = true
    by_cases hx : x = t
    · subst hx
      simp [hnone]
    · simp [hx]

lemma Inv.addWaiter (hset : s.AllSettled) (hfuel : Fintype.card ι < fuel) (ht : s.waitingLockInfo t = none) (o : ι) :
    ∃ s', LockState.addWaiter fuel s o t = some s' ∧ s'.Inv ∧ s'.AllSettled ∧
      s'.threadKey = s.threadKey ∧ s'.lockOwner = update s.lockOwner t (some o) ∧
      (s.UniqueKeys → s'.UniqueKeys) := by
  obtain ⟨hinv, hkept, howner, hunique⟩ := hs.addWaiterImpl ht o
  have hnone := hs.wf.lockOwner_eq_none.2 ht
  have hiff : ∀ x y, x ≠ o → (update s.lockOwner t (some o) y = some x ↔ s.lockOwner y = some x) := by
    intro x y hx
    by_cases hy : y = t
    · subst hy
      simp [hnone, Ne.symm hx]
    · rw [update_of_ne hy]
  obtain ⟨s', hs', hinv', hset', hrest⟩ := hinv.restore_if hfuel (o := o) (by
      intro x hx
      rw [hkept.basePriority, howner, hkept.priority, Settled, sources_congr rfl (fun y => hiff x y hx) fun _ _ => rfl]
      exact hset x)
    ((s.addWaiterImpl o t).priority t < (s.addWaiterImpl o t).priority o) (by
      rw [hkept.basePriority, howner, hkept.priority]
      intro hle
      refine ⟨?_, ?_⟩
      · rcases (hset o).1 with h | ⟨y, hy, h⟩
        · exact Or.inl h
        · refine Or.inr ⟨y, ?_, h⟩
          rw [update_of_ne ?_, hy]
          rintro rfl
          simp [hnone] at hy
      · rintro a (h | ⟨y, hy, rfl⟩)
        · exact (hset o).2 (Or.inl h)
        · by_cases hyt : y = t
          · subst hyt
            exact not_lt.1 hle
          · rw [update_of_ne hyt] at hy
            exact (hset o).2 (Or.inr ⟨y, hy, rfl⟩))
  exact ⟨s', hs', hinv', hset', hrest.threadKey.trans hkept.threadKey,
    hrest.lockOwner.trans howner, fun hu => hrest.uniqueKeys (hunique hu)⟩

lemma Inv.removeWaiter (hset : s.AllSettled) (hfuel : Fintype.card ι < fuel) (ht : s.lockOwner t = some o) :
    ∃ s', LockState.removeWaiter fuel s o t = some s' ∧ s'.Inv ∧ s'.AllSettled ∧
      s'.threadKey = s.threadKey ∧ s'.lockOwner = update s.lockOwner t none ∧
      (s.UniqueKeys → s'.UniqueKeys) := by
  obtain ⟨s1, hs1, hinv, hkept, howner, hunique⟩ := hs.removeWaiterImpl ht
  have hiff : ∀ x y, x ≠ o → (update s.lockOwner t none y = some x ↔ s.lockOwner y = some x) := by
    intro x y hx
    by_cases hy : y = t
    · subst hy
      simp [ht, Ne.symm hx]
    · rw [update_of_ne hy]
  obtain ⟨s', hs', hinv', hset', hrest⟩ := hinv.restore_if hfuel (o := o) (by
      intro x hx
      rw [hkept.basePriority, howner, hkept.priority, Settled, sources_congr rfl (fun y => hiff x y hx) fun _ _ => rfl]
      exact hset x)
    (s1.priority o = s1.priority t ∧ s1.priority o < s1.basePriority o) (by
      rw [hkept.basePriority, howner, hkept.priority]
      intro hcond
      have hbase : s.priority o ≤ s.basePriority o := (hset o).2 (Or.inl rfl)
      refine ⟨?_, ?_⟩
      · rcases (hset o).1 with h | ⟨y, hy, h⟩
        · exact Or.inl h
        · by_cases hyt : y = t
          · subst hyt
            exact Or.inl (le_antisymm hbase (not_lt.1 fun hlt => hcond ⟨h, hlt⟩))
          · exact Or.inr ⟨y, by rwa [update_of_ne hyt], h⟩
      · rintro a (h | ⟨y, hy, rfl⟩)
        · exact (hset o).2 (Or.inl h)
        · by_cases hyt : y = t
          · subst hyt
            simp at hy
          · rw [update_of_ne hyt] at hy
            exact (hset o).2 (Or.inr ⟨y, hy, rfl⟩))
  refine ⟨s', ?_, hinv', hset', hrest.threadKey.trans hkept.threadKey,
    hrest.lockOwner.trans howner, fun hu => hrest.uniqueKeys (hunique hu)⟩
  rw [LockState.removeWaiter, hs1]
  exact hs'

lemma Inv.removeWaiterByKey (hset : s.AllSettled) (hfuel : Fintype.card ι < fuel) {b : Bool} {n : ι}
    (hl : s.findHeldLock o key b = some l) (hn : (s.lockInfo l).tree.head? = some n) :
    ∃ s', LockState.removeWaiterByKey fuel s o key b =
        some ((some n, (s.handOver o l n).1), s') ∧ s'.Inv ∧ s'.AllSettled ∧
      s'.threadKey = s.threadKey ∧
      (∀ t, s'.lockOwner t = if t = n then none else if s.waitingLockInfo t = some l then some n
        else s.lockOwner t) ∧
      (s.UniqueKeys → s.HandOverOk o l n → s'.UniqueKeys) := by
  have hlo : l ∈ s.heldLockInfoList o := mem_of_findHeldLock hl
  have hmem : n ∈ (s.lockInfo l).tree := mem_of_head? hn
  obtain ⟨hinv, hkept, howner, hunique⟩ := hs.handOver hlo hmem
  have hwaiting : ∀ y, s.waitingLockInfo y = some l → s.lockOwner y = some o := by
    intro y hy
    exact hs.wf.lockOwner_eq_some.2 ⟨l, hlo, ((hs.wf.waiting y l).1 hy).2⟩
  have hnl := (hs.wf.waiting n l).2 ⟨⟨o, hlo⟩, hmem⟩
  -- the next owner has the highest priority of the tree
  have hleast : ∀ y, s.waitingLockInfo y = some l → s.priority n ≤ s.priority y := by
    intro y hy
    have hy' := ((hs.wf.waiting y l).1 hy).2
    have hsorted := (hs.wf.ok o l hlo).sorted
    obtain ⟨rest, hrest⟩ := head?_eq_some_iff.1 hn
    rw [hrest] at hy' hsorted
    rcases mem_cons.1 hy' with rfl | hy'
    · exact le_rfl
    · exact (pairwise_cons.1 hsorted).1 y hy'
  have hon : s.priority o ≤ s.priority n := (hset o).2 (Or.inr ⟨n, hwaiting n hnl, rfl⟩)
  have hbase : s.priority o ≤ s.basePriority o := (hset o).2 (Or.inl rfl)
  obtain ⟨s', hs', hinv', hset', hrest⟩ := hinv.restore_if hfuel (o := o) (by
      intro x hx
      rw [hkept.basePriority, hkept.priority]
      by_cases hxn : x = n
      · -- the next owner inherits from threads of lower priority only
        subst hxn
        refine ⟨?_, ?_⟩
        · rcases (hset x).1 with h | ⟨y, hy, h⟩
          · exact Or.inl h
          · refine Or.inr ⟨y, ?_, h⟩
            have hyx : y ≠ x := by
              rintro rfl
              exact hx (Option.some.inj (hy.symm.trans (hwaiting y hnl)))
            have hyl : s.waitingLockInfo y ≠ some l := fun hw =>
              hx (Option.some.inj (hy.symm.trans (hwaiting y hw)))
            rw [howner, if_neg hyx, if_neg hyl, hy]
        · rintro a (h | ⟨y, hy, rfl⟩)
          · exact (hset x).2 (Or.inl h)
          · rw [howner] at hy
            split_ifs at hy with hyx hyl
            · exact hleast y hyl
            · exact (hset x).2 (Or.inr ⟨y, hy, rfl⟩)
      · rw [Settled, sources_congr rfl (fun y => ?_) fun _ _ => rfl]
        · exact hset x
        · rw [howner]
          split_ifs with hyn hyl
          · subst hyn
            simp [hwaiting y hnl, Ne.symm hx]
          · simp [hwaiting y hyl, Ne.symm hx, Ne.symm hxn]
          · exact Iff.rfl)
    ((s.handOver o l n).2.priority o = (s.handOver o l n).2.priority n ∧
      (s.handOver o l n).2.priority o < (s.handOver o l n).2.basePriority o) (by
      rw [hkept.basePriority, hkept.priority]
      intro hcond
      have hequal : s.priority o = s.priority n → s.priority o = s.basePriority o := fun heq =>
        le_antisymm hbase (not_lt.1 fun hlt => hcond ⟨heq, hlt⟩)
      refine ⟨?_, ?_⟩
      · rcases (hset o).1 with h | ⟨y, hy, h⟩
        · exact Or.inl h
        · by_cases hyl : s.waitingLockInfo y = some l
          · exact Or.inl (hequal (le_antisymm hon ((hleast y hyl).trans h.ge)))
          · have hyn : y ≠ n := by
              rintro rfl
              exact hyl hnl
            exact Or.inr ⟨y, by rw [howner, if_neg hyn, if_neg hyl, hy], h⟩
      · rintro a (h | ⟨y, hy, rfl⟩)
        · exact (hset o).2 (Or.inl h)
        · rw [howner] at hy
          split_ifs at hy with hyn hyl
          · exact (hset o).2 (Or.inr ⟨y, hwaiting y hyl, rfl⟩)
          · exact (hset o).2 (Or.inr ⟨y, hy, rfl⟩))
  refine ⟨s', ?_, hinv', hset', hrest.threadKey.trans hkept.threadKey,
    fun t => (congrFun hrest.lockOwner t).trans (howner t),
    fun hu hok => hrest.uniqueKeys (hunique hu hok)⟩
  simp only [LockState.removeWaiterByKey, hl, hn]
  split_ifs at hs' ⊢ with hcond
  · rw [hs']
    rfl
  · rw [Option.some.inj hs']

lemma Inv.withBasePriority (hset : s.AllSettled) (hfuel : Fintype.card ι < fuel) (t : ι) (value : ℤ) :
    ∃ s', LockState.setBasePriority fuel s t value = some s' ∧ s'.Inv ∧ s'.AllSettled ∧
      (s.UniqueKeys → s'.UniqueKeys) := by
  set s1 : LockState ι := { s with basePriority := update s.basePriority t value } with hs1
  have hinv : s1.Inv := ⟨⟨hs.wf.ok, hs.wf.nodup, hs.wf.lt, hs.wf.waiting⟩, hs.nonempty, hs.kernel⟩
  have hsettled : ∀ x, x ≠ t → Settled s1.basePriority s1.lockOwner s1.priority x := by
    intro x hx
    have hbase : s1.basePriority x = s.basePriority x := update_of_ne hx _ _
    rw [Settled, sources_congr hbase (fun _ => Iff.rfl) fun _ _ => rfl]
    exact hset x
  obtain ⟨c, -, hleast⟩ := hinv.inheritedPriority t
  obtain ⟨s', hs', hinv', hset', hrest⟩ :=
    hinv.restorePriority _ (pending_start hsettled hleast) fuel hfuel
  exact ⟨s', hs', hinv', hset', hrest.uniqueKeys⟩

lemma Inv.mem_keys_iff (o : ι) (key : ℕ × Bool) : key ∈ (s.heldLockInfoList o).map s.keyOf ↔
      ∃ t, s.lockOwner t = some o ∧ s.threadKey t = key := by
  rw [mem_map]
  constructor
  · rintro ⟨l, hl, rfl⟩
    obtain ⟨t, rest, htree⟩ := exists_cons_of_ne_nil (hs.nonempty o l hl)
    have ht : t ∈ (s.lockInfo l).tree := by simp [htree]
    exact ⟨t, hs.wf.lockOwner_eq_some.2 ⟨l, hl, ht⟩, (hs.wf.ok o l hl).key t ht⟩
  · rintro ⟨t, ht, rfl⟩
    obtain ⟨l, hl, hmem⟩ := hs.wf.lockOwner_eq_some.1 ht
    exact ⟨l, hl, ((hs.wf.ok o l hl).key t hmem).symm⟩

/-- With one lock info for each key, the threads of its tree are those that wait with that key. -/
lemma Inv.waiting_iff_key (hu : s.UniqueKeys) {b : Bool} (hl : s.findHeldLock o key b = some l) (t : ι) :
    s.waitingLockInfo t = some l ↔ s.lockOwner t = some o ∧ s.threadKey t = (key, b) := by
  have hlo : l ∈ s.heldLockInfoList o := mem_of_findHeldLock hl
  have hkey : s.keyOf l = (key, b) := keyOf_of_findHeldLock hl
  rw [hs.wf.waiting t l, hs.wf.lockOwner_eq_some]
  constructor
  · rintro ⟨-, ht⟩
    exact ⟨⟨l, hlo, ht⟩, ((hs.wf.ok o l hlo).key t ht).trans hkey⟩
  · rintro ⟨⟨l', hl', ht⟩, htkey⟩
    have heq : s.keyOf l' = s.keyOf l :=
      (((hs.wf.ok o l' hl').key t ht).symm.trans htkey).trans hkey.symm
    obtain rfl := inj_on_of_nodup_map (hu o) hl' hlo heq
    exact ⟨⟨o, hl'⟩, ht⟩

/-- **`RemoveWaiterByKey` in terms of who waits for whom.** -/
theorem Inv.removeWaiterByKey_cases (hset : s.AllSettled) (hu : s.UniqueKeys)
    (hfuel : Fintype.card ι < fuel) (o : ι) (key : ℕ) (b : Bool) :
    ((∀ t, s.lockOwner t = some o → s.threadKey t ≠ (key, b)) ∧
      LockState.removeWaiterByKey fuel s o key b = some ((none, false), s)) ∨
    ∃ n hasWaiters s', LockState.removeWaiterByKey fuel s o key b = some ((some n, hasWaiters), s') ∧
      s.lockOwner n = some o ∧ s.threadKey n = (key, b) ∧ s'.Inv ∧ s'.AllSettled ∧
      s'.threadKey = s.threadKey ∧
      (∀ t, s'.lockOwner t = if t = n then none
        else if s.lockOwner t = some o ∧ s.threadKey t = (key, b) then some n
        else s.lockOwner t) ∧
      (hasWaiters = true ↔ ∃ t, t ≠ n ∧ s.lockOwner t = some o ∧ s.threadKey t = (key, b)) ∧
      ((∀ t, s.lockOwner t = some n → s.threadKey t ≠ (key, b)) → s'.UniqueKeys) := by
  cases hl : s.findHeldLock o key b with
  | none =>
    left
    refine ⟨?_, by simp [LockState.removeWaiterByKey, hl]⟩
    intro t ht hkey
    obtain ⟨l, hl', heq⟩ := mem_map.1 ((hs.mem_keys_iff o (key, b)).2 ⟨t, ht, hkey⟩)
    exact findHeldLock_eq_none.1 hl l hl' heq
  | some l =>
    right
    have hlo : l ∈ s.heldLockInfoList o := mem_of_findHeldLock hl
    have hkey : s.keyOf l = (key, b) := keyOf_of_findHeldLock hl
    obtain ⟨n, rest, htree⟩ := exists_cons_of_ne_nil (hs.nonempty o l hlo)
    have hn : (s.lockInfo l).tree.head? = some n := by simp [htree]
    have hmem : n ∈ (s.lockInfo l).tree := by simp [htree]
    have hnl := (hs.wf.waiting n l).2 ⟨⟨o, hlo⟩, hmem⟩
    obtain ⟨s', hs', hinv', hset', hkeys, howner, hunique⟩ :=
      hs.removeWaiterByKey hset hfuel hl hn
    have hiff := hs.waiting_iff_key hu hl
    refine ⟨n, (s.handOver o l n).1, s', hs', ((hiff n).1 hnl).1, ((hiff n).1 hnl).2, hinv', hset', hkeys, ?_, ?_, ?_⟩
    · intro t
      simp only [howner t, hiff t]
    · rw [hs.wf.handOver_fst hlo hmem]
      constructor
      · rintro ⟨t, htn, ht⟩
        exact ⟨t, htn, (hiff t).1 ((hs.wf.waiting t l).2 ⟨⟨o, hlo⟩, ht⟩)⟩
      · rintro ⟨t, htn, ht⟩
        exact ⟨t, htn, ((hs.wf.waiting t l).1 ((hiff t).2 ht)).2⟩
    · intro hnone
      refine hunique hu (Or.inr (Or.inr ?_))
      have hkey' : ((s.lockInfo l).addressKey, (s.lockInfo l).isKernelAddressKey) = (key, b) :=
        hkey
      obtain ⟨hk, hb⟩ := Prod.mk.inj hkey'
      rw [hk, hb]
      refine findHeldLock_eq_none.2 ?_
      intro l' hl' heq
      obtain ⟨t, ht, htkey⟩ := (hs.mem_keys_iff n (key, b)).1 (mem_map.2 ⟨l', hl', heq⟩)
      exact hnone t ht htkey

end

/-! ## Runs -/

end LockState

/-- The operations of a run.  A thread gets its address key when it starts to wait. -/
inductive LockOp (ι : Type*)
  | addWaiter (owner thread : ι) (key : ℕ) (isKernel : Bool)
  | removeWaiter (owner thread : ι)
  | removeWaiterByKey (owner : ι) (key : ℕ) (isKernel : Bool)
  | setBasePriority (thread : ι) (value : ℤ)
  | increaseBasePriority (thread : ι) (priority : ℤ)

namespace LockState

variable {ι : Type*} [Fintype ι] [DecidableEq ι] {s s' : LockState ι} {op : LockOp ι} {fuel : ℕ}

omit [Fintype ι] in
def exec (fuel : ℕ) (s : LockState ι) : LockOp ι → Option (LockState ι)
  | .addWaiter owner thread key isKernel =>
      addWaiter fuel (s.setAddressKey thread key isKernel) owner thread
  | .removeWaiter owner thread => removeWaiter fuel s owner thread
  | .removeWaiterByKey owner key isKernel =>
      (removeWaiterByKey fuel s owner key isKernel).map Prod.snd
  | .setBasePriority thread value => setBasePriority fuel s thread value
  | .increaseBasePriority thread priority => increaseBasePriority fuel s thread priority

omit [Fintype ι] [DecidableEq ι] in
/-- A thread waits for one lock at a time, and stops waiting for the owner of that lock. -/
def Admissible (s : LockState ι) : LockOp ι → Prop
  | .addWaiter _ thread _ _ => s.waitingLockInfo thread = none
  | .removeWaiter owner thread => s.lockOwner thread = some owner
  | .removeWaiterByKey .. | .setBasePriority .. | .increaseBasePriority .. => True

omit [Fintype ι] in
/-- A lock with several waiters does not go to a thread that holds a lock of the same key. -/
def NoKeyClash (s : LockState ι) : LockOp ι → Prop
  | .removeWaiterByKey owner key isKernel => ∀ info next,
      s.findHeldLock owner key isKernel = some info → (s.lockInfo info).tree.head? = some next →
      s.HandOverOk owner info next
  | _ => True

/-- **Every operation completes** and keeps the invariant. -/
theorem Inv.exec (hs : s.Inv) (hset : s.AllSettled) (hop : s.Admissible op) (hfuel : Fintype.card ι < fuel) :
    ∃ s', LockState.exec fuel s op = some s' ∧ s'.Inv ∧ s'.AllSettled ∧
      (s.UniqueKeys → s.NoKeyClash op → s'.UniqueKeys) := by
  cases op with
  | addWaiter o t key isKernel =>
    obtain ⟨s', hs', hinv, hset', -, -, hunique⟩ :=
      (hs.setAddressKey hop key isKernel).addWaiter (t := t) hset hfuel hop o
    exact ⟨s', hs', hinv, hset', fun hu _ => hunique hu⟩
  | removeWaiter o t =>
    obtain ⟨s', hs', hinv, hset', -, -, hunique⟩ := hs.removeWaiter hset hfuel hop
    exact ⟨s', hs', hinv, hset', fun hu _ => hunique hu⟩
  | removeWaiterByKey o key isKernel =>
    cases hl : s.findHeldLock o key isKernel with
    | none =>
      refine ⟨s, ?_, hs, hset, fun hu _ => hu⟩
      simp [LockState.exec, LockState.removeWaiterByKey, hl]
    | some l =>
      have hlo : l ∈ s.heldLockInfoList o := mem_of_findHeldLock hl
      obtain ⟨n, rest, htree⟩ := exists_cons_of_ne_nil (hs.nonempty o l hlo)
      have hn : (s.lockInfo l).tree.head? = some n := by simp [htree]
      obtain ⟨s', hs', hinv, hset', -, -, hunique⟩ := hs.removeWaiterByKey hset hfuel hl hn
      refine ⟨s', ?_, hinv, hset', fun hu hclash => hunique hu (hclash l n hl hn)⟩
      simp [LockState.exec, hs']
  | setBasePriority t value =>
    obtain ⟨s', hs', hinv, hset', hunique⟩ := hs.withBasePriority hset hfuel t value
    exact ⟨s', hs', hinv, hset', fun hu _ => hunique hu⟩
  | increaseBasePriority t priority =>
    simp only [LockState.exec, increaseBasePriority]
    split_ifs with hlt
    · obtain ⟨s', hs', hinv, hset', hunique⟩ := hs.withBasePriority hset hfuel t priority
      exact ⟨s', hs', hinv, hset', fun hu _ => hunique hu⟩
    · exact ⟨s, rfl, hs, hset, fun hu _ => hu⟩

omit [Fintype ι] in
lemma restorePriority_mono {n m : ℕ} (hnm : n ≤ m) {x : Option ι}
    (h : restorePriority n s x = some s') : restorePriority m s x = some s' := by
  induction n generalizing m s x with
  | zero =>
    cases x with
    | none => cases m <;> exact h
    | some x => simp [restorePriority] at h
  | succ n ih =>
    cases x with
    | none => cases m <;> exact h
    | some x =>
      obtain ⟨m, rfl⟩ := Nat.exists_eq_succ_of_ne_zero (n := m) (by omega)
      simp only [restorePriority] at h ⊢
      cases hc : s.inheritedPriority x with
      | none => simp [hc] at h
      | some c =>
        simp only [hc] at h ⊢
        split_ifs at h ⊢ with heq
        · exact h
        · cases hy : s.lockOwner x with
          | none => simpa [hy] using h
          | some y =>
            simp only [hy] at h ⊢
            cases hr : s.removeWaiterImpl y x with
            | none => simp [hr] at h
            | some s1 =>
              simp only [hr] at h ⊢
              exact ih (by omega) h

omit [Fintype ι] in
lemma exec_mono {n m : ℕ} (hnm : n ≤ m) (h : exec n s op = some s') : exec m s op = some s' := by
  cases op with
  | addWaiter o t key isKernel =>
    simp only [exec, addWaiter] at h ⊢
    split_ifs at h ⊢
    · exact restorePriority_mono hnm h
    · exact h
  | removeWaiter o t =>
    simp only [exec, removeWaiter] at h ⊢
    cases hr : s.removeWaiterImpl o t with
    | none => simp [hr] at h
    | some s1 =>
      simp only [hr, Option.bind_some] at h ⊢
      split_ifs at h ⊢
      · exact restorePriority_mono hnm h
      · exact h
  | removeWaiterByKey o key isKernel =>
    simp only [exec, removeWaiterByKey] at h ⊢
    cases hl : s.findHeldLock o key isKernel with
    | none => simpa [hl] using h
    | some l =>
      simp only [hl] at h ⊢
      cases hn : (s.lockInfo l).tree.head? with
      | none => simp [hn] at h
      | some n =>
        simp only [hn] at h ⊢
        split_ifs at h ⊢
        · simp only [Option.map_map, Option.map_eq_some_iff, comp_apply] at h ⊢
          obtain ⟨s1, hs1, heq⟩ := h
          exact ⟨s1, restorePriority_mono hnm hs1, heq⟩
        · exact h
  | setBasePriority t value => exact restorePriority_mono hnm h
  | increaseBasePriority t priority =>
    simp only [exec, increaseBasePriority] at h ⊢
    split_ifs at h ⊢
    · exact restorePriority_mono hnm h
    · exact h

omit [Fintype ι] in
/-- One step of a run, with any fuel its walk ends with. -/
def Step (s s' : LockState ι) : Prop :=
  ∃ op fuel, s.Admissible op ∧ exec fuel s op = some s'

omit [Fintype ι] in
/-- One step of a run in which no lock goes to a thread that holds a lock of the same key. -/
def StepWithoutClash (s s' : LockState ι) : Prop :=
  ∃ op fuel, s.Admissible op ∧ s.NoKeyClash op ∧ exec fuel s op = some s'

lemma inv_start (base : ι → ℤ) : (start base).Inv ∧ (start base).AllSettled ∧ (start base).UniqueKeys := by
  refine ⟨⟨wf_start base, ?_, ?_⟩, ?_, ?_⟩
  · intro o l hl
    simp [start] at hl
  · intro o
    simp [kernelWaiters, lockOwner, start]
  · intro x
    refine ⟨Or.inl rfl, ?_⟩
    rintro a (rfl | ⟨t, ht, -⟩)
    · exact le_rfl
    · simp [lockOwner, start] at ht
  · intro o
    simp [start]

lemma reachable_inv {base : ι → ℤ} (hrun : Relation.ReflTransGen StepWithoutClash (start base) s) :
    s.Inv ∧ s.AllSettled ∧ s.UniqueKeys := by
  induction hrun with
  | refl => exact inv_start base
  | tail _ hstep ih =>
    obtain ⟨op, fuel, hop, hclash, hexec⟩ := hstep
    obtain ⟨hinv, hset, hunique⟩ := ih
    obtain ⟨s', hs', hinv', hset', hunique'⟩ := hinv.exec hset hop
      (lt_of_lt_of_le (Nat.lt_succ_self _) (le_max_right fuel (Fintype.card ι + 1)))
    have hmono := exec_mono (le_max_left fuel (Fintype.card ι + 1)) hexec
    obtain rfl := Option.some.inj (hs'.symm.trans hmono)
    exact ⟨hinv', hset', hunique' hunique hclash⟩

/-- **Priority inheritance.**  After every run in which no lock with several waiters goes to a thread
that holds a lock of the same key: every priority is the least of the base priority and the
priorities of the waiters, a thread holds one lock info for each key somebody waits for, the kernel
waiters are counted, and every further operation completes. -/
theorem priority_inheritance_of_run (base : ι → ℤ) (hrun : Relation.ReflTransGen StepWithoutClash (start base) s) :
    (∀ x, IsLeast {a | a = s.basePriority x ∨ ∃ t, s.lockOwner t = some x ∧ a = s.priority t} (s.priority x)) ∧
    (∀ x, ((s.heldLockInfoList x).map s.keyOf).Nodup ∧
      ∀ key, key ∈ (s.heldLockInfoList x).map s.keyOf ↔ ∃ t, s.lockOwner t = some x ∧ s.threadKey t = key) ∧
    (∀ x, s.numKernelWaiters x = (Finset.univ.filter fun t =>
      s.lockOwner t = some x ∧ s.isKernelAddressKey t = true).card) ∧
    ∀ op fuel, s.Admissible op → Fintype.card ι < fuel → ∃ s', exec fuel s op = some s' := by
  obtain ⟨hinv, hset, hunique⟩ := reachable_inv hrun
  refine ⟨hset, fun x => ⟨hunique x, hinv.mem_keys_iff x⟩, hinv.kernel, ?_⟩
  intro op fuel hop hfuel
  obtain ⟨s', hs', -⟩ := hinv.exec hset hop hfuel
  exact ⟨s', hs'⟩

def after (s : LockState ι) (op : LockOp ι) : LockState ι :=
  (exec (Fintype.card ι + 1) s op).getD s

lemma exec_after (h : (exec (Fintype.card ι + 1) s op).isSome = true) :
    exec (Fintype.card ι + 1) s op = some (s.after op) := by
  obtain ⟨s', hs'⟩ := Option.isSome_iff_exists.1 h
  rw [after, hs']
  rfl

def deadlock : LockState (Fin 2) :=
  ((start fun _ => 44).after (.addWaiter 0 1 16 false)).after (.addWaiter 1 0 32 false)

/-- In a deadlock one of the threads gets a higher base priority: the walk ends. -/
theorem priority_inheritance_of_run_deadlock : Relation.ReflTransGen StepWithoutClash (start fun _ => 44) deadlock ∧
    deadlock.lockOwner 0 = some 1 ∧ deadlock.lockOwner 1 = some 0 ∧
    ∃ s, exec 3 deadlock (.setBasePriority 0 10) = some s := by
  have hfirst : StepWithoutClash (start fun _ : Fin 2 => 44) ((start fun _ => 44).after (.addWaiter 0 1 16 false)) :=
    ⟨.addWaiter 0 1 16 false, 3, rfl, trivial, exec_after rfl⟩
  have hsecond : StepWithoutClash ((start fun _ => 44).after (.addWaiter 0 1 16 false)) deadlock :=
    ⟨.addWaiter 1 0 32 false, 3, rfl, trivial, exec_after rfl⟩
  have hrun := (Relation.ReflTransGen.single hfirst).tail hsecond
  obtain ⟨-, -, -, htotal⟩ := priority_inheritance_of_run _ hrun
  exact ⟨hrun, rfl, rfl, htotal _ 3 trivial (by decide)⟩

/-- Threads 1 and 2 wait for thread 0, and thread 3 for thread 1, all with the same key. -/
def sameKey : LockState (Fin 4) :=
  (((start fun _ => 44).after (.addWaiter 0 1 16 false)).after (.addWaiter 0 2 16 false)).after (.addWaiter 1 3 16 false)

/-- Then the lock of thread 0 goes to thread 1, which gets a second lock info of the key. -/
theorem held_key_twice : Relation.ReflTransGen Step (start fun _ => 44) (sameKey.after (.removeWaiterByKey 0 16 false)) ∧
    ¬ (((sameKey.after (.removeWaiterByKey 0 16 false)).heldLockInfoList 1).map
      (sameKey.after (.removeWaiterByKey 0 16 false)).keyOf).Nodup := by
  have hone : Step (start fun _ : Fin 4 => 44) ((start fun _ => 44).after (.addWaiter 0 1 16 false)) :=
    ⟨.addWaiter 0 1 16 false, 5, rfl, exec_after rfl⟩
  have htwo : Step ((start fun _ : Fin 4 => 44).after (.addWaiter 0 1 16 false))
      (((start fun _ => 44).after (.addWaiter 0 1 16 false)).after (.addWaiter 0 2 16 false)) :=
    ⟨.addWaiter 0 2 16 false, 5, rfl, exec_after rfl⟩
  have hthree : Step (((start fun _ => 44).after (.addWaiter 0 1 16 false)).after (.addWaiter 0 2 16 false)) sameKey :=
    ⟨.addWaiter 1 3 16 false, 5, rfl, exec_after rfl⟩
  have hfour : Step sameKey (sameKey.after (.removeWaiterByKey 0 16 false)) :=
    ⟨.removeWaiterByKey 0 16 false, 5, trivial, exec_after rfl⟩
  refine ⟨(((Relation.ReflTransGen.single hone).tail htwo).tail hthree).tail hfour, ?_⟩
  decide

end LockState

end Voltemu.Kernel
