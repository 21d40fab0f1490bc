import Voltemu.VideoCore.SyncpointManager
import Mathlib.Data.List.TakeWhile

/-!
# Syncpoint actions run exactly once

`Inv` says where the action of each call is: its call is under way, it waits in the list, it was run, or it was removed.
An action in the list whose value is reached belongs to an `Increment` that has not taken `guard` yet.
-/

namespace Voltemu.VideoCore.Syncpoint

open State List Nat

def ran (log : List Event) : List ℕ :=
  log.filterMap fun
    | .runs call _ _ => some call
    | _ => none

def removed (log : List Event) : List ℕ :=
  log.filterMap fun
    | .deregisters _ (some call) => some call
    | _ => none

def registered (log : List Event) : List ℕ :=
  log.filterMap fun
    | .registers call _ => some call
    | _ => none

/-! ## The calls of a longer history -/

section Log

variable (log : List Event) (c v n : ℕ) (h : Option ℕ)

@[simp] lemma registered_registers : registered (.registers c v :: log) = c :: registered log := rfl

@[simp] lemma registered_runs : registered (.runs c v n :: log) = registered log := rfl

@[simp] lemma registered_registerReturns : registered (.registerReturns c h :: log) = registered log := rfl

@[simp] lemma registered_incrementReturns : registered (.incrementReturns v :: log) = registered log := rfl

@[simp] lemma registered_removes : registered (.deregisters c (some v) :: log) = registered log := rfl

@[simp] lemma registered_misses : registered (.deregisters c none :: log) = registered log := rfl

@[simp] lemma ran_registers : ran (.registers c v :: log) = ran log := rfl

@[simp] lemma ran_runs : ran (.runs c v n :: log) = c :: ran log := rfl

@[simp] lemma ran_registerReturns : ran (.registerReturns c h :: log) = ran log := rfl

@[simp] lemma ran_incrementReturns : ran (.incrementReturns v :: log) = ran log := rfl

@[simp] lemma ran_removes : ran (.deregisters c (some v) :: log) = ran log := rfl

@[simp] lemma ran_misses : ran (.deregisters c none :: log) = ran log := rfl

@[simp] lemma removed_registers : removed (.registers c v :: log) = removed log := rfl

@[simp] lemma removed_runs : removed (.runs c v n :: log) = removed log := rfl

@[simp] lemma removed_registerReturns : removed (.registerReturns c h :: log) = removed log := rfl

@[simp] lemma removed_incrementReturns : removed (.incrementReturns v :: log) = removed log := rfl

@[simp] lemma removed_removes : removed (.deregisters c (some v) :: log) = v :: removed log := rfl

@[simp] lemma removed_misses : removed (.deregisters c none :: log) = removed log := rfl

end Log

/-- The number of places where the action of a call is. -/
def places (s : State) (call : ℕ) : ℕ :=
  (s.ready.map Prod.fst).count call + (s.waiting.map Prod.fst).count call +
    (s.actionStorage.map (·.action)).count call + (ran s.log).count call +
    (removed s.log).count call

/-- The values of the actions in the list, and of the increments under way. -/
structure Values (s : State) : Prop where
  sorted : s.actionStorage.Pairwise (·.expectedValue ≤ ·.expectedValue)
  pending : ∀ a ∈ s.actionStorage, a.expectedValue ≤ s.syncpoint → a.expectedValue ∈ s.increments
  increments_le : ∀ value ∈ s.increments, 0 < value ∧ value ≤ s.syncpoint
  increments_nodup : s.increments.Nodup
  returned : ∀ value, .incrementReturns value ∈ s.log → value ≤ s.syncpoint ∧ value ∉ s.increments

structure Inv (s : State) : Prop where
  values : Values s
  places_eq : ∀ call, places s call = (registered s.log).count call
  unique : ∀ call, (registered s.log).count call ≤ 1
  ready : ∀ x ∈ s.ready, x.2 ≤ s.syncpoint ∧ .registers x.1 x.2 ∈ s.log
  waiting : ∀ x ∈ s.waiting, .registers x.1 x.2 ∈ s.log
  storage : ∀ a ∈ s.actionStorage, .registers a.action a.expectedValue ∈ s.log
  runs : ∀ call value counter, .runs call value counter ∈ s.log → value ≤ counter ∧ .registers call value ∈ s.log
  returned : ∀ call handle, .registerReturns call handle ∈ s.log →
    (s.ready.map Prod.fst).count call = 0 ∧ (s.waiting.map Prod.fst).count call = 0 ∧ (registered s.log).count call = 1
  own : ∀ call call', .deregisters call (some call') ∈ s.log → call' = call

variable {log : List Event}

lemma count_pos_of_registers {call value : ℕ} (h : .registers call value ∈ log) : 0 < (registered log).count call := by
  rw [count_pos_iff]
  exact mem_filterMap.2 ⟨_, h, rfl⟩

lemma registers_functional {call v w : ℕ} (hunique : (registered log).count call ≤ 1) (hv : .registers call v ∈ log)
    (hw : .registers call w ∈ log) : v = w := by
  induction log with
  | nil => cases hv
  | cons e log ih =>
    rcases mem_cons.1 hv with rfl | hv'
    · rcases mem_cons.1 hw with hw' | hw'
      · cases hw'
        rfl
      · have hpos := count_pos_of_registers hw'
        rw [registered_registers, count_cons_self] at hunique
        omega
    · rcases mem_cons.1 hw with rfl | hw'
      · have hpos := count_pos_of_registers hv'
        rw [registered_registers, count_cons_self] at hunique
        omega
      · refine ih ?_ hv' hw'
        refine Nat.le_trans ?_ hunique
        exact (List.Sublist.filterMap _ (sublist_cons_self e log)).count_le call

lemma Inv.correct {s : State} (h : Inv s) : Correct s := by
  refine ⟨fun c v n hrun => (h.runs c v n hrun).1, ?_, ?_, h.values.sorted, fun call call' => h.own call call'⟩
  · intro call
    have hcount : s.log.countP (Event.isRunOf call) = (ran s.log).count call := by
      rw [ran, List.count, countP_filterMap]
      refine countP_congr fun e _ => ?_
      cases e <;> simp [Event.isRunOf]
    have hplaces := h.places_eq call
    have hunique := h.unique call
    simp only [places] at hplaces
    rw [hcount]
    omega
  · intro call value handle hreg hret hinc
    have hplaces := h.places_eq call
    obtain ⟨hready, hwaiting, hcount⟩ := h.returned call handle hret
    simp only [places] at hplaces
    -- it is no longer in the list
    have hstorage : (s.actionStorage.map (·.action)).count call = 0 := by
      rw [count_eq_zero]
      intro hmem
      obtain ⟨a, ha, rfl⟩ := mem_map.1 hmem
      have hvalue := registers_functional (h.unique a.action) (h.storage a ha) hreg
      rcases hinc with rfl | hinc
      · have hpos := h.values.increments_le _ (h.values.pending a ha (hvalue ▸ zero_le _))
        omega
      · obtain ⟨hle, hnot⟩ := h.values.returned value hinc
        exact hnot (hvalue ▸ h.values.pending a ha (hvalue ▸ hle))
    have hrest : 0 < (ran s.log).count call ∨ 0 < (removed s.log).count call := by omega
    rcases hrest with hran | hremoved
    · refine .inl ?_
      obtain ⟨e, he, heq⟩ := mem_filterMap.1 (count_pos_iff.1 hran)
      cases e with
      | runs c v counter =>
        cases heq
        have hv := registers_functional (h.unique call) (h.runs _ _ _ he).2 hreg
        exact ⟨counter, hv ▸ he⟩
      | _ => cases heq
    · refine .inr ?_
      obtain ⟨e, he, heq⟩ := mem_filterMap.1 (count_pos_iff.1 hremoved)
      cases e with
      | deregisters c r =>
        cases r with
        | none => cases heq
        | some r =>
          cases heq
          have hc := h.own c call he
          exact hc ▸ he
      | _ => cases heq

/-! ## Steps -/

section Steps

variable {s s' : State}

lemma count_erase {l : List (ℕ × ℕ)} {x : ℕ × ℕ} (hx : x ∈ l) (call : ℕ) :
    (l.map Prod.fst).count call = ((l.erase x).map Prod.fst).count call + if x.1 = call then 1 else 0 := by
  have hperm := (perm_cons_erase hx).map Prod.fst
  rw [hperm.count_eq, map_cons, count_cons]
  simp

lemma count_registered_of_hasCall {call : ℕ} (h : ¬ s.hasCall call = true) : (registered s.log).count call = 0 := by
  rw [count_eq_zero]
  intro hmem
  obtain ⟨e, he, heq⟩ := mem_filterMap.1 hmem
  refine h (any_eq_true.2 ⟨e, he, ?_⟩)
  cases e with
  | registers c v =>
    cases heq
    simp
  | _ => cases heq

/-- **What a step does to the calls and their actions.** -/
structure Change (s s' : State) (new : List Event) : Prop where
  log : s'.log = new ++ s.log
  syncpoint : s.syncpoint ≤ s'.syncpoint
  ready : ∀ x ∈ s'.ready, x ∈ s.ready ∨ x.2 ≤ s'.syncpoint ∧ .registers x.1 x.2 ∈ new
  waiting : ∀ x ∈ s'.waiting, x ∈ s.waiting ∨ .registers x.1 x.2 ∈ new
  storage : ∀ a ∈ s'.actionStorage, a ∈ s.actionStorage ∨ (a.action, a.expectedValue) ∈ s.waiting
  runs : ∀ call value counter, .runs call value counter ∈ new → value ≤ counter ∧ .registers call value ∈ s.log
  own : ∀ call call', .deregisters call (some call') ∈ new → call' = call

lemma Change.inv (new : List Event) (hchange : Change s s' new) (h : Inv s) (hvalues : Values s')
    (hplaces : ∀ call, places s' call = (registered s'.log).count call)
    (hunique : ∀ call, (registered s'.log).count call ≤ 1)
    (hreturned : ∀ call handle, .registerReturns call handle ∈ s'.log →
      (s'.ready.map Prod.fst).count call = 0 ∧ (s'.waiting.map Prod.fst).count call = 0 ∧
        (registered s'.log).count call = 1) : Inv s' := by
  have hold : ∀ {e : Event}, e ∈ s.log → e ∈ s'.log := by
    intro e he
    rw [hchange.log]
    exact mem_append_right _ he
  have hnew : ∀ {e : Event}, e ∈ new → e ∈ s'.log := by
    intro e he
    rw [hchange.log]
    exact mem_append_left _ he
  refine ⟨hvalues, hplaces, hunique, ?_, ?_, ?_, ?_, hreturned, ?_⟩
  · intro x hx
    rcases hchange.ready x hx with hx | ⟨hle, hx⟩
    · exact ⟨Nat.le_trans (h.ready x hx).1 hchange.syncpoint, hold (h.ready x hx).2⟩
    · exact ⟨hle, hnew hx⟩
  · intro x hx
    rcases hchange.waiting x hx with hx | hx
    · exact hold (h.waiting x hx)
    · exact hnew hx
  · intro a ha
    rcases hchange.storage a ha with ha | ha
    · exact hold (h.storage a ha)
    · exact hold (h.waiting _ ha)
  · intro c v n hrun
    rw [hchange.log] at hrun
    rcases mem_append.1 hrun with hrun | hrun
    · exact ⟨(hchange.runs c v n hrun).1, hold (hchange.runs c v n hrun).2⟩
    · exact ⟨(h.runs c v n hrun).1, hold (h.runs c v n hrun).2⟩
  · intro c c' hown
    rw [hchange.log] at hown
    rcases mem_append.1 hown with hown | hown
    · exact hchange.own c c' hown
    · exact h.own c c' hown

lemma Values.of_log (h : Values s) (new : List Event) (hnew : ∀ v, .incrementReturns v ∉ new)
    (hsync : s'.syncpoint = s.syncpoint) (hstorage : s'.actionStorage = s.actionStorage)
    (hinc : s'.increments = s.increments) (hlog : s'.log = new ++ s.log) : Values s' := by
  refine ⟨hstorage ▸ h.sorted, ?_, ?_, hinc ▸ h.increments_nodup, ?_⟩
  · rw [hsync, hstorage, hinc]
    exact h.pending
  · rw [hsync, hinc]
    exact h.increments_le
  · intro v hv
    rw [hlog] at hv
    rw [hsync, hinc]
    exact h.returned v ((mem_append.1 hv).resolve_left (hnew v))

variable {call value : ℕ}

lemma inv_registerAction (h : Inv s) (hstep : s.step (.registerAction call value) = some s') : Inv s' := by
  simp only [State.step] at hstep
  split at hstep
  · cases hstep
  · rename_i hnew
    have hzero := count_registered_of_hasCall hnew
    have hunique : ∀ c, (registered (.registers call value :: s.log)).count c ≤ 1 := by
      intro c
      have hc := h.unique c
      rw [registered_registers, count_cons]
      by_cases hcall : call = c
      · subst hcall
        simp [hzero]
      · simpa [hcall] using hc
    have hreturned : ∀ c handle, .registerReturns c handle ∈ .registers call value :: s.log →
        call ≠ c ∧ .registerReturns c handle ∈ s.log := by
      intro c handle hret
      have hret : .registerReturns c handle ∈ s.log := by simpa using hret
      refine ⟨?_, hret⟩
      rintro rfl
      have hone := (h.returned call handle hret).2.2
      omega
    split at hstep
    · rename_i hle
      cases hstep
      refine Change.inv [.registers call value] ⟨rfl, le_refl _, ?_, ?_, ?_, ?_, ?_⟩ h
        (h.values.of_log [.registers call value] (by simp) rfl rfl rfl rfl) ?_ hunique ?_
      · intro x hx
        rcases mem_cons.1 hx with rfl | hx
        · exact .inr ⟨hle, by simp⟩
        · exact .inl hx
      · exact fun x hx => .inl hx
      · exact fun a ha => .inl ha
      · simp
      · simp
      · intro c
        have hc := h.places_eq c
        simp only [places, map_cons, count_cons, registered_registers, ran_registers, removed_registers] at hc ⊢
        omega
      · intro c handle hret
        obtain ⟨hne, hret⟩ := hreturned c handle hret
        simpa [count_cons, hne] using h.returned c handle hret
    · cases hstep
      refine Change.inv [.registers call value] ⟨rfl, le_refl _, ?_, ?_, ?_, ?_, ?_⟩ h
        (h.values.of_log [.registers call value] (by simp) rfl rfl rfl rfl) ?_ hunique ?_
      · exact fun x hx => .inl hx
      · intro x hx
        rcases mem_cons.1 hx with rfl | hx
        · exact .inr (by simp)
        · exact .inl hx
      · exact fun a ha => .inl ha
      · simp
      · simp
      · intro c
        have hc := h.places_eq c
        simp only [places, map_cons, count_cons, registered_registers, ran_registers, removed_registers] at hc ⊢
        omega
      · intro c handle hret
        obtain ⟨hne, hret⟩ := hreturned c handle hret
        simpa [count_cons, hne] using h.returned c handle hret

variable {handle : Option ℕ}

/-- A call returns: where its action goes does not matter. -/
lemma returned_of_erase {call : ℕ} (new : List Event) (h : Inv s)
    (hready : ∀ c, (s'.ready.map Prod.fst).count c ≤ (s.ready.map Prod.fst).count c)
    (hwaiting : ∀ c, (s'.waiting.map Prod.fst).count c ≤ (s.waiting.map Prod.fst).count c)
    (hcall : (s'.ready.map Prod.fst).count call = 0 ∧ (s'.waiting.map Prod.fst).count call = 0 ∧
      (registered s.log).count call = 1)
    (hregistered : registered s'.log = registered s.log)
    (hlog : s'.log = .registerReturns call handle :: (new ++ s.log))
    (hnew : ∀ c handle, .registerReturns c handle ∉ new) :
    ∀ c handle, .registerReturns c handle ∈ s'.log →
      (s'.ready.map Prod.fst).count c = 0 ∧ (s'.waiting.map Prod.fst).count c = 0 ∧ (registered s'.log).count c = 1 := by
  intro c handle' hret
  rw [hregistered]
  rw [hlog] at hret
  rcases mem_cons.1 hret with heq | hret
  · cases heq
    exact hcall
  · have hret := (mem_append.1 hret).resolve_left (hnew c handle')
    obtain ⟨hr, hw, hc⟩ := h.returned c handle' hret
    have hr' := hready c
    have hw' := hwaiting c
    exact ⟨by omega, by omega, hc⟩

lemma count_eq_one_of_mem (h : Inv s) (hmem : (call, value) ∈ s.ready ∨ (call, value) ∈ s.waiting) :
    (registered s.log).count call = 1 ∧ (s.ready.map Prod.fst).count call + (s.waiting.map Prod.fst).count call = 1 := by
  have hpos : 0 < (s.ready.map Prod.fst).count call + (s.waiting.map Prod.fst).count call := by
    rcases hmem with hmem | hmem
    · have hready : 0 < (s.ready.map Prod.fst).count call :=
        count_pos_iff.2 (mem_map_of_mem hmem)
      omega
    · have hwaiting : 0 < (s.waiting.map Prod.fst).count call :=
        count_pos_iff.2 (mem_map_of_mem hmem)
      omega
  have hplaces := h.places_eq call
  have hunique := h.unique call
  simp only [places] at hplaces
  omega

lemma inv_runAction (h : Inv s) (hstep : s.step (.runAction call value) = some s') : Inv s' := by
  simp only [State.step] at hstep
  split at hstep
  · rename_i hmem
    cases hstep
    have hcount := count_erase hmem
    obtain ⟨hreg, hone⟩ := count_eq_one_of_mem h (.inl hmem)
    have hcall := hcount call
    rw [if_pos rfl] at hcall
    refine Change.inv [.registerReturns call none, .runs call value s.syncpoint] ⟨rfl, le_refl _, ?_, ?_, ?_, ?_, ?_⟩ h
      (h.values.of_log [.registerReturns call none, .runs call value s.syncpoint] (by simp) rfl rfl
        rfl rfl) ?_ h.unique ?_
    · exact fun x hx => .inl (mem_of_mem_erase hx)
    · exact fun x hx => .inl hx
    · exact fun a ha => .inl ha
    · intro c v n hrun
      simp only [mem_cons, reduceCtorEq, false_or, not_mem_nil, or_false] at hrun
      cases hrun
      exact h.ready _ hmem
    · simp
    · intro c
      have hc := h.places_eq c
      have hcc := hcount c
      simp only [places, registered_registerReturns, registered_runs, ran_registerReturns, ran_runs,
        removed_registerReturns, removed_runs, count_cons, beq_iff_eq] at hc hcc ⊢
      omega
    · refine returned_of_erase [.runs call value s.syncpoint] h (fun c => ?_) (fun c => le_refl _)
        ⟨?_, ?_, hreg⟩ rfl rfl (by simp)
      · have := hcount c
        dsimp only
        omega
      · dsimp only
        omega
      · dsimp only
        omega
  · cases hstep

variable {l : List RegisteredAction} {a : RegisteredAction}

lemma sorted_emplace (h : l.Pairwise (·.expectedValue ≤ ·.expectedValue)) :
    (emplace l a).Pairwise (·.expectedValue ≤ ·.expectedValue) := by
  induction l with
  | nil => simp [emplace]
  | cons x l ih =>
    obtain ⟨hx, hl⟩ := pairwise_cons.1 h
    by_cases hlt : x.expectedValue < a.expectedValue
    · have heq : emplace (x :: l) a = x :: emplace l a := by
        simp [emplace, hlt]
      rw [heq, pairwise_cons]
      refine ⟨fun y hy => ?_, ih hl⟩
      unfold emplace at hy
      rcases mem_append.1 hy with hy | hy
      · exact hx y (takeWhile_subset _ hy)
      · rcases mem_cons.1 hy with rfl | hy
        · exact le_of_lt hlt
        · exact hx y (dropWhile_subset _ hy)
    · have heq : emplace (x :: l) a = a :: x :: l := by
        simp [emplace, hlt]
      rw [heq, pairwise_cons]
      refine ⟨fun y hy => ?_, h⟩
      rcases mem_cons.1 hy with rfl | hy
      · exact Nat.le_of_not_lt hlt
      · exact Nat.le_trans (Nat.le_of_not_lt hlt) (hx y hy)

lemma inv_registerLocked {call value node : ℕ} (h : Inv s)
    (hstep : s.step (.registerLocked call value node) = some s') : Inv s' := by
  simp only [State.step] at hstep
  split at hstep
  · rename_i hmem
    obtain ⟨hmem, -⟩ := hmem
    have hcount := count_erase hmem
    obtain ⟨hreg, hone⟩ := count_eq_one_of_mem h (.inr hmem)
    have hcall := hcount call
    rw [if_pos rfl] at hcall
    split at hstep
    · rename_i hle
      cases hstep
      refine Change.inv [.registerReturns call none, .runs call value s.syncpoint] ⟨rfl, le_refl _, ?_, ?_, ?_, ?_, ?_⟩ h
        (h.values.of_log [.registerReturns call none, .runs call value s.syncpoint] (by simp) rfl rfl
          rfl rfl) ?_ h.unique ?_
      · exact fun x hx => .inl hx
      · exact fun x hx => .inl (mem_of_mem_erase hx)
      · exact fun a ha => .inl ha
      · intro c v n hrun
        simp only [mem_cons, reduceCtorEq, false_or, not_mem_nil, or_false] at hrun
        cases hrun
        exact ⟨hle, h.waiting _ hmem⟩
      · simp
      · intro c
        have hc := h.places_eq c
        have hcc := hcount c
        simp only [places, registered_registerReturns, registered_runs, ran_registerReturns, ran_runs,
          removed_registerReturns, removed_runs, count_cons, beq_iff_eq] at hc hcc ⊢
        omega
      · refine returned_of_erase [.runs call value s.syncpoint] h (fun c => le_refl _) (fun c => ?_)
          ⟨?_, ?_, hreg⟩ rfl rfl (by simp)
        · have := hcount c
          dsimp only
          omega
        · dsimp only
          omega
        · dsimp only
          omega
    · rename_i hlt
      cases hstep
      have hperm : (emplace s.actionStorage ⟨node, value, call⟩).Perm (⟨node, value, call⟩ :: s.actionStorage) := by
        unfold emplace
        refine perm_middle.trans ?_
        rw [takeWhile_append_dropWhile]
      refine Change.inv [.registerReturns call (some node)] ⟨rfl, le_refl _, ?_, ?_, ?_, ?_, ?_⟩ h ?_ ?_ h.unique ?_
      · exact fun x hx => .inl hx
      · exact fun x hx => .inl (mem_of_mem_erase hx)
      · intro a ha
        rcases mem_cons.1 (hperm.mem_iff.1 ha) with rfl | ha
        · exact .inr hmem
        · exact .inl ha
      · simp
      · simp
      · refine ⟨?_, ?_, h.values.increments_le, h.values.increments_nodup, ?_⟩
        · exact sorted_emplace h.values.sorted
        · intro a ha hle
          rcases mem_cons.1 (hperm.mem_iff.1 ha) with rfl | ha
          · exact absurd hle hlt
          · exact h.values.pending a ha hle
        · exact fun v hv => h.values.returned v (by simpa using hv)
      · intro c
        have hc := h.places_eq c
        have hcc := hcount c
        have hstorage := (hperm.map (·.action)).count_eq c
        simp only [places, registered_registerReturns, ran_registerReturns, removed_registerReturns,
          map_cons, count_cons, beq_iff_eq] at hc hcc hstorage ⊢
        omega
      · refine returned_of_erase [] h (fun c => le_refl _) (fun c => ?_) ⟨?_, ?_, hreg⟩ rfl rfl (by simp)
        · have := hcount c
          dsimp only
          omega
        · dsimp only
          omega
        · dsimp only
          omega
  · cases hstep

lemma inv_increment (h : Inv s) (hwrap : s.syncpoint + 1 < 2 ^ 32) (hstep : s.step .increment = some s') : Inv s' := by
  simp only [State.step, mod_eq_of_lt hwrap] at hstep
  cases hstep
  refine Change.inv [] ⟨rfl, le_succ _, fun x hx => .inl hx, fun x hx => .inl hx,
    fun a ha => .inl ha, by simp, by simp⟩ h ?_ h.places_eq h.unique h.returned
  refine ⟨h.values.sorted, ?_, ?_, ?_, ?_⟩
  · intro a ha hle
    rcases lt_or_ge s.syncpoint a.expectedValue with hlt | hge
    · have heq : a.expectedValue = s.syncpoint + 1 := by
        dsimp only at hle
        omega
      exact heq ▸ mem_cons_self
    · exact mem_cons_of_mem _ (h.values.pending a ha hge)
  · intro v hv
    rcases mem_cons.1 hv with rfl | hv
    · exact ⟨succ_pos _, le_refl _⟩
    · exact ⟨(h.values.increments_le v hv).1, le_succ_of_le (h.values.increments_le v hv).2⟩
  · refine nodup_cons.2 ⟨fun hmem => ?_, h.values.increments_nodup⟩
    have hle := (h.values.increments_le _ hmem).2
    omega
  · intro v hv
    obtain ⟨hle, hnot⟩ := h.values.returned v hv
    refine ⟨le_succ_of_le hle, ?_⟩
    rw [mem_cons]
    rintro (rfl | hmem)
    · omega
    · exact hnot hmem

section

variable (l) (counter : ℕ) (log)
include l counter log

lemma ran_due : ran ((l.map fun a => Event.runs a.action a.expectedValue counter).reverse ++ log) =
      (l.map (·.action)).reverse ++ ran log := by
  simp only [ran, filterMap_append, filterMap_reverse, filterMap_map]
  congr 2
  exact congrFun filterMap_eq_map l

lemma removed_due :
    removed ((l.map fun a => Event.runs a.action a.expectedValue counter).reverse ++ log) =
      removed log := by
  simp [removed]

lemma registered_due :
    registered ((l.map fun a => Event.runs a.action a.expectedValue counter).reverse ++ log) =
      registered log := by
  simp [registered]

end

/-- What is left behind a sorted list is above the bound. -/
lemma lt_of_mem_dropWhile {bound : ℕ} (h : l.Pairwise (·.expectedValue ≤ ·.expectedValue))
    (ha : a ∈ l.dropWhile (·.expectedValue ≤ bound)) : bound < a.expectedValue := by
  induction l with
  | nil => cases ha
  | cons x l ih =>
    obtain ⟨hx, hl⟩ := pairwise_cons.1 h
    rw [dropWhile_cons] at ha
    split at ha
    · exact ih hl ha
    · rename_i hlt
      have hlt : bound < x.expectedValue := by simpa using hlt
      rcases mem_cons.1 ha with rfl | ha
      · exact hlt
      · exact lt_of_lt_of_le hlt (hx a ha)

lemma inv_incrementLocked {newValue : ℕ} (h : Inv s) (hstep : s.step (.incrementLocked newValue) = some s') : Inv s' := by
  simp only [State.step] at hstep
  split at hstep
  · rename_i hmem
    cases hstep
    have hle := (h.values.increments_le newValue hmem).2
    refine Change.inv (s := s) (.incrementReturns newValue ::
      ((due s.actionStorage newValue).map fun a =>
        Event.runs a.action a.expectedValue s.syncpoint).reverse)
      ⟨rfl, le_refl _, fun x hx => .inl hx, fun x hx => .inl hx, ?_, ?_, by simp⟩ h ?_ ?_ ?_ ?_
    · exact fun a ha => .inl (dropWhile_subset _ ha)
    · intro c v n hrun
      simp only [mem_cons, reduceCtorEq, false_or, mem_reverse, mem_map] at hrun
      obtain ⟨a, ha, heq⟩ := hrun
      cases heq
      have hdue : a.expectedValue ≤ newValue := by simpa using mem_takeWhile_imp ha
      exact ⟨Nat.le_trans hdue hle, h.storage a (takeWhile_subset _ ha)⟩
    · refine ⟨h.values.sorted.sublist (dropWhile_sublist _), ?_, ?_, h.values.increments_nodup.erase _, ?_⟩
      · intro a ha hale
        have hlt := lt_of_mem_dropWhile h.values.sorted ha
        have hpend := h.values.pending a (dropWhile_subset _ ha) hale
        exact (mem_erase_of_ne (ne_of_gt hlt)).2 hpend
      · exact fun v hv => h.values.increments_le v (mem_of_mem_erase hv)
      · intro v hv
        rcases mem_cons.1 hv with heq | hv
        · cases heq
          exact ⟨hle, h.values.increments_nodup.not_mem_erase⟩
        · have hv : .incrementReturns v ∈ s.log := by simpa using hv
          obtain ⟨hvle, hnot⟩ := h.values.returned v hv
          exact ⟨hvle, fun hmem => hnot (mem_of_mem_erase hmem)⟩
    · intro c
      have hc := h.places_eq c
      have hstorage : (s.actionStorage.map (·.action)).count c =
          ((due s.actionStorage newValue).map (·.action)).count c +
            ((s.actionStorage.dropWhile (·.expectedValue ≤ newValue)).map (·.action)).count c := by
        rw [← count_append, ← map_append, due, takeWhile_append_dropWhile]
      simp only [places, ran_incrementReturns, removed_incrementReturns, registered_incrementReturns,
        ran_due, removed_due, registered_due, count_append, count_reverse] at hc ⊢
      omega
    · intro c
      rw [registered_incrementReturns, registered_due]
      exact h.unique c
    · intro c handle hret
      rw [registered_incrementReturns, registered_due]
      exact h.returned c handle (by simpa using hret)
  · cases hstep

lemma inv_deregisterAction {call : ℕ} (h : Inv s) (hreuse : ∀ a ∈ s.actionStorage, some a.node = handle → a.action = call)
    (hstep : s.step (.deregisterAction call handle) = some s') : Inv s' := by
  simp only [State.step] at hstep
  split at hstep
  · cases hfind : s.actionStorage.find? fun a => some a.node == handle with
    | none =>
      rw [hfind] at hstep
      cases hstep
      refine Change.inv [.deregisters call none] ⟨rfl, le_refl _, fun x hx => .inl hx,
        fun x hx => .inl hx, fun a ha => .inl ha, by simp, by simp⟩ h
        (h.values.of_log [.deregisters call none] (by simp) rfl rfl rfl rfl) h.places_eq h.unique ?_
      exact fun c handle hret => h.returned c handle (by simpa using hret)
    | some a =>
      rw [hfind] at hstep
      cases hstep
      have ha := mem_of_find?_eq_some hfind
      have hnode : some a.node = handle := by simpa using find?_some hfind
      have hcall := hreuse a ha hnode
      refine Change.inv [.deregisters call (some a.action)] ⟨rfl, le_refl _, fun x hx => .inl hx,
        fun x hx => .inl hx, fun b hb => .inl (mem_of_mem_erase hb), by simp, ?_⟩ h ?_ ?_
        h.unique ?_
      · intro c c' hmem
        simp only [mem_singleton, Event.deregisters.injEq, Option.some.injEq] at hmem
        rw [hmem.1, hmem.2]
        exact hcall
      · refine ⟨h.values.sorted.sublist erase_sublist, ?_, h.values.increments_le, h.values.increments_nodup, ?_⟩
        · exact fun b hb hle => h.values.pending b (mem_of_mem_erase hb) hle
        · exact fun v hv => h.values.returned v (by simpa using hv)
      · intro c
        have hc := h.places_eq c
        have hstorage := ((perm_cons_erase ha).map (·.action)).count_eq c
        simp only [places, map_cons, count_cons, ran_removes, removed_removes, registered_removes] at hc hstorage ⊢
        omega
      · exact fun c handle hret => h.returned c handle (by simpa using hret)
  · cases hstep

/-- **Every step keeps the invariant.** -/
theorem inv_step {a : Action} (h : Inv s) (hwrap : a.NoWrap s) (hreuse : a.NotReused s)
    (hstep : s.step a = some s') : Inv s' := by
  cases a with
  | registerAction call value => exact inv_registerAction h hstep
  | runAction call value => exact inv_runAction h hstep
  | registerLocked call value node => exact inv_registerLocked h hstep
  | increment => exact inv_increment h hwrap hstep
  | incrementLocked newValue => exact inv_incrementLocked h hstep
  | deregisterAction call handle => exact inv_deregisterAction h hreuse hstep

end Steps

/-! ## Runs -/

lemma inv_initial : Inv .initial := by
  refine ⟨⟨List.Pairwise.nil, by simp [State.initial], by simp [State.initial], nodup_nil,
    by simp [State.initial]⟩, fun _ => rfl, fun _ => zero_le _, ?_, ?_, ?_, ?_, ?_, ?_⟩ <;>
    simp [State.initial]

lemma inv_run {s s' : State} {actions : List Action} (h : Inv s) (hwrap : EveryStep (fun s a => a.NoWrap s) s actions)
    (hreuse : EveryStep (fun s a => a.NotReused s) s actions) (hrun : s.run actions = some s') :
    Inv s' := by
  induction actions generalizing s with
  | nil =>
    cases hrun
    exact h
  | cons a actions ih =>
    obtain ⟨s1, hstep, hrun⟩ := Option.bind_eq_some_iff.1 hrun
    exact ih (inv_step h hwrap.1 hreuse.1 hstep) (hwrap.2 s1 hstep) (hreuse.2 s1 hstep) hrun

/-- **Syncpoint actions are run exactly once** when no handle is used after its node was given to another action. -/
theorem actions_run_once {actions : List Action} {s : State} (hwrap : EveryStep (fun s a => a.NoWrap s) .initial actions)
    (hreuse : EveryStep (fun s a => a.NotReused s) .initial actions)
    (hrun : State.initial.run actions = some s) : Correct s :=
  (inv_run inv_initial hwrap hreuse hrun).correct

/-- Two actions, one after the other, and the handle of the first is used twice. -/
def tidyActions : List Action :=
  [.registerAction 1 1, .registerLocked 1 1 7, .increment, .incrementLocked 1,
   .deregisterAction 1 (some 7), .registerAction 2 1, .runAction 2 1]

theorem actions_run_once_tidy : ∃ s, State.initial.run tidyActions = some s ∧ ran s.log = [2, 1] ∧ Correct s := by
  have hran : (State.initial.run tidyActions).map (fun s => ran s.log) = some [2, 1] := by decide
  obtain ⟨s, hs, hran⟩ := Option.map_eq_some_iff.1 hran
  exact ⟨s, hs, hran, actions_run_once (by decide) (by decide) hs⟩

/-- The node of an action that was run is given to another action, and the old handle is used. -/
def reusedActions : List Action :=
  [.registerAction 1 1, .registerLocked 1 1 7, .increment, .incrementLocked 1,
   .registerAction 2 2, .registerLocked 2 2 7, .deregisterAction 1 (some 7)]

/-- **An old handle removes another action.** -/
theorem reused_node_removes_other :
    ¬ ∀ (actions : List Action) (s : State),
      EveryStep (fun s a => a.NoWrap s) .initial actions → State.initial.run actions = some s →
        Correct s := by
  intro h
  have hlog : (State.initial.run reusedActions).map (fun s => s.log.head?) = some (some (.deregisters 1 (some 2))) := by
    decide
  obtain ⟨s, hs, hhead⟩ := Option.map_eq_some_iff.1 hlog
  have hown := (h reusedActions s (by decide) hs).own 1 2 (mem_of_mem_head? hhead)
  exact absurd hown (by decide)

end Voltemu.VideoCore.Syncpoint
