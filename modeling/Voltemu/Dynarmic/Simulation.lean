import Voltemu.Dynarmic.Rewriting

/-!
# A block and its rewritten form side by side

`Simulates` is what every pass keeps: the rewritten block before the cursor reaches the state that the
original block reaches, and the results of the original instructions, which have names below `N`, are the
same.  Each change of `Cursor` has its lemma.
-/

namespace Voltemu.Dynarmic

open Voltemu.Lib Machine Function List

variable {Op K S R : Type*}

/-- **The rewritten block computes what the original one does.** -/
structure Simulates (M : Machine Op K S R) (s0 : S) (N : ℕ) (rest : List (Inst Op K))
    (c : Cursor Op K) (s : S) (env env' : ℕ → Option R) : Prop where
  wf : c.Wf rest
  fresh : N ≤ c.fresh
  run : M.exec c.before.reverse (s0, fun _ => none) = some (s, env')
  agree : ∀ id, id < N → env' id = env id

namespace Simulates

variable {M : Machine Op K S R} {s0 s s1 : S} {N : ℕ} {rest : List (Inst Op K)} {c : Cursor Op K}
  {env env' env1 : ℕ → Option R} {i : Inst Op K}

lemma start (M : Machine Op K S R) (block : Block Op K) (s0 : S) :
    Simulates M s0 block.fresh block.insts block.start s0 (fun _ => none) (fun _ => none) :=
  ⟨block.start_wf, Nat.le_refl _, rfl, fun _ _ => rfl⟩

variable {v : Value K}

lemma eval_eq (h : Simulates M s0 N rest c s env env')
    (hv : ∀ id, v = .inst id → id < N) : M.eval env' v = M.eval env v :=
  eval_congr fun id hid => h.agree id (hv id hid)

section

variable (h : Simulates M s0 N (i :: rest) c s env env')
include h

lemma known_arg (hrefs : ∀ id, Refers i id → id < N) (hv : v ∈ i.args) : (c.keep i).Known rest v := by
  rintro id rfl
  refine ⟨Nat.lt_of_lt_of_le (hrefs id hv) h.fresh, ?_⟩
  rintro k hk rfl
  exact ((pairwise_append.1 h.wf.keep.ordered.later).2.2 k (mem_reverse.2 hk) i mem_cons_self).2 hv

lemma known_self : (c.keep i).Known rest (.inst i.id) := by
  intro id hid
  obtain rfl : i.id = id := by simpa using hid
  refine ⟨(h.wf.keep.bound i (by simp [Cursor.keep])).1, fun k hk => ?_⟩
  exact ((pairwise_append.1 h.wf.keep.ordered.later).2.2 k (mem_reverse.2 hk) i mem_cons_self).1

lemma keep (hrefs : ∀ id, Refers i id → id < N) (hexec : M.execInst i (s, env) = some (s1, env1)) :
    ∃ res, M.result i s env = some (res, s1) ∧ Simulates M s0 N rest (c.keep i) s1 env1 (bindResult env' i.id res) := by
  obtain ⟨res, hres, henv⟩ := execInst_eq_some.1 hexec
  have henv1 : bindResult env i.id res = env1 := henv
  have hres' : M.result i s env' = some (res, s1) := by
    rw [result_congr fun id hid => h.agree id (hrefs id hid)]
    exact hres
  refine ⟨res, hres, h.wf.keep, h.fresh, ?_, fun id hid => ?_⟩
  · simp only [Cursor.keep, reverse_cons]
    exact exec_concat_eq_some.2 ⟨_, h.run, execInst_eq_some.2 ⟨res, hres', rfl⟩⟩
  · rw [← henv1]
    exact bindResult_congr (h.agree id hid) res

/-- An instruction that becomes the copy of a value. -/
lemma replace (hcode : i.code ≠ .identity) (hknown : c.Known (i :: rest) v) (hcounted : c.Counted v) {rv r : R}
    (hv : M.eval env' v = some rv) (hr : M.strip rv = r)
    (henv1 : env1 = update env i.id (some r)) :
    Simulates M s0 N rest (c.replaceUsesWith i v) s env1 (update env' i.id (some r)) := by
  have hstep : M.execInst ⟨i.id, .identity, [v]⟩ (s, env') = some (s, update env' i.id (some r)) := by
    refine execInst_eq_some.2 ⟨some r, ?_, rfl⟩
    simp only [result, head?_cons, Option.bind_some, hv, Option.map_some, hr]
  refine ⟨h.wf.replaceUsesWith hcode hknown hcounted, h.fresh, ?_, fun id hid => ?_⟩
  · simp only [Cursor.replaceUsesWith, reverse_cons]
    exact exec_concat_eq_some.2 ⟨_, h.run, hstep⟩
  · simp only [henv1, update_apply, h.agree id hid]

end

section

variable (h : Simulates M s0 N rest c s env env')
include h

variable {o : Op} {args : List (Value K)}

lemma insert (hknown : ∀ v ∈ args, c.Known rest v) (hcounted : ∀ v ∈ args, c.Counted v) {rs : List R} {r : R}
    (hargs : args.mapM (M.eval env') = some rs) (hstep : M.step o rs s = some (some r, s)) :
    Simulates M s0 N rest (c.insert o args) s env (update env' c.fresh (some r)) := by
  have hexec : M.execInst ⟨c.fresh, .op o, args⟩ (s, env') = some (s, update env' c.fresh (some r)) := by
    refine execInst_eq_some.2 ⟨some r, ?_, rfl⟩
    simp only [result, hargs, Option.bind_some, hstep]
  refine ⟨h.wf.insert hknown hcounted, Nat.le_succ_of_le h.fresh, ?_, fun id hid => ?_⟩
  · simp only [Cursor.insert, reverse_cons]
    exact exec_concat_eq_some.2 ⟨_, h.run, hexec⟩
  · have hne : id ≠ c.fresh := Nat.ne_of_lt (Nat.lt_of_lt_of_le hid h.fresh)
    rw [update_of_ne hne, h.agree id hid]

lemma known_fresh : (c.insert o args).Known rest (.inst c.fresh) := by
  intro id hid
  obtain rfl : c.fresh = id := by simpa using hid
  refine ⟨Nat.lt_succ_self _, fun k hk => Nat.ne_of_lt ?_⟩
  exact (h.wf.bound k (mem_append_left _ (mem_reverse.2 hk))).1

/-- An operation is not an immediate. -/
lemma counted_of_mem {j : Inst Op K} (hj : j ∈ c.before) (hcode : j.code ≠ .identity) : c.Counted (.inst j.id) := by
  intro id _ himm
  rw [isImmediate, resolve_of_mem h.wf.ordered_before hj hcode] at himm
  simp at himm

/-- **An instruction whose effect was not noticed is removed**: the state is the one without the effect. -/
lemma invalidate {F : (S → S) → Prop} {d : Inst Op K} (hpending : Pending M F d c.before)
    (hd : ∀ s env st, M.execInst d (s, env) = some st → ∃ f, F f ∧ st = (f s, env))
    (hcode : d.code ≠ .identity) :
    ∃ f s' A B, F f ∧ s = f s' ∧ c.before = A ++ d :: B ∧
      (c.invalidate d.id).before = A ++ voidInst d :: B ∧ (c.invalidate d.id).fresh = c.fresh ∧
      Simulates M s0 N rest (c.invalidate d.id) s' env env' := by
  obtain ⟨A, B, hsplit, hA⟩ := hpending.split
  have hinv := Cursor.invalidate_eq h.wf.ordered_before hsplit
  have hrun := h.run
  rw [hsplit] at hrun
  obtain ⟨f, s', hf, rfl, hrun'⟩ := Pending.exec_remove hA hd hrun
  refine ⟨f, s', A, B, hf, rfl, hsplit, by rw [hinv], by rw [hinv], h.wf.invalidate hsplit hcode, ?_, ?_, h.agree⟩
  · rw [hinv]
    exact h.fresh
  · rw [hinv]
    exact exec_void.trans hrun'

lemma erase {A B : List (Inst Op K)} {d : Inst Op K} (hsplit : c.before = A ++ voidInst d :: B) :
    (c.erase d.id).before = A ++ B ∧ (c.erase d.id).fresh = c.fresh ∧
      Simulates M s0 N rest (c.erase d.id) s env env' := by
  have herase : c.erase d.id = ⟨A ++ B, c.uses, c.fresh⟩ :=
    Cursor.erase_eq (d := voidInst d) h.wf.ordered_before hsplit
  have hrun := h.run
  rw [hsplit, exec_void] at hrun
  refine ⟨by rw [herase], by rw [herase], h.wf.erase hsplit, ?_, ?_, h.agree⟩
  · rw [herase]
    exact h.fresh
  · rw [herase]
    exact hrun

end

lemma deadCodeElimination (h : Simulates M s0 N [] c s env env') {mayHaveSideEffects : Op → Bool}
    (hpure : ∀ o, mayHaveSideEffects o = false → ∀ rs s r s', M.step o rs s = some (r, s') → s' = s) :
    ∃ env'', M.exec (deadCodeElimination mayHaveSideEffects c.before c.uses).reverse
      (s0, fun _ => none) = some (s, env'') :=
  deadCodeElimination_sound hpure h.wf.ordered h.wf.counts h.run

end Simulates

end Voltemu.Dynarmic
