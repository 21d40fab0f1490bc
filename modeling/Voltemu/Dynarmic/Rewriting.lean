import Voltemu.Dynarmic.Microinstruction

/-!
# Rewriting a block in place

A pass walks over a block and changes instructions as it goes.  `Cursor` is the block before the current
instruction, with the use counts of all instructions.

* `keep`, `replaceUsesWith`, `insert`, `invalidate` and `erase` are the changes that a pass makes.
* `Cursor.Wf` — names, references and counts of the whole block, with the instructions to come.  Each change
  keeps it (`Wf.keep`, `Wf.replaceUsesWith`, `Wf.insert`, `Wf.invalidate`, `Wf.erase`).
* `Pending` — an instruction whose effect has not been noticed since; `exec_invalidate` is what its
  removal does.
-/

namespace Voltemu.Dynarmic

open Voltemu.Lib Machine List Option

variable {Op K S R : Type*}

/-- The instructions before the current one, the latest first, the use counts, and the next name. -/
structure Cursor (Op K : Type*) where
  before : List (Inst Op K)
  uses : ℕ → ℕ
  fresh : ℕ

/-- `Inst::Invalidate`, without the counts. -/
def voidInst (i : Inst Op K) : Inst Op K := ⟨i.id, .void, []⟩

namespace Cursor

def keep (c : Cursor Op K) (i : Inst Op K) : Cursor Op K := { c with before := i :: c.before }

/-- `Inst::ReplaceUsesWith` on the current instruction. -/
def replaceUsesWith (c : Cursor Op K) (i : Inst Op K) (v : Value K) : Cursor Op K :=
  { c with
    before := ⟨i.id, .identity, [v]⟩ :: c.before
    uses := use c.before (clearArgs c.before c.uses i.args) v }

/-- The emitter's `Inst`, at the cursor. -/
def insert (c : Cursor Op K) (o : Op) (args : List (Value K)) : Cursor Op K where
  before := ⟨c.fresh, .op o, args⟩ :: c.before
  uses := args.foldl (use c.before) c.uses
  fresh := c.fresh + 1

/-- `Inst::Invalidate` on an earlier instruction. -/
def invalidate (c : Cursor Op K) (id : ℕ) : Cursor Op K :=
  match c.before.find? (·.id = id) with
  | some d =>
      { c with
        before := c.before.map fun i => if i.id = id then voidInst i else i
        uses := clearArgs c.before c.uses d.args }
  | none => c

/-- An earlier instruction is taken out of the list. -/
def erase (c : Cursor Op K) (id : ℕ) : Cursor Op K :=
  { c with before := c.before.filter (·.id ≠ id) }

end Cursor

/-! ## What names stand for -/

@[simp] lemma resolve_imm (l : List (Inst Op K)) (k : K) : resolve l (.imm k) = some k := by
  cases l <;> rfl

variable {l : List (Inst Op K)} {st : S × (ℕ → Option R)} {uses : ℕ → ℕ} {env : ℕ → Option R}
  {F : (S → S) → Prop} {args : List (Value K)} {v : Value K} {d : Inst Op K}

variable {i g : Inst Op K}

lemma resolve_cons_self : resolve (i :: l) (.inst i.id) = match i.code, i.args with
      | .identity, v :: _ => resolve l v
      | _, _ => none := by
  rw [resolve]
  exact if_pos rfl

lemma resolve_cons_of_code (h : i.code ≠ .identity) : resolve (i :: l) (.inst i.id) = none := by
  rw [resolve_cons_self]
  cases hcode : i.code with
  | identity => exact absurd hcode h
  | void => rfl
  | op o => rfl

variable {id : ℕ}

lemma resolve_of_notMem (h : ∀ i ∈ l, i.id ≠ id) : resolve l (.inst id) = none := by
  induction l with
  | nil => rfl
  | cons i l ih =>
    rw [resolve, if_neg (h i mem_cons_self)]
    exact ih fun j hj => h j (mem_cons_of_mem _ hj)

lemma resolve_of_mem (hord : Ordered l) {j : Inst Op K} (hj : j ∈ l)
    (hcode : j.code ≠ .identity) : resolve l (.inst j.id) = none := by
  induction l with
  | nil => simp at hj
  | cons i l ih =>
    rcases mem_cons.1 hj with rfl | hj
    · exact resolve_cons_of_code hcode
    · rw [resolve_cons_of_ne (by simpa using hord.ne hj)]
      exact ih hord.tail hj

variable {A B before later : List (Inst Op K)} {k : K}

/-- A change of an instruction that is not an identity adds immediates at most. -/
lemma resolve_change {B' : List (Inst Op K)} (hB : ∀ v k, resolve B v = some k → resolve B' v = some k)
    (h : resolve (A ++ B) v = some k) : resolve (A ++ B') v = some k := by
  induction A generalizing v with
  | nil => exact hB v k h
  | cons a A ih =>
    cases v with
    | imm k' => simpa using h
    | inst id =>
      rw [cons_append, resolve] at h ⊢
      split_ifs at h ⊢ with hid
      · split at h
        · exact ih h
        · simp at h
      · exact ih h

lemma eval_of_resolve {M : Machine Op K S R} (hstrip : ∀ k, M.strip (M.ofImm k) = M.ofImm k) (hord : Ordered l) {s : S}
    (hexec : M.exec l.reverse st = some (s, env))
    (h : resolve l v = some k) : M.eval env v = some (M.ofImm k) := by
  induction l generalizing s env v with
  | nil =>
    cases v with
    | imm k' =>
      rw [resolve_imm, Option.some.injEq] at h
      rw [h]
      rfl
    | inst id => simp [resolve] at h
  | cons i l ih =>
    rw [reverse_cons, exec_concat_eq_some] at hexec
    obtain ⟨⟨s1, env1⟩, hexec, hi⟩ := hexec
    obtain ⟨r, hr, henv⟩ := execInst_eq_some.1 hi
    simp only at henv
    cases v with
    | imm k' =>
      rw [resolve_imm, Option.some.injEq] at h
      rw [h]
      rfl
    | inst id =>
      by_cases hid : i.id = id
      · subst hid
        rw [resolve_cons_self] at h
        split at h
        next w ws hcode hargs =>
          have hw := ih hord.tail hexec h
          simp only [result, hcode, hargs, head?_cons, bind_some, hw, map_some, Option.some.injEq, Prod.mk.injEq] at hr
          rw [← henv, ← hr.1]
          simp [eval, bindResult, hstrip]
        · simp at h
      · have hval := ih hord.tail hexec ((resolve_cons_of_ne (by simpa using Ne.symm hid)).symm.trans h)
        rw [← henv]
        simp only [eval] at hval ⊢
        rw [bindResult_of_ne (Ne.symm hid), hval]

lemma getInstRecursive_mem (h : getInstRecursive l v = some g) : g ∈ l := by
  induction l generalizing v with
  | nil => cases v <;> simp [getInstRecursive] at h
  | cons i l ih =>
    cases v with
    | imm k => simp [getInstRecursive] at h
    | inst id =>
      unfold getInstRecursive at h
      split_ifs at h with hid
      · split at h
        · exact mem_cons_of_mem _ (ih h)
        · obtain rfl : i = g := by simpa using h
          exact mem_cons_self
      · exact mem_cons_of_mem _ (ih h)

/-- A value is that of the instruction behind it. -/
lemma eval_of_getInstRecursive {M : Machine Op K S R} (hstrip : ∀ r, M.strip (M.strip r) = M.strip r) (hord : Ordered l) {s : S}
    (hexec : M.exec l.reverse st = some (s, env))
    (h : getInstRecursive l v = some g) {r : R} (hr : M.eval env v = some r) :
    ∃ rg, env g.id = some rg ∧ M.strip r = M.strip rg := by
  induction l generalizing v r s env with
  | nil => cases v <;> simp [getInstRecursive] at h
  | cons i l ih =>
    rw [reverse_cons, exec_concat_eq_some] at hexec
    obtain ⟨⟨s1, env1⟩, hexec, hi⟩ := hexec
    obtain ⟨res, hres, henv⟩ := execInst_eq_some.1 hi
    simp only at henv hres
    -- a result from before `i` is still there
    have hkeep {w : Value K} {r' : R} (hw : getInstRecursive l w = some g)
        (hr' : M.eval env1 w = some r') : ∃ rg, env g.id = some rg ∧ M.strip r' = M.strip rg := by
      obtain ⟨rg, hrg, hval⟩ := ih hord.tail hexec hw hr'
      refine ⟨rg, ?_, hval⟩
      rw [← henv, bindResult_of_ne (hord.ne (getInstRecursive_mem hw)), hrg]
    cases v with
    | imm k => simp [getInstRecursive] at h
    | inst id =>
      unfold getInstRecursive at h
      split_ifs at h with hid
      · subst hid
        split at h
        next w ws hcode hargs =>
          simp only [result, hcode, hargs, head?_cons, bind_some, map_eq_some_iff, Prod.mk.injEq] at hres
          obtain ⟨r', hr', rfl, -⟩ := hres
          obtain ⟨rg, hrg, hval⟩ := hkeep h hr'
          have hcopy : env i.id = some (M.strip r') := by
            rw [← henv]
            exact Function.update_self _ _ _
          obtain rfl : M.strip r' = r := Option.some.inj (hcopy.symm.trans hr)
          exact ⟨rg, hrg, by rw [hstrip, hval]⟩
        next =>
          obtain rfl : i = g := by simpa using h
          exact ⟨r, hr, rfl⟩
      · refine hkeep h ?_
        change env id = some r at hr
        rwa [← henv, bindResult_of_ne (Ne.symm hid)] at hr

/-! ## Counts under a change -/

lemma CountsFor.change {L L' : List (Inst Op K)} {uses uses' : ℕ → ℕ} (h : CountsFor L [] uses)
    (hids : ∀ i ∈ L', (∃ j ∈ L, j.id = i.id) ∨ refs L' i.id = 0)
    (himm : ∀ id, isImmediate L (.inst id) = true → isImmediate L' (.inst id) = true)
    (hcount : ∀ i ∈ L', isImmediate L' (.inst i.id) = false → refs L i.id ≤ uses i.id → refs L' i.id ≤ uses' i.id)
    (hkept : ∀ i ∈ L', isImmediate L' (.inst i.id) = true → 0 < refs L' i.id → 0 < refs L i.id ∧ uses i.id ≤ uses' i.id) :
    CountsFor L' [] uses' := by
  have hcounted : ∀ i ∈ L', isImmediate L' (.inst i.id) = false → refs L' i.id ≤ uses' i.id := by
    intro i hi hnot
    rcases hids i hi with ⟨j, hj, hji⟩ | hzero
    · refine hcount i hi hnot ?_
      have hnotL : isImmediate L (.inst i.id) = false := by
        rw [← Bool.not_eq_true]
        intro hL
        rw [himm _ hL] at hnot
        simp at hnot
      simpa [hji] using h.counted j hj (by rw [hji]; exact hnotL)
    · omega
  refine ⟨fun i hi hnot => ?_, fun i hi hpos => ?_⟩
  · simpa using hcounted i hi hnot
  · rw [refs_nil, Nat.add_zero] at hpos
    cases hcase : isImmediate L' (.inst i.id : Value K) with
    | false => exact Nat.lt_of_lt_of_le hpos (hcounted i hi hcase)
    | true =>
      obtain ⟨hposL, hle⟩ := hkept i hi hcase hpos
      rcases hids i hi with ⟨j, hj, hji⟩ | hzero
      · have := h.kept j hj (by rw [hji]; simpa using hposL)
        rw [hji] at this
        omega
      · omega

/-- Counts of instructions before the current one, seen from the whole block. -/
lemma clearArgs_append (hargs : ∀ id, Value.inst id ∈ args → ∀ i ∈ later, i.id ≠ id) (id : ℕ) :
    clearArgs before uses args id =
      if isImmediate (later ++ before) (.inst id) = true then uses id
      else uses id - args.countP (isRef id) := by
  rw [clearArgs_apply]
  by_cases hid : Value.inst id ∈ args
  · have hresolve : resolve (later ++ before) (.inst id) = resolve before (.inst id) :=
      resolve_append fun i hi hne => hargs id hid i hi (by simpa using hne.symm)
    rw [isImmediate, isImmediate, hresolve]
  · have hzero : args.countP (isRef id) = 0 := by
      refine countP_eq_zero.2 fun v hv href => hid ?_
      rwa [← isRef_iff.1 href]
    simp [hzero]

lemma use_apply : use before uses v id =
      if isImmediate before (.inst id) = true then uses id
      else uses id + [v].countP (isRef id) := by
  cases v with
  | imm k => simp [use, isRef]
  | inst id' =>
    by_cases hid : id' = id
    · subst hid
      by_cases himm : isImmediate before (.inst id') = true
      · simp [use, himm]
      · simp [use, isRef, himm]
    · by_cases himm : isImmediate before (.inst id') = true
      · simp [use, isRef, himm, hid]
      · simp [use, isRef, himm, hid, Function.update_of_ne (Ne.symm hid)]

lemma foldl_use_apply : args.foldl (use before) uses id =
      if isImmediate before (.inst id) = true then uses id
      else uses id + args.countP (isRef id) := by
  induction args generalizing uses with
  | nil => simp
  | cons v args ih =>
    have hsplit : (v :: args).countP (isRef id) = [v].countP (isRef id) + args.countP (isRef id) := by
      rw [← countP_append]
      rfl
    rw [foldl_cons, ih, use_apply, hsplit]
    split_ifs
    · rfl
    · omega

lemma foldl_use_append (hargs : ∀ id, Value.inst id ∈ args → ∀ i ∈ later, i.id ≠ id) (id : ℕ) :
    args.foldl (use before) uses id =
      if isImmediate (later ++ before) (.inst id) = true then uses id
      else uses id + args.countP (isRef id) := by
  rw [foldl_use_apply]
  by_cases hid : Value.inst id ∈ args
  · have hresolve : resolve (later ++ before) (.inst id) = resolve before (.inst id) :=
      resolve_append fun i hi hne => hargs id hid i hi (by simpa using hne.symm)
    rw [isImmediate, isImmediate, hresolve]
  · have hzero : args.countP (isRef id) = 0 := by
      refine countP_eq_zero.2 fun v hv href => hid ?_
      rwa [← isRef_iff.1 href]
    simp [hzero]

/-! ## The whole block -/

namespace Cursor

/-- **A block in the middle of a pass**, with the instructions to come. -/
structure Wf (c : Cursor Op K) (rest : List (Inst Op K)) : Prop where
  ordered : Ordered (rest.reverse ++ c.before)
  counts : CountsFor (rest.reverse ++ c.before) [] c.uses
  bound : ∀ i ∈ rest.reverse ++ c.before, i.id < c.fresh ∧ ∀ id, Refers i id → id < c.fresh

variable {c : Cursor Op K} {rest : List (Inst Op K)}

lemma Wf.keep (h : c.Wf (i :: rest)) : (c.keep i).Wf rest := by
  have hlist : (i :: rest).reverse ++ c.before = rest.reverse ++ i :: c.before := by simp
  obtain ⟨hord, hcounts, hbound⟩ := h
  rw [hlist] at hord hcounts hbound
  exact ⟨hord, hcounts, hbound⟩

/-- A value that is known before the instructions to come. -/
def Known (c : Cursor Op K) (rest : List (Inst Op K)) (v : Value K) : Prop :=
  ∀ id, v = .inst id → id < c.fresh ∧ ∀ k ∈ rest, k.id ≠ id

/-- An immediate behind a name still has a reference. -/
def Counted (c : Cursor Op K) (v : Value K) : Prop :=
  ∀ id, v = .inst id → isImmediate c.before v = true → 0 < refs c.before id

/-- Another instruction in the place of the current one, with earlier arguments. -/
lemma ordered_change {i' : Inst Op K} (h : Ordered (A ++ i :: B))
    (hid : i'.id = i.id) (hrefs : ∀ id, Refers i' id → ∀ k ∈ A ++ [i], k.id ≠ id) :
    Ordered (A ++ i' :: B) := by
  have hpair := pairwise_append.1 h.later
  have hcur := pairwise_cons.1 hpair.2.1
  refine ⟨pairwise_append.2 ⟨hpair.1, pairwise_cons.2 ⟨fun j hj => ?_, hcur.2⟩,
    fun k hk j hj => ?_⟩, fun j hj => ?_⟩
  · rw [hid]
    exact hcur.1 j hj
  · rcases mem_cons.1 hj with rfl | hj
    · refine ⟨by rw [hid]; exact (hpair.2.2 k hk i mem_cons_self).1, fun href => ?_⟩
      exact hrefs _ href k (by simp [hk]) rfl
    · exact hpair.2.2 k hk j (mem_cons_of_mem _ hj)
  · rcases mem_append.1 hj with hj | hj
    · exact h.self j (mem_append_left _ hj)
    · rcases mem_cons.1 hj with rfl | hj
      · intro href
        exact hrefs _ href i (by simp) hid.symm
      · exact h.self j (mem_append_right _ (mem_cons_of_mem _ hj))

lemma isImmediate_change {i' : Inst Op K} (hcode : i.code ≠ .identity)
    (hid : i'.id = i.id) {v : Value K} (h : isImmediate (A ++ i :: B) v = true) :
    isImmediate (A ++ i' :: B) v = true := by
  obtain ⟨k, hk⟩ := isSome_iff_exists.1 h
  refine isSome_iff_exists.2 ⟨k, resolve_change (fun w k' hw => ?_) hk⟩
  by_cases hwi : w = .inst i.id
  · rw [hwi, resolve_cons_of_code hcode] at hw
    simp at hw
  · rw [resolve_cons_of_ne hwi] at hw
    rw [resolve_cons_of_ne (by rw [hid]; exact hwi)]
    exact hw

/-- The current instruction becomes the copy of an earlier value. -/
lemma Wf.replaceUsesWith (h : c.Wf (i :: rest)) (hcode : i.code ≠ .identity) {v : Value K}
    (hknown : c.Known (i :: rest) v) (hcounted : c.Counted v) : (c.replaceUsesWith i v).Wf rest := by
  have hlist : (i :: rest).reverse ++ c.before = rest.reverse ++ i :: c.before := by simp
  obtain ⟨hord, hcounts, hbound⟩ := h
  rw [hlist] at hord hcounts hbound
  set i' : Inst Op K := ⟨i.id, .identity, [v]⟩ with hi'
  have hlater : ∀ id, v = .inst id → ∀ k ∈ rest.reverse ++ [i], k.id ≠ id := by
    intro id hid k hk
    exact (hknown id hid).2 k (by simpa [or_comm] using hk)
  have hrefers : ∀ id, Refers i' id → v = .inst id := by
    intro id hid
    simpa [Refers, hi', eq_comm] using hid
  have hord' : Ordered (rest.reverse ++ i' :: c.before) :=
    ordered_change hord rfl fun id hid => hlater id (hrefers id hid)
  have hpair := pairwise_append.1 hord.later
  -- the counts, seen from the whole block
  have huses : ∀ id, (c.replaceUsesWith i v).uses id =
      if isImmediate (rest.reverse ++ i' :: c.before) (.inst id) = true then c.uses id
      else c.uses id - i.args.countP (isRef id) + [v].countP (isRef id) := by
    intro id
    have hsplit : rest.reverse ++ i' :: c.before = (rest.reverse ++ [i']) ++ c.before := by simp
    have hclear : clearArgs c.before c.uses i.args id =
        if isImmediate ((rest.reverse ++ [i']) ++ c.before) (.inst id) = true then c.uses id
        else c.uses id - i.args.countP (isRef id) := by
      refine clearArgs_append (fun id hid k hk => ?_) id
      rcases mem_append.1 hk with hk | hk
      · rintro rfl
        exact (hpair.2.2 k hk i mem_cons_self).2 hid
      · obtain rfl := mem_singleton.1 hk
        rintro rfl
        exact hord.self i (by simp) hid
    have huse : (c.replaceUsesWith i v).uses id =
        if isImmediate ((rest.reverse ++ [i']) ++ c.before) (.inst id) = true then
          clearArgs c.before c.uses i.args id
        else clearArgs c.before c.uses i.args id + [v].countP (isRef id) := by
      change [v].foldl (use c.before) (clearArgs c.before c.uses i.args) id = _
      refine foldl_use_append (fun id hid k hk => ?_) id
      rcases mem_append.1 hk with hk | hk
      · exact hlater id (hrefers id hid) k (mem_append_left _ hk)
      · obtain rfl := mem_singleton.1 hk
        exact hlater id (hrefers id hid) i (by simp)
    rw [← hsplit] at hclear huse
    rw [hclear] at huse
    refine huse.trans ?_
    split_ifs <;> rfl
  have hcounts' : CountsFor (rest.reverse ++ i' :: c.before) [] (c.replaceUsesWith i v).uses := by
    refine hcounts.change ?_ (fun id hid => isImmediate_change hcode (show i'.id = i.id from rfl) hid) ?_ ?_
    · intro j hj
      refine Or.inl ?_
      rcases mem_append.1 hj with hj | hj
      · exact ⟨j, mem_append_left _ hj, rfl⟩
      · rcases mem_cons.1 hj with rfl | hj
        · exact ⟨i, by simp, rfl⟩
        · exact ⟨j, by simp [hj], rfl⟩
    · intro j hj hnot hle
      rw [huses, if_neg (by simpa using hnot)]
      simp only [refs_append, refs_cons, hi'] at hle ⊢
      omega
    · intro j hj himm hpos
      rw [huses, if_pos himm]
      refine ⟨?_, Nat.le_refl _⟩
      simp only [refs_append, refs_cons, hi'] at hpos ⊢
      by_cases hjv : v = .inst j.id
      · have hbefore : resolve (rest.reverse ++ i' :: c.before) v = resolve c.before v := by
          have hsplit : rest.reverse ++ i' :: c.before = (rest.reverse ++ [i']) ++ c.before := by simp
          rw [hsplit]
          refine resolve_append fun k hk hvk => ?_
          rcases mem_append.1 hk with hk | hk
          · exact hlater _ hvk k (mem_append_left _ hk) rfl
          · obtain rfl := mem_singleton.1 hk
            exact hlater _ hvk i (by simp) rfl
        have := hcounted _ hjv (by rw [isImmediate, ← hbefore, hjv]; exact himm)
        omega
      · have hzero : [v].countP (isRef j.id) = 0 := by
          simp [isRef_iff, hjv]
        omega
  refine ⟨hord', hcounts', fun j hj => ?_⟩
  have hj' : j ∈ rest.reverse ++ i' :: c.before := hj
  rcases mem_append.1 hj' with hj | hj
  · exact hbound j (mem_append_left _ hj)
  · rcases mem_cons.1 hj with rfl | hj
    · exact ⟨(hbound i (by simp)).1, fun id hid => (hknown id (hrefers id hid)).1⟩
    · exact hbound j (mem_append_right _ (mem_cons_of_mem _ hj))

lemma refs_eq_zero {l : List (Inst Op K)} {id : ℕ} (h : ∀ i ∈ l, ¬ Refers i id) : refs l id = 0 := by
  induction l with
  | nil => rfl
  | cons i l ih =>
    have hi : i.args.countP (isRef id) = 0 := by
      have := h i mem_cons_self
      rw [refers_iff] at this
      omega
    rw [refs_cons, hi, ih fun j hj => h j (mem_cons_of_mem _ hj)]

/-- A new instruction before the current one. -/
lemma Wf.insert (h : c.Wf rest) {o : Op} {args : List (Value K)}
    (hknown : ∀ v ∈ args, c.Known rest v) (hcounted : ∀ v ∈ args, c.Counted v) :
    (c.insert o args).Wf rest := by
  obtain ⟨hord, hcounts, hbound⟩ := h
  set n : Inst Op K := ⟨c.fresh, .op o, args⟩ with hn
  have hpair := pairwise_append.1 hord.later
  have hrefers : ∀ id, Refers n id → id < c.fresh ∧ ∀ k ∈ rest, k.id ≠ id := by
    intro id hid
    exact hknown _ hid id rfl
  have hfresh : ∀ j ∈ rest.reverse ++ c.before, j.id ≠ c.fresh ∧ ¬ Refers j c.fresh := by
    intro j hj
    refine ⟨Nat.ne_of_lt (hbound j hj).1, fun href => ?_⟩
    exact Nat.lt_irrefl _ ((hbound j hj).2 _ href)
  have hself : ¬ Refers n c.fresh := by
    intro href
    exact Nat.lt_irrefl _ (hrefers _ href).1
  have hlater : ∀ k ∈ rest.reverse ++ [n], ∀ id, Refers n id → k.id ≠ id := by
    rintro k hk id hid rfl
    rcases mem_append.1 hk with hk | hk
    · exact (hrefers _ hid).2 k (mem_reverse.1 hk) rfl
    · obtain rfl := mem_singleton.1 hk
      exact hself hid
  have hord' : Ordered (rest.reverse ++ n :: c.before) := by
    refine ⟨pairwise_append.2 ⟨hpair.1, pairwise_cons.2 ⟨fun j hj => ?_, hpair.2.1⟩,
      fun k hk j hj => ?_⟩, fun j hj => ?_⟩
    · have := hfresh j (mem_append_right _ hj)
      exact ⟨this.1.symm, this.2⟩
    · rcases mem_cons.1 hj with rfl | hj
      · exact ⟨(hfresh k (mem_append_left _ hk)).1,
          fun href => hlater k (mem_append_left _ hk) _ href rfl⟩
      · exact hpair.2.2 k hk j hj
    · rcases mem_append.1 hj with hj | hj
      · exact hord.self j (mem_append_left _ hj)
      · rcases mem_cons.1 hj with rfl | hj
        · exact hself
        · exact hord.self j (mem_append_right _ hj)
  have hsplit : rest.reverse ++ n :: c.before = (rest.reverse ++ [n]) ++ c.before := by simp
  have huses : ∀ id, (c.insert o args).uses id =
      if isImmediate (rest.reverse ++ n :: c.before) (.inst id) = true then c.uses id
      else c.uses id + args.countP (isRef id) := by
    intro id
    rw [hsplit]
    exact foldl_use_append (fun id hid k hk => hlater k hk id hid) id
  have himm : ∀ id, isImmediate (rest.reverse ++ c.before) (.inst id) = true →
      isImmediate (rest.reverse ++ n :: c.before) (.inst id) = true := by
    intro id hid
    obtain ⟨k, hk⟩ := isSome_iff_exists.1 hid
    refine isSome_iff_exists.2 ⟨k, resolve_change (fun w k' hw => ?_) hk⟩
    by_cases hwn : w = .inst n.id
    · rw [hwn, resolve_of_notMem fun j hj => (hfresh j (mem_append_right _ hj)).1] at hw
      simp at hw
    · rwa [resolve_cons_of_ne hwn]
  have hcounts' : CountsFor (rest.reverse ++ n :: c.before) [] (c.insert o args).uses := by
    refine hcounts.change ?_ himm ?_ ?_
    · intro j hj
      rcases mem_append.1 hj with hj | hj
      · exact Or.inl ⟨j, mem_append_left _ hj, rfl⟩
      · rcases mem_cons.1 hj with rfl | hj
        · refine Or.inr (refs_eq_zero fun k hk => ?_)
          rcases mem_append.1 hk with hk | hk
          · exact (hfresh k (mem_append_left _ hk)).2
          · rcases mem_cons.1 hk with rfl | hk
            · exact hself
            · exact (hfresh k (mem_append_right _ hk)).2
        · exact Or.inl ⟨j, mem_append_right _ hj, rfl⟩
    · intro j hj hnot hle
      rw [huses, if_neg (by simpa using hnot)]
      simp only [refs_append, refs_cons, hn] at hle ⊢
      omega
    · intro j hj himm' hpos
      rw [huses, if_pos himm']
      refine ⟨?_, Nat.le_refl _⟩
      simp only [refs_append, refs_cons, hn] at hpos ⊢
      by_cases hjn : Refers n j.id
      · have hbefore : resolve (rest.reverse ++ n :: c.before) (.inst j.id) = resolve c.before (.inst j.id) := by
          rw [hsplit]
          refine resolve_append fun k hk hvk => hlater k hk _ hjn ?_
          simpa using hvk.symm
        have := hcounted _ hjn j.id rfl (by rw [isImmediate, ← hbefore]; exact himm')
        omega
      · have hzero : args.countP (isRef j.id) = 0 := by
          rw [refers_iff] at hjn
          simpa [hn] using hjn
        omega
  refine ⟨hord', hcounts', fun j hj => ?_⟩
  have hj' : j ∈ rest.reverse ++ n :: c.before := hj
  have hstep : ∀ k ∈ rest.reverse ++ c.before, k.id < c.fresh + 1 ∧ ∀ id, Refers k id → id < c.fresh + 1 := fun k hk =>
    ⟨Nat.lt_succ_of_lt (hbound k hk).1, fun id hid => Nat.lt_succ_of_lt ((hbound k hk).2 id hid)⟩
  rcases mem_append.1 hj' with hj | hj
  · exact hstep j (mem_append_left _ hj)
  · rcases mem_cons.1 hj with rfl | hj
    · exact ⟨Nat.lt_succ_self _, fun id hid => Nat.lt_succ_of_lt (hrefers id hid).1⟩
    · exact hstep j (mem_append_right _ hj)

lemma invalidate_eq (hord : Ordered c.before) (hsplit : c.before = A ++ d :: B) : c.invalidate d.id =
      ⟨A ++ voidInst d :: B, clearArgs c.before c.uses d.args, c.fresh⟩ := by
  have hpair := pairwise_append.1 (hsplit ▸ hord.later)
  have hA : ∀ i ∈ A, i.id ≠ d.id := fun i hi => (hpair.2.2 i hi d mem_cons_self).1
  have hB : ∀ i ∈ B, i.id ≠ d.id := fun i hi => ((pairwise_cons.1 hpair.2.1).1 i hi).1.symm
  have hfind : c.before.find? (·.id = d.id) = some d := by
    rw [hsplit, find?_append, find?_eq_none.2 (by simpa using hA)]
    simp
  have hmap : ∀ l : List (Inst Op K), (∀ i ∈ l, i.id ≠ d.id) →
      l.map (fun i => if i.id = d.id then voidInst i else i) = l := by
    intro l hl
    conv_rhs => rw [← map_id l]
    exact map_congr_left fun i hi => if_neg (hl i hi)
  simp only [invalidate, hfind]
  rw [hsplit, map_append, map_cons, hmap A hA, hmap B hB, if_pos rfl]

/-- An instruction is removed and gives its uses back. -/
lemma Wf.invalidate (h : c.Wf rest) (hsplit : c.before = A ++ d :: B) (hcode : d.code ≠ .identity) :
    (c.invalidate d.id).Wf rest := by
  obtain ⟨hord, hcounts, hbound⟩ := h
  have hpair := pairwise_append.1 hord.later
  rw [invalidate_eq ⟨hpair.2.1, fun i hi => hord.self i (mem_append_right _ hi)⟩ hsplit]
  have hL : rest.reverse ++ c.before = (rest.reverse ++ A) ++ d :: B := by simp [hsplit]
  have hL' : rest.reverse ++ (A ++ voidInst d :: B) = (rest.reverse ++ A) ++ voidInst d :: B := by simp
  have hd : d ∈ c.before := by simp [hsplit]
  have huses : ∀ id, clearArgs c.before c.uses d.args id =
      if isImmediate (rest.reverse ++ c.before) (.inst id) = true then c.uses id
      else c.uses id - d.args.countP (isRef id) := by
    refine clearArgs_append fun id hid k hk => ?_
    rintro rfl
    exact (hpair.2.2 k hk d hd).2 hid
  rw [hL] at hord hcounts hbound huses
  have himm : ∀ id, isImmediate ((rest.reverse ++ A) ++ d :: B) (.inst id) =
      isImmediate ((rest.reverse ++ A) ++ voidInst d :: B) (.inst id) := by
    intro id
    rw [Bool.eq_iff_iff]
    exact ⟨isImmediate_change hcode (show (voidInst d).id = d.id from rfl),
      isImmediate_change (by simp [voidInst]) (show d.id = (voidInst d).id from rfl)⟩
  refine ⟨?_, ?_, fun j hj => ?_⟩
  · simp only [hL']
    exact ordered_change hord rfl fun id hid => by simp [voidInst, Refers] at hid
  · simp only [hL']
    refine hcounts.change ?_ (fun id hid => by rwa [← himm]) ?_ ?_
    · intro j hj
      refine Or.inl ?_
      rcases mem_append.1 hj with hj | hj
      · exact ⟨j, mem_append_left _ hj, rfl⟩
      · rcases mem_cons.1 hj with rfl | hj
        · exact ⟨d, by simp, rfl⟩
        · exact ⟨j, by simp [hj], rfl⟩
    · intro j hj hnot hle
      rw [huses, himm, if_neg (by simpa using hnot)]
      simp only [refs_append, refs_cons, voidInst, countP_nil] at hle ⊢
      omega
    · intro j hj himm' hpos
      rw [huses, himm, if_pos himm']
      simp only [refs_append, refs_cons, voidInst, countP_nil] at hpos ⊢
      omega
  · simp only [hL'] at hj
    rcases mem_append.1 hj with hj | hj
    · exact hbound j (mem_append_left _ hj)
    · rcases mem_cons.1 hj with rfl | hj
      · exact ⟨(hbound d (by simp)).1, fun id hid => by simp [voidInst, Refers] at hid⟩
      · exact hbound j (mem_append_right _ (mem_cons_of_mem _ hj))

lemma erase_eq (hord : Ordered c.before)
    (hsplit : c.before = A ++ d :: B) : c.erase d.id = ⟨A ++ B, c.uses, c.fresh⟩ := by
  have hpair := pairwise_append.1 (hsplit ▸ hord.later)
  have hA : ∀ i ∈ A, i.id ≠ d.id := fun i hi => (hpair.2.2 i hi d mem_cons_self).1
  have hB : ∀ i ∈ B, i.id ≠ d.id := fun i hi => ((pairwise_cons.1 hpair.2.1).1 i hi).1.symm
  have hfilter : ∀ l : List (Inst Op K), (∀ i ∈ l, i.id ≠ d.id) → l.filter (·.id ≠ d.id) = l :=
    fun l hl => filter_eq_self.2 fun i hi => by simpa using hl i hi
  rw [erase, hsplit, filter_append, filter_cons_of_neg (by simp), hfilter A hA, hfilter B hB]

/-- An instruction that does nothing is taken out. -/
lemma Wf.erase (h : c.Wf rest) (hsplit : c.before = A ++ voidInst d :: B) : (c.erase d.id).Wf rest := by
  obtain ⟨hord, hcounts, hbound⟩ := h
  have hpair := pairwise_append.1 hord.later
  have herase := erase_eq (c := c) ⟨hpair.2.1, fun i hi => hord.self i (mem_append_right _ hi)⟩ hsplit
  rw [show (voidInst d).id = d.id from rfl] at herase
  rw [herase]
  have hsub : ∀ j ∈ rest.reverse ++ (A ++ B), j ∈ rest.reverse ++ c.before := by
    intro j hj
    rw [hsplit]
    simp only [mem_append, mem_cons] at hj ⊢
    tauto
  have hrefs : ∀ id, refs (rest.reverse ++ (A ++ B)) id = refs (rest.reverse ++ c.before) id := by
    intro id
    simp [hsplit, voidInst]
  refine ⟨⟨hord.later.sublist ?_, fun j hj => hord.self j (hsub j hj)⟩, ?_,
    fun j hj => hbound j (hsub j hj)⟩
  · rw [hsplit]
    exact List.Sublist.append_left (List.Sublist.append_left (sublist_cons_self _ _) _) _
  · refine hcounts.change (fun j hj => Or.inl ⟨j, hsub j hj, rfl⟩) (fun id hid => ?_) ?_ ?_
    · obtain ⟨k, hk⟩ := isSome_iff_exists.1 hid
      refine isSome_iff_exists.2 ⟨k, ?_⟩
      rw [hsplit, ← append_assoc] at hk
      rw [← append_assoc]
      refine resolve_change (fun w k' hw => ?_) hk
      by_cases hwd : w = .inst (voidInst d).id
      · rw [hwd, resolve_cons_of_code (by simp [voidInst])] at hw
        simp at hw
      · rwa [resolve_cons_of_ne hwd] at hw
    · intro j hj hnot hle
      rwa [hrefs]
    · intro j hj himm hpos
      rw [← hrefs]
      exact ⟨hpos, Nat.le_refl _⟩

lemma Wf.ordered_before (h : c.Wf rest) : Ordered c.before :=
  ⟨(pairwise_append.1 h.ordered.later).2.1,
    fun i hi => h.ordered.self i (mem_append_right _ hi)⟩

end Cursor

/-- **`IR::Block`**: instructions in single assignment form, with use counts that are enough. -/
structure Block (Op K : Type*) where
  insts : List (Inst Op K)
  uses : ℕ → ℕ
  fresh : ℕ
  ssa : Ssa insts.reverse
  counts : CountsFor insts.reverse [] uses
  bound : ∀ i ∈ insts, i.id < fresh

namespace Block

def start (b : Block Op K) : Cursor Op K := ⟨[], b.uses, b.fresh⟩

/-- A block with exact counts. -/
def ofInsts (insts : List (Inst Op K)) (fresh : ℕ) (ssa : Ssa insts.reverse)
    (bound : ∀ i ∈ insts, i.id < fresh) : Block Op K where
  insts := insts
  uses := refs insts.reverse
  fresh := fresh
  ssa := ssa
  counts := ⟨fun _ _ _ => Nat.le_refl _, fun _ _ hpos => hpos⟩
  bound := bound

lemma refers_lt (b : Block Op K) {i : Inst Op K} (hi : i ∈ b.insts) {id : ℕ} (h : Refers i id) : id < b.fresh := by
  obtain ⟨j, hj, rfl⟩ := b.ssa.ordered.2 i (mem_reverse.2 hi) id h
  exact b.bound j (mem_reverse.1 hj)

lemma start_wf (b : Block Op K) : b.start.Wf b.insts := by
  refine ⟨?_, ?_, fun i hi => ?_⟩
  · simpa [start] using b.ssa.ordered.1
  · simpa [start] using b.counts
  · have hi' : i ∈ b.insts := by simpa [start] using hi
    exact ⟨b.bound i hi', fun id hid => b.refers_lt hi' hid⟩

end Block

/-! ## Effects that are not noticed -/

variable {M : Machine Op K S R}

/-- The instruction `d` has been executed, and no later instruction notices its effect, which is one of
`F`. -/
def Pending (M : Machine Op K S R) (F : (S → S) → Prop) (d : Inst Op K) : List (Inst Op K) → Prop
  | [] => False
  | i :: before => i = d ∨ (∀ f, F f → M.Ignores f i) ∧ Pending M F d before

lemma Pending.split (h : Pending M F d l) : ∃ A B, l = A ++ d :: B ∧ ∀ i ∈ A, ∀ f, F f → M.Ignores f i := by
  induction l with
  | nil => exact h.elim
  | cons i l ih =>
    rcases h with rfl | ⟨hi, h⟩
    · exact ⟨[], l, rfl, by simp⟩
    · obtain ⟨A, B, rfl, hA⟩ := ih h
      exact ⟨i :: A, B, rfl, forall_mem_cons.2 ⟨hi, hA⟩⟩

/-- An instruction that is removed elsewhere does not matter. -/
lemma Pending.remove {d e : Inst Op K} {C : List (Inst Op K)} (h : Pending M F d (A ++ e :: B)) (hne : e ≠ d)
    (hC : Pending M F d B → Pending M F d (C ++ B)) : Pending M F d (A ++ (C ++ B)) := by
  induction A with
  | nil =>
    rcases h with rfl | ⟨-, h⟩
    · exact absurd rfl hne
    · exact hC h
  | cons a A ih =>
    rcases h with rfl | ⟨ha, h⟩
    · exact Or.inl rfl
    · exact Or.inr ⟨ha, ih h⟩

/-- **The state without an effect that was not noticed**: the effect can be made up for at the end. -/
lemma Pending.exec_remove (hA : ∀ i ∈ A, ∀ f, F f → M.Ignores f i)
    (hd : ∀ s env st, M.execInst d (s, env) = some st → ∃ f, F f ∧ st = (f s, env)) {s : S}
    (h : M.exec (A ++ d :: B).reverse st = some (s, env)) :
    ∃ f s', F f ∧ s = f s' ∧ M.exec (A ++ B).reverse st = some (s', env) := by
  have hrev : (A ++ d :: B).reverse = (B.reverse ++ [d]) ++ A.reverse := by simp
  rw [hrev, exec_append_eq_some] at h
  obtain ⟨⟨s2, env2⟩, hBd, hexecA⟩ := h
  rw [exec_concat_eq_some] at hBd
  obtain ⟨⟨s1, env1⟩, hexecB, hexecd⟩ := hBd
  obtain ⟨f, hf, hst⟩ := hd _ _ _ hexecd
  obtain ⟨rfl, rfl⟩ := Prod.mk.inj hst
  rw [exec_comm (fun i hi => hA i (mem_reverse.1 hi) f hf), map_eq_some_iff] at hexecA
  obtain ⟨⟨s', env'⟩, hexecA, hres⟩ := hexecA
  obtain ⟨rfl, rfl⟩ := Prod.mk.inj hres
  refine ⟨f, s', hf, rfl, ?_⟩
  rw [reverse_append, exec_append_eq_some]
  exact ⟨_, hexecB, hexecA⟩

lemma exec_void : M.exec (A ++ voidInst d :: B).reverse st = M.exec (A ++ B).reverse st := by
  have hrev : (A ++ voidInst d :: B).reverse = B.reverse ++ ([voidInst d] ++ A.reverse) := by simp
  rw [hrev, reverse_append, exec_append, exec_append]
  rfl

end Voltemu.Dynarmic
