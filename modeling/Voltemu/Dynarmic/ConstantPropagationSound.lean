import Voltemu.Dynarmic.ConstantPropagationFolds

/-!
# What `ConstantPropagation` preserves

The rewritten block is compared with the original one instruction by instruction.

* `Sim` — both blocks in the middle of the walk: the same values, the same for the pseudo-operations to come,
  and a replaced `GetCarryFromOp` copies the carry;
* `Sim.next` — one step of the walk;
* `constantPropagation_iff` — the block keeps all its values exactly if no step drops a carry that is set or
  divides the least signed number by all ones without sign.
-/

namespace Voltemu.Dynarmic.Folding

open Voltemu.Lib Machine Function List Option

variable {O α σ : Type*} {sem : OtherOps O α σ}

/-! ## Two blocks side by side -/

def extraOf (r : Option (Result α (Extra α))) (p : Pseudo) : Option (Val α) :=
  (r.bind (·.extra)).bind (· p)

/-- An instruction to come is as it was, or copies the carry that it asks for. -/
def Replaced (env env' : ℕ → Option (Result α (Extra α))) (j0 j : Inst (Op O) (Val α)) : Prop :=
  j = j0 ∨ ∃ v b, j = replaceUsesWith j0 v ∧ valOf env' v = some (.u1 b) ∧
    ∃ id, isAssociated .carry id j0 = true ∧ extraOf (env id) .carry = some (.u1 b)

/-- **The original block**, with `orig` to come, **and the rewritten one.** -/
structure Sim (sem : OtherOps O α σ) (s₀ : σ) (orig : List (Inst (Op O) (Val α))) (st : PassState O α)
    (s : σ) (env env' : ℕ → Option (Result α (Extra α))) : Prop where
  ordered : Ordered (st.rest.reverse ++ st.before)
  run : (machine sem).exec st.before.reverse (s₀, fun _ => none) = some (s, env')
  vals : ∀ id, (env' id).map (·.val) = (env id).map (·.val)
  pseudo : ∀ j ∈ st.rest, ∀ p id, isAssociated p id j = true → extraOf (env' id) p = extraOf (env id) p
  rest : List.Forall₂ (Replaced env env') orig st.rest
  oneCarry : OneCarry st.rest

section Replaced

variable {env env' : ℕ → Option (Result α (Extra α))} {j0 j : Inst (Op O) (Val α)}

lemma Replaced.id_eq (h : Replaced env env' j0 j) : j.id = j0.id := by
  rcases h with rfl | ⟨v, b, rfl, -⟩ <;> rfl

lemma isAssociated_replaceUsesWith (p : Pseudo) (id : ℕ) (i : Inst (Op O) (Val α)) (v : Value (Val α)) :
    isAssociated p id (replaceUsesWith i v) = false := rfl

lemma Replaced.eq_of_isAssociated (h : Replaced env env' j0 j) {p : Pseudo} {id : ℕ}
    (hj : isAssociated p id j = true) : j = j0 := by
  rcases h with rfl | ⟨v, b, rfl, -⟩
  · rfl
  · simp [isAssociated_replaceUsesWith] at hj

/-- What is still an operation is as it was. -/
lemma Replaced.eq_of_code (h : Replaced env env' j0 j) {op : Op O} (hcode : j.code = .op op) : j = j0 := by
  rcases h with rfl | ⟨v, b, rfl, -⟩
  · rfl
  · simp [replaceUsesWith] at hcode

lemma Replaced.mono {env1 env1' : ℕ → Option (Result α (Extra α))} (h : Replaced env env' j0 j)
    (henv : ∀ id r, env id = some r → env1 id = some r)
    (henv' : ∀ id r, env' id = some r → env1' id = some r) : Replaced env1 env1' j0 j := by
  rcases h with rfl | ⟨v, b, rfl, hv, id, hid, hextra⟩
  · exact .inl rfl
  · refine .inr ⟨v, b, rfl, ?_, id, hid, ?_⟩
    · cases v with
      | imm k => exact hv
      | inst id' =>
        obtain ⟨r, hr, hval⟩ := map_eq_some_iff.1 hv
        exact map_eq_some_iff.2 ⟨r, henv' id' r hr, hval⟩
    · cases hr : env id with
      | none => simp [extraOf, hr] at hextra
      | some r => rwa [henv id r hr, ← hr]

end Replaced

variable {v : Value (Val α)} {p : Pseudo} {id : ℕ}

variable {env : ℕ → Option (Result α (Extra α))} {rest : List (Inst (Op O) (Val α))}

lemma forall₂_replaceAssociated {env1 env' env1' : ℕ → Option (Result α (Extra α))}
    {orig : List (Inst (Op O) (Val α))} (h : List.Forall₂ (Replaced env env') orig rest)
    (hmono : ∀ j0 j : Inst (Op O) (Val α), Replaced env env' j0 j → Replaced env1 env1' j0 j)
    {b : Bool} (hv : valOf env1' v = some (.u1 b)) (hb : extraOf (env1 id) .carry = some (.u1 b)) :
    List.Forall₂ (Replaced env1 env1') orig (replaceAssociated .carry id v rest) := by
  induction h with
  | nil => exact .nil
  | @cons j0 j orig rest hj hrest ih =>
    unfold replaceAssociated
    split_ifs with hassoc
    · obtain rfl := hj.eq_of_isAssociated hassoc
      exact .cons (.inr ⟨v, b, rfl, hv, id, hassoc, hb⟩) (hrest.imp hmono)
    · exact .cons (hmono _ _ hj) ih

variable {j i : Inst (Op O) (Val α)}

lemma mem_replaceAssociated {p p' : Pseudo} {id id' : ℕ}
    (hj : j ∈ replaceAssociated p id v rest) (hassoc : isAssociated p' id' j = true) : j ∈ rest := by
  induction rest with
  | nil => simp [replaceAssociated] at hj
  | cons k rest ih =>
    unfold replaceAssociated at hj
    split_ifs at hj
    · rcases mem_cons.1 hj with rfl | hj
      · simp [isAssociated_replaceUsesWith] at hassoc
      · exact mem_cons_of_mem _ hj
    · rcases mem_cons.1 hj with rfl | hj
      · exact mem_cons_self
      · exact mem_cons_of_mem _ (ih hj)

lemma OneCarry.replaceAssociated (h : OneCarry rest) (p : Pseudo)
    (id : ℕ) (v : Value (Val α)) : OneCarry (replaceAssociated p id v rest) := by
  induction rest with
  | nil => exact List.Pairwise.nil
  | cons j rest ih =>
    obtain ⟨hj, hrest⟩ := pairwise_cons.1 h
    unfold Folding.replaceAssociated
    split_ifs with hassoc
    · exact pairwise_cons.2 ⟨fun k _ id' hid => by
        simp [isAssociated_replaceUsesWith] at hid, hrest⟩
    · refine pairwise_cons.2 ⟨fun k hk id' hid => ?_, ih hrest⟩
      by_contra hk'
      have hk' : isAssociated .carry id' k = true := by simpa using hk'
      have := hj k (mem_replaceAssociated hk hk') id' hid
      simp [this] at hk'

/-- The arguments of what is replaced are earlier. -/
lemma ordered_replaceAssociated {L : List (Inst (Op O) (Val α))} (h : Ordered (rest.reverse ++ L)) (hv : ∀ id', v = .inst id' → ∀ k ∈ rest, k.id ≠ id') :
    Ordered ((replaceAssociated p id v rest).reverse ++ L) := by
  induction rest generalizing L with
  | nil => exact h
  | cons j rest ih =>
    have hlist : (j :: rest).reverse ++ L = rest.reverse ++ j :: L := by simp
    rw [hlist] at h
    unfold replaceAssociated
    split_ifs with hassoc
    · have hord : Ordered (rest.reverse ++ replaceUsesWith j v :: L) := by
        refine Cursor.ordered_change h rfl fun id' hid' k hk => ?_
        have hvid : v = .inst id' := by simpa [replaceUsesWith, Refers, eq_comm] using hid'
        refine hv id' hvid k ?_
        simpa [or_comm] using hk
      simpa using hord
    · have hord := ih h fun id' hid' k hk => hv id' hid' k (mem_cons_of_mem _ hk)
      simpa using hord

namespace Sim

variable {s₀ s s1 : σ} {orig : List (Inst (Op O) (Val α))} {st : PassState O α}
  {env env' : ℕ → Option (Result α (Extra α))} {i0 : Inst (Op O) (Val α)} {before rest : List (Inst (Op O) (Val α))}

section

variable (h : Sim sem s₀ orig st s env env')
include h

lemma ne_of_bound {id : ℕ} {r : Result α (Extra α)}
    (hr : env' id = some r) {k : Inst (Op O) (Val α)} (hk : k ∈ st.rest) : k.id ≠ id := by
  rintro rfl
  have hunbound : env' k.id = (fun _ => none : ℕ → Option (Result α (Extra α))) k.id := by
    refine exec_env_of_notMem (fun j hj => ?_) h.run
    have hpair := (pairwise_append.1 h.ordered.later).2.2 k (mem_reverse.2 hk) j (mem_reverse.1 hj)
    exact hpair.1.symm
  simp [hunbound] at hr

lemma isSome_iff (id : ℕ) : (env' id).isSome = (env id).isSome := by
  have := congrArg Option.isSome (h.vals id)
  simpa using this

lemma ran : Ran sem st.before env' where
  ordered := ⟨(pairwise_append.1 h.ordered.later).2.1,
    fun j hj => h.ordered.self j (mem_append_right _ hj)⟩
  exec := ⟨_, _, h.run⟩

end

/-- **The step of both blocks**, with `i'` in the place of the current instruction. -/
lemma advance (h : Sim sem s₀ (i0 :: orig) ⟨before, i :: rest⟩ s env env') {i' : Inst (Op O) (Val α)}
    {rest' : List (Inst (Op O) (Val α))} {res res' : Option (Result α (Extra α))} (hid : i'.id = i.id)
    (hrefs : ∀ id, Refers i' id → Refers i id ∨ ∃ j ∈ before, Refers j id)
    (hres' : (machine sem).result i' s env' = some (res', s1))
    (hval : res'.map (·.val) = res.map (·.val))
    (hextra : ∀ j ∈ rest', ∀ p, isAssociated p i.id j = true → extraOf res' p = extraOf res p)
    (hrest : rest' = rest ∨ ∃ v b, rest' = replaceAssociated .carry i.id v rest ∧
      valOf env' v = some (.u1 b) ∧ extraOf res .carry = some (.u1 b) ∧ ∀ id, v = .inst id → Refers i id) :
    Sim sem s₀ orig ⟨i' :: before, rest'⟩ s1 (bindResult env i.id res) (bindResult env' i.id res') := by
  have hunbound' : env' i.id = none := by
    cases hr : env' i.id with
    | none => rfl
    | some r => exact absurd rfl (h.ne_of_bound hr mem_cons_self)
  have hunbound : env i.id = none := by
    have := h.isSome_iff i.id
    simpa [hunbound'] using this
  have hself' : bindResult env' i.id res' i.id = res' := by
    cases res' with
    | none => exact hunbound'
    | some r => exact update_self _ _ _
  have hself : bindResult env i.id res i.id = res := by
    cases res with
    | none => exact hunbound
    | some r => exact update_self _ _ _
  have hmono (j0 j : Inst (Op O) (Val α)) (hj : Replaced env env' j0 j) :
      Replaced (bindResult env i.id res) (bindResult env' i.id res') j0 j := by
    refine hj.mono (fun id r hr => ?_) fun id r hr => ?_
    · rw [bindResult_of_ne (fun hid' : id = i.id => by simp [hid', hunbound] at hr), hr]
    · rw [bindResult_of_ne (fun hid' : id = i.id => by simp [hid', hunbound'] at hr), hr]
  have htail := (forall₂_cons.1 h.rest).2
  have hlist : (i :: rest).reverse ++ before = rest.reverse ++ i :: before := by simp
  have hord : Ordered (rest.reverse ++ i :: before) := hlist ▸ h.ordered
  have hpairs := pairwise_append.1 (show List.Pairwise _ ((rest.reverse ++ [i]) ++ before) by
    simpa using h.ordered.later)
  have hlater (id : ℕ) (hid' : Refers i id) (k : Inst (Op O) (Val α)) (hk : k ∈ rest) : k.id ≠ id := by
    rintro rfl
    exact ((pairwise_append.1 hord.later).2.2 k (mem_reverse.2 hk) i mem_cons_self).2 hid'
  have hord' : Ordered (rest.reverse ++ i' :: before) := by
    refine Cursor.ordered_change hord hid fun id hid' k hk => ?_
    rcases hrefs id hid' with hi | ⟨j, hj, hji⟩
    · rcases mem_append.1 hk with hk | hk
      · exact hlater id hi k (mem_reverse.1 hk)
      · rintro rfl
        obtain rfl : k = i := by simpa using hk
        exact hord.self k (by simp) hi
    · rintro rfl
      exact (hpairs.2.2 k hk j hj).2 hji
  have hmem (j : Inst (Op O) (Val α)) (hj : j ∈ rest') (p : Pseudo) (id : ℕ)
      (hassoc : isAssociated p id j = true) : j ∈ rest := by
    rcases hrest with rfl | ⟨v, b, rfl, -⟩
    · exact hj
    · exact mem_replaceAssociated hj hassoc
  refine ⟨?_, ?_, fun id => ?_, fun j hj p id hassoc => ?_, ?_, ?_⟩
  · rcases hrest with rfl | ⟨v, b, rfl, -, -, hv⟩
    · exact hord'
    · exact ordered_replaceAssociated hord' fun id hid' k hk => hlater id (hv id hid') k hk
  · rw [reverse_cons, exec_concat_eq_some]
    exact ⟨_, h.run, execInst_eq_some.2 ⟨res', hres', by rw [hid]⟩⟩
  · by_cases hid' : id = i.id
    · rw [hid', hself', hself, hval]
    · rw [bindResult_of_ne hid', bindResult_of_ne hid', h.vals]
  · by_cases hid' : id = i.id
    · subst hid'
      rw [hself', hself]
      exact hextra j hj p hassoc
    · rw [bindResult_of_ne hid', bindResult_of_ne hid']
      exact h.pseudo j (mem_cons_of_mem _ (hmem j hj p id hassoc)) p id hassoc
  · rcases hrest with rfl | ⟨v, b, rfl, hv, hb, hvrefs⟩
    · exact htail.imp hmono
    · refine forall₂_replaceAssociated htail hmono ?_ (by rw [hself]; exact hb)
      cases v with
      | imm k => exact hv
      | inst id =>
        have hne : id ≠ i.id := fun heq => hord.self i (by simp) (heq ▸ hvrefs id rfl)
        simp only [valOf] at hv ⊢
        rw [bindResult_of_ne hne, hv]
  · rcases hrest with rfl | ⟨v, b, rfl, -⟩
    · exact (pairwise_cons.1 h.oneCarry).2
    · exact OneCarry.replaceAssociated (pairwise_cons.1 h.oneCarry).2 _ _ _

end Sim

/-! ## One step of the walk -/

lemma isAssociated_iff : isAssociated p id j = true ↔ j.code = .op (.pseudo p) ∧ hasArg id j = true := by
  unfold isAssociated
  split
  next q hcode => simp [hcode]
  next hcode =>
    simp only [Bool.false_eq_true, false_iff, not_and]
    exact fun h => absurd h (hcode p)

lemma result_pseudo {s s1 : σ}
    {res : Option (Result α (Extra α))}
    (hcode : i.code = .op (.pseudo p)) (h : (machine sem).result i s env = some (res, s1)) :
    ∃ id v, i.args = [.inst id] ∧ extraOf (env id) p = some v ∧ res = some ⟨v, none⟩ ∧ s1 = s := by
  simp only [result, hcode, bind_eq_some_iff] at h
  obtain ⟨rs, hrs, hstep⟩ := h
  obtain ⟨v, hv, hq⟩ := map_eq_some_iff.1 hstep
  obtain ⟨rfl, rfl⟩ := Prod.mk.inj hq
  unfold getExtra at hv
  split at hv
  next r =>
    obtain ⟨w, hargs, hw⟩ := mapM_eval_eq_singleton.1 hrs
    cases w with
    | imm k =>
      obtain rfl : _ = r := Option.some.inj hw
      simp [machine] at hv
    | inst id =>
      refine ⟨id, v, hargs, ?_, rfl, rfl⟩
      change env id = some r at hw
      rw [extraOf, hw]
      exact hv
  next => simp at hv

lemma result_pseudo_intro {s : σ}
    {v : Val α} (hcode : i.code = .op (.pseudo p))
    (hargs : i.args = [.inst id]) (hv : extraOf (env id) p = some v) :
    (machine sem).result i s env = some (some ⟨v, none⟩, s) := by
  obtain ⟨e, he, hp⟩ := bind_eq_some_iff.1 hv
  obtain ⟨r, hr, hre⟩ := bind_eq_some_iff.1 he
  have hmap : i.args.mapM ((machine sem).eval env) = some [r] :=
    mapM_eval_eq_singleton.2 ⟨_, hargs, hr⟩
  simp only [result, hcode, hmap, bind_some]
  change (getExtra p [r]).map _ = _
  simp [getExtra, hre, hp]

/-- **The condition at a step**: an unsigned division is not that of the least signed number by all ones, and
a carry that is dropped is not set. -/
def Exact [DecidableEq O] (env : ℕ → Option (Result α (Extra α))) (st : PassState O α) : Prop :=
  ∀ i rest, st.rest = i :: rest → dividesMinimumByOnes st.before i = false ∧
    ∀ v, droppedCarry st.before i rest = some v → valOf env v = some (.u1 false)

section Next

variable [DecidableEq O] {s₀ s s1 : σ} {orig : List (Inst (Op O) (Val α))} {st : PassState O α}
  {env env' env1 : ℕ → Option (Result α (Extra α))} {i0 : Inst (Op O) (Val α)} {before rest : List (Inst (Op O)
  (Val α))}

variable {res : Option (Result α (Extra α))}

lemma Sim.keep (h : Sim sem s₀ (i0 :: orig) ⟨before, i :: rest⟩ s env env')
    {res' : Option (Result α (Extra α))} (hvisit : visit before i rest = (i, rest))
    (hres' : (machine sem).result i s env' = some (res', s1)) (hval : res'.map (·.val) = res.map (·.val))
    (hextra : ∀ p, extraOf res' p = extraOf res p) :
    ∃ env1', Sim sem s₀ orig (PassState.next ⟨before, i :: rest⟩) s1 (bindResult env i.id res) env1' := by
  have hnext : PassState.next ⟨before, i :: rest⟩ = ⟨i :: before, rest⟩ := by
    simp only [PassState.next, hvisit]
  rw [hnext]
  exact ⟨_, h.advance rfl (fun id hid => .inl hid) hres' hval (fun j _ p _ => hextra p) (.inl rfl)⟩

lemma droppedCarry_mem {v : Value (Val α)} (h : droppedCarry before i rest = some v) : v ∈ i.args := by
  unfold droppedCarry at h
  split at h
  next w lhs rhs carry _ hargs =>
    split_ifs at h
    obtain ⟨q, -, hq⟩ := bind_eq_some_iff.1 h
    split_ifs at hq
    obtain rfl : carry = v := Option.some.inj hq
    simp [hargs]
  next => simp at h

/-- An operation that has not been replaced before. -/
lemma Sim.next_op {op : Op O} (h : Sim sem s₀ (i :: orig) ⟨before, i :: rest⟩ s env env')
    (hexact : Exact env ⟨before, i :: rest⟩) (hcode : i.code = .op op)
    (hres : (machine sem).result i s env = some (res, s1)) :
    ∃ env1', Sim sem s₀ orig (PassState.next ⟨before, i :: rest⟩) s1 (bindResult env i.id res) env1' := by
  have hvals : valOf env' = valOf env := funext (valOf_congr h.vals)
  by_cases hop : op.isKnown = true
  · obtain ⟨ks, q, hargs, hq, rfl, rfl⟩ := result_known hcode hop hres
    rw [← hvals] at hargs
    obtain ⟨hdiv, hadd⟩ := hexact i rest rfl
    have hvisited := Visited.visit h.ran (pairwise_cons.1 h.oneCarry).2 hcode hop hargs hq hdiv
      fun v hv => by rw [hvals]; exact hadd v hv
    obtain ⟨r, hyields, hval, hextra⟩ := hvisited.yields
    refine ⟨_, h.advance hvisited.id hvisited.refs (hyields s1) (congrArg some hval) hextra ?_⟩
    exact hvisited.rest
  · have hvisit : visit before i rest = (i, rest) := by
      unfold visit
      simp only [hcode]
      cases op with
      | pseudo p => rfl
      | other o => rfl
      | _ => simp [Op.isKnown] at hop
    cases op with
    | pseudo p =>
      obtain ⟨id, v, hargs, hv, rfl, rfl⟩ := result_pseudo hcode hres
      have hassoc : isAssociated p id i = true :=
        isAssociated_iff.2 ⟨hcode, by simp [hasArg, hargs]⟩
      rw [← h.pseudo i mem_cons_self p id hassoc] at hv
      exact h.keep hvisit (result_pseudo_intro hcode hargs hv) rfl fun p => rfl
    | other o =>
      simp only [result, hcode, bind_eq_some_iff] at hres
      obtain ⟨rs, hrs, hstep⟩ := hres
      have hvals' := mapM_valOf hrs
      rw [← hvals] at hvals'
      obtain ⟨rs', hrs', hsame⟩ := exists_of_mapM_valOf sem hvals'
      have hres' : (machine sem).result i s env' = some (res, s1) := by
        simp only [result, hcode, hrs', bind_some]
        change sem o (rs'.map (·.val)) s = _
        rw [hsame]
        exact hstep
      exact h.keep hvisit hres' rfl fun p => rfl
    | _ => simp [Op.isKnown] at hop

lemma Sim.next (h : Sim sem s₀ (i0 :: orig) st s env env') (hexact : Exact env st)
    (hexec : (machine sem).execInst i0 (s, env) = some (s1, env1)) :
    ∃ env1', Sim sem s₀ orig st.next s1 env1 env1' := by
  obtain ⟨before, rest⟩ := st
  obtain ⟨res, hres, henv1⟩ := execInst_eq_some.1 hexec
  simp only at hres henv1
  obtain ⟨i, rest, hi, -, rfl⟩ : ∃ i rest', Replaced env env' i0 i ∧
      List.Forall₂ (Replaced env env') orig rest' ∧ rest = i :: rest' := by
    obtain ⟨i, rest', hi, hrest, heq⟩ := forall₂_cons_left_iff.1 h.rest
    exact ⟨i, rest', hi, hrest, heq⟩
  obtain rfl : bindResult env i.id res = env1 := by rw [hi.id_eq]; exact henv1
  have hvals : valOf env' = valOf env := funext (valOf_congr h.vals)
  rcases hi with rfl | ⟨v, b, rfl, hv, id, hassoc, hb⟩
  · cases hcode : i.code with
    | void =>
      have hvisit : visit before i rest = (i, rest) := by simp only [visit, hcode]
      simp only [result, hcode, Option.some.injEq, Prod.mk.injEq] at hres
      obtain ⟨rfl, rfl⟩ := hres
      exact h.keep hvisit (by simp only [result, hcode]) rfl fun p => rfl
    | identity =>
      have hvisit : visit before i rest = (i, rest) := by simp only [visit, hcode]
      simp only [result, hcode, map_eq_some_iff, Prod.mk.injEq] at hres
      obtain ⟨r, hr, rfl, rfl⟩ := hres
      obtain ⟨w, hw, hr⟩ := bind_eq_some_iff.1 hr
      have hw' : valOf env' w = some r.val := by rw [hvals, ← map_eval sem, hr]; rfl
      rw [← map_eval sem, map_eq_some_iff] at hw'
      obtain ⟨r', hr', hval⟩ := hw'
      have hres' : (machine sem).result i s env' = some (some ((machine sem).strip r'), s) := by
        simp only [result, hcode, hw, bind_some, hr', map_some]
      exact h.keep hvisit hres' (congrArg some hval) fun p => rfl
    | op op => exact h.next_op hexact hcode hres
  · -- the carry has been replaced before
    obtain ⟨hcode, hid⟩ := isAssociated_iff.1 hassoc
    obtain ⟨id', w, hargs, hw, rfl, rfl⟩ := result_pseudo hcode hres
    obtain rfl : id' = id := by simpa [hasArg, hargs] using hid
    obtain rfl : .u1 b = w := Option.some.inj (hb.symm.trans hw)
    exact h.keep rfl (yields_replaceUsesWith hv _) rfl fun p => rfl

/-- Where the condition fails, the value is another one. -/
lemma Sim.miss (h : Sim sem s₀ (i0 :: orig) ⟨before, i :: rest⟩ s env env') (hmiss : ¬ Exact env ⟨before, i :: rest⟩)
    (hres : (machine sem).result i0 s env = some (res, s1)) :
    ∃ r r0, Yields sem env' (visit before i rest).1 r ∧ res = some r0 ∧ r.val ≠ r0.val := by
  have hvals : valOf env' = valOf env := funext (valOf_congr h.vals)
  have hcases : dividesMinimumByOnes before i = true ∨
      ∃ v, droppedCarry before i rest = some v ∧ valOf env v ≠ some (.u1 false) := by
    by_contra hnone
    refine hmiss fun i' rest' hrest => ?_
    obtain ⟨rfl, rfl⟩ : i = i' ∧ rest = rest' := by simpa using hrest
    refine ⟨?_, fun v hv => ?_⟩
    · by_contra hdiv
      exact hnone (.inl (by simpa using hdiv))
    · by_contra hset
      exact hnone (.inr ⟨v, hv, hset⟩)
  have hi : Replaced env env' i0 i := (forall₂_cons.1 h.rest).1
  rcases hcases with hdiv | ⟨v, hv, hset⟩
  · obtain ⟨w, hcode⟩ : ∃ w, i.code = .op (.div false w) := by
      unfold dividesMinimumByOnes at hdiv
      split at hdiv
      next w _ _ hcode _ => exact ⟨w, hcode⟩
      next => simp at hdiv
    obtain rfl : i = i0 := hi.eq_of_code hcode
    obtain ⟨ks, q, hargs, hq, rfl, -⟩ := result_known hcode rfl hres
    rw [← hvals] at hargs
    obtain ⟨r, hr, hne⟩ := yields_foldDivide h.ran hcode hargs hq hdiv
    refine ⟨r, _, ?_, rfl, hne⟩
    have hvisit : visit before i rest = (foldDivide before i w false, rest) := by
      simp only [visit, hcode, mayGetNZCVFromOp, Bool.false_and, if_false, Bool.false_eq_true]
    rw [hvisit]
    exact hr
  · obtain ⟨w, hcode, hpseudo⟩ : ∃ w, i.code = .op (.add w) ∧ ¬ hasAssociatedPseudoOperation i.id rest = true := by
      unfold droppedCarry at hv
      split at hv
      next w _ _ _ hcode _ =>
        split_ifs at hv with hpseudo
        exact ⟨w, hcode, hpseudo⟩
      next => simp at hv
    obtain rfl : i = i0 := hi.eq_of_code hcode
    obtain ⟨ks, q, hargs, hq, rfl, -⟩ := result_known hcode rfl hres
    rw [← hvals] at hargs hset
    obtain ⟨r, hr, hne⟩ := yields_foldAdd h.ran hcode hargs hq hv hset
    refine ⟨r, _, ?_, rfl, hne⟩
    have hnzcv : getAssociatedPseudoOperation .nzcv i.id rest = false := by
      by_contra hassoc
      have hassoc : getAssociatedPseudoOperation .nzcv i.id rest = true := by simpa using hassoc
      obtain ⟨j, hj, hjp⟩ := any_eq_true.1 hassoc
      have := quiet_of_hasAssociatedPseudoOperation hpseudo (fun _ => some (.u1 true)) j hj _ hjp
      simp at this
    have hvisit : visit before i rest = (foldAdd before i rest w, rest) := by
      simp only [visit, hcode, hnzcv, Bool.and_false, if_false, Bool.false_eq_true]
    rw [hvisit]
    exact hr

end Next

/-! ## Names -/

section Names

variable {before rest : List (Inst (Op O) (Val α))} {w : Width}

lemma foldAll_id (f : List (Val α) → Option (Val α)) : (foldAll before i f).id = i.id := by
  unfold foldAll
  split <;> rfl

lemma foldRhs_id [DecidableEq O] (fn : BitVec 64 → BitVec 64 → BitVec 64)
    (f : Value (Val α) → Value (Val α) → Option (Value (Val α))) :
    (foldRhs before i w fn f).id = i.id := by
  have hcomm : (foldCommutative before i w fn).1.id = i.id := by
    unfold foldCommutative
    repeat' split
    all_goals rfl
  unfold foldRhs
  generalize foldCommutative before i w fn = q at hcomm
  obtain ⟨j, go⟩ := q
  dsimp only at hcomm ⊢
  split
  next lhs rhs _ =>
    split_ifs
    · cases f lhs rhs <;> exact hcomm
    · exact hcomm
  next => exact hcomm

lemma foldAdd_id [DecidableEq O] : (foldAdd before i rest w).id = i.id := by
  unfold foldAdd
  split
  · dsimp only
    repeat' split
    all_goals first | rfl | exact foldAll_id _
  · rfl

lemma foldDivide_id (signed : Bool) : (foldDivide before i w signed).id = i.id := by
  unfold foldDivide
  repeat' split
  all_goals rfl

lemma replaceAssociated_ids (p : Pseudo) (id : ℕ) (v : Value (Val α)) :
    (replaceAssociated p id v rest).map (·.id) = rest.map (·.id) := by
  induction rest with
  | nil => rfl
  | cons j rest ih =>
    unfold replaceAssociated
    split_ifs
    · rfl
    · rw [map_cons, map_cons, ih]

lemma foldShift_ids (k : Shift) : (foldShift before i rest k w).1.id = i.id ∧
    (foldShift before i rest k w).2.map (·.id) = rest.map (·.id) := by
  have hshifts : (foldShifts before i rest).1.id = i.id ∧
      (foldShifts before i rest).2.1.map (·.id) = rest.map (·.id) := by
    unfold foldShifts
    dsimp only
    split
    · split_ifs
      · exact ⟨rfl, replaceAssociated_ids _ _ _⟩
      · exact ⟨rfl, replaceAssociated_ids _ _ _⟩
      all_goals exact ⟨rfl, rfl⟩
    · split_ifs <;> exact ⟨rfl, rfl⟩
    · exact ⟨rfl, rfl⟩
  unfold foldShift
  generalize foldShifts before i rest = q at hshifts
  obtain ⟨j, rest', go⟩ := q
  dsimp only at hshifts ⊢
  split
  · split
    · exact hshifts
    · exact hshifts
  · exact hshifts

lemma visit_ids [DecidableEq O] (before rest : List (Inst (Op O) (Val α))) (i : Inst (Op O) (Val α)) :
    (visit before i rest).1.id = i.id ∧
    (visit before i rest).2.map (·.id) = rest.map (·.id) := by
  unfold visit
  split
  · split_ifs
    · exact ⟨rfl, rfl⟩
    split
    all_goals first
      | exact foldShift_ids _
      | exact ⟨rfl, rfl⟩
      | exact ⟨foldAll_id _, rfl⟩
      | exact ⟨foldRhs_id _ _, rfl⟩
      | exact ⟨foldAdd_id, rfl⟩
      | exact ⟨foldDivide_id _, rfl⟩
      | skip
    · unfold foldMostSignificantWord
      split
      · exact ⟨rfl, replaceAssociated_ids _ _ _⟩
      · exact ⟨rfl, rfl⟩
    · unfold foldSub
      split_ifs
      · exact ⟨rfl, rfl⟩
      · exact ⟨foldAll_id _, rfl⟩
  · exact ⟨rfl, rfl⟩
  · exact ⟨rfl, rfl⟩

/-- What the walk has passed stays, and what it adds has names that were to come. -/
lemma before_iterate [DecidableEq O] (n : ℕ) (st : PassState O α) :
    ∃ later, (PassState.next^[n] st).before = later ++ st.before ∧ ∀ j ∈ later, j.id ∈ st.rest.map (·.id) := by
  induction n generalizing st with
  | zero => exact ⟨[], rfl, by simp⟩
  | succ n ih =>
    obtain ⟨later, hlater, hids⟩ := ih st.next
    obtain ⟨before, rest⟩ := st
    rw [iterate_succ_apply]
    cases rest with
    | nil => exact ⟨later, hlater, hids⟩
    | cons i rest =>
      obtain ⟨hid, hrest⟩ := visit_ids before rest i
      refine ⟨later ++ [(visit before i rest).1], ?_, fun j hj => ?_⟩
      · rw [hlater, append_assoc]
        rfl
      · rcases mem_append.1 hj with hj | hj
        · have := hids j hj
          change j.id ∈ (visit before i rest).2.map (·.id) at this
          rw [hrest] at this
          exact mem_cons_of_mem _ this
        · obtain rfl : j = (visit before i rest).1 := by simpa using hj
          rw [hid]
          exact mem_cons_self

end Names

/-! ## The whole pass -/

section Pass

variable [DecidableEq O] {s₀ s t : σ} {orig : List (Inst (Op O) (Val α))} {st : PassState O α}
  {env env' envF : ℕ → Option (Result α (Extra α))}

variable {rest before : List (Inst (Op O) (Val α))}

omit [DecidableEq O] in
lemma ids_eq (h : List.Forall₂ (Replaced env env') orig rest) : orig.map (·.id) = rest.map (·.id) := by
  induction h with
  | nil => rfl
  | cons hj _ ih => rw [map_cons, map_cons, hj.id_eq, ih]

variable {r : Result α (Extra α)}

omit [DecidableEq O] in
lemma Sim.bound_stays (h : Sim sem s₀ orig st s env env')
    (hexec : (machine sem).exec orig (s, env) = some (t, envF)) {id : ℕ}
    (hr : env id = some r) : envF id = some r := by
  obtain ⟨r', hr'⟩ : ∃ r', env' id = some r' := by
    refine isSome_iff_exists.1 ?_
    rw [h.isSome_iff, hr]
    rfl
  have hne : ∀ j ∈ orig, j.id ≠ id := by
    intro j hj
    have hids : j.id ∈ st.rest.map (·.id) := by
      rw [← ids_eq h.rest]
      exact mem_map_of_mem hj
    obtain ⟨k, hk, hkj⟩ := mem_map.1 hids
    rw [← hkj]
    exact h.ne_of_bound hr' hk
  rw [exec_env_of_notMem hne hexec, hr]

/-- The condition can be read off at the end of the block. -/
lemma Sim.exact_iff {i0 : Inst (Op O) (Val α)} (h : Sim sem s₀ (i0 :: orig) st s env env')
    (hexec : (machine sem).exec (i0 :: orig) (s, env) = some (t, envF)) :
    Exact envF st ↔ Exact env st := by
  have hsame (i : Inst (Op O) (Val α)) (rest : List (Inst (Op O) (Val α))) (hrest : st.rest = i :: rest)
      (v : Value (Val α)) (hv : droppedCarry st.before i rest = some v) : valOf envF v = valOf env v := by
    obtain ⟨w, hcode⟩ : ∃ w, i.code = .op (.add w) := by
      unfold droppedCarry at hv
      split at hv
      next w _ _ _ hcode _ => exact ⟨w, hcode⟩
      next => simp at hv
    have hrests := h.rest
    rw [hrest] at hrests
    obtain rfl : i = i0 := (forall₂_cons.1 hrests).1.eq_of_code hcode
    obtain ⟨⟨s1, env1⟩, hi, -⟩ := exec_cons_eq_some.1 hexec
    obtain ⟨res, hres, -⟩ := execInst_eq_some.1 hi
    obtain ⟨ks, q, hargs, -⟩ := result_known hcode rfl hres
    obtain ⟨k, hk⟩ := exists_of_mem_mapM hargs (droppedCarry_mem hv)
    rw [hk]
    cases v with
    | imm l => exact hk
    | inst id =>
      obtain ⟨r, hr, hval⟩ := map_eq_some_iff.1 hk
      exact map_eq_some_iff.2 ⟨r, h.bound_stays hexec hr, hval⟩
  constructor
  · intro hexact i rest hrest
    exact ⟨(hexact i rest hrest).1, fun v hv => by
      rw [← hsame i rest hrest v hv]
      exact (hexact i rest hrest).2 v hv⟩
  · intro hexact i rest hrest
    exact ⟨(hexact i rest hrest).1, fun v hv => by
      rw [hsame i rest hrest v hv]
      exact (hexact i rest hrest).2 v hv⟩

/-- **All steps meet the condition: all values are kept.** -/
lemma Sim.run_rest (h : Sim sem s₀ orig st s env env') (hexec : (machine sem).exec orig (s, env) = some (t, envF))
    (hexact : ∀ n, Exact envF (PassState.next^[n] st)) :
    ∃ envF', Sim sem s₀ [] (PassState.next^[orig.length] st) t envF envF' := by
  induction orig generalizing st s env env' with
  | nil =>
    obtain ⟨rfl, rfl⟩ := Prod.mk.inj (Option.some.inj hexec)
    exact ⟨env', h⟩
  | cons i0 orig ih =>
    obtain ⟨⟨s1, env1⟩, hi, hrest⟩ := exec_cons_eq_some.1 hexec
    obtain ⟨env1', h1⟩ := h.next ((h.exact_iff hexec).1 (hexact 0)) hi
    exact ih h1 hrest fun n => hexact (n + 1)

omit [DecidableEq O] in
/-- The current name does not come again. -/
lemma Sim.ne_of_rest (h : Sim sem s₀ orig ⟨before, i :: rest⟩ s env env') {k : Inst (Op O) (Val α)} (hk : k ∈ rest) :
    k.id ≠ i.id := by
  have hpair := (pairwise_append.1 h.ordered.later).1
  rw [reverse_cons] at hpair
  exact ((pairwise_append.1 hpair).2.2 k (mem_reverse.2 hk) i (by simp)).1

variable {t' : σ} {envF' : ℕ → Option (Result α (Extra α))}

lemma Sim.bound_of_yields (h : Sim sem s₀ orig ⟨before, i :: rest⟩ s env env')
    (hyields : Yields sem env' (visit before i rest).1 r) {n : ℕ}
    (hexec : (machine sem).exec (PassState.next^[n + 1] ⟨before, i :: rest⟩).before.reverse
      (s₀, fun _ => none) = some (t', envF')) : envF' i.id = some r := by
  obtain ⟨hid, hids⟩ := visit_ids before rest i
  obtain ⟨later, hlater, hmem⟩ := before_iterate n (PassState.next ⟨before, i :: rest⟩)
  rw [iterate_succ_apply, hlater, reverse_append, exec_append_eq_some] at hexec
  obtain ⟨⟨s1, env1⟩, hbefore, hexecLater⟩ := hexec
  change (machine sem).exec ((visit before i rest).1 :: before).reverse _ = _ at hbefore
  rw [reverse_cons, exec_concat_eq_some] at hbefore
  obtain ⟨q, hq, hi⟩ := hbefore
  obtain rfl : (s, env') = q := Option.some.inj (h.run.symm.trans hq)
  obtain ⟨res, hres, henv1⟩ := execInst_eq_some.1 hi
  obtain ⟨rfl, -⟩ : some r = res ∧ _ := Prod.mk.inj (Option.some.inj ((hyields s).symm.trans hres))
  have hi1 : env1 i.id = some r := by
    change _ = env1 at henv1
    rw [← henv1, hid]
    exact update_self _ _ _
  have hnotMem : ∀ j ∈ later.reverse, j.id ≠ i.id := by
    intro j hj
    have hjids := hmem j (mem_reverse.1 hj)
    change j.id ∈ (visit before i rest).2.map (·.id) at hjids
    rw [hids] at hjids
    obtain ⟨k, hk, hkj⟩ := mem_map.1 hjids
    rw [← hkj]
    exact h.ne_of_rest hk
  rw [exec_env_of_notMem hnotMem hexecLater, hi1]

/-- **All values are kept: all steps meet the condition.** -/
lemma Sim.exact_of_vals (h : Sim sem s₀ orig st s env env') (hexec : (machine sem).exec orig (s, env) = some (t, envF))
    (hexec' : (machine sem).exec (PassState.next^[orig.length] st).before.reverse (s₀, fun _ => none) = some (t', envF'))
    (hvals : ∀ id, (envF' id).map (·.val) = (envF id).map (·.val)) (n : ℕ) :
    Exact envF (PassState.next^[n] st) := by
  induction orig generalizing st s env env' n with
  | nil =>
    obtain ⟨before, rest⟩ := st
    obtain rfl : rest = [] := forall₂_nil_left_iff.1 h.rest
    have hfix : PassState.next^[n] (⟨before, []⟩ : PassState O α) = ⟨before, []⟩ :=
      iterate_fixed rfl n
    rw [hfix]
    intro i rest hrest
    simp at hrest
  | cons i0 orig ih =>
    obtain ⟨⟨s1, env1⟩, hi, hrest⟩ := exec_cons_eq_some.1 hexec
    have hfirst : Exact env st := by
      by_contra hmiss
      obtain ⟨before, rest⟩ := st
      obtain ⟨i, rest', hi0, -, rfl⟩ := forall₂_cons_left_iff.1 h.rest
      obtain ⟨res, hres, henv1⟩ := execInst_eq_some.1 hi
      simp only at hres henv1
      obtain ⟨r, r0, hyields, rfl, hne⟩ := h.miss hmiss hres
      have hid : env1 i.id = some r0 := by
        rw [← henv1, hi0.id_eq]
        exact update_self _ _ _
      have hidF : envF i.id = some r0 := by
        rw [exec_env_of_notMem (fun j hj => ?_) hrest, hid]
        have hids : j.id ∈ rest'.map (·.id) := by
          rw [← ids_eq (forall₂_cons.1 h.rest).2]
          exact mem_map_of_mem hj
        obtain ⟨k, hk, hkj⟩ := mem_map.1 hids
        rw [← hkj]
        exact h.ne_of_rest hk
      have hidF' : envF' i.id = some r := h.bound_of_yields hyields hexec'
      have hval := hvals i.id
      rw [hidF, hidF'] at hval
      exact hne (Option.some.inj hval)
    cases n with
    | zero => exact (h.exact_iff hexec).2 hfirst
    | succ n =>
      obtain ⟨env1', h1⟩ := h.next hfirst hi
      exact ih h1 hrest hexec' n

omit [DecidableEq O] in
lemma Sim.start (block : Block (Op O) (Val α)) (hone : OneCarry block.insts) (s₀ : σ) :
    Sim sem s₀ block.insts ⟨[], block.insts⟩ s₀ (fun _ => none) (fun _ => none) where
  ordered := by simpa using block.ssa.ordered.1
  run := rfl
  vals := fun _ => rfl
  pseudo := fun _ _ _ _ _ => rfl
  rest := forall₂_same.2 fun _ _ => .inl rfl
  oneCarry := hone

/-- **`ConstantPropagation` keeps the state and the value of every instruction exactly if every step of the walk
meets the condition.** -/
theorem constantPropagation_iff (block : Block (Op O) (Val α)) (hone : OneCarry block.insts) {s₀ s : σ}
    (h : (machine sem).exec block.insts (s₀, fun _ => none) = some (s, env)) :
    (∃ env', (machine sem).exec (constantPropagation block.insts) (s₀, fun _ => none) = some (s, env') ∧
        ∀ id, (env' id).map (·.val) = (env id).map (·.val)) ↔
      ∀ n, Exact env (PassState.next^[n] ⟨[], block.insts⟩) := by
  have hsim : Sim sem s₀ block.insts ⟨[], block.insts⟩ s₀ (fun _ => none) (fun _ => none) :=
    Sim.start block hone s₀
  constructor
  · rintro ⟨env', hexec, hvals⟩
    exact hsim.exact_of_vals h hexec hvals
  · intro hexact
    obtain ⟨env', hend⟩ := hsim.run_rest h hexact
    exact ⟨env', hend.run, hend.vals⟩

end Pass

/-! ## A block that is kept and one that is not -/

def readInput : OtherOps Unit Unit (BitVec 64) := fun _ _ x => some (some ⟨.u64 x, none⟩, x)

/-- `((input + 2) + 3 + 1) / 1`, and a shift by zero with its carry. -/
def sumBlock : Block (Op Unit) (Val Unit) :=
  .ofInsts [⟨0, .op (.other ()), []⟩, ⟨1, .op (.add .w64), [.inst 0, .imm (.u64 2), .imm (.u1 false)]⟩,
    ⟨2, .op (.add .w64), [.inst 1, .imm (.u64 3), .imm (.u1 true)]⟩,
    ⟨3, .op (.div false .w64), [.inst 2, .imm (.u64 1)]⟩,
    ⟨4, .op .leastSignificantWord, [.inst 3]⟩,
    ⟨5, .op (.shift .logicalLeft .w32), [.inst 4, .imm (.u8 0), .imm (.u1 true)]⟩,
    ⟨6, .op (.pseudo .carry), [.inst 5]⟩] 7 (by simp [Ssa, Refers]) (by simp)

theorem constantPropagation_iff_sum :
    OneCarry sumBlock.insts ∧ ∃ env, (machine readInput).exec sumBlock.insts (10, fun _ => none) = some (10, env) ∧
      ((∃ env', (machine readInput).exec (constantPropagation sumBlock.insts) (10, fun _ => none) =
          some (10, env') ∧ ∀ id, (env' id).map (·.val) = (env id).map (·.val)) ↔
        ∀ n, Exact env (PassState.next^[n] ⟨[], sumBlock.insts⟩)) := by
  have hone : OneCarry sumBlock.insts := by
    simp [OneCarry, sumBlock, Block.ofInsts, isAssociated]
  obtain ⟨env, h⟩ : ∃ env, (machine readInput).exec sumBlock.insts (10, fun _ => none) = some (10, env) := ⟨_, rfl⟩
  exact ⟨hone, env, h, constantPropagation_iff sumBlock hone h⟩

/-- `(input + 1) + 0xFFFFFFFFFFFFFFFF` with the carry set, and `0x8000000000000000 / 0xFFFFFFFFFFFFFFFF`
without sign. -/
def missedBlock : Block (Op Unit) (Val Unit) :=
  .ofInsts [⟨0, .op (.other ()), []⟩, ⟨1, .op (.add .w64), [.inst 0, .imm (.u64 1), .imm (.u1 false)]⟩,
    ⟨2, .op (.add .w64), [.inst 1, .imm (.u64 0xFFFFFFFFFFFFFFFF), .imm (.u1 true)]⟩,
    ⟨3, .op (.div false .w64), [.imm (.u64 0x8000000000000000), .imm (.u64 0xFFFFFFFFFFFFFFFF)]⟩] 4
    (by simp [Ssa, Refers]) (by simp)

/-- The carry is lost, and the quotient is that of the division with sign. -/
theorem constantPropagation_misses : ∃ env env',
    (machine readInput).exec missedBlock.insts (10, fun _ => none) = some (10, env) ∧
    (machine readInput).exec (constantPropagation missedBlock.insts) (10, fun _ => none) = some (10, env') ∧
    (env 2).map (·.val) = some (.u64 11) ∧ (env' 2).map (·.val) = some (.u64 10) ∧
    (env 3).map (·.val) = some (.u64 0) ∧
    (env' 3).map (·.val) = some (.u64 0x8000000000000000) :=
  ⟨_, _, rfl, rfl, rfl, rfl, rfl, rfl⟩

end Voltemu.Dynarmic.Folding
