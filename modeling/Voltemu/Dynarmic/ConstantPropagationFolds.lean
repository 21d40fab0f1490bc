import Voltemu.Dynarmic.FoldedValues
import Voltemu.Dynarmic.Rewriting

/-!
# What each fold preserves

Two results count as the same when their values are; what pseudo-operations ask for has to be the same only
where one is associated.

* `Ran` — the rewritten instructions before the current one have run, so that arguments and immediates have
  values, and a known operation can be computed again;
* `Visited` — what one visit has to give, and one lemma for each kind of fold;
* `dividesMinimumByOnes` and `droppedCarry` — the two cases that give another value.
-/

namespace Voltemu.Dynarmic.Folding

open Voltemu.Lib Machine List Option

variable {O α σ : Type*} {sem : OtherOps O α σ}

/-! ## Values -/

section Values

variable {env env' : ℕ → Option (Result α (Extra α))} {v : Value (Val α)} {args : List (Value (Val α))}
  {ks : List (Val α)}

def valOf (env : ℕ → Option (Result α (Extra α))) : Value (Val α) → Option (Val α)
  | .imm k => some k
  | .inst id => (env id).map (·.val)

lemma map_eval (sem : OtherOps O α σ) (env : ℕ → Option (Result α (Extra α))) (v : Value (Val α)) :
    ((machine sem).eval env v).map (·.val) = valOf env v := by
  cases v <;> rfl

lemma mapM_valOf {rs : List (Result α (Extra α))} (h : args.mapM ((machine sem).eval env) = some rs) :
    args.mapM (valOf env) = some (rs.map (·.val)) := by
  induction args generalizing rs with
  | nil =>
    obtain rfl : rs = [] := by simpa using h.symm
    rfl
  | cons v args ih =>
    rw [mapM_cons] at h
    simp only [bind, bind_eq_some_iff, pure, some.injEq] at h
    obtain ⟨r, hr, rs', hrs', rfl⟩ := h
    rw [mapM_cons, ih hrs', ← map_eval sem, hr]
    rfl

lemma exists_of_mapM_valOf (sem : OtherOps O α σ) (h : args.mapM (valOf env) = some ks) :
    ∃ rs, args.mapM ((machine sem).eval env) = some rs ∧ rs.map (·.val) = ks := by
  induction args generalizing ks with
  | nil =>
    obtain rfl : ks = [] := by simpa using h.symm
    exact ⟨[], rfl, rfl⟩
  | cons v args ih =>
    rw [mapM_cons] at h
    simp only [bind, bind_eq_some_iff, pure, some.injEq] at h
    obtain ⟨k, hk, ks', hks', rfl⟩ := h
    obtain ⟨rs, hrs, rfl⟩ := ih hks'
    rw [← map_eval sem, map_eq_some_iff] at hk
    obtain ⟨r, hr, rfl⟩ := hk
    refine ⟨r :: rs, ?_, rfl⟩
    rw [mapM_cons, hr, hrs]
    rfl

lemma valOf_congr (h : ∀ id, (env' id).map (·.val) = (env id).map (·.val)) (v : Value (Val α)) :
    valOf env' v = valOf env v := by
  cases v with
  | imm k => rfl
  | inst id => exact h id

variable {f : Value (Val α) → Option (Val α)} {k l m : Val α}

lemma mapM_two {a b : Value (Val α)} : [a, b].mapM f = some [k, l] ↔ f a = some k ∧ f b = some l := by
  cases hk : f a <;> cases hl : f b <;> simp [mapM_cons, hk, hl]

lemma mapM_three {a b c : Value (Val α)} :
    [a, b, c].mapM f = some [k, l, m] ↔ f a = some k ∧ f b = some l ∧ f c = some m := by
  cases hk : f a <;> cases hl : f b <;> cases hm : f c <;> simp [mapM_cons, hk, hl, hm]

lemma length_of_mapM (h : args.mapM f = some ks) : args.length = ks.length := by
  induction args generalizing ks with
  | nil =>
    obtain rfl : ks = [] := by simpa using h.symm
    rfl
  | cons v args ih =>
    rw [mapM_cons] at h
    simp only [bind, bind_eq_some_iff, pure, some.injEq] at h
    obtain ⟨k, -, ks', hks', rfl⟩ := h
    rw [length_cons, length_cons, ih hks']

lemma exists_of_mem_mapM (h : args.mapM f = some ks) (hv : v ∈ args) : ∃ k, f v = some k := by
  induction args generalizing ks with
  | nil => simp at hv
  | cons w args ih =>
    rw [mapM_cons] at h
    simp only [bind, bind_eq_some_iff, pure, some.injEq] at h
    obtain ⟨k, hk, ks', hks', rfl⟩ := h
    rcases mem_cons.1 hv with rfl | hv
    · exact ⟨k, hk⟩
    · exact ih hks' hv

lemma exists_two (h : args.mapM f = some [k, l]) : ∃ a b, args = [a, b] ∧ f a = some k ∧ f b = some l := by
  obtain ⟨a, b, rfl⟩ := length_eq_two.1 (length_of_mapM h)
  exact ⟨a, b, rfl, mapM_two.1 h⟩

/-- Two arguments and a carry. -/
lemma exists_three (h : args.mapM f = some [k, l, m]) :
    ∃ a b c, args = [a, b, c] ∧ f a = some k ∧ f b = some l ∧ f c = some m := by
  obtain ⟨a, b, c, rfl⟩ := length_eq_three.1 (length_of_mapM h)
  exact ⟨a, b, c, rfl, mapM_three.1 h⟩

end Values

/-! ## Results -/

/-- The operations whose meaning is known here. -/
def Op.isKnown : Op O → Bool
  | .pseudo _ | .other _ => false
  | _ => true

/-- The instruction gives that result, in any state. -/
def Yields (sem : OtherOps O α σ) (env : ℕ → Option (Result α (Extra α))) (i : Inst (Op O) (Val α))
    (r : Result α (Extra α)) : Prop :=
  ∀ s, (machine sem).result i s env = some (some r, s)

section Results

variable {env : ℕ → Option (Result α (Extra α))} {i : Inst (Op O) (Val α)} {v : Val α} {op : Op O}
  {ks : List (Val α)} {q : Val α × Extra α}

lemma step_known (h : op.isKnown = true) (rs : List (Result α (Extra α))) (s : σ) :
    step sem op rs s = (compute op (rs.map (·.val))).map fun q => (some ⟨q.1, some q.2⟩, s) := by
  cases op <;> first | rfl | simp [Op.isKnown] at h

lemma yields_replaceUsesWith {w : Value (Val α)} (h : valOf env w = some v) :
    Yields sem env (replaceUsesWith i w) ⟨v, none⟩ := by
  intro s
  rw [← map_eval sem, map_eq_some_iff] at h
  obtain ⟨r, hr, rfl⟩ := h
  simp only [result, replaceUsesWith, head?_cons, bind_some, hr, map_some]
  rfl

lemma yields_op (hcode : i.code = .op op) (hop : op.isKnown = true)
    (hargs : i.args.mapM (valOf env) = some ks) (hq : compute op ks = some q) :
    Yields sem env i ⟨q.1, some q.2⟩ := by
  intro s
  obtain ⟨rs, hrs, rfl⟩ := exists_of_mapM_valOf sem hargs
  simp only [result, hcode, hrs, bind_some]
  change step sem op rs s = _
  rw [step_known hop, hq, map_some]

lemma result_known (hcode : i.code = .op op) (hop : op.isKnown = true) {s s1 : σ}
    {res : Option (Result α (Extra α))} (h : (machine sem).result i s env = some (res, s1)) :
    ∃ ks q, i.args.mapM (valOf env) = some ks ∧ compute op ks = some q ∧ res = some ⟨q.1, some q.2⟩ ∧ s1 = s := by
  simp only [result, hcode, bind_eq_some_iff] at h
  obtain ⟨rs, hrs, hstep⟩ := h
  change step sem op rs s = _ at hstep
  rw [step_known hop, map_eq_some_iff] at hstep
  obtain ⟨q, hq, hres⟩ := hstep
  obtain ⟨rfl, rfl⟩ := Prod.mk.inj hres
  exact ⟨_, q, mapM_valOf hrs, hq, rfl, rfl⟩

end Results

/-! ## The instructions before -/

/-- The instructions before the current one have run. -/
structure Ran (sem : OtherOps O α σ) (before : List (Inst (Op O) (Val α)))
    (env : ℕ → Option (Result α (Extra α))) : Prop where
  ordered : Ordered before
  exec : ∃ st s, (machine sem).exec before.reverse st = some (s, env)

namespace Ran

variable {before : List (Inst (Op O) (Val α))} {env : ℕ → Option (Result α (Extra α))}

section

variable (hran : Ran sem before env)
include hran

variable {v : Value (Val α)} {k : Val α}

lemma valOf_of_resolve (h : resolve before v = some k) : valOf env v = some k := by
  obtain ⟨hord, st, s, hexec⟩ := hran
  rw [← map_eval sem, eval_of_resolve (M := machine sem) (fun _ => rfl) hord hexec h]
  rfl

lemma mapM_valOf_of_resolve {args : List (Value (Val α))}
    {ks : List (Val α)} (h : args.mapM (resolve before) = some ks) : args.mapM (valOf env) = some ks := by
  induction args generalizing ks with
  | nil => exact h
  | cons v args ih =>
    rw [mapM_cons] at h
    simp only [bind, bind_eq_some_iff, pure, some.injEq] at h
    obtain ⟨k, hk, ks', hks', rfl⟩ := h
    rw [mapM_cons, hran.valOf_of_resolve hk, ih hks']
    rfl

lemma valOf_of_getInstRecursive
    {g : Inst (Op O) (Val α)} (h : getInstRecursive before v = some g)
    (hk : valOf env v = some k) : valOf env (.inst g.id) = some k := by
  obtain ⟨hord, st, s, hexec⟩ := hran
  rw [← map_eval sem, map_eq_some_iff] at hk
  obtain ⟨r, hr, rfl⟩ := hk
  obtain ⟨rg, hrg, hstrip⟩ := eval_of_getInstRecursive (M := machine sem) (fun _ => rfl) hord hexec h hr
  have hsame : ((machine sem).strip r).val = ((machine sem).strip rg).val := by rw [hstrip]
  change r.val = rg.val at hsame
  simp [valOf, hrg, hsame]

/-- A known operation can be computed again later. -/
lemma compute_of_mem {j : Inst (Op O) (Val α)}
    (hj : j ∈ before) {op : Op O} (hcode : j.code = .op op) (hop : op.isKnown = true) :
    ∃ ks q, j.args.mapM (valOf env) = some ks ∧ compute op ks = some q ∧ valOf env (.inst j.id) = some q.1 := by
  obtain ⟨hord, st, s, hexec⟩ := hran
  induction before generalizing s env with
  | nil => simp at hj
  | cons i before ih =>
    rw [reverse_cons, exec_concat_eq_some] at hexec
    obtain ⟨⟨s1, env1⟩, hexec, hi⟩ := hexec
    obtain ⟨res, hres, henv⟩ := execInst_eq_some.1 hi
    simp only at henv hres
    -- the arguments of `j` are not named by `i`
    have hargs {ks : List (Val α)} (hji : ¬ Refers j i.id) (h : j.args.mapM (valOf env1) = some ks) :
        j.args.mapM (valOf env) = some ks := by
      obtain ⟨rs, hrs, rfl⟩ := exists_of_mapM_valOf sem h
      have hrs' : j.args.mapM ((machine sem).eval env) = some rs := by
        rw [← hrs, ← henv]
        exact mapM_eval_congr fun id hid =>
          bindResult_of_ne (fun heq : id = i.id => hji (heq ▸ hid)) res
      exact mapM_valOf hrs'
    rcases mem_cons.1 hj with rfl | hj
    · obtain ⟨ks, q, hks, hq, rfl, -⟩ := result_known hcode hop hres
      refine ⟨ks, q, hargs (hord.self _ mem_cons_self) hks, hq, ?_⟩
      rw [← henv]
      simp [valOf, bindResult]
    · obtain ⟨ks, q, hks, hq, hval⟩ := ih hj hord.tail s1 hexec
      have hlater := (pairwise_cons.1 hord.later).1 j hj
      refine ⟨ks, q, hargs hlater.2 hks, hq, ?_⟩
      rw [← hval, ← henv]
      simp only [valOf]
      rw [bindResult_of_ne (Ne.symm hlater.1)]

end

variable {w : Width} {y : BitVec w.bits} (hran : Ran sem before env)

include hran

variable {v : Value (Val α)}

lemma toU64 {z : BitVec 64} (h : isUnsignedImmediate before v z = true)
    (hv : valOf env v = some (w.val y)) : y.setWidth 64 = z := by
  simp only [isUnsignedImmediate, Option.any_eq_true, beq_iff_eq] at h
  obtain ⟨k, hk, rfl⟩ := h
  obtain rfl : w.val y = k := Option.some.inj (hv.symm.trans (hran.valOf_of_resolve hk))
  exact (asU64_val w y).symm

lemma eq_zero (h : isZero before v = true) (hv : valOf env v = some (w.val y)) : y = 0#w.bits := by
  rw [← asU64_inj w, hran.toU64 h hv]
  simp

lemma eq_one (h : isUnsignedImmediate before v 1 = true) (hv : valOf env v = some (w.val y)) : y = 1#w.bits := by
  rw [← asU64_inj w, hran.toU64 h hv]
  cases w <;> rfl

lemma eq_allOnes (h : hasAllBitsSet before v = true) (hv : valOf env v = some (w.val y)) : y = BitVec.allOnes w.bits := by
  simp only [hasAllBitsSet, Option.any_eq_true, beq_iff_eq] at h
  obtain ⟨k, hk, hk'⟩ := h
  obtain rfl : w.val y = k := Option.some.inj (hv.symm.trans (hran.valOf_of_resolve hk))
  rw [asS64_val] at hk'
  have hcut := congrArg (BitVec.setWidth w.bits) hk'
  rw [setWidth_signExtend_of_le (bits_le w), BitVec.signExtend_eq] at hcut
  rw [hcut]
  cases w <;> rfl

end Ran

/-! ## One visit -/

/-- No pseudo-operation asks the instruction for something that it has. -/
def Quiet (rest : List (Inst (Op O) (Val α))) (id : ℕ) (e : Extra α) : Prop :=
  ∀ j ∈ rest, ∀ p, isAssociated p id j = true → e p = none

/-- **What a visit has to give**, where the instruction means `q`: the same value, and the same for the
associated pseudo-operations that stay.  A `GetCarryFromOp` that is replaced becomes the carry. -/
structure Visited (sem : OtherOps O α σ) (before rest : List (Inst (Op O) (Val α)))
    (env : ℕ → Option (Result α (Extra α))) (i : Inst (Op O) (Val α)) (q : Val α × Extra α)
    (out : Inst (Op O) (Val α) × List (Inst (Op O) (Val α))) : Prop where
  id : out.1.id = i.id
  refs : ∀ id, Refers out.1 id → Refers i id ∨ ∃ j ∈ before, Refers j id
  yields : ∃ r, Yields sem env out.1 r ∧ r.val = q.1 ∧
    ∀ j ∈ out.2, ∀ p, isAssociated p i.id j = true → r.extra.bind (· p) = q.2 p
  rest : out.2 = rest ∨ ∃ v b, out.2 = replaceAssociated .carry i.id v rest ∧
    valOf env v = some (.u1 b) ∧ q.2 .carry = some (.u1 b) ∧ ∀ id, v = .inst id → Refers i id

section Visited

variable {before rest : List (Inst (Op O) (Val α))} {env : ℕ → Option (Result α (Extra α))}
  {i : Inst (Op O) (Val α)} {op : Op O} {ks : List (Val α)} {q : Val α × Extra α}

lemma Visited.copy {v : Value (Val α)} (hval : valOf env v = some q.1) (hquiet : Quiet rest i.id q.2)
    (hrefs : ∀ id, v = .inst id → Refers i id ∨ ∃ j ∈ before, Refers j id) :
    Visited sem before rest env i q (replaceUsesWith i v, rest) where
  id := rfl
  refs id hid := hrefs id (by simpa [replaceUsesWith, Refers, eq_comm] using hid)
  yields := ⟨_, yields_replaceUsesWith hval, rfl, fun j hj p hp => (hquiet j hj p hp).symm⟩
  rest := .inl rfl

lemma Visited.args (hcode : i.code = .op op) (hop : op.isKnown = true) {args : List (Value (Val α))}
    {q' : Val α × Extra α} (hargs : args.mapM (valOf env) = some ks) (hq : compute op ks = some q')
    (hval : q'.1 = q.1) (hextra : ∀ j ∈ rest, ∀ p, isAssociated p i.id j = true → q'.2 p = q.2 p)
    (hrefs : ∀ id, .inst id ∈ args → Refers i id ∨ ∃ j ∈ before, Refers j id) :
    Visited sem before rest env i q (⟨i.id, i.code, args⟩, rest) where
  id := rfl
  refs := hrefs
  yields := ⟨_, yields_op hcode hop hargs hq, hval, hextra⟩
  rest := .inl rfl

lemma Visited.keep (hcode : i.code = .op op) (hop : op.isKnown = true)
    (hargs : i.args.mapM (valOf env) = some ks) (hq : compute op ks = some q) :
    Visited sem before rest env i q (i, rest) :=
  .args hcode hop hargs hq rfl (fun _ _ _ _ => rfl) fun _ hid => .inl hid

lemma Visited.foldAll (hran : Ran sem before env) (hcode : i.code = .op op) (hop : op.isKnown = true)
    (hargs : i.args.mapM (valOf env) = some ks) (hq : compute op ks = some q)
    (hquiet : Quiet rest i.id q.2) {f : List (Val α) → Option (Val α)} (hf : Folds op f) :
    Visited sem before rest env i q (foldAll before i f, rest) := by
  unfold Folding.foldAll
  split
  next v hv =>
    obtain ⟨ks', hks', hv⟩ := bind_eq_some_iff.1 hv
    obtain rfl : ks' = ks := Option.some.inj ((hran.mapM_valOf_of_resolve hks').symm.trans hargs)
    obtain rfl : v = q.1 := Option.some.inj (hv.symm.trans (hf _ q hq))
    exact .copy rfl hquiet (by simp)
  next => exact .keep hcode hop hargs hq

/-- The same instruction with its operands in another order. -/
lemma Visited.of_refers {i' : Inst (Op O) (Val α)}
    {out : Inst (Op O) (Val α) × List (Inst (Op O) (Val α))} (h : Visited sem before rest env i' q out)
    (hid : i'.id = i.id) (hrefs : ∀ id, Refers i' id → Refers i id) :
    Visited sem before rest env i q out where
  id := h.id.trans hid
  refs id hid' := (h.refs id hid').imp_left (hrefs id)
  yields := by
    rw [← hid]
    exact h.yields
  rest := by
    rw [← hid]
    refine h.rest.imp_right ?_
    rintro ⟨v, b, hout, hv, hb, hrefers⟩
    exact ⟨v, b, hout, hv, hb, fun id hid' => hrefs id (hrefers id hid')⟩

end Visited

/-! ## Commutative operations -/

section Commutative

variable [DecidableEq O] {before rest : List (Inst (Op O) (Val α))}
  {env : ℕ → Option (Result α (Extra α))} {i : Inst (Op O) (Val α)} {op : Op O} {w : Width}
  {fn : BitVec 64 → BitVec 64 → BitVec 64} {f : BitVec w.bits → BitVec w.bits → BitVec w.bits}
  {e : BitVec w.bits → Extra α} {lhs rhs : Value (Val α)} {x y : BitVec w.bits}

section

variable (hran : Ran sem before env) (hop : op.isKnown = true) (hcomm : Commutes op w fn f e)
include hran hop hcomm

/-- An operation of the same kind behind an argument. -/
lemma Ran.nested {v u : Value (Val α)} {k : Val α} (h : nested before (.op op) v = some (u, k))
    (hv : valOf env v = some (w.val y)) :
    ∃ a b, valOf env u = some (w.val a) ∧ k = w.val b ∧ y = f a b ∧ ∀ id, u = .inst id → ∃ j ∈ before, Refers j id := by
  obtain ⟨j, hj, h⟩ := bind_eq_some_iff.1 h
  split_ifs at h with hcode
  split at h
  next u' v' l hargs =>
    obtain ⟨k', hk', hpair⟩ := map_eq_some_iff.1 h
    obtain ⟨rfl, rfl⟩ := Prod.mk.inj hpair
    have hmem := getInstRecursive_mem hj
    obtain ⟨ks, q, hks, hq, hval⟩ := hran.compute_of_mem hmem hcode hop
    rw [hcomm.meaning] at hq
    obtain ⟨a, b, x', y', rfl, ha, hb, rfl⟩ := binary_eq_some hq
    obtain rfl := Width.get_eq_some.1 ha
    obtain rfl := Width.get_eq_some.1 hb
    obtain ⟨u'', v'', hargs', hu, hv'⟩ := exists_two hks
    obtain ⟨rfl, rfl, rfl⟩ : u' = u'' ∧ v' = v'' ∧ l = [] := by simpa [hargs] using hargs'
    refine ⟨x', y', hu, ?_, ?_, fun id hid => ⟨j, hmem, by simp [Refers, hargs, hid]⟩⟩
    · exact Option.some.inj ((hran.valOf_of_resolve hk').symm.trans hv')
    · have := (hran.valOf_of_getInstRecursive hj hv).symm.trans hval
      exact Width.val_inj.1 (Option.some.inj this)
  next => simp at h

lemma foldCommutative_spec (hcode : i.code = .op op) (hi : i.args = [lhs, rhs])
    (hl : valOf env lhs = some (w.val x)) (hr : valOf env rhs = some (w.val y)) :
    foldCommutative before i w fn = (replaceUsesWith i (.imm (w.val (f x y))), false) ∨
      ∃ l r x' y', foldCommutative before i w fn = (⟨i.id, i.code, [l, r]⟩, true) ∧
        valOf env l = some (w.val x') ∧ valOf env r = some (w.val y') ∧ f x' y' = f x y ∧
        ∀ id, .inst id ∈ [l, r] → Refers i id ∨ ∃ j ∈ before, Refers j id := by
  have hself : (⟨i.id, i.code, [lhs, rhs]⟩ : Inst (Op O) (Val α)) = i := by rw [← hi]
  have hrefs (id : ℕ) (hid : .inst id ∈ [lhs, rhs]) : Refers i id := by rwa [Refers, hi]
  unfold foldCommutative
  rw [hi]
  simp only [hcode]
  cases hrl : resolve before lhs with
  | some a =>
    obtain rfl : w.val x = a := Option.some.inj (hl.symm.trans (hran.valOf_of_resolve hrl))
    cases hrr : resolve before rhs with
    | some b =>
      obtain rfl : w.val y = b := Option.some.inj (hr.symm.trans (hran.valOf_of_resolve hrr))
      left
      simp only [hcomm.fold_val]
    | none =>
      right
      cases hn : nested before (.op op) rhs with
      | some q =>
        obtain ⟨u, k⟩ := q
        obtain ⟨a, b, hu, rfl, rfl, hu'⟩ := hran.nested hop hcomm hn hr
        refine ⟨u, _, a, f x b, rfl, hu, ?_, ?_, fun id hid => .inr (hu' id ?_)⟩
        · rw [hcomm.fold_val]
          rfl
        · rw [← hcomm.assoc, ← hcomm.assoc, hcomm.comm a x]
        · simpa [eq_comm] using hid
      | none =>
        refine ⟨rhs, lhs, y, x, rfl, hr, hl, hcomm.comm y x, fun id hid => .inl (hrefs id ?_)⟩
        simpa [or_comm] using hid
  | none =>
    right
    cases hrr : resolve before rhs with
    | some b =>
      obtain rfl : w.val y = b := Option.some.inj (hr.symm.trans (hran.valOf_of_resolve hrr))
      cases hn : nested before (.op op) lhs with
      | some q =>
        obtain ⟨u, k⟩ := q
        obtain ⟨a, b, hu, rfl, rfl, hu'⟩ := hran.nested hop hcomm hn hl
        refine ⟨u, _, a, f y b, rfl, hu, ?_, ?_, fun id hid => .inr (hu' id ?_)⟩
        · rw [hcomm.fold_val]
          rfl
        · rw [hcomm.assoc, hcomm.comm y b]
        · simpa [eq_comm] using hid
      | none =>
        exact ⟨lhs, rhs, x, y, by rw [← hcode, hself], hl, hr, rfl, fun id hid => .inl (hrefs id hid)⟩
    | none =>
      exact ⟨lhs, rhs, x, y, by rw [← hcode, hself], hl, hr, rfl, fun id hid => .inl (hrefs id hid)⟩

lemma Visited.foldRhs (hcode : i.code = .op op) {ks : List (Val α)} {q : Val α × Extra α}
    (hargs : i.args.mapM (valOf env) = some ks) (hq : compute op ks = some q)
    (hquiet : Quiet rest i.id q.2) {g : Value (Val α) → Value (Val α) → Option (Value (Val α))}
    (hg : ∀ l r x y, valOf env l = some (w.val x) → valOf env r = some (w.val y) → ∀ v, g l r = some v →
      valOf env v = some (w.val (f x y)) ∧ ∀ id, v = .inst id → v = l) :
    Visited sem before rest env i q (foldRhs before i w fn g, rest) := by
  rw [hcomm.meaning] at hq
  obtain ⟨a, b, x, y, rfl, ha, hb, rfl⟩ := binary_eq_some hq
  obtain rfl := Width.get_eq_some.1 ha
  obtain rfl := Width.get_eq_some.1 hb
  obtain ⟨lhs, rhs, hi, hl, hr⟩ := exists_two hargs
  unfold Folding.foldRhs
  rcases foldCommutative_spec hran hop hcomm hcode hi hl hr with
    h | ⟨l, r, x', y', h, hl', hr', heq, hrefs⟩
  · simp only [h]
    exact .copy rfl hquiet (by simp)
  · simp only [h, if_true]
    cases hgv : g l r with
    | some v =>
      obtain ⟨hv, hid⟩ := hg l r x' y' hl' hr' v hgv
      refine .copy (by rw [hv, heq]) hquiet fun id hvid => hrefs id ?_
      rw [← hvid, hid id hvid]
      exact mem_cons_self
    | none =>
      refine .args hcode hop (mapM_two.2 ⟨hl', hr'⟩) (hcomm.compute_val x' y') ?_ (fun j _ p _ => ?_) hrefs
      · rw [heq]
      · rw [heq]

end

variable {ks : List (Val α)} {q : Val α × Extra α} (hran : Ran sem before env)

include hran

lemma Visited.foldAND (hcode : i.code = .op (.and w)) (hargs : i.args.mapM (valOf env) = some ks)
    (hq : compute (.and w : Op O) ks = some q) (hquiet : Quiet rest i.id q.2) :
    Visited sem before rest env i q (foldAND before i w, rest) := by
  refine .foldRhs hran rfl (commutes_and O α w) hcode hargs hq hquiet fun l r x y hl hr v hv => ?_
  split_ifs at hv with hzero hones
  · obtain rfl : _ = v := Option.some.inj hv
    obtain rfl := hran.eq_zero hzero hr
    rw [BitVec.and_zero, ofU64_eq]
    exact ⟨by simp [valOf], by simp⟩
  · obtain rfl : l = v := Option.some.inj hv
    obtain rfl := hran.eq_allOnes hones hr
    rw [BitVec.and_allOnes]
    exact ⟨hl, fun _ _ => rfl⟩

lemma Visited.foldEOR (hcode : i.code = .op (.eor w)) (hargs : i.args.mapM (valOf env) = some ks)
    (hq : compute (.eor w : Op O) ks = some q) (hquiet : Quiet rest i.id q.2) :
    Visited sem before rest env i q (foldEOR before i w, rest) := by
  refine .foldRhs hran rfl (commutes_eor O α w) hcode hargs hq hquiet fun l r x y hl hr v hv => ?_
  split_ifs at hv with hzero
  obtain rfl : l = v := Option.some.inj hv
  obtain rfl := hran.eq_zero hzero hr
  rw [BitVec.xor_zero]
  exact ⟨hl, fun _ _ => rfl⟩

lemma Visited.foldOR (hcode : i.code = .op (.or w)) (hargs : i.args.mapM (valOf env) = some ks)
    (hq : compute (.or w : Op O) ks = some q) (hquiet : Quiet rest i.id q.2) :
    Visited sem before rest env i q (foldOR before i w, rest) := by
  refine .foldRhs hran rfl (commutes_or O α w) hcode hargs hq hquiet fun l r x y hl hr v hv => ?_
  split_ifs at hv with hzero
  obtain rfl : l = v := Option.some.inj hv
  obtain rfl := hran.eq_zero hzero hr
  rw [BitVec.or_zero]
  exact ⟨hl, fun _ _ => rfl⟩

lemma Visited.foldMultiply (hcode : i.code = .op (.mul w)) (hargs : i.args.mapM (valOf env) = some ks)
    (hq : compute (.mul w : Op O) ks = some q) (hquiet : Quiet rest i.id q.2) :
    Visited sem before rest env i q (foldMultiply before i w, rest) := by
  refine .foldRhs hran rfl (commutes_mul O α w) hcode hargs hq hquiet fun l r x y hl hr v hv => ?_
  split_ifs at hv with hzero hone
  · obtain rfl : _ = v := Option.some.inj hv
    obtain rfl := hran.eq_zero hzero hr
    rw [BitVec.mul_zero, ofU64_eq]
    exact ⟨by simp [valOf], by simp⟩
  · obtain rfl : l = v := Option.some.inj hv
    obtain rfl := hran.eq_one hone hr
    rw [BitVec.mul_one]
    exact ⟨hl, fun _ _ => rfl⟩

end Commutative

/-! ## Division -/

section Division

variable {before rest : List (Inst (Op O) (Val α))} {env : ℕ → Option (Result α (Extra α))}
  {i : Inst (Op O) (Val α)} {w : Width} {signed : Bool} {ks : List (Val α)} {q : Val α × Extra α}

/-- The least signed number divided by all ones, without sign. -/
def dividesMinimumByOnes (before : List (Inst (Op O) (Val α))) (i : Inst (Op O) (Val α)) : Bool :=
  match i.code, i.args with
  | .op (.div false w), [lhs, rhs] =>
      isUnsignedImmediate before lhs w.minimum && isUnsignedImmediate before rhs w.ones
  | _, _ => false

variable {x y : BitVec w.bits}

lemma minimum_sdiv_ones (hx : x.setWidth 64 = w.minimum)
    (hy : y.setWidth 64 = w.ones) : (w.ofU64 w.minimum : Val α) = w.val (x.sdiv y) := by
  have hx' : x = w.minimum.setWidth w.bits := by rw [← hx, setWidth_setWidth_bits]
  have hy' : y = w.ones.setWidth w.bits := by rw [← hy, setWidth_setWidth_bits]
  rw [hx', hy']
  cases w <;> rfl

lemma minimum_udiv_ones (hx : x.setWidth 64 = w.minimum)
    (hy : y.setWidth 64 = w.ones) : (w.ofU64 w.minimum : Val α) ≠ w.val (x / y) := by
  have hx' : x = w.minimum.setWidth w.bits := by rw [← hx, setWidth_setWidth_bits]
  have hy' : y = w.ones.setWidth w.bits := by rw [← hy, setWidth_setWidth_bits]
  rw [hx', hy', ofU64_eq, ne_eq, Width.val_inj]
  cases w <;> decide

section

variable (hran : Ran sem before env) (hcode : i.code = .op (.div signed w))
  (hargs : i.args.mapM (valOf env) = some ks) (hq : compute (.div signed w : Op O) ks = some q)
include hran hcode hargs hq

lemma Visited.foldDivide (hexact : dividesMinimumByOnes before i = false) :
    Visited sem before rest env i q (foldDivide before i w signed, rest) := by
  have hkeep : Visited sem before rest env i q (i, rest) := .keep hcode rfl hargs hq
  obtain ⟨a, b, x, y, rfl, ha, hb, rfl⟩ := binary_eq_some hq
  obtain rfl := Width.get_eq_some.1 ha
  obtain rfl := Width.get_eq_some.1 hb
  obtain ⟨lhs, rhs, hi, hl, hr⟩ := exists_two hargs
  have hquiet (v : Val α) : Quiet rest i.id (v, (noExtra : Extra α)).2 := fun _ _ _ _ => rfl
  unfold Folding.foldDivide
  simp only [hi]
  generalize hd : (if signed = true then x.sdiv y else x / y) = d at hkeep
  by_cases hzero : (isZero before lhs || isZero before rhs) = true
  · rw [if_pos hzero]
    refine .copy ?_ (hquiet _) (by simp)
    rw [valOf, ofU64_eq, ← hd]
    rcases Bool.or_eq_true_iff.1 hzero with hz | hz
    · obtain rfl := hran.eq_zero hz hl
      simp
    · obtain rfl := hran.eq_zero hz hr
      simp
  rw [if_neg hzero]
  by_cases hmin : (isUnsignedImmediate before lhs w.minimum && isUnsignedImmediate before rhs w.ones) = true
  · rw [if_pos hmin]
    obtain ⟨hx, hy⟩ := Bool.and_eq_true_iff.1 hmin
    cases signed with
    | false => simp [dividesMinimumByOnes, hcode, hi, hx, hy] at hexact
    | true =>
      refine .copy ?_ (hquiet _) (by simp)
      rw [valOf, minimum_sdiv_ones (hran.toU64 hx hl) (hran.toU64 hy hr), ← hd]
      rfl
  rw [if_neg hmin]
  split
  next k l hk hl' =>
    obtain rfl : w.val x = k := Option.some.inj (hl.symm.trans (hran.valOf_of_resolve hk))
    obtain rfl : w.val y = l := Option.some.inj (hr.symm.trans (hran.valOf_of_resolve hl'))
    refine .copy ?_ (hquiet _) (by simp)
    rw [valOf, ofU64_eq, asS64_val, asS64_val, asU64_val, asU64_val, ← hd]
    cases signed with
    | false => simp [udiv_fold]
    | true => simp [sdiv_fold]
  next =>
    split_ifs with hone
    · refine .copy ?_ (hquiet _) fun id hid => .inl (by simp [Refers, hi, hid])
      obtain rfl := hran.eq_one hone hr
      rw [hl, ← hd]
      cases signed <;> simp
    · exact hkeep

lemma yields_foldDivide (hmin : dividesMinimumByOnes before i = true) :
    ∃ r, Yields sem env (foldDivide before i w signed) r ∧ r.val ≠ q.1 := by
  obtain ⟨a, b, x, y, rfl, ha, hb, rfl⟩ := binary_eq_some hq
  obtain rfl := Width.get_eq_some.1 ha
  obtain rfl := Width.get_eq_some.1 hb
  obtain ⟨lhs, rhs, hi, hl, hr⟩ := exists_two hargs
  obtain rfl : signed = false := by
    cases signed with
    | false => rfl
    | true => simp [dividesMinimumByOnes, hcode] at hmin
  have hboth : isUnsignedImmediate before lhs w.minimum = true ∧ isUnsignedImmediate before rhs w.ones = true := by
    simpa [dividesMinimumByOnes, hcode, hi] using hmin
  have hx := hran.toU64 hboth.1 hl
  have hy := hran.toU64 hboth.2 hr
  have hzero : ¬ (isZero before lhs || isZero before rhs) = true := by
    intro hz
    rcases Bool.or_eq_true_iff.1 hz with hz | hz
    · have hx0 := hran.toU64 hz hl
      rw [hx] at hx0
      cases w <;> simp [Width.minimum] at hx0
    · have hy0 := hran.toU64 hz hr
      rw [hy] at hy0
      cases w <;> simp [Width.ones] at hy0
  unfold Folding.foldDivide
  simp only [hi]
  rw [if_neg hzero, if_pos (by rw [hboth.1, hboth.2]; rfl)]
  exact ⟨_, yields_replaceUsesWith rfl, minimum_udiv_ones hx hy⟩

end

end Division

/-! ## Addition -/

lemma addWithCarry_comm {n : ℕ} (x y : BitVec n) (c : Bool) : addWithCarry x y c = addWithCarry y x c := by
  rw [addWithCarry, addWithCarry, BitVec.add_comm x y]

lemma addExtra_comm {n : ℕ} (x y : BitVec n) (c : Bool) : (addExtra x y c : Extra α) = addExtra y x c := by
  have hcarry : carryOut x y c = carryOut y x c := by
    rw [carryOut, carryOut, Nat.add_comm x.toNat]
  have hoverflow : overflowOut x y c = overflowOut y x c := by
    simp only [overflowOut, addWithCarry_comm x y c, decide_eq_decide]
    constructor
    · rintro ⟨hxy, hne⟩
      exact ⟨hxy.symm, hxy ▸ hne⟩
    · rintro ⟨hxy, hne⟩
      exact ⟨hxy.symm, hxy ▸ hne⟩
  funext p
  cases p <;> simp only [addExtra, hcarry, hoverflow, addWithCarry_comm x y c]

lemma compute_add (w : Width) (x y : BitVec w.bits) (c : Bool) :
    compute (.add w : Op O) [w.val x, w.val y, .u1 c] = some ((w.val (addWithCarry x y c) : Val α), addExtra x y c) := by
  simp [compute, withCarry]

section Add

variable [DecidableEq O] {before rest : List (Inst (Op O) (Val α))}
  {env : ℕ → Option (Result α (Extra α))} {i : Inst (Op O) (Val α)} {w : Width} {ks : List (Val α)}
  {q : Val α × Extra α} {lhs rhs carry : Value (Val α)} {x y : BitVec w.bits} {c : Bool}

/-- The carry in of an addition that `FoldAdd` forgets. -/
def droppedCarry (before : List (Inst (Op O) (Val α))) (i : Inst (Op O) (Val α))
    (rest : List (Inst (Op O) (Val α))) : Option (Value (Val α)) :=
  match i.code, i.args with
  | .op (.add _), [lhs, rhs, carry] =>
      if hasAssociatedPseudoOperation i.id rest then none
      else (combined before i.code (normalizeAdd before lhs rhs).1 (normalizeAdd before lhs rhs).2).bind
        fun q => if q.2 = 0 then some carry else none
  | _, _ => none

lemma Ran.combined (hran : Ran sem before env) {u : Value (Val α)} {sum : BitVec 64}
    (h : combined before (.op (.add w)) lhs rhs = some (u, sum)) (hl : valOf env lhs = some (w.val x))
    (hr : valOf env rhs = some (w.val y)) :
    ∃ a, valOf env u = some (w.val a) ∧ x + y = a + sum.setWidth w.bits ∧
      ∀ id, u = .inst id → ∃ j ∈ before, Refers j id := by
  unfold Folding.combined at h
  split at h
  next k hlhs hrhs =>
    obtain rfl : w.val y = k := Option.some.inj (hr.symm.trans (hran.valOf_of_resolve hrhs))
    obtain ⟨⟨u', k, l⟩, hn, hpair⟩ := map_eq_some_iff.1 h
    obtain ⟨rfl, rfl⟩ := Prod.mk.inj hpair
    obtain ⟨j, hj, hn⟩ := bind_eq_some_iff.1 hn
    split_ifs at hn with hcode
    split at hn
    next u v c hargs =>
      obtain ⟨k', hk', hn⟩ := bind_eq_some_iff.1 hn
      obtain ⟨l', hl', hpair⟩ := map_eq_some_iff.1 hn
      simp only [Prod.mk.injEq] at hpair
      obtain ⟨rfl, rfl, rfl⟩ := hpair
      have hmem := getInstRecursive_mem hj
      obtain ⟨ks, q, hks, hq, hval⟩ := hran.compute_of_mem hmem hcode rfl
      obtain ⟨ka, kb, cb, xa, xb, rfl, ha, hb, rfl⟩ := withCarry_eq_some hq
      obtain rfl := Width.get_eq_some.1 ha
      obtain rfl := Width.get_eq_some.1 hb
      rw [hargs] at hks
      obtain ⟨hu, hv, hc⟩ := mapM_three.1 hks
      obtain rfl : k' = w.val xb := Option.some.inj ((hran.valOf_of_resolve hk').symm.trans hv)
      obtain rfl : l' = .u1 cb := Option.some.inj ((hran.valOf_of_resolve hl').symm.trans hc)
      obtain rfl : x = addWithCarry xa xb cb :=
        Width.val_inj.1 (Option.some.inj ((hran.valOf_of_getInstRecursive hj hl).symm.trans hval))
      refine ⟨xa, hu, ?_, fun id (hid : u = .inst id) => ⟨j, hmem, by simp [Refers, hargs, hid]⟩⟩
      have hle := bits_le w
      rw [asU64_val, asU64_val, BitVec.setWidth_add _ _ hle, BitVec.setWidth_add _ _ hle,
        setWidth_setWidth_bits, setWidth_setWidth_bits, BitVec.setWidth_ofNat_of_le hle, addWithCarry, getU1]
      ac_rfl
    next => simp at hn
  next => simp at h

omit [DecidableEq O] in
lemma normalizeAdd_spec (before : List (Inst (Op O) (Val α))) (c : Bool)
    (hl : valOf env lhs = some (w.val x)) (hr : valOf env rhs = some (w.val y)) :
    ∃ x' y', valOf env (normalizeAdd before lhs rhs).1 = some (w.val x') ∧
      valOf env (normalizeAdd before lhs rhs).2 = some (w.val y') ∧
      addWithCarry x' y' c = addWithCarry x y c ∧
      (addExtra x' y' c : Extra α) = addExtra x y c ∧
      ∀ v, (normalizeAdd before lhs rhs).1 = v ∨ (normalizeAdd before lhs rhs).2 = v → v = lhs ∨ v = rhs := by
  unfold normalizeAdd
  split_ifs
  · exact ⟨y, x, hr, hl, addWithCarry_comm y x c, addExtra_comm y x c, fun v hv => by
      rcases hv with rfl | rfl <;> simp⟩
  · exact ⟨x, y, hl, hr, rfl, rfl, fun v hv => by rcases hv with rfl | rfl <;> simp⟩

omit [DecidableEq O] in
lemma quiet_of_hasAssociatedPseudoOperation {id : ℕ} (h : ¬ hasAssociatedPseudoOperation id rest = true)
    (e : Extra α) : Quiet rest id e := by
  intro j hj p hp
  refine absurd (any_eq_true.2 ⟨j, hj, ?_⟩) h
  unfold isAssociated at hp
  split at hp
  next hcode =>
    rw [hcode]
    exact Bool.and_eq_true_iff.2 ⟨rfl, (Bool.and_eq_true_iff.1 hp).2⟩
  next => simp at hp

section

variable (hran : Ran sem before env) (hcode : i.code = .op (.add w))
  (hargs : i.args.mapM (valOf env) = some ks) (hq : compute (.add w : Op O) ks = some q)
include hran hcode hargs hq

lemma Visited.foldAdd (hexact : ∀ v, droppedCarry before i rest = some v → valOf env v = some (.u1 false)) :
    Visited sem before rest env i q (foldAdd before i rest w, rest) := by
  obtain ⟨ka, kb, c, x, y, rfl, ha, hb, rfl⟩ := withCarry_eq_some hq
  obtain rfl := Width.get_eq_some.1 ha
  obtain rfl := Width.get_eq_some.1 hb
  obtain ⟨lhs, rhs, carry, hi, hl, hr, hc⟩ := exists_three hargs
  obtain ⟨x', y', hl', hr', hsum, hextra, hmem⟩ := normalizeAdd_spec before c hl hr
  unfold droppedCarry at hexact
  unfold Folding.foldAdd
  simp only [hi, hcode] at hexact ⊢
  generalize (normalizeAdd before lhs rhs).1 = lhs' at hl' hmem hexact ⊢
  generalize (normalizeAdd before lhs rhs).2 = rhs' at hr' hmem hexact ⊢
  have hrefs (id : ℕ) (hid : .inst id ∈ [lhs', rhs', carry]) : Refers i id := by
    have hlr := hmem (.inst id)
    simp only [mem_cons, not_mem_nil, or_false] at hid
    simp only [Refers, hi, mem_cons, not_mem_nil, or_false]
    tauto
  have hargs' : [lhs', rhs', carry].mapM (valOf env) = some [w.val x', w.val y', .u1 c] :=
    mapM_three.2 ⟨hl', hr', hc⟩
  have hq' : compute (.add w : Op O) [w.val x', w.val y', .u1 c] =
      some ((w.val (addWithCarry x y c) : Val α), addExtra x y c) := by
    rw [compute_add, hsum, hextra]
  by_cases hpseudo : hasAssociatedPseudoOperation i.id rest = true
  · rw [if_pos hpseudo, ← hcode]
    exact .args hcode rfl hargs' hq' rfl (fun _ _ _ _ => rfl) fun id hid => .inl (hrefs id hid)
  have hquiet := quiet_of_hasAssociatedPseudoOperation hpseudo
  rw [if_neg hpseudo] at hexact ⊢
  cases hcomb : combined before (.op (.add w)) lhs' rhs' with
  | some p =>
    obtain ⟨u, sum⟩ := p
    obtain ⟨a, hu, hxy, hu'⟩ := hran.combined hcomb hl' hr'
    simp only [hcomb, bind_some] at hexact ⊢
    split_ifs at hexact ⊢ with hzero
    · -- the immediates cancel, and there is no carry
      have hcarry : c = false := by simpa [hc] using hexact carry rfl
      refine .copy ?_ (hquiet _) fun id hid => .inr (hu' id hid)
      rw [hu, ← hsum, addWithCarry, hxy, hzero, hcarry]
      simp
    · rw [← hcode]
      refine .args hcode rfl (mapM_three.2 ⟨hu, ?_, hc⟩) (compute_add w a (sum.setWidth w.bits) c) ?_
        (fun j hj p hp => ?_) fun id hid => ?_
      · rw [valOf, ofU64_eq]
      · rw [← hsum, addWithCarry, addWithCarry, hxy]
      · exact (hquiet _ j hj p hp).trans (hquiet (addExtra x y c) j hj p hp).symm
      · simp only [mem_cons, not_mem_nil, or_false, reduceCtorEq, false_or] at hid
        rcases hid with hid | hid
        · exact .inr (hu' id hid.symm)
        · exact .inl (hrefs id (by simp [hid]))
  | none =>
    simp only
    split_ifs with hzero
    · obtain ⟨hzero, hczero⟩ := Bool.and_eq_true_iff.1 hzero
      obtain ⟨-, hrzero⟩ := Bool.and_eq_true_iff.1 hzero
      have hcarry : c = false := by
        simp only [isZero, isUnsignedImmediate, Option.any_eq_true, beq_iff_eq] at hczero
        obtain ⟨k, hk, hk'⟩ := hczero
        obtain rfl : .u1 c = k := Option.some.inj (hc.symm.trans (hran.valOf_of_resolve hk))
        cases c with
        | false => rfl
        | true => simp [asU64] at hk'
      have hy := hran.eq_zero hrzero hr'
      refine .copy ?_ (hquiet _) fun id hid => .inl (hrefs id (by simp [hid]))
      rw [hl', ← hsum, addWithCarry, hy, hcarry]
      simp
    · have hcode' : (⟨i.id, i.code, [lhs', rhs', carry]⟩ : Inst (Op O) (Val α)).code = .op (.add w) := hcode
      have hfold : Visited sem before rest env ⟨i.id, i.code, [lhs', rhs', carry]⟩
          ((w.val (addWithCarry x y c) : Val α), addExtra x y c)
          (Folding.foldAll before ⟨i.id, i.code, [lhs', rhs', carry]⟩ (three fun a b c =>
            w.ofU64 (asU64 a + asU64 b + BitVec.ofNat 64 (getU1 c).toNat)), rest) :=
        .foldAll hran hcode' rfl hargs' hq' (hquiet _) (folds_add O α w)
      rw [← hcode]
      exact hfold.of_refers rfl fun id hid => hrefs id hid

lemma yields_foldAdd
    {v : Value (Val α)} (hv : droppedCarry before i rest = some v) (hset : valOf env v ≠ some (.u1 false)) :
    ∃ r, Yields sem env (foldAdd before i rest w) r ∧ r.val ≠ q.1 := by
  obtain ⟨ka, kb, c, x, y, rfl, ha, hb, rfl⟩ := withCarry_eq_some hq
  obtain rfl := Width.get_eq_some.1 ha
  obtain rfl := Width.get_eq_some.1 hb
  obtain ⟨lhs, rhs, carry, hi, hl, hr, hc⟩ := exists_three hargs
  obtain ⟨x', y', hl', hr', hsum, -, -⟩ := normalizeAdd_spec before c hl hr
  unfold droppedCarry at hv
  unfold Folding.foldAdd
  simp only [hi, hcode] at hv ⊢
  generalize (normalizeAdd before lhs rhs).1 = lhs' at hl' hv ⊢
  generalize (normalizeAdd before lhs rhs).2 = rhs' at hr' hv ⊢
  by_cases hpseudo : hasAssociatedPseudoOperation i.id rest = true
  · simp [hpseudo] at hv
  rw [if_neg hpseudo] at hv ⊢
  obtain ⟨⟨u, sum⟩, hcomb, hv⟩ := bind_eq_some_iff.1 hv
  obtain ⟨a, hu, hxy, -⟩ := hran.combined hcomb hl' hr'
  split_ifs at hv with hzero
  simp only at hzero
  obtain rfl : carry = v := Option.some.inj hv
  have hcarry : c = true := by
    cases c with
    | false => exact absurd hc hset
    | true => rfl
  simp only [hcomb]
  rw [if_pos hzero]
  refine ⟨_, yields_replaceUsesWith hu, fun heq => ?_⟩
  have hone : a = a + BitVec.ofNat w.bits 1 := by
    have := Width.val_inj.1 heq
    rw [← hsum, addWithCarry, hxy, hzero, hcarry] at this
    simpa using this
  cases w <;> simp at hone

end

end Add

/-! ## Carries that are replaced -/

/-- An instruction has at most one `GetCarryFromOp`: the emitter makes it together with the instruction, and
the backends look for the first one. -/
def OneCarry (l : List (Inst (Op O) (Val α))) : Prop :=
  l.Pairwise fun j k => ∀ id, isAssociated .carry id j = true → isAssociated .carry id k = false

section Carry

variable {before rest : List (Inst (Op O) (Val α))} {env : ℕ → Option (Result α (Extra α))}
  {i : Inst (Op O) (Val α)} {ks : List (Val α)} {q : Val α × Extra α} {p : Pseudo} {id : ℕ}
  {v : Value (Val α)}

lemma replaceAssociated_of_none (h : getAssociatedPseudoOperation p id rest = false) :
    replaceAssociated p id v rest = rest := by
  induction rest with
  | nil => rfl
  | cons j rest ih =>
    simp only [getAssociatedPseudoOperation, any_cons, Bool.or_eq_false_iff] at h
    rw [replaceAssociated, h.1, ih h.2]
    rfl

lemma OneCarry.isAssociated_replaceAssociated (h : OneCarry rest) {k : Inst (Op O) (Val α)}
    (hk : k ∈ replaceAssociated .carry id v rest) : isAssociated .carry id k = false := by
  induction rest with
  | nil => simp [replaceAssociated] at hk
  | cons j rest ih =>
    obtain ⟨hj, hrest⟩ := pairwise_cons.1 h
    unfold replaceAssociated at hk
    split_ifs at hk with hassoc
    · rcases mem_cons.1 hk with rfl | hk
      · rfl
      · exact hj k hk id hassoc
    · rcases mem_cons.1 hk with rfl | hk
      · simpa using hassoc
      · exact ih hrest hk

lemma Visited.copyCarry (hone : OneCarry rest) {u : Value (Val α)} {b : Bool}
    (hval : valOf env u = some q.1) (hcarry : q.2 = carryExtra b) (hv : valOf env v = some (.u1 b))
    (hu : ∀ id, u = .inst id → Refers i id) (hrefs : ∀ id, v = .inst id → Refers i id) :
    Visited sem before rest env i q (replaceUsesWith i u, replaceAssociated .carry i.id v rest) where
  id := rfl
  refs id hid := .inl (hu id (by simpa [replaceUsesWith, Refers, eq_comm] using hid))
  yields := by
    refine ⟨_, yields_replaceUsesWith hval, rfl, fun j hj p hp => ?_⟩
    rw [hcarry]
    cases p with
    | carry => simp [hone.isAssociated_replaceAssociated hj] at hp
    | _ => rfl
  rest := .inr ⟨v, b, rfl, hv, by rw [hcarry]; rfl, hrefs⟩

lemma Visited.foldMostSignificantWord (hran : Ran sem before env) (hone : OneCarry rest)
    (hcode : i.code = .op .mostSignificantWord) (hargs : i.args.mapM (valOf env) = some ks)
    (hq : compute (.mostSignificantWord : Op O) ks = some q) :
    Visited sem before rest env i q (foldMostSignificantWord before i rest) := by
  unfold Folding.foldMostSignificantWord
  split
  next k hk =>
    obtain rfl : [k] = ks := Option.some.inj ((hran.mapM_valOf_of_resolve hk).symm.trans hargs)
    have hunary : unary Width.w64.get (fun x => ((.u32 (x.extractLsb' 32 32) : Val α),
        carryExtra (x.getLsbD 31))) [k] = some q := hq
    obtain ⟨a, x, hks, ha, rfl⟩ := unary_eq_some hunary
    obtain rfl := Width.get_eq_some.1 ha
    obtain rfl : k = Width.w64.val x := by simpa using hks
    refine .copyCarry hone ?_ rfl rfl (by simp) (by simp)
    rw [valOf, asU64_val, BitVec.setWidth_eq]
    refine congrArg (fun y => some (Val.u32 y)) ?_
    ext j hj
    simp
  next => exact .keep hcode rfl hargs hq

end Carry

/-! ## Shifts -/

section Shifts

variable {before rest : List (Inst (Op O) (Val α))} {env : ℕ → Option (Result α (Extra α))}
  {i : Inst (Op O) (Val α)} {ks : List (Val α)} {q : Val α × Extra α} {k : Shift}

lemma apply_zero {n : ℕ} (k : Shift) (x : BitVec n) : k.apply x 0 = x := by
  cases k <;> simp [Shift.apply, BitVec.rotateRight, BitVec.rotateRightAux]

lemma carryOut_of_ne_zero {n amount : ℕ} (h : amount ≠ 0) (x : BitVec n) (c c' : Bool) :
    k.carryOut x amount c = k.carryOut x amount c' := by
  unfold Shift.carryOut
  rw [if_neg h, if_neg h]

variable {v : Value (Val α)}

lemma Ran.isZero_amount (hran : Ran sem before env) {n : BitVec 8}
    (hv : valOf env v = some (.u8 n)) (himm : isImmediate before v = true) :
    isZero before v = true ↔ n = 0 := by
  obtain ⟨k, hk⟩ := isSome_iff_exists.1 himm
  obtain rfl : .u8 n = k := Option.some.inj (hv.symm.trans (hran.valOf_of_resolve hk))
  simp only [isZero, isUnsignedImmediate, hk, any_some, asU64, beq_iff_eq]
  constructor
  · intro h
    have := congrArg (BitVec.setWidth 8) h
    rwa [BitVec.setWidth_setWidth_of_le _ (by decide), BitVec.setWidth_eq] at this
  · rintro rfl
    rfl

lemma Ran.amount_eq_zero (hran : Ran sem before env) {n : BitVec 8}
    (hv : valOf env v = some (.u8 n)) (h : isZero before v = true) : n = 0 := by
  refine (hran.isZero_amount hv ?_).1 h
  simp only [isZero, isUnsignedImmediate, Option.any_eq_true] at h
  obtain ⟨l, hl, -⟩ := h
  exact Option.isSome_iff_exists.2 ⟨l, hl⟩

lemma quiet_carryExtra {id : ℕ} (h : getAssociatedPseudoOperation .carry id rest = false) (c : Bool) :
    Quiet rest id (carryExtra c : Extra α) := by
  intro j hj p hp
  cases p with
  | carry =>
    have hassoc : getAssociatedPseudoOperation .carry id rest = true := any_eq_true.2 ⟨j, hj, hp⟩
    simp [h] at hassoc
  | _ => rfl

lemma Visited.foldShift_w32 (hran : Ran sem before env) (hone : OneCarry rest)
    (hcode : i.code = .op (.shift k .w32)) (hargs : i.args.mapM (valOf env) = some ks)
    (hq : compute (.shift k .w32 : Op O) ks = some q) :
    Visited sem before rest env i q (foldShift before i rest k .w32) := by
  obtain ⟨ka, kn, c, x, n, rfl, ha, hn, rfl⟩ := withCarry_eq_some hq
  obtain rfl := Width.get_eq_some.1 ha
  obtain rfl := Size.get_eq_some.1 hn
  obtain ⟨a, amount, carry, hi, hx, hamount, hc⟩ := exists_three hargs
  have hcarryRefs (id : ℕ) (hid : carry = .inst id) : Refers i id := by simp [Refers, hi, hid]
  have haRefs (id : ℕ) (hid : a = .inst id) : Refers i id := by simp [Refers, hi, hid]
  unfold Folding.foldShift foldShifts
  simp only [hi]
  by_cases hzero : isZero before amount = true
  · have hn0 : n = 0 := hran.amount_eq_zero hamount hzero
    subst hn0
    rw [if_pos hzero]
    change Visited sem before rest env i _ (replaceUsesWith i a, replaceAssociated .carry i.id
      (if getAssociatedPseudoOperation .carry i.id rest then carry else .imm (.u1 false)) rest)
    have hval : valOf env a = some (.u32 (k.apply x (0 : BitVec 8).toNat)) := by
      rw [hx]
      exact congrArg (fun y => some (Val.u32 y)) (apply_zero k x).symm
    cases hassoc : getAssociatedPseudoOperation .carry i.id rest with
    | true => exact .copyCarry hone hval rfl (by simpa [Shift.carryOut] using hc) haRefs hcarryRefs
    | false =>
      rw [replaceAssociated_of_none hassoc]
      exact .copy hval (quiet_carryExtra hassoc _) fun id hid => .inl (haRefs id hid)
  rw [if_neg hzero]
  -- the carry in is cut off only where the carry does not depend on it
  generalize hcarry' : (if isImmediate before amount then Value.imm (.u1 false) else
    if getAssociatedPseudoOperation .carry i.id rest then carry else .imm (.u1 false)) = carry'
  obtain ⟨c', hc', hsame, hrefs'⟩ : ∃ c', valOf env carry' = some (.u1 c') ∧
      (getAssociatedPseudoOperation .carry i.id rest = true → k.carryOut x n.toNat c' = k.carryOut x n.toNat c) ∧
      ∀ id, carry' = .inst id → Refers i id := by
    rw [← hcarry']
    split_ifs with himm hassoc
    · refine ⟨false, rfl, fun _ => carryOut_of_ne_zero (fun hn0 => hzero ?_) x false c, by simp⟩
      exact (hran.isZero_amount hamount himm).2 (BitVec.eq_of_toNat_eq hn0)
    · exact ⟨c, hc, fun _ => rfl, hcarryRefs⟩
    · exact ⟨false, rfl, fun h => absurd h hassoc, by simp⟩
  have hstay : Visited sem before rest env i ((.u32 (k.apply x n.toNat) : Val α), carryExtra (k.carryOut x n.toNat c))
      (⟨i.id, i.code, [a, amount, carry']⟩, rest) := by
    have hcomp : compute (.shift k .w32 : Op O) [Width.w32.val x, Size.byte.val n, .u1 c'] =
        some ((.u32 (k.apply x n.toNat) : Val α), carryExtra (k.carryOut x n.toNat c')) := rfl
    refine .args hcode rfl (mapM_three.2 ⟨hx, hamount, hc'⟩) hcomp rfl (fun j hj p hp => ?_) fun id hid => .inl ?_
    · cases p with
      | carry =>
        have hassoc := any_eq_true.2 ⟨j, hj, hp⟩
        rw [hsame hassoc]
      | _ => rfl
    · simp only [mem_cons, not_mem_nil, or_false] at hid
      rcases hid with hid | hid | hid
      · exact haRefs id hid.symm
      · simp [Refers, hi, hid]
      · exact hrefs' id hid.symm
  dsimp only
  split
  next l m hgo hl hm =>
    have hassoc : getAssociatedPseudoOperation .carry i.id rest = false := by
      simpa using (Bool.and_eq_true_iff.1 hgo).2
    obtain rfl : Width.w32.val x = l := Option.some.inj (hx.symm.trans (hran.valOf_of_resolve hl))
    obtain rfl : Size.byte.val n = m := Option.some.inj (hamount.symm.trans (hran.valOf_of_resolve hm))
    refine .copy ?_ (quiet_carryExtra hassoc _) (by simp)
    rw [valOf, safeShift_eq, getImm_val, ofU64_eq, setWidth_setWidth_bits]
    rfl
  next => exact hstay

lemma Visited.foldShift_w64 (hran : Ran sem before env) (hcode : i.code = .op (.shift k .w64))
    (hargs : i.args.mapM (valOf env) = some ks) (hq : compute (.shift k .w64 : Op O) ks = some q) :
    Visited sem before rest env i q (foldShift before i rest k .w64) := by
  have hkeep : Visited sem before rest env i q (i, rest) := .keep hcode rfl hargs hq
  obtain ⟨ka, kn, x, n, rfl, ha, hn, rfl⟩ := binary_eq_some hq
  obtain rfl := Width.get_eq_some.1 ha
  obtain rfl := Size.get_eq_some.1 hn
  obtain ⟨a, amount, hi, hx, hamount⟩ := exists_two hargs
  have hquiet (v : Val α) : Quiet rest i.id (v, (noExtra : Extra α)).2 := fun _ _ _ _ => rfl
  unfold Folding.foldShift foldShifts
  simp only [hi]
  by_cases hzero : isZero before amount = true
  · have hn0 : n = 0 := hran.amount_eq_zero hamount hzero
    subst hn0
    rw [if_pos hzero]
    refine .copy ?_ (hquiet _) fun id hid => .inl (by simp [Refers, hi, hid])
    rw [hx]
    exact congrArg (fun y => some (Val.u64 y)) (apply_zero k x).symm
  rw [if_neg hzero]
  simp only [hi]
  split
  next l m hgo hl hm =>
    obtain rfl : Width.w64.val x = l := Option.some.inj (hx.symm.trans (hran.valOf_of_resolve hl))
    obtain rfl : Size.byte.val n = m := Option.some.inj (hamount.symm.trans (hran.valOf_of_resolve hm))
    refine .copy ?_ (hquiet _) (by simp)
    rw [valOf, safeShift_eq, getImm_val, ofU64_eq, setWidth_setWidth_bits]
    rfl
  next => exact hkeep

end Shifts

/-! ## Every instruction -/

section Visit

variable {before rest : List (Inst (Op O) (Val α))} {env : ℕ → Option (Result α (Extra α))}
  {i : Inst (Op O) (Val α)} {op : Op O} {ks : List (Val α)} {q : Val α × Extra α}

/-- The operations without carry, overflow and flags. -/
def Op.isPlain : Op O → Bool
  | .mostSignificantWord | .shift _ .w32 | .add _ | .sub _ | .and _ | .eor _ | .or _ | .not _ => false
  | op => op.isKnown

lemma noExtra_of_isPlain (hop : op.isPlain = true) (hq : compute op ks = some q) : q.2 = noExtra := by
  cases op with
  | mostSignificantWord | add w | sub w | and w | eor w | or w | not w | pseudo p | other o =>
    simp [Op.isPlain, Op.isKnown] at hop
  | shift k w =>
    cases w with
    | w32 => simp [Op.isPlain] at hop
    | w64 =>
      obtain ⟨_, _, _, _, _, _, _, rfl⟩ := binary_eq_some hq
      rfl
  | shiftMasked k w | mul w | div signed w =>
    obtain ⟨_, _, _, _, _, _, _, rfl⟩ := binary_eq_some hq
    rfl
  | getNZFromOp =>
    obtain ⟨_, -, rfl⟩ := map_eq_some_iff.1 hq
    rfl
  | leastSignificantWord | leastSignificantHalf | leastSignificantByte | mostSignificantBit | isZero w
  | signExtend s w | zeroExtend s w | byteReverseWord | byteReverseHalf | byteReverseDual
  | countLeadingZeros w =>
    obtain ⟨_, _, _, _, rfl⟩ := unary_eq_some hq
    rfl

lemma quiet_of_isPlain (hop : op.isPlain = true) (hq : compute op ks = some q) (id : ℕ) :
    Quiet rest id q.2 := by
  intro j _ p _
  rw [noExtra_of_isPlain hop hq]
  rfl

lemma quiet_logicExtra {id n : ℕ} (h : getAssociatedPseudoOperation .nzcv id rest = false)
    (x : BitVec n) : Quiet rest id (logicExtra x : Extra α) := by
  intro j hj p hp
  cases p with
  | nzcv =>
    have hassoc : getAssociatedPseudoOperation .nzcv id rest = true := any_eq_true.2 ⟨j, hj, hp⟩
    simp [h] at hassoc
  | _ => rfl

lemma quiet_of_logic (hop : ∃ w, op = .and w ∨ op = .eor w ∨ op = .or w ∨ op = .not w)
    (hq : compute op ks = some q) {id : ℕ} (h : getAssociatedPseudoOperation .nzcv id rest = false) :
    Quiet rest id q.2 := by
  obtain ⟨w, rfl | rfl | rfl | rfl⟩ := hop
  · obtain ⟨_, _, _, _, _, _, _, rfl⟩ := binary_eq_some hq
    exact quiet_logicExtra h _
  · obtain ⟨_, _, _, _, _, _, _, rfl⟩ := binary_eq_some hq
    exact quiet_logicExtra h _
  · obtain ⟨_, _, _, _, _, _, _, rfl⟩ := binary_eq_some hq
    exact quiet_logicExtra h _
  · obtain ⟨_, _, _, _, rfl⟩ := unary_eq_some hq
    exact quiet_logicExtra h _

lemma Visited.visit [DecidableEq O] (hran : Ran sem before env) (hone : OneCarry rest)
    (hcode : i.code = .op op) (hop : op.isKnown = true) (hargs : i.args.mapM (valOf env) = some ks)
    (hq : compute op ks = some q) (hdiv : dividesMinimumByOnes before i = false)
    (hadd : ∀ v, droppedCarry before i rest = some v → valOf env v = some (.u1 false)) :
    Visited sem before rest env i q (visit before i rest) := by
  have hkeep : Visited sem before rest env i q (i, rest) := .keep hcode hop hargs hq
  unfold Folding.visit
  simp only [hcode]
  by_cases hskip : (mayGetNZCVFromOp op && getAssociatedPseudoOperation .nzcv i.id rest) = true
  · rw [if_pos hskip]
    exact hkeep
  rw [if_neg hskip]
  have hnzcv (hmay : mayGetNZCVFromOp op = true) : getAssociatedPseudoOperation .nzcv i.id rest = false := by
    simpa [hmay] using hskip
  have hfold {f : List (Val α) → Option (Val α)} (hplain : op.isPlain = true) (hf : Folds op f) :
      Visited sem before rest env i q (Folding.foldAll before i f, rest) :=
    .foldAll hran hcode hop hargs hq (quiet_of_isPlain hplain hq _) hf
  cases op with
  | leastSignificantWord => exact hfold rfl (folds_leastSignificantWord O α)
  | leastSignificantHalf => exact hfold rfl (folds_leastSignificantHalf O α)
  | leastSignificantByte => exact hfold rfl (folds_leastSignificantByte O α)
  | mostSignificantWord => exact .foldMostSignificantWord hran hone hcode hargs hq
  | mostSignificantBit => exact hfold rfl (folds_mostSignificantBit O α)
  | isZero w => exact hfold rfl (folds_isZero O α w)
  | shift k w =>
    cases w with
    | w32 => exact .foldShift_w32 hran hone hcode hargs hq
    | w64 => exact .foldShift_w64 hran hcode hargs hq
  | shiftMasked k w => exact hfold rfl (folds_shiftMasked O α k w)
  | add w => exact .foldAdd hran hcode hargs hq hadd
  | sub w =>
    change Visited sem before rest env i q (foldSub before i rest w, rest)
    unfold foldSub
    split_ifs with hpseudo
    · exact hkeep
    · exact .foldAll hran hcode hop hargs hq (quiet_of_hasAssociatedPseudoOperation hpseudo _) (folds_sub O α w)
  | mul w => exact .foldMultiply hran hcode hargs hq (quiet_of_isPlain rfl hq _)
  | div signed w => exact .foldDivide hran hcode hargs hq hdiv
  | and w => exact .foldAND hran hcode hargs hq (quiet_of_logic ⟨w, by simp⟩ hq (hnzcv rfl))
  | eor w => exact .foldEOR hran hcode hargs hq (quiet_of_logic ⟨w, by simp⟩ hq (hnzcv rfl))
  | or w => exact .foldOR hran hcode hargs hq (quiet_of_logic ⟨w, by simp⟩ hq (hnzcv rfl))
  | not w =>
    exact .foldAll hran hcode hop hargs hq (quiet_of_logic ⟨w, by simp⟩ hq (hnzcv rfl))
      (folds_not O α w)
  | signExtend s w =>
    cases w with
    | w32 => exact hfold rfl (folds_signExtend_word O α s)
    | w64 => exact hfold rfl (folds_signExtend_long O α s)
  | zeroExtend s w =>
    cases w with
    | w32 => exact hfold rfl (folds_zeroExtend_word O α s)
    | w64 => exact hfold rfl (folds_zeroExtend_long O α s)
  | byteReverseWord => exact hfold rfl (folds_byteReverseWord O α)
  | byteReverseHalf => exact hfold rfl (folds_byteReverseHalf O α)
  | byteReverseDual => exact hfold rfl (folds_byteReverseDual O α)
  | countLeadingZeros w => exact hfold rfl (folds_countLeadingZeros O α w)
  | getNZFromOp => exact hkeep
  | pseudo p | other o => simp [Op.isKnown] at hop

end Visit

end Voltemu.Dynarmic.Folding
