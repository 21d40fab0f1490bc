import Voltemu.Dynarmic.A32FlagsPass
import Voltemu.Dynarmic.Rewriting

/-!
# What `FlagsPass` preserves

The walk goes from the end of the block to its start, and so does the proof.  `Sound` is what holds of the
rewritten instructions after the current one: from a state that differs from the original one in dead flags
only, they reach the state that the original instructions reach.  A pending request can be answered in any
way that is right for the original state; a flag with a request that nobody answers is not dead.

* `Sound.visit` — one instruction, one lemma for each kind;
* `flagsPass_sound` — the whole block.
-/

namespace Voltemu.Dynarmic.A32Flags

open Voltemu.Lib Machine Function List

variable {O α ε σ : Type*} {tables : Opcodes O} {sem : FlagsSemantics tables α ε σ}

/-! ## Dead flags -/

/-- The flags that nothing reads before they are overwritten; N and Z go together. -/
structure Dead where
  nz : Bool
  c : Bool
  v : Bool
  q : Bool
  ge : Bool

/-- The same flags, except for dead ones. -/
structure AgreeFlags (d : Dead) (f f' : Flags) : Prop where
  n : d.nz = false → f'.n = f.n
  z : d.nz = false → f'.z = f.z
  c : d.c = false → f'.c = f.c
  v : d.v = false → f'.v = f.v
  q : d.q = false → f'.q = f.q
  ge : d.ge = false → f'.ge = f.ge

structure Agree (d : Dead) (s s' : State O α (Guest σ)) : Prop where
  flags : AgreeFlags d s.guest.flags s'.guest.flags
  rest : s'.guest.rest = s.guest.rest
  events : s'.events = s.events

lemma Agree.refl (d : Dead) (s : State O α (Guest σ)) : Agree d s s :=
  ⟨⟨fun _ => rfl, fun _ => rfl, fun _ => rfl, fun _ => rfl, fun _ => rfl, fun _ => rfl⟩, rfl, rfl⟩

variable {d : Dead} {s s' : State O α (Guest σ)}

/-- With nothing dead, the states are the same. -/
lemma Agree.eq (h : Agree d s s') (hnz : d.nz = false) (hc : d.c = false) (hv : d.v = false) (hq : d.q = false)
    (hge : d.ge = false) : s' = s := by
  obtain ⟨⟨⟨n, z, c, v, q, ge⟩, rest⟩, events⟩ := s
  obtain ⟨⟨⟨n', z', c', v', q', ge'⟩, rest'⟩, events'⟩ := s'
  obtain ⟨⟨hn', hz', hc', hv', hq', hge'⟩, hrest, hevents⟩ := h
  simp only at hn' hz' hc' hv' hq' hge' hrest hevents
  rw [hn' hnz, hz' hnz, hc' hc, hv' hv, hq' hq, hge' hge, hrest, hevents]

lemma Agree.eq_change (h : Agree d s s') : s' = s.change (.setFlags s'.guest.flags) := by
  obtain ⟨⟨f, rest⟩, events⟩ := s
  obtain ⟨⟨f', rest'⟩, events'⟩ := s'
  obtain ⟨-, hrest, hevents⟩ := h
  simp only at hrest hevents
  simp [State.change, Guest.setFlags, hrest, hevents]

/-! ## Requests -/

def answerWith (request : Option ℕ) (v : Option (Value (Val α))) (l : List (Inst (Op O) (Val α))) :
    List (Inst (Op O) (Val α)) :=
  match v with
  | some v => answer request v l
  | none => l

section Requests

variable {request request' : Option ℕ} {v w : Option (Value (Val α))}
  {l : List (Inst (Op O) (Val α))} {i : Inst (Op O) (Val α)}

lemma answer_cons {v : Value (Val α)} (h : request ≠ some i.id) :
    answer request v (i :: l) = i :: answer request v l := by
  cases request with
  | none => rfl
  | some id =>
    have hid : i.id ≠ id := fun hid => h (by rw [hid])
    simp [answer, hid]

lemma answerWith_cons (h : request ≠ some i.id) : answerWith request v (i :: l) = i :: answerWith request v l := by
  cases v with
  | none => rfl
  | some v => exact answer_cons h

lemma answer_of_notMem {v : Value (Val α)} (h : ∀ id, request = some id → ∀ j ∈ l, j.id ≠ id) :
    answer request v l = l := by
  cases request with
  | none => rfl
  | some id =>
    conv_rhs => rw [← map_id l]
    exact map_congr_left fun j hj => if_neg (h id rfl j hj)

lemma answerWith_comm (h : ∀ id, request = some id → request' ≠ some id) :
    answerWith request v (answerWith request' w l) = answerWith request' w (answerWith request v l) := by
  cases v with
  | none => rfl
  | some v =>
    cases w with
    | none => rfl
    | some w =>
      cases request with
      | none => rfl
      | some a =>
        cases request' with
        | none => rfl
        | some b =>
          have hab : a ≠ b := fun hab => h a rfl (by rw [hab])
          simp only [answerWith, answer, map_map]
          refine map_congr_left fun j _ => ?_
          by_cases hja : j.id = a
          · simp [hja, hab]
          · by_cases hjb : j.id = b
            · simp [hjb, Ne.symm hab]
            · simp [hja, hjb]

lemma mem_answerWith {j : Inst (Op O) (Val α)} (h : j ∈ answerWith request v l) : ∃ k ∈ l, k.id = j.id := by
  cases v with
  | none => exact ⟨j, h, rfl⟩
  | some v =>
    cases request with
    | none => exact ⟨j, h, rfl⟩
    | some id =>
      obtain ⟨k, hk, rfl⟩ := mem_map.1 h
      refine ⟨k, hk, ?_⟩
      split_ifs <;> rfl

end Requests

/-- The flags that are dead after the current instruction, if the given requests are answered. -/
def dead (st : PassState O α) (vc vg : Option (Value (Val α))) : Dead where
  nz := st.nz || st.nzcv || st.nzcvq
  c := (st.cFlag.setNotRequired || st.nzcv || st.nzcvq) && (st.cFlag.valueRequest.isNone || vc.isSome)
  v := st.nzcv || st.nzcvq
  q := st.nzcvq
  ge := st.ge.setNotRequired && (st.ge.valueRequest.isNone || vg.isSome)

def answered (st : PassState O α) (vc vg : Option (Value (Val α))) : List (Inst (Op O) (Val α)) :=
  answerWith st.cFlag.valueRequest vc (answerWith st.ge.valueRequest vg st.after)

/-- The answers are right for the original state. -/
structure Answers (sem : FlagsSemantics tables α ε σ) (s : State O α (Guest σ))
    (env : ℕ → Option (Result α ε)) (vc vg : Option (Value (Val α))) : Prop where
  c : ∀ v, vc = some v → ∃ rv, (machine sem).eval env v = some rv ∧ rv.val = .u1 s.guest.flags.c
  ge : ∀ v, vg = some v → ∃ rv, (machine sem).eval env v = some rv ∧ rv.val = .u32 s.guest.flags.ge

/-- A value that no instruction of the list names. -/
def Outside (l : List (Inst (Op O) (Val α))) (v : Option (Value (Val α))) : Prop :=
  ∀ id, v = some (.inst id) → ∀ j ∈ l, j.id ≠ id

/-- Names and requests in the middle of the walk; the original instructions to come have been `S`, with names
below `N`. -/
structure Names (N : ℕ) (S : List (Inst (Op O) (Val α))) (st : PassState O α) : Prop where
  ids : ∀ j ∈ st.after, (∃ k ∈ S, k.id = j.id) ∨ N ≤ j.id ∧ j.id < st.fresh
  fresh : N ≤ st.fresh
  reqC : ∀ id, st.cFlag.valueRequest = some id → ∃ k ∈ S, k.id = id
  reqG : ∀ id, st.ge.valueRequest = some id → ∃ k ∈ S, k.id = id
  distinct : ∀ id, st.cFlag.valueRequest = some id → st.ge.valueRequest ≠ some id
  lt : ∀ k ∈ S, k.id < N

/-- **What the rewritten instructions do**, where the original block has the state `s` and the results `env`
and goes on to the final state `t`. -/
def Sound (sem : FlagsSemantics tables α ε σ) (N : ℕ) (st : PassState O α)
    (s : State O α (Guest σ)) (env : ℕ → Option (Result α ε)) (t : State O α (Guest σ)) : Prop :=
  ∀ vc vg s' env', Outside st.after vc → Outside st.after vg → Agree (dead st vc vg) s s' →
    (∀ id, id < N → env' id = env id) → Answers sem s env' vc vg →
    ∃ e', (machine sem).exec (answered st vc vg) (s', env') = some (t, e')

/-! ## Steps -/

def Op.isSet : Op O → Bool
  | .setCpsrNZCV | .setCpsrNZCVRaw | .setCpsrNZCVQ | .setCpsrNZ | .setCpsrNZC | .setGEFlags
  | .setGEFlagsCompressed | .orQFlag => true
  | .getCFlag | .getGEFlags | .getCFlagFromNZCV | .other _ => false

def Op.isGet : Op O → Bool
  | .getCFlag | .getGEFlags | .getCFlagFromNZCV => true
  | _ => false

section Steps

variable {op : Op O} {rs : List (Result α ε)} {s1 : State O α (Guest σ)} {i : Inst (Op O) (Val α)}
  {env env1 env' : ℕ → Option (Result α ε)} {f1 : Flags}

lemma step_set (h : op.isSet = true) : step sem op rs s =
    (setFlags s.guest.flags op (rs.map (·.val))).map fun f => (none, s.change (.setFlags f)) := by
  cases op <;> first | rfl | simp [Op.isSet] at h

lemma step_get (h : op.isGet = true) : step sem op rs s =
    (getFlags s.guest.flags op (rs.map (·.val))).map fun v => (some ⟨v, none⟩, s) := by
  cases op <;> first | rfl | simp [Op.isGet] at h

section

variable (hcode : i.code = .op op)
include hcode

lemma execInst_set (hop : op.isSet = true) (hexec : (machine sem).execInst i (s, env) = some (s1, env1)) :
    ∃ rs f, i.args.mapM ((machine sem).eval env) = some rs ∧
      setFlags s.guest.flags op (rs.map (·.val)) = some f ∧ s1 = s.change (.setFlags f) ∧ env1 = env := by
  obtain ⟨res, hres, henv⟩ := execInst_eq_some.1 hexec
  simp only [result, hcode, Option.bind_eq_some_iff] at hres
  obtain ⟨rs, hargs, hstep⟩ := hres
  change step sem op rs s = _ at hstep
  rw [step_set hop, Option.map_eq_some_iff] at hstep
  obtain ⟨f, hf, hq⟩ := hstep
  obtain ⟨rfl, rfl⟩ := hq
  exact ⟨rs, f, hargs, hf, rfl, henv.symm⟩

lemma execInst_set_intro (hop : op.isSet = true) (hargs : i.args.mapM ((machine sem).eval env) = some rs)
    (hf : setFlags s.guest.flags op (rs.map (·.val)) = some f1) :
    (machine sem).execInst i (s, env) = some (s.change (.setFlags f1), env) := by
  refine execInst_eq_some.2 ⟨none, ?_, rfl⟩
  simp only [result, hcode, hargs, Option.bind_some]
  change step sem op rs s = _
  rw [step_set hop, hf, Option.map_some]

lemma exec_invalidateIf (hop : op.isSet = true) (b : Bool) (hargs : i.args.mapM ((machine sem).eval env) = some rs)
    (hf : setFlags s.guest.flags op (rs.map (·.val)) = some f1) :
    (machine sem).exec [invalidateIf b i] (s, env) =
      some (s.change (.setFlags (if b then s.guest.flags else f1)), env) := by
  rw [exec_singleton]
  cases b with
  | true => rfl
  | false => exact execInst_set_intro hcode hop hargs hf

lemma result_get (hop : op.isGet = true) {res : Option (Result α ε)}
    (hres : (machine sem).result i s env = some (res, s1)) :
    ∃ rs v, i.args.mapM ((machine sem).eval env) = some rs ∧
      getFlags s.guest.flags op (rs.map (·.val)) = some v ∧ res = some ⟨v, none⟩ ∧ s1 = s := by
  simp only [result, hcode, Option.bind_eq_some_iff] at hres
  obtain ⟨rs, hargs, hstep⟩ := hres
  change step sem op rs s = _ at hstep
  rw [step_get hop, Option.map_eq_some_iff] at hstep
  obtain ⟨v, hv, hq⟩ := hstep
  simp only [Prod.mk.injEq] at hq
  exact ⟨rs, v, hargs, hv, hq.1.symm, hq.2.symm⟩

lemma result_get_intro (hop : op.isGet = true) {v : Val α} (hargs : i.args.mapM ((machine sem).eval env) = some rs)
    (hv : getFlags s.guest.flags op (rs.map (·.val)) = some v) :
    (machine sem).result i s env = some (some ⟨v, none⟩, s) := by
  simp only [result, hcode, hargs, Option.bind_some]
  change step sem op rs s = _
  rw [step_get hop, hv, Option.map_some]

end

lemma Agree.change (h : Agree d s s') {d' : Dead} {f f' : Flags} (hf : AgreeFlags d' f f') :
    Agree d' (s.change (.setFlags f)) (s'.change (.setFlags f')) :=
  ⟨hf, h.rest, h.events⟩

end Steps

/-! ## Flags under a Set -/

section SetFlags

variable {nz nzcv nzcvq snr req ge : Bool} {f f' : Flags}

lemma AgreeFlags.setCpsrNZ (h : AgreeFlags ⟨true, snr && req, false, false, ge⟩ f f') (b : BitVec 4) :
    AgreeFlags ⟨nz || nzcv || nzcvq, (snr || nzcv || nzcvq) && req, nzcv || nzcvq, nzcvq, ge⟩
      (f.withNZ b) (if nz then f' else f'.withNZ b) := by
  obtain ⟨-, -, hc, hv, hq, hge⟩ := h
  constructor <;> grind [Flags.withNZ]

lemma AgreeFlags.setCpsrNZCV (h : AgreeFlags ⟨true, true, true, nzcvq, ge⟩ f f') (b : BitVec 4) (hreq : req = true) :
    AgreeFlags ⟨nz || nzcv || nzcvq, (snr || nzcv || nzcvq) && req, nzcv || nzcvq, nzcvq, ge⟩
      (f.withNZCV b) (if nzcv then f' else f'.withNZCV b) := by
  obtain ⟨-, -, -, -, hq, hge⟩ := h
  constructor <;> grind [Flags.withNZCV]

lemma AgreeFlags.setCpsrNZCVRaw (h : AgreeFlags ⟨true, true, true, false, ge⟩ f f') (w : BitVec 32) :
    AgreeFlags ⟨nz || nzcv || nzcvq, (snr || nzcv || nzcvq) && req, nzcv || nzcvq, nzcvq, ge⟩
      (f.withNZCVRaw w) (if nzcv && req then f' else f'.withNZCVRaw w) := by
  obtain ⟨-, -, -, -, hq, hge⟩ := h
  constructor <;> grind [Flags.withNZCVRaw]

lemma AgreeFlags.setCpsrNZCVQ (h : AgreeFlags ⟨true, true, true, true, ge⟩ f f') (w : BitVec 32) :
    AgreeFlags ⟨nz || nzcv || nzcvq, (snr || nzcv || nzcvq) && req, nzcv || nzcvq, nzcvq, ge⟩
      { f.withNZCVRaw w with q := w.getLsbD 27 }
      (if nzcvq && req then f' else { f'.withNZCVRaw w with q := w.getLsbD 27 }) := by
  obtain ⟨-, -, -, -, -, hge⟩ := h
  constructor <;> grind [Flags.withNZCVRaw]

lemma AgreeFlags.setCpsrNZC (h : AgreeFlags ⟨true, true, false, false, ge⟩ f f') (b : BitVec 4)
    (c : Bool) (hreq : req = true) :
    AgreeFlags ⟨nz || nzcv || nzcvq, (snr || nzcv || nzcvq) && req, nzcv || nzcvq, nzcvq, ge⟩
      { f.withNZ b with c := c }
      (if nz && snr then f' else if nz then { f'.withNZ 0 with c := c }
        else { f'.withNZ b with c := c }) := by
  obtain ⟨-, -, -, hv, hq, hge⟩ := h
  constructor <;> grind [Flags.withNZ]

variable {c q v : Bool}

lemma AgreeFlags.setCpsrNZC_same (h : AgreeFlags ⟨true, snr, false, false, ge⟩ f f') (b : BitVec 4)
    (hfc : f.c = c) (hreq : req = true) :
    AgreeFlags ⟨nz || nzcv || nzcvq, (snr || nzcv || nzcvq) && req, nzcv || nzcvq, nzcvq, ge⟩
      { f.withNZ b with c := c } (f'.withNZ b) := by
  obtain ⟨-, -, hc, hv, hq, hge⟩ := h
  constructor <;> grind [Flags.withNZ]

lemma AgreeFlags.setGE (h : AgreeFlags ⟨nz, c, v, q, true⟩ f f') (w : BitVec 32) :
    AgreeFlags ⟨nz, c, v, q, ge⟩ { f with ge := w } (if ge then f' else { f' with ge := w }) := by
  obtain ⟨hn, hz, hc, hv, hq, -⟩ := h
  constructor <;> grind

lemma AgreeFlags.setGECompressed (h : AgreeFlags ⟨nz, c, v, q, true⟩ f f')
    (w : BitVec 32) : AgreeFlags ⟨nz, c, v, q, ge⟩ (f.withGECompressed w) (f'.withGECompressed w) := by
  obtain ⟨hn, hz, hc, hv, hq, -⟩ := h
  constructor <;> grind [Flags.withGECompressed]

lemma AgreeFlags.orQ {d : Dead} (h : AgreeFlags d f f') (b : Bool) :
    AgreeFlags d { f with q := f.q || b } { f' with q := f'.q || b } := by
  obtain ⟨hn, hz, hc, hv, hq, hge⟩ := h
  constructor <;> grind

end SetFlags

/-! ## One instruction -/

lemma Agree.mono {d' : Dead} (h : Agree d s s') (hnz : d'.nz = false → d.nz = false) (hc : d'.c = false → d.c = false)
    (hv : d'.v = false → d.v = false) (hq : d'.q = false → d.q = false)
    (hge : d'.ge = false → d.ge = false) : Agree d' s s' :=
  ⟨⟨fun hd => h.flags.n (hnz hd), fun hd => h.flags.z (hnz hd), fun hd => h.flags.c (hc hd),
    fun hd => h.flags.v (hv hd), fun hd => h.flags.q (hq hd), fun hd => h.flags.ge (hge hd)⟩,
    h.rest, h.events⟩

/-- The current instruction `i` of the original block, after which `S` follows. -/
structure Current (sem : FlagsSemantics tables α ε σ) (N : ℕ) (S : List (Inst (Op O) (Val α)))
    (st : PassState O α) (i : Inst (Op O) (Val α)) (s : State O α (Guest σ))
    (env : ℕ → Option (Result α ε)) (s1 : State O α (Guest σ)) (env1 : ℕ → Option (Result α ε)) :
    Prop where
  names : Names N S st
  exec : (machine sem).execInst i (s, env) = some (s1, env1)
  id_lt : i.id < N
  id_ne : ∀ k ∈ S, k.id ≠ i.id
  refs : ∀ id, Refers i id → id < N ∧ id ≠ i.id ∧ ∀ k ∈ S, k.id ≠ id

section Current

variable {N : ℕ} {S : List (Inst (Op O) (Val α))} {st : PassState O α} {i : Inst (Op O) (Val α)}
  {s1 t : State O α (Guest σ)} {env env1 env' : ℕ → Option (Result α ε)} {vc vg : Option (Value (Val α))}

namespace Current

variable (cur : Current sem N S st i s env s1 env1)

include cur

lemma reqC_ne : st.cFlag.valueRequest ≠ some i.id := by
  intro h
  obtain ⟨k, hk, hki⟩ := cur.names.reqC _ h
  exact cur.id_ne k hk hki

lemma reqG_ne : st.ge.valueRequest ≠ some i.id := by
  intro h
  obtain ⟨k, hk, hki⟩ := cur.names.reqG _ h
  exact cur.id_ne k hk hki

lemma after_ne {j : Inst (Op O) (Val α)} (hj : j ∈ st.after) : j.id ≠ i.id := by
  rcases cur.names.ids j hj with ⟨k, hk, hkj⟩ | ⟨hN, -⟩
  · rw [← hkj]
    exact cur.id_ne k hk
  · have := cur.id_lt
    omega

/-- An argument of the current instruction is not given later. -/
lemma arg_outside {v : Value (Val α)} (hv : v ∈ i.args) : Outside st.after (some v) := by
  intro id hid j hj hjid
  obtain rfl : v = .inst id := by simpa using hid
  obtain ⟨hlt, -, hS⟩ := cur.refs id hv
  rcases cur.names.ids j hj with ⟨k, hk, hkj⟩ | ⟨hN, -⟩
  · exact hS k hk (hkj.trans hjid)
  · omega

lemma args_eq (henv : ∀ id, id < N → env' id = env id) :
    i.args.mapM ((machine sem).eval env') = i.args.mapM ((machine sem).eval env) :=
  mapM_eval_congr fun id hid => henv id (cur.refs id hid).1

lemma result_eq : ∃ res, (machine sem).result i s env = some (res, s1) ∧ env1 = bindResult env i.id res := by
  obtain ⟨res, hres, henv1⟩ := execInst_eq_some.1 cur.exec
  exact ⟨res, hres, henv1.symm⟩

lemma exec_set {op : Op O} (hcode : i.code = .op op) (hop : op.isSet = true) (henv : ∀ id, id < N → env' id = env id) :
    ∃ rs f, i.args.mapM ((machine sem).eval env') = some rs ∧
      setFlags s.guest.flags op (rs.map (·.val)) = some f ∧ s1 = s.change (.setFlags f) ∧ env1 = env ∧
      ∀ b s' f', setFlags s'.guest.flags op (rs.map (·.val)) = some f' →
        (machine sem).exec [invalidateIf b i] (s', env') =
          some (s'.change (.setFlags (if b then s'.guest.flags else f')), env') := by
  obtain ⟨rs, f, hargs, hf, hs, he⟩ := execInst_set hcode hop cur.exec
  have hargs' := (cur.args_eq henv).trans hargs
  exact ⟨rs, f, hargs', hf, hs, he, fun b s' f' hf' => exec_invalidateIf hcode hop b hargs' hf'⟩

end Current

variable {request : Option ℕ} {v c nz : Value (Val α)} {l before : List (Inst (Op O) (Val α))}
  {w : Option (Value (Val α))}

lemma Outside.of_answer (h : Outside (answer request v l) w) : Outside l w := by
  intro id hid j hj
  cases request with
  | none => exact h id hid j hj
  | some r =>
    have := h id hid _ (mem_map_of_mem (f := fun i : Inst (Op O) (Val α) =>
      if i.id = r then ⟨i.id, .identity, [v]⟩ else i) hj)
    split_ifs at this with hr <;> exact this

lemma Outside.tail (h : Outside (i :: l) w) : Outside l w :=
  fun id hid j hj => h id hid j (mem_cons_of_mem _ hj)

lemma eval_update (h : Outside (i :: l) (some v))
    (r : Option (Result α ε)) : (machine sem).eval (bindResult env' i.id r) v = (machine sem).eval env' v :=
  eval_congr fun id hid => bindResult_of_ne (h id (by rw [hid]) i mem_cons_self).symm r

/-- What is left to do after the instructions in place of the current one. -/
lemma Sound.prepend (h : Sound sem N st s1 env1 t) {s1' : State O α (Guest σ)}
    {env1' : ℕ → Option (Result α ε)} {pre : List (Inst (Op O) (Val α))}
    (hpre : (machine sem).exec pre (s', env') = some (s1', env1')) (hoc : Outside st.after vc)
    (hog : Outside st.after vg) (hagree : Agree (dead st vc vg) s1 s1')
    (henv : ∀ id, id < N → env1' id = env1 id) (hans : Answers sem s1 env1' vc vg) :
    ∃ e', (machine sem).exec (pre ++ answered st vc vg) (s', env') = some (t, e') := by
  obtain ⟨e', he'⟩ := h vc vg s1' env1' hoc hog hagree henv hans
  exact ⟨e', exec_append_eq_some.2 ⟨_, hpre, he'⟩⟩

/-- The current instruction with an answer, if it is itself a request. -/
def answerInst (i : Inst (Op O) (Val α)) : Option (Value (Val α)) → Inst (Op O) (Val α)
  | some v => ⟨i.id, .identity, [v]⟩
  | none => i

lemma answerWith_self (h : ∀ j ∈ l, j.id ≠ i.id)
    (v : Option (Value (Val α))) : answerWith (some i.id) v (i :: l) = answerInst i v :: l := by
  cases v with
  | none => rfl
  | some v =>
    have hl : answer (some i.id) v l = l :=
      answer_of_notMem fun id hid j hj => by
        obtain rfl : i.id = id := by simpa using hid
        exact h j hj
    have hcons : answer (some i.id) v (i :: l) = answerInst i (some v) :: answer (some i.id) v l := by
      simp [answer, answerInst]
    exact hcons.trans (by rw [hl])

/-- A Get in the rewritten block: it stays and reads the same, or it copies a right answer. -/
lemma execInst_answerInst {v : Option (Value (Val α))} {x : Val α}
    (hstay : v = none → (machine sem).result i s' env' = some (some ⟨x, none⟩, s'))
    (hcopy : ∀ w, v = some w → ∃ rv, (machine sem).eval env' w = some rv ∧ rv.val = x) :
    (machine sem).exec [answerInst i v] (s', env') = some (s', bindResult env' i.id (some ⟨x, none⟩)) := by
  rw [exec_singleton]
  cases v with
  | none => exact execInst_eq_some.2 ⟨_, hstay rfl, rfl⟩
  | some w =>
    obtain ⟨rv, hrv, hx⟩ := hcopy w rfl
    refine execInst_eq_some.2 ⟨some ⟨x, none⟩, ?_, rfl⟩
    simp only [result, answerInst, head?_cons, Option.bind_some, hrv, Option.map_some]
    rw [← hx]
    rfl

section

variable (h : Sound sem N st s1 env1 t) (cur : Current sem N S st i s env s1 env1)
include h cur

lemma Sound.getCFlag (hcode : i.code = .op .getCFlag) : Sound sem N (getCFlag st i) s env t := by
  intro vc vg s' env' hoc hog hagree henv hans
  obtain ⟨res, hres, henv1⟩ := cur.result_eq
  obtain ⟨rs, v, hargs, hv, rfl, hs⟩ := result_get hcode rfl hres
  obtain rfl : s = s1 := hs.symm
  obtain ⟨hrs, rfl⟩ : rs.map (·.val) = [] ∧ v = .u1 s.guest.flags.c := by
    generalize rs.map (·.val) = vs at hv
    cases vs with
    | nil => exact ⟨rfl, (Option.some.inj hv).symm⟩
    | cons _ _ => simp [getFlags] at hv
  have hanswered : answered (A32Flags.getCFlag st i) vc vg = [answerInst i vc] ++ answered st (some (.inst i.id)) vg := by
    have hcomm : answerWith st.ge.valueRequest vg (answer st.cFlag.valueRequest (.inst i.id) st.after) =
        answered st (some (.inst i.id)) vg := answerWith_comm (v := vg) (w := some (.inst i.id))
      fun id hid hc => cur.names.distinct id hc hid
    simp only [answered, A32Flags.getCFlag]
    rw [answerWith_cons cur.reqG_ne, hcomm, answerWith_self]
    · rfl
    · intro j hj
      obtain ⟨k, hk, hkj⟩ := mem_answerWith hj
      obtain ⟨k', hk', hk'k⟩ := mem_answerWith hk
      rw [← hkj, ← hk'k]
      exact cur.after_ne hk'
  rw [hanswered]
  refine h.prepend (execInst_answerInst (x := .u1 s.guest.flags.c) ?_ hans.c) (fun id hid j hj => ?_)
    hog.tail.of_answer ?_ ?_ ⟨fun w hw => ?_, fun w hw => ?_⟩
  · rintro rfl
    have hc : s'.guest.flags.c = s.guest.flags.c := hagree.flags.c (by simp [dead, A32Flags.getCFlag])
    refine result_get_intro hcode rfl ((cur.args_eq henv).trans hargs) ?_
    rw [hrs, ← hc]
    rfl
  · obtain rfl : i.id = id := by simpa using hid
    exact cur.after_ne hj
  · exact hagree.mono id (fun hd => by simp_all [dead, A32Flags.getCFlag]) id id id
  · intro id hid
    rw [henv1]
    exact bindResult_congr (henv id hid) _
  · obtain rfl : .inst i.id = w := by simpa using hw
    exact ⟨_, update_self _ _ _, rfl⟩
  · obtain ⟨rv, hrv, hx⟩ := hans.ge w hw
    exact ⟨rv, (eval_update (hw ▸ hog) _).trans hrv, hx⟩

lemma Sound.getGEFlags (hcode : i.code = .op .getGEFlags) : Sound sem N (getGEFlags st i) s env t := by
  intro vc vg s' env' hoc hog hagree henv hans
  obtain ⟨res, hres, henv1⟩ := cur.result_eq
  obtain ⟨rs, v, hargs, hv, rfl, hs⟩ := result_get hcode rfl hres
  obtain rfl : s = s1 := hs.symm
  obtain ⟨hrs, rfl⟩ : rs.map (·.val) = [] ∧ v = .u32 s.guest.flags.ge := by
    generalize rs.map (·.val) = vs at hv
    cases vs with
    | nil => exact ⟨rfl, (Option.some.inj hv).symm⟩
    | cons _ _ => simp [getFlags] at hv
  have hanswered : answered (A32Flags.getGEFlags st i) vc vg =
      [answerInst i vg] ++ answered st vc (some (.inst i.id)) := by
    have hself : answerWith (some i.id) vg (i :: answer st.ge.valueRequest (.inst i.id) st.after) =
        answerInst i vg :: answer st.ge.valueRequest (.inst i.id) st.after := by
      refine answerWith_self (fun j hj => ?_) vg
      obtain ⟨k, hk, hkj⟩ := mem_answerWith (v := some (.inst i.id)) hj
      rw [← hkj]
      exact cur.after_ne hk
    have hid : (answerInst i vg).id = i.id := by cases vg <;> rfl
    simp only [answered, A32Flags.getGEFlags]
    rw [hself, answerWith_cons (by rw [hid]; exact cur.reqC_ne)]
    rfl
  rw [hanswered]
  refine h.prepend (execInst_answerInst (x := .u32 s.guest.flags.ge) ?_ hans.ge) hoc.tail.of_answer
    (fun id hid j hj => ?_) ?_ ?_ ⟨fun w hw => ?_, fun w hw => ?_⟩
  · rintro rfl
    have hge : s'.guest.flags.ge = s.guest.flags.ge :=
      hagree.flags.ge (by simp [dead, A32Flags.getGEFlags])
    refine result_get_intro hcode rfl ((cur.args_eq henv).trans hargs) ?_
    rw [hrs, ← hge]
    rfl
  · obtain rfl : i.id = id := by simpa using hid
    exact cur.after_ne hj
  · exact hagree.mono id id id id fun hd => by simp_all [dead, A32Flags.getGEFlags]
  · intro id hid
    rw [henv1]
    exact bindResult_congr (henv id hid) _
  · obtain ⟨rv, hrv, hx⟩ := hans.c w hw
    exact ⟨rv, (eval_update (hw ▸ hoc) _).trans hrv, hx⟩
  · obtain rfl : .inst i.id = w := by simpa using hw
    exact ⟨_, update_self _ _ _, rfl⟩

end

@[simp] lemma invalidateIf_id (b : Bool) : (invalidateIf b i).id = i.id := by
  cases b <;> rfl

@[simp] lemma answerWith_none (v : Option (Value (Val α))) (l : List (Inst (Op O) (Val α))) :
    answerWith none v l = l := by
  cases v <;> rfl

section

variable (cur : Current sem N S st i s env s1 env1)
include cur

lemma Current.answered_cons {i' : Inst (Op O) (Val α)}
    (hid : i'.id = i.id) : answerWith st.cFlag.valueRequest vc
      (answerWith st.ge.valueRequest vg (i' :: st.after)) = [i'] ++ answered st vc vg := by
  rw [answerWith_cons (by rw [hid]; exact cur.reqG_ne), answerWith_cons (by rw [hid]; exact cur.reqC_ne)]
  rfl

lemma Current.answerWith_append
    {pre l : List (Inst (Op O) (Val α))} (hpre : ∀ j ∈ pre, j.id = i.id ∨ j.id = st.fresh) :
    answerWith st.ge.valueRequest vg (pre ++ l) = pre ++ answerWith st.ge.valueRequest vg l := by
  induction pre with
  | nil => rfl
  | cons j pre ih =>
    have hj : st.ge.valueRequest ≠ some j.id := by
      rcases hpre j mem_cons_self with hj | hj
      · rw [hj]
        exact cur.reqG_ne
      · intro hg
        obtain ⟨k, hk, hkj⟩ := cur.names.reqG _ hg
        have := cur.names.lt k hk
        have := cur.names.fresh
        omega
    rw [cons_append, answerWith_cons hj, ih fun k hk => hpre k (mem_cons_of_mem _ hk)]
    rfl

lemma Current.answered_answer (w : Value (Val α))
    (pre : List (Inst (Op O) (Val α))) (hpre : ∀ j ∈ pre, j.id = i.id ∨ j.id = st.fresh) :
    answerWith none vc (answerWith st.ge.valueRequest vg
      (pre ++ answer st.cFlag.valueRequest w st.after)) = pre ++ answered st (some w) vg := by
  have hcomm : answerWith st.ge.valueRequest vg (answer st.cFlag.valueRequest w st.after) =
      answered st (some w) vg := answerWith_comm (v := vg) (w := some w)
    fun id hid hc => cur.names.distinct id hc hid
  rw [answerWith_none, cur.answerWith_append hpre, hcomm]

end

lemma Sound.setCpsrNZ (h : Sound sem N st s1 env1 t) (cur : Current sem N S st i s env s1 env1)
    (hcode : i.code = .op .setCpsrNZ) : Sound sem N (setCpsrNZ st i) s env t := by
  intro vc vg s' env' hoc hog hagree henv hans
  obtain ⟨rs, f, -, hf, rfl, rfl, hpre⟩ := cur.exec_set hcode rfl henv
  generalize rs.map (·.val) = vs at hf hpre
  obtain ⟨b, rfl, rfl⟩ : ∃ b, vs = [.nzcv b] ∧ f = s.guest.flags.withNZ b := by
    simp only [setFlags] at hf
    split at hf <;> simp_all
  have hanswered : answered (A32Flags.setCpsrNZ st i) vc vg =
      [invalidateIf st.nz i] ++ answered st vc vg := cur.answered_cons (invalidateIf_id _)
  rw [hanswered]
  refine h.prepend (hpre st.nz s' _ rfl) hoc.tail hog.tail (hagree.change ?_) henv ⟨hans.c, hans.ge⟩
  have hflags : AgreeFlags ⟨true, st.cFlag.setNotRequired &&
      (st.cFlag.valueRequest.isNone || vc.isSome), false, false, st.ge.setNotRequired &&
      (st.ge.valueRequest.isNone || vg.isSome)⟩ s.guest.flags s'.guest.flags := by
    simpa [dead, A32Flags.setCpsrNZ] using hagree.flags
  exact hflags.setCpsrNZ b

variable {args : List (Value (Val α))}

variable {rs : List (Result α ε)}

lemma exec_getCFlagFromNZCV {b : BitVec 4}
    {fresh : ℕ} (hargs : args.mapM ((machine sem).eval env') = some rs)
    (hrs : rs.map (·.val) = [.nzcv b]) :
    (machine sem).exec [⟨fresh, .op .getCFlagFromNZCV, args.take 1⟩] (s', env') =
      some (s', update env' fresh (some ⟨.u1 (b.getLsbD 1), none⟩)) := by
  obtain ⟨⟨val, x⟩, rfl, hval⟩ : ∃ r, rs = [r] ∧ r.val = .nzcv b := by
    match rs with
    | [r] => exact ⟨r, rfl, by simpa using hrs⟩
    | [] => simp at hrs
    | _ :: _ :: _ => simp at hrs
  obtain rfl : val = .nzcv b := hval
  obtain ⟨v, rfl, -⟩ := mapM_eval_eq_singleton.1 hargs
  rw [exec_singleton]
  refine execInst_eq_some.2 ⟨some ⟨.u1 (b.getLsbD 1), none⟩, ?_, rfl⟩
  exact result_get_intro rfl rfl hargs rfl

lemma Sound.setCpsrNZCV (h : Sound sem N st s1 env1 t) (cur : Current sem N S st i s env s1 env1)
    (hcode : i.code = .op .setCpsrNZCV) : Sound sem N (setCpsrNZCV st i) s env t := by
  intro vc vg s' env' hoc hog hagree henv hans
  obtain ⟨rs, f, hargs, hf, rfl, rfl, hpre⟩ := cur.exec_set hcode rfl henv
  obtain ⟨b, hrs, rfl⟩ : ∃ b, rs.map (·.val) = [.nzcv b] ∧ f = s.guest.flags.withNZCV b := by
    generalize rs.map (·.val) = vs at hf
    simp only [setFlags] at hf
    split at hf <;> simp_all
  rw [hrs] at hpre
  have hflags : AgreeFlags ⟨true, true, true, st.nzcvq, st.ge.setNotRequired &&
      (st.ge.valueRequest.isNone || vg.isSome)⟩ s.guest.flags s'.guest.flags := by
    simpa [dead, A32Flags.setCpsrNZCV] using hagree.flags
  cases hreq : st.cFlag.valueRequest with
  | none =>
    have hafter : (A32Flags.setCpsrNZCV st i).after = invalidateIf st.nzcv i :: st.after := by
      simp only [A32Flags.setCpsrNZCV, hreq]
    have hanswered : answered (A32Flags.setCpsrNZCV st i) vc vg = [invalidateIf st.nzcv i] ++ answered st none vg := by
      simp only [answered, hafter]
      rw [answerWith_cons (by rw [invalidateIf_id]; exact cur.reqG_ne)]
      exact answerWith_none vc _
    rw [hafter] at hog
    rw [hanswered]
    refine h.prepend (hpre st.nzcv s' _ rfl) (by simp [Outside]) hog.tail (hagree.change ?_) henv
      ⟨by simp, hans.ge⟩
    exact hflags.setCpsrNZCV b (by simp [hreq])
  | some r =>
    have hafter : (A32Flags.setCpsrNZCV st i).after = invalidateIf st.nzcv i ::
        ⟨st.fresh, .op .getCFlagFromNZCV, i.args.take 1⟩ ::
        answer st.cFlag.valueRequest (.inst st.fresh) st.after := by
      simp only [A32Flags.setCpsrNZCV, hreq]
    have hfresh : ∀ id, id < N → id ≠ st.fresh := fun id hid =>
      Nat.ne_of_lt (Nat.lt_of_lt_of_le hid cur.names.fresh)
    have hanswered : answered (A32Flags.setCpsrNZCV st i) vc vg =
        [invalidateIf st.nzcv i, ⟨st.fresh, .op .getCFlagFromNZCV, i.args.take 1⟩] ++
          answered st (some (.inst st.fresh)) vg := by
      rw [answered, hafter]
      exact cur.answered_answer (.inst st.fresh) [_, _] (by simp)
    rw [hafter] at hog
    rw [hanswered]
    refine h.prepend (exec_append_eq_some.2 ⟨_, hpre st.nzcv s' _ rfl,
      exec_getCFlagFromNZCV hargs hrs⟩) (fun id hid j hj => ?_) hog.tail.tail.of_answer
      (hagree.change ?_) (fun id hid => ?_) ⟨fun w hw => ?_, fun w hw => ?_⟩
    · obtain rfl : st.fresh = id := by simpa using hid
      rcases cur.names.ids j hj with ⟨k, hk, hkj⟩ | ⟨-, hlt⟩
      · rw [← hkj]
        exact hfresh k.id (cur.names.lt k hk)
      · exact Nat.ne_of_lt hlt
    · exact hflags.setCpsrNZCV b (by simp)
    · rw [update_of_ne (hfresh id hid), henv id hid]
    · obtain rfl : .inst st.fresh = w := by simpa using hw
      exact ⟨_, update_self _ _ _, rfl⟩
    · obtain ⟨rv, hrv, hx⟩ := hans.ge w hw
      have hkeep : (machine sem).eval (bindResult env' st.fresh (some ⟨.u1 (b.getLsbD 1), none⟩)) w =
          (machine sem).eval env' w := eval_update (hw ▸ hog.tail) _
      exact ⟨rv, hkeep.trans hrv, hx⟩

lemma dead_none (st : PassState O α) (vg : Option (Value (Val α))) :
    dead st none vg = ⟨st.nz || st.nzcv || st.nzcvq,
      (st.cFlag.setNotRequired || st.nzcv || st.nzcvq) && st.cFlag.valueRequest.isNone,
      st.nzcv || st.nzcvq, st.nzcvq,
      st.ge.setNotRequired && (st.ge.valueRequest.isNone || vg.isSome)⟩ := by
  simp [dead]

section

variable (h : Sound sem N st s1 env1 t) (cur : Current sem N S st i s env s1 env1)
include h cur

lemma Sound.setCpsrNZCVRaw (hcode : i.code = .op .setCpsrNZCVRaw) : Sound sem N (setCpsrNZCVRaw st i) s env t := by
  intro vc vg s' env' hoc hog hagree henv hans
  obtain ⟨rs, f, -, hf, rfl, rfl, hpre⟩ := cur.exec_set hcode rfl henv
  generalize rs.map (·.val) = vs at hf hpre
  obtain ⟨w, rfl, rfl⟩ : ∃ w, vs = [.u32 w] ∧ f = s.guest.flags.withNZCVRaw w := by
    simp only [setFlags] at hf
    split at hf <;> simp_all
  have hanswered : answered (A32Flags.setCpsrNZCVRaw st i) vc vg =
      [invalidateIf (st.nzcv && st.cFlag.valueRequest.isNone) i] ++ answered st none vg := by
    simp only [answered, A32Flags.setCpsrNZCVRaw]
    rw [answerWith_cons (by rw [invalidateIf_id]; exact cur.reqG_ne)]
    exact answerWith_none vc _
  have hflags : AgreeFlags ⟨true, true, true, false, st.ge.setNotRequired &&
      (st.ge.valueRequest.isNone || vg.isSome)⟩ s.guest.flags s'.guest.flags := by
    simpa [dead, A32Flags.setCpsrNZCVRaw] using hagree.flags
  rw [hanswered]
  refine h.prepend (hpre _ s' _ rfl) (by simp [Outside]) hog.tail (hagree.change ?_) henv
    ⟨by simp, hans.ge⟩
  rw [dead_none]
  exact hflags.setCpsrNZCVRaw w

lemma Sound.setCpsrNZCVQ (hcode : i.code = .op .setCpsrNZCVQ) : Sound sem N (setCpsrNZCVQ st i) s env t := by
  intro vc vg s' env' hoc hog hagree henv hans
  obtain ⟨rs, f, -, hf, rfl, rfl, hpre⟩ := cur.exec_set hcode rfl henv
  generalize rs.map (·.val) = vs at hf hpre
  obtain ⟨w, rfl, rfl⟩ : ∃ w, vs = [.u32 w] ∧ f = { s.guest.flags.withNZCVRaw w with q := w.getLsbD 27 } := by
    simp only [setFlags] at hf
    split at hf <;> simp_all
  have hanswered : answered (A32Flags.setCpsrNZCVQ st i) vc vg =
      [invalidateIf (st.nzcvq && st.cFlag.valueRequest.isNone) i] ++ answered st none vg := by
    simp only [answered, A32Flags.setCpsrNZCVQ]
    rw [answerWith_cons (by rw [invalidateIf_id]; exact cur.reqG_ne)]
    exact answerWith_none vc _
  have hflags : AgreeFlags ⟨true, true, true, true, st.ge.setNotRequired &&
      (st.ge.valueRequest.isNone || vg.isSome)⟩ s.guest.flags s'.guest.flags := by
    simpa [dead, A32Flags.setCpsrNZCVQ] using hagree.flags
  rw [hanswered]
  refine h.prepend (hpre _ s' _ rfl) (by simp [Outside]) hog.tail (hagree.change ?_) henv
    ⟨by simp, hans.ge⟩
  rw [dead_none]
  exact hflags.setCpsrNZCVQ w

end

lemma setCpsrNZC_args {f f1 : Flags} (hargs : args.mapM ((machine sem).eval env') = some rs)
    (hf : setFlags f (.setCpsrNZC : Op O) (rs.map (·.val)) = some f1) :
    ∃ nz c rnz rc b carry, args = [nz, c] ∧ rs = [rnz, rc] ∧ (machine sem).eval env' nz = some rnz ∧
      (machine sem).eval env' c = some rc ∧ rnz.val = .nzcv b ∧ rc.val = .u1 carry ∧
      f1 = { f.withNZ b with c := carry } := by
  obtain ⟨rnz, rc, b, carry, rfl, hb, hcarry, rfl⟩ : ∃ rnz rc b carry, rs = [rnz, rc] ∧
      rnz.val = .nzcv b ∧ rc.val = .u1 carry ∧ f1 = { f.withNZ b with c := carry } := by
    match rs with
    | [] => simp [setFlags] at hf
    | [_] => simp [setFlags] at hf
    | _ :: _ :: _ :: _ => simp [setFlags] at hf
    | [⟨vnz, xnz⟩, ⟨vc, xc⟩] =>
      cases vnz <;> cases vc <;>
        simp only [map_cons, map_nil, setFlags, Option.some.injEq, reduceCtorEq] at hf
      exact ⟨_, _, _, _, rfl, rfl, rfl, hf.symm⟩
  match args with
  | [] => simp at hargs
  | nz :: args =>
    rw [mapM_cons] at hargs
    simp only [bind, Option.bind_eq_some_iff, pure, Option.some.injEq, cons.injEq] at hargs
    obtain ⟨r, hnz, rs, htail, hr, hrs⟩ := hargs
    obtain rfl : rnz = r := hr.symm
    obtain rfl : [rc] = rs := hrs.symm
    obtain ⟨c, rfl, hc⟩ := mapM_eval_eq_singleton.1 htail
    exact ⟨nz, c, rnz, rc, b, carry, rfl, rfl, hnz, hc, hb, hcarry, rfl⟩

lemma Sound.setCpsrNZC_getCFlag (h : Sound sem N st s1 env1 t)
    (cur : Current sem N S st i s env s1 env1) (hcode : i.code = .op .setCpsrNZC)
    {l : List (Value (Val α))} (hi : i.args = nz :: c :: l)
    (hget : isGetCFlag before c = true)
    (hcarry : ∀ r, (machine sem).eval env c = some r → r.val = .u1 s.guest.flags.c) :
    Sound sem N (setCpsrNZC before st i nz c) s env t := by
  intro vc vg s' env' hoc hog hagree henv hans
  obtain ⟨rs, f, hargs, hf, rfl, he, -⟩ := cur.exec_set hcode rfl henv
  obtain rfl : env = env1 := he.symm
  obtain ⟨nz', c', rnz, rc, b, carry, hi', rfl, hnz, hc, hb, hrc, rfl⟩ := setCpsrNZC_args hargs hf
  obtain ⟨rfl, rfl, rfl⟩ : nz = nz' ∧ c = c' ∧ l = [] := by simpa [hi] using hi'
  have hsame : s.guest.flags.c = carry := by
    have heval : (machine sem).eval env c = (machine sem).eval env' c :=
      eval_congr fun id hid => (henv id (cur.refs id (by simp [Refers, hi, hid])).1).symm
    have := hcarry rc (heval.trans hc)
    rw [hrc] at this
    simpa using this.symm
  have hafter : (A32Flags.setCpsrNZC before st i nz c).after = ⟨i.id, .void, []⟩ ::
      ⟨st.fresh, .op .setCpsrNZ, [nz]⟩ :: answer st.cFlag.valueRequest c st.after := by
    simp only [A32Flags.setCpsrNZC, hget, if_true]
  have hanswered : answered (A32Flags.setCpsrNZC before st i nz c) vc vg =
      [⟨i.id, .void, []⟩, ⟨st.fresh, .op .setCpsrNZ, [nz]⟩] ++ answered st (some c) vg := by
    rw [answered, hafter]
    simp only [A32Flags.setCpsrNZC, hget, if_true]
    exact cur.answered_answer c [_, _] (by simp)
  have hpre : (machine sem).exec [⟨i.id, .void, []⟩, ⟨st.fresh, .op .setCpsrNZ, [nz]⟩] (s', env') =
      some (s'.change (.setFlags (s'.guest.flags.withNZ b)), env') := by
    refine exec_cons_eq_some.2 ⟨(s', env'), rfl, ?_⟩
    rw [exec_singleton]
    refine execInst_set_intro rfl rfl (mapM_eval_eq_singleton.2 ⟨nz, rfl, hnz⟩) ?_
    rw [map_singleton, hb]
    rfl
  have hflags : AgreeFlags ⟨true, st.cFlag.setNotRequired, false, false, st.ge.setNotRequired &&
      (st.ge.valueRequest.isNone || vg.isSome)⟩ s.guest.flags s'.guest.flags := by
    simpa [dead, A32Flags.setCpsrNZC, hget] using hagree.flags
  rw [hafter] at hog
  rw [hanswered]
  refine h.prepend hpre (cur.arg_outside (by simp [hi])) hog.tail.tail.of_answer (hagree.change ?_) henv
    ⟨fun w hw => ?_, hans.ge⟩
  · exact hflags.setCpsrNZC_same b hsame (by simp)
  · obtain rfl : c = w := by simpa using hw
    exact ⟨rc, hc, hrc⟩

/-- The rewritten `SetCpsrNZC`. -/
def narrowed (st : PassState O α) (i : Inst (Op O) (Val α)) (c : Value (Val α)) : Inst (Op O) (Val α) :=
  if st.nz && st.cFlag.setNotRequired then ⟨i.id, .void, []⟩
  else if st.nz then ⟨i.id, i.code, [.imm (.nzcv 0), c]⟩ else i

lemma narrowed_id (c : Value (Val α)) : (narrowed st i c).id = i.id := by
  unfold narrowed
  split_ifs <;> rfl

lemma Sound.setCpsrNZC (h : Sound sem N st s1 env1 t) (cur : Current sem N S st i s env s1 env1)
    (hcode : i.code = .op .setCpsrNZC) {l : List (Value (Val α))}
    (hi : i.args = nz :: c :: l)
    (hget : isGetCFlag before c = false) : Sound sem N (setCpsrNZC before st i nz c) s env t := by
  intro vc vg s' env' hoc hog hagree henv hans
  obtain ⟨rs, f, hargs, hf, rfl, rfl, -⟩ := cur.exec_set hcode rfl henv
  obtain ⟨nz', c', rnz, rc, b, carry, hi', rfl, hnz, hc, hb, hrc, rfl⟩ := setCpsrNZC_args hargs hf
  obtain ⟨rfl, rfl, rfl⟩ : nz = nz' ∧ c = c' ∧ l = [] := by simpa [hi] using hi'
  have hafter : (A32Flags.setCpsrNZC before st i nz c).after =
      narrowed st i c :: answer st.cFlag.valueRequest c st.after := by
    simp only [A32Flags.setCpsrNZC, hget]
    rfl
  have hanswered : answered (A32Flags.setCpsrNZC before st i nz c) vc vg =
      [narrowed st i c] ++ answered st (some c) vg := by
    rw [answered, hafter]
    simp only [A32Flags.setCpsrNZC, hget, if_false, Bool.false_eq_true]
    exact cur.answered_answer c [_] (by simp [narrowed_id])
  have hpre : (machine sem).exec [narrowed st i c] (s', env') =
      some (s'.change (.setFlags (if st.nz && st.cFlag.setNotRequired then s'.guest.flags
        else if st.nz then { s'.guest.flags.withNZ 0 with c := carry }
        else { s'.guest.flags.withNZ b with c := carry })), env') := by
    rw [exec_singleton]
    unfold narrowed
    split_ifs
    · rfl
    · have hzero : [.imm (.nzcv 0), c].mapM ((machine sem).eval env') = some [⟨.nzcv 0, none⟩, rc] := by
        rw [mapM_cons, mapM_eval_eq_singleton.2 ⟨c, rfl, hc⟩]
        rfl
      refine execInst_set_intro hcode rfl hzero ?_
      simp [setFlags, hrc]
    · refine execInst_set_intro hcode rfl hargs ?_
      simp [setFlags, hrc, hb]
  have hflags : AgreeFlags ⟨true, true, false, false, st.ge.setNotRequired &&
      (st.ge.valueRequest.isNone || vg.isSome)⟩ s.guest.flags s'.guest.flags := by
    simpa [dead, A32Flags.setCpsrNZC, hget] using hagree.flags
  rw [hafter] at hog
  rw [hanswered]
  refine h.prepend hpre (cur.arg_outside (by simp [hi])) hog.tail.of_answer (hagree.change ?_) henv
    ⟨fun w hw => ?_, hans.ge⟩
  · exact hflags.setCpsrNZC b carry (by simp)
  · obtain rfl : c = w := by simpa using hw
    exact ⟨rc, hc, hrc⟩

lemma setGEFlags_args {f f1 : Flags} (hargs : args.mapM ((machine sem).eval env') = some rs)
    (hf : setFlags f (.setGEFlags : Op O) (rs.map (·.val)) = some f1) :
    ∃ v r w, args = [v] ∧ rs = [r] ∧ (machine sem).eval env' v = some r ∧ r.val = .u32 w ∧ f1 = { f with ge := w } := by
  obtain ⟨r, w, rfl, hr, rfl⟩ : ∃ r w, rs = [r] ∧ r.val = .u32 w ∧ f1 = { f with ge := w } := by
    match rs with
    | [] => simp [setFlags] at hf
    | _ :: _ :: _ => simp [setFlags] at hf
    | [⟨x, e⟩] =>
      cases x <;> simp only [map_cons, map_nil, setFlags, Option.some.injEq, reduceCtorEq] at hf
      exact ⟨_, _, rfl, rfl, hf.symm⟩
  obtain ⟨v, rfl, hv⟩ := mapM_eval_eq_singleton.1 hargs
  exact ⟨v, r, w, rfl, rfl, hv, hr, rfl⟩

section

variable (h : Sound sem N st s1 env1 t) (cur : Current sem N S st i s env s1 env1)
include h cur

lemma Sound.setGEFlags (hcode : i.code = .op .setGEFlags) {v : Value (Val α)} {l : List (Value (Val α))}
    (hi : i.args = v :: l) : Sound sem N (setGEFlags st i v) s env t := by
  intro vc vg s' env' hoc hog hagree henv hans
  obtain ⟨rs, f, hargs, hf, rfl, rfl, hpre⟩ := cur.exec_set hcode rfl henv
  obtain ⟨v', r, w, hi', rfl, hv, hr, rfl⟩ := setGEFlags_args hargs hf
  obtain ⟨rfl, rfl⟩ : v = v' ∧ l = [] := by simpa [hi] using hi'
  have hanswered : answered (A32Flags.setGEFlags st i v) vc vg =
      [invalidateIf st.ge.setNotRequired i] ++ answered st vc (some v) := by
    change answerWith st.cFlag.valueRequest vc (answerWith none vg (_ :: _)) = _
    rw [answerWith_none, answerWith_cons (by rw [invalidateIf_id]; exact cur.reqC_ne)]
    rfl
  have hflags : AgreeFlags ⟨st.nz || st.nzcv || st.nzcvq,
      (st.cFlag.setNotRequired || st.nzcv || st.nzcvq) && (st.cFlag.valueRequest.isNone || vc.isSome),
      st.nzcv || st.nzcvq, st.nzcvq, true⟩ s.guest.flags s'.guest.flags := by
    simpa [dead, A32Flags.setGEFlags] using hagree.flags
  rw [map_singleton, hr] at hpre
  rw [hanswered]
  refine h.prepend (hpre st.ge.setNotRequired s' _ rfl) hoc.tail.of_answer
    (cur.arg_outside (by simp [hi])) (hagree.change ?_) henv ⟨hans.c, fun x hx => ?_⟩
  · simpa [dead] using hflags.setGE w
  · obtain rfl : v = x := by simpa using hx
    exact ⟨r, hv, hr⟩

lemma Sound.setGEFlagsCompressed (hcode : i.code = .op .setGEFlagsCompressed) :
    Sound sem N { st with after := i :: st.after, ge := ⟨true, none⟩ } s env t := by
  intro vc vg s' env' hoc hog hagree henv hans
  obtain ⟨rs, f, -, hf, rfl, rfl, hpre⟩ := cur.exec_set hcode rfl henv
  generalize rs.map (·.val) = vs at hf hpre
  obtain ⟨w, rfl, rfl⟩ : ∃ w, vs = [.u32 w] ∧ f = s.guest.flags.withGECompressed w := by
    simp only [setFlags] at hf
    split at hf <;> simp_all
  have hflags : AgreeFlags ⟨st.nz || st.nzcv || st.nzcvq,
      (st.cFlag.setNotRequired || st.nzcv || st.nzcvq) && (st.cFlag.valueRequest.isNone || vc.isSome),
      st.nzcv || st.nzcvq, st.nzcvq, true⟩ s.guest.flags s'.guest.flags := by
    simpa [dead] using hagree.flags
  have hanswered : answered { st with after := i :: st.after, ge := ⟨true, none⟩ } vc vg =
      [i] ++ answered st vc none := by
    change answerWith st.cFlag.valueRequest vc (answerWith none vg (i :: st.after)) = _
    rw [answerWith_none, answerWith_cons cur.reqC_ne]
    rfl
  rw [hanswered]
  refine h.prepend (hpre false s' _ rfl) hoc.tail (by simp [Outside]) (hagree.change ?_) henv
    ⟨hans.c, by simp⟩
  exact hflags.setGECompressed w

lemma Sound.orQFlag (hcode : i.code = .op .orQFlag) : Sound sem N { st with after := i :: st.after } s env t := by
  intro vc vg s' env' hoc hog hagree henv hans
  obtain ⟨rs, f, -, hf, rfl, rfl, hpre⟩ := cur.exec_set hcode rfl henv
  generalize rs.map (·.val) = vs at hf hpre
  obtain ⟨b, rfl, rfl⟩ : ∃ b, vs = [.u1 b] ∧ f = { s.guest.flags with q := s.guest.flags.q || b } := by
    match vs with
    | [] => simp [setFlags] at hf
    | _ :: _ :: _ => simp [setFlags] at hf
    | [x] =>
      cases x <;> simp only [setFlags, Option.some.injEq, reduceCtorEq] at hf
      exact ⟨_, rfl, hf.symm⟩
  have hanswered : answered { st with after := i :: st.after } vc vg = [i] ++ answered st vc vg :=
    cur.answered_cons rfl
  rw [hanswered]
  refine h.prepend (hpre false s' _ rfl) hoc.tail hog.tail (hagree.change ?_) henv ⟨hans.c, hans.ge⟩
  exact hagree.flags.orQ b

/-- **A CPSR barrier**, after which every flag can be read. -/
lemma Sound.barrier :
    Sound sem N ⟨i :: st.after, st.fresh, false, false, false, ⟨false, none⟩, ⟨false, none⟩⟩ s env t := by
  intro vc vg s' env' hoc hog hagree henv hans
  obtain rfl : s' = s := hagree.eq rfl rfl rfl rfl rfl
  obtain ⟨res, hres, henv1⟩ := cur.result_eq
  have hexec : (machine sem).exec [i] (s', env') = some (s1, bindResult env' i.id res) := by
    rw [exec_singleton]
    refine execInst_eq_some.2 ⟨res, ?_, rfl⟩
    rw [← hres]
    exact result_congr fun id hid => henv id (cur.refs id hid).1
  have hanswered : answered (⟨i :: st.after, st.fresh, false, false, false, ⟨false, none⟩,
      ⟨false, none⟩⟩ : PassState O α) vc vg = [i] ++ answered st none none := by
    change answerWith none vc (answerWith none vg (i :: st.after)) = _
    rw [answerWith_none, answerWith_none]
    rfl
  rw [hanswered]
  refine h.prepend hexec (by simp [Outside]) (by simp [Outside]) (.refl _ _) (fun id hid => ?_) ⟨by simp, by simp⟩
  rw [henv1]
  exact bindResult_congr (henv id hid) _

end

/-- An operation that has nothing to do with the flags. -/
def Op.isNeutral (tables : Opcodes O) : Op O → Bool
  | .getCFlagFromNZCV => true
  | .other o => !touches tables o
  | _ => false

/-- Such an instruction works the same with any flags. -/
lemma ignores_setFlags (h : ∀ op, i.code = .op op → op.isNeutral tables = true) (f : Flags) :
    (machine sem).Ignores (State.change (Guest.setFlags f)) i := by
  intro op hcode rs s
  have hop := h op hcode
  cases op with
  | getCFlagFromNZCV =>
    change ((getFlags (O := O) f .getCFlagFromNZCV (rs.map (·.val))).map _) =
      ((getFlags (O := O) s.guest.flags .getCFlagFromNZCV (rs.map (·.val))).map _).map _
    have hget : getFlags (O := O) f .getCFlagFromNZCV (rs.map (·.val)) =
        getFlags (O := O) s.guest.flags .getCFlagFromNZCV (rs.map (·.val)) := by
      unfold getFlags
      split <;> simp_all
    rw [hget, Option.map_map]
    rfl
  | other o =>
    have ho : touches tables o = false := by simpa [Op.isNeutral] using hop
    exact sem.stepOther_frame ⟨f, ho, rfl⟩ rs s
  | _ => simp [Op.isNeutral] at hop

lemma flags_of_isNeutral (h : ∀ op, i.code = .op op → op.isNeutral tables = true)
    (hexec : (machine sem).execInst i (s, env) = some (s1, env1)) : s1.guest.flags = s.guest.flags := by
  have hself : s.change (.setFlags s.guest.flags) = s := rfl
  have hcomm := execInst_comm (M := machine sem) (ignores_setFlags h s.guest.flags) s env
  simp only [hself, hexec, Option.map_some, Option.some.injEq, Prod.mk.injEq] at hcomm
  rw [hcomm.1]
  rfl

/-- **An instruction without flags.** -/
lemma Sound.neutral (h : Sound sem N st s1 env1 t) (cur : Current sem N S st i s env s1 env1)
    (hi : ∀ op, i.code = .op op → op.isNeutral tables = true) :
    Sound sem N { st with after := i :: st.after } s env t := by
  intro vc vg s' env' hoc hog hagree henv hans
  obtain ⟨res, hres, henv1⟩ := cur.result_eq
  have hflags := flags_of_isNeutral hi cur.exec
  have hexec : (machine sem).execInst i (s, env') = some (s1, bindResult env' i.id res) := by
    refine execInst_eq_some.2 ⟨res, ?_, rfl⟩
    rw [← hres]
    exact result_congr fun id hid => henv id (cur.refs id hid).1
  have hpre : (machine sem).exec [i] (s', env') =
      some (s1.change (.setFlags s'.guest.flags), bindResult env' i.id res) := by
    have hignores : (machine sem).Ignores (State.change (Guest.setFlags s'.guest.flags)) i :=
      ignores_setFlags hi s'.guest.flags
    have hcomm := execInst_comm hignores s env'
    rw [← hagree.eq_change, hexec] at hcomm
    rw [exec_singleton, hcomm]
    rfl
  have hanswered : answered { st with after := i :: st.after } vc vg = [i] ++ answered st vc vg :=
    cur.answered_cons rfl
  rw [hanswered]
  refine h.prepend hpre hoc.tail hog.tail ⟨?_, rfl, rfl⟩ (fun id hid => ?_)
    ⟨fun w hw => ?_, fun w hw => ?_⟩
  · rw [hflags]
    exact hagree.flags
  · rw [henv1]
    exact bindResult_congr (henv id hid) _
  · obtain ⟨rv, hrv, hx⟩ := hans.c w hw
    exact ⟨rv, (eval_update (hw ▸ hoc) _).trans hrv, by rw [hx, hflags]⟩
  · obtain ⟨rv, hrv, hx⟩ := hans.ge w hw
    exact ⟨rv, (eval_update (hw ▸ hog) _).trans hrv, by rw [hx, hflags]⟩

/-- The carry of the current instruction, if it is a `SetCpsrNZC` with a `GetCFlag`, is C. -/
def CarryIsC (sem : FlagsSemantics tables α ε σ) (before : List (Inst (Op O) (Val α)))
    (i : Inst (Op O) (Val α)) (s : State O α (Guest σ)) (env : ℕ → Option (Result α ε)) : Prop :=
  i.code = .op .setCpsrNZC → ∀ nz c l, i.args = nz :: c :: l → isGetCFlag before c = true →
    ∀ r, (machine sem).eval env c = some r → r.val = .u1 s.guest.flags.c

lemma Sound.visit (h : Sound sem N st s1 env1 t) (cur : Current sem N S st i s env s1 env1)
    (hcarry : CarryIsC sem before i s env) :
    Sound sem N (visit tables before i st) s env t := by
  unfold A32Flags.visit
  split
  next hcode => exact h.getCFlag cur hcode
  next hcode => exact h.setCpsrNZCV cur hcode
  next hcode => exact h.setCpsrNZCVRaw cur hcode
  next hcode => exact h.setCpsrNZCVQ cur hcode
  next hcode => exact h.setCpsrNZ cur hcode
  next nz c l hcode hargs =>
    cases hget : isGetCFlag before c with
    | true => exact h.setCpsrNZC_getCFlag cur hcode hargs hget (hcarry hcode nz c l hargs hget)
    | false => exact h.setCpsrNZC cur hcode hargs hget
  next v l hcode hargs => exact h.setGEFlags cur hcode hargs
  next hcode => exact h.getGEFlags cur hcode
  next hcode => exact h.setGEFlagsCompressed cur hcode
  next hcode => exact h.orQFlag cur hcode
  next o hcode =>
    split
    · exact h.barrier cur
    · rename_i ho
      refine h.neutral cur fun op hop => ?_
      obtain rfl : .other o = op := by simpa [hcode] using hop
      simpa [Op.isNeutral] using ho
  next hC hNZCV hRaw hQ hNZ hGet hComp hOr hOther hNZC hGE =>
    -- a Set without its arguments has no meaning, and what is left has no flags
    refine h.neutral cur fun op hop => ?_
    cases op with
    | getCFlagFromNZCV => rfl
    | setCpsrNZC =>
      obtain ⟨rs, f, hargs, hf, -⟩ := execInst_set hop rfl cur.exec
      obtain ⟨nz, c, -, -, -, -, hi, -⟩ := setCpsrNZC_args hargs hf
      exact (hNZC nz c [] hop hi).elim
    | setGEFlags =>
      obtain ⟨rs, f, hargs, hf, -⟩ := execInst_set hop rfl cur.exec
      obtain ⟨v, -, -, hi, -⟩ := setGEFlags_args hargs hf
      exact (hGE v [] hop hi).elim
    | getCFlag => exact (hC hop).elim
    | setCpsrNZCV => exact (hNZCV hop).elim
    | setCpsrNZCVRaw => exact (hRaw hop).elim
    | setCpsrNZCVQ => exact (hQ hop).elim
    | setCpsrNZ => exact (hNZ hop).elim
    | getGEFlags => exact (hGet hop).elim
    | setGEFlagsCompressed => exact (hComp hop).elim
    | orQFlag => exact (hOr hop).elim
    | other o => exact (hOther o hop).elim

/-- Names after one more instruction.  A request stays, ends, or is for that instruction. -/
lemma Current.names_next (cur : Current sem N S st i s env s1 env1) {st' : PassState O α}
    (hids : ∀ j ∈ st'.after, j.id = i.id ∨ (∃ k ∈ st.after, k.id = j.id) ∨ j.id = st.fresh ∧ st.fresh < st'.fresh)
    (hfresh : st.fresh ≤ st'.fresh)
    (hc : st'.cFlag.valueRequest = none ∨ st'.cFlag.valueRequest = st.cFlag.valueRequest ∨
      st'.cFlag.valueRequest = some i.id ∧ st'.ge.valueRequest = st.ge.valueRequest)
    (hg : st'.ge.valueRequest = none ∨ st'.ge.valueRequest = st.ge.valueRequest ∨
      st'.ge.valueRequest = some i.id ∧ st'.cFlag.valueRequest = st.cFlag.valueRequest) :
    Names N (i :: S) st' where
  ids j hj := by
    have hN := cur.names.fresh
    rcases hids j hj with hj | ⟨k, hk, hkj⟩ | ⟨hj, hlt⟩
    · exact .inl ⟨i, mem_cons_self, hj.symm⟩
    · rcases cur.names.ids k hk with ⟨k', hk', hk'k⟩ | ⟨hk1, hk2⟩
      · exact .inl ⟨k', mem_cons_of_mem _ hk', hk'k.trans hkj⟩
      · right
        omega
    · right
      omega
  fresh := Nat.le_trans cur.names.fresh hfresh
  reqC id hid := by
    rcases hc with hc | hc | ⟨hc, -⟩ <;> rw [hc] at hid
    · simp at hid
    · obtain ⟨k, hk, hkid⟩ := cur.names.reqC id hid
      exact ⟨k, mem_cons_of_mem _ hk, hkid⟩
    · exact ⟨i, mem_cons_self, Option.some.inj hid⟩
  reqG id hid := by
    rcases hg with hg | hg | ⟨hg, -⟩ <;> rw [hg] at hid
    · simp at hid
    · obtain ⟨k, hk, hkid⟩ := cur.names.reqG id hid
      exact ⟨k, mem_cons_of_mem _ hk, hkid⟩
    · exact ⟨i, mem_cons_self, Option.some.inj hid⟩
  distinct id hid := by
    have hreqC := cur.reqC_ne
    have hreqG := cur.reqG_ne
    have hdistinct := cur.names.distinct
    grind
  lt k hk := by
    rcases mem_cons.1 hk with rfl | hk
    · exact cur.id_lt
    · exact cur.names.lt k hk

lemma mem_answer
    {j : Inst (Op O) (Val α)} (h : j ∈ answer request v l) : ∃ k ∈ l, k.id = j.id :=
  mem_answerWith (v := some v) h

lemma Current.names_visit (cur : Current sem N S st i s env s1 env1)
    (before : List (Inst (Op O) (Val α))) : Names N (i :: S) (visit tables before i st) := by
  -- the current instruction stays in its place, and the names behind it stay
  have hkeep (i' : Inst (Op O) (Val α)) (hi' : i'.id = i.id) (n : ℕ) :
      ∀ j ∈ i' :: st.after, j.id = i.id ∨ (∃ k ∈ st.after, k.id = j.id) ∨ j.id = st.fresh ∧ st.fresh < n :=
    forall_mem_cons.2 ⟨.inl hi', fun j hj => .inr (.inl ⟨j, hj, rfl⟩)⟩
  have hanswer (i' : Inst (Op O) (Val α)) (hi' : i'.id = i.id) (request : Option ℕ)
      (v : Value (Val α)) (n : ℕ) : ∀ j ∈ i' :: answer request v st.after, j.id = i.id ∨
        (∃ k ∈ st.after, k.id = j.id) ∨ j.id = st.fresh ∧ st.fresh < n :=
    forall_mem_cons.2 ⟨.inl hi', fun j hj => .inr (.inl (mem_answer hj))⟩
  -- one instruction is inserted behind it
  have hinsert (i' n : Inst (Op O) (Val α)) (hi' : i'.id = i.id) (hn : n.id = st.fresh)
      (request : Option ℕ) (v : Value (Val α)) :
      ∀ j ∈ i' :: n :: answer request v st.after, j.id = i.id ∨ (∃ k ∈ st.after, k.id = j.id) ∨
        j.id = st.fresh ∧ st.fresh < st.fresh + 1 :=
    forall_mem_cons.2 ⟨.inl hi', forall_mem_cons.2
      ⟨.inr (.inr ⟨hn, Nat.lt_succ_self _⟩), fun j hj => .inr (.inl (mem_answer hj))⟩⟩
  have hle := Nat.le_refl st.fresh
  unfold A32Flags.visit
  split
  next => exact cur.names_next (hanswer i rfl _ _ _) hle (.inr (.inr ⟨rfl, rfl⟩)) (.inr (.inl rfl))
  next =>
    refine cur.names_next (fun j hj => ?_) (Nat.le_succ _) (.inl rfl) (.inr (.inl rfl))
    simp only [A32Flags.setCpsrNZCV] at hj
    split at hj
    · exact hinsert _ _ (invalidateIf_id _) rfl _ _ j hj
    · exact hkeep _ (invalidateIf_id _) _ j hj
  next => exact cur.names_next (hkeep _ (invalidateIf_id _) _) hle (.inl rfl) (.inr (.inl rfl))
  next => exact cur.names_next (hkeep _ (invalidateIf_id _) _) hle (.inl rfl) (.inr (.inl rfl))
  next => exact cur.names_next (hkeep _ (invalidateIf_id _) _) hle (.inr (.inl rfl)) (.inr (.inl rfl))
  next nz c _ _ _ =>
    unfold A32Flags.setCpsrNZC
    split
    · exact cur.names_next (hinsert ⟨i.id, .void, []⟩ ⟨st.fresh, .op .setCpsrNZ, [nz]⟩ rfl rfl _ c)
        (Nat.le_succ _) (.inl rfl) (.inr (.inl rfl))
    · exact cur.names_next (hanswer _ (narrowed_id c) _ c _) hle (.inl rfl) (.inr (.inl rfl))
  next => exact cur.names_next (hanswer _ (invalidateIf_id _) _ _ _) hle (.inr (.inl rfl)) (.inl rfl)
  next => exact cur.names_next (hanswer i rfl _ _ _) hle (.inr (.inl rfl)) (.inr (.inr ⟨rfl, rfl⟩))
  next => exact cur.names_next (hkeep i rfl _) hle (.inr (.inl rfl)) (.inl rfl)
  next => exact cur.names_next (hkeep i rfl _) hle (.inr (.inl rfl)) (.inr (.inl rfl))
  next =>
    split
    · exact cur.names_next (hkeep i rfl _) hle (.inl rfl) (.inl rfl)
    · exact cur.names_next (hkeep i rfl _) hle (.inr (.inl rfl)) (.inr (.inl rfl))
  next => exact cur.names_next (hkeep i rfl _) hle (.inr (.inl rfl)) (.inr (.inl rfl))

end Current

/-! ## The carry -/

def writesC (tables : Opcodes O) : Code (Op O) → Bool
  | .op .setCpsrNZCV | .op .setCpsrNZCVRaw | .op .setCpsrNZCVQ | .op .setCpsrNZC => true
  | .op (.other o) => tables.writesToCPSR o
  | _ => false

/-- **What the frontend promises**, of a block with the latest instruction first: a `GetCFlag` that is passed
as the carry of a `SetCpsrNZC` has been read after the last write of C before it. -/
def CarriesRead (tables : Opcodes O) : List (Inst (Op O) (Val α)) → Prop
  | [] => True
  | i :: before => CarriesRead tables before ∧ (i.code = .op .setCpsrNZC →
      ∀ nz c l, i.args = nz :: c :: l → ∀ g, getInstRecursive before c = some g → g.code = .op .getCFlag →
        ∃ later earlier, before = later ++ g :: earlier ∧ ∀ j ∈ later, writesC tables j.code = false)

section Carry

variable {before : List (Inst (Op O) (Val α))} {i g : Inst (Op O) (Val α)} {s₀ s1 : State O α (Guest σ)}
  {env env0 env1 : ℕ → Option (Result α ε)}

lemma c_of_setFlags {op : Op O} (h : writesC tables (.op op) = false) {f f1 : Flags}
    {vs : List (Val α)} (hf : setFlags f op vs = some f1) : f1.c = f.c := by
  unfold setFlags at hf
  split at hf
  all_goals first
    | simp [writesC] at h; done
    | simp only [Option.some.injEq, reduceCtorEq] at hf
  all_goals
    subst hf
    rfl

lemma c_of_writesC (h : writesC tables i.code = false) (hexec : (machine sem).execInst i (s, env) = some (s1, env1)) :
    s1.guest.flags.c = s.guest.flags.c := by
  obtain ⟨res, hres, -⟩ := execInst_eq_some.1 hexec
  cases hcode : i.code with
  | void =>
    simp only [result, hcode, Option.some.injEq, Prod.mk.injEq] at hres
    rw [hres.2]
  | identity =>
    simp only [result, hcode, Option.map_eq_some_iff, Prod.mk.injEq] at hres
    obtain ⟨_, -, -, rfl⟩ := hres
    rfl
  | op op =>
    rw [hcode] at h
    by_cases hset : op.isSet = true
    · obtain ⟨rs, f, -, hf, rfl, -⟩ := execInst_set hcode hset hexec
      exact c_of_setFlags h hf
    · by_cases hget : op.isGet = true
      · obtain ⟨-, -, -, -, -, hs⟩ := result_get hcode hget hres
        exact congrArg (fun s => s.guest.flags.c) hs
      · obtain ⟨o, rfl⟩ : ∃ o, op = .other o := by
          cases op <;> simp_all [Op.isSet, Op.isGet]
        simp only [result, hcode, Option.bind_eq_some_iff] at hres
        obtain ⟨rs, -, hstep⟩ := hres
        obtain ⟨⟨r, g⟩, hg, hq⟩ := Option.map_eq_some_iff.1 hstep
        obtain rfl : _ = s1 := congrArg Prod.snd hq
        exact congrArg Flags.c (sem.keeps o h rs s.guest r g hg)

lemma env_getCFlag {later earlier : List (Inst (Op O) (Val α))} (hord : Ordered (later ++ g :: earlier))
    (hcode : g.code = .op .getCFlag) (hlater : ∀ j ∈ later, writesC tables j.code = false)
    (hexec : (machine sem).exec (later ++ g :: earlier).reverse (s₀, env0) = some (s, env)) :
    ∃ rg, env g.id = some rg ∧ rg.val = .u1 s.guest.flags.c := by
  induction later generalizing s env with
  | nil =>
    rw [nil_append, reverse_cons, exec_concat_eq_some] at hexec
    obtain ⟨⟨s1, env1⟩, -, hg⟩ := hexec
    obtain ⟨res, hres, henv⟩ := execInst_eq_some.1 hg
    simp only at henv hres
    obtain ⟨rs, v, -, hv, rfl, rfl⟩ := result_get hcode rfl hres
    refine ⟨⟨v, none⟩, ?_, ?_⟩
    · rw [← henv]
      exact update_self _ _ _
    · generalize rs.map (·.val) = vs at hv
      cases vs with
      | nil => exact (Option.some.inj hv).symm
      | cons _ _ => simp [getFlags] at hv
  | cons j later ih =>
    rw [cons_append, reverse_cons, exec_concat_eq_some] at hexec
    obtain ⟨⟨s1, env1⟩, hexec, hj⟩ := hexec
    obtain ⟨rg, hrg, hval⟩ := ih (Ordered.tail hord)
      (fun k hk => hlater k (mem_cons_of_mem _ hk)) hexec
    obtain ⟨res, -, henv⟩ := execInst_eq_some.1 hj
    simp only at henv
    refine ⟨rg, ?_, ?_⟩
    · rw [← henv, bindResult_of_ne, hrg]
      exact Ordered.ne hord (by simp)
    · rw [hval, c_of_writesC (hlater j mem_cons_self) hj]

/-- **The promise of the frontend, at an instruction.** -/
lemma CarriesRead.carryIsC (h : CarriesRead tables (i :: before)) (hord : Ordered before)
    (hexec : (machine sem).exec before.reverse (s₀, env0) = some (s, env)) :
    CarryIsC sem before i s env := by
  intro hcode nz c l hargs hget r hr
  simp only [isGetCFlag, Option.any_eq_true] at hget
  obtain ⟨g, hg, hgcode⟩ := hget
  have hgcode : g.code = .op .getCFlag := by
    split at hgcode
    · assumption
    · simp at hgcode
  obtain ⟨later, earlier, rfl, hlater⟩ := h.2 hcode nz c l hargs g hg hgcode
  obtain ⟨rg, hrg, hstrip⟩ := eval_of_getInstRecursive (M := machine sem) (fun _ => rfl) hord hexec hg hr
  obtain ⟨rg', hrg', hval⟩ := env_getCFlag hord hgcode hlater hexec
  obtain rfl : rg = rg' := Option.some.inj (hrg.symm.trans hrg')
  have hsame : ((machine sem).strip r).val = ((machine sem).strip rg).val := by rw [hstrip]
  change r.val = rg.val at hsame
  rw [hsame, hval]

end Carry

/-! ## The whole pass -/

/-- **The walk**, from the current instruction to the start of the block. -/
lemma Sound.walk {N : ℕ} {S before : List (Inst (Op O) (Val α))} {st : PassState O α}
    {s₀ t : State O α (Guest σ)} {env env0 : ℕ → Option (Result α ε)} (h : Sound sem N st s env t)
    (hnames : Names N S st) (hord : Ordered (S.reverse ++ before))
    (hlt : ∀ i ∈ before, i.id < N ∧ ∀ id, Refers i id → id < N) (hcarry : CarriesRead tables before)
    (hexec : (machine sem).exec before.reverse (s₀, env0) = some (s, env)) :
    Sound sem N (walk tables before st) s₀ env0 t := by
  induction before generalizing S st s env with
  | nil =>
    obtain ⟨rfl, rfl⟩ := Prod.mk.inj (Option.some.inj hexec)
    exact h
  | cons i before ih =>
    rw [reverse_cons, exec_concat_eq_some] at hexec
    obtain ⟨⟨s1, env1⟩, hexec, hi⟩ := hexec
    have hpairs := pairwise_append.1 hord.later
    have hbefore : Ordered (i :: before) :=
      ⟨hpairs.2.1, fun j hj => hord.self j (mem_append_right _ hj)⟩
    have hS {k : Inst (Op O) (Val α)} (hk : k ∈ S) : k.id ≠ i.id ∧ ¬ Refers i k.id :=
      hpairs.2.2 k (mem_reverse.2 hk) i mem_cons_self
    have cur : Current sem N S st i s1 env1 s env :=
      { names := hnames
        exec := hi
        id_lt := (hlt i mem_cons_self).1
        id_ne := fun k hk => (hS hk).1
        refs := fun id hid => ⟨(hlt i mem_cons_self).2 id hid,
          fun hii => hbefore.self i mem_cons_self (hii ▸ hid),
          fun k hk hkid => (hS hk).2 (hkid ▸ hid)⟩ }
    refine ih (h.visit cur (hcarry.carryIsC hbefore.tail hexec)) (cur.names_visit before) ?_
      (fun j hj => hlt j (mem_cons_of_mem _ hj)) hcarry.1 hexec
    simpa using hord

/-- **`FlagsPass` preserves the meaning of a block** that keeps the promise of the frontend: the same
operations with side effects, with the same arguments, and the same flags at the end. -/
theorem flagsPass_sound (sem : FlagsSemantics tables α ε σ) (block : Block (Op O) (Val α))
    (hcarry : CarriesRead tables block.insts.reverse) (s₀ : State O α (Guest σ))
    {s : State O α (Guest σ)} {env : ℕ → Option (Result α ε)}
    (h : (machine sem).exec block.insts (s₀, fun _ => none) = some (s, env)) :
    ∃ env', (machine sem).exec (flagsPass tables block.insts block.fresh) (s₀, fun _ => none) = some (s, env') := by
  have hend : Sound sem block.fresh
      (⟨[], block.fresh, false, false, false, ⟨false, none⟩, ⟨false, none⟩⟩ : PassState O α) s env s := by
    intro vc vg s' env' _ _ hagree _ _
    obtain rfl : s' = s := hagree.eq rfl rfl rfl rfl rfl
    have hnil : answered (⟨[], block.fresh, false, false, false, ⟨false, none⟩, ⟨false, none⟩⟩ :
        PassState O α) vc vg = [] := by
      simp [answered]
    exact ⟨env', by rw [hnil]; rfl⟩
  have hnames : Names block.fresh []
      (⟨[], block.fresh, false, false, false, ⟨false, none⟩, ⟨false, none⟩⟩ : PassState O α) :=
    ⟨by simp, Nat.le_refl _, by simp, by simp, by simp, by simp⟩
  have hlt : ∀ i ∈ block.insts.reverse, i.id < block.fresh ∧ ∀ id, Refers i id → id < block.fresh :=
    fun i hi => ⟨block.bound i (mem_reverse.1 hi),
      fun id hid => block.refers_lt (mem_reverse.1 hi) hid⟩
  have hwalk := hend.walk hnames (by simpa using block.ssa.ordered.1) hlt hcarry
    (by rwa [reverse_reverse])
  exact hwalk none none s₀ _ (by simp [Outside]) (by simp [Outside]) (.refl _ _)
    (fun _ _ => rfl) ⟨by simp, by simp⟩

/-- `A32SetCheckBit` as the only other operation. -/
def checkBitTables : Opcodes Unit where
  readsFromCPSR _ := false
  writesToCPSR _ := false
  readsFromCoreRegister _ := false
  writesToCoreRegister _ := false
  mayHaveSideEffects _ := true

def checkBit (rs : List (Result Unit Unit)) (g : Guest Bool) : Option (Option (Result Unit Unit) × Guest Bool) :=
  match rs with
  | [⟨.u1 b, _⟩] => some (none, { g with rest := b })
  | _ => none

def checkBitSemantics : FlagsSemantics checkBitTables Unit Unit Bool where
  step _ := checkBit
  pure _ h := by simp [checkBitTables] at h
  frame o f hf rs g := by
    obtain ⟨fl, -, rfl⟩ := hf
    unfold checkBit
    split <;> rfl
  keeps o h rs g r g' hstep := by
    unfold checkBit at hstep
    split at hstep
    · simp only [Option.some.injEq, Prod.mk.injEq] at hstep
      rw [← hstep.2]
    · simp at hstep

/-- C is set, copied to the check bit and set to itself; N, Z and GE are written twice. -/
def carryBlock : Block (Op Unit) (Val Unit) :=
  .ofInsts [⟨0, .op .setCpsrNZCV, [.imm (.nzcv 2)]⟩, ⟨1, .op .getCFlag, []⟩,
    ⟨2, .op (.other ()), [.inst 1]⟩, ⟨3, .op .setCpsrNZC, [.imm (.nzcv 8), .inst 1]⟩,
    ⟨4, .op .setGEFlags, [.imm (.u32 0xFF)]⟩, ⟨5, .op .setGEFlags, [.imm (.u32 0xFF00)]⟩,
    ⟨6, .op .setCpsrNZ, [.imm (.nzcv 4)]⟩] 7 (by simp [Ssa, Refers]) (by simp)

def startState : State Unit Unit (Guest Bool) where
  guest := ⟨⟨false, false, false, true, true, 0⟩, false⟩
  events := []

theorem flagsPass_sound_carry :
    ∃ s env env', (machine checkBitSemantics).exec carryBlock.insts (startState, fun _ => none) = some (s, env) ∧
      (machine checkBitSemantics).exec (flagsPass checkBitTables carryBlock.insts carryBlock.fresh)
        (startState, fun _ => none) = some (s, env') ∧
      s.guest = ⟨⟨false, true, true, false, true, 0xFF00⟩, true⟩ := by
  have hrun : ((machine checkBitSemantics).exec carryBlock.insts (startState, fun _ => none)).map
      (fun q => (q.1.guest.flags, q.1.guest.rest)) = some (⟨false, true, true, false, true, 0xFF00⟩, true) := by
    decide +kernel
  have hcarry : CarriesRead checkBitTables carryBlock.insts.reverse := by
    simp only [carryBlock, Block.ofInsts, reverse_cons, reverse_nil, nil_append,
      cons_append, CarriesRead, Code.op.injEq, reduceCtorEq, false_implies, and_true, true_and,
      true_implies]
    intro nz c l hargs g hg _
    obtain rfl : c = .inst 1 := by simp_all
    refine ⟨[⟨2, .op (.other ()), [.inst 1]⟩], [⟨0, .op .setCpsrNZCV, [.imm (.nzcv 2)]⟩], ?_, ?_⟩
    · obtain rfl : _ = g := Option.some.inj hg
      rfl
    · simp [writesC, checkBitTables]
  obtain ⟨⟨s, env⟩, hexec, hs⟩ := Option.map_eq_some_iff.1 hrun
  obtain ⟨env', h⟩ := flagsPass_sound checkBitSemantics carryBlock hcarry startState hexec
  refine ⟨s, env, env', hexec, h, ?_⟩
  obtain ⟨⟨flags, rest⟩, events⟩ := s
  obtain ⟨rfl, rfl⟩ := Prod.mk.inj hs
  rfl

end Voltemu.Dynarmic.A32Flags
