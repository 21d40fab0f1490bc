import Voltemu.Dynarmic.A64GetSet
import Voltemu.Dynarmic.Simulation

/-!
# What `A64GetSetElimination` preserves

The pass is right about everything except one thing: a Get takes over the value of a Set of the same kind as
it was given, not as it was stored.  `SetS` and `SetD` store the low bits of a vector, `SetNZCVRaw` the top
four bits of a word.  `ReadsBack` asks that such a value has nothing else.

* `Tracks` — what `RegisterInfo` promises about the register, the block and the original block;
* `SimInv` — the rewritten block computes what the original block computes; `SimInv.visit` is the step;
* `optimize_sound` — the whole pass with the removal of dead code.
-/

namespace Voltemu.Dynarmic.A64

open Voltemu.Lib Machine BitVec List Option

variable {O α ε σ : Type*} {tables : Opcodes O} 
  {sem : Semantics tables α ε (Free (σ := σ) tables)}

/-! ## Registers -/

section Registers

variable {s : State O α (Guest σ)} {r r' : Reg}

variable {b : BitVec r.width}

@[simp] lemma write_regs_self : (write r b s).guest.regs r = b := by
  simp [write, State.change, Guest.write]

lemma write_regs_of_ne (h : r' ≠ r) : (write r b s).guest.regs r' = s.guest.regs r' := by
  simp [write, State.change, Guest.write, Function.update_of_ne h]

@[simp] lemma write_write {b' : BitVec r.width} : write r b' (write r b s) = write r b' s := by
  simp [write, State.change, Guest.write]

lemma write_comm (h : r ≠ r') {b' : BitVec r'.width} : write r' b' (write r b s) = write r b (write r' b' s) := by
  simp [write, State.change, Guest.write, Function.update_comm h]

end Registers

section Steps

variable {op : Op O} {r r' : Reg} {t t' : TrackingType} {rs : List (Result α ε)} {s : State O α (Guest σ)}

lemma step_get (h : op.access = some (.get r t)) : step sem op rs s =
    if rs = [] then some (some ⟨read t (s.guest.regs r), none⟩, s) else none := by
  simp only [step, h]

lemma step_set (h : op.access = some (.set r t)) : step sem op rs s = stepSet r t rs s := by
  simp only [step, h]

lemma access_eq_none (h : op.access = none) : op = .leastSignificantWord ∨ ∃ o, op = .other o := by
  cases op <;> simp [Op.access] at h ⊢

/-- The instruction may read or write the register. -/
def touchesInst (tables : Opcodes O) (i : Inst (Op O) (Val α)) (r : Reg) : Bool :=
  match i.code with
  | .op op =>
      match op.access with
      | some (.get r' _) | some (.set r' _) => r' = r
      | none => forgets tables op r
  | .void | .identity => false

def Writes (r : Reg) (f : State O α (Guest σ) → State O α (Guest σ)) : Prop := ∃ b, f = write r b

/-- An instruction that does not touch a register works the same with any content of it. -/
lemma ignores_writes {i : Inst (Op O) (Val α)} (h : touchesInst tables i r = false)
    {f : State O α (Guest σ) → State O α (Guest σ)} (hf : Writes r f) : (machine sem).Ignores f i := by
  obtain ⟨b, rfl⟩ := hf
  intro op hcode rs s
  simp only [touchesInst, hcode] at h
  change step sem op rs (write r b s) = (step sem op rs s).map fun q => (q.1, write r b q.2)
  cases hacc : op.access with
  | some a =>
    simp only [hacc] at h
    cases a with
    | get r' t =>
      have hne : r' ≠ r := by simpa using h
      rw [step_get hacc, step_get hacc, write_regs_of_ne hne]
      split_ifs <;> rfl
    | set r' t =>
      have hne : r' ≠ r := by simpa using h
      rw [step_set hacc, step_set hacc]
      unfold stepSet
      split
      · simp only [Option.map_map]
        refine congrArg (Option.map · _) (funext fun b' => ?_)
        simp [write_comm hne]
      · rfl
  | none =>
    rcases access_eq_none hacc with rfl | ⟨o, rfl⟩
    · simp only [step, Op.access]
      split <;> rfl
    · have hstep := sem.stepOther_frame (show Free tables o _ from ⟨r, b, h, rfl⟩) rs s
      simp only [step, Op.access]
      exact hstep

lemma step_pure (h : mayHaveSideEffects tables op = false) {res : Option (Result α ε)} {s' : State O α (Guest σ)}
    (hstep : step sem op rs s = some (res, s')) : s' = s := by
  cases hacc : op.access with
  | some a =>
    cases a with
    | get r t =>
      rw [step_get hacc] at hstep
      split_ifs at hstep
      simp only [Option.some.injEq, Prod.mk.injEq] at hstep
      exact hstep.2.symm
    | set r t => simp [mayHaveSideEffects, hacc] at h
  | none =>
    rcases access_eq_none hacc with rfl | ⟨o, rfl⟩
    · simp only [step, Op.access] at hstep
      split at hstep
      · simp only [Option.some.injEq, Prod.mk.injEq] at hstep
        exact hstep.2.symm
      · simp at hstep
    · have hside : tables.mayHaveSideEffects o = false := by
        simpa [mayHaveSideEffects, Op.access] using h
      exact Semantics.stepOther_pure hside hstep

/-- The value has only the bits that the Set stores. -/
def Clean (t : TrackingType) : Val α → Prop
  | .u32 b => t = .NZCVRaw → b = b >>> 28 <<< 28
  | .u128 b => (t = .S → b = (b.setWidth 32).setWidth 128) ∧ (t = .D → b = (b.setWidth 64).setWidth 128)
  | _ => True

lemma setWidth_setWidth_self {m n : ℕ} (h : m ≤ n) (b : BitVec m) : (b.setWidth n).setWidth m = b := by
  rw [setWidth_setWidth_of_le _ h, setWidth_eq]

lemma read_store (hacc : op.access = some (.set r t)) {v : Val α} {b : BitVec r.width}
    (hstore : store t v = some b) (hclean : Clean t v) : read t b = v := by
  cases op <;> simp only [Op.access, Option.some.injEq, Access.set.injEq, reduceCtorEq] at hacc
  all_goals
    obtain ⟨rfl, rfl⟩ := hacc
    cases v <;> simp only [store, Option.some.injEq, reduceCtorEq] at hstore
    subst hstore
    simp only [read, Reg.width, Val.u32.injEq, Val.u64.injEq, Val.u128.injEq, Val.nzcv.injEq]
  case setW => exact setWidth_setWidth_self (by decide) _
  case setS =>
      rw [setWidth_setWidth_self (m := 32) (n := 128) (by decide)]
      exact (hclean.1 rfl).symm
  case setD =>
      rw [setWidth_setWidth_self (m := 64) (n := 128) (by decide)]
      exact (hclean.2 rfl).symm
  case setNZCVRaw =>
      rename_i b
      have hfour : ((b >>> 28).setWidth 4).setWidth 32 = b >>> 28 := by
        apply eq_of_toNat_eq
        simp only [toNat_setWidth, toNat_ushiftRight, Nat.shiftRight_eq_div_pow]
        omega
      rw [hfour]
      exact (hclean rfl).symm
  all_goals exact setWidth_setWidth_self (Nat.le_refl _) _

end Steps

section Runs

variable {i : Inst (Op O) (Val α)} {r : Reg} {s s1 : State O α (Guest σ)} {env env1 : ℕ → Option (Result α ε)}

/-- A register that an instruction does not touch keeps its content. -/
lemma regs_of_not_touches (h : touchesInst tables i r = false)
    (hexec : (machine sem).execInst i (s, env) = some (s1, env1)) :
    s1.guest.regs r = s.guest.regs r := by
  have hself : write r (s.guest.regs r) s = s := by
    simp [write, State.change, Guest.write]
  have hcomm := execInst_comm (M := machine sem) (ignores_writes h ⟨s.guest.regs r, rfl⟩) s env
  simp only [hself, hexec, map_some, Option.some.injEq, Prod.mk.injEq] at hcomm
  rw [hcomm.1]
  simp

variable {op : Op O}

lemma execInst_set {t : TrackingType} (hcode : i.code = .op op) (hacc : op.access = some (.set r t))
    (hexec : (machine sem).execInst i (s, env) = some (s1, env1)) :
    ∃ v rv b, i.args = [v] ∧ (machine sem).eval env v = some rv ∧ store t rv.val = some b ∧
      s1 = write r b s ∧ env1 = env := by
  obtain ⟨res, hres, henv⟩ := execInst_eq_some.1 hexec
  simp only [result, hcode, bind_eq_some_iff] at hres
  obtain ⟨rs, hargs, hstep⟩ := hres
  change step sem op rs s = _ at hstep
  rw [step_set hacc] at hstep
  unfold stepSet at hstep
  split at hstep
  next rv =>
    simp only [map_eq_some_iff, Prod.mk.injEq] at hstep
    obtain ⟨b, hb, rfl, rfl⟩ := hstep
    obtain ⟨v, hia, hv⟩ := mapM_eval_eq_singleton.1 hargs
    exact ⟨v, rv, b, hia, hv, hb, rfl, henv.symm⟩
  · simp at hstep

lemma execInst_set_intro {t : TrackingType} (hcode : i.code = .op op)
    (hacc : op.access = some (.set r t)) {v : Value (Val α)} {rv : Result α ε} {b : BitVec r.width}
    (hargs : i.args = [v]) (hv : (machine sem).eval env v = some rv) (hb : store t rv.val = some b) :
    (machine sem).execInst i (s, env) = some (write r b s, env) := by
  refine execInst_eq_some.2 ⟨none, ?_, rfl⟩
  simp only [result, hcode, mapM_eval_eq_singleton.2 ⟨v, hargs, hv⟩, bind_some]
  change step sem op [rv] s = _
  rw [step_set hacc, stepSet, hb, map_some]

lemma result_get {t : TrackingType} (hcode : i.code = .op op)
    (hacc : op.access = some (.get r t)) {res : Option (Result α ε)}
    (hres : (machine sem).result i s env = some (res, s1)) :
    s = s1 ∧ res = some ⟨read t (s.guest.regs r), none⟩ := by
  simp only [result, hcode, bind_eq_some_iff] at hres
  obtain ⟨rs, hargs, hstep⟩ := hres
  change step sem op rs s = _ at hstep
  rw [step_get hacc] at hstep
  split_ifs at hstep
  simp only [Option.some.injEq, Prod.mk.injEq] at hstep
  exact ⟨hstep.2, hstep.1.symm⟩

lemma execInst_get {t : TrackingType} (hcode : i.code = .op op) (hacc : op.access = some (.get r t))
    (hexec : (machine sem).execInst i (s, env) = some (s1, env1)) :
    s1 = s ∧ env1 = Function.update env i.id (some ⟨read t (s.guest.regs r), none⟩) := by
  obtain ⟨res, hres, henv⟩ := execInst_eq_some.1 hexec
  obtain ⟨hs, rfl⟩ := result_get hcode hacc hres
  exact ⟨hs.symm, henv.symm⟩

end Runs

/-! ## What is tracked -/

/-- The instruction leaves alone what is tracked about a register: it does not touch it, or it is a Get
that takes the value over. -/
def Transparent (tables : Opcodes O) (t : TrackingType) (r : Reg) (i : Inst (Op O) (Val α)) : Prop :=
  touchesInst tables i r = false ∨ ∃ op t', i.code = .op op ∧ op.access = some (.get r t') ∧ (t' = t ∨ t' = .W ∧ t = .X)

/-- **What the pass relies on**: the value of a Set that a Get of the same kind takes over has only the bits
that the Set stores. -/
def ReadsBack (sem : Semantics tables α ε (Free (σ := σ) tables)) (insts : List (Inst (Op O) (Val α)))
    (s₀ : State O α (Guest σ)) : Prop :=
  ∀ first d mid g last opd opg r t v s env rv, insts = first ++ d :: mid ++ g :: last →
    d.code = .op opd → opd.access = some (.set r t) → d.args = [v] →
    g.code = .op opg → opg.access = some (.get r t) →
    (∀ i ∈ mid, Transparent tables t r i) →
    (machine sem).exec (first ++ d :: mid) (s₀, fun _ => none) = some (s, env) →
    (machine sem).eval env v = some rv → Clean t rv.val

/-- **What `RegisterInfo` says** about a register: the tracked value is that of a Get, or that of a Set which
nothing has noticed yet.  `orig` is the original block up to here and `rest` what follows. -/
inductive Tracks (sem : Semantics tables α ε (Free (σ := σ) tables)) (orig rest : List (Inst (Op O) (Val α)))
    (c : Cursor (Op O) (Val α)) (s : State O α (Guest σ)) (env : ℕ → Option (Result α ε)) (r : Reg) :
    RegisterInfo (Val α) → Prop
  | got {id : ℕ} {t : TrackingType} {rv : Result α ε} (known : c.Known rest (.inst id))
      (mem : ∃ j ∈ c.before, j.id = id ∧ ∃ op r' t', j.code = .op op ∧ op.access = some (.get r' t'))
      (value : env id = some rv) (content : rv.val = read t (s.guest.regs r)) :
      Tracks sem orig rest c s env r ⟨.inst id, t, none⟩
  | set {d : Inst (Op O) (Val α)} {op : Op O} {t : TrackingType} {v : Value (Val α)}
      {rv : Result α ε} {first mid : List (Inst (Op O) (Val α))} (code : d.code = .op op)
      (access : op.access = some (.set r t)) (args : d.args = [v]) (known : c.Known rest v)
      (pending : Pending (machine sem) (Writes r) d c.before)
      (value : (machine sem).eval env v = some rv) (content : store t rv.val = some (s.guest.regs r))
      (place : orig = first ++ d :: mid) (transparent : ∀ i ∈ mid, Transparent tables t r i) :
      Tracks sem orig rest c s env r ⟨v, t, some d.id⟩

namespace Tracks

variable {orig rest : List (Inst (Op O) (Val α))} {c c' : Cursor (Op O) (Val α)} {s s' : State O α (Guest σ)}
  {env env' : ℕ → Option (Result α ε)} {r : Reg} {info : RegisterInfo (Val α)}
  {i n : Inst (Op O) (Val α)}

lemma known (h : Tracks sem orig rest c s env r info) : c.Known rest info.registerValue := by
  cases h with
  | got known _ _ _ => exact known
  | set _ _ _ known _ _ _ _ _ => exact known

/-- The tracked value is counted: it is a Get, or the Set still refers to it. -/
lemma counted (h : Tracks sem orig rest c s env r info) (hord : Ordered c.before) :
    c.Counted info.registerValue := by
  cases h with
  | got _ mem _ _ =>
    obtain ⟨j, hj, rfl, op, r', t', hcode, -⟩ := mem
    intro id _ himm
    rw [isImmediate, resolve_of_mem hord hj (by simp [hcode])] at himm
    simp at himm
  | @set d _ _ _ _ _ _ _ _ args _ pending _ _ _ _ =>
    rintro id rfl -
    obtain ⟨A, B, hsplit, -⟩ := pending.split
    refine refs_pos_of_refers (show d ∈ c.before by rw [hsplit]; simp) ?_
    simp [Refers, args]

lemma push (h : Tracks sem orig rest c s env r info) (hbefore : c'.before = n :: c.before)
    (hfresh : c.fresh ≤ c'.fresh) (hn : touchesInst tables n r = false)
    (henv : ∀ id, id < c.fresh → (∀ k ∈ rest, k.id ≠ id) → env' id = env id)
    (hregs : s'.guest.regs r = s.guest.regs r) : Tracks sem orig rest c' s' env' r info := by
  have hknown : ∀ {v}, c.Known rest v → c'.Known rest v := fun hv id hid =>
    ⟨Nat.lt_of_lt_of_le (hv id hid).1 hfresh, (hv id hid).2⟩
  have heval : ∀ {v}, c.Known rest v → (machine sem).eval env' v = (machine sem).eval env v :=
    fun hv => eval_congr fun id hid => henv id (hv id hid).1 (hv id hid).2
  cases h with
  | got known mem value content =>
    obtain ⟨j, hj, hjid⟩ := mem
    refine got (hknown known) ⟨j, by rw [hbefore]; exact mem_cons_of_mem _ hj, hjid⟩
      ((heval known).trans value) ?_
    rw [hregs, content]
  | set code access args known pending value content place transparent =>
    refine set code access args (hknown known) ?_ ((heval known).trans value) ?_ place transparent
    · rw [hbefore]
      exact Or.inr ⟨fun f hf => ignores_writes hn hf, pending⟩
    · rw [hregs, content]

lemma advance (h : Tracks sem orig (i :: rest) c s env r info)
    (hi : Transparent tables info.trackingType r i) : Tracks sem (orig ++ [i]) rest c s env r info := by
  have hknown : ∀ {v}, c.Known (i :: rest) v → c.Known rest v := fun hv id hid =>
    ⟨(hv id hid).1, fun k hk => (hv id hid).2 k (mem_cons_of_mem _ hk)⟩
  cases h with
  | got known mem value content => exact got (hknown known) mem value content
  | set code access args known pending value content place transparent =>
    refine set code access args (hknown known) pending value content
      (by rw [place, List.append_assoc, List.cons_append]) ?_
    intro k hk
    rcases mem_append.1 hk with hk | hk
    · exact transparent k hk
    · obtain rfl := mem_singleton.1 hk
      exact hi

section

variable (h : Tracks sem orig rest c s env r info)
include h

lemma remove {A B : List (Inst (Op O) (Val α))} {e : Inst (Op O) (Val α)} {op : Op O} {r' : Reg}
    {t' : TrackingType} (hsplit : c.before = A ++ e :: B)
    (hcode : e.code = .op op) (hacc : op.access = some (.set r' t')) (hr : r ≠ r')
    (hbefore : c'.before = A ++ B) (hfresh : c'.fresh = c.fresh)
    (hregs : s'.guest.regs r = s.guest.regs r) : Tracks sem orig rest c' s' env r info := by
  cases h with
  | got known mem value content =>
    obtain ⟨j, hj, hjid, opj, rj, tj, hcodej, haccj⟩ := mem
    refine got (fun id hid => by rw [hfresh]; exact known id hid)
      ⟨j, ?_, hjid, opj, rj, tj, hcodej, haccj⟩ value (by rw [hregs, content])
    have hne : j ≠ e := by
      rintro rfl
      rw [hcode, Code.op.injEq] at hcodej
      rw [← hcodej, hacc] at haccj
      simp at haccj
    rw [hsplit] at hj
    rw [hbefore]
    simp only [mem_append, mem_cons] at hj ⊢
    tauto
  | set code access args known pending value content place transparent =>
    refine set code access args (fun id hid => by rw [hfresh]; exact known id hid) ?_ value
      (by rw [hregs, content]) place transparent
    rw [hsplit] at pending
    rw [hbefore, ← nil_append B]
    refine pending.remove ?_ fun h => h
    rintro rfl
    rw [hcode, Code.op.injEq] at code
    rw [← code, hacc] at access
    simp only [Option.some.injEq, Access.set.injEq] at access
    exact hr access.1.symm

lemma forward
    (hclean : ∀ rv, info.lastSetInstruction.isSome → (machine sem).eval env info.registerValue = some rv →
      Clean info.trackingType rv.val) :
    ∃ rv, (machine sem).eval env info.registerValue = some rv ∧ rv.val = read info.trackingType (s.guest.regs r) := by
  cases h with
  | got known mem value content => exact ⟨_, value, content⟩
  | set code access args known pending value content place transparent =>
    exact ⟨_, value, (read_store access content (hclean _ rfl value)).symm⟩

lemma lowWord (ht : info.trackingType = .X) {op : Op O} (hacc : op.access = some (.get r .W)) :
    ∃ e b, (machine sem).eval env info.registerValue = some ⟨.u64 b, e⟩ ∧
      (read .W (s.guest.regs r) : Val α) = .u32 (b.setWidth 32) := by
  obtain ⟨n, rfl⟩ : ∃ n, r = .x n := by
    cases op <;> simp [Op.access] at hacc
    exact ⟨_, hacc.symm⟩
  cases h with
  | @got id t rv known mem value content =>
    obtain rfl : t = .X := ht
    obtain ⟨val, e⟩ := rv
    obtain rfl : val = read .X (s.guest.regs (.x n)) := content
    refine ⟨e, _, value, ?_⟩
    simp only [read, setWidth_setWidth_of_le _ (show 32 ≤ 64 by decide)]
  | @set d opd t v rv first mid code access args known pending value content place transparent =>
    obtain rfl : t = .X := ht
    obtain ⟨val, e⟩ := rv
    cases val <;> simp only [store, Option.some.injEq, reduceCtorEq] at content
    rename_i b
    refine ⟨e, b, value, ?_⟩
    rw [← content]
    exact congrArg Val.u32 (setWidth_setWidth_of_le b (show 32 ≤ 64 by decide))

end

end Tracks

/-! ## One instruction -/

/-- **The rewritten block computes what the original one does**, and the tracked values are right. -/
structure SimInv (sem : Semantics tables α ε (Free (σ := σ) tables)) (s₀ : State O α (Guest σ)) (N : ℕ)
    (orig rest : List (Inst (Op O) (Val α))) (st : GetSetState O α) (s : State O α (Guest σ))
    (env env' : ℕ → Option (Result α ε)) : Prop where
  sim : Simulates (machine sem) s₀ N rest st.cursor s env env'
  tracks : ∀ r info, st.info r = some info → Tracks sem orig rest st.cursor s env' r info

namespace SimInv

variable {s₀ s s1 : State O α (Guest σ)} {N : ℕ} {orig rest : List (Inst (Op O) (Val α))}
  {st : GetSetState O α} {env env' env1 : ℕ → Option (Result α ε)} {i : Inst (Op O) (Val α)}

lemma keep (h : SimInv sem s₀ N orig (i :: rest) st s env env') (hrefs : ∀ id, Refers i id → id < N)
    (hexec : (machine sem).execInst i (s, env) = some (s1, env1))
    {info' : Reg → Option (RegisterInfo (Val α))}
    (hinfo : ∀ r info, info' r = some info → st.info r = some info ∧ touchesInst tables i r = false) :
    ∃ res, (machine sem).result i s env = some (res, s1) ∧
      SimInv sem s₀ N (orig ++ [i]) rest ⟨st.cursor.keep i, info'⟩ s1 env1 (bindResult env' i.id res) := by
  obtain ⟨res, hres, hsim⟩ := h.sim.keep hrefs hexec
  refine ⟨res, hres, hsim, fun r info hr => ?_⟩
  obtain ⟨hr, htouch⟩ := hinfo r info hr
  have hpush : Tracks sem orig (i :: rest) (st.cursor.keep i) s1 (bindResult env' i.id res) r info :=
    (h.tracks r info hr).push rfl (Nat.le_refl _) htouch
      (fun id _ hid => bindResult_of_ne (hid i mem_cons_self).symm res)
      (regs_of_not_touches htouch hexec)
  exact hpush.advance (Or.inl htouch)

variable {v : Value (Val α)}

variable {op : Op O} {r : Reg} {rv : Result α ε}

lemma replace (h : SimInv sem s₀ N orig (i :: rest) st s env env')
    {t : TrackingType} (hcode : i.code = .op op) (hacc : op.access = some (.get r t))
    (hexec : (machine sem).execInst i (s, env) = some (s1, env1))
    (hknown : st.cursor.Known (i :: rest) v) (hcounted : st.cursor.Counted v)
    (hv : (machine sem).eval env' v = some rv)
    (hval : rv.val = read t (s.guest.regs r))
    (htransparent : ∀ info, st.info r = some info → Transparent tables info.trackingType r i) :
    ∃ env1', SimInv sem s₀ N (orig ++ [i]) rest
      { st with cursor := st.cursor.replaceUsesWith i v } s1 env1 env1' := by
  obtain ⟨rfl, henv1⟩ := execInst_get hcode hacc hexec
  have hstrip : (machine sem).strip rv = ⟨read t (s1.guest.regs r), none⟩ := by
    rw [← hval]
    rfl
  refine ⟨_, h.sim.replace (by simp [hcode]) hknown hcounted hv hstrip henv1, fun r' info hr' => ?_⟩
  have hpush : Tracks sem orig (i :: rest) (st.cursor.replaceUsesWith i v) s1
      (Function.update env' i.id (some ⟨read t (s1.guest.regs r), none⟩)) r' info :=
    (h.tracks r' info hr').push rfl (Nat.le_refl _) rfl
      (fun id _ hid => Function.update_of_ne (hid i mem_cons_self).symm _ _) rfl
  refine hpush.advance ?_
  by_cases hrr : r' = r
  · subst hrr
    exact htransparent info hr'
  · refine Or.inl ?_
    simpa [touchesInst, hcode, hacc] using Ne.symm hrr

/-- `LeastSignificantWord` of a value, before the current instruction. -/
lemma insert (h : SimInv sem s₀ N orig (i :: rest) st s env env')
    (hknown : st.cursor.Known (i :: rest) v) (hcounted : st.cursor.Counted v) {b : BitVec 64}
    {e : Option ε} (hv : (machine sem).eval env' v = some ⟨.u64 b, e⟩) :
    SimInv sem s₀ N orig (i :: rest) { st with cursor := st.cursor.insert .leastSignificantWord [v] } s
      env (Function.update env' st.cursor.fresh (some ⟨.u32 (b.setWidth 32), none⟩)) := by
  refine ⟨h.sim.insert (by simpa using hknown) (by simpa using hcounted)
    (mapM_eval_eq_singleton.2 ⟨v, rfl, hv⟩) rfl, fun r info hr => ?_⟩
  exact (h.tracks r info hr).push rfl (Nat.le_succ _) rfl
    (fun id hid _ => Function.update_of_ne (Nat.ne_of_lt hid) _ _) rfl

lemma trackGet (h : SimInv sem s₀ N orig (i :: rest) st s env env')
    {t : TrackingType} (hcode : i.code = .op op) (hacc : op.access = some (.get r t))
    (hrefs : ∀ id, Refers i id → id < N)
    (hexec : (machine sem).execInst i (s, env) = some (s1, env1)) :
    ∃ env1', SimInv sem s₀ N (orig ++ [i]) rest (trackGet st r i t) s1 env1 env1' := by
  have htouch : ∀ r', r' ≠ r → touchesInst tables i r' = false := by
    intro r' hr'
    simpa [touchesInst, hcode, hacc] using Ne.symm hr'
  have hkeep : ∃ res, (machine sem).result i s env = some (res, s1) ∧
      SimInv sem s₀ N (orig ++ [i]) rest ⟨st.cursor.keep i, fun r' => if r' = r then none else st.info r'⟩ s1 env1
        (bindResult env' i.id res) := by
    refine h.keep hrefs hexec fun r' info hr' => ?_
    split_ifs at hr' with hrr
    exact ⟨hr', htouch r' hrr⟩
  obtain ⟨res, hres, hinv⟩ := hkeep
  obtain ⟨rfl, hres'⟩ := result_get hcode hacc hres
  refine ⟨_, hinv.sim, fun r' info hr' => ?_⟩
  by_cases hrr : r' = r
  · subst hrr
    simp only [A64.trackGet, Function.update_self, Option.some.injEq] at hr'
    subst hr'
    exact .got h.sim.known_self ⟨i, mem_cons_self, rfl, op, r', t, hcode, hacc⟩
      (by rw [hres']; exact Function.update_self _ _ _) rfl
  · refine hinv.tracks r' info ?_
    simpa [A64.trackGet, Function.update_of_ne hrr, hrr] using hr'

lemma doGet (h : SimInv sem s₀ N orig (i :: rest) st s env env')
    {t : TrackingType} (hcode : i.code = .op op) (hacc : op.access = some (.get r t))
    (hrefs : ∀ id, Refers i id → id < N)
    (hexec : (machine sem).execInst i (s, env) = some (s1, env1))
    (hclean : ∀ info rv, st.info r = some info → info.trackingType = t →
      info.lastSetInstruction.isSome → (machine sem).eval env' info.registerValue = some rv →
      Clean t rv.val) :
    ∃ env1', SimInv sem s₀ N (orig ++ [i]) rest (doGet st r i t) s1 env1 env1' := by
  have hord := h.sim.wf.ordered_before
  rw [A64.doGet]
  cases hinfo : st.info r with
  | none => exact h.trackGet hcode hacc hrefs hexec
  | some info =>
    have htracks := h.tracks r info hinfo
    have hself : ∀ info', st.info r = some info' → (t = info.trackingType ∨
        t = .W ∧ info.trackingType = .X) → Transparent tables info'.trackingType r i := by
      intro info' hinfo' ht
      obtain rfl := Option.some.inj (hinfo.symm.trans hinfo')
      exact Or.inr ⟨op, t, hcode, hacc, ht⟩
    dsimp only
    split_ifs with hsame hword
    · -- the tracked value has the same kind
      subst hsame
      obtain ⟨rv, hv, hval⟩ := htracks.forward fun rv hset hv => hclean info rv hinfo rfl hset hv
      exact h.replace hcode hacc hexec htracks.known (htracks.counted hord) hv hval
        fun info' hinfo' => hself info' hinfo' (Or.inl rfl)
    · -- the low word of an X register
      obtain ⟨rfl, hX⟩ := hword
      obtain ⟨e, b, hv, hread⟩ := htracks.lowWord hX hacc
      have htransparent := fun info' hinfo' => hself info' hinfo' (Or.inr ⟨rfl, hX⟩)
      cases hres : resolve st.cursor.before info.registerValue with
      | some k =>
        have himm := eval_of_resolve (M := machine sem) (fun _ => rfl) hord h.sim.run hres
        obtain rfl : k = .u64 b := by
          rw [himm] at hv
          exact congrArg Result.val (Option.some.inj hv)
        exact h.replace hcode hacc hexec (by simp [Cursor.Known]) (by simp [Cursor.Counted])
          (show (machine sem).eval env' (.imm _) = some ⟨.u32 (b.setWidth 32), none⟩ from rfl)
          hread.symm htransparent
      | none =>
        have hinsert := h.insert htracks.known (htracks.counted hord) hv
        refine hinsert.replace hcode hacc hexec h.sim.known_fresh ?_
          (show (machine sem).eval _ (.inst st.cursor.fresh) = some ⟨.u32 (b.setWidth 32), none⟩ by
            simp [eval]) hread.symm htransparent
        exact hinsert.sim.counted_of_mem (j := ⟨st.cursor.fresh, .op .leastSignificantWord, [info.registerValue]⟩)
          mem_cons_self (by simp)
    · exact h.trackGet hcode hacc hrefs hexec

variable {info : RegisterInfo (Val α)}

lemma removeSet (h : SimInv sem s₀ N orig rest st s env env') (hinfo : st.info r = some info) {id : ℕ}
    (hid : info.lastSetInstruction = some id) :
    ∃ s' b, s = write r b s' ∧ SimInv sem s₀ N orig rest
      ⟨(st.cursor.invalidate id).erase id, Function.update st.info r none⟩ s' env env' := by
  have htracks := h.tracks r info hinfo
  cases htracks with
  | got _ _ _ _ => simp at hid
  | @set d op t v rv first mid code access args known pending value content place transparent =>
    obtain rfl : d.id = id := by simpa using hid
    have hd : ∀ s env st', (machine sem).execInst d (s, env) = some st' → ∃ f, Writes r f ∧ st' = (f s, env) := by
      rintro s env ⟨s', env'⟩ hexec
      obtain ⟨_, _, b, -, -, -, rfl, rfl⟩ := execInst_set code access hexec
      exact ⟨_, ⟨b, rfl⟩, rfl⟩
    obtain ⟨f, s', A, B, ⟨b, rfl⟩, rfl, hsplit, hbefore, hfresh, hsim⟩ :=
      h.sim.invalidate pending hd (by simp [code])
    obtain ⟨hbefore', hfresh', hsim'⟩ := hsim.erase hbefore
    refine ⟨s', b, rfl, hsim', fun r' info' hr' => ?_⟩
    by_cases hrr : r' = r
    · subst hrr
      simp at hr'
    · have hr'' : st.info r' = some info' := by
        simpa [Function.update_of_ne hrr] using hr'
      exact (h.tracks r' info' hr'').remove hsplit code access hrr hbefore' (hfresh'.trans hfresh)
        (write_regs_of_ne hrr).symm

lemma doSet (h : SimInv sem s₀ N orig (i :: rest) st s env env')
    {t : TrackingType} (hcode : i.code = .op op) (hacc : op.access = some (.set r t))
    (hrefs : ∀ id, Refers i id → id < N)
    (hexec : (machine sem).execInst i (s, env) = some (s1, env1))
    (hargs : i.args = [v]) :
    ∃ env1', SimInv sem s₀ N (orig ++ [i]) rest (doSet st r v i t) s1 env1 env1' := by
  obtain ⟨v', rv, b, hargs', hv, hb, rfl, rfl⟩ := execInst_set hcode hacc hexec
  obtain rfl : v = v' := by simpa [hargs] using hargs'
  -- without the earlier Set, the state differs in this register only
  obtain ⟨cursor, s', hcursor, hs', hinv⟩ : ∃ cursor s', (A64.doSet st r v i t).cursor = cursor.keep i ∧
      write r b s = write r b s' ∧
      SimInv sem s₀ N orig (i :: rest) ⟨cursor, Function.update st.info r none⟩ s' env1 env' := by
    cases hlast : (st.info r).bind (·.lastSetInstruction) with
    | none =>
      refine ⟨_, s, by rw [A64.doSet, hlast], rfl, h.sim, fun r' info hr' => h.tracks r' info ?_⟩
      by_cases hrr : r' = r
      · subst hrr
        simp at hr'
      · simpa [Function.update_of_ne hrr] using hr'
    | some id =>
      obtain ⟨info, hinfo, hid⟩ := bind_eq_some_iff.1 hlast
      obtain ⟨s', b', rfl, hinv⟩ := h.removeSet hinfo hid
      exact ⟨_, s', by rw [A64.doSet, hlast], write_write, hinv⟩
  rw [hs'] at hexec ⊢
  have hexec' : (machine sem).execInst i (s', env1) = some (write r b s', env1) :=
    execInst_set_intro hcode hacc hargs hv hb
  have htouch : ∀ r', r' ≠ r → touchesInst tables i r' = false := by
    intro r' hr'
    simpa [touchesInst, hcode, hacc] using Ne.symm hr'
  obtain ⟨res, -, hinv2⟩ := hinv.keep hrefs hexec' fun r' info (hr' : Function.update st.info r none r' = some info) => by
    by_cases hrr : r' = r
    · subst hrr
      simp at hr'
    · exact ⟨hr', htouch r' hrr⟩
  have hrv : (machine sem).eval (bindResult env' i.id res) v = some rv := by
    rw [← hv]
    refine hinv2.sim.eval_eq fun id hid => hrefs id ?_
    simp [Refers, hargs, hid]
  refine ⟨_, hcursor ▸ hinv2.sim, fun r' info hr' => ?_⟩
  by_cases hrr : r' = r
  · subst hrr
    simp only [A64.doSet, Function.update_self, Option.some.injEq] at hr'
    subst hr'
    exact .set hcode hacc hargs (hcursor ▸ hinv.sim.known_arg hrefs (by simp [hargs])) (Or.inl rfl) hrv
      (by rw [write_regs_self, hb]) (show orig ++ [i] = orig ++ i :: [] from rfl) (by simp)
  · refine hcursor ▸ hinv2.tracks r' info ?_
    simpa [A64.doSet, Function.update_of_ne hrr] using hr'

lemma clean (h : SimInv sem s₀ N orig (i :: rest) st s env env')
    {t : TrackingType} (hcode : i.code = .op op) (hacc : op.access = some (.get r t))
    (hback : ReadsBack sem (orig ++ i :: rest) s₀)
    (horig : ∀ d ∈ orig, ∀ id, Refers d id → id < N)
    (hrun : (machine sem).exec orig (s₀, fun _ => none) = some (s, env))
    (hinfo : st.info r = some info)
    (ht : info.trackingType = t) (hset : info.lastSetInstruction.isSome)
    (hv : (machine sem).eval env' info.registerValue = some rv) : Clean t rv.val := by
  cases h.tracks r info hinfo with
  | got _ _ _ _ => simp at hset
  | @set d opd t' v rv' first mid code access args known pending value content place transparent =>
    obtain rfl : t' = t := ht
    have heval : (machine sem).eval env v = some rv := by
      rw [← hv]
      refine (h.sim.eval_eq fun id hid => horig d (by simp [place]) id ?_).symm
      simp [Refers, args, hid]
    rw [place] at hrun
    exact hback first d mid i rest opd op r t' v s env rv (by rw [place]) code access args hcode hacc
      transparent hrun heval

lemma visit (h : SimInv sem s₀ N orig (i :: rest) st s env env') (hback : ReadsBack sem (orig ++ i :: rest) s₀)
    (hrefs : ∀ d ∈ orig ++ i :: rest, ∀ id, Refers d id → id < N)
    (hrun : (machine sem).exec orig (s₀, fun _ => none) = some (s, env))
    (hexec : (machine sem).execInst i (s, env) = some (s1, env1)) :
    ∃ env1', SimInv sem s₀ N (orig ++ [i]) rest (visit tables st i) s1 env1 env1' := by
  have hi : ∀ id, Refers i id → id < N := hrefs i (by simp)
  have hnone : ∀ {st' : GetSetState O α}, (∀ op, i.code ≠ .op op) → st' = { st with cursor := st.cursor.keep i } →
      ∃ env1', SimInv sem s₀ N (orig ++ [i]) rest st' s1 env1 env1' := by
    rintro st' hcode rfl
    have htouch : ∀ r, touchesInst tables i r = false := by
      intro r
      cases hc : i.code with
      | op op => exact absurd hc (hcode op)
      | void => simp [touchesInst, hc]
      | identity => simp [touchesInst, hc]
    obtain ⟨res, -, hinv⟩ := h.keep hi hexec fun r info (hr : st.info r = some info) => ⟨hr, htouch r⟩
    exact ⟨_, hinv⟩
  rw [A64.visit]
  cases hcode : i.code with
  | void => exact hnone (by simp [hcode]) rfl
  | identity => exact hnone (by simp [hcode]) rfl
  | op op =>
    cases hacc : op.access with
    | none =>
      simp only [hacc]
      obtain ⟨res, -, hinv⟩ := h.keep hi hexec fun r info
          (hr : (if forgets tables op r then none else st.info r) = some info) => by
        split_ifs at hr with hforget
        refine ⟨hr, ?_⟩
        simpa [touchesInst, hcode, hacc] using hforget
      exact ⟨_, hinv⟩
    | some a =>
      cases a with
      | get r t =>
        simp only [hacc]
        refine h.doGet hcode hacc hi hexec fun info rv hinfo ht hset hv => ?_
        exact h.clean hcode hacc hback (fun d hd => hrefs d (by simp [hd])) hrun hinfo ht hset hv
      | set r t =>
        obtain ⟨v, rv, b, hargs, -⟩ := execInst_set hcode hacc hexec
        simp only [hacc, hargs]
        exact h.doSet hcode hacc hi hexec hargs

lemma visit_rest {insts : List (Inst (Op O) (Val α))} (hback : ReadsBack sem insts s₀)
    (hrefs : ∀ d ∈ insts, ∀ id, Refers d id → id < N) (hinsts : insts = orig ++ rest)
    (h : SimInv sem s₀ N orig rest st s env env')
    (hrun : (machine sem).exec orig (s₀, fun _ => none) = some (s, env))
    (hexec : (machine sem).exec rest (s, env) = some (s1, env1)) :
    ∃ env1', SimInv sem s₀ N insts [] (rest.foldl (A64.visit tables) st) s1 env1 env1' := by
  induction rest generalizing orig st s env env' with
  | nil =>
    obtain ⟨rfl, rfl⟩ := Prod.mk.inj (Option.some.inj hexec)
    rw [hinsts, append_nil]
    exact ⟨env', h⟩
  | cons i rest ih =>
    obtain ⟨⟨s2, env2⟩, hi, hrest⟩ := exec_cons_eq_some.1 hexec
    rw [hinsts] at hback hrefs
    obtain ⟨env2', hinv⟩ := h.visit hback hrefs hrun hi
    rw [← hinsts] at hback hrefs
    exact ih (by simp [hinsts]) hinv (exec_concat_eq_some.2 ⟨_, hrun, hi⟩) hrest

end SimInv

/-! ## The whole pass -/

/-- **`A64GetSetElimination` with `DeadCodeElimination` preserves the meaning of a block**, if the values
that it forwards read back: the same operations with side effects, with the same arguments, and the same
registers at the end. -/
theorem optimize_sound (sem : Semantics tables α ε (Free (σ := σ) tables)) (block : Block (Op O) (Val α))
    (s₀ : State O α (Guest σ)) (hback : ReadsBack sem block.insts s₀) {s : State O α (Guest σ)}
    {env : ℕ → Option (Result α ε)}
    (h : (machine sem).exec block.insts (s₀, fun _ => none) = some (s, env)) :
    ∃ env', (machine sem).exec (optimize tables block) (s₀, fun _ => none) = some (s, env') := by
  have hstart : SimInv sem s₀ block.fresh [] block.insts ⟨block.start, fun _ => none⟩ s₀ (fun _ => none)
      (fun _ => none) :=
    ⟨Simulates.start _ block s₀, by simp⟩
  obtain ⟨env', hinv⟩ := hstart.visit_rest hback (fun d hd id hid => block.refers_lt hd hid) rfl rfl h
  exact hinv.sim.deadCodeElimination fun op hop rs s r s' hstep => step_pure hop hstep

/-! ## Two blocks -/

/-- `A64DataSynchronizationBarrier` as the only other operation. -/
def barrierTables : Opcodes Unit where
  readsFromCPSR _ := false
  writesToCPSR _ := false
  readsFromCoreRegister _ := false
  writesToCoreRegister _ := false
  mayHaveSideEffects _ := true

def barrierSemantics : Semantics barrierTables Unit Unit (Free (σ := Unit) barrierTables) where
  step _ rs g := if rs = [] then some (none, g) else none
  pure _ h := by simp [barrierTables] at h
  frame _ _ _ rs g := by
    split_ifs <;> rfl

/-- `MOV X1, X0`, the use of `W1`, a barrier, and another value in `X1`. -/
def lowWordBlock : Block (Op Unit) (Val Unit) :=
  .ofInsts [⟨0, .op (.getX 0), []⟩, ⟨1, .op (.setX 1), [.inst 0]⟩, ⟨2, .op (.getW 1), []⟩,
    ⟨3, .op (.setW 2), [.inst 2]⟩, ⟨4, .op (.other ()), []⟩, ⟨5, .op (.setX 1), [.imm (.u64 7)]⟩] 6
    (by simp [Ssa, Refers]) (by simp)

def startState (x0 : BitVec 64) : State Unit Unit (Guest Unit) where
  guest := ⟨Function.update (fun _ => 0) (.x 0) x0, ()⟩
  events := []

/-- The Set of `X1` before the barrier is gone, and `W1` is taken from its value. -/
theorem optimize_sound_low_word :
    ∃ s env env', (machine barrierSemantics).exec lowWordBlock.insts (startState 0x500000003,
        fun _ => none) = some (s, env) ∧
      (machine barrierSemantics).exec (optimize barrierTables lowWordBlock) (startState 0x500000003,
        fun _ => none) = some (s, env') ∧
      s.guest.regs (.x 2) = 3 := by
  have hback : ReadsBack barrierSemantics lowWordBlock.insts (startState 0x500000003) := by
    intro first d mid g last opd opg r t v s env rv hinsts hcode hacc
    have hd : d ∈ lowWordBlock.insts := by simp [hinsts]
    have ht : t = .X ∨ t = .W := by
      simp only [lowWordBlock, Block.ofInsts, mem_cons, not_mem_nil, or_false] at hd
      rcases hd with rfl | rfl | rfl | rfl | rfl | rfl <;>
        simp only [Code.op.injEq] at hcode <;> subst hcode <;> simp [Op.access] at hacc <;> simp [hacc]
    intros
    rcases ht with rfl | rfl <;> cases rv.val <;> simp [Clean]
  obtain ⟨env', h⟩ := optimize_sound barrierSemantics lowWordBlock (startState 0x500000003) hback rfl
  exact ⟨_, _, env', rfl, h, rfl⟩

/-- `MSR NZCV, X0` and `MRS X1, NZCV`. -/
def nzcvBlock : Block (Op Unit) (Val Unit) :=
  .ofInsts [⟨0, .op (.getW 0), []⟩, ⟨1, .op .setNZCVRaw, [.inst 0]⟩, ⟨2, .op .getNZCVRaw, []⟩,
    ⟨3, .op (.setW 1), [.inst 2]⟩] 4 (by simp [Ssa, Refers]) (by simp)

/-- **The value of `SetNZCVRaw` is forwarded with all its bits**: `X1` is 1 instead of 0. -/
theorem optimize_forwards_unmasked_nzcv :
    ¬ ∀ s env, (machine barrierSemantics).exec nzcvBlock.insts (startState 1, fun _ => none) = some (s, env) →
      ∃ env', (machine barrierSemantics).exec (optimize barrierTables nzcvBlock) (startState 1,
        fun _ => none) = some (s, env') := by
  intro h
  have horig : ((machine barrierSemantics).exec nzcvBlock.insts (startState 1, fun _ => none)).map
      (fun q => q.1.guest.regs (.x 1)) = some 0 := by decide
  have hopt : ((machine barrierSemantics).exec (optimize barrierTables nzcvBlock) (startState 1,
      fun _ => none)).map (fun q => q.1.guest.regs (.x 1)) = some 1 := by decide
  obtain ⟨⟨s, env⟩, hrun, hs⟩ := map_eq_some_iff.1 horig
  obtain ⟨env', hrun'⟩ := h s env hrun
  rw [hrun', map_some, hs] at hopt
  exact absurd hopt (by decide)

end Voltemu.Dynarmic.A64
