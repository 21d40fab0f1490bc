import Voltemu.Dynarmic.A32RegisterPass
import Voltemu.Dynarmic.Simulation

/-!
# What `RegisterPass` preserves

Two accesses in the same way either are the same or have no cell in common (`Place.eq_of_mem_cells`).  So
when all cells of an access carry its mark, no access in between has touched any of them, and the entry of
the first cell is the entry of all.

* `Tracks` — what an entry says about the cells and about the block;
* `SimInv.visit` — one instruction; `optimize_sound` — the whole pass with the removal of dead code.
-/

namespace Voltemu.Dynarmic.A32

open Voltemu.Lib Machine Function List

variable {O α ε σ : Type*} {tables : Opcodes O} {sem : Semantics tables α ε (Free (σ := σ) tables)}

/-! ## Places -/

namespace Place

variable {p q : Place}

lemma cells_nodup (p : Place) : p.cells.Nodup := by
  cases p <;> simp [cells]

/-- **Accesses in the same way do not overlap.** -/
lemma eq_of_mem_cells (h : p.type = q.type) {c : Cell} (hp : c ∈ p.cells) (hq : c ∈ q.cells) : p = q := by
  cases p <;> cases q <;> simp only [type, reduceCtorEq] at h
  all_goals
    simp only [cells, mem_cons, not_mem_nil, or_false] at hp hq
  · simp_all
  · rw [hp] at hq
    simp only [Cell.ext.injEq, Fin.mk.injEq] at hq
    rw [Fin.ext hq]
  all_goals
    rename_i n m
    refine congrArg _ (Fin.ext ?_)
    obtain ⟨c⟩ | ⟨c⟩ := c
    · simp at hp
    · simp only [Cell.ext.injEq, Fin.ext_iff] at hp hq
      omega

variable {v : Val α} {ws : List (BitVec 32)}

lemma store_length (h : p.store v = some ws) : ws.length = p.cells.length := by
  cases p <;> cases v <;> simp only [store, Option.some.injEq, reduceCtorEq] at h <;> subst h <;> rfl

lemma read_store (hp : ∀ n, p ≠ .vectorDouble n) (h : p.store v = some ws) : p.read ws = some v := by
  cases p <;> cases v <;> simp only [store, Option.some.injEq, reduceCtorEq] at h <;> subst h
  case vectorDouble n _ => exact absurd rfl (hp n)
  case core => rfl
  case single => rfl
  case double b =>
      simp only [read, Option.some.injEq, Val.u64.injEq]
      rw [BitVec.extractLsb'_append_extractLsb'_eq_extractLsb' (by rfl)]
      simp
  case vectorQuad b =>
      simp only [read, Option.some.injEq, Val.u128.injEq]
      rw [BitVec.extractLsb'_append_extractLsb'_eq_extractLsb' (by rfl),
        BitVec.extractLsb'_append_extractLsb'_eq_extractLsb' (by rfl),
        BitVec.extractLsb'_append_extractLsb'_eq_extractLsb' (by rfl)]
      simp

lemma read_store_vectorDouble {n : Fin 32} (h : (vectorDouble n).store v = some ws) :
    ∃ b, v = .u128 b ∧ (vectorDouble n).read ws = some (.u128 ((b.setWidth 64).setWidth 128) : Val α) := by
  cases v <;> simp only [store, Option.some.injEq, reduceCtorEq] at h
  subst h
  refine ⟨_, rfl, ?_⟩
  simp only [read, Option.some.injEq, Val.u128.injEq]
  rw [BitVec.extractLsb'_append_extractLsb'_eq_extractLsb' (by rfl),
    BitVec.setWidth_eq_extractLsb' (show 64 ≤ 128 by decide)]

end Place

/-! ## Cells -/

namespace Guest

variable {g : Guest σ} {cs ds : List Cell} {ws vs : List (BitVec 32)} {c : Cell} {w : BitVec 32}

lemma write_comm {d : Cell} (h : c ≠ d) {v : BitVec 32} : (g.write c w).write d v = (g.write d v).write c w := by
  simp [write, update_comm h]

lemma regs_writeAll_of_notMem (h : c ∉ cs) : (writeAll cs ws g).regs c = g.regs c := by
  induction cs generalizing ws g with
  | nil => rfl
  | cons d cs ih =>
    have hne := ne_of_not_mem_cons h
    have hcs := not_mem_of_not_mem_cons h
    cases ws with
    | nil => rfl
    | cons w ws =>
      rw [writeAll, ih hcs]
      simp [write, update_of_ne hne]

lemma writeAll_write (h : c ∉ cs) : writeAll cs ws (g.write c w) = (writeAll cs ws g).write c w := by
  induction cs generalizing ws g with
  | nil => rfl
  | cons d cs ih =>
    have hne := ne_of_not_mem_cons h
    have hcs := not_mem_of_not_mem_cons h
    cases ws with
    | nil => rfl
    | cons v ws => rw [writeAll, writeAll, write_comm hne, ih hcs]

/-- Disjoint cells do not matter to each other. -/
lemma writeAll_comm (h : ∀ c ∈ cs, c ∉ ds) : writeAll ds vs (writeAll cs ws g) = writeAll cs ws (writeAll ds vs g) := by
  induction cs generalizing ws g with
  | nil => rfl
  | cons c cs ih =>
    cases ws with
    | nil => rfl
    | cons w ws =>
      rw [writeAll, writeAll, ih fun c hc => h c (mem_cons_of_mem _ hc), writeAll_write (h c mem_cons_self)]

lemma writeAll_writeAll (hcs : cs.Nodup) (hlen : vs.length = cs.length) :
    writeAll cs vs (writeAll cs ws g) = writeAll cs vs g := by
  induction cs generalizing vs ws g with
  | nil => cases ws <;> rfl
  | cons c cs ih =>
    obtain ⟨hc, hcs⟩ := nodup_cons.1 hcs
    cases vs with
    | nil => simp at hlen
    | cons v vs =>
      cases ws with
      | nil => rfl
      | cons w ws =>
        have hlen' : vs.length = cs.length := by simpa using hlen
        have hwrite : (g.write c w).write c v = g.write c v := by simp [write]
        rw [writeAll, writeAll, ← writeAll_write hc, ih hcs hlen', hwrite, writeAll]

lemma regs_writeAll (hcs : cs.Nodup) (hlen : ws.length = cs.length) : cs.map (writeAll cs ws g).regs = ws := by
  induction cs generalizing ws g with
  | nil => exact (length_eq_zero_iff.1 hlen).symm
  | cons c cs ih =>
    obtain ⟨hc, hcs⟩ := nodup_cons.1 hcs
    cases ws with
    | nil => simp at hlen
    | cons w ws =>
      rw [writeAll, map_cons, ih hcs (by simpa using hlen), regs_writeAll_of_notMem hc]
      simp [write]

lemma writeAll_self : writeAll cs (cs.map g.regs) g = g := by
  induction cs with
  | nil => rfl
  | cons c cs ih =>
    have hself : g.write c (g.regs c) = g := by simp [write]
    rw [map_cons, writeAll, hself]
    exact ih

end Guest

/-! ## Steps -/

section Steps

variable {op : Op O} {p q : Place} {rs : List (Result α ε)} {s s1 : State O α (Guest σ)}
  {i : Inst (Op O) (Val α)} {env env1 : ℕ → Option (Result α ε)}

lemma step_get (h : op.access = some (.get p)) : step sem op rs s =
    if rs = [] then (p.read (p.cells.map s.guest.regs)).map fun v => (some ⟨v, none⟩, s) else none := by
  simp only [step, h]

lemma step_set (h : op.access = some (.set p)) : step sem op rs s = stepSet p rs s := by
  simp only [step, h]

lemma access_eq_none (h : op.access = none) : op = .vectorZeroUpper ∨ ∃ o, op = .other o := by
  cases op <;> simp [Op.access] at h ⊢

/-- The instruction may read or write a cell of the place. -/
def touchesInst (tables : Opcodes O) (i : Inst (Op O) (Val α)) (p : Place) : Prop :=
  match i.code with
  | .op op =>
      match op.access with
      | some (.get q) | some (.set q) => ∃ c ∈ q.cells, c ∈ p.cells
      | none => ∃ o, op = .other o ∧ touches tables o = true
  | .void | .identity => False

def Writes (p : Place) (f : State O α (Guest σ) → State O α (Guest σ)) : Prop :=
  ∃ ws, f = State.change (Guest.writeAll p.cells ws)

lemma stepOther_writeAll {o : O} (h : touches tables o = false) (cs : List Cell)
    (ws : List (BitVec 32)) : sem.stepOther o rs (s.change (.writeAll cs ws)) =
      (sem.stepOther o rs s).map fun q => (q.1, q.2.change (.writeAll cs ws)) := by
  induction cs generalizing ws s with
  | nil =>
    change sem.stepOther o rs s = (sem.stepOther o rs s).map id
    simp
  | cons c cs ih =>
    cases ws with
    | nil =>
      change sem.stepOther o rs s = (sem.stepOther o rs s).map id
      simp
    | cons w ws =>
      have hstep := sem.stepOther_frame (show Free tables o (Guest.write c w) from ⟨c, w, h, rfl⟩) rs s
      change sem.stepOther o rs ((s.change (.write c w)).change (.writeAll cs ws)) = _
      rw [ih, hstep, Option.map_map]
      rfl

/-- An instruction that does not touch a place works the same with any content of it. -/
lemma ignores_writes (h : ¬ touchesInst tables i p) {f : State O α (Guest σ) → State O α (Guest σ)}
    (hf : Writes p f) : (machine sem).Ignores f i := by
  obtain ⟨ws, rfl⟩ := hf
  intro op hcode rs s
  simp only [touchesInst, hcode] at h
  change step sem op rs (s.change (.writeAll p.cells ws)) =
    (step sem op rs s).map fun q => (q.1, q.2.change (.writeAll p.cells ws))
  cases hacc : op.access with
  | some a =>
    simp only [hacc] at h
    cases a with
    | get q =>
      have hregs : q.cells.map (Guest.writeAll p.cells ws s.guest).regs = q.cells.map s.guest.regs :=
        map_congr_left fun c hc => Guest.regs_writeAll_of_notMem fun hp => h ⟨c, hc, hp⟩
      rw [step_get hacc, step_get hacc]
      change (if rs = [] then (q.read (q.cells.map (Guest.writeAll p.cells ws s.guest).regs)).map _
        else none) = _
      rw [hregs]
      split_ifs
      · rw [Option.map_map]
        rfl
      · rfl
    | set q =>
      rw [step_set hacc, step_set hacc]
      unfold stepSet
      split
      · simp only [Option.map_map]
        refine congrArg (Option.map · _) (funext fun vs => ?_)
        simp only [State.change, comp_apply, Prod.mk.injEq, true_and, State.mk.injEq, and_true]
        exact Guest.writeAll_comm fun c hc hq => h ⟨c, hq, hc⟩
      · rfl
  | none =>
    rcases access_eq_none hacc with rfl | ⟨o, rfl⟩
    · simp only [step, Op.access]
      split <;> rfl
    · have ho : touches tables o = false := by
        simpa using fun ho => h ⟨o, rfl, ho⟩
      exact stepOther_writeAll ho p.cells ws

variable {res : Option (Result α ε)}

lemma step_pure (h : mayHaveSideEffects tables op = false) (hstep : step sem op rs s = some (res, s1)) : s1 = s := by
  cases hacc : op.access with
  | some a =>
    cases a with
    | get p =>
      rw [step_get hacc] at hstep
      split_ifs at hstep
      simp only [Option.map_eq_some_iff, Prod.mk.injEq] at hstep
      obtain ⟨_, -, -, hs⟩ := hstep
      exact hs.symm
    | set p => simp [mayHaveSideEffects, hacc] at h
  | none =>
    rcases access_eq_none hacc with rfl | ⟨o, rfl⟩
    · simp only [step, Op.access] at hstep
      split at hstep
      · simp only [Option.some.injEq, Prod.mk.injEq] at hstep
        exact hstep.2.symm
      · simp at hstep
    · have hside : tables.mayHaveSideEffects o = false := by
        simpa [mayHaveSideEffects, Op.access] using h
      exact Semantics.stepOther_pure hside hstep

/-- A place that an instruction does not touch keeps its content. -/
lemma regs_of_not_touches (h : ¬ touchesInst tables i p) (hexec : (machine sem).execInst i (s, env) = some (s1, env1)) :
    p.cells.map s1.guest.regs = p.cells.map s.guest.regs := by
  have hself : s.change (.writeAll p.cells (p.cells.map s.guest.regs)) = s := by
    simp [State.change, Guest.writeAll_self]
  have hcomm := execInst_comm (M := machine sem) (ignores_writes h ⟨p.cells.map s.guest.regs, rfl⟩) s env
  simp only [hself, hexec, Option.map_some, Option.some.injEq, Prod.mk.injEq] at hcomm
  rw [hcomm.1]
  exact Guest.regs_writeAll p.cells_nodup (by simp)

lemma execInst_set (hcode : i.code = .op op) (hacc : op.access = some (.set p))
    (hexec : (machine sem).execInst i (s, env) = some (s1, env1)) :
    ∃ v rv ws, i.args = [v] ∧ (machine sem).eval env v = some rv ∧ p.store rv.val = some ws ∧
      s1 = s.change (.writeAll p.cells ws) ∧ env1 = env := by
  obtain ⟨res, hres, henv⟩ := execInst_eq_some.1 hexec
  simp only [result, hcode, Option.bind_eq_some_iff] at hres
  obtain ⟨rs, hargs, hstep⟩ := hres
  change step sem op rs s = _ at hstep
  rw [step_set hacc] at hstep
  unfold stepSet at hstep
  split at hstep
  next rv =>
    simp only [Option.map_eq_some_iff, Prod.mk.injEq] at hstep
    obtain ⟨ws, hws, rfl, rfl⟩ := hstep
    obtain ⟨v, hia, hv⟩ := mapM_eval_eq_singleton.1 hargs
    exact ⟨v, rv, ws, hia, hv, hws, rfl, henv.symm⟩
  · simp at hstep

lemma execInst_set_intro (hcode : i.code = .op op) (hacc : op.access = some (.set p))
    {v : Value (Val α)} {rv : Result α ε} {ws : List (BitVec 32)} (hargs : i.args = [v])
    (hv : (machine sem).eval env v = some rv) (hws : p.store rv.val = some ws) :
    (machine sem).execInst i (s, env) = some (s.change (.writeAll p.cells ws), env) := by
  refine execInst_eq_some.2 ⟨none, ?_, rfl⟩
  simp only [result, hcode, mapM_eval_eq_singleton.2 ⟨v, hargs, hv⟩, Option.bind_some]
  change step sem op [rv] s = _
  rw [step_set hacc, stepSet, hws, Option.map_some]

lemma result_get (hcode : i.code = .op op) (hacc : op.access = some (.get p))
    (hres : (machine sem).result i s env = some (res, s1)) :
    s = s1 ∧ ∃ v, p.read (p.cells.map s.guest.regs) = some v ∧ res = some ⟨v, none⟩ := by
  simp only [result, hcode, Option.bind_eq_some_iff] at hres
  obtain ⟨rs, hargs, hstep⟩ := hres
  change step sem op rs s = _ at hstep
  rw [step_get hacc] at hstep
  split_ifs at hstep
  simp only [Option.map_eq_some_iff, Prod.mk.injEq] at hstep
  obtain ⟨v, hv, hres, hs⟩ := hstep
  exact ⟨hs, v, hv, hres.symm⟩

end Steps

/-! ## What is tracked -/

/-- An instruction with a result that the pass does not change. -/
def Stays (j : Inst (Op O) (Val α)) : Prop :=
  ∃ op, j.code = .op op ∧ ∀ p, op.access ≠ some (.set p)

/-- **What an entry says** about a place: the tracked value is that of a Get, or that of a Set which nothing
has noticed yet. -/
inductive Tracks (sem : Semantics tables α ε (Free (σ := σ) tables))
    (rest : List (Inst (Op O) (Val α))) (c : Cursor (Op O) (Val α)) (s : State O α (Guest σ))
    (env : ℕ → Option (Result α ε)) (p : Place) : RegInfo (Val α) → Prop
  | got {id : ℕ} {rv : Result α ε} (known : c.Known rest (.inst id))
      (mem : ∃ j ∈ c.before, j.id = id ∧ Stays j) (value : env id = some rv)
      (content : p.read (p.cells.map s.guest.regs) = some rv.val) :
      Tracks sem rest c s env p ⟨p.type, .inst id, none⟩
  | set {d : Inst (Op O) (Val α)} {op : Op O} {v : Value (Val α)} {rv : Result α ε}
      (code : d.code = .op op) (access : op.access = some (.set p)) (known : c.Known rest v)
      (mem : v ∈ d.args ∨ ∃ j ∈ c.before, v = .inst j.id ∧ Stays j)
      (pending : Pending (machine sem) (Writes p) d c.before)
      (value : (machine sem).eval env v = some rv)
      (content : p.read (p.cells.map s.guest.regs) = some rv.val) :
      Tracks sem rest c s env p ⟨p.type, v, some d.id⟩

namespace Tracks

variable {rest : List (Inst (Op O) (Val α))} {c c' : Cursor (Op O) (Val α)}
  {s s' : State O α (Guest σ)} {env env' : ℕ → Option (Result α ε)} {p : Place}
  {info : RegInfo (Val α)} {i n : Inst (Op O) (Val α)}

lemma known (h : Tracks sem rest c s env p info) : c.Known rest info.registerValue := by
  cases h with
  | got known _ _ _ => exact known
  | set _ _ known _ _ _ _ => exact known

lemma not_immediate {j : Inst (Op O) (Val α)} (hord : Ordered c.before) (hj : j ∈ c.before)
    (hstays : Stays j) : c.Counted (.inst j.id) := by
  obtain ⟨op, hcode, -⟩ := hstays
  intro id _ himm
  rw [isImmediate, resolve_of_mem hord hj (by simp [hcode])] at himm
  simp at himm

section

variable (h : Tracks sem rest c s env p info)
include h

/-- The tracked value is counted: it is not an immediate, or the Set still refers to it. -/
lemma counted (hord : Ordered c.before) : c.Counted info.registerValue := by
  cases h with
  | got _ mem _ _ =>
    obtain ⟨j, hj, rfl, hstays⟩ := mem
    exact not_immediate hord hj hstays
  | @set d _ _ _ _ _ _ mem pending _ _ =>
    rcases mem with hv | ⟨j, hj, rfl, hstays⟩
    · rintro id rfl -
      obtain ⟨A, B, hsplit, -⟩ := pending.split
      exact refs_pos_of_refers (show d ∈ c.before by rw [hsplit]; simp) hv
    · exact not_immediate hord hj hstays

lemma value_eq : ∃ rv, (machine sem).eval env info.registerValue = some rv ∧
      p.read (p.cells.map s.guest.regs) = some rv.val := by
  cases h with
  | got _ _ value content => exact ⟨_, value, content⟩
  | set _ _ _ _ _ value content => exact ⟨_, value, content⟩

lemma push (hbefore : c'.before = n :: c.before) (hfresh : c.fresh ≤ c'.fresh) (hn : ¬ touchesInst tables n p)
    (henv : ∀ id, id < c.fresh → (∀ k ∈ rest, k.id ≠ id) → env' id = env id)
    (hregs : p.cells.map s'.guest.regs = p.cells.map s.guest.regs) :
    Tracks sem rest c' s' env' p info := by
  have hknown : ∀ {v}, c.Known rest v → c'.Known rest v := fun hv id hid =>
    ⟨Nat.lt_of_lt_of_le (hv id hid).1 hfresh, (hv id hid).2⟩
  have heval : ∀ {v}, c.Known rest v → (machine sem).eval env' v = (machine sem).eval env v :=
    fun hv => eval_congr fun id hid => henv id (hv id hid).1 (hv id hid).2
  have hmem : ∀ {j}, j ∈ c.before → j ∈ c'.before := fun hj => by
    rw [hbefore]
    exact mem_cons_of_mem _ hj
  cases h with
  | got known mem value content =>
    obtain ⟨j, hj, hjid⟩ := mem
    exact got (hknown known) ⟨j, hmem hj, hjid⟩ ((heval known).trans value) (by rw [hregs, content])
  | set code access known mem pending value content =>
    refine set code access (hknown known) ?_ ?_ ((heval known).trans value) (by rw [hregs, content])
    · exact mem.imp_right fun ⟨j, hj, hjv⟩ => ⟨j, hmem hj, hjv⟩
    · rw [hbefore]
      exact Or.inr ⟨fun f hf => ignores_writes hn hf, pending⟩

end

lemma advance (h : Tracks sem (i :: rest) c s env p info) : Tracks sem rest c s env p info := by
  have hknown : ∀ {v}, c.Known (i :: rest) v → c.Known rest v := fun hv id hid =>
    ⟨(hv id hid).1, fun k hk => (hv id hid).2 k (mem_cons_of_mem _ hk)⟩
  cases h with
  | got known mem value content => exact got (hknown known) mem value content
  | set code access known mem pending value content =>
    exact set code access (hknown known) mem pending value content

lemma remove {A B : List (Inst (Op O) (Val α))} {e : Inst (Op O) (Val α)} {op : Op O} {q : Place}
    (h : Tracks sem rest c s env p info) (hsplit : c.before = A ++ e :: B)
    (hcode : e.code = .op op) (hacc : op.access = some (.set q)) (hp : p ≠ q)
    (hbefore : c'.before = A ++ voidInst e :: B) (hfresh : c'.fresh = c.fresh)
    (hregs : p.cells.map s'.guest.regs = p.cells.map s.guest.regs) :
    Tracks sem rest c' s' env p info := by
  have hmem : ∀ {j}, j ∈ c.before → Stays j → j ∈ c'.before := by
    rintro j hj ⟨opj, hcodej, haccj⟩
    have hne : j ≠ e := by
      rintro rfl
      rw [hcode, Code.op.injEq] at hcodej
      exact haccj q (hcodej ▸ hacc)
    rw [hsplit] at hj
    rw [hbefore]
    simp only [mem_append, mem_cons] at hj ⊢
    tauto
  cases h with
  | got known mem value content =>
    obtain ⟨j, hj, hjid, hstays⟩ := mem
    exact got (fun id hid => by rw [hfresh]; exact known id hid) ⟨j, hmem hj hstays, hjid, hstays⟩ value
      (by rw [hregs, content])
  | set code access known mem pending value content =>
    refine set code access (fun id hid => by rw [hfresh]; exact known id hid) ?_ ?_ value
      (by rw [hregs, content])
    · exact mem.imp_right fun ⟨j, hj, hjv, hstays⟩ => ⟨j, hmem hj hstays, hjv, hstays⟩
    · rw [hsplit] at pending
      rw [hbefore]
      refine pending.remove (C := [voidInst e]) ?_ fun h => Or.inr ⟨fun f hf => ?_, h⟩
      · rintro rfl
        rw [hcode, Code.op.injEq] at code
        rw [← code, hacc] at access
        simp only [Option.some.injEq, Access.set.injEq] at access
        exact hp access.symm
      · exact ignores_writes (by simp [touchesInst, voidInst]) hf

end Tracks

section Entries

variable {info : Cell → Option (RegInfo (Val α))} {p q : Place} {i j : RegInfo (Val α)}

lemma tracked_eq_some (h : tracked info p = some i) :
    (∀ c ∈ p.cells, ∃ k, info c = some k ∧ k.valueType = p.type) ∧ p.cells.head?.bind info = some i := by
  rw [tracked] at h
  split_ifs at h with hall
  refine ⟨fun c hc => ?_, h⟩
  have := all_eq_true.1 hall c hc
  simpa [Option.any_eq_true] using this

/-- **An access says something about its own place**, and leaves in place what is said about places that it
does not meet. -/
lemma tracked_track (h : tracked (track info q j) p = some i) (hj : j.valueType = q.type) :
    p = q ∧ i = j ∨ (∀ c ∈ p.cells, c ∉ q.cells) ∧ tracked info p = some i := by
  obtain ⟨hall, hhead⟩ := tracked_eq_some h
  by_cases hmeet : ∃ c ∈ p.cells, c ∈ q.cells
  · obtain ⟨c, hp, hq⟩ := hmeet
    obtain ⟨k, hk, htype⟩ := hall c hp
    obtain rfl : j = k := by simpa [track, hq] using hk
    obtain rfl : p = q := Place.eq_of_mem_cells (htype.symm.trans hj) hp hq
    refine Or.inl ⟨rfl, ?_⟩
    obtain ⟨c', hc', hinfo⟩ := Option.bind_eq_some_iff.1 hhead
    have hmem : c' ∈ p.cells := mem_of_mem_head? hc'
    simpa [track, hmem] using hinfo.symm
  · have hdisj : ∀ c ∈ p.cells, c ∉ q.cells := fun c hp hq => hmeet ⟨c, hp, hq⟩
    refine Or.inr ⟨hdisj, ?_⟩
    have hsame : ∀ c ∈ p.cells, track info q j c = info c := fun c hc => if_neg (hdisj c hc)
    rw [← h, tracked, tracked]
    have hall' : (p.cells.all fun c => (info c).any fun i => i.valueType = p.type) =
        p.cells.all fun c => (track info q j c).any fun i => i.valueType = p.type := by
      rw [Bool.eq_iff_iff, all_eq_true, all_eq_true]
      exact forall₂_congr fun c hc => by rw [hsame c hc]
    have hhead' : p.cells.head?.bind info = p.cells.head?.bind (track info q j) := by
      cases hc : p.cells.head? with
      | none => rfl
      | some c => exact (hsame c (mem_of_mem_head? hc)).symm
    rw [hall', hhead']

end Entries

/-! ## One instruction -/

/-- **The rewritten block computes what the original one does**, and the tracked values are right. -/
structure SimInv (sem : Semantics tables α ε (Free (σ := σ) tables)) (s₀ : State O α (Guest σ)) (N : ℕ)
    (rest : List (Inst (Op O) (Val α))) (st : PassState O α) (s : State O α (Guest σ))
    (env env' : ℕ → Option (Result α ε)) : Prop where
  sim : Simulates (machine sem) s₀ N rest st.cursor s env env'
  tracks : ∀ p info, tracked st.info p = some info → Tracks sem rest st.cursor s env' p info
  pc : st.info (.core 15) = none

namespace SimInv

variable {s₀ s s1 : State O α (Guest σ)} {N : ℕ} {rest : List (Inst (Op O) (Val α))}
  {st : PassState O α} {env env' env1 : ℕ → Option (Result α ε)} {i : Inst (Op O) (Val α)}

variable {p q : Place}

lemma tracks_keep {c : Cursor (Op O) (Val α)} {info : RegInfo (Val α)}
    (h : Tracks sem (i :: rest) c s env' p info) (htouch : ¬ touchesInst tables i p)
    (hexec : (machine sem).execInst i (s, env) = some (s1, env1)) (res : Option (Result α ε)) :
    Tracks sem rest (c.keep i) s1 (bindResult env' i.id res) p info := by
  have hpush : Tracks sem (i :: rest) (c.keep i) s1 (bindResult env' i.id res) p info :=
    h.push rfl (Nat.le_refl _) htouch
      (fun id _ hid => bindResult_of_ne (hid i mem_cons_self).symm res)
      (regs_of_not_touches htouch hexec)
  exact hpush.advance

lemma keep (h : SimInv sem s₀ N (i :: rest) st s env env') (hrefs : ∀ id, Refers i id → id < N)
    (hexec : (machine sem).execInst i (s, env) = some (s1, env1))
    {info' : Cell → Option (RegInfo (Val α))}
    (hinfo : ∀ p info, tracked info' p = some info →
      tracked st.info p = some info ∧ ¬ touchesInst tables i p) (hpc : info' (.core 15) = none) :
    ∃ env1', SimInv sem s₀ N rest ⟨st.cursor.keep i, info'⟩ s1 env1 env1' := by
  obtain ⟨res, -, hsim⟩ := h.sim.keep hrefs hexec
  refine ⟨_, hsim, fun p info hp => ?_, hpc⟩
  obtain ⟨hp, htouch⟩ := hinfo p info hp
  exact tracks_keep (h.tracks p info hp) htouch hexec res

variable {op : Op O}

lemma touchesInst_iff (hcode : i.code = .op op) (hacc : op.access = some (.get q) ∨ op.access = some (.set q)) :
    touchesInst tables i p ↔ ∃ c ∈ q.cells, c ∈ p.cells := by
  rcases hacc with hacc | hacc <;> simp only [touchesInst, hcode, hacc]

lemma doGet (h : SimInv sem s₀ N (i :: rest) st s env env') (hcode : i.code = .op op) (hacc : op.access = some (.get q))
    (hrefs : ∀ id, Refers i id → id < N)
    (hexec : (machine sem).execInst i (s, env) = some (s1, env1)) :
    ∃ env1', SimInv sem s₀ N rest (doGet st q i) s1 env1 env1' := by
  have hpc : Cell.core 15 ∉ q.cells := by
    cases op <;> simp only [Op.access, Option.some.injEq, Access.get.injEq, reduceCtorEq] at hacc <;>
      subst hacc <;> simp [Place.cells, Fin.ext_iff]
    omega
  obtain ⟨res, hres, hsim⟩ := h.sim.keep hrefs hexec
  obtain ⟨rfl, v, hread, rfl⟩ := result_get hcode hacc hres
  rw [A32.doGet]
  cases htracked : tracked st.info q with
  | some info =>
    have htracks := h.tracks q info htracked
    obtain ⟨rv, hv, hval⟩ := htracks.value_eq
    have hstrip : (machine sem).strip rv = ⟨v, none⟩ := by
      rw [hread, Option.some.injEq] at hval
      rw [hval]
      rfl
    have henv1 : env1 = update env i.id (some ⟨v, none⟩) := by
      obtain ⟨res', hres', henv⟩ := execInst_eq_some.1 hexec
      rw [hres, Option.some.injEq, Prod.mk.injEq] at hres'
      obtain ⟨rfl, -⟩ := hres'
      exact henv.symm
    refine ⟨_, h.sim.replace (by simp [hcode]) htracks.known
      (htracks.counted h.sim.wf.ordered_before) hv hstrip henv1, fun p info' hp => ?_, h.pc⟩
    have hpush : Tracks sem (i :: rest) (st.cursor.replaceUsesWith i info.registerValue) s
        (update env' i.id (some ⟨v, none⟩)) p info' :=
      (h.tracks p info' hp).push rfl (Nat.le_refl _) (by simp [touchesInst])
        (fun id _ hid => update_of_ne (hid i mem_cons_self).symm _ _) rfl
    exact hpush.advance
  | none =>
    refine ⟨_, hsim, fun p info hp => ?_, by simp [track, hpc, h.pc]⟩
    rcases tracked_track hp rfl with ⟨rfl, rfl⟩ | ⟨hdisj, hp⟩
    · refine .got h.sim.known_self ⟨i, mem_cons_self, rfl, op, hcode, by simp [hacc]⟩
        (show bindResult env' i.id _ i.id = some ⟨v, none⟩ from update_self _ _ _) hread
    · refine tracks_keep (h.tracks p info hp) (fun htouch => ?_) hexec _
      obtain ⟨c, hq, hp⟩ := (touchesInst_iff hcode (Or.inl hacc)).1 htouch
      exact hdisj c hp hq

lemma removeLast (h : SimInv sem s₀ N rest st s env env') (q : Place) :
    ∃ s', (∀ ws, ws.length = q.cells.length → s.change (.writeAll q.cells ws) = s'.change (.writeAll q.cells ws)) ∧
      Simulates (machine sem) s₀ N rest (removeLast st q) s' env env' ∧
      ∀ p info, (∀ c ∈ p.cells, c ∉ q.cells) → tracked st.info p = some info →
        Tracks sem rest (A32.removeLast st q) s' env' p info := by
  rw [A32.removeLast]
  cases hlast : (tracked st.info q).bind (·.lastSetInstruction) with
  | none => exact ⟨s, fun _ _ => rfl, h.sim, fun p info _ hp => h.tracks p info hp⟩
  | some id =>
    obtain ⟨info, hinfo, hid⟩ := Option.bind_eq_some_iff.1 hlast
    have htracks := h.tracks q info hinfo
    cases htracks with
    | got _ _ _ _ => simp at hid
    | @set d op v rv code access known mem pending value content =>
      obtain rfl : d.id = id := by simpa using hid
      have hd : ∀ s env st', (machine sem).execInst d (s, env) = some st' → ∃ f, Writes q f ∧ st' = (f s, env) := by
        rintro s env ⟨s', env'⟩ hexec
        obtain ⟨_, _, ws, -, -, -, rfl, rfl⟩ := execInst_set code access hexec
        exact ⟨_, ⟨ws, rfl⟩, rfl⟩
      obtain ⟨f, s', A, B, ⟨ws, rfl⟩, rfl, hsplit, hbefore, hfresh, hsim⟩ :=
        h.sim.invalidate pending hd (by simp [code])
      refine ⟨s', fun ws' hlen => ?_, hsim, fun p info hdisj hp => ?_⟩
      · simp only [State.change, Guest.writeAll_writeAll q.cells_nodup hlen]
      · refine (h.tracks p info hp).remove hsplit code access ?_ hbefore hfresh ?_
        · rintro rfl
          cases p <;> simp [Place.cells] at hdisj
        · exact (map_congr_left fun c hc => Guest.regs_writeAll_of_notMem (hdisj c hc)).symm

/-- **A Set, without what is tracked about its own place**: the state, the block, and the other places. -/
lemma set_others (h : SimInv sem s₀ N (i :: rest) st s env env')
    (hcode : i.code = .op op) (hacc : op.access = some (.set q))
    (hrefs : ∀ id, Refers i id → id < N)
    (hexec : (machine sem).execInst i (s, env) = some (s1, env1)) :
    ∃ v rv env1' ws, i.args = [v] ∧ ((A32.removeLast st q).keep i).Known rest v ∧
      (machine sem).eval env1' v = some rv ∧ q.store rv.val = some ws ∧
      q.cells.map s1.guest.regs = ws ∧
      Simulates (machine sem) s₀ N rest ((A32.removeLast st q).keep i) s1 env1 env1' ∧
      ∀ p info, (∀ c ∈ p.cells, c ∉ q.cells) → tracked st.info p = some info →
        Tracks sem rest ((A32.removeLast st q).keep i) s1 env1' p info := by
  obtain ⟨v, rv, ws, hargs, hv, hws, rfl, rfl⟩ := execInst_set hcode hacc hexec
  have hlen := Place.store_length hws
  obtain ⟨s', hs', hsim, htracks⟩ := h.removeLast q
  have hexec' : (machine sem).execInst i (s', env1) = some (s.change (.writeAll q.cells ws), env1) := by
    rw [hs' ws hlen]
    exact execInst_set_intro hcode hacc hargs hv hws
  obtain ⟨res, -, hsim1⟩ := hsim.keep hrefs hexec'
  refine ⟨v, rv, _, ws, hargs, hsim.known_arg hrefs (by simp [hargs]), ?_, hws,
    Guest.regs_writeAll q.cells_nodup hlen, hsim1, fun p info hdisj hp => ?_⟩
  · rw [← hv]
    refine hsim1.eval_eq fun id hid => hrefs id ?_
    simp [Refers, hargs, hid]
  · refine tracks_keep (htracks p info hdisj hp) (fun htouch => ?_) hexec' _
    obtain ⟨c, hq, hp⟩ := (touchesInst_iff hcode (Or.inr hacc)).1 htouch
    exact hdisj c hp hq

variable {v : Value (Val α)}

/-- **A Set** whose value reads back. -/
lemma doSet (h : SimInv sem s₀ N (i :: rest) st s env env') (hcode : i.code = .op op) (hacc : op.access = some (.set q))
    (hrefs : ∀ id, Refers i id → id < N)
    (hexec : (machine sem).execInst i (s, env) = some (s1, env1))
    (hargs : i.args = [v]) (hq : ∀ n, q ≠ .vectorDouble n) (hpc : q ≠ .core 15) :
    ∃ env1', SimInv sem s₀ N rest (doSet st q v i) s1 env1 env1' := by
  have hpc' : Cell.core 15 ∉ q.cells := by
    cases q <;> simp [Place.cells] at hpc ⊢
    exact fun hn => hpc hn.symm
  obtain ⟨v', rv, env1', ws, hargs', hknown, hv, hws, hregs, hsim, hothers⟩ :=
    h.set_others hcode hacc hrefs hexec
  obtain rfl : v = v' := by simpa [hargs] using hargs'
  refine ⟨env1', hsim, fun p info hp => ?_, by simp [A32.doSet, track, hpc', h.pc]⟩
  rcases tracked_track hp rfl with ⟨rfl, rfl⟩ | ⟨hdisj, hp⟩
  · refine .set hcode hacc hknown (Or.inl (by simp [hargs])) (Or.inl rfl) hv ?_
    rw [hregs]
    exact Place.read_store hq hws
  · exact hothers p info hdisj hp

lemma doSetVectorD (h : SimInv sem s₀ N (i :: rest) st s env env') {n : Fin 32}
    (hcode : i.code = .op op) (hacc : op.access = some (.set (.vectorDouble n)))
    (hrefs : ∀ id, Refers i id → id < N)
    (hexec : (machine sem).execInst i (s, env) = some (s1, env1))
    (hargs : i.args = [v]) :
    ∃ env1', SimInv sem s₀ N rest (doSetVectorD st (.vectorDouble n) v i) s1 env1 env1' := by
  obtain ⟨v', rv, env1', ws, hargs', hknown, hv, hws, hregs, hsim, hothers⟩ :=
    h.set_others hcode hacc hrefs hexec
  obtain rfl : v = v' := by simpa [hargs] using hargs'
  obtain ⟨b, hb, hread⟩ := Place.read_store_vectorDouble hws
  obtain ⟨val, e⟩ := rv
  obtain rfl : val = .u128 b := hb
  set c := (A32.removeLast st (.vectorDouble n)).keep i with hc
  have hcounted : c.Counted v := by
    rintro id rfl -
    exact refs_pos_of_refers (show i ∈ c.before from mem_cons_self) (by simp [Refers, hargs])
  have hstep : (machine sem).step .vectorZeroUpper [⟨.u128 b, e⟩] s1 =
      some (some ⟨.u128 ((b.setWidth 64).setWidth 128), none⟩, s1) := rfl
  have hknown' : ∀ w ∈ [v], c.Known rest w := by simpa using hknown
  have hinsert := hsim.insert hknown' (by simpa using hcounted)
    (mapM_eval_eq_singleton.2 ⟨v, rfl, hv⟩) hstep
  refine ⟨_, hinsert, fun p info hp => ?_, by simp [A32.doSetVectorD, track, h.pc, Place.cells]⟩
  rcases tracked_track hp rfl with ⟨rfl, rfl⟩ | ⟨hdisj, hp⟩
  · refine .set hcode hacc hsim.known_fresh (Or.inr ⟨_, mem_cons_self, rfl, _, rfl, by simp [Op.access]⟩)
      (Or.inr ⟨fun f hf => ignores_writes (by simp [touchesInst, Op.access]) hf, Or.inl rfl⟩)
      (show (machine sem).eval _ (.inst c.fresh) = some ⟨_, none⟩ from update_self _ _ _) ?_
    rw [hregs]
    exact hread
  · exact (hothers p info hdisj hp).push rfl (Nat.le_succ _) (by simp [touchesInst, Op.access])
      (fun id hid _ => update_of_ne (Nat.ne_of_lt hid) _ _) rfl

lemma visit (h : SimInv sem s₀ N (i :: rest) st s env env') (hrefs : ∀ id, Refers i id → id < N)
    (hexec : (machine sem).execInst i (s, env) = some (s1, env1)) :
    ∃ env1', SimInv sem s₀ N rest (visit tables st i) s1 env1 env1' := by
  have hsame : (∀ p, tracked st.info p ≠ none → ¬ touchesInst tables i p) →
      ∃ env1', SimInv sem s₀ N rest { st with cursor := st.cursor.keep i } s1 env1 env1' := by
    intro htouch
    exact h.keep hrefs hexec (fun p info hp => ⟨hp, htouch p (by simp [hp])⟩) h.pc
  rw [A32.visit]
  cases hcode : i.code with
  | void => exact hsame fun p _ => by simp [touchesInst, hcode]
  | identity => exact hsame fun p _ => by simp [touchesInst, hcode]
  | op op =>
    cases hacc : op.access with
    | none =>
      simp only [hacc]
      rcases access_eq_none hacc with rfl | ⟨o, rfl⟩
      · exact hsame fun p _ => by simp [touchesInst, hcode, Op.access]
      · by_cases ho : touches tables o = true
        · refine h.keep hrefs hexec (fun p info hp => ?_) (by simp [ho])
          simp only [ho, if_true] at hp
          cases p <;> simp [tracked, Place.cells] at hp
        · simp only [ho, if_false, Bool.false_eq_true]
          exact hsame fun p _ => by simp [touchesInst, hcode, Op.access, ho]
    | some a =>
      cases a with
      | get q =>
        simp only [hacc]
        exact h.doGet hcode hacc hrefs hexec
      | set q =>
        obtain ⟨v, rv, ws, hargs, -⟩ := execInst_set hcode hacc hexec
        by_cases hpc : q = .core 15
        · subst hpc
          simp only [hacc, hargs]
          refine hsame fun p hp htouch => ?_
          obtain ⟨c, hc, hpcell⟩ := (touchesInst_iff hcode (Or.inr hacc)).1 htouch
          obtain rfl : c = .core 15 := by simpa [Place.cells] using hc
          obtain ⟨info, hinfo⟩ := Option.ne_none_iff_exists'.1 hp
          obtain ⟨k, hk, -⟩ := (tracked_eq_some hinfo).1 _ hpcell
          simp [h.pc] at hk
        · by_cases hq : ∃ n, q = .vectorDouble n
          · obtain ⟨n, rfl⟩ := hq
            simp only [hacc, hargs]
            exact h.doSetVectorD hcode hacc hrefs hexec hargs
          · have hdo := h.doSet hcode hacc hrefs hexec hargs (fun n hn => hq ⟨n, hn⟩) hpc
            simp only [hacc, hargs]
            split
            next heq => simp at heq
            next heq => exact absurd (by simpa using heq) hpc
            next n _ _ heq _ => exact absurd ⟨n, by simpa using heq⟩ hq
            next heq hv =>
              simp only [Option.some.injEq, Access.set.injEq, cons.injEq] at heq hv
              rw [← heq, ← hv.1]
              exact hdo
            next hno => exact absurd rfl (hno q v [] rfl)

lemma visit_rest (h : SimInv sem s₀ N rest st s env env') (hrefs : ∀ d ∈ rest, ∀ id, Refers d id → id < N)
    (hexec : (machine sem).exec rest (s, env) = some (s1, env1)) :
    ∃ env1', SimInv sem s₀ N [] (rest.foldl (A32.visit tables) st) s1 env1 env1' := by
  induction rest generalizing st s env env' with
  | nil =>
    obtain ⟨rfl, rfl⟩ := Prod.mk.inj (Option.some.inj hexec)
    exact ⟨env', h⟩
  | cons i rest ih =>
    obtain ⟨⟨s2, env2⟩, hi, hrest⟩ := exec_cons_eq_some.1 hexec
    obtain ⟨env2', hinv⟩ := h.visit (hrefs i mem_cons_self) hi
    exact ih hinv (fun d hd => hrefs d (mem_cons_of_mem _ hd)) hrest

end SimInv

/-! ## The whole pass -/

/-- **`RegisterPass` with `DeadCodeElimination` preserves the meaning of a block**: the same operations with
side effects, with the same arguments, and the same registers at the end. -/
theorem registerPass_sound (sem : Semantics tables α ε (Free (σ := σ) tables))
    (block : Block (Op O) (Val α)) (s₀ : State O α (Guest σ)) {s : State O α (Guest σ)}
    {env : ℕ → Option (Result α ε)}
    (h : (machine sem).exec block.insts (s₀, fun _ => none) = some (s, env)) :
    ∃ env', (machine sem).exec (optimize tables block) (s₀, fun _ => none) = some (s, env') := by
  have hstart : SimInv sem s₀ block.fresh block.insts ⟨block.start, fun _ => none⟩ s₀ (fun _ => none)
      (fun _ => none) := by
    refine ⟨Simulates.start _ block s₀, fun p info hp => ?_, rfl⟩
    cases p <;> simp [tracked, Place.cells] at hp
  obtain ⟨env', hinv⟩ := hstart.visit_rest (fun d hd id hid => block.refers_lt hd hid) h
  exact hinv.sim.deadCodeElimination fun op hop rs s r s' hstep => step_pure hop hstep

/-- `A32DataSynchronizationBarrier` as the only other operation. -/
def barrierTables : Opcodes Unit where
  readsFromCPSR _ := false
  writesToCPSR _ := false
  readsFromCoreRegister _ := false
  writesToCoreRegister _ := false
  mayHaveSideEffects _ := true

def barrierSemantics : Semantics barrierTables Unit Unit (Free (σ := Unit) barrierTables) where
  step _ rs g := if rs = [] then some (none, g) else none
  pure _ h := by simp [barrierTables] at h
  frame _ _ _ rs g := by
    split_ifs <;> rfl

/-- `D0` is written, half of it is written again as `S1`, and it is copied to `D1` and to `Q1`. -/
def overlapBlock : Block (Op Unit) (Val Unit) :=
  .ofInsts [⟨0, .op (.getRegister 0), []⟩, ⟨1, .op (.setExtendedRegister32 1), [.inst 0]⟩,
    ⟨2, .op (.setExtendedRegister64 0), [.imm (.u64 0x1111111122222222)]⟩,
    ⟨3, .op (.setExtendedRegister32 1), [.inst 0]⟩, ⟨4, .op (.getVectorD 0), []⟩,
    ⟨5, .op (.setVectorD 1), [.inst 4]⟩, ⟨6, .op (.getVectorD 1), []⟩,
    ⟨7, .op (.setVectorQ 1), [.inst 6]⟩, ⟨8, .op (.other ()), []⟩,
    ⟨9, .op (.setRegister 15), [.inst 0]⟩] 10 (by simp [Ssa, Refers]) (by simp)

def startState : State Unit Unit (Guest Unit) where
  guest := ⟨update (fun _ => 0) (.core 0) 5, ()⟩
  events := []

theorem registerPass_sound_overlap :
    ∃ s env env', (machine barrierSemantics).exec overlapBlock.insts (startState, fun _ => none) = some (s, env) ∧
      (machine barrierSemantics).exec (optimize barrierTables overlapBlock) (startState,
        fun _ => none) = some (s, env') ∧
      s.guest.regs (.ext 4) = 0x22222222 ∧ s.guest.regs (.ext 5) = 5 := by
  have hrun : ((machine barrierSemantics).exec overlapBlock.insts (startState, fun _ => none)).map
      (fun q => (q.1.guest.regs (.ext 4), q.1.guest.regs (.ext 5))) = some (0x22222222, 5) := by
    decide +kernel
  obtain ⟨⟨s, env⟩, hexec, hs⟩ := Option.map_eq_some_iff.1 hrun
  obtain ⟨env', h⟩ := registerPass_sound barrierSemantics overlapBlock startState hexec
  exact ⟨s, env, env', hexec, h, congrArg Prod.fst hs, congrArg Prod.snd hs⟩

end Voltemu.Dynarmic.A32
