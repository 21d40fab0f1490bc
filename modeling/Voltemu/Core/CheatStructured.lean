import Voltemu.Core.CheatSafety
import Voltemu.Lib.Structured

/-!
# Cheat programs as structured programs

A program whose instructions are properly nested is run as its structured reading says: one arm of every conditional,
and every loop until its register is zero.

* `Stands` — a block stands in the program, instruction by instruction;
* `structured` — what the instructions of a block do to the data;
* `Skips` — what `SkipConditionalBlock` passes over.  It decodes, so that an immediate is never a marker, and it is
  back at the depth where it was behind every block;
* `Follows` — the machine is where the structured reading is, at the depth of the conditionals around it;
* `execute_structured` — the machine and the structured reading go on together, round by round.

Where a loop begins is kept for each register.  A loop inside a loop on the same register forgets where the outer one
begins, hence `Separate`.
-/

namespace Voltemu.Core.DmntCheatVm

open Lib.Structured Function Nat

/-! ## Structured reading -/

/-- A block of instructions.  A loop has a register and a number of passes. -/
abbrev CheatBlock := Block CheatVmOpcode CheatVmOpcode (ℕ × BitVec 32)

abbrev CheatFrame := Frame CheatVmOpcode CheatVmOpcode (ℕ × BitVec 32)

/-- The instructions that only act on the data. -/
def CheatVmOpcode.isPlain : CheatVmOpcode → Bool
  | .endConditional _ | .controlLoop _ => false
  | opcode => !opcode.beginConditionalBlock

section Reading

variable {σ : Type} (host : Host σ) (metadata : CheatProcessMetadata) (kDown : BitVec 64)

/-- **What a block does to the data.** -/
def structured : Semantics CheatVmOpcode CheatVmOpcode (ℕ × BitVec 32) Fault (Data σ) where
  act := executeData host metadata
  test := conditionMet host metadata kDown
  enter := fun (r, numIters) d => d.setRegister r (numIters.setWidth 64)
  again := fun (r, _) d => do
    let register ← d.register r
    let d ← d.setRegister r (register - 1)
    pure (decide (register - 1 ≠ 0), d)

end Reading

def loops : List CheatFrame → List ℕ
  | [] => []
  | .again (r, _) _ _ :: frames => r :: loops frames
  | _ :: frames => loops frames

def conditionals : List CheatFrame → ℕ
  | [] => 0
  | .again _ _ _ :: frames => conditionals frames
  | _ :: frames => conditionals frames + 1

/-- No loop lies inside a loop on the same register. -/
def Separate : List ℕ → CheatBlock → Prop
  | _, .done => True
  | outer, .act _ rest => Separate outer rest
  | outer, .branch _ yes rest => Separate outer yes ∧ Separate outer rest
  | outer, .branchElse _ yes no rest =>
      Separate outer yes ∧ Separate outer no ∧ Separate outer rest
  | outer, .loop (r, _) body rest =>
      r ∉ outer ∧ Separate (r :: outer) body ∧ Separate outer rest

/-! ## Layout -/

section Layout

variable (P : Program)

def At (p : ℕ) (opcode : CheatVmOpcode) (q : ℕ) : Prop :=
  decodeNextOpcode P ⟨p, 0, true⟩ = (some opcode, ⟨q, 0, true⟩)

/-- **A block stands in the program**, from a position to another. -/
def Stands : ℕ → CheatBlock → ℕ → Prop
  | p, .done, e => p = e
  | p, .act opcode rest, e => opcode.isPlain = true ∧ ∃ q, At P p opcode q ∧ Stands q rest e
  | p, .branch opcode yes rest, e => opcode.beginConditionalBlock = true ∧ ∃ q m n,
      At P p opcode q ∧ Stands q yes m ∧ At P m (.endConditional false) n ∧ Stands n rest e
  | p, .branchElse opcode yes no rest, e => opcode.beginConditionalBlock = true ∧ ∃ q m n k l,
      At P p opcode q ∧ Stands q yes m ∧ At P m (.endConditional true) n ∧ Stands n no k ∧
        At P k (.endConditional false) l ∧ Stands l rest e
  | p, .loop (r, numIters) body rest, e => ∃ q m n v,
      At P p (.controlLoop ⟨true, r, numIters⟩) q ∧ Stands q body m ∧
        At P m (.controlLoop ⟨false, r, v⟩) n ∧ Stands n rest e

variable {P} {p q : ℕ} {opcode : CheatVmOpcode}

lemma decodeNextOpcode_depth (p depth : ℕ) (success : Bool) :
    decodeNextOpcode P ⟨p, depth, success⟩ =
      ((decodeNextOpcode P ⟨p, 0, success⟩).1,
        { (decodeNextOpcode P ⟨p, 0, success⟩).2 with conditionDepth := depth }) := by
  rw [decodeNextOpcode, decodeNextOpcode]
  rcases hfirst : getNextDword P ⟨p, success⟩ with ⟨firstDword, k⟩
  dsimp only
  split <;> rfl

lemma At.decode (h : At P p opcode q) (depth : ℕ) :
    decodeNextOpcode P ⟨p, depth, true⟩ = (some opcode, ⟨q, depth, true⟩) := by
  rw [decodeNextOpcode_depth, h]

lemma At.lt_numOpcodes (h : At P p opcode q) : p < P.numOpcodes := by
  by_contra hp
  have hfirst : getNextDword P ⟨p, true⟩ = (0, ⟨p, false⟩) := if_pos (Nat.le_of_not_lt hp)
  rw [At, decodeNextOpcode, hfirst] at h
  cases h

lemma At.advances (h : At P p opcode q) : p < q ∧ q ≤ P.numOpcodes ∧ opcode.InRange := by
  obtain ⟨-, hle, -, hopcode⟩ := decodeNextOpcode_spec h.lt_numOpcodes.le h
  exact ⟨(hopcode opcode rfl).1, hle, (hopcode opcode rfl).2⟩

end Layout

/-! ## Skipping -/

section Skip

variable {P : Program} {isIf : Bool} {desired p q e depth : ℕ} {opcode : CheatVmOpcode}

/-- Skipping at one position is skipping at another.  There are always rounds left. -/
def Skips (P : Program) (isIf : Bool) (desired : ℕ) (c c' : Control) : Prop :=
  ∀ rounds, P.numOpcodes - c.instructionPtr < rounds → ∃ rounds',
    P.numOpcodes - c'.instructionPtr < rounds' ∧ skipLoop P isIf desired rounds c = skipLoop P isIf desired rounds' c'

lemma Skips.refl (c : Control) : Skips P isIf desired c c := fun rounds h => ⟨rounds, h, rfl⟩

lemma Skips.trans {c c' c'' : Control} (h : Skips P isIf desired c c')
    (h' : Skips P isIf desired c' c'') : Skips P isIf desired c c'' := by
  intro rounds hrounds
  obtain ⟨rounds', hrounds', heq⟩ := h rounds hrounds
  obtain ⟨rounds'', hrounds'', heq'⟩ := h' rounds' hrounds'
  exact ⟨rounds'', hrounds'', heq.trans heq'⟩

lemma Skips.of_round {depth' : ℕ} (h : At P p opcode q)
    (hround : ∀ rounds, skipLoop P isIf desired (rounds + 1) ⟨p, depth, true⟩ =
      skipLoop P isIf desired rounds ⟨q, depth', true⟩) :
    Skips P isIf desired ⟨p, depth, true⟩ ⟨q, depth', true⟩ := by
  intro rounds hrounds
  obtain ⟨rounds, rfl⟩ : ∃ n, rounds = n + 1 := exists_eq_succ_of_ne_zero (by omega)
  have := h.advances
  exact ⟨rounds, by dsimp only at hrounds ⊢; omega, hround rounds⟩

lemma skips_other (h : At P p opcode q) (hdepth : desired < depth)
    (hbegin : opcode.beginConditionalBlock = false) (hend : ∀ b, opcode ≠ .endConditional b) :
    Skips P isIf desired ⟨p, depth, true⟩ ⟨q, depth, true⟩ := by
  refine .of_round h fun rounds => ?_
  rw [skipLoop, if_pos hdepth, h.decode]
  dsimp only
  rw [hbegin]
  cases opcode with
  | endConditional b => exact (hend b rfl).elim
  | _ => rfl

lemma skips_begin (h : At P p opcode q) (hdepth : desired < depth) (hbegin : opcode.beginConditionalBlock = true) :
    Skips P isIf desired ⟨p, depth, true⟩ ⟨q, depth + 1, true⟩ := by
  refine .of_round h fun rounds => ?_
  rw [skipLoop, if_pos hdepth, h.decode]
  dsimp only
  rw [hbegin, if_pos rfl]
  rfl

lemma skips_end (h : At P p (.endConditional false) q) (hdepth : desired < depth + 1) :
    Skips P isIf desired ⟨p, depth + 1, true⟩ ⟨q, depth, true⟩ := by
  refine .of_round h fun rounds => ?_
  rw [skipLoop, if_pos hdepth, h.decode]
  rfl

lemma skips_else (h : At P p (.endConditional true) q) (hdepth : desired < depth) :
    Skips P isIf desired ⟨p, depth + 1, true⟩ ⟨q, depth + 1, true⟩ := by
  refine .of_round h fun rounds => ?_
  have hne : (depth + 1 - 1 == desired) = false := by
    rw [beq_eq_false_iff_ne]
    omega
  rw [skipLoop, if_pos (hdepth.trans (lt_succ_self _)), h.decode]
  dsimp only
  rw [hne, Bool.and_false]
  rfl

variable {b : CheatBlock}

/-- **A block is passed over as a whole**, conditionals inside it and loops included. -/
theorem skips_block (h : Stands P p b e) (hdepth : desired < depth) :
    Skips P isIf desired ⟨p, depth, true⟩ ⟨e, depth, true⟩ := by
  induction b generalizing p e depth with
  | done =>
    obtain rfl : p = e := h
    exact .refl _
  | act opcode rest ih =>
    obtain ⟨hplain, q, hat, hrest⟩ := h
    have hop : opcode.beginConditionalBlock = false ∧ ∀ b, opcode ≠ .endConditional b := by
      cases opcode <;> simp_all [CheatVmOpcode.isPlain, CheatVmOpcode.beginConditionalBlock]
    exact (skips_other hat hdepth hop.1 hop.2).trans (ih hrest hdepth)
  | branch opcode yes rest ihy ihr =>
    obtain ⟨hbegin, q, m, n, hat, hyes, hend, hrest⟩ := h
    have hinner : desired < depth + 1 := hdepth.trans (lt_succ_self _)
    exact (skips_begin hat hdepth hbegin).trans <| (ihy hyes hinner).trans <|
      (skips_end hend hinner).trans (ihr hrest hdepth)
  | branchElse opcode yes no rest ihy ihn ihr =>
    obtain ⟨hbegin, q, m, n, k, l, hat, hyes, helse, hno, hend, hrest⟩ := h
    have hinner : desired < depth + 1 := hdepth.trans (lt_succ_self _)
    exact (skips_begin hat hdepth hbegin).trans <| (ihy hyes hinner).trans <|
      (skips_else helse hdepth).trans <| (ihn hno hinner).trans <|
        (skips_end hend hinner).trans (ihr hrest hdepth)
  | loop c body rest ihb ihr =>
    obtain ⟨q, m, n, v, hstart, hbody, hend, hrest⟩ := h
    exact (skips_other hstart hdepth rfl fun _ => nofun).trans <| (ihb hbody hdepth).trans <|
      (skips_other hend hdepth rfl fun _ => nofun).trans (ihr hrest hdepth)

lemma skipLoop_done {c : Control} (h : c.conditionDepth ≤ desired) (rounds : ℕ) :
    skipLoop P isIf desired rounds c = .ok c := by
  cases rounds with
  | zero => rfl
  | succ rounds => rw [skipLoop, if_neg (not_lt.2 h)]

lemma skipConditionalBlock_end {m n : ℕ} (isIf : Bool) (hb : Stands P p b m) (hend : At P m (.endConditional false) n) :
    skipConditionalBlock P isIf ⟨p, depth + 1, true⟩ = .ok ⟨n, depth, true⟩ := by
  have hdepth : depth < depth + 1 := lt_succ_self _
  have hskips : Skips P isIf depth ⟨p, depth + 1, true⟩ ⟨n, depth, true⟩ :=
    (skips_block hb hdepth).trans (skips_end hend hdepth)
  obtain ⟨rounds, -, heq⟩ := hskips (P.numOpcodes - p + 1) (lt_succ_self _)
  rw [skipConditionalBlock, if_pos (succ_pos _)]
  exact heq.trans (skipLoop_done (le_refl depth) rounds)

lemma skipConditionalBlock_else {m n : ℕ} (hb : Stands P p b m) (helse : At P m (.endConditional true) n) :
    skipConditionalBlock P true ⟨p, depth + 1, true⟩ = .ok ⟨n, depth + 1, true⟩ := by
  have hdepth : depth < depth + 1 := lt_succ_self _
  have hskips : Skips P true depth ⟨p, depth + 1, true⟩ ⟨m, depth + 1, true⟩ := skips_block hb hdepth
  obtain ⟨rounds, hrounds, heq⟩ := hskips (P.numOpcodes - p + 1) (lt_succ_self _)
  obtain ⟨rounds, rfl⟩ : ∃ n, rounds = n + 1 := exists_eq_succ_of_ne_zero (by omega)
  rw [skipConditionalBlock, if_pos (succ_pos _)]
  refine heq.trans ?_
  rw [skipLoop, if_pos hdepth, helse.decode]
  dsimp only
  rw [Nat.add_sub_cancel, beq_self_eq_true, Bool.and_self]
  rfl

end Skip

/-! ## The machine follows the structured reading -/

/-- The stack stands in the program behind a position, where the loops around begin at their tops. -/
def Returns (P : Program) (tops : Fin 16 → ℕ) : ℕ → List CheatFrame → Prop
  | e, [] => e = P.numOpcodes
  | e, .close rest :: frames => ∃ n t, At P e (.endConditional false) n ∧ Stands P n rest t ∧
      Separate (loops frames) rest ∧ Returns P tops t frames
  | e, .pass no rest :: frames => ∃ n k l t, At P e (.endConditional true) n ∧ Stands P n no k ∧
      At P k (.endConditional false) l ∧ Stands P l rest t ∧ Separate (loops frames) rest ∧
      Returns P tops t frames
  | e, .again (r, _) body rest :: frames => ∃ (h : r < 16) (v : BitVec 32) (n t : ℕ),
      Stands P (tops ⟨r, h⟩) body e ∧ At P e (.controlLoop ⟨false, r, v⟩) n ∧ Stands P n rest t ∧
      Separate (r :: loops frames) body ∧ Separate (loops frames) rest ∧ Returns P tops t frames

/-- **The machine is where the structured reading is.** -/
structure Follows {σ : Type} (P : Program) (x : State CheatVmOpcode CheatVmOpcode (ℕ × BitVec 32) (Data σ))
    (vm : Vm σ) : Prop where
  data : vm.data = x.store
  depth : vm.control.conditionDepth = conditionals x.frames
  success : vm.control.decodeSuccess = true
  separate : Separate (loops x.frames) x.block
  code : ∃ e, Stands P vm.control.instructionPtr x.block e ∧ Returns P vm.loopTops e x.frames

section Follows

variable {P : Program} {tops : Fin 16 → ℕ} {frames : List CheatFrame} {e : ℕ}

variable {r depth q : ℕ}

lemma Returns.update {top : ℕ} (hr : r < 16) (h : Returns P tops e frames)
    (hnot : r ∉ loops frames) : Returns P (update tops ⟨r, hr⟩ top) e frames := by
  induction frames generalizing e with
  | nil => exact h
  | cons frame frames ih =>
    cases frame with
    | close rest =>
      obtain ⟨n, t, hend, hrest, hsep, hreturns⟩ := h
      exact ⟨n, t, hend, hrest, hsep, ih hreturns hnot⟩
    | pass no rest =>
      obtain ⟨n, k, l, t, helse, hno, hend, hrest, hsep, hreturns⟩ := h
      exact ⟨n, k, l, t, helse, hno, hend, hrest, hsep, ih hreturns hnot⟩
    | again c body rest =>
      obtain ⟨r', numIters⟩ := c
      obtain ⟨h, v, n, t, hbody, hend, hrest, hsep, hsep', hreturns⟩ := h
      obtain ⟨hne, hnot⟩ := not_or.1 (mt List.mem_cons.2 hnot)
      have htop : update tops ⟨r, hr⟩ top ⟨r', h⟩ = tops ⟨r', h⟩ :=
        update_of_ne (fun heq => hne (congrArg Fin.val heq).symm) _ _
      refine ⟨h, v, n, t, ?_, hend, hrest, hsep, hsep', ih hreturns hnot⟩
      rw [htop]
      exact hbody

variable {σ : Type} (host : Host σ) (metadata : CheatProcessMetadata) (kDown : BitVec 64)

lemma setRegister_of_lt (d : Data σ) (h : r < 16) (x : BitVec 64) :
    d.setRegister r x = .ok { d with registers := update d.registers ⟨r, h⟩ x } := by
  rw [Data.setRegister, writeBank_of_lt _ h]
  rfl

lemma structured_again (d : Data σ) (hr : r < 16) (numIters : BitVec 32) :
    (structured host metadata kDown).again (r, numIters) d =
      .ok (decide (d.registers ⟨r, hr⟩ - 1 ≠ 0),
        { d with registers := update d.registers ⟨r, hr⟩ (d.registers ⟨r, hr⟩ - 1) }) := by
  change (d.register r >>= fun register => _) = _
  rw [Data.register, readBank_of_lt _ hr]
  change (d.setRegister r _ >>= fun d => _) = _
  rw [setRegister_of_lt d hr]
  rfl

variable {d : Data σ}

variable {opcode : CheatVmOpcode}

lemma round_of_at {p : ℕ} {vm' : Vm σ} (hat : At P p opcode q)
    (h : executeOpcode host metadata P kDown opcode ⟨⟨q, depth, true⟩, tops, d⟩ = .ok vm') :
    round host metadata P kDown ⟨⟨p, depth, true⟩, tops, d⟩ = .ok (vm', true) := by
  rw [round]
  simp only [hat.decode]
  rw [h]
  rfl

lemma executeOpcode_plain (h : opcode.isPlain = true) (vm : Vm σ) (hd : executeData host metadata opcode vm.data = .ok d) :
    executeOpcode host metadata P kDown opcode vm = .ok { vm with data := d } := by
  cases opcode with
  | endConditional | controlLoop => cases h
  | beginConditional | beginKeypressConditional | beginRegisterConditional => cases h
  | _ =>
    change (executeData host metadata _ vm.data >>= fun data => _) = _
    rw [hd]
    rfl

/-- The start of a conditional block: the machine goes on with the arm, or skips it. -/
lemma executeOpcode_begin (h : opcode.beginConditionalBlock = true)
    {d d' : Data σ} {met : Bool} {c : Control}
    (hd : conditionMet host metadata kDown opcode d = .ok (met, d'))
    (hc : (if met then .ok ⟨q, depth + 1, true⟩ else
      skipConditionalBlock P true ⟨q, depth + 1, true⟩) = Except.ok c) :
    executeOpcode host metadata P kDown opcode ⟨⟨q, depth, true⟩, tops, d⟩ = .ok ⟨c, tops, d'⟩ := by
  unfold executeOpcode
  rw [if_pos h, executeBegin]
  rw [hd]
  cases met with
  | true =>
    cases hc
    rfl
  | false =>
    change (skipConditionalBlock P true ⟨q, depth + 1, true⟩ >>= fun control => _) = _
    rw [if_neg Bool.false_ne_true] at hc
    rw [hc]
    rfl

lemma executeOpcode_end (q depth : ℕ) (d : Data σ) :
    executeOpcode host metadata P kDown (.endConditional false) ⟨⟨q, depth + 1, true⟩, tops, d⟩ =
      .ok ⟨⟨q, depth, true⟩, tops, d⟩ := rfl

lemma executeOpcode_else {m : ℕ} (h : skipConditionalBlock P false ⟨q, depth + 1, true⟩ = .ok ⟨m, depth, true⟩) :
    executeOpcode host metadata P kDown (.endConditional true) ⟨⟨q, depth + 1, true⟩, tops, d⟩ =
      .ok ⟨⟨m, depth, true⟩, tops, d⟩ := by
  change (skipConditionalBlock P false ⟨q, depth + 1, true⟩ >>= fun control => _) = _
  rw [h]
  rfl

lemma executeOpcode_startLoop {numIters : BitVec 32} (hr : r < 16) (depth : ℕ) (tops : Fin 16 → ℕ) (d : Data σ) :
    executeOpcode host metadata P kDown (.controlLoop ⟨true, r, numIters⟩) ⟨⟨q, depth, true⟩, tops, d⟩ =
      .ok ⟨⟨q, depth, true⟩, update tops ⟨r, hr⟩ q,
        { d with registers := update d.registers ⟨r, hr⟩ (numIters.setWidth 64) }⟩ := by
  change executeLoop ⟨true, r, numIters⟩ (⟨⟨q, depth, true⟩, tops, d⟩ : Vm σ) = _
  rw [executeLoop, if_pos rfl]
  rw [setRegister_of_lt d hr, writeBank_of_lt _ hr]
  rfl

/-- The end of a loop: another pass, unless the register is zero. -/
lemma executeOpcode_endLoop {v : BitVec 32} (hr : r < 16) (depth : ℕ) (tops : Fin 16 → ℕ) (d : Data σ) :
    executeOpcode host metadata P kDown (.controlLoop ⟨false, r, v⟩) ⟨⟨q, depth, true⟩, tops, d⟩ =
      .ok ⟨⟨if d.registers ⟨r, hr⟩ - 1 ≠ 0 then tops ⟨r, hr⟩ else q, depth, true⟩, tops,
        { d with registers := update d.registers ⟨r, hr⟩ (d.registers ⟨r, hr⟩ - 1) }⟩ := by
  change executeLoop ⟨false, r, v⟩ (⟨⟨q, depth, true⟩, tops, d⟩ : Vm σ) = _
  rw [executeLoop, if_neg Bool.false_ne_true]
  rw [Data.register, readBank_of_lt _ hr]
  change (d.setRegister r _ >>= fun data => _) = _
  rw [setRegister_of_lt d hr]
  change ite _ _ _ = _
  split
  · rw [readBank_of_lt _ hr]
    rfl
  · rfl

variable {x : State CheatVmOpcode CheatVmOpcode (ℕ × BitVec 32) (Data σ)} {vm : Vm σ}

/-- **A round is a step of the structured reading.**  The machine stops where the program ends. -/
theorem follows_step (h : Follows P x vm) :
    (step (structured host metadata kDown) x = .ok none ∧
      ∃ vm', round host metadata P kDown vm = .ok (vm', false) ∧ vm'.data = vm.data ∧
        vm'.control.conditionDepth = vm.control.conditionDepth) ∨
    ∃ y vm', step (structured host metadata kDown) x = .ok (some y) ∧
      round host metadata P kDown vm = .ok (vm', true) ∧ Follows P y vm' := by
  obtain ⟨block, frames, d⟩ := x
  obtain ⟨⟨p, depth, success⟩, tops, s⟩ := vm
  obtain ⟨hdata, hdepth, hsuccess, hsep, e, hstands, hreturns⟩ := h
  change s = d at hdata
  change depth = conditionals frames at hdepth
  change success = true at hsuccess
  subst hdata hdepth hsuccess
  cases block with
  | done =>
    obtain rfl : p = e := hstands
    cases frames with
    | nil =>
      obtain rfl : p = P.numOpcodes := hreturns
      refine .inl ⟨rfl, ⟨⟨P.numOpcodes, 0, false⟩, tops, s⟩, ?_, rfl, rfl⟩
      have hfirst : getNextDword P ⟨P.numOpcodes, true⟩ = (0, ⟨P.numOpcodes, false⟩) :=
        if_pos le_rfl
      rw [round, decodeNextOpcode]
      rw [hfirst]
      rfl
    | cons frame frames =>
      refine .inr ?_
      cases frame with
      | close rest =>
        obtain ⟨n, t, hend, hrest, hsep, hreturns⟩ := hreturns
        refine ⟨⟨rest, frames, s⟩, ⟨⟨n, conditionals frames, true⟩, tops, s⟩, rfl, ?_,
          rfl, rfl, rfl, hsep, t, hrest, hreturns⟩
        exact round_of_at host metadata kDown hend (executeOpcode_end host metadata kDown ..)
      | pass no rest =>
        obtain ⟨n, k, l, t, helse, hno, hend, hrest, hsep, hreturns⟩ := hreturns
        refine ⟨⟨rest, frames, s⟩, ⟨⟨l, conditionals frames, true⟩, tops, s⟩, rfl, ?_,
          rfl, rfl, rfl, hsep, t, hrest, hreturns⟩
        exact round_of_at host metadata kDown helse
          (executeOpcode_else host metadata kDown (skipConditionalBlock_end false hno hend))
      | again c body rest =>
        obtain ⟨r, numIters⟩ := c
        obtain ⟨hr, v, n, t, hbody, hend, hrest, hsep, hsep', hreturns⟩ := hreturns
        have hround := round_of_at host metadata kDown hend
          (executeOpcode_endLoop host metadata kDown hr (conditionals frames) tops s)
        by_cases hmore : s.registers ⟨r, hr⟩ - 1 ≠ 0
        · rw [if_pos hmore] at hround
          refine ⟨⟨body, .again (r, numIters) body rest :: frames, _⟩, _, ?_, hround, rfl, rfl, rfl, hsep, p, hbody,
            hr, v, n, t, hbody, hend, hrest, hsep, hsep', hreturns⟩
          change ((structured host metadata kDown).again (r, numIters) s).map _ = _
          rw [structured_again host metadata kDown s hr numIters, decide_eq_true hmore]
          rfl
        · rw [if_neg hmore] at hround
          refine ⟨⟨rest, frames, _⟩, _, ?_, hround, rfl, rfl, rfl, hsep', t, hrest, hreturns⟩
          change ((structured host metadata kDown).again (r, numIters) s).map _ = _
          rw [structured_again host metadata kDown s hr numIters, decide_eq_false hmore]
          rfl
  | act opcode rest =>
    obtain ⟨hplain, q, hat, hrest⟩ := hstands
    obtain ⟨d, hd⟩ := succeeds_executeData host metadata hat.advances.2.2 s
    refine .inr ⟨⟨rest, frames, d⟩, ⟨⟨q, conditionals frames, true⟩, tops, d⟩, ?_, ?_,
      rfl, rfl, rfl, hsep, e, hrest, hreturns⟩
    · change (executeData host metadata opcode s).map _ = _
      rw [hd]
      rfl
    · exact round_of_at host metadata kDown hat (executeOpcode_plain host metadata kDown hplain _ hd)
  | branch opcode yes rest =>
    obtain ⟨hbegin, q, m, n, hat, hyes, hend, hrest⟩ := hstands
    obtain ⟨⟨met, d⟩, hd⟩ := succeeds_conditionMet host metadata kDown hat.advances.2.2 s
    cases met with
    | true =>
      refine .inr ⟨⟨yes, .close rest :: frames, d⟩, ⟨⟨q, conditionals frames + 1, true⟩, tops, d⟩, ?_, ?_,
        rfl, rfl, rfl, hsep.1, m, hyes, n, e, hend, hrest, hsep.2, hreturns⟩
      · change (conditionMet host metadata kDown opcode s).map _ = _
        rw [hd]
        rfl
      · exact round_of_at host metadata kDown hat (executeOpcode_begin host metadata kDown hbegin hd rfl)
    | false =>
      refine .inr ⟨⟨rest, frames, d⟩, ⟨⟨n, conditionals frames, true⟩, tops, d⟩, ?_, ?_,
        rfl, rfl, rfl, hsep.2, e, hrest, hreturns⟩
      · change (conditionMet host metadata kDown opcode s).map _ = _
        rw [hd]
        rfl
      · exact round_of_at host metadata kDown hat
          (executeOpcode_begin host metadata kDown hbegin hd (skipConditionalBlock_end true hyes hend))
  | branchElse opcode yes no rest =>
    obtain ⟨hbegin, q, m, n, k, l, hat, hyes, helse, hno, hend, hrest⟩ := hstands
    obtain ⟨⟨met, d⟩, hd⟩ := succeeds_conditionMet host metadata kDown hat.advances.2.2 s
    cases met with
    | true =>
      refine .inr ⟨⟨yes, .pass no rest :: frames, d⟩, ⟨⟨q, conditionals frames + 1, true⟩, tops, d⟩, ?_, ?_,
        rfl, rfl, rfl, hsep.1, m, hyes, n, k, l, e, helse, hno, hend, hrest, hsep.2.2,
        hreturns⟩
      · change (conditionMet host metadata kDown opcode s).map _ = _
        rw [hd]
        rfl
      · exact round_of_at host metadata kDown hat (executeOpcode_begin host metadata kDown hbegin hd rfl)
    | false =>
      refine .inr ⟨⟨no, .close rest :: frames, d⟩, ⟨⟨n, conditionals frames + 1, true⟩, tops, d⟩, ?_, ?_,
        rfl, rfl, rfl, hsep.2.1, k, hno, l, e, hend, hrest, hsep.2.2, hreturns⟩
      · change (conditionMet host metadata kDown opcode s).map _ = _
        rw [hd]
        rfl
      · exact round_of_at host metadata kDown hat
          (executeOpcode_begin host metadata kDown hbegin hd (skipConditionalBlock_else hyes helse))
  | loop c body rest =>
    obtain ⟨r, numIters⟩ := c
    obtain ⟨q, m, n, v, hstart, hbody, hend, hrest⟩ := hstands
    obtain ⟨hnot, hsep, hsep'⟩ := hsep
    have hr : r < 16 := hstart.advances.2.2
    have hround := round_of_at host metadata kDown hstart
      (executeOpcode_startLoop host metadata kDown hr (conditionals frames) tops s)
    refine .inr ⟨⟨body, .again (r, numIters) body rest :: frames, _⟩, _, ?_, hround, rfl, rfl, rfl, hsep, m, hbody,
      hr, v, n, e, ?_, hend, hrest, hsep, hsep', hreturns.update hr hnot⟩
    · change (s.setRegister r (numIters.setWidth 64)).map _ = _
      rw [setRegister_of_lt s hr]
      rfl
    · change Stands P (update tops ⟨r, hr⟩ q ⟨r, hr⟩) body m
      rw [update_self]
      exact hbody

lemma follows_run (rounds : ℕ) (h : Follows P x vm) :
    ∃ y vm' more, steps (structured host metadata kDown) rounds x = .ok (y, more) ∧
      run host metadata P kDown rounds vm = .ok (vm', more) ∧ vm'.data = y.store ∧
      vm'.control.conditionDepth = conditionals y.frames := by
  induction rounds generalizing x vm with
  | zero => exact ⟨x, vm, true, rfl, rfl, h.data, h.depth⟩
  | succ rounds ih =>
    rw [steps, run]
    rcases follows_step host metadata kDown h with
      ⟨hstep, vm', hround, hdata, hdepth⟩ | ⟨y, vm', hstep, hround, hnext⟩
    · rw [hstep, hround]
      exact ⟨x, vm', false, rfl, rfl, hdata.trans h.data, hdepth.trans h.depth⟩
    · rw [hstep, hround]
      exact ih hnext

end Follows

section Execute

variable {σ : Type} (host : Host σ) (metadata : CheatProcessMetadata)

def initialData (d : Data σ) : Data σ :=
  (resetState { d with world := (host.hidKeysDown d.world).2 }).data

/-- **A properly nested program is run as its structured reading says**, if no loop lies inside a loop on the same
register.  Round by round, the data are those of the structured reading and the depth is the number of the conditionals
around; and the program ends with just the data that the block runs to. -/
theorem execute_structured {P : Program} {b : CheatBlock} (hb : Stands P 0 b P.numOpcodes)
    (hsep : Separate [] b) (d : Data σ) :
    (∀ rounds, ∃ y vm more,
      steps (structured host metadata (host.hidKeysDown d.world).1) rounds ⟨b, [], initialData host d⟩ = .ok (y, more) ∧
      execute host metadata P d rounds = .ok (vm, more) ∧ vm.data = y.store ∧
      vm.control.conditionDepth = conditionals y.frames) ∧
    ∀ t, (∃ rounds vm, execute host metadata P d rounds = .ok (vm, false) ∧ vm.data = t) ↔
      Runs (structured host metadata (host.hidKeysDown d.world).1) (.block b) (initialData host d) t := by
  have hfollows : Follows P ⟨b, [], initialData host d⟩ (resetState { d with world := (host.hidKeysDown d.world).2 }) :=
    ⟨rfl, rfl, rfl, hsep, P.numOpcodes, hb, rfl⟩
  have hrun := fun rounds =>
    follows_run host metadata (host.hidKeysDown d.world).1 rounds hfollows
  refine ⟨hrun, fun t => ?_⟩
  rw [← steps_end_iff]
  constructor
  · rintro ⟨rounds, vm, hvm, rfl⟩
    obtain ⟨y, vm', more, hy, hvm', hdata, -⟩ := hrun rounds
    cases hvm.symm.trans hvm'
    exact ⟨rounds, y, hy, hdata.symm⟩
  · rintro ⟨rounds, y, hy, rfl⟩
    obtain ⟨y', vm, more, hy', hvm, hdata, -⟩ := hrun rounds
    cases hy.symm.trans hy'
    exact ⟨rounds, vm, hvm, hdata⟩

end Execute

/-- A loop of two passes, and a conditional whose second arm has an immediate that looks like an end. -/
def loopAndElse : Program where
  numOpcodes := 12
  program k := [0x30000000, 2, 0x78010000, 1, 0x31000000, 0x80000001, 0x78020000, 1, 0x21000000,
    0x78030000, 0x20000000, 0x20000000].getD k 0

def loopAndElseBlock : CheatBlock :=
  .loop (0, 2) (.act (.performArithmeticStatic ⟨8, 1, .Addition, 1⟩) .done) <|
    .branchElse (.beginKeypressConditional 1) (.act (.performArithmeticStatic ⟨8, 2, .Addition, 1⟩) .done)
      (.act (.performArithmeticStatic ⟨8, 3, .Addition, 0x20000000⟩) .done)
      .done

lemma stands_loopAndElse : Stands loopAndElse 0 loopAndElseBlock 12 :=
  ⟨2, 4, 5, 0, rfl, ⟨rfl, 4, rfl, rfl⟩, rfl,
    rfl, 6, 8, 9, 11, 12, rfl, ⟨rfl, 8, rfl, rfl⟩, rfl, ⟨rfl, 11, rfl, rfl⟩, rfl, rfl⟩

/-- The program goes on as its block does. -/
theorem execute_loopAndElse : ∃ y vm more,
    steps (structured demoHost demoMetadata 0) 11 ⟨loopAndElseBlock, [], initialData demoHost demoData⟩ = .ok (y, more) ∧
    execute demoHost demoMetadata loopAndElse demoData 11 = .ok (vm, more) ∧ vm.data = y.store ∧
    vm.control.conditionDepth = conditionals y.frames :=
  (execute_structured demoHost demoMetadata stands_loopAndElse
    ⟨List.not_mem_nil, trivial, trivial, trivial, trivial⟩ demoData).1 11

/-- A loop inside a loop on the same register.  Register 1 counts the outer passes, register 2 the inner ones, and the
register of the loops is set to what is left of three. -/
def nestedLoops : Program where
  numOpcodes := 14
  program k := [0x30000000, 1, 0x78010000, 1, 0x30000000, 1, 0x78020000, 1, 0x31000000,
    0x40000000, 0, 3, 0x98100020, 0x31000000].getD k 0

def nestedLoopsBlock : CheatBlock :=
  .loop (0, 1)
    (.act (.performArithmeticStatic ⟨8, 1, .Addition, 1⟩) <|
      .loop (0, 1) (.act (.performArithmeticStatic ⟨8, 2, .Addition, 1⟩) .done) <|
      .act (.loadRegisterStatic ⟨0, 3⟩) <|
      .act (.performArithmeticRegister ⟨8, .Subtraction, 0, 0, 2, false, 0⟩) .done)
    .done

/-- The machine makes one outer pass, where the structured reading makes two. -/
theorem nestedLoops_differ : Stands nestedLoops 0 nestedLoopsBlock 14 ∧
    ∃ vm t, execute demoHost demoMetadata nestedLoops demoData 20 = .ok (vm, false) ∧
      Runs (structured demoHost demoMetadata (demoHost.hidKeysDown demoData.world).1)
        (.block nestedLoopsBlock) (initialData demoHost demoData) t ∧
      vm.data.registers 1 = 1 ∧ t.registers 1 = 2 := by
  have hstands : Stands nestedLoops 0 nestedLoopsBlock 14 :=
    ⟨2, 13, 14, 0, rfl, ⟨rfl, 4, rfl, 6, 8, 9, 0, rfl, ⟨rfl, 8, rfl, rfl⟩, rfl,
      rfl, 12, rfl, rfl, 13, rfl, rfl⟩, rfl, rfl⟩
  exact ⟨hstands, _, _, rfl, steps_end_iff.1 ⟨20, _, rfl, rfl⟩, rfl, rfl⟩

end Voltemu.Core.DmntCheatVm
