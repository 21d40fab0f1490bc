import Voltemu.Core.CheatVm

/-!
# What a cheat program can reach

No array is left, no depth falls below zero and no dword behind the program is read, whatever the program is.  The
fatal branch of `SkipConditionalBlock` is reached by an `else` outside of every conditional block, and only so.

* `Advances` — code that reads dwords goes forward within the program;
* `CheatVmOpcode.InRange` — the indices of a decoded instruction are those of registers;
* `Succeeds` — the instructions do not fault;
* `Bounded` — the positions of the machine are within the program, after every round.
-/

namespace Voltemu.Core.DmntCheatVm

/-! ## Decoding -/

section Decode

def Program.Extends (P P' : Program) : Prop :=
  P.numOpcodes ≤ P'.numOpcodes ∧ ∀ k < P.numOpcodes, P'.program k = P.program k

lemma Program.Extends.refl (P : Program) : P.Extends P := ⟨le_rfl, fun _ _ => rfl⟩

variable {P P' : Program} {α β : Type}

/-- The code goes forward within the program.  If all reads are within it, they were before, and the same code does the
same in a longer program. -/
def Advances (P : Program) (m m' : Fetch α) (Q : α → Prop) : Prop :=
  ∀ c, c.instructionPtr ≤ P.numOpcodes →
    c.instructionPtr ≤ (m c).2.instructionPtr ∧ (m c).2.instructionPtr ≤ P.numOpcodes ∧
      ((m c).2.valid = true → c.valid = true ∧ m' c = m c) ∧ Q (m c).1

variable {Q : α → Prop}

lemma Advances.pure {a : α} (h : Q a) : Advances P (Pure.pure a : Fetch α) (Pure.pure a) Q :=
  fun _ hc => ⟨le_rfl, hc, fun hv => ⟨hv, rfl⟩, h⟩

variable {m m' : Fetch α} {R : β → Prop}

lemma Advances.bind {k k' : α → Fetch β} (hm : Advances P m m' Q) (hk : ∀ a, Q a → Advances P (k a) (k' a) R) :
    Advances P (m >>= k) (m' >>= k') R := by
  intro c hc
  obtain ⟨hle, hnum, hvalid, hq⟩ := hm c hc
  obtain ⟨hle', hnum', hvalid', hr⟩ := hk _ hq _ hnum
  refine ⟨hle.trans hle', hnum', fun h => ?_, hr⟩
  obtain ⟨hv, hsame'⟩ := hvalid' h
  obtain ⟨hv, hsame⟩ := hvalid hv
  refine ⟨hv, ?_⟩
  change k' (m' c).1 (m' c).2 = k (m c).1 (m c).2
  rw [hsame, hsame']

lemma Advances.map {f : α → β} (hm : Advances P m m' Q) (h : ∀ a, Q a → R (f a)) : Advances P (f <$> m) (f <$> m') R := by
  intro c hc
  obtain ⟨hle, hnum, hvalid, hq⟩ := hm c hc
  refine ⟨hle, hnum, fun hv => ⟨(hvalid hv).1, ?_⟩, h _ hq⟩
  change (f (m' c).1, (m' c).2) = (f (m c).1, (m c).2)
  rw [(hvalid hv).2]

lemma Advances.ite {b : Bool} {m1 m2 m1' m2' : Fetch α} (h1 : Advances P m1 m1' Q)
    (h2 : Advances P m2 m2' Q) : Advances P (if b then m1 else m2) (if b then m1' else m2') Q := by
  split
  · exact h1
  · exact h2

lemma nibble_lt (dword : BitVec 32) (shift : ℕ) : nibble dword shift < 16 := by
  rw [nibble, BitVec.toNat_and]
  exact Nat.lt_of_le_of_lt Nat.and_le_right (by decide)

/-- The indices of an instruction are those of registers. -/
def CheatVmOpcode.InRange : CheatVmOpcode → Prop
  | .storeStatic o => o.offsetRegister < 16
  | .controlLoop o => o.regIndex < 16
  | .loadRegisterStatic o => o.regIndex < 16
  | .loadRegisterMemory o => o.regIndex < 16
  | .storeStaticToAddress o => o.regIndex < 16 ∧ o.offsetRegIndex < 16
  | .performArithmeticStatic o => o.regIndex < 16
  | .performArithmeticRegister o =>
      o.dstRegIndex < 16 ∧ o.srcReg1Index < 16 ∧ o.srcReg2Index < 16
  | .storeRegisterToAddress o =>
      o.strRegIndex < 16 ∧ o.addrRegIndex < 16 ∧ o.ofsRegIndex < 16
  | .beginRegisterConditional o =>
      o.valRegIndex < 16 ∧ o.addrRegIndex < 16 ∧ o.otherRegIndex < 16 ∧ o.ofsRegIndex < 16
  | .saveRestoreRegister o => o.dstIndex < 16 ∧ o.srcIndex < 16
  | .readWriteStaticRegister o => o.staticIdx < 256 ∧ o.idx < 16
  | .debugLog o => o.addrRegIndex < 16 ∧ o.valRegIndex < 16 ∧ o.ofsRegIndex < 16
  | _ => True

section Extends

variable (hext : P.Extends P')

include hext

lemma advances_getNextDword : Advances P (getNextDword P) (getNextDword P') fun _ => True := by
  intro c hc
  rw [getNextDword, getNextDword]
  split
  · exact ⟨le_rfl, hc, fun h => (Bool.false_ne_true h).elim, trivial⟩
  · rename_i hlt
    have hlt' : ¬ P'.numOpcodes ≤ c.instructionPtr := by
      have := hext.1
      omega
    refine ⟨Nat.le_succ _, by dsimp only; omega, fun hv => ⟨hv, ?_⟩, trivial⟩
    rw [if_neg hlt', hext.2 _ (by omega)]

lemma advances_getNextVmInt (bitWidth : ℕ) :
    Advances P (getNextVmInt P bitWidth) (getNextVmInt P' bitWidth) fun _ => True := by
  refine (advances_getNextDword hext).bind fun dword _ => ?_
  split
  case h_4 => exact (advances_getNextDword hext).bind fun _ _ => .pure trivial
  all_goals exact .pure trivial

section

variable (firstDword : BitVec 32)
include firstDword

lemma advances_getRelAddress : Advances P (getRelAddress P firstDword) (getRelAddress P' firstDword) fun _ => True :=
  (advances_getNextDword hext).bind fun _ _ => .pure trivial

lemma advances_controlLoop :
    Advances P (decodeControlLoop P firstDword) (decodeControlLoop P' firstDword)
      CheatVmOpcode.InRange := by
  have hn := nibble_lt firstDword 20
  rw [decodeControlLoop, decodeControlLoop]
  exact .ite ((advances_getNextDword hext).bind fun _ _ => .pure hn) (.bind (.pure trivial) fun _ (_ : True) => .pure hn)

lemma advances_performArithmeticRegister : Advances P (decodePerformArithmeticRegister P firstDword)
      (decodePerformArithmeticRegister P' firstDword) CheatVmOpcode.InRange := by
  have hn := nibble_lt firstDword
  have hsrc : ∀ b : Bool, (if b then 0 else nibble firstDword 4) < 16 := by
    intro b
    split
    · decide
    · exact hn _
  rw [decodePerformArithmeticRegister, decodePerformArithmeticRegister]
  exact .ite ((advances_getNextVmInt hext _).bind fun _ _ => .pure ⟨hn _, hn _, hsrc _⟩)
    (.bind (.pure trivial) fun _ (_ : True) => .pure ⟨hn _, hn _, hsrc _⟩)

lemma advances_storeRegisterToAddress : Advances P (decodeStoreRegisterToAddress P firstDword)
      (decodeStoreRegisterToAddress P' firstDword) CheatVmOpcode.InRange := by
  have hn := nibble_lt firstDword
  simp only [decodeStoreRegisterToAddress]
  cases StoreRegisterOffsetType.ofNat (nibble firstDword 8) with
  | Imm | MemImm | MemImmReg =>
    exact (advances_getRelAddress hext _).bind fun _ _ => .pure ⟨hn _, hn _, hn _⟩
  | None | Reg | MemReg | unknown => exact .pure ⟨hn _, hn _, hn _⟩

lemma advances_beginRegisterConditional : Advances P (decodeBeginRegisterConditional P firstDword)
      (decodeBeginRegisterConditional P' firstDword) CheatVmOpcode.InRange := by
  have hn := nibble_lt firstDword
  have h0 : (0 : ℕ) < 16 := by decide
  simp only [decodeBeginRegisterConditional]
  cases CompareRegisterValueType.ofNat (nibble firstDword 8) with
  | StaticValue => exact (advances_getNextVmInt hext _).bind fun _ _ => .pure ⟨hn _, h0, h0, h0⟩
  | OtherRegister => exact .pure ⟨hn _, h0, hn _, h0⟩
  | MemoryRelAddr => exact (advances_getRelAddress hext _).bind fun _ _ => .pure ⟨hn _, h0, h0, h0⟩
  | MemoryOfsReg => exact .pure ⟨hn _, h0, h0, hn _⟩
  | RegisterRelAddr =>
    exact (advances_getRelAddress hext _).bind fun _ _ => .pure ⟨hn _, hn _, h0, h0⟩
  | RegisterOfsReg => exact .pure ⟨hn _, hn _, h0, hn _⟩
  | unknown => exact .pure ⟨hn _, h0, h0, h0⟩

lemma advances_debugLog : Advances P (decodeDebugLog P firstDword) (decodeDebugLog P' firstDword)
      CheatVmOpcode.InRange := by
  have hn := nibble_lt firstDword
  have h0 : (0 : ℕ) < 16 := by decide
  simp only [decodeDebugLog]
  cases DebugLogValueType.ofNat (nibble firstDword 8) with
  | RegisterValue => exact .pure ⟨h0, hn _, h0⟩
  | MemoryRelAddr => exact (advances_getRelAddress hext _).bind fun _ _ => .pure ⟨h0, h0, h0⟩
  | MemoryOfsReg => exact .pure ⟨h0, h0, hn _⟩
  | RegisterRelAddr => exact (advances_getRelAddress hext _).bind fun _ _ => .pure ⟨hn _, h0, h0⟩
  | RegisterOfsReg => exact .pure ⟨hn _, h0, hn _⟩
  | unknown => exact .pure ⟨h0, h0, h0⟩

lemma advances_decodeBody : Advances P (decodeBody P firstDword) (decodeBody P' firstDword)
      fun o => ∀ opcode ∈ o, opcode.InRange := by
  have hn := nibble_lt firstDword
  have hdword := advances_getNextDword hext
  have hvmInt := advances_getNextVmInt hext
  have hsome : ∀ opcode : CheatVmOpcode, opcode.InRange →
      ∀ o ∈ some opcode, o.InRange := fun opcode h o ho => Option.mem_some_iff.1 ho ▸ h
  have hmap : ∀ {m m' : Fetch CheatVmOpcode}, Advances P m m' CheatVmOpcode.InRange →
      Advances P (some <$> m) (some <$> m') fun o => ∀ opcode ∈ o, opcode.InRange :=
    fun hm => hm.map hsome
  simp only [decodeBody]
  cases opcodeType firstDword with
  | StoreStatic =>
    exact hmap <| hdword.bind fun _ _ => (hvmInt _).bind fun _ _ => .pure (hn _)
  | BeginConditionalBlock =>
    exact hmap <| hdword.bind fun _ _ => (hvmInt _).bind fun _ _ => .pure trivial
  | EndConditionalBlock | BeginKeypressConditionalBlock | PauseProcess | ResumeProcess
  | SaveRestoreRegisterMask => exact .pure (hsome _ trivial)
  | ControlLoop => exact hmap (advances_controlLoop hext _)
  | LoadRegisterStatic =>
    exact hmap <| hdword.bind fun _ _ => hdword.bind fun _ _ => .pure (hn _)
  | LoadRegisterMemory | PerformArithmeticStatic =>
    exact hmap <| hdword.bind fun _ _ => .pure (hn _)
  | StoreStaticToAddress =>
    exact hmap <| hdword.bind fun _ _ => hdword.bind fun _ _ => .pure ⟨hn _, hn _⟩
  | PerformArithmeticRegister => exact hmap (advances_performArithmeticRegister hext _)
  | StoreRegisterToAddress => exact hmap (advances_storeRegisterToAddress hext _)
  | BeginRegisterConditionalBlock => exact hmap (advances_beginRegisterConditional hext _)
  | SaveRestoreRegister => exact .pure (hsome _ ⟨hn _, hn _⟩)
  | ReadWriteStaticRegister =>
    refine .pure (hsome _ ⟨?_, hn _⟩)
    rw [BitVec.toNat_and]
    exact Nat.lt_of_le_of_lt Nat.and_le_right (by decide)
  | DebugLog => exact hmap (advances_debugLog hext _)
  | unknown => exact .pure fun o ho => by cases ho

end

end Extends

/-- **What decoding does to the position**, and what it gives. -/
theorem decodeNextOpcode_spec {c c' : Control} {o : Option CheatVmOpcode}
    (hc : c.instructionPtr ≤ P.numOpcodes) (h : decodeNextOpcode P c = (o, c')) :
    c.instructionPtr ≤ c'.instructionPtr ∧ c'.instructionPtr ≤ P.numOpcodes ∧ c'.conditionDepth = c.conditionDepth ∧
      ∀ opcode ∈ o, c.instructionPtr < c'.instructionPtr ∧ opcode.InRange := by
  obtain ⟨hle, hnum, -, -⟩ :=
    advances_getNextDword (.refl P) ⟨c.instructionPtr, c.decodeSuccess⟩ hc
  rw [decodeNextOpcode] at h
  rcases hfirst : getNextDword P ⟨c.instructionPtr, c.decodeSuccess⟩ with ⟨firstDword, k⟩
  simp only [hfirst] at h hle hnum
  split at h
  · rename_i hv
    have hread : k.instructionPtr = c.instructionPtr + 1 := by
      rw [getNextDword] at hfirst
      split at hfirst
      · cases hfirst
        cases hv
      · cases hfirst
        rfl
    obtain ⟨hle', hnum', -, hrange⟩ := advances_decodeBody (.refl P) firstDword k hnum
    rcases hbody : decodeBody P firstDword k with ⟨opcode, k'⟩
    simp only [hbody, Prod.mk.injEq] at h hle' hnum' hrange
    obtain ⟨rfl, rfl⟩ := h
    refine ⟨hle.trans hle', hnum', rfl, fun o ho => ⟨by dsimp only; omega, hrange o ?_⟩⟩
    split at ho
    · exact ho
    · cases ho
  · cases h
    exact ⟨hle, hnum, rfl, fun _ h => by cases h⟩

end Decode

/-! ## Instructions that are not for control -/

section Instructions

variable {α β : Type}

def Succeeds (m : Exec α) : Prop := ∃ a, m = .ok a

lemma Succeeds.pure (a : α) : Succeeds (Pure.pure a : Exec α) := ⟨a, rfl⟩

lemma Succeeds.bind {m : Exec α} {k : α → Exec β} (hm : Succeeds m) (hk : ∀ a, Succeeds (k a)) : Succeeds (m >>= k) := by
  obtain ⟨a, rfl⟩ := hm
  exact hk a

lemma Succeeds.ite {p : Prop} [Decidable p] {m m' : Exec α} (hm : Succeeds m)
    (hm' : Succeeds m') : Succeeds (if p then m else m') := by
  split
  · exact hm
  · exact hm'

lemma succeeds_readBank {n i : ℕ} (bank : Fin n → α) (h : i < n) : Succeeds (readBank bank i) :=
  ⟨_, readBank_of_lt bank h⟩

lemma succeeds_writeBank {n i : ℕ} (bank : Fin n → α) (h : i < n) (x : α) : Succeeds (writeBank bank i x) :=
  ⟨_, writeBank_of_lt bank h x⟩

variable {σ : Type} (host : Host σ) (metadata : CheatProcessMetadata) {d : Data σ} {i : ℕ}

lemma succeeds_register (h : i < 16) : Succeeds (d.register i) := succeeds_readBank _ h

lemma succeeds_setRegister (h : i < 16) (x : BitVec 64) : Succeeds (d.setRegister i x) :=
  (succeeds_writeBank _ h x).bind fun _ => .pure _

lemma succeeds_savedValue (h : i < 16) : Succeeds (d.savedValue i) := succeeds_readBank _ h

lemma succeeds_setSavedValue (h : i < 16) (x : BitVec 64) : Succeeds (d.setSavedValue i x) :=
  (succeeds_writeBank _ h x).bind fun _ => .pure _

lemma succeeds_incrementRegister (increment : Bool) (h : i < 16) (bitWidth : ℕ) :
    Succeeds (incrementRegister increment i bitWidth d) :=
  .ite ((succeeds_register h).bind fun _ => succeeds_setRegister h _) (.pure _)

lemma succeeds_operandAddress {addr ofs : ℕ} (haddr : addr < 16) (hofs : ofs < 16)
    (compType : CompareRegisterValueType) (memType : MemoryAccessType) (relAddress : BitVec 64) :
    Succeeds (operandAddress metadata compType memType relAddress addr ofs d) := by
  cases compType with
  | MemoryOfsReg => exact (succeeds_register hofs).bind fun _ => .pure _
  | RegisterRelAddr => exact (succeeds_register haddr).bind fun _ => .pure _
  | RegisterOfsReg =>
    exact (succeeds_register haddr).bind fun _ => (succeeds_register hofs).bind fun _ => .pure _
  | MemoryRelAddr | StaticValue | OtherRegister | unknown => exact .pure _

variable {opcode : CheatVmOpcode}

/-- **An instruction that is not for control does not fail.** -/
theorem succeeds_executeData (h : opcode.InRange) (d : Data σ) : Succeeds (executeData host metadata opcode d) := by
  cases opcode with
  | storeStatic o => exact (succeeds_register h).bind fun _ => .pure _
  | loadRegisterStatic o => exact succeeds_setRegister h _
  | loadRegisterMemory o => exact (succeeds_register h).bind fun _ => succeeds_setRegister h _
  | storeStaticToAddress o =>
    exact (succeeds_register h.1).bind fun _ =>
      .ite ((succeeds_register h.2).bind fun _ => succeeds_incrementRegister _ h.1 _) (succeeds_incrementRegister _ h.1 _)
  | performArithmeticStatic o =>
    exact (succeeds_register h).bind fun _ => succeeds_setRegister h _
  | performArithmeticRegister o =>
    exact (succeeds_register h.2.1).bind fun _ =>
      .ite (succeeds_setRegister h.1 _) ((succeeds_register h.2.2).bind fun _ => succeeds_setRegister h.1 _)
  | storeRegisterToAddress o =>
    exact (succeeds_register h.1).bind fun _ => (succeeds_register h.2.1).bind fun _ =>
      .ite ((succeeds_register h.2.2).bind fun _ => succeeds_incrementRegister _ h.2.1 _)
        (succeeds_incrementRegister _ h.2.1 _)
  | saveRestoreRegister o =>
    rw [executeData, saveRestoreRegister]
    split
    · exact succeeds_setRegister h.1 _
    · exact succeeds_setSavedValue h.1 _
    · exact (succeeds_register h.2).bind fun _ => succeeds_setSavedValue h.1 _
    · exact (succeeds_savedValue h.2).bind fun _ => succeeds_setRegister h.1 _
  | readWriteStaticRegister o =>
    exact .ite ((succeeds_readBank _ h.1).bind fun _ => succeeds_setRegister h.2 _)
      ((succeeds_register h.2).bind fun _ =>
        (succeeds_writeBank _ h.1 _).bind fun _ => .pure _)
  | debugLog o =>
    exact .ite ((succeeds_register h.2.1).bind fun _ => .pure _)
      ((succeeds_operandAddress metadata h.1 h.2.2 _ _ _).bind fun _ => .pure _)
  | saveRestoreRegisterMask | pauseProcess | resumeProcess | beginConditional | endConditional
  | controlLoop | beginKeypressConditional | beginRegisterConditional => exact .pure _

lemma succeeds_conditionMet (kDown : BitVec 64) (h : opcode.InRange)
    (d : Data σ) : Succeeds (conditionMet host metadata kDown opcode d) := by
  cases opcode with
  | beginRegisterConditional o =>
    obtain ⟨hval, haddr, hother, hofs⟩ := h
    refine (succeeds_register hval).bind fun _ => ?_
    split
    · exact .pure _
    · exact (succeeds_register hother).bind fun _ => .pure _
    · exact (succeeds_operandAddress metadata haddr hofs _ _ _).bind fun _ => .pure _
  | _ => exact .pure _

end Instructions

/-! ## Control -/

section Control

variable {P : Program} {isIf : Bool} {desiredDepth rounds : ℕ} {c : Control}

/-- **Skipping stays within the program and never leaves depth zero.** -/
theorem skipLoop_spec (hc : c.instructionPtr ≤ P.numOpcodes) :
    ∃ c', skipLoop P isIf desiredDepth rounds c = .ok c' ∧ c'.instructionPtr ≤ P.numOpcodes := by
  induction rounds generalizing c with
  | zero => exact ⟨c, rfl, hc⟩
  | succ rounds ih =>
    rw [skipLoop]
    split
    · rename_i hdepth
      rcases hdecode : decodeNextOpcode P c with ⟨o, c'⟩
      obtain ⟨-, hnum, hsame, -⟩ := decodeNextOpcode_spec hc hdecode
      cases o with
      | none => exact ⟨c', rfl, hnum⟩
      | some opcode =>
        dsimp only
        split
        · exact ih hnum
        · split
          · -- an end: the depth is above the desired one
            have hleave : c'.leave = .ok { c' with conditionDepth := c'.conditionDepth - 1 } :=
              if_neg (by omega)
            rw [hleave]
            exact ih hnum
          · split
            · exact ⟨c', rfl, hnum⟩
            · exact ih hnum
          · exact ih hnum
    · exact ⟨c, rfl, hc⟩

lemma skipConditionalBlock_spec (isIf : Bool) (hc : c.instructionPtr ≤ P.numOpcodes) (h : 0 < c.conditionDepth) :
    ∃ c', skipConditionalBlock P isIf c = .ok c' ∧ c'.instructionPtr ≤ P.numOpcodes := by
  rw [skipConditionalBlock, if_pos h]
  exact skipLoop_spec hc

lemma skipConditionalBlock_eq_error (h : c.conditionDepth = 0) : skipConditionalBlock P isIf c = .error .unreachable := by
  rw [skipConditionalBlock, if_neg (by omega)]

variable {σ : Type} (host : Host σ) (metadata : CheatProcessMetadata) (kDown : BitVec 64)
  {vm : Vm σ}

/-- The positions of the machine are within the program. -/
structure Bounded (P : Program) (vm : Vm σ) : Prop where
  position : vm.control.instructionPtr ≤ P.numOpcodes
  tops : ∀ i, vm.loopTops i ≤ P.numOpcodes

/-- The next instruction is an `else` outside of every conditional block. -/
def StrayElse (P : Program) (vm : Vm σ) : Prop :=
  (decodeNextOpcode P vm.control).1 = some (.endConditional true) ∧ vm.control.conditionDepth = 0

variable {opcode : CheatVmOpcode}

section

variable (hvm : Bounded P vm)
include hvm

lemma executeBegin_spec (h : opcode.InRange) :
    ∃ vm', executeBegin host metadata P kDown opcode vm = .ok vm' ∧ Bounded P vm' := by
  obtain ⟨⟨met, data⟩, hmet⟩ := succeeds_conditionMet host metadata kDown h vm.data
  rw [executeBegin, hmet]
  cases met with
  | true => exact ⟨_, rfl, hvm.position, hvm.tops⟩
  | false =>
    have hposition : vm.control.enter.instructionPtr ≤ P.numOpcodes := hvm.position
    obtain ⟨c', hskip, hnum⟩ := skipConditionalBlock_spec true hposition (Nat.succ_pos _)
    refine ⟨⟨c', vm.loopTops, data⟩, ?_, hnum, hvm.tops⟩
    change (skipConditionalBlock P true _ >>= fun control => _) = _
    rw [hskip]
    rfl

lemma executeLoop_spec {o : ControlLoopOpcode} (h : o.regIndex < 16) :
    ∃ vm', executeLoop o vm = .ok vm' ∧ Bounded P vm' := by
  have hset : ∀ x, vm.data.setRegister o.regIndex x =
      .ok { vm.data with registers := Function.update vm.data.registers ⟨o.regIndex, h⟩ x } := by
    intro x
    rw [Data.setRegister, writeBank_of_lt _ h]
    rfl
  rw [executeLoop]
  split
  · rw [hset, writeBank_of_lt _ h]
    refine ⟨_, rfl, hvm.position, fun i => ?_⟩
    dsimp only
    rw [Function.update_apply]
    split
    · exact hvm.position
    · exact hvm.tops i
  · rw [Data.register, readBank_of_lt _ h]
    change ∃ vm', (vm.data.setRegister _ _ >>= fun data => _) = _ ∧ _
    rw [hset]
    change ∃ vm', ite _ _ _ = _ ∧ _
    split
    · rw [readBank_of_lt _ h]
      exact ⟨_, rfl, hvm.tops _, hvm.tops⟩
    · exact ⟨_, rfl, hvm.position, hvm.tops⟩

lemma executeEnd_spec (isElse : Bool) (h : isElse = true → 0 < vm.control.conditionDepth) :
    ∃ vm', executeEnd P isElse vm = .ok vm' ∧ Bounded P vm' := by
  rw [executeEnd]
  split
  · rename_i helse
    obtain ⟨c', hskip, hnum⟩ := skipConditionalBlock_spec false hvm.position (h helse)
    rw [hskip]
    exact ⟨_, rfl, hnum, hvm.tops⟩
  · split
    · rename_i hdepth
      rw [Control.leave, if_neg (by omega)]
      exact ⟨_, rfl, hvm.position, hvm.tops⟩
    · exact ⟨_, rfl, hvm.position, hvm.tops⟩

lemma executeData_spec (h : opcode.InRange) : ∃ vm', (do
        let data ← executeData host metadata opcode vm.data
        pure { vm with data := data } : Exec (Vm σ)) = .ok vm' ∧ Bounded P vm' := by
  obtain ⟨data, hdata⟩ := succeeds_executeData host metadata h vm.data
  rw [hdata]
  exact ⟨_, rfl, hvm.position, hvm.tops⟩

/-- An instruction keeps the positions within the program, unless it is an `else` outside. -/
lemma executeOpcode_spec (h : opcode.InRange) (helse : opcode = .endConditional true → 0 < vm.control.conditionDepth) :
    ∃ vm', executeOpcode host metadata P kDown opcode vm = .ok vm' ∧ Bounded P vm' := by
  cases opcode with
  | beginConditional | beginKeypressConditional | beginRegisterConditional =>
    exact executeBegin_spec host metadata kDown hvm h
  | endConditional isElse => exact executeEnd_spec hvm isElse fun hi => helse (by rw [hi])
  | controlLoop o => exact executeLoop_spec hvm h
  | _ => exact executeData_spec host metadata hvm h

/-- **What a round may do**: the machine stays within the program, or the fatal branch is reached, which it is by an
`else` outside of every conditional block. -/
theorem round_spec : (StrayElse P vm ∧ round host metadata P kDown vm = .error .unreachable) ∨
      (¬ StrayElse P vm ∧ ∃ vm' more, round host metadata P kDown vm = .ok (vm', more) ∧ Bounded P vm') := by
  rw [round, StrayElse]
  rcases hdecode : decodeNextOpcode P vm.control with ⟨o, c'⟩
  obtain ⟨-, hnum, hdepth, hopcode⟩ := decodeNextOpcode_spec hvm.position hdecode
  cases o with
  | none => exact .inr ⟨fun h => (by cases h.1), _, _, rfl, hnum, hvm.tops⟩
  | some opcode =>
    obtain ⟨-, hrange⟩ := hopcode opcode rfl
    have hvm' : Bounded P { vm with control := c' } := ⟨hnum, hvm.tops⟩
    by_cases helse : opcode = .endConditional true ∧ vm.control.conditionDepth = 0
    · obtain ⟨rfl, hzero⟩ := helse
      refine .inl ⟨⟨rfl, hzero⟩, ?_⟩
      change (executeEnd P true { vm with control := c' } >>= fun vm => _) = _
      rw [executeEnd, if_pos rfl, skipConditionalBlock_eq_error (hdepth.trans hzero)]
      rfl
    · obtain ⟨vm', heq, hb⟩ := executeOpcode_spec host metadata kDown hvm' hrange fun h => by
          have hne : vm.control.conditionDepth ≠ 0 := fun hzero => helse ⟨h, hzero⟩
          dsimp only
          omega
      refine .inr ⟨fun h => helse ⟨Option.some.inj h.1, h.2⟩, vm', true, ?_, hb⟩
      dsimp only
      rw [heq]
      rfl

end

lemma bounded_resetState (d : Data σ) : Bounded P (resetState d) :=
  ⟨Nat.zero_le _, fun _ => Nat.zero_le _⟩

lemma run_spec (rounds : ℕ) (hvm : Bounded P vm)
    (h : ∀ n < rounds, ∀ vm', run host metadata P kDown n vm = .ok (vm', true) → ¬ StrayElse P vm') :
    ∃ vm' more, run host metadata P kDown rounds vm = .ok (vm', more) ∧ Bounded P vm' := by
  induction rounds generalizing vm with
  | zero => exact ⟨vm, true, rfl, hvm⟩
  | succ rounds ih =>
    have hfirst := h 0 (Nat.succ_pos _) vm rfl
    rcases round_spec host metadata kDown hvm with
      ⟨hstray, -⟩ | ⟨-, vm1, more, hround, hb⟩
    · exact (hfirst hstray).elim
    · cases more with
      | false => exact ⟨vm1, false, by rw [run, hround]; rfl, hb⟩
      | true =>
        have hstep : ∀ n, run host metadata P kDown (n + 1) vm =
            run host metadata P kDown n vm1 := by
          intro n
          rw [run, hround]
          rfl
        rw [hstep]
        refine ih hb fun n hn vm' hrun => h (n + 1) (by omega) vm' ?_
        rw [hstep]
        exact hrun

lemma run_succ_of_ok {rounds : ℕ} {vm' : Vm σ} (h : run host metadata P kDown rounds vm = .ok (vm', true)) :
    run host metadata P kDown (rounds + 1) vm = run host metadata P kDown 1 vm' := by
  induction rounds generalizing vm with
  | zero =>
    cases h
    rfl
  | succ rounds ih =>
    rw [run] at h ⊢
    cases hround : round host metadata P kDown vm with
    | error f =>
      rw [hround] at h
      cases h
    | ok q =>
      obtain ⟨vm1, more⟩ := q
      rw [hround] at h
      cases more with
      | false => cases h
      | true => exact ih h

lemma run_bounded {rounds : ℕ} {vm' : Vm σ} {more : Bool} (hvm : Bounded P vm)
    (h : run host metadata P kDown rounds vm = .ok (vm', more)) : Bounded P vm' := by
  induction rounds generalizing vm with
  | zero =>
    cases h
    exact hvm
  | succ rounds ih =>
    rw [run] at h
    rcases round_spec host metadata kDown hvm with ⟨-, hround⟩ | ⟨-, vm1, more1, hround, hb⟩
    · rw [hround] at h
      cases h
    · rw [hround] at h
      cases more1 with
      | false =>
        cases h
        exact hb
      | true => exact ih hb h

lemma run_fault {rounds : ℕ} {fault : Fault} (hvm : Bounded P vm)
    (h : run host metadata P kDown rounds vm = .error fault) : fault = .unreachable := by
  induction rounds generalizing vm with
  | zero => cases h
  | succ rounds ih =>
    rw [run] at h
    rcases round_spec host metadata kDown hvm with ⟨-, hround⟩ | ⟨-, vm1, more, hround, hb⟩
    · rw [hround] at h
      cases h
      rfl
    · rw [hround] at h
      cases more with
      | false => cases h
      | true => exact ih hb h

end Control

/-! ## Programs -/

lemma numOpcodes_foldl_push (dwords : List (BitVec 32)) (P : Program) :
    (dwords.foldl Program.push P).numOpcodes = P.numOpcodes + dwords.length := by
  induction dwords generalizing P with
  | nil => rfl
  | cons dword dwords ih =>
    rw [List.foldl_cons, ih, List.length_cons]
    change P.numOpcodes + 1 + _ = _
    omega

lemma numOpcodes_loadEntries {P : Program} (entries : List CheatEntry) (hP : P.numOpcodes ≤ maximumProgramOpcodeCount) :
    (loadEntries entries P).2.numOpcodes ≤ maximumProgramOpcodeCount := by
  induction entries generalizing P with
  | nil => exact hP
  | cons entry entries ih =>
    rw [loadEntries]
    split
    · split
      · exact Nat.zero_le _
      · refine ih ?_
        rw [numOpcodes_foldl_push]
        omega
    · exact ih hP

section Execute

variable {σ : Type} (host : Host σ) (metadata : CheatProcessMetadata)

/-- No round faults, and the machine stays within the program, which fits its array. -/
def Safe (P : Program) (d : Data σ) : Prop :=
  ∀ rounds, ∃ vm more, execute host metadata P d rounds = .ok (vm, more) ∧
    vm.control.instructionPtr ≤ P.numOpcodes ∧ P.numOpcodes ≤ maximumProgramOpcodeCount

/-- **A cheat program is safe exactly when no `else` is executed outside of every conditional block.**  The only other
thing that can happen is that the fatal branch is reached: no index is out of range and no depth falls below zero. -/
theorem execute_safe_iff (program : ℕ → BitVec 32) (entries : List CheatEntry) (d : Data σ) :
    (Safe host metadata (loadProgram program entries).2 d ↔
      ∀ rounds vm, execute host metadata (loadProgram program entries).2 d rounds =
        .ok (vm, true) → ¬ StrayElse (loadProgram program entries).2 vm) ∧
      ∀ rounds fault, execute host metadata (loadProgram program entries).2 d rounds =
        .error fault → fault = .unreachable := by
  have hsize : (loadProgram program entries).2.numOpcodes ≤ maximumProgramOpcodeCount :=
    numOpcodes_loadEntries entries (Nat.zero_le _)
  generalize (loadProgram program entries).2 = P at hsize
  refine ⟨⟨fun hsafe rounds vm hrun hstray => ?_, fun h rounds => ?_⟩, fun rounds fault h =>
    run_fault host metadata _ (bounded_resetState _) h⟩
  · obtain ⟨vm', more, hok, -, -⟩ := hsafe (rounds + 1)
    have hb := run_bounded host metadata _ (bounded_resetState _) hrun
    change run host metadata P (host.hidKeysDown d.world).1 (rounds + 1) _ = _ at hok
    rw [run_succ_of_ok host metadata _ hrun, run] at hok
    rcases round_spec host metadata (host.hidKeysDown d.world).1 hb with ⟨-, hround⟩ | ⟨hnot, -⟩
    · rw [hround] at hok
      cases hok
    · exact hnot hstray
  · obtain ⟨vm, more, hrun, hb⟩ := run_spec host metadata (host.hidKeysDown d.world).1 rounds
      (bounded_resetState { d with world := (host.hidKeysDown d.world).2 })
      fun n _ vm' hvm' => h n vm' hvm'
    exact ⟨vm, more, hrun, hb.position, hsize⟩

end Execute

/-- A process whose memory reads as zero, on a host whose shifts beyond the width give zero. -/
def demoHost : Host Unit where
  memoryReadUnsafe := fun w _ _ => (0, w)
  memoryWriteUnsafe := fun w _ _ _ => w
  hidKeysDown := fun w => (0, w)
  pauseProcess := fun w => w
  resumeProcess := fun w => w
  debugLog := fun w _ _ => w
  overshift := fun _ _ _ => 0

def demoMetadata : CheatProcessMetadata := ⟨0x8000000, 0x100000000, 0, 0⟩

def demoData : Data Unit := ⟨fun _ => 0, fun _ => 0, fun _ => 0, ()⟩

theorem else_is_fatal : ¬ Safe demoHost demoMetadata (loadProgram (fun _ => 0) [⟨true, [0x21000000]⟩]).2 demoData := by
  intro h
  obtain ⟨vm, more, hrun, -⟩ := h 1
  have hfault : execute demoHost demoMetadata
      (loadProgram (fun _ => 0) [⟨true, [0x21000000]⟩]).2 demoData 1 = .error .unreachable := rfl
  rw [hfault] at hrun
  cases hrun

end Voltemu.Core.DmntCheatVm
