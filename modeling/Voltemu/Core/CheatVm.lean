import Voltemu.Core.CheatOpcodes

/-!
# The cheat virtual machine

`core/memory/dmnt_cheat_vm.cpp`: `DmntCheatVm::LoadProgram`, `Execute` and `SkipConditionalBlock`.

* The callbacks are a parameter, over any state of the process that is cheated on.  What is only logged is left out.
* An index outside of its array, a depth below zero and the fatal branch of `SkipConditionalBlock` are faults.
* A shift by 64 or more is left open by the language; what the host gives is a parameter.
* `Execute` decodes an instruction and performs it, again and again.  `run` is so many rounds of it.
-/

namespace Voltemu.Core.DmntCheatVm

/-- What must not happen. -/
inductive Fault
  | unreachable
  | outOfRange
  | underflow
deriving DecidableEq

/-- Code that may fail. -/
abbrev Exec := Except Fault

section Banks

variable {α : Type} {n : ℕ}

def readBank (bank : Fin n → α) (i : ℕ) : Exec α :=
  if h : i < n then .ok (bank ⟨i, h⟩) else .error .outOfRange

def writeBank (bank : Fin n → α) (i : ℕ) (x : α) : Exec (Fin n → α) :=
  if h : i < n then .ok (Function.update bank ⟨i, h⟩ x) else .error .outOfRange

lemma readBank_of_lt (bank : Fin n → α) {i : ℕ} (h : i < n) : readBank bank i = .ok (bank ⟨i, h⟩) := dif_pos h

lemma writeBank_of_lt (bank : Fin n → α) {i : ℕ} (h : i < n) (x : α) :
    writeBank bank i x = .ok (Function.update bank ⟨i, h⟩ x) := dif_pos h

end Banks

structure CheatProcessMetadata where
  mainNsoBase : BitVec 64
  heapBase : BitVec 64
  aliasBase : BitVec 64
  aslrBase : BitVec 64

/-- `Callbacks`, and what the shifts of the host give beyond the width (to the left or not). -/
structure Host (σ : Type) where
  memoryReadUnsafe : σ → BitVec 64 → ℕ → BitVec 64 × σ
  memoryWriteUnsafe : σ → BitVec 64 → BitVec 64 → ℕ → σ
  hidKeysDown : σ → BitVec 64 × σ
  pauseProcess : σ → σ
  resumeProcess : σ → σ
  debugLog : σ → BitVec 8 → BitVec 64 → σ
  overshift : Bool → BitVec 64 → BitVec 64 → BitVec 64

structure Data (σ : Type) where
  registers : Fin 16 → BitVec 64
  savedValues : Fin 16 → BitVec 64
  staticRegisters : Fin 256 → BitVec 64
  world : σ

/-! ## Values -/

/-- The bytes of a width that is 1, 2, 4 or 8. -/
def sized (value : BitVec 64) : ℕ → BitVec 64
  | 1 => value &&& 0xFF
  | 2 => value &&& 0xFFFF
  | 4 => value &&& 0xFFFFFFFF
  | 8 => value
  | _ => 0

def getVmInt (value : BitVec 64) (bitWidth : ℕ) : BitVec 64 := sized value bitWidth

/-- A result with its bit width applied.  Of another width it is left as it is. -/
def applyBitWidth (value : BitVec 64) : ℕ → BitVec 64
  | 1 => value &&& 0xFF
  | 2 => value &&& 0xFFFF
  | 4 => value &&& 0xFFFFFFFF
  | _ => value

def isAccessWidth (bitWidth : ℕ) : Bool :=
  bitWidth == 1 || bitWidth == 2 || bitWidth == 4 || bitWidth == 8

/-- A variable after some of its bytes, the low ones, have been read from memory. -/
def overlay (old bytes : BitVec 64) (size : ℕ) : BitVec 64 :=
  let mask := BitVec.ofNat 64 (2 ^ (8 * size) - 1)
  (old &&& ~~~mask) ||| (bytes &&& mask)

def getCheatProcessAddress (metadata : CheatProcessMetadata) (memType : MemoryAccessType)
    (relAddress : BitVec 64) : BitVec 64 :=
  match memType with
  | .Heap => metadata.heapBase + relAddress
  | .Alias => metadata.aliasBase + relAddress
  | .Aslr => metadata.aslrBase + relAddress
  | _ => metadata.mainNsoBase + relAddress

def ConditionalComparisonType.eval (src cond : BitVec 64) : ConditionalComparisonType → Bool
  | .GT => decide (src > cond)
  | .GE => decide (src ≥ cond)
  | .LT => decide (src < cond)
  | .LE => decide (src ≤ cond)
  | .EQ => src == cond
  | .NE => src != cond
  | .unknown _ => false

section Machine

variable {σ : Type} (host : Host σ) (metadata : CheatProcessMetadata)

def Host.shiftLeft (a b : BitVec 64) : BitVec 64 :=
  if b.toNat < 64 then a <<< b.toNat else host.overshift true a b

def Host.shiftRight (a b : BitVec 64) : BitVec 64 :=
  if b.toNat < 64 then a >>> b.toNat else host.overshift false a b

/-- A variable is read from memory, if the width is one of an access. -/
def Data.readMemory (d : Data σ) (address old : BitVec 64) (bitWidth : ℕ) : BitVec 64 × Data σ :=
  if isAccessWidth bitWidth then
    let (bytes, world) := host.memoryReadUnsafe d.world address bitWidth
    (overlay old bytes bitWidth, { d with world := world })
  else (old, d)

/-- A value is written to memory, if the width is one of an access. -/
def Data.writeMemory (d : Data σ) (address value : BitVec 64) (bitWidth : ℕ) : Data σ :=
  if isAccessWidth bitWidth then
    { d with world := host.memoryWriteUnsafe d.world address value bitWidth }
  else d

def Data.register (d : Data σ) (i : ℕ) : Exec (BitVec 64) := readBank d.registers i

def Data.setRegister (d : Data σ) (i : ℕ) (x : BitVec 64) : Exec (Data σ) := do
  let registers ← writeBank d.registers i x
  pure { d with registers := registers }

def Data.savedValue (d : Data σ) (i : ℕ) : Exec (BitVec 64) := readBank d.savedValues i

def Data.setSavedValue (d : Data σ) (i : ℕ) (x : BitVec 64) : Exec (Data σ) := do
  let savedValues ← writeBank d.savedValues i x
  pure { d with savedValues := savedValues }

/-! ## Instructions that are not for control -/

def storeStatic (o : StoreStaticOpcode) (d : Data σ) : Exec (Data σ) := do
  let offset ← d.register o.offsetRegister
  let address := getCheatProcessAddress metadata o.memType (o.relAddress + offset)
  pure (d.writeMemory host address (getVmInt o.value o.bitWidth) o.bitWidth)

def loadRegisterMemory (o : LoadRegisterMemoryOpcode) (d : Data σ) : Exec (Data σ) := do
  let register ← d.register o.regIndex
  let address := if o.loadFromReg then register + o.relAddress
    else getCheatProcessAddress metadata o.memType o.relAddress
  let (value, d) := d.readMemory host address register o.bitWidth
  d.setRegister o.regIndex value

/-- A register is advanced by the width of an access. -/
def incrementRegister (increment : Bool) (i bitWidth : ℕ) (d : Data σ) : Exec (Data σ) := do
  if increment then
    let register ← d.register i
    d.setRegister i (register + BitVec.ofNat 64 bitWidth)
  else pure d

def storeStaticToAddress (o : StoreStaticToAddressOpcode) (d : Data σ) : Exec (Data σ) := do
  let base ← d.register o.regIndex
  let offset ← if o.addOffsetReg then d.register o.offsetRegIndex else pure 0
  let d := d.writeMemory host (base + offset) o.value o.bitWidth
  incrementRegister o.incrementReg o.regIndex o.bitWidth d

def performArithmeticStatic (o : PerformArithmeticStaticOpcode) (d : Data σ) : Exec (Data σ) := do
  let register ← d.register o.regIndex
  let value := o.value.setWidth 64
  let result := match o.mathType with
    | .Addition => register + value
    | .Subtraction => register - value
    | .Multiplication => register * value
    | .LeftShift => host.shiftLeft register value
    | .RightShift => host.shiftRight register value
    | _ => register
  d.setRegister o.regIndex (applyBitWidth result o.bitWidth)

def performArithmeticRegister (o : PerformArithmeticRegisterOpcode) (d : Data σ) :
    Exec (Data σ) := do
  let operand1 ← d.register o.srcReg1Index
  let operand2 ← if o.hasImmediate then pure (getVmInt o.value o.bitWidth)
    else d.register o.srcReg2Index
  let result := match o.mathType with
    | .Addition => operand1 + operand2
    | .Subtraction => operand1 - operand2
    | .Multiplication => operand1 * operand2
    | .LeftShift => host.shiftLeft operand1 operand2
    | .RightShift => host.shiftRight operand1 operand2
    | .LogicalAnd => operand1 &&& operand2
    | .LogicalOr => operand1 ||| operand2
    | .LogicalNot => ~~~operand1
    | .LogicalXor => operand1 ^^^ operand2
    | .None => operand1
    | .unknown _ => 0
  d.setRegister o.dstRegIndex (applyBitWidth result o.bitWidth)

def storeRegisterToAddress (o : StoreRegisterToAddressOpcode) (d : Data σ) : Exec (Data σ) := do
  let value ← d.register o.strRegIndex
  let base ← d.register o.addrRegIndex
  let offset ← if o.ofsType = .Reg then d.register o.ofsRegIndex else pure 0
  let address := match o.ofsType with
    | .Reg => base + offset
    | .Imm => base + o.relAddress
    | .MemReg => getCheatProcessAddress metadata o.memType base
    | .MemImm => getCheatProcessAddress metadata o.memType o.relAddress
    | .MemImmReg => getCheatProcessAddress metadata o.memType (base + o.relAddress)
    | _ => base
  let d := d.writeMemory host address value o.bitWidth
  incrementRegister o.incrementReg o.addrRegIndex o.bitWidth d

def saveRestoreRegister (o : SaveRestoreRegisterOpcode) (d : Data σ) : Exec (Data σ) :=
  match o.opType with
  | .ClearRegs => d.setRegister o.dstIndex 0
  | .ClearSaved => d.setSavedValue o.dstIndex 0
  | .Save => do
      let register ← d.register o.srcIndex
      d.setSavedValue o.dstIndex register
  | _ => do
      let saved ← d.savedValue o.srcIndex
      d.setRegister o.dstIndex saved

/-- The elements that a mask names are replaced. -/
def masked (shouldOperate : Fin 16 → Bool) (dst src : Fin 16 → BitVec 64) : Fin 16 → BitVec 64 :=
  fun i => if shouldOperate i then src i else dst i

def saveRestoreRegisterMask (o : SaveRestoreRegisterMaskOpcode) (d : Data σ) : Data σ :=
  match o.opType with
  | .ClearSaved => { d with savedValues := masked o.shouldOperate d.savedValues fun _ => 0 }
  | .Save => { d with savedValues := masked o.shouldOperate d.savedValues d.registers }
  | .ClearRegs => { d with registers := masked o.shouldOperate d.registers fun _ => 0 }
  | _ => { d with registers := masked o.shouldOperate d.registers d.savedValues }

def numReadableStaticRegisters : ℕ := 0x80

def readWriteStaticRegister (o : ReadWriteStaticRegisterOpcode) (d : Data σ) : Exec (Data σ) := do
  if o.staticIdx < numReadableStaticRegisters then
    let value ← readBank d.staticRegisters o.staticIdx
    d.setRegister o.idx value
  else
    let register ← d.register o.idx
    let staticRegisters ← writeBank d.staticRegisters o.staticIdx register
    pure { d with staticRegisters := staticRegisters }

/-- The address that an operand is read from, in a conditional or a log entry. -/
def operandAddress (metadata : CheatProcessMetadata) (compType : CompareRegisterValueType)
    (memType : MemoryAccessType) (relAddress : BitVec 64) (addrRegIndex ofsRegIndex : ℕ)
    (d : Data σ) : Exec (BitVec 64) :=
  match compType with
  | .MemoryRelAddr => pure (getCheatProcessAddress metadata memType relAddress)
  | .MemoryOfsReg => do
      let offset ← d.register ofsRegIndex
      pure (getCheatProcessAddress metadata memType offset)
  | .RegisterRelAddr => do
      let base ← d.register addrRegIndex
      pure (base + relAddress)
  | .RegisterOfsReg => do
      let base ← d.register addrRegIndex
      let offset ← d.register ofsRegIndex
      pure (base + offset)
  | _ => pure 0

def DebugLogValueType.address : DebugLogValueType → CompareRegisterValueType
  | .MemoryRelAddr => .MemoryRelAddr
  | .MemoryOfsReg => .MemoryOfsReg
  | .RegisterRelAddr => .RegisterRelAddr
  | .RegisterOfsReg => .RegisterOfsReg
  | .RegisterValue => .OtherRegister
  | .unknown value => .unknown value

def debugLog (o : DebugLogOpcode) (d : Data σ) : Exec (Data σ) := do
  let (value, d) ← if o.valType = .RegisterValue then do
      let register ← d.register o.valRegIndex
      pure (sized register o.bitWidth, d)
    else do
      let address ← operandAddress metadata o.valType.address o.memType o.relAddress o.addrRegIndex o.ofsRegIndex d
      pure (d.readMemory host address 0 o.bitWidth)
  pure { d with world := host.debugLog d.world (BitVec.ofNat 8 o.logId) value }

/-- **What an instruction does that is not for control.** -/
def executeData (opcode : CheatVmOpcode) (d : Data σ) : Exec (Data σ) :=
  match opcode with
  | .storeStatic o => storeStatic host metadata o d
  | .loadRegisterStatic o => d.setRegister o.regIndex o.value
  | .loadRegisterMemory o => loadRegisterMemory host metadata o d
  | .storeStaticToAddress o => storeStaticToAddress host o d
  | .performArithmeticStatic o => performArithmeticStatic host o d
  | .performArithmeticRegister o => performArithmeticRegister host o d
  | .storeRegisterToAddress o => storeRegisterToAddress host metadata o d
  | .saveRestoreRegister o => saveRestoreRegister o d
  | .saveRestoreRegisterMask o => pure (saveRestoreRegisterMask o d)
  | .readWriteStaticRegister o => readWriteStaticRegister o d
  | .pauseProcess => pure { d with world := host.pauseProcess d.world }
  | .resumeProcess => pure { d with world := host.resumeProcess d.world }
  | .debugLog o => debugLog host metadata o d
  | _ => pure d

/-! ## Conditions -/

def beginConditional (o : BeginConditionalOpcode) (d : Data σ) : Bool × Data σ :=
  let (src, d) := d.readMemory host (getCheatProcessAddress metadata o.memType o.relAddress) 0 o.bitWidth
  (o.condType.eval src (getVmInt o.value o.bitWidth), d)

def beginRegisterConditional (o : BeginRegisterConditionalOpcode) (d : Data σ) :
    Exec (Bool × Data σ) := do
  let register ← d.register o.valRegIndex
  let (cond, d) ← match o.compType with
    | .StaticValue => pure (getVmInt o.value o.bitWidth, d)
    | .OtherRegister => do
        let other ← d.register o.otherRegIndex
        pure (sized other o.bitWidth, d)
    | compType => do
        let address ← operandAddress metadata compType o.memType o.relAddress o.addrRegIndex o.ofsRegIndex d
        pure (d.readMemory host address 0 o.bitWidth)
  pure (o.condType.eval (sized register o.bitWidth) cond, d)

/-- **Whether the condition of a conditional block is met.** -/
def conditionMet (kDown : BitVec 64) (opcode : CheatVmOpcode) (d : Data σ) : Exec (Bool × Data σ) :=
  match opcode with
  | .beginConditional o => pure (beginConditional host metadata o d)
  | .beginKeypressConditional keyMask =>
      pure ((keyMask.setWidth 64 &&& kDown) == keyMask.setWidth 64, d)
  | .beginRegisterConditional o => beginRegisterConditional host metadata o d
  | _ => pure (true, d)

/-! ## Control -/

def Control.enter (c : Control) : Control := { c with conditionDepth := c.conditionDepth + 1 }

def Control.leave (c : Control) : Exec Control :=
  if c.conditionDepth = 0 then .error .underflow
  else .ok { c with conditionDepth := c.conditionDepth - 1 }

/-- The loop of `SkipConditionalBlock`.  Every round reads a dword, so that rounds are left over. -/
def skipLoop (P : Program) (isIf : Bool) (desiredDepth : ℕ) : ℕ → Control → Exec Control
  | 0, c => .ok c
  | rounds + 1, c =>
      if desiredDepth < c.conditionDepth then
        match decodeNextOpcode P c with
        | (none, c) => .ok c
        | (some opcode, c) =>
            if opcode.beginConditionalBlock then
              skipLoop P isIf desiredDepth rounds c.enter
            else
              match opcode with
              | .endConditional false => do
                  let c ← c.leave
                  skipLoop P isIf desiredDepth rounds c
              | .endConditional true =>
                  if isIf && c.conditionDepth - 1 == desiredDepth then .ok c
                  else skipLoop P isIf desiredDepth rounds c
              | _ => skipLoop P isIf desiredDepth rounds c
      else .ok c

def skipConditionalBlock (P : Program) (isIf : Bool) (c : Control) : Exec Control :=
  if 0 < c.conditionDepth then
    skipLoop P isIf (c.conditionDepth - 1) (P.numOpcodes - c.instructionPtr + 1) c
  else .error .unreachable

structure Vm (σ : Type) where
  control : Control
  loopTops : Fin 16 → ℕ
  data : Data σ

variable (P : Program) (kDown : BitVec 64)

/-- The start of a conditional block, whose depth is counted before the condition is read. -/
def executeBegin (opcode : CheatVmOpcode) (vm : Vm σ) : Exec (Vm σ) := do
  let (met, data) ← conditionMet host metadata kDown opcode vm.data
  let control ← if met then pure vm.control.enter
    else skipConditionalBlock P true vm.control.enter
  pure { vm with control := control, data := data }

/-- The end of a conditional block, or of its first arm.  A mismatched end does nothing. -/
def executeEnd (isElse : Bool) (vm : Vm σ) : Exec (Vm σ) := do
  let control ← if isElse then skipConditionalBlock P false vm.control
    else if 0 < vm.control.conditionDepth then vm.control.leave
    else pure vm.control
  pure { vm with control := control }

/-- The start or the end of a loop.  Where a loop starts is kept for each register. -/
def executeLoop (o : ControlLoopOpcode) (vm : Vm σ) : Exec (Vm σ) := do
  if o.startLoop then
    let data ← vm.data.setRegister o.regIndex (o.numIters.setWidth 64)
    let loopTops ← writeBank vm.loopTops o.regIndex vm.control.instructionPtr
    pure { vm with data := data, loopTops := loopTops }
  else
    let register ← vm.data.register o.regIndex
    let data ← vm.data.setRegister o.regIndex (register - 1)
    if register - 1 ≠ 0 then
      let top ← readBank vm.loopTops o.regIndex
      pure { vm with data := data, control := { vm.control with instructionPtr := top } }
    else pure { vm with data := data }

def executeOpcode (opcode : CheatVmOpcode) (vm : Vm σ) : Exec (Vm σ) :=
  if opcode.beginConditionalBlock then executeBegin host metadata P kDown opcode vm
  else
    match opcode with
    | .endConditional isElse => executeEnd P isElse vm
    | .controlLoop o => executeLoop o vm
    | _ => do
        let data ← executeData host metadata opcode vm.data
        pure { vm with data := data }

/-- A round of the loop of `Execute`, and whether there is another. -/
def round (vm : Vm σ) : Exec (Vm σ × Bool) :=
  match decodeNextOpcode P vm.control with
  | (none, control) => pure ({ vm with control := control }, false)
  | (some opcode, control) => do
      let vm ← executeOpcode host metadata P kDown opcode { vm with control := control }
      pure (vm, true)

/-- So many rounds of `Execute`. -/
def run : ℕ → Vm σ → Exec (Vm σ × Bool)
  | 0, vm => pure (vm, true)
  | rounds + 1, vm => do
      let (vm, more) ← round host metadata P kDown vm
      if more then run rounds vm else pure (vm, false)

/-- `ResetState`.  The static registers stay. -/
def resetState (d : Data σ) : Vm σ where
  control := ⟨0, 0, true⟩
  loopTops := fun _ => 0
  data := { d with registers := fun _ => 0, savedValues := fun _ => 0 }

/-- **`Execute`**, for so many rounds of its loop. -/
def execute (d : Data σ) (rounds : ℕ) : Exec (Vm σ × Bool) :=
  let (kDown, world) := host.hidKeysDown d.world
  run host metadata P kDown rounds (resetState { d with world := world })

end Machine

/-! ## Loading -/

def maximumProgramOpcodeCount : ℕ := 0x400

structure CheatEntry where
  enabled : Bool
  opcodes : List (BitVec 32)

def Program.push (P : Program) (dword : BitVec 32) : Program :=
  ⟨P.numOpcodes + 1, Function.update P.program P.numOpcodes dword⟩

/-- The loop of `LoadProgram` over the entries. -/
def loadEntries : List CheatEntry → Program → Bool × Program
  | [], P => (true, P)
  | entry :: entries, P =>
      if entry.enabled then
        if maximumProgramOpcodeCount < entry.opcodes.length + P.numOpcodes then
          (false, { P with numOpcodes := 0 })
        else loadEntries entries (entry.opcodes.foldl Program.push P)
      else loadEntries entries P

/-- **`LoadProgram`**, over the array of the program before. -/
def loadProgram (program : ℕ → BitVec 32) (entries : List CheatEntry) : Bool × Program :=
  loadEntries entries ⟨0, program⟩

end Voltemu.Core.DmntCheatVm
