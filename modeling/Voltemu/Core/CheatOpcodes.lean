import Mathlib.Data.BitVec

/-!
# The instructions of the cheat virtual machine

`core/memory/dmnt_cheat_vm.h` and `DmntCheatVm::DecodeNextOpcode`.  A program is an array of dwords, of which the first
`numOpcodes` are loaded.  An instruction takes one to four of them.

* Fields that are 32-bit numbers in the source but come from a nibble or a byte are natural numbers here.
* A value of an enumeration that has no name is kept as `unknown`.
* A `VmInt` is the 64-bit value of the union, of which only the bytes of the width were written.
* The two halves of a 64-bit immediate are read in the order of the text, high half first.
-/

namespace Voltemu.Core.DmntCheatVm

/-! ## Enumerations -/

inductive CheatVmOpcodeType
  | StoreStatic
  | BeginConditionalBlock
  | EndConditionalBlock
  | ControlLoop
  | LoadRegisterStatic
  | LoadRegisterMemory
  | StoreStaticToAddress
  | PerformArithmeticStatic
  | BeginKeypressConditionalBlock
  | PerformArithmeticRegister
  | StoreRegisterToAddress
  | BeginRegisterConditionalBlock
  | SaveRestoreRegister
  | SaveRestoreRegisterMask
  | ReadWriteStaticRegister
  | PauseProcess
  | ResumeProcess
  | DebugLog
  | unknown (value : ℕ)
deriving DecidableEq

def CheatVmOpcodeType.ofNat : ℕ → CheatVmOpcodeType
  | 0 => .StoreStatic
  | 1 => .BeginConditionalBlock
  | 2 => .EndConditionalBlock
  | 3 => .ControlLoop
  | 4 => .LoadRegisterStatic
  | 5 => .LoadRegisterMemory
  | 6 => .StoreStaticToAddress
  | 7 => .PerformArithmeticStatic
  | 8 => .BeginKeypressConditionalBlock
  | 9 => .PerformArithmeticRegister
  | 10 => .StoreRegisterToAddress
  | 0xC0 => .BeginRegisterConditionalBlock
  | 0xC1 => .SaveRestoreRegister
  | 0xC2 => .SaveRestoreRegisterMask
  | 0xC3 => .ReadWriteStaticRegister
  | 0xFF0 => .PauseProcess
  | 0xFF1 => .ResumeProcess
  | 0xFFF => .DebugLog
  | value => .unknown value

inductive MemoryAccessType
  | MainNso
  | Heap
  | Alias
  | Aslr
  | unknown (value : ℕ)
deriving DecidableEq

def MemoryAccessType.ofNat : ℕ → MemoryAccessType
  | 0 => .MainNso
  | 1 => .Heap
  | 2 => .Alias
  | 3 => .Aslr
  | value => .unknown value

inductive ConditionalComparisonType
  | GT
  | GE
  | LT
  | LE
  | EQ
  | NE
  | unknown (value : ℕ)
deriving DecidableEq

def ConditionalComparisonType.ofNat : ℕ → ConditionalComparisonType
  | 1 => .GT
  | 2 => .GE
  | 3 => .LT
  | 4 => .LE
  | 5 => .EQ
  | 6 => .NE
  | value => .unknown value

inductive RegisterArithmeticType
  | Addition
  | Subtraction
  | Multiplication
  | LeftShift
  | RightShift
  | LogicalAnd
  | LogicalOr
  | LogicalNot
  | LogicalXor
  | None
  | unknown (value : ℕ)
deriving DecidableEq

def RegisterArithmeticType.ofNat : ℕ → RegisterArithmeticType
  | 0 => .Addition
  | 1 => .Subtraction
  | 2 => .Multiplication
  | 3 => .LeftShift
  | 4 => .RightShift
  | 5 => .LogicalAnd
  | 6 => .LogicalOr
  | 7 => .LogicalNot
  | 8 => .LogicalXor
  | 9 => .None
  | value => .unknown value

inductive StoreRegisterOffsetType
  | None
  | Reg
  | Imm
  | MemReg
  | MemImm
  | MemImmReg
  | unknown (value : ℕ)
deriving DecidableEq

def StoreRegisterOffsetType.ofNat : ℕ → StoreRegisterOffsetType
  | 0 => .None
  | 1 => .Reg
  | 2 => .Imm
  | 3 => .MemReg
  | 4 => .MemImm
  | 5 => .MemImmReg
  | value => .unknown value

inductive CompareRegisterValueType
  | MemoryRelAddr
  | MemoryOfsReg
  | RegisterRelAddr
  | RegisterOfsReg
  | StaticValue
  | OtherRegister
  | unknown (value : ℕ)
deriving DecidableEq

def CompareRegisterValueType.ofNat : ℕ → CompareRegisterValueType
  | 0 => .MemoryRelAddr
  | 1 => .MemoryOfsReg
  | 2 => .RegisterRelAddr
  | 3 => .RegisterOfsReg
  | 4 => .StaticValue
  | 5 => .OtherRegister
  | value => .unknown value

inductive SaveRestoreRegisterOpType
  | Restore
  | Save
  | ClearSaved
  | ClearRegs
  | unknown (value : ℕ)
deriving DecidableEq

def SaveRestoreRegisterOpType.ofNat : ℕ → SaveRestoreRegisterOpType
  | 0 => .Restore
  | 1 => .Save
  | 2 => .ClearSaved
  | 3 => .ClearRegs
  | value => .unknown value

inductive DebugLogValueType
  | MemoryRelAddr
  | MemoryOfsReg
  | RegisterRelAddr
  | RegisterOfsReg
  | RegisterValue
  | unknown (value : ℕ)
deriving DecidableEq

def DebugLogValueType.ofNat : ℕ → DebugLogValueType
  | 0 => .MemoryRelAddr
  | 1 => .MemoryOfsReg
  | 2 => .RegisterRelAddr
  | 3 => .RegisterOfsReg
  | 4 => .RegisterValue
  | value => .unknown value

/-! ## Instructions -/

structure StoreStaticOpcode where
  bitWidth : ℕ
  memType : MemoryAccessType
  offsetRegister : ℕ
  relAddress : BitVec 64
  value : BitVec 64
deriving DecidableEq

structure BeginConditionalOpcode where
  bitWidth : ℕ
  memType : MemoryAccessType
  condType : ConditionalComparisonType
  relAddress : BitVec 64
  value : BitVec 64
deriving DecidableEq

structure ControlLoopOpcode where
  startLoop : Bool
  regIndex : ℕ
  numIters : BitVec 32
deriving DecidableEq

structure LoadRegisterStaticOpcode where
  regIndex : ℕ
  value : BitVec 64
deriving DecidableEq

structure LoadRegisterMemoryOpcode where
  bitWidth : ℕ
  memType : MemoryAccessType
  regIndex : ℕ
  loadFromReg : Bool
  relAddress : BitVec 64
deriving DecidableEq

structure StoreStaticToAddressOpcode where
  bitWidth : ℕ
  regIndex : ℕ
  incrementReg : Bool
  addOffsetReg : Bool
  offsetRegIndex : ℕ
  value : BitVec 64
deriving DecidableEq

structure PerformArithmeticStaticOpcode where
  bitWidth : ℕ
  regIndex : ℕ
  mathType : RegisterArithmeticType
  value : BitVec 32
deriving DecidableEq

structure PerformArithmeticRegisterOpcode where
  bitWidth : ℕ
  mathType : RegisterArithmeticType
  dstRegIndex : ℕ
  srcReg1Index : ℕ
  srcReg2Index : ℕ
  hasImmediate : Bool
  value : BitVec 64
deriving DecidableEq

structure StoreRegisterToAddressOpcode where
  bitWidth : ℕ
  strRegIndex : ℕ
  addrRegIndex : ℕ
  incrementReg : Bool
  ofsType : StoreRegisterOffsetType
  memType : MemoryAccessType
  ofsRegIndex : ℕ
  relAddress : BitVec 64
deriving DecidableEq

structure BeginRegisterConditionalOpcode where
  bitWidth : ℕ
  condType : ConditionalComparisonType
  valRegIndex : ℕ
  compType : CompareRegisterValueType
  memType : MemoryAccessType
  addrRegIndex : ℕ
  otherRegIndex : ℕ
  ofsRegIndex : ℕ
  relAddress : BitVec 64
  value : BitVec 64
deriving DecidableEq

structure SaveRestoreRegisterOpcode where
  dstIndex : ℕ
  srcIndex : ℕ
  opType : SaveRestoreRegisterOpType
deriving DecidableEq

structure SaveRestoreRegisterMaskOpcode where
  opType : SaveRestoreRegisterOpType
  shouldOperate : Fin 16 → Bool
deriving DecidableEq

structure ReadWriteStaticRegisterOpcode where
  staticIdx : ℕ
  idx : ℕ
deriving DecidableEq

structure DebugLogOpcode where
  bitWidth : ℕ
  logId : ℕ
  valType : DebugLogValueType
  memType : MemoryAccessType
  addrRegIndex : ℕ
  valRegIndex : ℕ
  ofsRegIndex : ℕ
  relAddress : BitVec 64
deriving DecidableEq

/-- `CheatVmOpcode`: the alternatives that can be decoded. -/
inductive CheatVmOpcode
  | storeStatic (o : StoreStaticOpcode)
  | beginConditional (o : BeginConditionalOpcode)
  | endConditional (isElse : Bool)
  | controlLoop (o : ControlLoopOpcode)
  | loadRegisterStatic (o : LoadRegisterStaticOpcode)
  | loadRegisterMemory (o : LoadRegisterMemoryOpcode)
  | storeStaticToAddress (o : StoreStaticToAddressOpcode)
  | performArithmeticStatic (o : PerformArithmeticStaticOpcode)
  | beginKeypressConditional (keyMask : BitVec 32)
  | performArithmeticRegister (o : PerformArithmeticRegisterOpcode)
  | storeRegisterToAddress (o : StoreRegisterToAddressOpcode)
  | beginRegisterConditional (o : BeginRegisterConditionalOpcode)
  | saveRestoreRegister (o : SaveRestoreRegisterOpcode)
  | saveRestoreRegisterMask (o : SaveRestoreRegisterMaskOpcode)
  | readWriteStaticRegister (o : ReadWriteStaticRegisterOpcode)
  | pauseProcess
  | resumeProcess
  | debugLog (o : DebugLogOpcode)
deriving DecidableEq

/-- `begin_conditional_block`, which decoding sets by the type of the instruction. -/
def CheatVmOpcode.beginConditionalBlock : CheatVmOpcode → Bool
  | .beginConditional _ | .beginKeypressConditional _ | .beginRegisterConditional _ => true
  | _ => false

/-! ## Decoding -/

/-- The loaded program.  The array goes on behind it. -/
structure Program where
  numOpcodes : ℕ
  program : ℕ → BitVec 32

/-- Where the next dword is read, and whether all reads were within the program. -/
structure Cursor where
  instructionPtr : ℕ
  valid : Bool
deriving DecidableEq

abbrev Fetch := StateM Cursor

def nibble (dword : BitVec 32) (shift : ℕ) : ℕ := ((dword >>> shift) &&& 0xF).toNat

section Decode

variable (P : Program)

def getNextDword : Fetch (BitVec 32) := fun c =>
  if P.numOpcodes ≤ c.instructionPtr then (0, { c with valid := false })
  else (P.program c.instructionPtr, { c with instructionPtr := c.instructionPtr + 1 })

def joinDwords (high low : BitVec 32) : BitVec 64 :=
  (high.setWidth 64 <<< 32) ||| low.setWidth 64

def getNextVmInt (bitWidth : ℕ) : Fetch (BitVec 64) := do
  let firstDword ← getNextDword P
  match bitWidth with
  | 1 => pure ((firstDword.setWidth 8).setWidth 64)
  | 2 => pure ((firstDword.setWidth 16).setWidth 64)
  | 4 => pure (firstDword.setWidth 64)
  | 8 => do
      let second ← getNextDword P
      pure (joinDwords firstDword second)
  | _ => pure 0

/-- The type of an instruction, in one, two or three nibbles. -/
def opcodeType (firstDword : BitVec 32) : CheatVmOpcodeType :=
  let one := nibble firstDword 28
  let two := if 12 ≤ one then one * 16 + nibble firstDword 24 else one
  CheatVmOpcodeType.ofNat (if 0xF0 ≤ two then two * 16 + nibble firstDword 20 else two)

def decodeStoreStatic (firstDword : BitVec 32) : Fetch CheatVmOpcode := do
  let secondDword ← getNextDword P
  let bitWidth := nibble firstDword 24
  let value ← getNextVmInt P bitWidth
  pure <| .storeStatic {
    bitWidth := bitWidth
    memType := .ofNat (nibble firstDword 20)
    offsetRegister := nibble firstDword 16
    relAddress := joinDwords (firstDword &&& 0xFF) secondDword
    value := value }

def decodeBeginConditional (firstDword : BitVec 32) : Fetch CheatVmOpcode := do
  let secondDword ← getNextDword P
  let bitWidth := nibble firstDword 24
  let value ← getNextVmInt P bitWidth
  pure <| .beginConditional {
    bitWidth := bitWidth
    memType := .ofNat (nibble firstDword 20)
    condType := .ofNat (nibble firstDword 16)
    relAddress := joinDwords (firstDword &&& 0xFF) secondDword
    value := value }

def decodeControlLoop (firstDword : BitVec 32) : Fetch CheatVmOpcode := do
  let startLoop := nibble firstDword 24 == 0
  let regIndex := nibble firstDword 20
  let numIters ← if startLoop then getNextDword P else pure 0
  pure <| .controlLoop ⟨startLoop, regIndex, numIters⟩

def decodeLoadRegisterStatic (firstDword : BitVec 32) : Fetch CheatVmOpcode := do
  let high ← getNextDword P
  let low ← getNextDword P
  pure <| .loadRegisterStatic ⟨nibble firstDword 16, joinDwords high low⟩

def decodeLoadRegisterMemory (firstDword : BitVec 32) : Fetch CheatVmOpcode := do
  let secondDword ← getNextDword P
  pure <| .loadRegisterMemory {
    bitWidth := nibble firstDword 24
    memType := .ofNat (nibble firstDword 20)
    regIndex := nibble firstDword 16
    loadFromReg := nibble firstDword 12 != 0
    relAddress := joinDwords (firstDword &&& 0xFF) secondDword }

def decodeStoreStaticToAddress (firstDword : BitVec 32) : Fetch CheatVmOpcode := do
  let high ← getNextDword P
  let low ← getNextDword P
  pure <| .storeStaticToAddress {
    bitWidth := nibble firstDword 24
    regIndex := nibble firstDword 16
    incrementReg := nibble firstDword 12 != 0
    addOffsetReg := nibble firstDword 8 != 0
    offsetRegIndex := nibble firstDword 4
    value := joinDwords high low }

def decodePerformArithmeticStatic (firstDword : BitVec 32) : Fetch CheatVmOpcode := do
  let value ← getNextDword P
  pure <| .performArithmeticStatic {
    bitWidth := nibble firstDword 24
    regIndex := nibble firstDword 16
    mathType := .ofNat (nibble firstDword 12)
    value := value }

def decodePerformArithmeticRegister (firstDword : BitVec 32) : Fetch CheatVmOpcode := do
  let bitWidth := nibble firstDword 24
  let hasImmediate := nibble firstDword 8 != 0
  let value ← if hasImmediate then getNextVmInt P bitWidth else pure 0
  pure <| .performArithmeticRegister {
    bitWidth := bitWidth
    mathType := .ofNat (nibble firstDword 20)
    dstRegIndex := nibble firstDword 16
    srcReg1Index := nibble firstDword 12
    srcReg2Index := if hasImmediate then 0 else nibble firstDword 4
    hasImmediate := hasImmediate
    value := value }

/-- A relative address of 36 bits: the last nibble of the first dword, and one more dword. -/
def getRelAddress (firstDword : BitVec 32) : Fetch (BitVec 64) := do
  let low ← getNextDword P
  pure (joinDwords (firstDword &&& 0xF) low)

def decodeStoreRegisterToAddress (firstDword : BitVec 32) : Fetch CheatVmOpcode := do
  let base : StoreRegisterToAddressOpcode := {
    bitWidth := nibble firstDword 24
    strRegIndex := nibble firstDword 20
    addrRegIndex := nibble firstDword 16
    incrementReg := nibble firstDword 12 != 0
    ofsType := .ofNat (nibble firstDword 8)
    memType := .MainNso
    ofsRegIndex := nibble firstDword 4
    relAddress := 0 }
  match base.ofsType with
  | .None | .Reg => pure (.storeRegisterToAddress base)
  | .Imm => do
      let relAddress ← getRelAddress P firstDword
      pure (.storeRegisterToAddress { base with relAddress := relAddress })
  | .MemReg =>
      pure (.storeRegisterToAddress { base with memType := .ofNat (nibble firstDword 4) })
  | .MemImm | .MemImmReg => do
      let relAddress ← getRelAddress P firstDword
      pure (.storeRegisterToAddress
        { base with memType := .ofNat (nibble firstDword 4), relAddress := relAddress })
  | .unknown _ => pure (.storeRegisterToAddress { base with ofsType := .None })

def decodeBeginRegisterConditional (firstDword : BitVec 32) : Fetch CheatVmOpcode := do
  let base : BeginRegisterConditionalOpcode := {
    bitWidth := nibble firstDword 20
    condType := .ofNat (nibble firstDword 16)
    valRegIndex := nibble firstDword 12
    compType := .ofNat (nibble firstDword 8)
    memType := .MainNso
    addrRegIndex := 0
    otherRegIndex := 0
    ofsRegIndex := 0
    relAddress := 0
    value := 0 }
  match base.compType with
  | .StaticValue => do
      let value ← getNextVmInt P base.bitWidth
      pure (.beginRegisterConditional { base with value := value })
  | .OtherRegister =>
      pure (.beginRegisterConditional { base with otherRegIndex := nibble firstDword 4 })
  | .MemoryRelAddr => do
      let relAddress ← getRelAddress P firstDword
      pure (.beginRegisterConditional
        { base with memType := .ofNat (nibble firstDword 4), relAddress := relAddress })
  | .MemoryOfsReg =>
      pure (.beginRegisterConditional
        { base with memType := .ofNat (nibble firstDword 4), ofsRegIndex := nibble firstDword 0 })
  | .RegisterRelAddr => do
      let relAddress ← getRelAddress P firstDword
      pure (.beginRegisterConditional
        { base with addrRegIndex := nibble firstDword 4, relAddress := relAddress })
  | .RegisterOfsReg =>
      pure (.beginRegisterConditional
        { base with addrRegIndex := nibble firstDword 4, ofsRegIndex := nibble firstDword 0 })
  | .unknown _ => pure (.beginRegisterConditional base)

def decodeDebugLog (firstDword : BitVec 32) : Fetch CheatVmOpcode := do
  let base : DebugLogOpcode := {
    bitWidth := nibble firstDword 16
    logId := nibble firstDword 12
    valType := .ofNat (nibble firstDword 8)
    memType := .MainNso
    addrRegIndex := 0
    valRegIndex := 0
    ofsRegIndex := 0
    relAddress := 0 }
  match base.valType with
  | .RegisterValue => pure (.debugLog { base with valRegIndex := nibble firstDword 4 })
  | .MemoryRelAddr => do
      let relAddress ← getRelAddress P firstDword
      pure (.debugLog
        { base with memType := .ofNat (nibble firstDword 4), relAddress := relAddress })
  | .MemoryOfsReg =>
      pure (.debugLog
        { base with memType := .ofNat (nibble firstDword 4), ofsRegIndex := nibble firstDword 0 })
  | .RegisterRelAddr => do
      let relAddress ← getRelAddress P firstDword
      pure (.debugLog { base with addrRegIndex := nibble firstDword 4, relAddress := relAddress })
  | .RegisterOfsReg =>
      pure (.debugLog
        { base with addrRegIndex := nibble firstDword 4, ofsRegIndex := nibble firstDword 0 })
  | .unknown _ => pure (.debugLog base)

/-- The instruction that a first dword begins.  There is none of an unknown type. -/
def decodeBody (firstDword : BitVec 32) : Fetch (Option CheatVmOpcode) :=
  match opcodeType firstDword with
  | .StoreStatic => some <$> decodeStoreStatic P firstDword
  | .BeginConditionalBlock => some <$> decodeBeginConditional P firstDword
  | .EndConditionalBlock => pure (some (.endConditional (nibble firstDword 24 == 1)))
  | .ControlLoop => some <$> decodeControlLoop P firstDword
  | .LoadRegisterStatic => some <$> decodeLoadRegisterStatic P firstDword
  | .LoadRegisterMemory => some <$> decodeLoadRegisterMemory P firstDword
  | .StoreStaticToAddress => some <$> decodeStoreStaticToAddress P firstDword
  | .PerformArithmeticStatic => some <$> decodePerformArithmeticStatic P firstDword
  | .BeginKeypressConditionalBlock =>
      pure (some (.beginKeypressConditional (firstDword &&& 0x0FFFFFFF)))
  | .PerformArithmeticRegister => some <$> decodePerformArithmeticRegister P firstDword
  | .StoreRegisterToAddress => some <$> decodeStoreRegisterToAddress P firstDword
  | .BeginRegisterConditionalBlock => some <$> decodeBeginRegisterConditional P firstDword
  | .SaveRestoreRegister => pure (some (.saveRestoreRegister {
      dstIndex := nibble firstDword 16
      srcIndex := nibble firstDword 8
      opType := .ofNat (nibble firstDword 4) }))
  | .SaveRestoreRegisterMask => pure (some (.saveRestoreRegisterMask {
      opType := .ofNat (nibble firstDword 20)
      shouldOperate := fun i => (firstDword &&& ((1 : BitVec 32) <<< i.val)) != 0 }))
  | .ReadWriteStaticRegister => pure (some (.readWriteStaticRegister {
      staticIdx := ((firstDword >>> 4) &&& 0xFF).toNat
      idx := nibble firstDword 0 }))
  | .PauseProcess => pure (some .pauseProcess)
  | .ResumeProcess => pure (some .resumeProcess)
  | .DebugLog => some <$> decodeDebugLog P firstDword
  | .unknown _ => pure none

/-- The position in the program and in the nesting of conditionals. -/
structure Control where
  instructionPtr : ℕ
  conditionDepth : ℕ
  decodeSuccess : Bool
deriving DecidableEq

/-- **`DecodeNextOpcode`.**  An earlier failure is never forgotten. -/
def decodeNextOpcode (c : Control) : Option CheatVmOpcode × Control :=
  let (firstDword, k) := getNextDword P ⟨c.instructionPtr, c.decodeSuccess⟩
  if k.valid then
    let (opcode, k) := decodeBody P firstDword k
    let valid := k.valid && opcode.isSome
    (if valid then opcode else none,
      { c with instructionPtr := k.instructionPtr, decodeSuccess := c.decodeSuccess && valid })
  else
    (none, { c with instructionPtr := k.instructionPtr, decodeSuccess := false })

end Decode

end Voltemu.Core.DmntCheatVm
