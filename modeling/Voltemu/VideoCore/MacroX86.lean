import Voltemu.VideoCore.MacroPath

/-!
# The data instructions of the recompiler

The x86 meaning of the instructions that `MacroJITx64Impl` emits for data, and what its building blocks do:
`Compile_GetRegister`, `Compile_FetchParameter`, `Compile_Send` and `Compile_ProcessResult`.

* `PARAMETERS` is the index of the next parameter.  The carry flag `cf` is the host's; `carryFlag` is the field of
  `JITState` where it is kept.
* Shift counts are taken modulo 32, as the processor does.
* `Frame` says what an instruction sequence leaves alone; every block has one lemma that gives its effect.
-/

namespace Voltemu.VideoCore

open BitVec Nat

/-- The registers, the flags and the memory that the data instructions work on. -/
structure X86State (γ : Type) where
  eax : BitVec 32
  ecx : BitVec 32
  result : BitVec 32
  methodAddress : BitVec 32
  cf : Bool
  zf : Bool
  registers : Fin 8 → BitVec 32
  carryFlag : BitVec 32
  parameter : ℕ
  gpu : γ
  sends : List (BitVec 12 × BitVec 32)
  clock : ℕ

namespace X86State

variable {γ : Type} (env : Env γ) (scratch : ℕ → BitVec 32)

def get (s : X86State γ) : Reg → BitVec 32
  | .eax => s.eax
  | .ecx => s.ecx
  | .result => s.result
  | .methodAddress => s.methodAddress

def set (s : X86State γ) (r : Reg) (v : BitVec 32) : X86State γ :=
  match r with
  | .eax => { s with eax := v }
  | .ecx => { s with ecx := v }
  | .result => { s with result := v }
  | .methodAddress => { s with methodAddress := v }

def put (s : X86State γ) (r : Reg) (v : BitVec 32) (cf : Bool) : X86State γ :=
  { s.set r v with cf := cf, zf := v == 0 }

def carry (s : X86State γ) : ℕ := if s.cf then 1 else 0

def shr (s : X86State γ) (r : Reg) (count : ℕ) : X86State γ :=
  if count % 32 = 0 then s
  else s.put r (s.get r >>> (count % 32)) ((s.get r).getLsbD (count % 32 - 1))

def shl (s : X86State γ) (r : Reg) (count : ℕ) : X86State γ :=
  if count % 32 = 0 then s
  else s.put r (s.get r <<< (count % 32)) ((s.get r).getLsbD (32 - count % 32))

/-- `eax` and `ecx` after a call, with flags that nothing relies on. -/
def clobber (s : X86State γ) : X86State γ :=
  { s with
    eax := scratch s.clock, ecx := scratch (s.clock + 1), cf := false, zf := false
    clock := s.clock + 2 }

def adc (s : X86State γ) (d : Reg) (b : BitVec 32) (c : ℕ) : X86State γ :=
  s.put d (s.get d + b + BitVec.ofNat 32 c) (decide (2 ^ 32 ≤ (s.get d).toNat + b.toNat + c))

def sbb (s : X86State γ) (d : Reg) (b : BitVec 32) (c : ℕ) : X86State γ :=
  s.put d (s.get d - b - BitVec.ofNat 32 c) (decide ((s.get d).toNat < b.toNat + c))

/-- One instruction; the jumps are in `exec`. -/
def step (s : X86State γ) : X86 → X86State γ
  | .movReg d r => s.set d (s.get r)
  | .movImm d imm => s.set d imm
  | .xor d r => s.put d (s.get d ^^^ s.get r) false
  | .or d r => s.put d (s.get d ||| s.get r) false
  | .and d r => s.put d (s.get d &&& s.get r) false
  | .andImm d imm => s.put d (s.get d &&& imm) false
  | .not d => s.set d (~~~s.get d)
  | .add d r => s.adc d (s.get r) 0
  | .addImm d imm => s.adc d imm 0
  | .inc d => s.put d (s.get d + 1) s.cf
  | .sub d r => s.sbb d (s.get r) 0
  | .subImm d imm => s.sbb d imm 0
  | .adc d r => s.adc d (s.get r) s.carry
  | .sbb d r => s.sbb d (s.get r) s.carry
  | .shrImm d n => s.shr d n
  | .shlImm d n => s.shl d n
  | .shrCl d => s.shr d s.ecx.toNat
  | .shlCl d => s.shl d s.ecx.toNat
  | .lea d a b => s.set d (s.get a + s.get b)
  | .testImm a imm => { s with cf := false, zf := (s.get a &&& imm) == 0 }
  | .btCarryFlag => { s with cf := s.carryFlag.getLsbD 0 }
  | .setcCarryFlag =>
      { s with carryFlag := (s.carryFlag &&& 0xffffff00) ||| (if s.cf then 1 else 0) }
  | .loadRegister d r => s.set d (s.registers r)
  | .storeRegister r d => { s with registers := Function.update s.registers r (s.get d) }
  | .cmpParameters =>
      { s with
        cf := decide (s.parameter < env.parameters.length)
        zf := decide (s.parameter = env.parameters.length) }
  | .callError => s.clobber scratch
  | .loadParameter => { s with eax := env.parameters.getD s.parameter (scratch s.clock) }
  | .nextParameter => { s with parameter := s.parameter + 1, cf := false, zf := false }
  | .loadGpu => { s with eax := scratch s.clock, clock := s.clock + 1 }
  | .readGpu => { s with result := env.gpu.getRegisterValue s.gpu s.result }
  | .callSend value =>
      ({ s with
        gpu := env.gpu.callMethod s.gpu (Data.address s.methodAddress) (s.get value)
        sends := s.sends ++ [(Data.address s.methodAddress, s.get value)] } :
        X86State γ).clobber scratch
  | .je _ | .jb _ => s

/-- A sequence of instructions, the first `skip` of which are jumped over. -/
def exec : List X86 → ℕ → X86State γ → X86State γ
  | [], _, s => s
  | _ :: rest, skip + 1, s => exec rest skip s
  | .je n :: rest, 0, s => exec rest (if s.zf then n else 0) s
  | .jb n :: rest, 0, s => exec rest (if s.cf then n else 0) s
  | i :: rest, 0, s => exec rest 0 (s.step env scratch i)

/-- The state when the emitted code starts.  Nothing relies on the registers that are not given. -/
def initial (junk : Reg → BitVec 32) (g : γ) : X86State γ where
  eax := junk .eax
  ecx := junk .ecx
  result := junk .result
  methodAddress := junk .methodAddress
  cf := false
  zf := false
  registers := fun _ => 0
  carryFlag := 0
  parameter := 0
  gpu := g
  sends := []
  clock := 0

end X86State

def x86Sem {γ : Type} (env : Env γ) (scratch : ℕ → BitVec 32) : MachineSem (X86State γ) where
  exec code s := X86State.exec env scratch code 0 s
  cmpZero reg s := (s.registers reg == 0, { s with eax := s.registers reg, cf := false })
  clearCarry s := { s with cf := false }

section Blocks

variable {γ : Type} {env : Env γ} {scratch : ℕ → BitVec 32} {s : X86State γ}

def X86.isJump : X86 → Bool
  | .je _ | .jb _ => true
  | _ => false

/-- Nothing in the block jumps beyond its end. -/
def Closed (env : Env γ) (scratch : ℕ → BitVec 32) (xs : List X86) : Prop :=
  ∀ ys s, X86State.exec env scratch (xs ++ ys) 0 s = X86State.exec env scratch ys 0 (X86State.exec env scratch xs 0 s)

variable {xs : List X86}

lemma exec_cons {x : X86} (h : x.isJump = false) :
    X86State.exec env scratch (x :: xs) 0 s = X86State.exec env scratch xs 0 (s.step env scratch x) := by
  cases x <;> first | rfl | cases h

lemma closed_of_no_jump (h : ∀ x ∈ xs, x.isJump = false) :
    Closed env scratch xs := by
  intro ys s
  induction xs generalizing s with
  | nil => rfl
  | cons x xs ih =>
    have hx := h x List.mem_cons_self
    rw [List.cons_append, exec_cons hx, exec_cons hx]
    exact ih (fun y hy => h y (List.mem_cons_of_mem _ hy)) _

lemma Closed.append {ys : List X86} (hx : Closed env scratch xs) (hy : Closed env scratch ys) :
    Closed env scratch (xs ++ ys) := by
  intro zs s
  rw [List.append_assoc, hx, hy, hx]

lemma exec_fetch (h : s.parameter < env.parameters.length) :
    X86State.exec env scratch compileFetchParameter 0 s =
      { s with
        eax := env.parameters[s.parameter]
        parameter := s.parameter + 1, cf := false, zf := false } := by
  simp [compileFetchParameter, X86State.exec, X86State.step, h, Nat.ne_of_lt h]

lemma closed_fetch : Closed env scratch compileFetchParameter := by
  intro ys s
  by_cases h : s.parameter < env.parameters.length <;>
    simp [compileFetchParameter, X86State.exec, X86State.step, h]

/-- The new method address that `Compile_Send` computes. -/
def nextMethod (raw : BitVec 32) : BitVec 32 :=
  if raw &&& 0x3f000#32 = 0#32 then raw
  else (((raw >>> 12) &&& 0x3f#32) + (raw &&& 0xfff#32)) ||| (((raw >>> 12) &&& 0x3f#32) <<< 12)

/-- The parts of the state that last from one macro instruction to the next. -/
structure Frame (s s' : X86State γ) : Prop where
  registers : s'.registers = s.registers
  methodAddress : s'.methodAddress = s.methodAddress
  carryFlag : s'.carryFlag = s.carryFlag
  parameter : s'.parameter = s.parameter
  gpu : s'.gpu = s.gpu
  sends : s'.sends = s.sends

/-- `Compile_Send`. -/
structure SendSpec (env : Env γ) (value : BitVec 32) (s s' : X86State γ) : Prop where
  registers : s'.registers = s.registers
  methodAddress : s'.methodAddress = nextMethod s.methodAddress
  carryFlag : s'.carryFlag = s.carryFlag
  parameter : s'.parameter = s.parameter
  gpu : s'.gpu = env.gpu.callMethod s.gpu (Data.address s.methodAddress) value
  sends : s'.sends = s.sends ++ [(Data.address s.methodAddress, value)]

lemma exec_send (value : Reg) (s : X86State γ) :
    SendSpec env (s.get value) s (X86State.exec env scratch (compileSend value) 0 s) := by
  by_cases h : s.methodAddress &&& 258048#32 = 0#32
  · constructor <;>
      simp [compileSend, X86State.exec, X86State.step, X86State.clobber, X86State.get, nextMethod, h]
  · constructor <;>
      simp [compileSend, X86State.exec, X86State.step, X86State.clobber, X86State.get,
        X86State.set, X86State.put, X86State.shr, X86State.shl, nextMethod, h]

lemma exec_setRegister (reg : Fin 8) (src : Reg) :
    X86State.exec env scratch (compileSetRegister reg src) 0 s =
      { s with registers := if reg = 0 then s.registers
          else Function.update s.registers reg (s.get src) } := by
  unfold compileSetRegister
  split_ifs <;> rfl

lemma closed_setRegister (reg : Fin 8) (src : Reg) : Closed env scratch (compileSetRegister reg src) := by
  refine closed_of_no_jump fun x hx => ?_
  unfold compileSetRegister at hx
  split_ifs at hx
  · cases hx
  · rw [List.mem_singleton] at hx
    subst hx
    rfl

def X86State.load (s : X86State γ) (index : Fin 8) (d : Reg) : X86State γ :=
  if index = 0 then s.put d 0 false else s.set d (s.registers index)

lemma exec_getRegister (index : Fin 8) (d : Reg) :
    X86State.exec env scratch (compileGetRegister index d) 0 s = s.load index d := by
  unfold compileGetRegister X86State.load
  split_ifs
  · simp [X86State.exec, X86State.step]
  · rfl

lemma closed_getRegister (index : Fin 8) (d : Reg) : Closed env scratch (compileGetRegister index d) := by
  refine closed_of_no_jump fun x hx => ?_
  unfold compileGetRegister at hx
  split_ifs at hx <;> rw [List.mem_singleton] at hx <;> subst hx <;> rfl

end Blocks

section Method

/-- The eighteen bits of a method address that are used. -/
def lowBits (raw : BitVec 32) : ℕ := raw.toNat % 2 ^ 18

/-- The host's update of a method address gives the interpreter's: the address does not leave its twelve bits, or
the increment is odd and takes the carry out of them unnoticed. -/
def methodSafe (raw : BitVec 32) : Bool :=
  decide ((Data.address raw).toNat + (Data.increment raw).toNat < 4096) ||
    decide ((Data.increment raw).toNat % 2 = 1)

lemma address_toNat (raw : BitVec 32) : (Data.address raw).toNat = lowBits raw % 4096 := by
  simp [Data.address, lowBits, extractLsb'_toNat]

lemma increment_toNat (raw : BitVec 32) : (Data.increment raw).toNat = lowBits raw / 4096 := by
  simp [Data.increment, lowBits, extractLsb'_toNat, shiftRight_eq_div_pow]
  omega

lemma and_increment (x : ℕ) : x &&& 0x3f000 = 4096 * (x / 4096 % 64) := by
  have hdiv : (x &&& 0x3f000) / 2 ^ 12 = x / 4096 % 64 := by
    rw [and_div_two_pow]
    exact and_two_pow_sub_one_eq_mod _ 6
  have hmod : (x &&& 0x3f000) % 2 ^ 12 = 0 := by
    rw [and_mod_two_pow]
    exact and_zero _
  omega

lemma or_increment (sum inc : ℕ) : sum ||| inc * 4096 = 4096 * (sum / 4096 ||| inc) + sum % 4096 := by
  have hdiv : (sum ||| inc * 4096) / 2 ^ 12 = sum / 4096 ||| inc := by
    rw [or_div_two_pow, show inc * 4096 / 2 ^ 12 = inc by omega]
  have hmod : (sum ||| inc * 4096) % 2 ^ 12 = sum % 4096 := by
    rw [or_mod_two_pow, show inc * 4096 % 2 ^ 12 = 0 by omega]
    exact or_zero _
  omega

lemma one_or_of_odd : ∀ inc < 64, inc % 2 = 1 → 1 ||| inc = inc := by
  decide

lemma lowBits_nextMethod {raw : BitVec 32} (h : methodSafe raw = true) :
    lowBits (nextMethod raw) = 4096 * (lowBits raw / 4096) + (lowBits raw % 4096 + lowBits raw / 4096) % 4096 := by
  have hinc : ((raw >>> 12) &&& 0x3f#32).toNat = raw.toNat / 4096 % 64 := by
    rw [toNat_and, toNat_ushiftRight, shiftRight_eq_div_pow]
    exact and_two_pow_sub_one_eq_mod _ 6
  have haddr : (raw &&& 0xfff#32).toNat = raw.toNat % 4096 := by
    rw [toNat_and]
    exact and_two_pow_sub_one_eq_mod _ 12
  have hlow : lowBits raw / 4096 = raw.toNat / 4096 % 64 := by
    unfold lowBits
    omega
  have hlow' : lowBits raw % 4096 = raw.toNat % 4096 := by
    unfold lowBits
    omega
  rw [hlow, hlow']
  unfold nextMethod
  split
  · rename_i hzero
    have hmask : raw.toNat &&& 0x3f000 = 0 := by
      have htoNat := congrArg BitVec.toNat hzero
      rwa [toNat_and] at htoNat
    rw [and_increment] at hmask
    unfold lowBits
    omega
  · have hsum : (((raw >>> 12) &&& 0x3f#32) + (raw &&& 0xfff#32)).toNat = raw.toNat % 4096 + raw.toNat / 4096 % 64 := by
      rw [toNat_add, hinc, haddr]
      omega
    have hshift : (((raw >>> 12) &&& 0x3f#32) <<< 12).toNat = raw.toNat / 4096 % 64 * 4096 := by
      rw [toNat_shiftLeft, hinc, Nat.shiftLeft_eq]
      omega
    unfold lowBits
    rw [toNat_or, hsum, hshift, or_increment]
    -- the carry out of the address is absorbed by an odd increment
    have hor : (raw.toNat % 4096 + raw.toNat / 4096 % 64) / 4096 ||| raw.toNat / 4096 % 64 = raw.toNat / 4096 % 64 := by
      rw [methodSafe, Bool.or_eq_true, decide_eq_true_eq, decide_eq_true_eq, address_toNat,
        increment_toNat, hlow, hlow'] at h
      rcases h with h | h
      · rw [Nat.div_eq_of_lt h]
        exact Nat.zero_or _
      · rcases lt_or_ge (raw.toNat % 4096 + raw.toNat / 4096 % 64) 4096 with hlt | hge
        · rw [Nat.div_eq_of_lt hlt]
          exact Nat.zero_or _
        · have hone : (raw.toNat % 4096 + raw.toNat / 4096 % 64) / 4096 = 1 := by omega
          rw [hone]
          exact one_or_of_odd _ (Nat.mod_lt _ (by omega)) h
    rw [hor]
    omega

/-- **The host updates the method address as the interpreter does.** -/
lemma lowBits_send {γ : Type} (env : Env γ) (d : Data γ) (value : BitVec 32) :
    lowBits (d.send env value).methodAddress =
      4096 * (lowBits d.methodAddress / 4096) +
        (lowBits d.methodAddress % 4096 + lowBits d.methodAddress / 4096) % 4096 := by
  have hlo : (Data.address d.methodAddress + (Data.increment d.methodAddress).zeroExtend 12).toNat =
      (lowBits d.methodAddress % 4096 + lowBits d.methodAddress / 4096) % 4096 := by
    rw [toNat_add, toNat_setWidth, address_toNat, increment_toNat]
    omega
  have hhi : (d.methodAddress.extractLsb' 12 20).toNat = d.methodAddress.toNat / 4096 := by
    rw [extractLsb'_toNat, shiftRight_eq_div_pow]
    omega
  have htoNat : (d.send env value).methodAddress.toNat = 4096 * (d.methodAddress.toNat / 4096) +
      (lowBits d.methodAddress % 4096 + lowBits d.methodAddress / 4096) % 4096 := by
    unfold Data.send
    rw [toNat_append, hlo, hhi, Nat.or_comm, Nat.shiftLeft_eq, or_increment,
      Nat.div_eq_of_lt (Nat.mod_lt _ (by omega)), Nat.zero_or, Nat.mod_mod]
  unfold lowBits at htoNat ⊢
  omega

end Method

end Voltemu.VideoCore
