import Voltemu.Shader.Int64Words

/-!
# The lowering of 64-bit integers is exact

After the pass, an instruction that gave a 64-bit value gives the composite of its two words, whatever the undefined
results among those of the new instructions are.  All else gives what it gave.

* `Is` — the value of an operand, and for each opcode that is emitted one lemma about it;
* `Lowers` — one lemma for each sequence: from operands that are 64-bit immediates or composites it gives the words of
  the 64-bit result;
* `lowerInt64ToInt32_exact` — the pass over a block.
-/

namespace Voltemu.Shader.LowerInt64

open Lib List

variable {env : Inputs} {ν : ℕ → Outcome}

def Is (env : Inputs) (ν : ℕ → Outcome) (v : Value) (x : Val) : Prop :=
  (env.meaning.value ν v).value = x

lemma is_imm32 (x : BitVec 32) : Is env ν (imm32 x) (.u32 x) := rfl

/-! ## The opcodes that are emitted -/

variable {op : Opcode} {args : List Value} {vals : List Val} {v : Value}

lemma holds_iff {id : ℕ} {args : List Outcome} {r : Outcome} (hop : op.isOther = false) :
    env.meaning.holds id op args r ↔ r = ⟨env.value id op args, op.carry args⟩ := by
  change env.holds id op args r ↔ _
  rw [Inputs.holds, hop]
  rfl

/-- What an instruction that is put in gives. -/
lemma ensures_emit (hop : op.isOther = false) (args : List Value) :
    Ensures env.meaning ν (emit op args) fun v => ∃ id, env.meaning.value ν v =
      ⟨env.value id op (args.map (env.meaning.value ν)), op.carry (args.map (env.meaning.value ν))⟩ :=
  (Ensures.emit op args).mono fun _ ⟨id, h⟩ => ⟨id, (holds_iff hop).1 h⟩

def Are (env : Inputs) (ν : ℕ → Outcome) (args : List Value) (vals : List Val) : Prop :=
  args.map (fun a => (env.meaning.value ν a).value) = vals

/-- An instruction that is put in gives what its opcode makes of the values of its operands. -/
lemma ensures_outcome {f : ℕ → List Val → Outcome} (hop : op.isOther = false) (hargs : Are env ν args vals)
    (hf : ∀ id outcomes, ⟨env.value id op outcomes, op.carry outcomes⟩ = f id (outcomes.map (·.value))) :
    Ensures env.meaning ν (emit op args) fun v => ∃ id, env.meaning.value ν v = f id vals := by
  refine (ensures_emit hop args).mono fun v ⟨id, h⟩ => ⟨id, ?_⟩
  rw [h, hf, map_map]
  exact congrArg (f id) hargs

lemma ensures_value {f : ℕ → List Val → Val} (hop : op.isOther = false) (hargs : Are env ν args vals)
    (hf : ∀ id outcomes, env.value id op outcomes = f id (outcomes.map (·.value))) :
    Ensures env.meaning ν (emit op args) fun v => ∃ id, Is env ν v (f id vals) := by
  refine (ensures_emit hop args).mono fun v ⟨id, h⟩ => ⟨id, ?_⟩
  rw [Is, h, hf, map_map]
  exact congrArg (f id) hargs

variable {a b c d : Value} {x y z w : BitVec 32}

lemma are_one {x : Val} (ha : Is env ν a x) : Are env ν [a] [x] := by
  rw [Are, map_singleton, ha]

lemma Are.cons {x : Val} (ha : Is env ν a x) (h : Are env ν args vals) : Are env ν (a :: args) (x :: vals) := by
  rw [Are, map_cons, ha, h]

lemma are_two {x y : Val} (ha : Is env ν a x) (hb : Is env ν b y) : Are env ν [a, b] [x, y] :=
  .cons ha (are_one hb)

lemma are_three {x y z : Val} (ha : Is env ν a x) (hb : Is env ν b y) (hc : Is env ν c z) :
    Are env ν [a, b, c] [x, y, z] :=
  .cons ha (are_two hb hc)

lemma ensures_not (ha : Is env ν a (.u32 x)) :
    Ensures env.meaning ν (emit .BitwiseNot32 [a]) fun v => Is env ν v (.u32 (~~~x)) :=
  (ensures_value (f := fun _ => unary32 (~~~ ·)) rfl (are_one ha) fun _ _ => rfl).mono fun _ ⟨_, h⟩ => h

/-- An addition also gives its carry. -/
lemma ensures_add (ha : Is env ν a (.u32 x)) (hb : Is env ν b (.u32 y)) :
    Ensures env.meaning ν (emit .IAdd32 [a, b]) fun v =>
      env.meaning.value ν v = ⟨.u32 (x + y), decide (2 ^ 32 ≤ x.toNat + y.toNat)⟩ := by
  have hadd : ∀ id outcomes, (⟨env.value id .IAdd32 outcomes, Opcode.carry .IAdd32 outcomes⟩ : Outcome) =
      ⟨binary32 (· + ·) (outcomes.map (·.value)), carryOut (outcomes.map (·.value))⟩ := fun _ _ => rfl
  exact (ensures_outcome (f := fun _ vals => ⟨binary32 (· + ·) vals, carryOut vals⟩) rfl (are_two ha hb) hadd).mono
    fun _ ⟨_, h⟩ => h

lemma ensures_carry {x : Val} {carry : Bool} (ha : env.meaning.value ν a = ⟨x, carry⟩) :
    Ensures env.meaning ν (emit .GetCarryFromOp [a]) fun v => Is env ν v (.u1 carry) := by
  refine (ensures_emit rfl _).mono fun v ⟨id, h⟩ => ?_
  rw [Is, h]
  change getCarry [_] = _
  rw [ha]
  rfl

lemma ensures_sub (ha : Is env ν a (.u32 x)) (hb : Is env ν b (.u32 y)) :
    Ensures env.meaning ν (emit .ISub32 [a, b]) fun v => Is env ν v (.u32 (x - y)) :=
  (ensures_value (f := fun _ => binary32 (· - ·)) rfl (are_two ha hb) fun _ _ => rfl).mono fun _ ⟨_, h⟩ => h

lemma ensures_or (ha : Is env ν a (.u32 x)) (hb : Is env ν b (.u32 y)) :
    Ensures env.meaning ν (emit .BitwiseOr32 [a, b]) fun v => Is env ν v (.u32 (x ||| y)) :=
  (ensures_value (f := fun _ => binary32 (· ||| ·)) rfl (are_two ha hb) fun _ _ => rfl).mono fun _ ⟨_, h⟩ => h

lemma ensures_compare (r : Comparison) (ha : Is env ν a (.u32 x)) (hb : Is env ν b (.u32 y)) :
    Ensures env.meaning ν (emit (.compare r) [a, b]) fun v => Is env ν v (.u1 (r.eval x y)) :=
  (ensures_value (f := fun _ => compareU32 r) rfl (are_two ha hb) fun _ _ => rfl).mono fun _ ⟨_, h⟩ => h

lemma ensures_select {p : Bool} (hc : Is env ν c (.u1 p)) (ha : Is env ν a (.u32 x)) (hb : Is env ν b (.u32 y)) :
    Ensures env.meaning ν (emit .SelectU32 [c, a, b]) fun v =>
      Is env ν v (.u32 (if p then x else y)) :=
  (ensures_value (f := fun _ => selectU32) rfl (are_three hc ha hb) fun _ _ => rfl).mono fun _ ⟨_, h⟩ => h

def shiftOf : Opcode → Option (BitVec 32 → ℕ → BitVec 32)
  | .ShiftLeftLogical32 => some (· <<< ·)
  | .ShiftRightLogical32 => some (· >>> ·)
  | .ShiftRightArithmetic32 => some BitVec.sshiftRight
  | _ => none

lemma ensures_shift {f : BitVec 32 → ℕ → BitVec 32} (hop : shiftOf op = some f)
    (ha : Is env ν a (.u32 x)) (hb : Is env ν b (.u32 y)) :
    Ensures env.meaning ν (emit op [a, b]) fun v =>
      ∃ r, Is env ν v (.u32 r) ∧ (y.toNat < 32 → r = f x y.toNat) := by
  have hvalue : ∀ id outcomes, env.value id op outcomes = shift32 f (env.undef32 id) (outcomes.map (·.value)) := by
    cases op <;> simp only [shiftOf, reduceCtorEq, Option.some.injEq] at hop <;> subst hop <;>
      exact fun _ _ => rfl
  have hother : op.isOther = false := by
    cases op <;> first | rfl | (simp [shiftOf] at hop)
  exact (ensures_value hother (are_two ha hb) hvalue).mono fun v ⟨id, h⟩ => ⟨_, h, fun hlt => if_pos hlt⟩

section

variable (ha : Is env ν a (.u32 x)) (hb : Is env ν b (.u32 y))
include ha hb

lemma ensures_extract (hc : Is env ν c (.u32 z)) :
    Ensures env.meaning ν (emit .BitFieldUExtract [a, b, c]) fun v =>
      ∃ r, Is env ν v (.u32 r) ∧ (y.toNat + z.toNat ≤ 32 → r = extractUnsigned x y.toNat z.toNat) := by
  have hvalue : ∀ id outcomes, env.value id .BitFieldUExtract outcomes =
      bitFieldUExtract (env.undef32 id) (outcomes.map (·.value)) := fun _ _ => rfl
  exact (ensures_value rfl (are_three ha hb hc) hvalue).mono fun v ⟨id, h⟩ => ⟨_, h, fun hle => if_pos hle⟩

lemma ensures_insert (hc : Is env ν c (.u32 z)) (hd : Is env ν d (.u32 w)) :
    Ensures env.meaning ν (emit .BitFieldInsert [a, b, c, d]) fun v =>
      ∃ r, Is env ν v (.u32 r) ∧ (z.toNat + w.toNat ≤ 32 → r = insertField x y z.toNat w.toNat) := by
  have hvalue : ∀ id outcomes, env.value id .BitFieldInsert outcomes =
      bitFieldInsert (env.undef32 id) (outcomes.map (·.value)) := fun _ _ => rfl
  exact (ensures_value rfl (.cons ha (are_three hb hc hd)) hvalue).mono fun v ⟨id, h⟩ => ⟨_, h, fun hle => if_pos hle⟩

lemma ensures_construct : Ensures env.meaning ν (emit .CompositeConstructU32x2 [a, b]) fun v =>
      env.meaning.value ν v = ⟨words x y, false⟩ := by
  have hconstruct : ∀ id outcomes,
      (⟨env.value id .CompositeConstructU32x2 outcomes, Opcode.carry .CompositeConstructU32x2 outcomes⟩ : Outcome) =
        ⟨constructU32x2 (outcomes.map (·.value)), false⟩ := fun _ _ => rfl
  exact (ensures_outcome (f := fun _ vals => ⟨constructU32x2 vals, false⟩) rfl (are_two ha hb) hconstruct).mono
    fun _ ⟨_, h⟩ => h

end

lemma ensures_element (ha : Is env ν a (words x y)) (first : Bool) :
    Ensures env.meaning ν (emit .CompositeExtractU32x2 [a, imm32 (if first then 0 else 1)])
      fun v => Is env ν v (.u32 (if first then x else y)) := by
  have hvalue : ∀ id outcomes, env.value id .CompositeExtractU32x2 outcomes = extractU32x2 (outcomes.map (·.value)) :=
    fun _ _ => rfl
  refine (ensures_value (f := fun _ => extractU32x2) rfl (are_two ha (is_imm32 _)) hvalue).mono fun v ⟨id, h⟩ => ?_
  cases first <;> exact h

/-! ## The sequences -/

/-- An operand of a 64-bit operation: an immediate, or a composite of its words. -/
def Operand (ν : ℕ → Outcome) (v : Value) (x : BitVec 64) : Prop :=
  v = .imm (.u64 x) ∨ ∃ id, v = .inst id ∧ (ν id).value = halves x

variable {before : Before} {inst : Inst} {ν' : ℕ → Outcome}

/-- The words of an operand.  It is resolved among the instructions before, whose values ν are, and read with those
of ν'. -/
lemma ensures_unpack {x : BitVec 64} (hbefore : env.meaning.Fits ν before)
    (hv : Operand ν v x) (hagree : env.meaning.value ν' v = env.meaning.value ν v) :
    Ensures env.meaning ν' (unpack before v) fun u =>
      Is env ν' u.lo (.u32 (loWord x)) ∧ Is env ν' u.hi (.u32 (hiWord x)) := by
  rw [unpack]
  split
  · rename_i k hk
    have hvalue := value_of_constant hbefore hk
    refine Ensures.pure ?_
    rcases hv with rfl | ⟨id, rfl, hid⟩
    · have hk' : k = .u64 x := Val.scalar.inj (congrArg Outcome.value hvalue).symm
      subst hk'
      exact ⟨is_imm32 _, is_imm32 _⟩
    · -- a composite is not an immediate
      rw [show env.meaning.value ν (.inst id) = ν id from rfl] at hvalue
      rw [hvalue] at hid
      cases hid
  · rename_i hk
    rcases hv with rfl | ⟨id, rfl, hid⟩
    · cases before <;> cases hk
    · have hpair : Is env ν' (.inst id) (words (loWord x) (hiWord x)) := by
        rw [Is, hagree]
        exact hid
      refine (ensures_element hpair true).bind fun lo hlo => ?_
      refine (ensures_element hpair false).bind fun hi hhi => ?_
      exact Ensures.pure ⟨hlo, hhi⟩

/-- The sequence gives the words of a 64-bit value. -/
def Lowers (env : Inputs) (ν : ℕ → Outcome) (sequence : IREmitter Value) (x : BitVec 64) : Prop :=
  Ensures env.meaning ν sequence fun v => env.meaning.value ν v = ⟨halves x, false⟩

lemma lowers_construct {x : BitVec 64} {lo hi : BitVec 32} (ha : Is env ν a (.u32 lo))
    (hb : Is env ν b (.u32 hi)) (hlo : lo = loWord x) (hhi : hi = hiWord x) :
    Lowers env ν (emit .CompositeConstructU32x2 [a, b]) x := by
  subst hlo hhi
  exact ensures_construct ha hb

/-- **Nothing that is undefined is selected.**  The last instructions of a shift choose between the operand, the long
form and the short form, of which each is right where it is chosen. -/
lemma lowers_selection {isLong isZero longLo longHi shortLo shortHi : Value} {u : Unpacked}
    {x r : BitVec 64} {s ll lh sl sh : BitVec 32} (hs : s.toNat < 64)
    (hlong : Is env ν isLong (.u1 (Comparison.eval (s - 32) 0 .SGreaterThanEqual)))
    (hzero : Is env ν isZero (.u1 (Comparison.eval s 0 .IEqual)))
    (hlo : Is env ν u.lo (.u32 (loWord x))) (hhi : Is env ν u.hi (.u32 (hiWord x)))
    (hlongLo : Is env ν longLo (.u32 ll)) (hlongHi : Is env ν longHi (.u32 lh))
    (hshortLo : Is env ν shortLo (.u32 sl)) (hshortHi : Is env ν shortHi (.u32 sh))
    (hx : s.toNat = 0 → x = r)
    (hl : 32 ≤ s.toNat → (s - 32).toNat = s.toNat - 32 → ll = loWord r ∧ lh = hiWord r)
    (hsh : s.toNat < 32 → (32 - s).toNat = 32 - s.toNat → sl = loWord r ∧ sh = hiWord r) :
    Lowers env ν (do
      let nonZeroLo ← emit .SelectU32 [isLong, longLo, shortLo]
      let nonZeroHi ← emit .SelectU32 [isLong, longHi, shortHi]
      let retLo ← emit .SelectU32 [isZero, u.lo, nonZeroLo]
      let retHi ← emit .SelectU32 [isZero, u.hi, nonZeroHi]
      emit .CompositeConstructU32x2 [retLo, retHi]) r := by
  refine (ensures_select hlong hlongLo hshortLo).bind fun nonZeroLo hnonZeroLo => ?_
  refine (ensures_select hlong hlongHi hshortHi).bind fun nonZeroHi hnonZeroHi => ?_
  refine (ensures_select hzero hlo hnonZeroLo).bind fun retLo hretLo => ?_
  refine (ensures_select hzero hhi hnonZeroHi).bind fun retHi hretHi => ?_
  rw [isZero_eq, isLong_eq hs] at hretLo hretHi
  simp only [decide_eq_true_eq] at hretLo hretHi
  rcases shift_cases s with hz | ⟨hz, hge, hinv⟩ | ⟨hz, hlt, hcomplement⟩
  · rw [if_pos hz, hx hz] at hretLo hretHi
    exact lowers_construct hretLo hretHi rfl rfl
  · rw [if_neg hz, if_pos hge] at hretLo hretHi
    exact lowers_construct hretLo hretHi (hl hge hinv).1 (hl hge hinv).2
  · rw [if_neg hz, if_neg (Nat.not_le.2 hlt)] at hretLo hretHi
    exact lowers_construct hretLo hretHi (hsh hlt hcomplement).1 (hsh hlt hcomplement).2

section Sequences

variable {x y : BitVec 64} {s : BitVec 32} (hbefore : env.meaning.Fits ν before)
  (hagree : ∀ v ∈ inst.args, env.meaning.value ν' v = env.meaning.value ν v)

include hbefore hagree

lemma lowers_iadd64 (hargs : inst.args = [a, b]) (ha : Operand ν a x) (hb : Operand ν b y) :
    Lowers env ν' (iadd64To32 before inst) (x + y) := by
  simp only [hargs, mem_cons, not_mem_nil, or_false, forall_eq_or_imp, forall_eq] at hagree
  simp only [iadd64To32, arg, hargs]
  refine (ensures_unpack hbefore ha hagree.1).bind fun a' ⟨halo, hahi⟩ => ?_
  refine (ensures_unpack hbefore hb hagree.2).bind fun b' ⟨hblo, hbhi⟩ => ?_
  refine (ensures_add halo hblo).bind fun retLo hlo => ?_
  refine (ensures_carry hlo).bind fun carries hcarries => ?_
  refine (ensures_select hcarries (is_imm32 1) (is_imm32 0)).bind fun carry hcarry => ?_
  refine (ensures_add hahi hbhi).bind fun sum hsum => ?_
  refine (ensures_add (congrArg Outcome.value hsum) hcarry).bind fun retHi hhi => ?_
  refine lowers_construct (congrArg Outcome.value hlo) (congrArg Outcome.value hhi) (loWord_add x y).symm ?_
  simp only [hiWord_add, decide_eq_true_eq]

lemma lowers_isub64 (hargs : inst.args = [a, b]) (ha : Operand ν a x) (hb : Operand ν b y) :
    Lowers env ν' (isub64To32 before inst) (x - y) := by
  simp only [hargs, mem_cons, not_mem_nil, or_false, forall_eq_or_imp, forall_eq] at hagree
  simp only [isub64To32, arg, hargs]
  refine (ensures_unpack hbefore ha hagree.1).bind fun a' ⟨halo, hahi⟩ => ?_
  refine (ensures_unpack hbefore hb hagree.2).bind fun b' ⟨hblo, hbhi⟩ => ?_
  refine (ensures_sub halo hblo).bind fun retLo hlo => ?_
  refine (ensures_compare .UGreaterThan hlo halo).bind fun underflow hunderflow => ?_
  refine (ensures_select hunderflow (is_imm32 1) (is_imm32 0)).bind fun underflowBit hbit => ?_
  refine (ensures_sub hahi hbhi).bind fun difference hdifference => ?_
  refine (ensures_sub hdifference hbit).bind fun retHi hhi => ?_
  exact lowers_construct hlo hhi (loWord_sub x y).symm (hiWord_sub x y).symm

lemma lowers_ineg64 (hargs : inst.args = [a]) (ha : Operand ν a x) : Lowers env ν' (ineg64To32 before inst) (-x) := by
  simp only [hargs, mem_singleton, forall_eq] at hagree
  simp only [ineg64To32, arg, hargs]
  refine (ensures_unpack hbefore ha hagree).bind fun a' ⟨halo, hahi⟩ => ?_
  refine (ensures_not halo).bind fun notLo hnotLo => ?_
  refine (ensures_not hahi).bind fun notHi hnotHi => ?_
  refine (ensures_add hnotLo (is_imm32 1)).bind fun lo hlo => ?_
  refine (ensures_carry hlo).bind fun carries hcarries => ?_
  refine (ensures_select hcarries (is_imm32 1) (is_imm32 0)).bind fun carry hcarry => ?_
  refine (ensures_add hnotHi hcarry).bind fun hi hhi => ?_
  refine lowers_construct (congrArg Outcome.value hlo) (congrArg Outcome.value hhi) (loWord_neg x).symm ?_
  simp only [hiWord_neg, decide_eq_true_eq]

section

variable (hargs : inst.args = [a, b]) (ha : Operand ν a x) (hb : Is env ν b (.u32 s))
  (hs : s.toNat < 64)
include hargs ha hb hs

lemma lowers_shiftLeftLogical64 : Lowers env ν' (shiftLeftLogical64To32 before inst) (x <<< s.toNat) := by
  simp only [hargs, mem_cons, not_mem_nil, or_false, forall_eq_or_imp, forall_eq] at hagree
  replace hb : Is env ν' b (.u32 s) := by rwa [Is, hagree.2]
  simp only [shiftLeftLogical64To32, arg, hargs]
  refine (ensures_unpack hbefore ha hagree.1).bind fun u ⟨hlo, hhi⟩ => ?_
  refine (ensures_shift rfl hlo hb).bind fun shiftedLo ⟨lo', hshiftedLo, hlo'⟩ => ?_
  refine (ensures_shift rfl hhi hb).bind fun shiftedHi ⟨hi', hshiftedHi, hhi'⟩ => ?_
  refine (ensures_sub hb (is_imm32 32)).bind fun invShift hinv => ?_
  refine (ensures_compare .SGreaterThanEqual hinv (is_imm32 0)).bind fun isLong hlong => ?_
  refine (ensures_compare .IEqual hb (is_imm32 0)).bind fun isZero hzero => ?_
  refine (ensures_shift rfl hlo hinv).bind fun longRetHi ⟨long, hlongHi, hlong'⟩ => ?_
  refine (ensures_sub (is_imm32 32) hb).bind fun shiftComplement hcomplement => ?_
  refine (ensures_extract hlo hcomplement hb).bind fun loExtract ⟨field, hfield, hfield'⟩ => ?_
  refine (ensures_or hshiftedHi hfield).bind fun shortRetHi hshort => ?_
  refine lowers_selection hs hlong hzero hlo hhi (is_imm32 0) hlongHi hshiftedLo hshort ?_ ?_ ?_
  · intro hz
    rw [hz, BitVec.shiftLeft_zero]
  · intro hge hsub
    rw [hlong' (by omega), hsub]
    exact ⟨(loWord_shl_long x hge).symm, (hiWord_shl_long x hge).symm⟩
  · intro hlt hsub
    rw [hlo' hlt, hhi' hlt, hfield' (by omega), hsub]
    exact ⟨(loWord_shl_short x).symm, (hiWord_shl_short x hlt).symm⟩

lemma lowers_shiftRightLogical64 : Lowers env ν' (shiftRightLogical64To32 before inst) (x >>> s.toNat) := by
  simp only [hargs, mem_cons, not_mem_nil, or_false, forall_eq_or_imp, forall_eq] at hagree
  replace hb : Is env ν' b (.u32 s) := by rwa [Is, hagree.2]
  simp only [shiftRightLogical64To32, arg, hargs]
  refine (ensures_unpack hbefore ha hagree.1).bind fun u ⟨hlo, hhi⟩ => ?_
  refine (ensures_shift rfl hlo hb).bind fun shiftedLo ⟨lo', hshiftedLo, hlo'⟩ => ?_
  refine (ensures_shift rfl hhi hb).bind fun shiftedHi ⟨hi', hshiftedHi, hhi'⟩ => ?_
  refine (ensures_sub hb (is_imm32 32)).bind fun invShift hinv => ?_
  refine (ensures_compare .SGreaterThanEqual hinv (is_imm32 0)).bind fun isLong hlong => ?_
  refine (ensures_compare .IEqual hb (is_imm32 0)).bind fun isZero hzero => ?_
  refine (ensures_shift rfl hhi hinv).bind fun longRetLo ⟨long, hlongLo, hlong'⟩ => ?_
  refine (ensures_sub (is_imm32 32) hb).bind fun shiftComplement hcomplement => ?_
  refine (ensures_extract hhi (is_imm32 0) hb).bind fun shortHiExtract ⟨field, hfield, hfield'⟩ => ?_
  refine (ensures_insert hshiftedLo hfield hcomplement hb).bind fun shortRetLo ⟨lo'', hshort, hlo''⟩ => ?_
  refine lowers_selection hs hlong hzero hlo hhi hlongLo (is_imm32 0) hshort hshiftedHi ?_ ?_ ?_
  · intro hz
    rw [hz, BitVec.ushiftRight_zero]
  · intro hge hsub
    rw [hlong' (by omega), hsub]
    exact ⟨(loWord_shr_long x hge).symm, (hiWord_shr_long x hge).symm⟩
  · intro hlt hsub
    rw [hlo'' (by omega), hlo' hlt, hhi' hlt, hfield' (by simp only [toNat_zero32]; omega), hsub]
    exact ⟨(loWord_shr_short x hlt).symm, (hiWord_shr_short x).symm⟩

lemma lowers_shiftRightArithmetic64 : Lowers env ν' (shiftRightArithmetic64To32 before inst) (x.sshiftRight s.toNat) := by
  simp only [hargs, mem_cons, not_mem_nil, or_false, forall_eq_or_imp, forall_eq] at hagree
  replace hb : Is env ν' b (.u32 s) := by rwa [Is, hagree.2]
  simp only [shiftRightArithmetic64To32, arg, hargs]
  refine (ensures_unpack hbefore ha hagree.1).bind fun u ⟨hlo, hhi⟩ => ?_
  refine (ensures_shift rfl hlo hb).bind fun shiftedLo ⟨lo', hshiftedLo, hlo'⟩ => ?_
  refine (ensures_shift rfl hhi hb).bind fun shiftedHi ⟨hi', hshiftedHi, hhi'⟩ => ?_
  refine (ensures_shift rfl hhi (is_imm32 31)).bind fun signExtension ⟨sign, hsign, hsign'⟩ => ?_
  refine (ensures_sub hb (is_imm32 32)).bind fun invShift hinv => ?_
  refine (ensures_compare .SGreaterThanEqual hinv (is_imm32 0)).bind fun isLong hlong => ?_
  refine (ensures_compare .IEqual hb (is_imm32 0)).bind fun isZero hzero => ?_
  refine (ensures_shift rfl hhi hinv).bind fun longRetLo ⟨long, hlongLo, hlong'⟩ => ?_
  refine (ensures_sub (is_imm32 32) hb).bind fun shiftComplement hcomplement => ?_
  refine (ensures_extract hhi (is_imm32 0) hb).bind fun shortHiExtract ⟨field, hfield, hfield'⟩ => ?_
  refine (ensures_insert hshiftedLo hfield hcomplement hb).bind fun shortRetLo ⟨lo'', hshort, hlo''⟩ => ?_
  refine lowers_selection hs hlong hzero hlo hhi hlongLo hsign hshort hshiftedHi ?_ ?_ ?_
  · intro hz
    rw [hz, BitVec.sshiftRight_zero]
  · intro hge hsub
    rw [hlong' (by omega), hsign' (by decide), hsub]
    exact ⟨(loWord_asr_long x hge).symm, (hiWord_asr_long x hge).symm⟩
  · intro hlt hsub
    rw [hlo'' (by omega), hlo' hlt, hhi' hlt, hfield' (by simp only [toNat_zero32]; omega), hsub]
    exact ⟨(loWord_asr_short x hlt).symm, (hiWord_asr_short x).symm⟩

end

end Sequences

/-! ## The names that are put in -/

lemma total (hop : op.isOther = false) : env.meaning.Total op :=
  fun _ _ => ⟨_, (holds_iff hop).2 rfl⟩

variable {fresh N : ℕ}

lemma scoped_op {P : Value → ℕ → Prop} (hop : op.isOther = false) :
    Scoped env.meaning fresh (emit op args) P ↔ (∀ v ∈ args, v.Below fresh) ∧ P (.inst fresh) (fresh + 1) :=
  scoped_emit (total hop)

lemma scoped_unpack {P : Unpacked → ℕ → Prop} (hv : v.Below fresh)
    (hP : ∀ u next, fresh ≤ next → u.lo.Below next → u.hi.Below next → P u next) :
    Scoped env.meaning fresh (unpack before v) P := by
  rw [unpack]
  split
  · rw [scoped_pure]
    exact hP _ _ le_rfl (Value.below_imm _) (Value.below_imm _)
  · simp (disch := decide) only [scoped_bind, scoped_op, scoped_pure, imm32, mem_cons,
      not_mem_nil, or_false, forall_eq_or_imp, forall_eq, Value.below_imm, and_true]
    refine ⟨hv, hv.mono (Nat.le_succ _), hP _ _ ?_ ?_ ?_⟩
    · omega
    · exact Value.below_inst.2 (by omega)
    · exact Value.below_inst.2 (by omega)

section Scopes

variable (ha : a.Below fresh)

include ha

lemma scoped_ineg64 (hargs : inst.args = [a]) :
    Scoped env.meaning fresh (ineg64To32 before inst) fun v next => v.Below next := by
  simp only [ineg64To32, arg, hargs, scoped_bind]
  refine scoped_unpack ha fun a' n _ halo hahi => ?_
  simp (disch := decide) only [scoped_op, imm32, mem_cons, not_mem_nil, or_false,
    forall_eq_or_imp, forall_eq, Value.below_imm, Value.below_inst]
  grind [Value.Below.mono]

variable (hb : b.Below fresh)

include hb

variable (hargs : inst.args = [a, b])

include hargs

lemma scoped_iadd64_isub64 : Scoped env.meaning fresh (iadd64To32 before inst) (fun v next => v.Below next) ∧
    Scoped env.meaning fresh (isub64To32 before inst) fun v next => v.Below next := by
  simp only [iadd64To32, isub64To32, arg, hargs, scoped_bind]
  constructor
  all_goals
    refine scoped_unpack ha fun a' n hn halo hahi => ?_
    refine scoped_unpack (hb.mono hn) fun b' m hm hblo hbhi => ?_
    simp (disch := decide) only [scoped_op, imm32, mem_cons, not_mem_nil, or_false,
      forall_eq_or_imp, forall_eq, Value.below_imm, Value.below_inst]
    grind [Value.Below.mono]

lemma scoped_shifts : Scoped env.meaning fresh (shiftLeftLogical64To32 before inst) (fun v next => v.Below next) ∧
    Scoped env.meaning fresh (shiftRightLogical64To32 before inst) (fun v next => v.Below next) ∧
    Scoped env.meaning fresh (shiftRightArithmetic64To32 before inst) fun v next => v.Below next := by
  simp only [shiftLeftLogical64To32, shiftRightLogical64To32, shiftRightArithmetic64To32, arg, hargs, scoped_bind]
  refine ⟨?_, ?_, ?_⟩
  all_goals
    refine scoped_unpack ha fun u n hn hlo hhi => ?_
    simp (disch := decide) only [scoped_op, imm32, mem_cons, not_mem_nil, or_false,
      forall_eq_or_imp, forall_eq, Value.below_imm, Value.below_inst]
    grind [Value.Below.mono]

end Scopes

/-! ## One visit -/

/-- What is known of an instruction when it is visited: what it gives already are the words of its result. -/
def Ready (env : Inputs) (ν : ℕ → Outcome) (inst : Inst) : Prop :=
  let binary f := ∃ a b x y, inst.args = [a, b] ∧ Operand ν a x ∧ Operand ν b y ∧ ν inst.id = ⟨halves (f x y), false⟩
  let shift f := ∃ a b x s, inst.args = [a, b] ∧ Operand ν a x ∧ Is env ν b (.u32 s) ∧
    s.toNat < 64 ∧ ν inst.id = ⟨halves (f x s.toNat), false⟩
  match inst.code with
  | .op .PackUint2x32 | .op .UnpackUint2x32 =>
      ∃ a, inst.args = [a] ∧ ν inst.id = env.meaning.value ν a
  | .op .IAdd64 => binary (· + ·)
  | .op .ISub64 => binary (· - ·)
  | .op .INeg64 => ∃ a x, inst.args = [a] ∧ Operand ν a x ∧ ν inst.id = ⟨halves (-x), false⟩
  | .op .ShiftLeftLogical64 => shift (· <<< ·)
  | .op .ShiftRightLogical64 => shift (· >>> ·)
  | .op .ShiftRightArithmetic64 => shift BitVec.sshiftRight
  | .op .SharedAtomicExchange64 | .op (.globalAtomic64 _) => False
  | _ => env.meaning.Holds ν inst

lemma value_congr (hv : v.Below N) (hagree : ∀ id < N, ν' id = ν id) :
    env.meaning.value ν' v = env.meaning.value ν v := by
  cases v with
  | imm k => rfl
  | inst id => exact hagree id (hv id rfl)

lemma Operand.congr {x : BitVec 64} (h : Operand ν v x) (hv : v.Below N)
    (hagree : ∀ id < N, ν' id = ν id) : Operand ν' v x := by
  rcases h with rfl | ⟨id, rfl, hid⟩
  · exact .inl rfl
  · exact .inr ⟨id, rfl, by rwa [hagree id (hv id rfl)]⟩

lemma Ready.congr (h : Ready env ν inst) (hb : inst.Below N) (hagree : ∀ id < N, ν' id = ν id) : Ready env ν' inst := by
  have hid := hagree inst.id hb.1
  have hscope : ∀ v ∈ inst.args, v.Below N := fun v hv id hid => hb.2 id (hid ▸ hv)
  rw [Ready] at h ⊢
  split at h
  case h_1 | h_2 =>
      obtain ⟨a, hargs, hvalue⟩ := h
      rw [hargs] at hscope
      exact ⟨a, hargs, by rw [hid, hvalue, value_congr (hscope a (by simp)) hagree]⟩
  case h_3 | h_4 =>
      obtain ⟨a, b, x, y, hargs, ha, hb', hvalue⟩ := h
      rw [hargs] at hscope
      exact ⟨a, b, x, y, hargs, ha.congr (hscope a (by simp)) hagree,
        hb'.congr (hscope b (by simp)) hagree, by rw [hid, hvalue]⟩
  case h_5 =>
      obtain ⟨a, x, hargs, ha, hvalue⟩ := h
      rw [hargs] at hscope
      exact ⟨a, x, hargs, ha.congr (hscope a (by simp)) hagree, by rw [hid, hvalue]⟩
  case h_6 | h_7 | h_8 =>
      obtain ⟨a, b, x, s, hargs, ha, hb', hs, hvalue⟩ := h
      rw [hargs] at hscope
      exact ⟨a, b, x, s, hargs, ha.congr (hscope a (by simp)) hagree,
        by rwa [Is, value_congr (hscope b (by simp)) hagree], hs, by rw [hid, hvalue]⟩
  case h_9 | h_10 => exact h.elim
  case h_11 => exact Meaning.Holds.congr h hb hagree

/-- The six operations that become sequences. -/
def Opcode.isArithmetic64 : Opcode → Bool
  | .IAdd64 | .ISub64 | .INeg64 | .ShiftLeftLogical64 | .ShiftRightLogical64
  | .ShiftRightArithmetic64 => true
  | _ => false

variable {associated : ℕ → Bool}

lemma replacedBy_keeps {sequence : IREmitter Value}
    {r : BitVec 64} (hassociated : associated inst.id = false) (hid : inst.id < fresh)
    (hscoped : Scoped env.meaning fresh sequence fun v next => v.Below next)
    (hlowers : ∀ ν', (∀ id < fresh, ν' id = ν id) → Lowers env ν' sequence r)
    (hvalue : ν inst.id = ⟨halves r, false⟩) :
    ∃ new i' ν', replacedBy associated fresh inst sequence = some (new, i') ∧
      KeepsValue env.meaning fresh ν new i' ν' := by
  obtain ⟨ν', hkeeps⟩ := keeps_of_emitter (ν := ν) hid hscoped fun ν' hagree => by
    rw [hvalue]
    exact hlowers ν' hagree
  refine ⟨_, _, ν', ?_, hkeeps⟩
  rw [replacedBy, hassociated]
  rfl

lemma keeps_nothing {i' : Inst} (hb : i'.Below fresh) (h : env.meaning.Holds ν i') :
    KeepsValue env.meaning fresh ν [] i' ν where
  below := by
    intro j hj
    rw [mem_singleton] at hj
    exact hj ▸ hb
  agree := fun _ _ => rfl
  fits := by
    intro j hj
    rw [mem_singleton] at hj
    exact hj ▸ h

/-- **A visit makes the valuation fit.** -/
theorem lower_keeps (hb : inst.Below fresh)
    (hassociated : ∀ op, inst.code = .op op → op.isArithmetic64 → associated inst.id = false)
    (hbefore : env.meaning.Fits ν before) (h : Ready env ν inst) :
    ∃ new i' ν', lower associated before fresh inst = some (new, i') ∧
      KeepsValue env.meaning fresh ν new i' ν' := by
  have hscope : ∀ v ∈ inst.args, v.Below fresh := fun v hv id hid => hb.2 id (hid ▸ hv)
  have hvalues : ∀ ν', (∀ id < fresh, ν' id = ν id) → ∀ v ∈ inst.args, env.meaning.value ν' v = env.meaning.value ν v :=
    fun ν' hagree v hv => value_congr (hscope v hv) hagree
  rw [Ready] at h
  split at h
  case h_1 hcode | h_2 hcode =>
      -- a change of representation becomes a copy
      obtain ⟨a, hargs, hvalue⟩ := h
      refine ⟨[], { inst with code := .identity }, ν, by rw [lower, hcode]; rfl, keeps_nothing hb ?_⟩
      intro v hv
      rw [hargs] at hv
      cases hv
      exact hvalue
  case h_3 hcode =>
      obtain ⟨a, b, x, y, hargs, ha, hb', hvalue⟩ := h
      rw [hargs] at hscope
      rw [lower, hcode]
      exact replacedBy_keeps (hassociated _ hcode rfl) hb.1
        (scoped_iadd64_isub64 (hscope a (by simp)) (hscope b (by simp)) hargs).1
        (fun ν' hagree => lowers_iadd64 hbefore (hvalues ν' hagree) hargs ha hb') hvalue
  case h_4 hcode =>
      obtain ⟨a, b, x, y, hargs, ha, hb', hvalue⟩ := h
      rw [hargs] at hscope
      rw [lower, hcode]
      exact replacedBy_keeps (hassociated _ hcode rfl) hb.1
        (scoped_iadd64_isub64 (hscope a (by simp)) (hscope b (by simp)) hargs).2
        (fun ν' hagree => lowers_isub64 hbefore (hvalues ν' hagree) hargs ha hb') hvalue
  case h_5 hcode =>
      obtain ⟨a, x, hargs, ha, hvalue⟩ := h
      rw [hargs] at hscope
      rw [lower, hcode]
      exact replacedBy_keeps (hassociated _ hcode rfl) hb.1 (scoped_ineg64 (hscope a (by simp)) hargs)
        (fun ν' hagree => lowers_ineg64 hbefore (hvalues ν' hagree) hargs ha) hvalue
  case h_6 hcode =>
      obtain ⟨a, b, x, s, hargs, ha, hb', hs, hvalue⟩ := h
      rw [hargs] at hscope
      rw [lower, hcode]
      exact replacedBy_keeps (hassociated _ hcode rfl) hb.1
        (scoped_shifts (hscope a (by simp)) (hscope b (by simp)) hargs).1
        (fun ν' hagree =>
          lowers_shiftLeftLogical64 hbefore (hvalues ν' hagree) hargs ha hb' hs) hvalue
  case h_7 hcode =>
      obtain ⟨a, b, x, s, hargs, ha, hb', hs, hvalue⟩ := h
      rw [hargs] at hscope
      rw [lower, hcode]
      exact replacedBy_keeps (hassociated _ hcode rfl) hb.1
        (scoped_shifts (hscope a (by simp)) (hscope b (by simp)) hargs).2.1
        (fun ν' hagree =>
          lowers_shiftRightLogical64 hbefore (hvalues ν' hagree) hargs ha hb' hs) hvalue
  case h_8 hcode =>
      obtain ⟨a, b, x, s, hargs, ha, hb', hs, hvalue⟩ := h
      rw [hargs] at hscope
      rw [lower, hcode]
      exact replacedBy_keeps (hassociated _ hcode rfl) hb.1
        (scoped_shifts (hscope a (by simp)) (hscope b (by simp)) hargs).2.2
        (fun ν' hagree =>
          lowers_shiftRightArithmetic64 hbefore (hvalues ν' hagree) hargs ha hb' hs) hvalue
  case h_9 | h_10 => exact h.elim
  case h_11 =>
      refine ⟨[], inst, ν, ?_, keeps_nothing hb h⟩
      rw [lower]
      split <;> simp_all

/-! ## A block -/

def Opcode.gives64 (op : Opcode) : Bool := op.isArithmetic64 || op == .PackUint2x32

def wide (block : List Inst) (id : ℕ) : Bool :=
  block.any fun i => i.id == id && match i.code with
    | .op op => op.gives64
    | _ => false

def IsWide (block : List Inst) (v : Value) : Prop :=
  (∃ x, v = .imm (.u64 x)) ∨ ∃ id, v = .inst id ∧ wide block id = true

/-- An operand that is not the result of a 64-bit operation. -/
def IsNarrow (block : List Inst) (v : Value) : Prop := ∀ id, v = .inst id → wide block id = false

/-- The types of an instruction's operands.  A 64-bit value is an operand of 64-bit operations only; shift amounts are
from 0 to 63; what is packed is a composite of two words. -/
def WellTyped (env : Inputs) (block : List Inst) (ν : ℕ → Outcome) (inst : Inst) : Prop :=
  match inst.code with
  | .op .PackUint2x32 => ∃ a lo hi, inst.args = [a] ∧ IsNarrow block a ∧ env.meaning.value ν a = ⟨words lo hi, false⟩
  | .op .UnpackUint2x32 => ∃ id, inst.args = [.inst id] ∧ wide block id = true
  | .op .IAdd64 | .op .ISub64 => ∃ a b, inst.args = [a, b] ∧ IsWide block a ∧ IsWide block b
  | .op .INeg64 => ∃ a, inst.args = [a] ∧ IsWide block a
  | .op .ShiftLeftLogical64 | .op .ShiftRightLogical64 | .op .ShiftRightArithmetic64 =>
      ∃ a b s, inst.args = [a, b] ∧ IsWide block a ∧ IsNarrow block b ∧ Is env ν b (.u32 s) ∧ s.toNat < 64
  | .op .SharedAtomicExchange64 | .op (.globalAtomic64 _) => False
  | _ => ∀ v ∈ inst.args, IsNarrow block v

/-- **A chain of 64-bit operations in a block**, among other instructions that do not know of 64-bit values.  Names are
given once, and 64-bit operations give 64-bit values. -/
structure Chain (env : Inputs) (block : List Inst) (ν : ℕ → Outcome) : Prop where
  names : (block.map (·.id)).Nodup
  typed : ∀ i ∈ block, WellTyped env block ν i
  fits : env.meaning.Fits ν block
  values : ∀ id, wide block id = true → ∃ x, ν id = ⟨.u64 x, false⟩

/-- What the instructions give after the pass. -/
def lowered (block : List Inst) (ν : ℕ → Outcome) (id : ℕ) : Outcome :=
  match wide block id, (ν id).value with
  | true, .u64 x => ⟨halves x, false⟩
  | _, _ => ν id

section Chain

variable {block : List Inst}

lemma lowered_of_wide {id : ℕ} {x : BitVec 64} (hwide : wide block id = true)
    (hx : ν id = ⟨.u64 x, false⟩) : lowered block ν id = ⟨halves x, false⟩ := by
  rw [lowered, hwide, hx]

lemma lowered_of_narrow {id : ℕ} (h : wide block id = false) : lowered block ν id = ν id := by
  rw [lowered, h]

lemma value_lowered {v : Value} (h : IsNarrow block v) :
    env.meaning.value (lowered block ν) v = env.meaning.value ν v := by
  cases v with
  | imm k => rfl
  | inst id => exact lowered_of_narrow (h id rfl)

lemma Chain.operand (h : Chain env block ν) (hv : IsWide block a) :
    ∃ x, env.meaning.value ν a = ⟨.u64 x, false⟩ ∧ Operand (lowered block ν) a x := by
  rcases hv with ⟨x, rfl⟩ | ⟨id, rfl, hid⟩
  · exact ⟨x, rfl, .inl rfl⟩
  · obtain ⟨x, hx⟩ := h.values id hid
    exact ⟨x, hx, .inr ⟨id, rfl, congrArg Outcome.value (lowered_of_wide hid hx)⟩⟩

lemma Chain.wide_iff (h : Chain env block ν) (hi : inst ∈ block) :
    wide block inst.id = true ↔ ∃ op, inst.code = .op op ∧ op.gives64 = true := by
  rw [wide, any_eq_true]
  constructor
  · rintro ⟨j, hj, hop⟩
    rw [Bool.and_eq_true, beq_iff_eq] at hop
    obtain rfl : j = inst := inj_on_of_nodup_map h.names hj hi hop.1
    cases hcode : j.code with
    | op o => exact ⟨o, rfl, by simpa [hcode] using hop.2⟩
    | void | identity => simp [hcode] at hop
  · rintro ⟨op, hcode, hop⟩
    exact ⟨inst, hi, by simp [hcode, hop]⟩

section

variable (h : Chain env block ν) (hi : inst ∈ block) (hcode : inst.code = .op op)
  (hgives : op.gives64 = true) (hother : op.isOther = false)
include h hi hcode hgives hother

lemma Chain.result {x : BitVec 64} (hvalue : env.value inst.id op (inst.args.map (env.meaning.value ν)) = .u64 x) :
    lowered block ν inst.id = ⟨halves x, false⟩ := by
  have hwide := (h.wide_iff hi).2 ⟨op, hcode, hgives⟩
  have hholds := h.fits inst hi
  rw [Meaning.Holds, hcode] at hholds
  have heq := (holds_iff hother).1 hholds
  obtain ⟨y, hy⟩ := h.values inst.id hwide
  have hyx : y = x := by
    have hval := congrArg Outcome.value (hy.symm.trans heq)
    rw [hvalue] at hval
    exact Scalar.u64.inj (Val.scalar.inj hval)
  exact lowered_of_wide hwide (hyx ▸ hy)

lemma Chain.ready_binary {f : BitVec 64 → BitVec 64 → BitVec 64}
    (hop : ∀ id args, env.value id op args = binary64 f (args.map (·.value)))
    (htyped : ∃ a b, inst.args = [a, b] ∧ IsWide block a ∧ IsWide block b) :
    ∃ a b x y, inst.args = [a, b] ∧ Operand (lowered block ν) a x ∧
      Operand (lowered block ν) b y ∧ lowered block ν inst.id = ⟨halves (f x y), false⟩ := by
  obtain ⟨a, b, hargs, ha, hb⟩ := htyped
  obtain ⟨x, hx, ha'⟩ := h.operand ha
  obtain ⟨y, hy, hb'⟩ := h.operand hb
  refine ⟨a, b, x, y, hargs, ha', hb', h.result hi hcode hgives hother ?_⟩
  simp only [hop, hargs, map, hx, hy, binary64]

lemma Chain.ready_shift {f : BitVec 64 → ℕ → BitVec 64}
    (hop : ∀ id args, env.value id op args = shift64 f (env.undef64 id) (args.map (·.value)))
    (htyped : ∃ a b s, inst.args = [a, b] ∧ IsWide block a ∧ IsNarrow block b ∧ Is env ν b (.u32 s) ∧ s.toNat < 64) :
    ∃ a b x s, inst.args = [a, b] ∧ Operand (lowered block ν) a x ∧
      Is env (lowered block ν) b (.u32 s) ∧ s.toNat < 64 ∧ lowered block ν inst.id = ⟨halves (f x s.toNat), false⟩ := by
  obtain ⟨a, b, s, hargs, ha, hnarrow, hb, hs⟩ := htyped
  obtain ⟨x, hx, ha'⟩ := h.operand ha
  refine ⟨a, b, x, s, hargs, ha', by rwa [Is, value_lowered hnarrow], hs, h.result hi hcode hgives hother ?_⟩
  rw [Is] at hb
  simp only [hop, hargs, map, hx, hb, shift64, if_pos hs]

end

/-- Another instruction gives the same. -/
lemma Chain.holds_of_narrow (h : Chain env block ν) (hi : inst ∈ block)
    (hid : wide block inst.id = false) (htyped : ∀ v ∈ inst.args, IsNarrow block v) :
    env.meaning.Holds (lowered block ν) inst := by
  have hholds := h.fits inst hi
  have hargs : ∀ v ∈ inst.args, env.meaning.value (lowered block ν) v = env.meaning.value ν v :=
    fun v hv => value_lowered (htyped v hv)
  cases hcode : inst.code with
  | void => simp only [Meaning.Holds, hcode]
  | identity =>
    simp only [Meaning.Holds, hcode] at hholds ⊢
    intro v hv
    rw [lowered_of_narrow hid, hargs v (mem_of_mem_head? hv)]
    exact hholds v hv
  | op o =>
    simp only [Meaning.Holds, hcode] at hholds ⊢
    rw [lowered_of_narrow hid, map_congr_left hargs]
    exact hholds

/-- **The instructions of a chain are ready to be visited**, with the words of their results. -/
theorem Chain.ready (h : Chain env block ν) (hi : inst ∈ block) : Ready env (lowered block ν) inst := by
  have htyped := h.typed inst hi
  have hwide := h.wide_iff hi
  rw [Ready]
  rw [WellTyped] at htyped
  split
  case h_1 hcode =>
      rw [hcode] at htyped
      obtain ⟨a, lo, hi', hargs, hnarrow, hvalue⟩ := htyped
      refine ⟨a, hargs, ?_⟩
      rw [value_lowered hnarrow, hvalue, ← halves_append hi' lo]
      exact h.result hi hcode rfl rfl (by
        simp only [Inputs.value, hargs, map, hvalue, words, packUint2x32])
  case h_2 hcode =>
      rw [hcode] at htyped
      obtain ⟨id, hargs, hid⟩ := htyped
      obtain ⟨x, hx⟩ := h.values id hid
      have hnarrow : wide block inst.id = false := by
        rw [Bool.eq_false_iff, Ne, hwide]
        rintro ⟨op, hop, hgives⟩
        rw [hcode] at hop
        cases hop
        cases hgives
      have hholds := h.fits inst hi
      rw [Meaning.Holds, hcode] at hholds
      refine ⟨.inst id, hargs, ?_⟩
      rw [lowered_of_narrow hnarrow, (holds_iff rfl).1 hholds]
      change _ = lowered block ν id
      rw [lowered_of_wide hid hx]
      simp only [Inputs.value, hargs, map, Meaning.value, hx, unpackUint2x32, Opcode.carry]
  case h_3 hcode =>
      rw [hcode] at htyped
      exact h.ready_binary hi hcode rfl rfl (fun _ _ => rfl) htyped
  case h_4 hcode =>
      rw [hcode] at htyped
      exact h.ready_binary hi hcode rfl rfl (fun _ _ => rfl) htyped
  case h_5 hcode =>
      rw [hcode] at htyped
      obtain ⟨a, hargs, ha⟩ := htyped
      obtain ⟨x, hx, ha'⟩ := h.operand ha
      refine ⟨a, x, hargs, ha', h.result hi hcode rfl rfl ?_⟩
      simp only [Inputs.value, hargs, map, hx, unary64]
  case h_6 hcode =>
      rw [hcode] at htyped
      exact h.ready_shift hi hcode rfl rfl (fun _ _ => rfl) htyped
  case h_7 hcode =>
      rw [hcode] at htyped
      exact h.ready_shift hi hcode rfl rfl (fun _ _ => rfl) htyped
  case h_8 hcode =>
      rw [hcode] at htyped
      exact h.ready_shift hi hcode rfl rfl (fun _ _ => rfl) htyped
  case h_9 hcode | h_10 hcode =>
      rw [hcode] at htyped
      exact htyped
  case h_11 =>
      have hargs : ∀ v ∈ inst.args, IsNarrow block v := by
        split at htyped <;> first | exact htyped | simp_all
      refine h.holds_of_narrow hi ?_ hargs
      rw [Bool.eq_false_iff, Ne, hwide]
      rintro ⟨op, hop, hgives⟩
      cases op <;> contradiction

/-- **The lowering of 64-bit integers is exact.**  In a block with any chain of 64-bit operations whose flags are not
read, whatever the inputs leave undefined, the pass gives a block in which each 64-bit operation gives the composite of
the low and the high word of its 64-bit result, and everything else what it gave. -/
theorem lowerInt64ToInt32_exact (associated : ℕ → Bool) (fresh : ℕ) (h : Chain env block ν)
    (hbelow : ∀ i ∈ block, i.Below fresh)
    (hassociated : ∀ i ∈ block, ∀ op, i.code = .op op → op.isArithmetic64 → associated i.id = false) :
    ∃ l ν', lowerInt64ToInt32 associated block fresh = some l ∧ env.meaning.Fits ν' l ∧
      (∀ id x, wide block id = true → (ν id).value = .u64 x →
        (ν' id).value = .composite [.u32 (x.setWidth 32), .u32 ((x >>> 32).setWidth 32)]) ∧
      ∀ id < fresh, wide block id = false → ν' id = ν id := by
  have hlt : ∀ id, wide block id = true → id < fresh := by
    intro id hid
    obtain ⟨i, hi, hop⟩ := any_eq_true.1 hid
    rw [Bool.and_eq_true, beq_iff_eq] at hop
    exact hop.1 ▸ (hbelow i hi).1
  obtain ⟨l, ν', hl, hagree, hfits⟩ : ∃ l ν', walk (lower associated) block [] fresh = some l ∧
      (∀ id < fresh, ν' id = lowered block ν id) ∧ env.meaning.Fits ν' l := by
    refine walk_establishes (fun ν i => Ready env ν i ∧
      ∀ op, i.code = .op op → op.isArithmetic64 → associated i.id = false) ?_ ?_ ?_ ?_ ?_
    · rintro N i ν ν' ⟨hready, hassoc⟩ hb hagree
      exact ⟨hready.congr hb hagree, hassoc⟩
    · rintro before fresh i ν hb hbefore ⟨hready, hassoc⟩
      exact lower_keeps (hb i mem_cons_self) hassoc hbefore hready
    · simpa using hbelow
    · intro i hi
      cases hi
    · exact fun i hi => ⟨h.ready hi, hassociated i hi⟩
  refine ⟨l, ν', hl, hfits, fun id x hid hx => ?_, fun id hid hnarrow => ?_⟩
  · rw [hagree id (hlt id hid), lowered, hid, hx]
    rfl
  · rw [hagree id hid, lowered_of_narrow hnarrow]

end Chain

/-- Inputs where what is undefined is all ones, and other opcodes give 33. -/
def demoInputs : Inputs := ⟨fun _ => -1, fun _ => -1, fun _ _ _ r => r = ⟨.u32 33, false⟩⟩

/-- `(0xFFFFFFFF + 2) << 33`, negated. -/
def demoBlock : List Inst :=
  [⟨0, .op (.other 0), []⟩,
    ⟨1, .op .IAdd64, [.imm (.u64 0xFFFFFFFF), .imm (.u64 2)]⟩,
    ⟨2, .op .ShiftLeftLogical64, [.inst 1, .inst 0]⟩,
    ⟨3, .op .INeg64, [.inst 2]⟩,
    ⟨4, .op .UnpackUint2x32, [.inst 3]⟩]

def demoValues : ℕ → Outcome
  | 0 => ⟨.u32 33, false⟩
  | 1 => ⟨.u64 0x100000001, false⟩
  | 2 => ⟨.u64 0x200000000, false⟩
  | 3 => ⟨.u64 0xFFFFFFFE00000000, false⟩
  | _ => ⟨halves 0xFFFFFFFE00000000, false⟩

lemma demo_chain : Chain demoInputs demoBlock demoValues where
  names := by decide
  typed := by
    intro i hi
    simp only [demoBlock, mem_cons, not_mem_nil, or_false] at hi
    rcases hi with rfl | rfl | rfl | rfl | rfl
    · simp [WellTyped]
    · exact ⟨_, _, rfl, .inl ⟨_, rfl⟩, .inl ⟨_, rfl⟩⟩
    · exact ⟨_, _, 33, rfl, .inr ⟨1, rfl, rfl⟩, fun id hid => by cases hid; rfl, rfl, by decide⟩
    · exact ⟨_, rfl, .inr ⟨2, rfl, rfl⟩⟩
    · exact ⟨3, rfl, rfl⟩
  fits := by
    intro i hi
    simp only [demoBlock, mem_cons, not_mem_nil, or_false] at hi
    rcases hi with rfl | rfl | rfl | rfl | rfl <;> rfl
  values := by
    intro id hid
    match id with
    | 1 | 2 | 3 => exact ⟨_, rfl⟩
    | 0 => cases hid
    | n + 4 => simp [wide, demoBlock, Opcode.gives64, Opcode.isArithmetic64] at hid

theorem lowerInt64ToInt32_exact_demo : ∃ l ν',
    lowerInt64ToInt32 (fun _ => false) demoBlock 5 = some l ∧ demoInputs.meaning.Fits ν' l ∧
      (ν' 1).value = .composite [.u32 1, .u32 1] ∧
      (ν' 3).value = .composite [.u32 0, .u32 0xFFFFFFFE] := by
  obtain ⟨l, ν', hl, hfits, hwords, -⟩ := lowerInt64ToInt32_exact (fun _ => false) 5 demo_chain
    (by simp [demoBlock, Inst.Below]) (fun _ _ _ _ _ => rfl)
  exact ⟨l, ν', hl, hfits, hwords 1 _ rfl rfl, hwords 3 _ rfl rfl⟩

end Voltemu.Shader.LowerInt64
