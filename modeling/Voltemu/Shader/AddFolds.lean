import Voltemu.Shader.FoldLemmas

/-!
# The folds of commutative operations

`FoldCommutative`, with the reassociation of immediates, and `FoldAdd` with the two XMAD patterns.

* `Commutative` — an operation of the IR is a commutative and associative function of one immediate type;
* `foldCommutative_keeps` — every rewriting of `FoldCommutative` keeps the value;
* `foldAdd_keeps`, `foldXmad_keeps`, `foldLogical_keeps`.
-/

namespace Voltemu.Shader

open Lib Function List Option Nat

variable {env : Inputs} {ν : ℕ → Val} {before : Before} {fresh : ℕ} {inst : Inst}

/-- **An opcode is a commutative and associative operation on an immediate type.** -/
structure Commutative {T : Type} (t : ImmediateType T) (f : T → T → T) (op : Opcode) : Prop where
  get_imm : ∀ x, t.get (t.imm x) = some x
  comm : ∀ a b, f a b = f b a
  assoc : ∀ a b c, f (f a b) c = f a (f b c)
  holds : ∀ (env : Inputs) id args v, env.holds id op args v ↔
    ∃ a b, args = [.scalar (t.imm a), .scalar (t.imm b)] ∧ v = .scalar (t.imm (f a b))

lemma commutative_iadd32 : Commutative immU32 (· + ·) .IAdd32 :=
  ⟨fun _ => rfl, BitVec.add_comm, BitVec.add_assoc, fun _ _ _ _ => Iff.rfl⟩

lemma commutative_iadd64 : Commutative immU64 (· + ·) .IAdd64 :=
  ⟨fun _ => rfl, BitVec.add_comm, BitVec.add_assoc, fun _ _ _ _ => Iff.rfl⟩

lemma commutative_logicalAnd : Commutative immU1 (· && ·) .LogicalAnd :=
  ⟨fun _ => rfl, Bool.and_comm, Bool.and_assoc, fun _ _ _ _ => Iff.rfl⟩

lemma commutative_logicalOr : Commutative immU1 (· || ·) .LogicalOr :=
  ⟨fun _ => rfl, Bool.or_comm, Bool.or_assoc, fun _ _ _ _ => Iff.rfl⟩

section Commutative

variable {T : Type} {t : ImmediateType T} {f : T → T → T} {op : Opcode}

section

variable (hf : Commutative t f op)
include hf

lemma Commutative.values {i : Inst} (hcode : i.code = .op op) (h : env.meaning.Holds ν i) :
    ∃ a b, i.args = [arg i 0, arg i 1] ∧ env.meaning.value ν (arg i 0) = .scalar (t.imm a) ∧
      env.meaning.value ν (arg i 1) = .scalar (t.imm b) ∧ ν i.id = .scalar (t.imm (f a b)) := by
  rw [Meaning.Holds, hcode] at h
  obtain ⟨a, b, hargs, hv⟩ := (hf.holds env _ _ _).1 h
  obtain ⟨hlist, h0, h1⟩ := args_two hargs
  exact ⟨a, b, hlist, h0, h1, hv⟩

/-- The operation with other operands. -/
lemma Commutative.holds_of_values (hcode : inst.code = .op op)
    {u v : Value} {a b : T} (hu : env.meaning.value ν u = .scalar (t.imm a))
    (hv : env.meaning.value ν v = .scalar (t.imm b)) (hid : ν inst.id = .scalar (t.imm (f a b))) :
    env.meaning.Holds ν { inst with args := [u, v] } := by
  rw [Meaning.Holds, hcode]
  refine (hf.holds env _ _ _).2 ⟨a, b, ?_, hid⟩
  rw [map_cons, map_cons, map_nil, hu, hv]

lemma Commutative.get_constant (h : env.meaning.Fits ν before)
    {v : Value} {k : Scalar} {a : T} (hk : constant before v = some k)
    (hv : env.meaning.value ν v = .scalar (t.imm a)) : t.get k = some a ∧ k = t.imm a := by
  rw [value_of_constant h hk] at hv
  have hka : k = t.imm a := by simpa [Inputs.meaning] using hv
  exact ⟨by rw [hka, hf.get_imm], hka⟩

lemma Commutative.sameOperation_values (hknows : Knows env ν before fresh)
    (hcode : inst.code = .op op) {v x : Value} {k : Scalar}
    (h : sameOperation before inst v = some (x, k)) :
    ∃ a b, t.get k = some b ∧ env.meaning.value ν x = .scalar (t.imm a) ∧
      env.meaning.value ν v = .scalar (t.imm (f a b)) ∧ Below fresh x := by
  unfold sameOperation at h
  obtain ⟨other, hsource, h⟩ := bind_eq_some_iff.1 h
  split at h
  · rename_i hsame
    obtain ⟨k', hk', h⟩ := bind_eq_some_iff.1 h
    cases h
    obtain ⟨hholds, hvalue⟩ := holds_of_source hknows.fits hsource
    obtain ⟨a, b, -, h0, h1, hid⟩ := hf.values (hsame.trans hcode) hholds
    obtain ⟨hget, -⟩ := hf.get_constant hknows.fits hk' h1
    exact ⟨a, b, hget, h0, hvalue.trans hid, below_arg (below_source hknows hsource) 0⟩
  · cases h

end

lemma below_operands {u v : Value} (hb : inst.Below fresh) (hu : Below fresh u) (hv : Below fresh v) :
    Inst.Below fresh { inst with args := [u, v] } := by
  refine ⟨hb.1, fun id hid => ?_⟩
  rcases mem_cons.1 hid with h | h
  · exact hu id h.symm
  · exact hv id (mem_singleton.1 h).symm

/-- **`FoldCommutative` keeps the value of the instruction.** -/
theorem foldCommutative_keeps (hf : Commutative t f op) (hknows : Knows env ν before fresh)
    (hb : inst.Below fresh) (hcode : inst.code = .op op) (hholds : env.meaning.Holds ν inst) :
    ∃ goOn inst', foldCommutative t f before inst = some (goOn, inst') ∧ inst'.id = inst.id ∧
      inst'.Below fresh ∧ env.meaning.Holds ν inst' ∧ (goOn = true → inst'.code = .op op) := by
  obtain ⟨a, b, -, h0, h1, hid⟩ := hf.values hcode hholds
  have hb0 := below_arg hb 0
  have hb1 := below_arg hb 1
  unfold foldCommutative
  dsimp only
  cases hk0 : constant before (arg inst 0) with
  | some k0 =>
    obtain ⟨hget0, rfl⟩ := hf.get_constant hknows.fits hk0 h0
    cases hk1 : constant before (arg inst 1) with
    | some k1 =>
      obtain ⟨hget1, rfl⟩ := hf.get_constant hknows.fits hk1 h1
      refine ⟨false, replaceUsesWith inst (.imm (t.imm (f a b))), ?_, rfl,
        below_replaceUsesWith hb.1 (below_imm _), holds_replaceUsesWith hid.symm, nofun⟩
      simp [hget0, hget1]
    | none =>
      dsimp only
      cases hsame : sameOperation before inst (arg inst 1) with
      | some r =>
        obtain ⟨x, k⟩ := r
        obtain ⟨c, d, hget, hx, hv, hbx⟩ := hf.sameOperation_values hknows hcode hsame
        have hcd : b = f c d := by
          have hsome := congrArg t.get (Val.scalar.inj (h1.symm.trans hv))
          rwa [hf.get_imm, hf.get_imm, Option.some.injEq] at hsome
        -- the immediates are combined
        have hvalue : f a b = f c (f a d) := by
          rw [hcd, ← hf.assoc, hf.comm a c, hf.assoc]
        refine ⟨true, { inst with args := [x, .imm (t.imm (f a d))] }, ?_, rfl, below_operands hb hbx (below_imm _),
          hf.holds_of_values hcode hx rfl (hvalue ▸ hid), fun _ => hcode⟩
        simp [hget0, hget]
      | none =>
        exact ⟨true, { inst with args := [arg inst 1, arg inst 0] }, rfl, rfl, below_operands hb hb1 hb0,
          hf.holds_of_values hcode h1 h0 (hf.comm a b ▸ hid), fun _ => hcode⟩
  | none =>
    cases hk1 : constant before (arg inst 1) with
    | some k1 =>
      obtain ⟨hget1, rfl⟩ := hf.get_constant hknows.fits hk1 h1
      dsimp only
      cases hsame : sameOperation before inst (arg inst 0) with
      | some r =>
        obtain ⟨x, k⟩ := r
        obtain ⟨c, d, hget, hx, hv, hbx⟩ := hf.sameOperation_values hknows hcode hsame
        have hcd : a = f c d := by
          have hsome := congrArg t.get (Val.scalar.inj (h0.symm.trans hv))
          rwa [hf.get_imm, hf.get_imm, Option.some.injEq] at hsome
        have hvalue : f a b = f c (f b d) := by
          rw [hcd, hf.assoc, hf.comm d b]
        refine ⟨true, { inst with args := [x, .imm (t.imm (f b d))] }, ?_, rfl, below_operands hb hbx (below_imm _),
          hf.holds_of_values hcode hx rfl (hvalue ▸ hid), fun _ => hcode⟩
        simp [hget1, hget]
      | none => exact ⟨true, inst, rfl, rfl, hb, hholds, fun _ => hcode⟩
    | none => exact ⟨true, inst, rfl, rfl, hb, hholds, fun _ => hcode⟩

/-- `FoldAdd`, given that what follows the check for zero keeps the value. -/
theorem foldAdd_keeps [DecidableEq T] {zero : T} {xmad : Inst → List Inst × Inst}
    (hf : Commutative t f op) (hzero : ∀ a, f a zero = a) (hknows : Knows env ν before fresh)
    (hxmad : ∀ i : Inst, i.Below fresh → i.code = .op op → env.meaning.Holds ν i → Keeps env ν fresh (some (xmad i)))
    (hb : inst.Below fresh) (hcode : inst.code = .op op) (hholds : env.meaning.Holds ν inst)
    (associated : Bool) :
    Keeps env ν fresh (foldAdd t zero f xmad associated before inst) := by
  cases associated with
  | true => exact keeps_changed hb hholds
  | false =>
    obtain ⟨goOn, inst', heq, hid', hb', hholds', hcode'⟩ :=
      foldCommutative_keeps hf hknows hb hcode hholds
    simp only [foldAdd, Bool.false_eq_true, if_false, heq, bind_eq_bind, bind_some]
    cases goOn with
    | false => exact keeps_changed hb' hholds'
    | true =>
      have hcode' := hcode' rfl
      rw [if_pos rfl]
      cases hk : constant before (arg inst' 1) with
      | none => exact hxmad inst' hb' hcode' hholds'
      | some k =>
        obtain ⟨a, b, -, h0, h1, hvalue⟩ := hf.values hcode' hholds'
        obtain ⟨hget, -⟩ := hf.get_constant hknows.fits hk h1
        simp only [hget, bind_some]
        split
        · rename_i hb0
          subst hb0
          rw [hzero] at hvalue
          exact keeps_replaced hb'.1 (below_arg hb' 0) (h0.trans hvalue.symm)
        · exact hxmad inst' hb' hcode' hholds'

/-- `FoldLogicalAnd` and `FoldLogicalOr`. -/
theorem foldLogical_keeps {g : Bool → Bool → Bool} {neutral : Bool} (hf : Commutative immU1 g op)
    (hneutral : ∀ a, g a neutral = a) (habsorb : ∀ a, g a (!neutral) = !neutral)
    (hknows : Knows env ν before fresh) (hb : inst.Below fresh) (hcode : inst.code = .op op)
    (hholds : env.meaning.Holds ν inst) :
    Keeps env ν fresh (foldLogical g neutral before inst) := by
  obtain ⟨goOn, inst', heq, hid', hb', hholds', hcode'⟩ :=
    foldCommutative_keeps hf hknows hb hcode hholds
  unfold foldLogical
  rw [heq]
  simp only [bind_eq_bind, bind_some]
  cases goOn with
  | false => exact keeps_changed hb' hholds'
  | true =>
    rw [if_pos rfl]
    cases hk : constant before (arg inst' 1) with
    | none => exact keeps_changed hb' hholds'
    | some k =>
      obtain ⟨a, b, -, h0, h1, hvalue⟩ := hf.values (hcode' rfl) hholds'
      obtain ⟨hget, -⟩ := hf.get_constant hknows.fits hk h1
      simp only [hget, bind_some]
      by_cases hbn : b = neutral
      · subst hbn
        rw [hneutral] at hvalue
        rw [if_pos rfl]
        exact keeps_replaced hb'.1 (below_arg hb' 0) (h0.trans hvalue.symm)
      · have hb : b = !neutral := Bool.eq_not_of_ne hbn
        rw [hb, habsorb] at hvalue
        rw [if_neg hbn]
        exact keeps_constant hb'.1 hvalue

end Commutative

section Xmad

lemma u32_inj {a b : BitVec 32} (h : Val.u32 a = Val.u32 b) : a = b :=
  Scalar.u32.inj (Val.scalar.inj h)

variable {v : Value}

variable {f : BitVec 32 → BitVec 32 → BitVec 32} {op : Opcode}

/-- An operand that is a total operation on two values. -/
lemma value_instOf_binary (hop : ∀ (env : Inputs) id args v, env.holds id op args v ↔ Binary32 f args v)
    (hknows : Knows env ν before fresh) {i : Inst} (h : instOf before op v = some i) :
    ∃ a b, env.meaning.value ν (arg i 0) = .u32 a ∧ env.meaning.value ν (arg i 1) = .u32 b ∧
      env.meaning.value ν v = .u32 (f a b) := by
  obtain ⟨-, -, hvalue, hholds⟩ := holds_of_instOf hknows h
  obtain ⟨a, b, hargs, hid⟩ := (hop env _ _ _).1 hholds
  obtain ⟨-, h0, h1⟩ := args_two hargs
  exact ⟨a, b, h0, h1, hvalue.trans hid⟩

section

variable (hknows : Knows env ν before fresh)
include hknows

lemma below_instOf {op : Opcode} {i : Inst} (h : instOf before op v = some i) (k : ℕ) : Below fresh (arg i k) :=
  below_arg (holds_of_instOf hknows h).1 k

lemma value_extract16 {offset : ℕ} (ho : offset ≤ 16)
    {v w : Value} (h : extract16 before offset v = some w) :
    ∃ x, env.meaning.value ν w = .u32 x ∧ env.meaning.value ν v = .u32 (extractUnsigned x offset 16) ∧ Below fresh w := by
  unfold extract16 at h
  obtain ⟨i, hi, h⟩ := bind_eq_some_iff.1 h
  split at h
  · rename_i hargs
    cases h
    obtain ⟨hb, -, hvalue, base, offset', count, r, hmap, hr, hdef⟩ := holds_of_instOf hknows hi
    have h0 := value_arg hmap (k := 0) rfl
    have h1 := value_arg hmap (k := 1) rfl
    have h2 := value_arg hmap (k := 2) rfl
    rw [hargs.1] at h1
    rw [hargs.2] at h2
    have h1 : offset'.toNat = offset := by
      rw [← u32_inj h1, BitVec.toNat_ofNat]
      omega
    have h2 : count.toNat = 16 := by
      rw [← u32_inj h2]
      rfl
    rw [hdef (by omega), h1, h2] at hr
    exact ⟨base, h0, hvalue.trans hr, below_arg hb 0⟩
  · cases h

lemma value_shift16 {v w : Value} (h : shift16 before v = some w) :
    ∃ x, env.meaning.value ν w = .u32 x ∧ env.meaning.value ν v = .u32 (x <<< 16) := by
  unfold shift16 at h
  obtain ⟨i, hi, h⟩ := bind_eq_some_iff.1 h
  split at h
  · rename_i harg
    cases h
    obtain ⟨-, -, hvalue, a, b, r, hmap, hr, hdef⟩ := holds_of_instOf hknows hi
    obtain ⟨-, h0, h1⟩ := args_two hmap
    rw [harg] at h1
    have h1 : b.toNat = 16 := by
      rw [← u32_inj h1]
      rfl
    rw [hdef (by omega), h1] at hr
    exact ⟨a, h0, hvalue.trans hr⟩
  · cases h

lemma value_eq_of_resolve_eq {v w : Value} (h : resolve before v = resolve before w) :
    env.meaning.value ν v = env.meaning.value ν w := by
  rw [← value_resolve hknows.fits v, h, value_resolve hknows.fits w]

lemma xmadMultiply_values (hcode : inst.code = .op .IAdd32)
    (hholds : env.meaning.Holds ν inst) {u v : Value} (h : xmadMultiply before inst = some (u, v)) :
    ∃ x y, env.meaning.value ν u = .u32 x ∧ env.meaning.value ν v = .u32 y ∧
      ν inst.id = .u32 (x * y) ∧ Below fresh u ∧ Below fresh v := by
  simp only [xmadMultiply, bind_eq_bind, bind_eq_some_iff] at h
  obtain ⟨shifted, hshift, lhsMul, hlhs, rhsMul, hrhs, u', hu, u'', hu', h⟩ := h
  split at h
  · rename_i hsame
    cases h
    obtain ⟨a, b, -, h0, h1, hid⟩ := commutative_iadd32.values hcode hholds
    obtain ⟨m, hm, h0'⟩ := value_shift16 hknows hshift
    obtain ⟨p1, y, hp1, hy, hmul⟩ := value_instOf_binary (fun _ _ _ _ => Iff.rfl) hknows hlhs
    obtain ⟨p0, y', hp0, hy', h1'⟩ := value_instOf_binary (fun _ _ _ _ => Iff.rfl) hknows hrhs
    obtain ⟨x, hx, hp1', hbu⟩ := value_extract16 hknows (le_refl 16) hu
    obtain ⟨x', hx', hp0', -⟩ := value_extract16 hknows (zero_le 16) hu'
    have hyy : y' = y := u32_inj (hy'.symm.trans ((value_eq_of_resolve_eq hknows hsame.1).symm.trans hy))
    have hxx : x' = x := u32_inj (hx'.symm.trans ((value_eq_of_resolve_eq hknows hsame.2).symm.trans hx))
    have ha : a = (extractUnsigned x 16 16 * y) <<< 16 := by
      rw [u32_inj (h0.symm.trans h0'), u32_inj (hm.symm.trans hmul), u32_inj (hp1.symm.trans hp1')]
    have hb : b = extractUnsigned x 0 16 * y := by
      rw [u32_inj (h1.symm.trans h1'), u32_inj (hp0.symm.trans hp0'), hxx, hyy]
    refine ⟨x, y, hx, hy, ?_, hbu, below_instOf hknows hlhs 1⟩
    rw [hid, ha, hb]
    exact congrArg Val.u32 (xmad_multiply x y)
  · cases h

end

/-- Both read the same element of a constant buffer. -/
lemma value_of_equalCbuf {i j : Inst} (hi : env.meaning.Holds ν i) (hj : env.meaning.Holds ν j)
    (h : equalCbuf i j = true) : ∃ x, ν i.id = .u32 x ∧ ν j.id = .u32 x := by
  simp only [equalCbuf, Bool.and_eq_true, decide_eq_true_eq] at h
  obtain ⟨⟨⟨hci, hcj⟩, ha⟩, hb⟩ := h
  rw [Meaning.Holds, hci] at hi
  rw [Meaning.Holds, hcj] at hj
  obtain ⟨b, o, hargs, hid⟩ := hi
  obtain ⟨b', o', hargs', hid'⟩ := hj
  obtain ⟨-, h0, h1⟩ := args_two hargs
  obtain ⟨-, h0', h1'⟩ := args_two hargs'
  rw [ha, h0'] at h0
  rw [hb, h1'] at h1
  cases h0
  cases h1
  exact ⟨_, hid, hid'⟩

section

variable (hknows : Knows env ν before fresh)
include hknows

lemma value_of_sameValue {v w : Value}
    (h : sameValue before v w = true) : env.meaning.value ν v = env.meaning.value ν w := by
  rw [sameValue, Bool.or_eq_true, decide_eq_true_eq] at h
  rcases h with rfl | h
  · rfl
  · split at h
    · rename_i i j hi hj
      obtain ⟨hholds, hvalue⟩ := holds_of_source hknows.fits hi
      obtain ⟨hholds', hvalue'⟩ := holds_of_source hknows.fits hj
      obtain ⟨x, hx, hx'⟩ := value_of_equalCbuf hholds hholds' h
      rw [hvalue, hvalue', hx, hx']
    · cases h

lemma value_of_areEqual {u v w : Value} (h : areEqual before u v w = true) :
    env.meaning.value ν u = env.meaning.value ν v ∧ env.meaning.value ν v = env.meaning.value ν w := by
  rw [areEqual, Bool.and_eq_true] at h
  have huv := value_of_sameValue hknows h.1
  have hvw := value_of_sameValue hknows h.2
  simp only [value_resolve hknows.fits] at huv hvw
  exact ⟨huv, hvw⟩

lemma value_insert16 {i : Inst} (h : instOf before .BitFieldInsert v = some i) (h2 : arg i 2 = imm32 16)
    (h3 : arg i 3 = imm32 16) :
    ∃ x y, env.meaning.value ν (arg i 0) = .u32 x ∧ env.meaning.value ν (arg i 1) = .u32 y ∧
      env.meaning.value ν v = .u32 (insertField x y 16 16) ∧
      ν i.id = .u32 (insertField x y 16 16) := by
  obtain ⟨-, -, hvalue, x, y, offset, bits, r, hmap, hr, hdef⟩ := holds_of_instOf hknows h
  have ho := value_arg hmap (k := 2) rfl
  have hbits := value_arg hmap (k := 3) rfl
  rw [h2] at ho
  rw [h3] at hbits
  have ho : offset.toNat = 16 := by
    rw [← u32_inj ho]
    rfl
  have hbits : bits.toNat = 16 := by
    rw [← u32_inj hbits]
    rfl
  rw [hdef (by omega), ho, hbits] at hr
  exact ⟨x, y, value_arg hmap rfl, value_arg hmap rfl, hvalue.trans hr, hr⟩

lemma xmadMultiplyAdd_values (hcode : inst.code = .op .IAdd32) (hholds : env.meaning.Holds ν inst) {u v w : Value}
    (h : xmadMultiplyAdd before inst = some (u, v, w)) :
    ∃ a b c, env.meaning.value ν u = .u32 a ∧ env.meaning.value ν v = .u32 b ∧
      env.meaning.value ν w = .u32 c ∧ ν inst.id = .u32 (a * b + c) ∧ Below fresh u ∧
      Below fresh v ∧ Below fresh w := by
  unfold xmadMultiplyAdd at h
  obtain ⟨i27, hi27, h⟩ := bind_eq_some_iff.1 h
  obtain ⟨v25, hv25, h⟩ := bind_eq_some_iff.1 h
  obtain ⟨i24, hi24, h⟩ := bind_eq_some_iff.1 h
  obtain ⟨b22, hb22, h⟩ := bind_eq_some_iff.1 h
  obtain ⟨v11, hv11, h⟩ := bind_eq_some_iff.1 h
  obtain ⟨i11, hi11, h⟩ := bind_eq_some_iff.1 h
  obtain ⟨i8, hi8, h⟩ := bind_eq_some_iff.1 h
  obtain ⟨a10, ha10, h⟩ := bind_eq_some_iff.1 h
  obtain ⟨b6, hb6, h⟩ := bind_eq_some_iff.1 h
  obtain ⟨a7, ha7, h⟩ := bind_eq_some_iff.1 h
  obtain ⟨v26, hv26, h⟩ := bind_eq_some_iff.1 h
  obtain ⟨i26, hi26, h⟩ := bind_eq_some_iff.1 h
  obtain ⟨i18, hi18, h⟩ := bind_eq_some_iff.1 h
  obtain ⟨i17, hi17, h⟩ := bind_eq_some_iff.1 h
  obtain ⟨b15, hb15, h⟩ := bind_eq_some_iff.1 h
  obtain ⟨a16, ha16, h⟩ := bind_eq_some_iff.1 h
  split at h
  · rename_i hcond
    cases h
    obtain ⟨h2, h3, rfl, ha, hb⟩ := hcond
    obtain ⟨haa, haa'⟩ := value_of_areEqual hknows ha
    obtain ⟨hbb, hbb'⟩ := value_of_areEqual hknows hb
    obtain ⟨s, s', -, hs, hs', hid⟩ := commutative_iadd32.values hcode hholds
    -- the two factors and the summand
    obtain ⟨a, hva7, he7, hba7⟩ := value_extract16 hknows (le_refl 16) ha7
    obtain ⟨b, hvb6, he6, hbb6⟩ := value_extract16 hknows (zero_le 16) hb6
    obtain ⟨q, c, hq, hc, h18⟩ := value_instOf_binary (fun _ _ _ _ => Iff.rfl) hknows hi18
    -- the product of the upper half of `b` and the lower half of `a`
    obtain ⟨m24, hm24, hs24⟩ := value_shift16 hknows hv25
    obtain ⟨p, p', hp, hp', h24⟩ := value_instOf_binary (fun _ _ _ _ => Iff.rfl) hknows hi24
    obtain ⟨b1, hb₁, hpb, -⟩ := value_extract16 hknows (le_refl 16) hb22
    obtain ⟨x11, hx11, hpx, -⟩ := value_extract16 hknows (le_refl 16) hv11
    -- the product of the lower half of `b` and the upper half of `a`
    obtain ⟨m8, y10, hm8, hy10, h11, hid11⟩ := value_insert16 hknows hi11 h2 h3
    obtain ⟨r, r', hr, hr', h8⟩ := value_instOf_binary (fun _ _ _ _ => Iff.rfl) hknows hi8
    obtain ⟨a1, ha1, he10, -⟩ := value_extract16 hknows (zero_le 16) ha10
    obtain ⟨t, t', ht, ht', h27⟩ := value_instOf_binary (fun _ _ _ _ => Iff.rfl) hknows hi27
    obtain ⟨m26, hm26, hs26⟩ := value_shift16 hknows hv26
    have hm26' := (holds_of_source hknows.fits hi26).2
    -- the product of the lower halves
    obtain ⟨z, z', hz, hz', h17⟩ := value_instOf_binary (fun _ _ _ _ => Iff.rfl) hknows hi17
    obtain ⟨b2, hb2, hzb, -⟩ := value_extract16 hknows (zero_le 16) hb15
    obtain ⟨a2, ha2, hza, -⟩ := value_extract16 hknows (zero_le 16) ha16
    have hb1b : b1 = b := u32_inj (hb₁.symm.trans (hbb.trans hvb6))
    have hb2b : b2 = b := u32_inj (hb2.symm.trans (hbb'.symm.trans hvb6))
    have ha2a : a2 = a := u32_inj (ha2.symm.trans (haa.symm.trans hva7))
    have ha1a : a1 = a := u32_inj (ha1.symm.trans (haa'.symm.trans (haa.symm.trans hva7)))
    have hy10' : y10 = extractUnsigned a 0 16 := by rw [u32_inj (hy10.symm.trans he10), ha1a]
    have hm8' : m8 = extractUnsigned b 0 16 * extractUnsigned a 16 16 := by
      rw [u32_inj (hm8.symm.trans h8), u32_inj (hr.symm.trans he6), u32_inj (hr'.symm.trans he7)]
    have hs24' : s = (extractUnsigned b 16 16 * extractUnsigned a 0 16) <<< 16 := by
      rw [u32_inj (hs.symm.trans hs24), u32_inj (hm24.symm.trans h24), u32_inj (hp.symm.trans hpb),
        u32_inj (hp'.symm.trans hpx), u32_inj (hx11.symm.trans h11), hb1b, hy10',
        extract16_insertField]
    have ht26 : t = (extractUnsigned b 0 16 * extractUnsigned a 16 16) <<< 16 := by
      rw [u32_inj (ht.symm.trans hs26), u32_inj (hm26.symm.trans (hm26'.trans hid11)), shift16_insertField, hm8']
    have ht18 : t' = extractUnsigned b 0 16 * extractUnsigned a 0 16 + c := by
      rw [u32_inj (ht'.symm.trans h18), u32_inj (hq.symm.trans h17), u32_inj (hz.symm.trans hzb),
        u32_inj (hz'.symm.trans hza), hb2b, ha2a]
    refine ⟨a, b, c, ?_, ?_, hc, ?_, below_resolve hknows.below hba7,
      below_resolve hknows.below hbb6, below_instOf hknows hi18 1⟩
    · rw [value_resolve hknows.fits, hva7]
    · rw [value_resolve hknows.fits, hvb6]
    · rw [hid, u32_inj (hs'.symm.trans h27), hs24', ht26, ht18]
      exact congrArg Val.u32 (xmad_multiply_add a b c)
  · cases h

end

variable {ν' : ℕ → Val}

lemma value_of_below (h : ∀ id < fresh, ν' id = ν id)
    (hv : Below fresh v) : env.meaning.value ν' v = env.meaning.value ν v := by
  cases v with
  | imm k => rfl
  | inst id => exact h id (hv id rfl)

variable {id N : ℕ}

lemma holds_binary (hop : ∀ (env : Inputs) id args v, env.holds id op args v ↔ Binary32 f args v)
    {u v : Value} {x y : BitVec 32} (hu : env.meaning.value ν' u = .u32 x)
    (hv : env.meaning.value ν' v = .u32 y) (hid : ν' id = .u32 (f x y)) :
    env.meaning.Holds ν' ⟨id, .op op, [u, v]⟩ := by
  refine (hop env _ _ _).2 ⟨x, y, ?_, hid⟩
  simp only [map_cons, map_nil, hu, hv]

lemma below_binary {code : Code Opcode} {u v : Value} (hid : id < N) (hu : Below N u)
    (hv : Below N v) : Inst.Below N (⟨id, code, [u, v]⟩ : Inst) := by
  refine ⟨hid, fun j hj => ?_⟩
  rcases mem_cons.1 hj with h | h
  · exact hu j h.symm
  · exact hv j (mem_singleton.1 h).symm

lemma Below.mono {N' : ℕ} (h : Below N v) (hle : N ≤ N') : Below N' v :=
  fun id hid => lt_of_lt_of_le (h id hid) hle

lemma below_inst (h : id < N) : Below N (.inst id) := by
  intro j hj
  cases hj
  exact h

/-- **The XMAD patterns keep the value of the sum.** -/
theorem foldXmad_keeps (hknows : Knows env ν before fresh) (hb : inst.Below fresh)
    (hcode : inst.code = .op .IAdd32) (hholds : env.meaning.Holds ν inst) :
    Keeps env ν fresh (some (foldXmad before fresh inst)) := by
  unfold foldXmad
  have hne : inst.id ≠ fresh := Nat.ne_of_lt hb.1
  cases hmul : xmadMultiply before inst with
  | some r =>
    obtain ⟨u, v⟩ := r
    obtain ⟨x, y, hu, hv, hid, hbu, hbv⟩ := xmadMultiply_values hknows hcode hholds hmul
    have hagree : ∀ id < fresh, update ν fresh (.u32 (x * y)) id = ν id :=
      fun id hlt => update_of_ne (Nat.ne_of_lt hlt) _ _
    have hle : fresh ≤ fresh + 1 := Nat.le_succ fresh
    refine ⟨_, _, update ν fresh (.u32 (x * y)), rfl, ?_, hagree, ?_⟩
    · intro j hj
      simp only [mem_cons, not_mem_nil, or_false] at hj
      rcases hj with rfl | rfl
      · exact below_replaceUsesWith (lt_succ_of_lt hb.1) (below_inst (Nat.lt_succ_self fresh))
      · exact below_binary (Nat.lt_succ_self fresh) (hbu.mono hle) (hbv.mono hle)
    · intro j hj
      simp only [mem_cons, not_mem_nil, or_false] at hj
      rcases hj with rfl | rfl
      · apply holds_replaceUsesWith
        simp [Meaning.value, hne, hid]
      · exact holds_binary (fun _ _ _ _ => Iff.rfl) ((value_of_below hagree hbu).trans hu)
          ((value_of_below hagree hbv).trans hv) (update_self _ _ _)
  | none =>
    dsimp only
    cases hadd : xmadMultiplyAdd before inst with
    | none => exact keeps_changed hb hholds
    | some r =>
      obtain ⟨u, v, w⟩ := r
      obtain ⟨a, b, c, hu, hv, hw, hid, hbu, hbv, hbw⟩ :=
        xmadMultiplyAdd_values hknows hcode hholds hadd
      let ν' := update (update ν fresh (.u32 (a * b))) (fresh + 1) (.u32 (a * b + c))
      have hagree : ∀ id < fresh, ν' id = ν id := by
        intro id hlt
        simp only [ν']
        rw [update_of_ne (by omega), update_of_ne (by omega)]
      have hproduct : ν' fresh = .u32 (a * b) := by simp [ν']
      have hle : fresh ≤ fresh + 2 := le_add_right fresh 2
      refine ⟨_, _, ν', rfl, ?_, hagree, ?_⟩
      · intro j hj
        simp only [mem_cons, not_mem_nil, or_false] at hj
        rcases hj with rfl | rfl | rfl
        · exact below_replaceUsesWith (lt_of_lt_of_le hb.1 hle) (below_inst (Nat.lt_succ_self (fresh + 1)))
        · exact below_binary (Nat.lt_add_of_pos_right Nat.two_pos) (hbu.mono hle) (hbv.mono hle)
        · exact below_binary (Nat.lt_succ_self (fresh + 1))
            (below_inst (Nat.lt_add_of_pos_right Nat.two_pos)) (hbw.mono hle)
      · intro j hj
        simp only [mem_cons, not_mem_nil, or_false] at hj
        rcases hj with rfl | rfl | rfl
        · apply holds_replaceUsesWith
          rw [hagree inst.id hb.1, hid]
          simp [Meaning.value, ν']
        · exact holds_binary (fun _ _ _ _ => Iff.rfl) ((value_of_below hagree hbu).trans hu)
            ((value_of_below hagree hbv).trans hv) hproduct
        · exact holds_binary (fun _ _ _ _ => Iff.rfl) hproduct ((value_of_below hagree hbw).trans hw) (by simp [ν'])

end Xmad

end Voltemu.Shader
