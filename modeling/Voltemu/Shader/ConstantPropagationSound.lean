import Voltemu.Shader.AddFolds

/-!
# Constant propagation keeps the values

Every fold of the integer part keeps the value of the instruction it visits, but for the following.

* `FoldISub32` swaps the operands of a difference to find its second pattern: `c - (x + c)` becomes `x`.
* The immediate `BitFieldInsert` does not cut `insert` to the width of the field, and throws for a field of 32 bits.
* The immediate `BitFieldUExtract` of 32 bits shifts by 32, which is undefined, and so does
  `ShiftRightArithmetic32` by 32 or more.  The immediate `BitFieldSExtract` of no bits throws.
* Only `FoldAdd` and `FoldWhenAllImmediates` look at the pseudo-operations.

`Params.safeVisit` says that a visit meets none of these.
-/

namespace Voltemu.Shader

open Lib List Option

/-- The immediate folds that are right. -/
def safeImmediates : Opcode → List Scalar → Bool
  | .ShiftRightArithmetic32, [_, .u32 shift] => shift.toNat < 32
  | .BitFieldUExtract, [_, .u32 shift, .u32 count] =>
      shift.toNat + count.toNat ≤ 32 && shift.toNat < 32 && count.toNat < 32
  | .BitFieldSExtract, [_, .u32 shift, .u32 count] =>
      shift.toNat + count.toNat ≤ 32 && 0 < count.toNat
  | .BitFieldInsert, [.u32 base, .u32 insert, .u32 offset, .u32 bits] =>
      offset.toNat + bits.toNat ≤ 32 && offset.toNat < 32 && bits.toNat < 32 &&
        insert <<< offset.toNat &&& ~~~fieldMask offset.toNat bits.toNat &&& ~~~base == 0
  | _, _ => true

/-- The folds that do not look at the pseudo-operations. -/
def unguardedFold (before : Before) (inst : Inst) : Bool :=
  match inst.code with
  | .op .GetRegister => arg inst 0 = .imm (.reg zeroRegister)
  | .op .GetPred => arg inst 0 = .imm (.pred truePredicate)
  | .op .ISub32 => (cbufDifference before inst).isSome
  | .op (.select _) => isImmediate before (arg inst 0)
  | .op .LogicalAnd | .op .LogicalOr =>
      isImmediate before (arg inst 0) || isImmediate before (arg inst 1)
  | .op .LogicalNot =>
      isImmediate before (arg inst 0) || (instOf before .LogicalNot (arg inst 0)).isSome
  | .op (.compositeExtract t) =>
      match constant before (arg inst 1) with
      | some (.u32 index) => (compositeElement t index before (arg inst 0)).isSome
      | _ => false
  | _ => false

/-- **The visit meets no defect.** -/
def Params.safeVisit (p : Params) (before : Before) (inst : Inst) : Bool :=
  if p.associated inst.id then !unguardedFold before inst
  else match inst.code with
    | .op op =>
        (inst.args.mapM (constant before)).all (safeImmediates op) &&
          (decide (op ≠ .ISub32) || (cbufDifference before inst).all fun r => !r.2)
    | _ => true

/-- The folds of the other opcodes keep values, and leave instructions with pseudo-operations alone. -/
structure OthersKeepValues (p : Params) (env : Inputs) : Prop where
  keeps : ∀ before fresh (inst : Inst) ν, (∀ j ∈ inst :: before, j.Below fresh) →
    env.meaning.Fits ν before → env.meaning.Holds ν inst →
    Keeps env ν fresh (p.others before fresh inst)
  fixed : ∀ before fresh (inst : Inst) new i', p.associated inst.id = true →
    p.others before fresh inst = some (new, i') → i' = inst

variable {env : Inputs} {ν : ℕ → Val} {before : Before} {fresh : ℕ} {inst : Inst} {p : Params}

section Immediates

/-- The opcodes that are folded when all operands are immediates. -/
def foldsImmediates : Opcode → Bool
  | .ISub32 | .IMul32 | .ShiftRightArithmetic32 | .BitwiseAnd32 | .BitwiseOr32 | .BitwiseXor32
  | .BitFieldInsert | .BitFieldSExtract | .BitFieldUExtract | .compare _ => true
  | _ => false

variable {ks : List Scalar}

lemma scalars_eq_map (ks' : List Scalar) (h : ks.map Val.scalar = ks'.map Val.scalar) : ks = ks' :=
  map_injective_iff.2 (fun _ _ hab => Val.scalar.inj hab) h

/-- **The immediate folds compute the value of the operation.** -/
theorem evalImmediates_sound (p : Params) {id : ℕ} {op : Opcode} {v : Val}
    (hop : foldsImmediates op = true) (hsafe : safeImmediates op ks = true)
    (h : env.holds id op (ks.map .scalar) v) :
    ∃ k, p.evalImmediates op ks = some k ∧ v = .scalar k := by
  have binary : ∀ {f}, Binary32 f (ks.map .scalar) v → ∃ a b, ks = [.u32 a, .u32 b] ∧ v = .u32 (f a b) := by
    rintro f ⟨a, b, hks, hv⟩
    exact ⟨a, b, scalars_eq_map [.u32 a, .u32 b] hks, hv⟩
  cases op with
  | ISub32 | IMul32 | BitwiseAnd32 | BitwiseOr32 | BitwiseXor32 =>
    obtain ⟨a, b, rfl, rfl⟩ := binary h
    exact ⟨_, rfl, rfl⟩
  | compare c =>
    obtain ⟨a, b, hks, rfl⟩ := h
    obtain rfl := scalars_eq_map [.u32 a, .u32 b] hks
    exact ⟨_, rfl, rfl⟩
  | ShiftRightArithmetic32 =>
    obtain ⟨a, b, r, hks, rfl, hdef⟩ := h
    obtain rfl := scalars_eq_map [.u32 a, .u32 b] hks
    have hb : b.toNat < 32 := by simpa [safeImmediates] using hsafe
    refine ⟨_, rfl, ?_⟩
    rw [hdef hb, Params.arithmeticShiftRight, if_pos hb]
  | BitFieldUExtract =>
    obtain ⟨base, shift, count, r, hks, rfl, hdef⟩ := h
    obtain rfl := scalars_eq_map [.u32 base, .u32 shift, .u32 count] hks
    simp only [safeImmediates, Bool.and_eq_true, decide_eq_true_eq] at hsafe
    obtain ⟨⟨hle, hshift⟩, hcount⟩ := hsafe
    refine ⟨.u32 (extractUnsigned base shift.toNat count.toNat), ?_, congrArg Val.u32 (hdef hle)⟩
    simp only [Params.evalImmediates, Params.shiftRight, Params.shiftLeft, if_pos hshift,
      if_pos hcount, if_neg (Nat.not_lt.2 hle), gt_iff_lt]
    rw [shift_mask_eq_extractUnsigned base shift.toNat hcount]
  | BitFieldSExtract =>
    obtain ⟨base, shift, count, r, hks, rfl, hdef⟩ := h
    obtain rfl := scalars_eq_map [.u32 base, .u32 shift, .u32 count] hks
    simp only [safeImmediates, Bool.and_eq_true, decide_eq_true_eq] at hsafe
    obtain ⟨hle, hcount⟩ := hsafe
    refine ⟨.u32 (extractSigned base shift.toNat count.toNat), ?_, congrArg Val.u32 (hdef hle)⟩
    have hdefined : ¬ (shift.toNat + count.toNat > 32 ∨ shift.toNat + count.toNat = 0 ∨ count.toNat = 0) := by omega
    simp only [Params.evalImmediates, if_neg hdefined]
    rw [shifts_eq_extractSigned base hle hcount]
  | BitFieldInsert =>
    obtain ⟨base, insert, offset, bits, r, hks, rfl, hdef⟩ := h
    obtain rfl := scalars_eq_map [.u32 base, .u32 insert, .u32 offset, .u32 bits] hks
    simp only [safeImmediates, Bool.and_eq_true, decide_eq_true_eq, beq_iff_eq] at hsafe
    obtain ⟨⟨⟨hle, ho⟩, hb⟩, hinsert⟩ := hsafe
    refine ⟨.u32 (insertField base insert offset.toNat bits.toNat), ?_,
      congrArg Val.u32 (hdef hle)⟩
    have hdefined : ¬ (bits.toNat ≥ 32 ∨ offset.toNat ≥ 32) := by omega
    simp only [Params.evalImmediates, if_neg hdefined]
    rw [mask_eq_fieldMask offset.toNat hb, insert_eq_insertField hinsert]
  | _ => cases hop

/-- `FoldWhenAllImmediates`, where it applies. -/
theorem foldWhenAllImmediates_keeps {op : Opcode} {r : Option (List Inst × Inst)}
    (hop : foldsImmediates op = true) (hknows : Knows env ν before fresh) (hb : inst.Below fresh)
    (hcode : inst.code = .op op) (hholds : env.meaning.Holds ν inst)
    (hsafe : (inst.args.mapM (constant before)).all (safeImmediates op) = true)
    (h : foldWhenAllImmediates (p.evalImmediates op) (p.associated inst.id) before inst = some r) :
    Keeps env ν fresh r := by
  unfold foldWhenAllImmediates at h
  split at h
  · cases h
  · obtain ⟨ks, hks, rfl⟩ := map_eq_some_iff.1 h
    rw [hks] at hsafe
    rw [Meaning.Holds, hcode] at hholds
    have hargs := args_constant hknows.fits hks
    rw [hargs] at hholds
    obtain ⟨k, hk, hvalue⟩ := evalImmediates_sound p hop hsafe hholds
    rw [hk]
    exact keeps_constant hb.1 hvalue

end Immediates

section Difference

lemma cbufDifference_value (hknows : Knows env ν before fresh) (hcode : inst.code = .op .ISub32)
    (hholds : env.meaning.Holds ν inst) {v : Value}
    (h : cbufDifference before inst = some (v, false)) :
    env.meaning.value ν v = ν inst.id ∧ Below fresh v := by
  rw [Meaning.Holds, hcode] at hholds
  obtain ⟨a, b, hargs, hid⟩ := hholds
  obtain ⟨-, h0, h1⟩ := args_two hargs
  unfold cbufDifference at h
  obtain ⟨opA, hA, h⟩ := bind_eq_some_iff.1 h
  obtain ⟨opB, hB, h⟩ := bind_eq_some_iff.1 h
  obtain ⟨hholdsA, hvalueA⟩ := holds_of_source hknows.fits hA
  obtain ⟨hholdsB, hvalueB⟩ := holds_of_source hknows.fits hB
  split at h
  · rename_i hequal
    cases h
    obtain ⟨x, hx, hx'⟩ := value_of_equalCbuf hholdsA hholdsB hequal
    have ha : a = x := u32_inj (h0.symm.trans (hvalueA.trans hx))
    have hb : b = x := u32_inj (h1.symm.trans (hvalueB.trans hx'))
    refine ⟨?_, below_imm _⟩
    have hdiff : a - b = 0#32 := by rw [ha, hb, BitVec.sub_self]
    exact (congrArg Val.u32 hdiff).symm.trans hid.symm
  · by_cases hswapped : opB.code = .op .IAdd32
    · -- the operands were swapped
      simp only [hswapped, decide_true, if_true] at h
      split at h
      · obtain ⟨addCbuf, hadd, h⟩ := bind_eq_some_iff.1 h
        split at h <;> simp at h
      · cases h
    · simp only [hswapped, decide_false, Bool.false_eq_true, if_false] at h
      split at h
      · rename_i hcodes
        obtain ⟨addCbuf, hadd, h⟩ := bind_eq_some_iff.1 h
        split at h
        · rename_i hequal
          cases h
          obtain ⟨x, y, -, hx, hy, hsum⟩ := commutative_iadd32.values hcodes.2 hholdsA
          obtain ⟨hholdsC, hvalueC⟩ := holds_of_source hknows.fits hadd
          obtain ⟨c, hc, hc'⟩ := value_of_equalCbuf hholdsC hholdsB hequal
          have hb : b = c := u32_inj (h1.symm.trans (hvalueB.trans hc'))
          have ha : a = x + y := u32_inj (h0.symm.trans (hvalueA.trans hsum))
          refine ⟨?_, ?_⟩
          · -- the operand of the sum that is not the constant buffer
            by_cases hswap : isImmediate before (arg opA 1) = true
            · simp only [hswap, if_true] at hvalueC ⊢
              have hxc : x = c := u32_inj (hx.symm.trans (hvalueC.trans hc))
              have hdiff : a - b = y := by rw [ha, hb, hxc, BitVec.add_comm, BitVec.add_sub_cancel]
              exact hy.trans ((congrArg Val.u32 hdiff).symm.trans hid.symm)
            · simp only [hswap, Bool.false_eq_true, if_false] at hvalueC ⊢
              have hyc : y = c := u32_inj (hy.symm.trans (hvalueC.trans hc))
              have hdiff : a - b = x := by rw [ha, hb, hyc, BitVec.add_sub_cancel]
              exact hx.trans ((congrArg Val.u32 hdiff).symm.trans hid.symm)
          · split <;> exact below_arg (below_source hknows hA) _
        · cases h
      · cases h

/-- `FoldISub32`. -/
theorem foldISub32_keeps (hknows : Knows env ν before fresh) (hb : inst.Below fresh)
    (hcode : inst.code = .op .ISub32) (hholds : env.meaning.Holds ν inst)
    (hsafe : p.safeVisit before inst = true) : Keeps env ν fresh (p.foldISub32 before inst) := by
  have hswapped : ∀ v swapped, cbufDifference before inst = some (v, swapped) → swapped = false := by
    intro v swapped hdiff
    unfold Params.safeVisit at hsafe
    split at hsafe
    · simp [unguardedFold, hcode, hdiff] at hsafe
    · simp only [hcode, Bool.and_eq_true, ne_eq, not_true_eq_false, decide_false, Bool.false_or, hdiff, all_some] at hsafe
      simpa using hsafe.2
  unfold Params.foldISub32
  cases hfold : foldWhenAllImmediates (p.evalImmediates .ISub32) (p.associated inst.id) before inst with
  | some r =>
    refine foldWhenAllImmediates_keeps (show foldsImmediates .ISub32 = true from rfl) hknows hb hcode hholds ?_ hfold
    cases inst.args.mapM (constant before) <;> rfl
  | none =>
    dsimp only
    split
    · exact keeps_changed hb hholds
    · cases hdiff : cbufDifference before inst with
      | none => exact keeps_changed hb hholds
      | some r =>
        obtain ⟨v, swapped⟩ := r
        rw [hswapped v swapped hdiff] at hdiff
        obtain ⟨hvalue, hbv⟩ := cbufDifference_value hknows hcode hholds hdiff
        exact keeps_replaced hb.1 hbv hvalue

end Difference

section Composite

/-- **An element that is found through copies and insertions is the element of the composite.** -/
theorem compositeElement_value (hknows : Knows env ν before fresh) {t : CompositeType}
    {index : BitVec 32} {u v : Value} {l : List Scalar} {x : Scalar}
    (hu : env.meaning.value ν u = .composite l) (hx : l[index.toNat]? = some x)
    (h : compositeElement t index before u = some v) :
    env.meaning.value ν v = .scalar x ∧ Below fresh v := by
  induction before generalizing u l with
  | nil => cases u <;> cases h
  | cons i older ih =>
    have hknows' : Knows env ν older fresh :=
      ⟨fun j hj => hknows.below j (mem_cons_of_mem _ hj),
        fun j hj => hknows.fits j (mem_cons_of_mem _ hj)⟩
    have hbi := hknows.below i mem_cons_self
    have hi := hknows.fits i mem_cons_self
    cases u with
    | imm k => cases h
    | inst id =>
      unfold compositeElement at h
      split at h
      · rename_i hid
        have hu : ν i.id = .composite l := hid ▸ hu
        unfold Meaning.Holds at hi
        split at h
        · rename_i hcode
          rw [hcode] at hi
          cases hargs : i.args with
          | nil =>
            rw [arg, hargs] at h
            cases older <;> cases h
          | cons w rest =>
            have hw : arg i 0 = w := by simp [arg, hargs]
            rw [hw] at h
            refine ih hknows' ?_ hx h
            rw [← hu]
            exact (hi w (by simp [hargs])).symm
        · rename_i t' hcode
          rw [hcode] at hi
          split at h
          · cases h
            obtain ⟨l', hmap, -, hid'⟩ := hi
            obtain rfl : l = l' := by simpa using hu.symm.trans hid'
            exact ⟨value_arg hmap (by simp [hx]), below_arg hbi _⟩
          · cases h
        · rename_i t' hcode
          rw [hcode] at hi
          split at h
          · obtain ⟨l', y, k, hmap, hlength, hlt, hid'⟩ := hi
            have hl : l = l'.set k.toNat y := by simpa using hu.symm.trans hid'
            have h2 := value_arg hmap (k := 2) rfl
            split at h
            · rename_i second hsecond
              have hk : k = second :=
                u32_inj (h2.symm.trans (value_of_constant hknows'.fits hsecond))
              split at h
              · rename_i hne
                refine ih hknows' (value_arg hmap rfl) ?_ h
                rw [hl, getElem?_set_ne] at hx
                · exact hx
                · intro heq
                  exact hne (BitVec.eq_of_toNat_eq (hk ▸ heq.symm))
              · rename_i heq
                cases h
                rw [not_not] at heq
                have hset : l[index.toNat]? = some y := by
                  rw [hl, heq, ← hk, getElem?_set_self (hlength ▸ hlt)]
                obtain rfl : x = y := by simpa using hx.symm.trans hset
                exact ⟨value_arg hmap rfl, below_arg hbi 1⟩
            · cases h
          · cases h
        · cases h
      · exact ih hknows' hu hx h

/-- `FoldCompositeExtract`. -/
theorem foldCompositeExtract_keeps {t : CompositeType} (hknows : Knows env ν before fresh)
    (hb : inst.Below fresh) (hcode : inst.code = .op (.compositeExtract t))
    (hholds : env.meaning.Holds ν inst) :
    Keeps env ν fresh (foldCompositeExtract t before inst) := by
  have hsame := keeps_changed hb hholds
  rw [Meaning.Holds, hcode] at hholds
  obtain ⟨l, k, x, hargs, -, hx, hid⟩ := hholds
  obtain ⟨-, h0, h1⟩ := args_two hargs
  unfold foldCompositeExtract
  cases hk : constant before (arg inst 1) with
  | none => exact hsame
  | some s =>
    have hs : s = .u32 k := Val.scalar.inj ((value_of_constant hknows.fits hk).symm.trans h1)
    subst hs
    dsimp only [immU32, map_some]
    cases helement : compositeElement t k before (arg inst 0) with
    | none => exact hsame
    | some v =>
      obtain ⟨hvalue, hbv⟩ := compositeElement_value hknows h0 hx helement
      exact keeps_replaced hb.1 hbv (hvalue.trans hid.symm)

end Composite

section Unary

section

variable (hknows : Knows env ν before fresh)
include hknows

lemma constant_u1 {v : Value} {k : Scalar} {b : Bool}
    (hk : constant before v = some k) (hv : env.meaning.value ν v = .u1 b) : k = .u1 b :=
  Val.scalar.inj ((value_of_constant hknows.fits hk).symm.trans hv)

/-- `FoldLogicalNot`. -/
theorem foldLogicalNot_keeps (hb : inst.Below fresh)
    (hcode : inst.code = .op .LogicalNot) (hholds : env.meaning.Holds ν inst) :
    Keeps env ν fresh (foldLogicalNot before inst) := by
  have hsame := keeps_changed hb hholds
  rw [Meaning.Holds, hcode] at hholds
  obtain ⟨a, hargs, hid⟩ := hholds
  have h0 := value_arg hargs (k := 0) rfl
  unfold foldLogicalNot
  cases hk : constant before (arg inst 0) with
  | some k =>
    rw [constant_u1 hknows hk h0]
    exact keeps_constant hb.1 hid
  | none =>
    cases hnot : instOf before .LogicalNot (arg inst 0) with
    | none => exact hsame
    | some i =>
      obtain ⟨hbi, -, hvalue, a', hargs', hid'⟩ := holds_of_instOf hknows hnot
      have h0' := value_arg hargs' (k := 0) rfl
      have haa : a = !a' := Scalar.u1.inj (Val.scalar.inj (h0.symm.trans (hvalue.trans hid')))
      refine keeps_replaced hb.1 (below_arg hbi 0) ?_
      rw [h0', hid, haa, Bool.not_not]

/-- `FoldSelect`. -/
theorem foldSelect_keeps {t : SelectType} (hb : inst.Below fresh)
    (hcode : inst.code = .op (.select t)) (hholds : env.meaning.Holds ν inst) :
    Keeps env ν fresh (foldSelect before inst) := by
  have hsame := keeps_changed hb hholds
  rw [Meaning.Holds, hcode] at hholds
  obtain ⟨c, x, y, hargs, hid⟩ := hholds
  have h0 := value_arg hargs (k := 0) rfl
  have h1 := value_arg hargs (k := 1) rfl
  have h2 := value_arg hargs (k := 2) rfl
  unfold foldSelect
  cases hk : constant before (arg inst 0) with
  | none => exact hsame
  | some k =>
    rw [constant_u1 hknows hk h0]
    cases c with
    | true => exact keeps_replaced hb.1 (below_arg hb 1) (h1.trans hid.symm)
    | false => exact keeps_replaced hb.1 (below_arg hb 2) (h2.trans hid.symm)

end

/-- `FoldGetRegister`. -/
theorem foldGetRegister_keeps (hb : inst.Below fresh) (hcode : inst.code = .op .GetRegister)
    (hholds : env.meaning.Holds ν inst) : Keeps env ν fresh (some (foldGetRegister inst)) := by
  unfold foldGetRegister
  split
  · rename_i hzero
    rw [Meaning.Holds, hcode] at hholds
    obtain ⟨r, x, hargs, hid, hdef⟩ := hholds
    have h0 := value_arg hargs (k := 0) rfl
    rw [hzero] at h0
    cases h0
    rw [hdef rfl] at hid
    exact keeps_constant hb.1 hid
  · exact keeps_changed hb hholds

/-- `FoldGetPred`. -/
theorem foldGetPred_keeps (hb : inst.Below fresh) (hcode : inst.code = .op .GetPred)
    (hholds : env.meaning.Holds ν inst) : Keeps env ν fresh (some (foldGetPred inst)) := by
  unfold foldGetPred
  split
  · rename_i htrue
    rw [Meaning.Holds, hcode] at hholds
    obtain ⟨r, x, hargs, hid, hdef⟩ := hholds
    have h0 := value_arg hargs (k := 0) rfl
    rw [htrue] at h0
    cases h0
    rw [hdef rfl] at hid
    exact keeps_constant hb.1 hid
  · exact keeps_changed hb hholds

end Unary

section Pass

lemma immediates_keeps {op : Opcode} (hop : foldsImmediates op = true)
    (hknows : Knows env ν before fresh) (hb : inst.Below fresh) (hcode : inst.code = .op op)
    (hholds : env.meaning.Holds ν inst) (hsafe : p.safeVisit before inst = true) :
    Keeps env ν fresh ((foldWhenAllImmediates (p.evalImmediates op) (p.associated inst.id) before
      inst).getD (some ([], inst))) := by
  cases hfold : foldWhenAllImmediates (p.evalImmediates op) (p.associated inst.id) before inst with
  | none => exact keeps_changed hb hholds
  | some r =>
    refine foldWhenAllImmediates_keeps hop hknows hb hcode hholds ?_ hfold
    have hassociated : ¬ p.associated inst.id = true := by
      intro h
      simp [foldWhenAllImmediates, h] at hfold
    unfold Params.safeVisit at hsafe
    rw [if_neg hassociated, hcode] at hsafe
    exact (Bool.and_eq_true_iff.1 hsafe).1

/-- **Every safe visit keeps the value of the visited instruction.** -/
theorem constantPropagation_keeps (hothers : OthersKeepValues p env)
    (hknows : Knows env ν before fresh) (hb : inst.Below fresh) (hholds : env.meaning.Holds ν inst)
    (hsafe : p.safeVisit before inst = true) :
    Keeps env ν fresh (p.constantPropagation before fresh inst) := by
  have hsame := keeps_changed hb hholds
  have hall : ∀ j ∈ inst :: before, j.Below fresh := by
    intro j hj
    rcases mem_cons.1 hj with rfl | hj
    · exact hb
    · exact hknows.below j hj
  unfold Params.constantPropagation
  cases hcode : inst.code with
  | void => exact hsame
  | identity => exact hsame
  | op op =>
    cases op with
    | GetRegister => exact foldGetRegister_keeps hb hcode hholds
    | GetPred => exact foldGetPred_keeps hb hcode hholds
    | IAdd32 =>
      exact foldAdd_keeps commutative_iadd32 BitVec.add_zero hknows
        (fun _ hb hcode hholds => foldXmad_keeps hknows hb hcode hholds) hb hcode hholds _
    | IAdd64 =>
      exact foldAdd_keeps commutative_iadd64 BitVec.add_zero hknows
        (fun _ hb _ hholds => keeps_changed hb hholds) hb hcode hholds _
    | ISub32 => exact foldISub32_keeps hknows hb hcode hholds hsafe
    | select t => exact foldSelect_keeps hknows hb hcode hholds
    | LogicalAnd =>
      exact foldLogical_keeps commutative_logicalAnd Bool.and_true Bool.and_false hknows hb hcode hholds
    | LogicalOr =>
      exact foldLogical_keeps commutative_logicalOr Bool.or_false Bool.or_true hknows hb hcode hholds
    | LogicalNot => exact foldLogicalNot_keeps hknows hb hcode hholds
    | compositeExtract t => exact foldCompositeExtract_keeps hknows hb hcode hholds
    | IMul32 | ShiftRightArithmetic32 | BitwiseAnd32 | BitwiseOr32 | BitwiseXor32 | BitFieldInsert
    | BitFieldSExtract | BitFieldUExtract | compare c =>
      exact immediates_keeps rfl hknows hb hcode hholds hsafe
    | ShiftLeftLogical32 | compositeConstruct t | compositeInsert t => exact hsame
    | GetCbufU32 | other n =>
      exact hothers.keeps before fresh inst ν hall hknows.fits hholds

lemma constant_of_not_isImmediate {v : Value} (h : isImmediate before v = false) : constant before v = none := by
  rwa [isImmediate, isSome_eq_false_iff, isNone_iff_eq_none] at h

lemma foldLogical_of_no_immediate {f : Bool → Bool → Bool} {neutral : Bool}
    (h0 : constant before (arg inst 0) = none) (h1 : constant before (arg inst 1) = none) :
    foldLogical f neutral before inst = some ([], inst) := by
  simp [foldLogical, foldCommutative, h0, h1]

/-- **A safe visit leaves an instruction with pseudo-operations alone.** -/
theorem constantPropagation_fixed (hothers : OthersKeepValues p env) {new : List Inst} {i' : Inst}
    (hassociated : p.associated inst.id = true) (hsafe : p.safeVisit before inst = true)
    (h : p.constantPropagation before fresh inst = some (new, i')) : i' = inst := by
  have hunguarded : unguardedFold before inst = false := by
    unfold Params.safeVisit at hsafe
    rwa [if_pos hassociated, Bool.not_eq_true'] at hsafe
  have hsame : some (([] : List Inst), inst) = some (new, i') → i' = inst := by
    intro heq
    cases heq
    rfl
  unfold Params.constantPropagation at h
  unfold unguardedFold at hunguarded
  cases hcode : inst.code with
  | void | identity =>
    rw [hcode] at h
    exact hsame h
  | op op =>
    rw [hcode] at h hunguarded
    cases op with
    | GetRegister =>
      have hne : ¬ arg inst 0 = .imm (.reg zeroRegister) := by simpa using hunguarded
      simp only [foldGetRegister, if_neg hne] at h
      exact hsame h
    | GetPred =>
      have hne : ¬ arg inst 0 = .imm (.pred truePredicate) := by simpa using hunguarded
      simp only [foldGetPred, if_neg hne] at h
      exact hsame h
    | IAdd32 | IAdd64 =>
      simp only [foldAdd, hassociated, if_true] at h
      exact hsame h
    | ISub32 =>
      have hnone : cbufDifference before inst = none := by simpa using hunguarded
      simp only [Params.foldISub32, foldWhenAllImmediates, hassociated, if_true, hnone, ite_self] at h
      exact hsame h
    | select t =>
      simp only [foldSelect, constant_of_not_isImmediate hunguarded] at h
      exact hsame h
    | LogicalAnd | LogicalOr =>
      obtain ⟨h0, h1⟩ := Bool.or_eq_false_iff.1 hunguarded
      dsimp only at h
      rw [foldLogical_of_no_immediate (constant_of_not_isImmediate h0) (constant_of_not_isImmediate h1)] at h
      exact hsame h
    | LogicalNot =>
      obtain ⟨h0, h1⟩ := Bool.or_eq_false_iff.1 hunguarded
      have hnone : instOf before .LogicalNot (arg inst 0) = none := by simpa using h1
      simp only [foldLogicalNot, constant_of_not_isImmediate h0, hnone] at h
      exact hsame h
    | compositeExtract t =>
      dsimp only at h hunguarded
      unfold foldCompositeExtract at h
      split at h
      · rename_i k hk
        rw [hk] at hunguarded
        cases k with
        | u32 index =>
          have hnone : compositeElement t index before (arg inst 0) = none := by
            simpa using hunguarded
          simp only [immU32, map_some, hnone] at h
          exact hsame h
        | _ => cases h
      · exact hsame h
    | IMul32 | ShiftRightArithmetic32 | BitwiseAnd32 | BitwiseOr32 | BitwiseXor32 | BitFieldInsert
    | BitFieldSExtract | BitFieldUExtract | compare c =>
      simp only [foldWhenAllImmediates, hassociated, if_true, getD_none] at h
      exact hsame h
    | ShiftLeftLogical32 | compositeConstruct t | compositeInsert t => exact hsame h
    | GetCbufU32 | other n => exact hothers.fixed before fresh inst new i' hassociated h

/-- The pass gives a program in which every instruction has the value it had, and that has every instruction with
pseudo-operations. -/
def KeepsProgram (p : Params) (env : Inputs) (insts : List Inst) (fresh : ℕ) (ν : ℕ → Val) : Prop :=
  ∃ l ν', p.constantPropagationPass insts fresh = some l ∧ (∀ id < fresh, ν' id = ν id) ∧
    env.meaning.Fits ν' l ∧ ∀ i ∈ insts, p.associated i.id = true → i ∈ l

/-- **Constant propagation keeps all values when no visit meets a defect.** -/
theorem constant_propagation_keeps_values (hothers : OthersKeepValues p env) {insts : List Inst}
    {fresh : ℕ} {ν : ℕ → Val} (hb : ∀ i ∈ insts, i.Below fresh) (hfits : env.meaning.Fits ν insts)
    (hsafe : walkAll p.constantPropagation p.safeVisit insts [] fresh = true) :
    KeepsProgram p env insts fresh ν := by
  have hvisit : ∀ before fresh i ν, (∀ j ∈ i :: before, j.Below fresh) →
      env.meaning.Fits ν before → env.meaning.Holds ν i → p.safeVisit before i = true →
      Keeps env ν fresh (p.constantPropagation before fresh i) := by
    intro before fresh i ν hb hfits hholds hsafe
    exact constantPropagation_keeps hothers ⟨fun j hj => hb j (mem_cons_of_mem _ hj), hfits⟩
      (hb i mem_cons_self) hholds hsafe
  have hfixed : ∀ before fresh i new i', p.safeVisit before i = true → p.associated i.id = true →
      p.constantPropagation before fresh i = some (new, i') → i' = i := by
    intro before fresh i new i' hsafe hassociated heq
    exact constantPropagation_fixed hothers hassociated hsafe heq
  have hb' : ∀ i ∈ insts ++ [], i.Below fresh := by simpa using hb
  have hfits' : env.meaning.Fits ν (insts ++ []) := by simpa using hfits
  obtain ⟨l, ν', hwalk, hagree, hl⟩ := walk_sound hvisit hb' hfits' hsafe
  refine ⟨l, ν', hwalk, hagree, hl, fun i hi hassociated => ?_⟩
  exact walk_fixed hfixed hsafe hwalk (.inl ⟨hi, hassociated⟩)

end Pass

section Demo

def demoInputs : Inputs := ⟨fun _ _ => 10, fun _ _ _ _ => True⟩

/-- Nothing but the integer folds, and one instruction with a pseudo-operation. -/
def demoParams : Params := ⟨fun id => id == 3, fun v _ => v, fun _ _ i => some ([], i)⟩

lemma demo_others : OthersKeepValues demoParams demoInputs where
  keeps _ _ inst _ hb _ hholds := keeps_changed (hb inst mem_cons_self) hholds
  fixed _ _ _ _ _ _ h := by
    cases h
    rfl

/-- A sum of three, whose immediates are combined, and a sum that has a pseudo-operation. -/
def demoProgram : List Inst :=
  [⟨0, .op .GetCbufU32, [.imm (.u32 0), .imm (.u32 4)]⟩, ⟨1, .op .IAdd32, [.inst 0, .imm (.u32 5)]⟩,
   ⟨2, .op .IAdd32, [.imm (.u32 7), .inst 1]⟩,
   ⟨3, .op .IAdd32, [.imm (.u32 1), .imm (.u32 1)]⟩]

def demoValues (id : ℕ) : Val :=
  [.u32 10, .u32 15, .u32 22, .u32 2].getD id (.u32 0)

lemma demo_fits : demoInputs.meaning.Fits demoValues demoProgram := by
  intro i hi
  simp only [demoProgram, mem_cons, not_mem_nil, or_false] at hi
  rcases hi with rfl | rfl | rfl | rfl
  · exact ⟨_, _, rfl, rfl⟩
  · exact ⟨10, 5, rfl, rfl⟩
  · exact ⟨7, 15, rfl, rfl⟩
  · exact ⟨1, 1, rfl, rfl⟩

theorem constant_propagation_keeps_values_demo :
    demoParams.constantPropagationPass demoProgram 4 =
        some [⟨0, .op .GetCbufU32, [.imm (.u32 0), .imm (.u32 4)]⟩, ⟨1, .op .IAdd32, [.inst 0, .imm (.u32 5)]⟩,
          ⟨2, .op .IAdd32, [.inst 0, .imm (.u32 12)]⟩,
          ⟨3, .op .IAdd32, [.imm (.u32 1), .imm (.u32 1)]⟩] ∧
      KeepsProgram demoParams demoInputs demoProgram 4 demoValues :=
  ⟨by decide +kernel, constant_propagation_keeps_values demo_others
    (by simp [demoProgram, Inst.Below]) demo_fits (by decide +kernel)⟩

instance neZero_registers : NeZero 256 := ⟨by decide⟩

/-- `c - (x + c)`, for an element `c` of a constant buffer. -/
def swappedProgram : List Inst :=
  [⟨0, .op .GetRegister, [.imm (.reg 1)]⟩, ⟨1, .op .GetCbufU32, [.imm (.u32 0), .imm (.u32 4)]⟩,
   ⟨2, .op .IAdd32, [.inst 0, .inst 1]⟩,
   ⟨3, .op .ISub32, [.inst 1, .inst 2]⟩]

def swappedValues (id : ℕ) : Val :=
  [.u32 1, .u32 10, .u32 11, .u32 (-1)].getD id (.u32 0)

/-- **The difference becomes `x`.** -/
theorem swapped_difference_changes :
    ¬ ∀ (p : Params) (env : Inputs) (insts : List Inst) (fresh : ℕ) (ν : ℕ → Val),
      OthersKeepValues p env → (∀ i ∈ insts, i.Below fresh) → env.meaning.Fits ν insts →
        KeepsProgram p env insts fresh ν := by
  intro h
  have hfits : demoInputs.meaning.Fits swappedValues swappedProgram := by
    intro i hi
    simp only [swappedProgram, mem_cons, not_mem_nil, or_false] at hi
    rcases hi with rfl | rfl | rfl | rfl
    · exact ⟨1, 1, rfl, rfl, by decide⟩
    · exact ⟨_, _, rfl, rfl⟩
    · exact ⟨1, 10, rfl, rfl⟩
    · exact ⟨10, 11, rfl, rfl⟩
  have hothers : OthersKeepValues { demoParams with associated := fun _ => false } demoInputs :=
    ⟨demo_others.keeps, fun _ _ _ _ _ h => by cases h⟩
  obtain ⟨l, ν', hpass, hagree, hl, -⟩ := h _ _ swappedProgram 4 swappedValues hothers
    (by simp [swappedProgram, Inst.Below]) hfits
  have hmem : (⟨3, .identity, [.inst 0]⟩ : Inst) ∈ l := by
    have heq : Params.constantPropagationPass { demoParams with associated := fun _ => false }
        swappedProgram 4 = some (swappedProgram.take 3 ++ [⟨3, .identity, [.inst 0]⟩]) := by
      decide +kernel
    cases hpass.symm.trans heq
    simp
  have hvalue := hl _ hmem (.inst 0) rfl
  simp only [Meaning.value] at hvalue
  rw [hagree 3 (by decide), hagree 0 (by decide)] at hvalue
  exact absurd hvalue (by decide)

end Demo

end Voltemu.Shader
