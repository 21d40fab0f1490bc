import Voltemu.Dynarmic.ConstantPropagation

/-!
# The values of folded operations

`ConstantPropagation` computes with 64 bits and cuts the result.  What it gives for immediates is what the
operation means; for each fold there is one lemma.
-/

namespace Voltemu.Dynarmic.Folding

open Voltemu.Lib BitVec

variable {O α : Type*}

/-! ## Arguments -/

section Arguments

variable {β β' γ : Type*} {get : Val α → Option β} {get' : Val α → Option β'} {ks : List (Val α)} {q : γ}

lemma unary_eq_some {f : β → γ} (h : unary get f ks = some q) : ∃ a x, ks = [a] ∧ get a = some x ∧ q = f x := by
  unfold unary at h
  split at h
  · obtain ⟨x, hx, rfl⟩ := Option.map_eq_some_iff.1 h
    exact ⟨_, x, rfl, hx, rfl⟩
  · simp at h

lemma binary_eq_some {f : β → β' → γ} (h : binary get get' f ks = some q) :
    ∃ a b x y, ks = [a, b] ∧ get a = some x ∧ get' b = some y ∧ q = f x y := by
  unfold binary at h
  split at h
  · obtain ⟨x, hx, hq⟩ := Option.bind_eq_some_iff.1 h
    obtain ⟨y, hy, rfl⟩ := Option.map_eq_some_iff.1 hq
    exact ⟨_, _, x, y, rfl, hx, hy, rfl⟩
  · simp at h

lemma withCarry_eq_some {f : β → β' → Bool → γ} (h : withCarry get get' f ks = some q) :
    ∃ a b c x y, ks = [a, b, .u1 c] ∧ get a = some x ∧ get' b = some y ∧ q = f x y c := by
  unfold withCarry at h
  split at h
  · obtain ⟨x, hx, hq⟩ := Option.bind_eq_some_iff.1 h
    obtain ⟨y, hy, rfl⟩ := Option.map_eq_some_iff.1 hq
    exact ⟨_, _, _, x, y, rfl, hx, hy, rfl⟩
  · simp at h

end Arguments

/-! ## Immediates -/

section Immediates

variable (w : Width)

@[simp] lemma get_val (x : BitVec w.bits) : w.get (w.val x : Val α) = some x :=
  Width.get_eq_some.2 rfl

@[simp] lemma getImm_val (x : BitVec w.bits) : w.getImm (w.val x : Val α) = x := by
  simp [Width.getImm]

lemma asU64_val (x : BitVec w.bits) : asU64 (w.val x : Val α) = x.setWidth 64 := by
  cases w with
  | w32 => rfl
  | w64 => exact (setWidth_eq x).symm

lemma asS64_val (x : BitVec w.bits) : asS64 (w.val x : Val α) = x.signExtend 64 := by
  cases w with
  | w32 => rfl
  | w64 => exact (signExtend_eq x).symm

lemma asU64_size (s : Size) (x : BitVec s.bits) : asU64 (s.val x : Val α) = x.setWidth 64 := by
  cases s <;> rfl

lemma asS64_size (s : Size) (x : BitVec s.bits) : asS64 (s.val x : Val α) = x.signExtend 64 := by
  cases s <;> rfl

lemma ofU64_eq (x : BitVec 64) : (w.ofU64 x : Val α) = w.val (x.setWidth w.bits) := by
  cases w with
  | w32 => rfl
  | w64 => simp [Width.ofU64, Width.val]

lemma bits_le : w.bits ≤ 64 := by
  cases w <;> decide

lemma setWidth_setWidth_bits (x : BitVec w.bits) : (x.setWidth 64).setWidth w.bits = x := by
  have := bits_le w
  rw [setWidth_setWidth_of_le _ this, setWidth_eq]

lemma asU64_inj {x y : BitVec w.bits} : x.setWidth 64 = y.setWidth 64 ↔ x = y :=
  ⟨fun h => by rw [← setWidth_setWidth_bits w x, h, setWidth_setWidth_bits], fun h => by rw [h]⟩

lemma setWidth_signExtend_of_le {n u v : ℕ} {x : BitVec n} (h : u ≤ v) :
    (x.signExtend v).setWidth u = x.signExtend u := by
  ext i hi
  rw [getElem_setWidth, getLsbD_signExtend, getElem_signExtend]
  have hv : i < v := Nat.lt_of_lt_of_le hi h
  split_ifs with hn
  · simp [hv, getLsbD_eq_getElem hn]
  · simp [hv]

lemma toNat_mask (y : BitVec w.bits) : (y &&& BitVec.ofNat w.bits (w.bits - 1)).toNat = y.toNat % w.bits := by
  rw [toNat_and]
  cases w with
  | w32 => exact Nat.and_two_pow_sub_one_eq_mod y.toNat 5
  | w64 => exact Nat.and_two_pow_sub_one_eq_mod y.toNat 6

end Immediates

/-! ## All arguments are immediates -/

def Folds (op : Op O) (f : List (Val α) → Option (Val α)) : Prop :=
  ∀ ks q, compute op ks = some q → f ks = some q.1

section Folds

variable {op : Op O}

lemma Folds.unary {β : Type*} {get : Val α → Option β} {val : β → Val α} {g : β → Val α × Extra α}
    {f : Val α → Val α} (hop : compute op = Folding.unary get g)
    (hget : ∀ a x, get a = some x → a = val x) (h : ∀ x, f (val x) = (g x).1) :
    Folds op (one f) := by
  intro ks q hq
  rw [hop] at hq
  obtain ⟨a, x, rfl, ha, rfl⟩ := unary_eq_some hq
  rw [hget a x ha, one, h]

lemma Folds.binary {β : Type*} {get : Val α → Option β} {val : β → Val α}
    {g : β → β → Val α × Extra α} {f : Val α → Val α → Val α} (hop : compute op = Folding.binary get get g)
    (hget : ∀ a x, get a = some x → a = val x) (h : ∀ x y, f (val x) (val y) = (g x y).1) :
    Folds op (two f) := by
  intro ks q hq
  rw [hop] at hq
  obtain ⟨a, b, x, y, rfl, ha, hb, rfl⟩ := binary_eq_some hq
  rw [hget a x ha, hget b y hb, two, h]

lemma Folds.withCarry {β : Type*} {get : Val α → Option β} {val : β → Val α}
    {g : β → β → Bool → Val α × Extra α} {f : Val α → Val α → Val α → Val α}
    (hop : compute op = Folding.withCarry get get g) (hget : ∀ a x, get a = some x → a = val x)
    (h : ∀ x y c, f (val x) (val y) (.u1 c) = (g x y c).1) : Folds op (three f) := by
  intro ks q hq
  rw [hop] at hq
  obtain ⟨a, b, c, x, y, rfl, ha, hb, rfl⟩ := withCarry_eq_some hq
  rw [hget a x ha, hget b y hb, three, h]

variable (O α)

lemma folds_leastSignificantByte :
    Folds (.leastSignificantByte : Op O) (one (α := α) fun k => .u8 ((asU64 k).setWidth 8)) :=
  .unary rfl (fun _ _ => Width.get_eq_some.1) fun x => by
    rw [asU64_val, setWidth_setWidth_of_le _ (by decide)]

lemma folds_leastSignificantHalf :
    Folds (.leastSignificantHalf : Op O) (one (α := α) fun k => .u16 ((asU64 k).setWidth 16)) :=
  .unary rfl (fun _ _ => Width.get_eq_some.1) fun x => by
    rw [asU64_val, setWidth_setWidth_of_le _ (by decide)]

lemma folds_leastSignificantWord :
    Folds (.leastSignificantWord : Op O) (one (α := α) fun k => .u32 ((asU64 k).setWidth 32)) :=
  .unary rfl (fun _ _ => Width.get_eq_some.1) fun x => by
    rw [asU64_val, setWidth_setWidth_of_le _ (by decide)]

lemma folds_mostSignificantBit : Folds (.mostSignificantBit : Op O) (one (α := α) fun k => .u1 (asU64 k >>> 31 != 0)) :=
  .unary rfl (fun _ _ => Width.get_eq_some.1) fun x => by
    have hmsb : (x.setWidth 64 >>> 31 != 0#64) = x.msb := by
      rw [Bool.eq_iff_iff, bne_iff_ne, msb_eq_decide, decide_eq_true_iff, ne_eq, ← toNat_inj]
      have := x.isLt
      simp only [toNat_ushiftRight, toNat_setWidth, toNat_ofNat]
      simp only [Nat.shiftRight_eq_div_pow]
      change x.toNat < 2 ^ 32 at this
      change ¬ x.toNat % 2 ^ 64 / 2 ^ 31 = 0 % 2 ^ 64 ↔ 2 ^ (32 - 1) ≤ x.toNat
      omega
    rw [asU64_val]
    exact congrArg Val.u1 hmsb

lemma folds_not (w : Width) : Folds (.not w : Op O) (one (α := α) fun k => w.ofU64 (~~~(asU64 k))) :=
  .unary rfl (fun _ _ => Width.get_eq_some.1) fun x => by
    rw [asU64_val, ofU64_eq, setWidth_not (bits_le w), setWidth_setWidth_bits]

lemma folds_isZero (w : Width) : Folds (.isZero w : Op O) (one (α := α) fun k => .u1 (w.getImm k == 0)) :=
  .unary rfl (fun _ _ => Width.get_eq_some.1) fun x => by rw [getImm_val]

lemma folds_signExtend_word (s : Size) :
    Folds (.signExtend s .w32 : Op O) (one (α := α) fun k => .u32 ((asS64 k).setWidth 32)) :=
  .unary rfl (fun _ _ => Size.get_eq_some.1) fun x => by
    rw [asS64_size, setWidth_signExtend_of_le (by decide)]
    rfl

lemma folds_signExtend_long (s : Size) : Folds (.signExtend s .w64 : Op O) (one (α := α) fun k => .u64 (asS64 k)) :=
  .unary rfl (fun _ _ => Size.get_eq_some.1) fun x => by
    rw [asS64_size]
    rfl

lemma folds_zeroExtend_word (s : Size) :
    Folds (.zeroExtend s .w32 : Op O) (one (α := α) fun k => .u32 ((asU64 k).setWidth 32)) :=
  .unary rfl (fun _ _ => Size.get_eq_some.1) fun x => by
    rw [asU64_size, setWidth_setWidth_of_le _ (by decide)]
    rfl

lemma folds_zeroExtend_long (s : Size) : Folds (.zeroExtend s .w64 : Op O) (one (α := α) fun k => .u64 (asU64 k)) :=
  .unary rfl (fun _ _ => Size.get_eq_some.1) fun x => by
    rw [asU64_size]
    rfl

lemma folds_byteReverseWord :
    Folds (.byteReverseWord : Op O) (one (α := α) fun k => .u32 (swapBytes32 ((asU64 k).setWidth 32))) :=
  .unary rfl (fun _ _ => Size.get_eq_some.1) fun x => by
    rw [asU64_size, setWidth_setWidth_of_le _ (by decide), setWidth_eq]

lemma folds_byteReverseHalf :
    Folds (.byteReverseHalf : Op O) (one (α := α) fun k => .u16 (swapBytes16 ((asU64 k).setWidth 16))) :=
  .unary rfl (fun _ _ => Size.get_eq_some.1) fun x => by
    rw [asU64_size, setWidth_setWidth_of_le _ (by decide), setWidth_eq]

lemma folds_byteReverseDual : Folds (.byteReverseDual : Op O) (one (α := α) fun k => .u64 (swapBytes64 (asU64 k))) :=
  .unary rfl (fun _ _ => Width.get_eq_some.1) fun x => by
    rw [asU64_val, setWidth_eq]

lemma folds_countLeadingZeros (w : Width) : Folds (.countLeadingZeros w : Op O) (one (α := α) fun k => countlZero k w) :=
  .unary rfl (fun _ _ => Width.get_eq_some.1) fun x => by
    cases w with
    | w32 =>
      rw [countlZero, asU64_val, setWidth_setWidth_of_le _ (by decide), setWidth_eq]
      rfl
    | w64 =>
      rw [countlZero, asU64_val, setWidth_eq]
      rfl

lemma folds_shiftMasked (k : Shift) (w : Width) :
    Folds (.shiftMasked k w : Op O) (two (α := α) fun x y =>
      w.ofU64 (maskedShift (w.getImm x) (w.getImm y) k)) :=
  .binary rfl (fun _ _ => Width.get_eq_some.1) fun x y => by
    rw [getImm_val, getImm_val, ofU64_eq]
    refine Width.val_inj.2 ?_
    cases k with
    | logicalLeft => rw [maskedShift, setWidth_setWidth_bits, toNat_mask, Shift.apply]
    | logicalRight => rw [maskedShift, setWidth_setWidth_bits, toNat_mask, Shift.apply]
    | arithmeticRight =>
      rw [maskedShift, setWidth_signExtend_of_le (bits_le w), toNat_mask, Shift.apply, signExtend_eq]
    | rotateRight => rw [maskedShift, setWidth_setWidth_bits, Shift.apply, rotateRight_mod_eq_rotateRight]

lemma folds_sub (w : Width) :
    Folds (.sub w : Op O) (three (α := α) fun a b c =>
      w.ofU64 (asU64 a + ~~~(asU64 b) + BitVec.ofNat 64 (getU1 c).toNat)) :=
  .withCarry rfl (fun _ _ => Width.get_eq_some.1) fun x y c => by
    have hle := bits_le w
    rw [asU64_val, asU64_val, ofU64_eq, setWidth_add _ _ hle, setWidth_add _ _ hle,
      setWidth_not hle, setWidth_setWidth_bits, setWidth_setWidth_bits,
      setWidth_ofNat_of_le hle]
    rfl

lemma folds_add (w : Width) :
    Folds (.add w : Op O) (three (α := α) fun a b c =>
      w.ofU64 (asU64 a + asU64 b + BitVec.ofNat 64 (getU1 c).toNat)) :=
  .withCarry rfl (fun _ _ => Width.get_eq_some.1) fun x y c => by
    have hle := bits_le w
    rw [asU64_val, asU64_val, ofU64_eq, setWidth_add _ _ hle, setWidth_add _ _ hle,
      setWidth_setWidth_bits, setWidth_setWidth_bits, setWidth_ofNat_of_le hle]
    rfl

end Folds

/-! ## Commutative operations -/

/-- An operation on two operands that `FoldCommutative` can regroup.  The flags depend on the value only. -/
structure Commutes (op : Op O) (w : Width) (fn : BitVec 64 → BitVec 64 → BitVec 64)
    (f : BitVec w.bits → BitVec w.bits → BitVec w.bits) (e : BitVec w.bits → Extra α) : Prop where
  meaning : compute op = binary w.get w.get fun x y => (w.val (f x y), e (f x y))
  fold : ∀ x y, (fn (x.setWidth 64) (y.setWidth 64)).setWidth w.bits = f x y
  comm : ∀ x y, f x y = f y x
  assoc : ∀ x y z, f (f x y) z = f x (f y z)

variable {op : Op O} {w : Width} {fn : BitVec 64 → BitVec 64 → BitVec 64}
  {f : BitVec w.bits → BitVec w.bits → BitVec w.bits} {e : BitVec w.bits → Extra α}

lemma Commutes.compute_val (h : Commutes op w fn f e) (x y : BitVec w.bits) :
    compute op [w.val x, w.val y] = some (w.val (f x y), e (f x y)) := by
  rw [h.meaning]
  simp [binary]

lemma Commutes.fold_val (h : Commutes op w fn f e) (x y : BitVec w.bits) :
    (w.ofU64 (fn (asU64 (w.val x : Val α)) (asU64 (w.val y : Val α))) : Val α) = w.val (f x y) := by
  rw [asU64_val, asU64_val, ofU64_eq, h.fold]

section Commutes

variable (O α) (w)

lemma commutes_and : Commutes (.and w : Op O) w (· &&& ·) (· &&& ·) (logicExtra (α := α)) where
  meaning := rfl
  fold x y := by
    rw [← setWidth_and, setWidth_setWidth_bits]
  comm := and_comm
  assoc := and_assoc

lemma commutes_eor : Commutes (.eor w : Op O) w (· ^^^ ·) (· ^^^ ·) (logicExtra (α := α)) where
  meaning := rfl
  fold x y := by
    rw [← setWidth_xor, setWidth_setWidth_bits]
  comm := BitVec.xor_comm
  assoc := BitVec.xor_assoc

lemma commutes_or : Commutes (.or w : Op O) w (· ||| ·) (· ||| ·) (logicExtra (α := α)) where
  meaning := rfl
  fold x y := by
    rw [← setWidth_or, setWidth_setWidth_bits]
  comm := or_comm
  assoc := or_assoc

lemma commutes_mul : Commutes (.mul w : Op O) w (· * ·) (· * ·) (fun _ => noExtra (α := α)) where
  meaning := rfl
  fold x y := by
    rw [setWidth_mul _ _ (bits_le w), setWidth_setWidth_bits, setWidth_setWidth_bits]
  comm := BitVec.mul_comm
  assoc := BitVec.mul_assoc

end Commutes

/-! ## Division -/

section Division

variable (w) (x y : BitVec w.bits)

lemma udiv_fold : (x.setWidth 64 / y.setWidth 64).setWidth w.bits = x / y := by
  have hle := Nat.pow_le_pow_right (n := 2) (by decide) (bits_le w)
  apply eq_of_toNat_eq
  rw [toNat_setWidth, toNat_udiv, toNat_udiv, toNat_setWidth_of_le (bits_le w), toNat_setWidth_of_le (bits_le w)]
  exact Nat.mod_eq_of_lt (Nat.lt_of_le_of_lt (Nat.div_le_self _ _) x.isLt)

lemma sdiv_fold : ((x.signExtend 64).sdiv (y.signExtend 64)).setWidth w.bits = x.sdiv y := by
  have hdvd : 2 ^ w.bits ∣ 2 ^ 64 := Nat.pow_dvd_pow 2 (bits_le w)
  apply eq_of_toInt_eq
  rw [toInt_setWidth, toInt_sdiv, ← Int.bmod_bmod_of_dvd hdvd, ← toInt_eq_toNat_bmod,
    toInt_sdiv, toInt_signExtend_of_le (bits_le w), toInt_signExtend_of_le (bits_le w),
    Int.bmod_bmod_of_dvd hdvd]

end Division

/-! ## Shifts -/

lemma safeShift_eq {n : ℕ} (k : Shift) (x : BitVec n) (amount : ℕ) : safeShift k x amount = k.apply x amount := by
  cases k with
  | logicalLeft =>
    simp only [safeShift, Shift.apply]
    split_ifs with h
    · exact (shiftLeft_eq_zero h).symm
    · rfl
  | logicalRight =>
    simp only [safeShift, Shift.apply]
    split_ifs with h
    · exact (ushiftRight_eq_zero h).symm
    · rfl
  | arithmeticRight =>
    simp only [safeShift, Shift.apply]
    split_ifs with h hmsb
    · ext i hi
      simp [getElem_sshiftRight, hmsb, show ¬ amount + i < n by omega]
    · ext i hi
      simp [getElem_sshiftRight, hmsb, show ¬ amount + i < n by omega]
    · rfl
  | rotateRight => rfl

end Voltemu.Dynarmic.Folding
