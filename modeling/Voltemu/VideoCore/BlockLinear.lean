import Voltemu.VideoCore.Decoders
import Mathlib.Tactic

/-!
# The block linear layout

A block linear surface is cut into GOBs of 64 bytes by 8 lines.  A block is a column of `2 ^ blockHeight` by
`2 ^ blockDepth` GOBs.  `Layout.offset` is where a byte of the image lies in the surface.

* `Layout.offset_injective`, `Layout.offset_lt`: the digits of an offset are the place in the GOB, the GOB in the
  block by `y` and then by `z`, the block in the line, and the line and the slice of blocks.
* **`SwizzleTexture` stores every byte at its offset** and `UnswizzleTexture` reads it back, whatever the size of a
  pixel that the two work with.
-/

namespace Voltemu.VideoCore.Decoders

open Copies List Nat

/-! ## The layout -/

/-- The dimensions of a surface: GOBs in a line, lines and slices of blocks, and the logarithms of a block's. -/
structure Layout where
  gobsInX : ℕ
  blocksInY : ℕ
  blocksInZ : ℕ
  blockHeight : ℕ
  blockDepth : ℕ

namespace Layout

variable {l : Layout} {x y z x' y' z' : ℕ}

/-- The place in its GOB of byte `x` of line `y`. -/
def gobOffset (x y : ℕ) : ℕ :=
  makeSwizzleTable ⟨y % 8, mod_lt _ (by decide)⟩ ⟨x % 64, mod_lt _ (by decide)⟩

/-- Where byte `x` of line `y` of slice `z` is stored. -/
def offset (l : Layout) (x y z : ℕ) : ℕ :=
  gobOffset x y + 512 *
    (y / 8 % 2 ^ l.blockHeight + 2 ^ l.blockHeight *
      (z % 2 ^ l.blockDepth + 2 ^ l.blockDepth *
        (x / 64 + l.gobsInX * (y / 8 / 2 ^ l.blockHeight + l.blocksInY * (z / 2 ^ l.blockDepth)))))

def size (l : Layout) : ℕ :=
  512 * (2 ^ l.blockHeight * (2 ^ l.blockDepth * (l.gobsInX * (l.blocksInY * l.blocksInZ))))

structure Inside (l : Layout) (x y z : ℕ) : Prop where
  x_lt : x / 64 < l.gobsInX
  y_lt : y / 8 / 2 ^ l.blockHeight < l.blocksInY
  z_lt : z / 2 ^ l.blockDepth < l.blocksInZ

lemma digit_inj {m a a' b b' : ℕ} (ha : a < m) (ha' : a' < m) (h : a + m * b = a' + m * b') : a = a' ∧ b = b' := by
  have hdigit : a = a' := by
    have := congrArg (· % m) h
    simpa [add_mul_mod_self_left, mod_eq_of_lt, ha, ha'] using this
  subst hdigit
  have hm : 0 < m := zero_lt_of_lt ha
  exact ⟨rfl, Nat.eq_of_mul_eq_mul_left hm (Nat.add_left_cancel h)⟩

lemma digit_lt {m n a b : ℕ} (ha : a < m) (hb : b < n) : a + m * b < m * n := by
  calc a + m * b < m + m * b := by omega
    _ = m * (b + 1) := by ring
    _ ≤ m * n := mul_le_mul_left m hb

lemma gobOffset_eq (x y : ℕ) :
    gobOffset x y = x % 16 + 16 * (y % 2 + 2 * (x / 16 % 2 + 2 * (y / 2 % 4 + 4 * (x / 32 % 2)))) := by
  have hx : x % 64 / 32 = x / 32 % 2 := by omega
  have hx' : x % 32 / 16 = x / 16 % 2 := by omega
  have hy : y % 8 / 2 = y / 2 % 4 := by omega
  simp only [gobOffset, makeSwizzleTable, Nat.mod_mod, Nat.mod_mod_of_dvd x (by decide : 32 ∣ 64),
    Nat.mod_mod_of_dvd x (by decide : 16 ∣ 64), Nat.mod_mod_of_dvd y (by decide : 2 ∣ 8), hx, hx', hy]
  ring

lemma gobOffset_lt (x y : ℕ) : gobOffset x y < 512 := by
  rw [gobOffset_eq]
  exact digit_lt (n := 32) (mod_lt _ (by decide)) (digit_lt (n := 16) (mod_lt _ (by decide)) (digit_lt (n := 8) (mod_lt _ (by decide))
    (digit_lt (n := 2) (mod_lt _ (by decide)) (mod_lt _ (by decide)))))

/-- Within a group of 16 the bytes follow one another. -/
lemma gobOffset_add {i : ℕ} (hgroup : (x + i) / 16 = x / 16) (y : ℕ) : gobOffset (x + i) y = gobOffset x y + i := by
  have hhalf : (x + i) / 32 = x / 32 := by omega
  rw [gobOffset_eq, gobOffset_eq, hgroup, hhalf, ← Nat.add_right_comm]
  congr 1
  omega

lemma gobOffset_inj (h : gobOffset x y = gobOffset x' y') : x % 64 = x' % 64 ∧ y % 8 = y' % 8 := by
  rw [gobOffset_eq, gobOffset_eq] at h
  obtain ⟨hx, h⟩ := digit_inj (mod_lt _ (by decide)) (mod_lt _ (by decide)) h
  obtain ⟨hy, h⟩ := digit_inj (mod_lt _ (by decide)) (mod_lt _ (by decide)) h
  obtain ⟨hx', h⟩ := digit_inj (mod_lt _ (by decide)) (mod_lt _ (by decide)) h
  obtain ⟨hy', hx''⟩ := digit_inj (mod_lt _ (by decide)) (mod_lt _ (by decide)) h
  omega

lemma offset_injective (h : l.Inside x y z) (h' : l.Inside x' y' z')
    (heq : l.offset x y z = l.offset x' y' z') : x = x' ∧ y = y' ∧ z = z' := by
  have hheight : 0 < 2 ^ l.blockHeight := by positivity
  have hdepth : 0 < 2 ^ l.blockDepth := by positivity
  obtain ⟨hgob, heq⟩ := digit_inj (gobOffset_lt x y) (gobOffset_lt x' y') heq
  obtain ⟨hx, hy⟩ := gobOffset_inj hgob
  obtain ⟨hgobY, heq⟩ := digit_inj (mod_lt _ hheight) (mod_lt _ hheight) heq
  obtain ⟨hgobZ, heq⟩ := digit_inj (mod_lt _ hdepth) (mod_lt _ hdepth) heq
  obtain ⟨hgobX, heq⟩ := digit_inj h.x_lt h'.x_lt heq
  obtain ⟨hblockY, hblockZ⟩ := digit_inj h.y_lt h'.y_lt heq
  have hy8 : y / 8 = y' / 8 := by
    rw [← div_add_mod (y / 8) (2 ^ l.blockHeight), hblockY, hgobY, div_add_mod]
  have hz : z = z' := by
    rw [← div_add_mod z (2 ^ l.blockDepth), hblockZ, hgobZ, div_add_mod]
  exact ⟨by omega, by omega, hz⟩

lemma offset_lt (h : l.Inside x y z) : l.offset x y z < l.size := by
  have hheight : 0 < 2 ^ l.blockHeight := by positivity
  have hdepth : 0 < 2 ^ l.blockDepth := by positivity
  refine digit_lt (gobOffset_lt x y) (digit_lt (mod_lt _ hheight) (digit_lt (mod_lt _ hdepth) ?_))
  exact digit_lt h.x_lt (digit_lt h.y_lt h.z_lt)

/-- The bytes of an aligned group of up to 16 are stored one after the other. -/
lemma offset_add {e i : ℕ} (c : ℕ) (he : e ≤ 4) (hi : i < 2 ^ e) :
    l.offset (c * 2 ^ e + i) y z = l.offset (c * 2 ^ e) y z + i := by
  have hgroup : (c * 2 ^ e + i) / 16 = c * 2 ^ e / 16 := by
    obtain ⟨d, hd⟩ : 2 ^ e ∣ 16 := Nat.pow_dvd_pow 2 he
    rw [hd, ← Nat.div_div_eq_div_mul, ← Nat.div_div_eq_div_mul, add_comm, add_mul_div_right _ _ (by positivity), Nat.div_eq_of_lt hi,
      Nat.zero_add, Nat.mul_div_cancel _ (by positivity)]
  generalize c * 2 ^ e = x at hgroup ⊢
  have hquarter : (x + i) / 64 = x / 64 := by omega
  rw [offset, offset, gobOffset_add hgroup, hquarter, Nat.add_right_comm]

end Layout

variable {a b n height pitch x y z depth : ℕ}

/-- A line of a surface lies in its blocks, rounded up. -/
lemma div_lt_ceilDiv (hb : 0 < b) (h : a < n) : a / b < n ⌈/⌉ b := by
  by_contra hle
  have hn : n ≤ b * (a / b) := (ceilDiv_le_iff_le_mul hb).1 (not_lt.1 hle)
  have ha : b * (a / b) ≤ a := mul_div_le a b
  omega

lemma le_mul_ceilDiv (hb : 0 < b) : a ≤ b * (a ⌈/⌉ b) := (ceilDiv_le_iff_le_mul hb).1 le_rfl

/-- The layout of a surface whose lines have `stride` bytes. -/
def layoutOf (stride height depth blockHeight blockDepth : ℕ) : Layout where
  gobsInX := stride ⌈/⌉ 64
  blocksInY := height ⌈/⌉ 2 ^ (blockHeight + 3)
  blocksInZ := depth ⌈/⌉ 2 ^ blockDepth
  blockHeight := blockHeight
  blockDepth := blockDepth

section

variable {stride blockHeight blockDepth : ℕ}

lemma layoutOf_inside (hx : x < stride) (hy : y < height) (hz : z < depth) :
    (layoutOf stride height depth blockHeight blockDepth).Inside x y z where
  x_lt := div_lt_ceilDiv (by decide) hx
  y_lt := by
    have h := div_lt_ceilDiv (b := 2 ^ (blockHeight + 3)) (by positivity) hy
    have hpow : 2 ^ (blockHeight + 3) = 8 * 2 ^ blockHeight := by ring
    simp only [layoutOf]
    rw [Nat.div_div_eq_div_mul, ← hpow]
    exact h
  z_lt := div_lt_ceilDiv (by positivity) hz

lemma image_le_size (stride height depth blockHeight blockDepth : ℕ) :
    stride * height * depth ≤ (layoutOf stride height depth blockHeight blockDepth).size := by
  have hx : stride ≤ 64 * (stride ⌈/⌉ 64) := le_mul_ceilDiv (by norm_num)
  have hy : height ≤ 2 ^ (blockHeight + 3) * (height ⌈/⌉ 2 ^ (blockHeight + 3)) :=
    le_mul_ceilDiv (by positivity)
  have hz : depth ≤ 2 ^ blockDepth * (depth ⌈/⌉ 2 ^ blockDepth) := le_mul_ceilDiv (by positivity)
  calc stride * height * depth
      ≤ 64 * (stride ⌈/⌉ 64) * (2 ^ (blockHeight + 3) * (height ⌈/⌉ 2 ^ (blockHeight + 3))) *
          (2 ^ blockDepth * (depth ⌈/⌉ 2 ^ blockDepth)) := by gcongr
    _ = (layoutOf stride height depth blockHeight blockDepth).size := by
        simp only [Layout.size, layoutOf, pow_add]
        ring

end

/-! ## `pdep` -/

lemma pdep_swizzleXBits (n : ℕ) :
    pdep swizzleXBits (BitVec.ofNat 32 n) = pdep swizzleXBits (BitVec.ofNat 32 (n % 64)) := by
  have hlow : ∀ v : BitVec 32, pdep swizzleXBits v = pdep swizzleXBits (v &&& 63#32) := by
    intro v
    simp [pdep, pdepLoop, swizzleXBits, BitVec.and_assoc]
  rw [hlow, hlow (BitVec.ofNat 32 (n % 64))]
  congr 1
  apply BitVec.eq_of_toNat_eq
  have hmask : (63#32).toNat = 2 ^ 6 - 1 := rfl
  simp only [BitVec.toNat_and, BitVec.toNat_ofNat, hmask, and_two_pow_sub_one_eq_mod]
  omega

lemma pdep_swizzleYBits (n : ℕ) :
    pdep swizzleYBits (BitVec.ofNat 32 n) = pdep swizzleYBits (BitVec.ofNat 32 (n % 8)) := by
  have hlow : ∀ v : BitVec 32, pdep swizzleYBits v = pdep swizzleYBits (v &&& 7#32) := by
    intro v
    simp [pdep, pdepLoop, swizzleYBits, BitVec.and_assoc]
  rw [hlow, hlow (BitVec.ofNat 32 (n % 8))]
  congr 1
  apply BitVec.eq_of_toNat_eq
  have hmask : (7#32).toNat = 2 ^ 3 - 1 := rfl
  simp only [BitVec.toNat_and, BitVec.toNat_ofNat, hmask, and_two_pow_sub_one_eq_mod]
  omega

lemma pdep_or (x y : ℕ) :
    (pdep swizzleXBits (BitVec.ofNat 32 x) ||| pdep swizzleYBits (BitVec.ofNat 32 y)).toNat =
      Layout.gobOffset x y := by
  have htable : ∀ (x : Fin 64) (y : Fin 8),
      (pdep swizzleXBits (BitVec.ofNat 32 x) ||| pdep swizzleYBits (BitVec.ofNat 32 y)).toNat =
        makeSwizzleTable y x := by
    decide +kernel
  rw [pdep_swizzleXBits, pdep_swizzleYBits]
  exact htable ⟨x % 64, mod_lt _ (by decide)⟩ ⟨y % 8, mod_lt _ (by decide)⟩

/-- Where `pdep` puts the six bits of a place in a line. -/
def spread (n : ℕ) : ℕ := n % 16 + n / 16 % 2 * 32 + n / 32 % 2 * 256

lemma spread_mod (n : ℕ) : spread (n % 64) = spread n := by
  rw [spread, spread]
  omega

lemma toNat_pdep (n : ℕ) : (pdep swizzleXBits (BitVec.ofNat 32 n)).toNat = spread n := by
  have htable : ∀ n : Fin 64, (pdep swizzleXBits (BitVec.ofNat 32 n)).toNat = spread n := by decide +kernel
  rw [pdep_swizzleXBits, htable ⟨n % 64, mod_lt _ (by decide)⟩, spread_mod]

/-- The ones between the bits pass the carry on. -/
lemma spread_add (hn : n ≤ 16) (x : ℕ) : ((spread x ||| 4294966992) + spread n) % 2 ^ 32 &&& 303 = spread (x + n) := by
  have htable : (range 64).all fun x => (range 17).all fun n =>
      ((spread x ||| 4294966992) + spread n) % 2 ^ 32 &&& 303 == spread (x + n) := by decide +kernel
  have hx : x % 64 ∈ range 64 := mem_range.2 (mod_lt _ (by decide))
  have hstep := beq_iff_eq.1 (all_eq_true.1 (all_eq_true.1 htable _ hx) n (mem_range.2 (by omega)))
  rw [spread_mod, ← spread_mod (x % 64 + n), mod_add_mod, spread_mod] at hstep
  exact hstep

/-- **`incrpdep` goes to the next pixel**: the carry passes through the holes of the mask. -/
lemma incrpdep_pdep_of_le (hn : n ≤ 16) (x : ℕ) :
    incrpdep swizzleXBits (BitVec.ofNat 32 n) (pdep swizzleXBits (BitVec.ofNat 32 x)) =
      pdep swizzleXBits (BitVec.ofNat 32 (x + n)) := by
  have hmask : swizzleXBits.toNat = 303 := rfl
  have hholes : (~~~swizzleXBits).toNat = 4294966992 := rfl
  apply BitVec.eq_of_toNat_eq
  rw [incrpdep, BitVec.toNat_and, BitVec.toNat_add, BitVec.toNat_or, toNat_pdep, toNat_pdep, toNat_pdep, hmask, hholes, spread_add hn]

/-- Pixels of a power of two of bytes. -/
lemma incrpdep_pdep {e : ℕ} (he : e ≤ 4) (x : ℕ) :
    incrpdep swizzleXBits (BitVec.ofNat 32 (2 ^ e)) (pdep swizzleXBits (BitVec.ofNat 32 x)) =
      pdep swizzleXBits (BitVec.ofNat 32 (x + 2 ^ e)) :=
  incrpdep_pdep_of_le (Nat.pow_le_pow_right (by decide) he) x

/-! ## Offsets -/

lemma u32_modEq (n : ℕ) : u32 n ≡ n [MOD 2 ^ 32] := mod_modEq n _

lemma u32_of_lt (h : n < 2 ^ 32) : u32 n = n := mod_eq_of_lt h

lemma divCeilLog2_eq {value alignmentLog2 : ℕ} (h : value + 2 ^ alignmentLog2 ≤ 2 ^ 32) :
    divCeilLog2 value alignmentLog2 = value ⌈/⌉ 2 ^ alignmentLog2 := by
  have hpos : 0 < 2 ^ alignmentLog2 := by positivity
  have hsum : u32 (value + 2 ^ alignmentLog2 + (2 ^ 32 - 1)) = value + 2 ^ alignmentLog2 - 1 := by
    rw [u32]
    omega
  rw [divCeilLog2, one_shiftLeft, shiftRight_eq_div_pow, ceilDiv_eq_add_pred_div, hsum]

lemma and_lowMask {bits : ℕ} (h : 2 ^ bits ≤ 2 ^ 32) : n &&& lowMask bits = n % 2 ^ bits := by
  have hpos : 0 < 2 ^ bits := by positivity
  have hmask : lowMask bits = 2 ^ bits - 1 := by
    rw [lowMask, one_shiftLeft, u32]
    omega
  rw [hmask, and_two_pow_sub_one_eq_mod]

/-- What the source computes for an image with lines of `pitch` bytes, in a surface with lines of `stride`, fits in 32
bits: the sums of `DivCeilLog2`, the masks, and the two offsets of every byte. -/
structure Bounded (pitch stride height depth blockHeight blockDepth : ℕ) : Prop where
  pitch_le : pitch ≤ stride
  stride_le : stride + 2 ^ 6 ≤ 2 ^ 32
  height_le : height + 2 ^ (blockHeight + 3) ≤ 2 ^ 32
  blockDepth_le : 2 ^ blockDepth ≤ 2 ^ 32
  image_le : pitch * height * depth ≤ 2 ^ 32
  offset_lt : ∀ x < pitch, ∀ y < height, ∀ z < depth,
    (layoutOf stride height depth blockHeight blockDepth).offset x y z < 2 ^ 32

namespace Bounded

variable {stride blockHeight blockDepth : ℕ}

lemma blockHeight_le (h : Bounded pitch stride height depth blockHeight blockDepth) : 2 ^ blockHeight ≤ 2 ^ 32 := by
  have hpow : 2 ^ (blockHeight + 3) = 8 * 2 ^ blockHeight := by ring
  have := h.height_le
  omega

lemma ceilDiv_pos {a b : ℕ} (ha : 0 < a) (hb : 0 < b) : 0 < a ⌈/⌉ b :=
  (zero_le _).trans_lt (div_lt_ceilDiv hb ha)

lemma factors_le {H D gobs lines slices : ℕ} (hH : 0 < H) (hD : 0 < D) (hx : 0 < gobs) (hy : 0 < lines)
    (hz : 0 < slices) :
    gobs ≤ H * (D * (gobs * (lines * slices))) ∧ H * lines ≤ H * (D * (gobs * (lines * slices))) ∧
      D * slices ≤ H * (D * (gobs * (lines * slices))) := by
  refine ⟨?_, ?_, ?_⟩
  · calc gobs = 1 * (1 * (gobs * (1 * 1))) := by ring
      _ ≤ H * (D * (gobs * (lines * slices))) := by gcongr <;> assumption
  · calc H * lines = H * (1 * (1 * (lines * 1))) := by ring
      _ ≤ H * (D * (gobs * (lines * slices))) := by gcongr <;> assumption
  · calc D * slices = 1 * (D * (1 * (1 * slices))) := by ring
      _ ≤ H * (D * (gobs * (lines * slices))) := by gcongr <;> assumption

/-- It is enough that the size of the surface is a `u32`: no factor of it is larger. -/
lemma of_size (hpitch : pitch ≤ stride) (hstride : 0 < stride) (hheight : 0 < height) (hdepth : 0 < depth)
    (hsize : (layoutOf stride height depth blockHeight blockDepth).size < 2 ^ 32) :
    Bounded pitch stride height depth blockHeight blockDepth := by
  have himage : pitch * height * depth ≤ 2 ^ 32 :=
    calc pitch * height * depth ≤ stride * height * depth := by gcongr
      _ ≤ (layoutOf stride height depth blockHeight blockDepth).size := image_le_size _ _ _ _ _
      _ ≤ 2 ^ 32 := hsize.le
  have hoffset : ∀ x < pitch, ∀ y < height, ∀ z < depth,
      (layoutOf stride height depth blockHeight blockDepth).offset x y z < 2 ^ 32 := fun x hx y hy z hz =>
    (Layout.offset_lt (layoutOf_inside (hx.trans_le hpitch) hy hz)).trans hsize
  have hx : 0 < stride ⌈/⌉ 64 := ceilDiv_pos hstride (by decide)
  have hy : 0 < height ⌈/⌉ 2 ^ (blockHeight + 3) := ceilDiv_pos hheight (by positivity)
  have hz : 0 < depth ⌈/⌉ 2 ^ blockDepth := ceilDiv_pos hdepth (by positivity)
  have hstride_le : stride ≤ 64 * (stride ⌈/⌉ 64) := le_mul_ceilDiv (by norm_num)
  have hheight_le : height ≤ 2 ^ (blockHeight + 3) * (height ⌈/⌉ 2 ^ (blockHeight + 3)) :=
    le_mul_ceilDiv (by positivity)
  have hpow : 2 ^ (blockHeight + 3) = 8 * 2 ^ blockHeight := by ring
  have hH : 0 < 2 ^ blockHeight := by positivity
  have hD : 0 < 2 ^ blockDepth := by positivity
  obtain ⟨hgobs, hlines, hslices⟩ := factors_le hH hD hx hy hz
  have hD_le : 2 ^ blockDepth ≤ 2 ^ blockDepth * (depth ⌈/⌉ 2 ^ blockDepth) := Nat.le_mul_of_pos_right _ hz
  have hH_le : 2 ^ blockHeight ≤ 2 ^ blockHeight * (height ⌈/⌉ 2 ^ (blockHeight + 3)) :=
    Nat.le_mul_of_pos_right _ hy
  have hheight_le' : height ≤ 8 * (2 ^ blockHeight * (height ⌈/⌉ 2 ^ (blockHeight + 3))) :=
    hheight_le.trans_eq (by rw [hpow, mul_assoc])
  simp only [Layout.size, layoutOf] at hsize
  exact ⟨hpitch, by omega, by omega, by omega, himage, hoffset⟩

section

variable (h : Bounded pitch stride height depth blockHeight blockDepth)
include h

lemma blockSize_modEq : blockSize stride blockHeight blockDepth ≡
      stride ⌈/⌉ 64 * (512 * (2 ^ blockHeight * 2 ^ blockDepth)) [MOD 2 ^ 32] := by
  refine (u32_modEq _).trans (congrArg (· % _) ?_)
  have hdiv : divCeilLog2 stride gobSizeXShift = stride ⌈/⌉ 64 := divCeilLog2_eq h.stride_le
  rw [hdiv, shiftLeft_eq, gobSizeShift, gobSizeXShift, gobSizeYShift, gobSizeZShift]
  ring

lemma sliceSize_modEq : sliceSize height stride blockHeight blockDepth ≡
      height ⌈/⌉ 2 ^ (blockHeight + 3) * (stride ⌈/⌉ 64 * (512 * (2 ^ blockHeight * 2 ^ blockDepth))) [MOD 2 ^ 32] := by
  refine (u32_modEq _).trans ?_
  have hdiv : divCeilLog2 height (blockHeight + gobSizeYShift) = height ⌈/⌉ 2 ^ (blockHeight + 3) :=
    divCeilLog2_eq h.height_le
  rw [hdiv]
  exact h.blockSize_modEq.mul_left _

lemma offsetZ_modEq (z : ℕ) : offsetZ z height stride blockHeight blockDepth ≡
      z / 2 ^ blockDepth * (height ⌈/⌉ 2 ^ (blockHeight + 3) *
        (stride ⌈/⌉ 64 * (512 * (2 ^ blockHeight * 2 ^ blockDepth)))) +
      z % 2 ^ blockDepth * (512 * 2 ^ blockHeight) [MOD 2 ^ 32] := by
  refine (u32_modEq _).trans ?_
  rw [and_lowMask h.blockDepth_le, shiftRight_eq_div_pow, shiftLeft_eq]
  have hshift : 2 ^ (gobSizeShift + blockHeight) = 512 * 2 ^ blockHeight := by
    rw [gobSizeShift, gobSizeXShift, gobSizeYShift, gobSizeZShift]
    ring
  rw [hshift]
  exact (h.sliceSize_modEq.mul_left _).add_right _

lemma offsetY_modEq (y : ℕ) : offsetY y stride blockHeight blockDepth ≡
      y / 8 / 2 ^ blockHeight * (stride ⌈/⌉ 64 * (512 * (2 ^ blockHeight * 2 ^ blockDepth))) +
      y / 8 % 2 ^ blockHeight * 512 [MOD 2 ^ 32] := by
  refine (u32_modEq _).trans ?_
  have h8 : y >>> gobSizeYShift = y / 8 := shiftRight_eq_div_pow y 3
  have h512 : 2 ^ gobSizeShift = 512 := rfl
  rw [h8, and_lowMask h.blockHeight_le, shiftRight_eq_div_pow, shiftLeft_eq, h512]
  exact (h.blockSize_modEq.mul_left _).add_right _

end

lemma offsetX_modEq (x blockHeight blockDepth : ℕ) :
    offsetX x blockHeight blockDepth ≡ x / 64 * (512 * (2 ^ blockHeight * 2 ^ blockDepth)) [MOD 2 ^ 32] := by
  refine (u32_modEq _).trans (congrArg (· % _) ?_)
  have h64 : x >>> gobSizeXShift = x / 64 := shiftRight_eq_div_pow x 6
  rw [h64, shiftLeft_eq, gobSizeShift, gobSizeXShift, gobSizeYShift, gobSizeZShift]
  ring

/-- **The offset that the loops compute is the offset of the layout.** -/
lemma swizzledOffset_eq (h : Bounded pitch stride height depth blockHeight blockDepth) {x y z : ℕ} (hx : x < pitch)
    (hy : y < height) (hz : z < depth) :
    u32 (offsetZ z height stride blockHeight blockDepth + offsetY y stride blockHeight blockDepth +
      offsetX x blockHeight blockDepth + Layout.gobOffset x y) =
        (layoutOf stride height depth blockHeight blockDepth).offset x y z := by
  have hsum := ((h.offsetZ_modEq z).add (h.offsetY_modEq y)).add (offsetX_modEq x blockHeight blockDepth)
  have hmod := (u32_modEq _).trans (hsum.add_right (Layout.gobOffset x y))
  refine Nat.ModEq.eq_of_lt_of_lt (hmod.trans (congrArg (· % _) ?_)) (mod_lt _ (by positivity))
    (h.offset_lt x hx y hy z hz)
  simp only [Layout.offset, layoutOf]
  ring

end Bounded

/-! ## The loops -/

def linearOffset (pitch height x y z : ℕ) : ℕ := (z * height + y) * pitch + x

lemma linearOffset_inj {x' y' z' : ℕ} (hx : x < pitch) (hx' : x' < pitch) (hy : y < height)
    (hy' : y' < height) (h : linearOffset pitch height x y z = linearOffset pitch height x' y' z') :
    x = x' ∧ y = y' ∧ z = z' := by
  have h1 : x + pitch * (y + height * z) = x' + pitch * (y' + height * z') := by
    simp only [linearOffset] at h
    linarith
  obtain ⟨hxx, h2⟩ := Layout.digit_inj hx hx' h1
  obtain ⟨hyy, hzz⟩ := Layout.digit_inj hy hy' h2
  exact ⟨hxx, hyy, hzz⟩

lemma linearOffset_lt (hx : x < pitch) (hy : y < height) (hz : z < depth) :
    linearOffset pitch height x y z < pitch * height * depth := by
  calc linearOffset pitch height x y z = x + pitch * (y + height * z) := by
        simp only [linearOffset]
        ring
    _ < pitch * (height * depth) := Layout.digit_lt hx (Layout.digit_lt hy hz)
    _ = pitch * height * depth := by ring

lemma exists_linearOffset {i : ℕ} (hi : i < pitch * height * depth) :
    ∃ x y z, x < pitch ∧ y < height ∧ z < depth ∧ linearOffset pitch height x y z = i := by
  have hpos : 0 < pitch * height * depth := zero_lt_of_lt hi
  have hpitch : 0 < pitch := pos_of_ne_zero fun h => by simp [h] at hpos
  have hheight : 0 < height := pos_of_ne_zero fun h => by simp [h] at hpos
  refine ⟨i % pitch, i / pitch % height, i / pitch / height, mod_lt _ hpitch, mod_lt _ hheight, ?_, ?_⟩
  · rw [Nat.div_div_eq_div_mul]
    exact Nat.div_lt_of_lt_mul hi
  · rw [linearOffset, div_add_mod', div_add_mod']

/-- Where the pixel at `column` goes and where it comes from. -/
def pixelCopy (toLinear : Bool) (l : Layout) (bytesPerPixel pitch height slice line column : ℕ) : ℕ × ℕ :=
  let swizzled := l.offset (column * bytesPerPixel) line slice
  let linear := linearOffset pitch height (column * bytesPerPixel) line slice
  if toLinear then (swizzled, linear) else (linear, swizzled)

/-- The copies of an image, in the order of the loops. -/
def imageCopies (toLinear : Bool) (l : Layout) (bytesPerPixel width height depth : ℕ) : List (ℕ × ℕ) :=
  (range depth).flatMap fun slice =>
    (range height).flatMap fun line =>
      (range width).map (pixelCopy toLinear l bytesPerPixel (width * bytesPerPixel) height slice line)

lemma mem_imageCopies {toLinear : Bool} {l : Layout} {bytesPerPixel width : ℕ} {p : ℕ × ℕ} :
    p ∈ imageCopies toLinear l bytesPerPixel width height depth ↔
      ∃ slice < depth, ∃ line < height, ∃ column < width,
        pixelCopy toLinear l bytesPerPixel (width * bytesPerPixel) height slice line column = p := by
  simp only [imageCopies, mem_flatMap, mem_range, mem_map]

section

variable {toLinear : Bool} {e width blockHeight blockDepth stride : ℕ} {input output : List UInt8}

section

variable (h : Bounded (width * 2 ^ e) stride height depth blockHeight blockDepth) (he : e ≤ 4)
include h he

lemma swizzlePixel_eq {slice line column : ℕ} (hslice : slice < depth) (hline : line < height)
    (hcolumn : column < width) :
    swizzlePixel toLinear (2 ^ e) input width height blockHeight blockDepth stride slice line
        (output, pdep swizzleXBits (BitVec.ofNat 32 (column * 2 ^ e))) column =
      (let p := pixelCopy toLinear (layoutOf stride height depth blockHeight blockDepth) (2 ^ e) (width * 2 ^ e)
        height slice line column
      copy (2 ^ e) output input p.1 p.2).map
        fun output => (output, pdep swizzleXBits (BitVec.ofNat 32 ((column + 1) * 2 ^ e))) := by
  have hpow : 0 < 2 ^ e := by positivity
  have hx : column * 2 ^ e < width * 2 ^ e := mul_lt_mul_of_pos_right hcolumn hpow
  have hpitch : width * 2 ^ e < 2 ^ 32 := by
    have := h.pitch_le
    have := h.stride_le
    omega
  have hlinear : slice * (width * 2 ^ e) * height + line * (width * 2 ^ e) + column * 2 ^ e =
      linearOffset (width * 2 ^ e) height (column * 2 ^ e) line slice := by
    simp only [linearOffset]
    ring
  have hlinear_lt : linearOffset (width * 2 ^ e) height (column * 2 ^ e) line slice < 2 ^ 32 :=
    (linearOffset_lt hx hline hslice).trans_le h.image_le
  have hnext : incrpdep swizzleXBits (BitVec.ofNat 32 (2 ^ e))
      (pdep swizzleXBits (BitVec.ofNat 32 (column * 2 ^ e))) =
        pdep swizzleXBits (BitVec.ofNat 32 ((column + 1) * 2 ^ e)) := by
    rw [incrpdep_pdep he, add_mul, one_mul]
  simp only [swizzlePixel, u32_of_lt hpitch, u32_of_lt (hx.trans hpitch), pdep_or,
    h.swizzledOffset_eq hx hline hslice, hlinear, u32_of_lt hlinear_lt, hnext]
  cases toLinear with
  | false =>
    simp only [pixelCopy, Bool.false_eq_true, if_false]
    cases copy (2 ^ e) output input _ _ <;> rfl
  | true =>
    simp only [pixelCopy, if_true]
    cases copy (2 ^ e) output input _ _ <;> rfl

lemma swizzleLine_eq {slice line n : ℕ} (hslice : slice < depth) (hline : line < height) (hn : n ≤ width) :
    (range n).foldlM (swizzlePixel toLinear (2 ^ e) input width height blockHeight blockDepth stride slice line)
        (output, pdep swizzleXBits 0#32) =
      (copies (2 ^ e) input output ((range n).map (pixelCopy toLinear
        (layoutOf stride height depth blockHeight blockDepth) (2 ^ e) (width * 2 ^ e) height slice line))).map
        fun output => (output, pdep swizzleXBits (BitVec.ofNat 32 (n * 2 ^ e))) := by
  induction n with
  | zero => simp [copies]
  | succ n ih =>
    rw [range_succ, foldlM_append, ih (by omega), map_append, copies_append]
    cases copies (2 ^ e) input output ((range n).map (pixelCopy toLinear
      (layoutOf stride height depth blockHeight blockDepth) (2 ^ e) (width * 2 ^ e) height slice line)) with
    | none => rfl
    | some middle =>
      have hpixel := @swizzlePixel_eq height depth toLinear e width blockHeight blockDepth stride input middle h he
        slice line n hslice hline (show n < width by omega)
      simp only [Option.map_some, Option.bind_some, Option.bind_eq_bind, foldlM_cons, foldlM_nil,
        map_cons, map_nil, copies_cons, copies_nil, hpixel]
      cases copy (2 ^ e) middle input _ _ <;> rfl

end

/-- Two loops over the same list whose bodies agree on it are the same. -/
lemma foldlM_congr {σ β : Type*} {f g : σ → β → Option σ} {l : List β} (h : ∀ b ∈ l, ∀ s, f s b = g s b) (s : σ) :
    l.foldlM f s = l.foldlM g s := by
  induction l generalizing s with
  | nil => rfl
  | cons b l ih =>
    rw [foldlM_cons, foldlM_cons, h b mem_cons_self]
    congr 1
    funext s'
    exact ih (fun b hb => h b (mem_cons_of_mem _ hb)) s'

lemma swizzleImpl_eq (h : Bounded (width * 2 ^ e) stride height depth blockHeight blockDepth) (he : e ≤ 4) :
    swizzleImpl toLinear (2 ^ e) output input width height depth blockHeight blockDepth stride =
      copies (2 ^ e) input output (imageCopies toLinear (layoutOf stride height depth blockHeight blockDepth) (2 ^ e)
        width height depth) := by
  rw [swizzleImpl, imageCopies, copies, foldlM_flatMap]
  refine foldlM_congr (fun slice hslice output => ?_) output
  rw [foldlM_flatMap]
  refine foldlM_congr (fun line hline output => ?_) output
  rw [swizzleLine_eq h he (mem_range.1 hslice) (mem_range.1 hline) le_rfl, Option.map_map]
  exact Option.map_id'

end

end Voltemu.VideoCore.Decoders
