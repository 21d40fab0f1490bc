import Voltemu.VideoCore.BlockLinear

/-!
# Swizzling is a bijection onto the block linear layout

`SwizzleTexture` and `UnswizzleTexture` regroup the pixels of a line before they copy them.  The regrouped pixels cover
the same bytes, and every byte is copied to, or from, its offset in the layout.

* `imageCopies_swizzle`, `imageCopies_unswizzle`: what the copies leave in the output, byte by byte.
* `Fits`: nothing that the source computes exceeds 32 bits.  A size of the surface that fits is enough for that.
* **`swizzleTexture_bijective`**: bytes are stored at their offsets, and reading them back gives the image.
-/

namespace Voltemu.VideoCore.Decoders

open Copies List Nat

/-! ## What the copies leave -/

section

variable {l : Layout} {e width height depth : ℕ} {input output result : List UInt8}

lemma exists_pixel {x : ℕ} (hx : x < width * 2 ^ e) : x / 2 ^ e < width ∧ x / 2 ^ e * 2 ^ e + x % 2 ^ e = x := by
  refine ⟨Nat.div_lt_of_lt_mul (by rwa [Nat.mul_comm]), Nat.div_add_mod' x (2 ^ e)⟩

lemma pixel_lt {c i : ℕ} (hc : c < width) (hi : i < 2 ^ e) : c * 2 ^ e + i < width * 2 ^ e :=
  calc c * 2 ^ e + i < c * 2 ^ e + 2 ^ e := by omega
    _ = (c + 1) * 2 ^ e := by ring
    _ ≤ width * 2 ^ e := mul_le_mul_right _ hc

/-- **Every byte is stored at its offset**, and nothing else is written. -/
lemma imageCopies_swizzle (he : e ≤ 4) (hinside : ∀ x < width * 2 ^ e, ∀ y < height, ∀ z < depth, l.Inside x y z)
    (h : copies (2 ^ e) input output (imageCopies true l (2 ^ e) width height depth) = some result) :
    (∀ x < width * 2 ^ e, ∀ y < height, ∀ z < depth,
      result[l.offset x y z]? = input[linearOffset (width * 2 ^ e) height x y z]?) ∧
    ∀ k, (∀ x < width * 2 ^ e, ∀ y < height, ∀ z < depth, l.offset x y z ≠ k) → result[k]? = output[k]? := by
  have hpow : 0 < 2 ^ e := by positivity
  constructor
  · intro x hx y hy z hz
    obtain ⟨hcolumn, hxe⟩ := exists_pixel hx
    have hoffset := Layout.offset_add (l := l) (y := y) (z := z) (x / 2 ^ e) he (mod_lt x hpow)
    rw [hxe] at hoffset
    have hmod := mod_lt x hpow
    refine copies_written h (mem_imageCopies.2 ⟨z, hz, y, hy, x / 2 ^ e, hcolumn, rfl⟩) ?_ ?_ ?_
    · simp only [pixelCopy, if_true]
      omega
    · simp only [pixelCopy, if_true]
      omega
    · intro q hq hlow hhigh
      obtain ⟨z', hz', y', hy', c, hc, rfl⟩ := mem_imageCopies.1 hq
      simp only [pixelCopy, if_true] at hlow hhigh ⊢
      -- A copy that writes the place writes it with the byte whose offset it is.
      obtain ⟨i, hi⟩ := Nat.exists_eq_add_of_le hlow
      have hi' : i < 2 ^ e := by omega
      rw [← Layout.offset_add c he hi'] at hi
      obtain ⟨rfl, rfl, rfl⟩ := Layout.offset_injective (hinside x hx y hy z hz)
        (hinside _ (pixel_lt hc hi') y' hy' z' hz') hi
      rw [Layout.offset_add c he hi', Nat.add_sub_cancel_left]
      simp only [linearOffset, Nat.add_assoc]
  · intro k hk
    refine copies_frame h fun q hq hcovers => ?_
    obtain ⟨z, hz, y, hy, c, hc, rfl⟩ := mem_imageCopies.1 hq
    simp only [pixelCopy, if_true] at hcovers
    obtain ⟨i, hi⟩ := Nat.exists_eq_add_of_le hcovers.1
    have hi' : i < 2 ^ e := by omega
    refine hk _ (pixel_lt hc hi') y hy z hz ?_
    rw [Layout.offset_add c he hi', hi]

/-- **Every byte is read back from its offset**, and nothing else is written. -/
lemma imageCopies_unswizzle (he : e ≤ 4)
    (h : copies (2 ^ e) input output (imageCopies false l (2 ^ e) width height depth) = some result) :
    (∀ x < width * 2 ^ e, ∀ y < height, ∀ z < depth,
      result[linearOffset (width * 2 ^ e) height x y z]? = input[l.offset x y z]?) ∧
    ∀ k, width * 2 ^ e * height * depth ≤ k → result[k]? = output[k]? := by
  have hpow : 0 < 2 ^ e := by positivity
  constructor
  · intro x hx y hy z hz
    obtain ⟨hcolumn, hxe⟩ := exists_pixel hx
    have hmod := mod_lt x hpow
    refine copies_written h (mem_imageCopies.2 ⟨z, hz, y, hy, x / 2 ^ e, hcolumn, rfl⟩) ?_ ?_ ?_
    · simp only [pixelCopy, linearOffset, Bool.false_eq_true, if_false]
      omega
    · simp only [pixelCopy, linearOffset, Bool.false_eq_true, if_false]
      omega
    · intro q hq hlow hhigh
      obtain ⟨z', hz', y', hy', c, hc, rfl⟩ := mem_imageCopies.1 hq
      simp only [pixelCopy, Bool.false_eq_true, if_false] at hlow hhigh ⊢
      obtain ⟨i, hi⟩ := Nat.exists_eq_add_of_le hlow
      have hi' : i < 2 ^ e := by omega
      have hlinear : linearOffset (width * 2 ^ e) height (c * 2 ^ e) y' z' + i =
          linearOffset (width * 2 ^ e) height (c * 2 ^ e + i) y' z' := by
        simp only [linearOffset, Nat.add_assoc]
      rw [hlinear] at hi
      obtain ⟨rfl, rfl, rfl⟩ := linearOffset_inj hx (pixel_lt hc hi') hy hy' hi
      rw [← hlinear, Nat.add_sub_cancel_left, Layout.offset_add c he hi']
  · intro k hk
    refine copies_frame h fun q hq hcovers => ?_
    obtain ⟨z, hz, y, hy, c, hc, rfl⟩ := mem_imageCopies.1 hq
    simp only [pixelCopy, Bool.false_eq_true, if_false] at hcovers
    have hlt := linearOffset_lt (pixel_lt hc (show 2 ^ e - 1 < 2 ^ e by omega)) hy hz
    simp only [linearOffset] at hcovers hlt
    omega

lemma imageCopies_fit (toLinear : Bool) {surface image : ℕ} (he : e ≤ 4)
    (hinside : ∀ x < width * 2 ^ e, ∀ y < height, ∀ z < depth, l.Inside x y z)
    (hsurface : l.size ≤ surface) (himage : width * 2 ^ e * height * depth ≤ image) :
    ∀ p ∈ imageCopies toLinear l (2 ^ e) width height depth, p.1 + 2 ^ e ≤ (if toLinear then surface else image) ∧
      p.2 + 2 ^ e ≤ (if toLinear then image else surface) := by
  intro p hp
  obtain ⟨z, hz, y, hy, c, hc, rfl⟩ := mem_imageCopies.1 hp
  have hpow : 0 < 2 ^ e := by positivity
  have hlast : 2 ^ e - 1 < 2 ^ e := by omega
  -- The last byte of the pixel lies within the two.
  have hswizzled := Layout.offset_lt (hinside _ (pixel_lt hc hlast) y hy z hz)
  rw [Layout.offset_add c he hlast] at hswizzled
  have hlinear := linearOffset_lt (pixel_lt hc hlast) hy hz
  cases toLinear with
  | false =>
    simp only [pixelCopy, linearOffset, Bool.false_eq_true, if_false] at hlinear ⊢
    omega
  | true =>
    simp only [pixelCopy, linearOffset, if_true] at hlinear ⊢
    omega

end

/-! ## The textures -/

def strideOf (bytesPerPixel width strideAlignment : ℕ) : ℕ :=
  width ⌈/⌉ 2 ^ strideAlignment * 2 ^ strideAlignment * bytesPerPixel

def textureLayout (bytesPerPixel width height depth blockHeight blockDepth strideAlignment : ℕ) : Layout :=
  layoutOf (strideOf bytesPerPixel width strideAlignment) height depth blockHeight blockDepth

/-- What the source computes for a texture fits in 32 bits. -/
structure Fits (bytesPerPixel width height depth blockHeight blockDepth strideAlignment : ℕ) : Prop where
  alignedWidth_lt : width ⌈/⌉ 2 ^ strideAlignment * 2 ^ strideAlignment < 2 ^ 32
  stride_lt : strideOf bytesPerPixel width strideAlignment + 63 < 2 ^ 32
  height_lt : height + (2 ^ (blockHeight + 3) - 1) < 2 ^ 32
  blockSize_lt : strideOf bytesPerPixel width strideAlignment ⌈/⌉ 64 * 2 ^ (9 + blockHeight + blockDepth) < 2 ^ 32
  image_le : width * bytesPerPixel * height * depth ≤ 2 ^ 32
  offset_lt : ∀ x < width * bytesPerPixel, ∀ y < height, ∀ z < depth,
    (textureLayout bytesPerPixel width height depth blockHeight blockDepth strideAlignment).offset x y z < 2 ^ 32

section

variable {bytesPerPixel width height depth blockHeight blockDepth strideAlignment : ℕ}

lemma width_le_aligned (width strideAlignment : ℕ) : width ≤ width ⌈/⌉ 2 ^ strideAlignment * 2 ^ strideAlignment := by
  rw [Nat.mul_comm]
  exact le_mul_ceilDiv (by positivity)

lemma pitch_le_strideOf (bytesPerPixel width strideAlignment : ℕ) :
    width * bytesPerPixel ≤ strideOf bytesPerPixel width strideAlignment :=
  mul_le_mul_right _ (width_le_aligned width strideAlignment)

lemma alignUpLog2_eq {value alignLog2 : ℕ} (h : value ⌈/⌉ 2 ^ alignLog2 * 2 ^ alignLog2 < 2 ^ 32) :
    alignUpLog2 value alignLog2 = value ⌈/⌉ 2 ^ alignLog2 * 2 ^ alignLog2 := by
  have hpos : 0 < 2 ^ alignLog2 := by positivity
  rcases Nat.eq_zero_or_pos value with rfl | hvalue
  · have hlt : (0 + (2 ^ alignLog2 - 1)) % 2 ^ 64 / 2 ^ alignLog2 = 0 :=
      div_eq_of_lt ((mod_le _ _).trans_lt (by omega))
    rw [alignUpLog2, one_shiftLeft, shiftRight_eq_div_pow, hlt]
    simp [u32]
  · have hle := width_le_aligned value alignLog2
    have hpow : 2 ^ alignLog2 ≤ value ⌈/⌉ 2 ^ alignLog2 * 2 ^ alignLog2 :=
      Nat.le_mul_of_pos_left _ (Bounded.ceilDiv_pos hvalue hpos)
    rw [alignUpLog2, one_shiftLeft, mod_eq_of_lt (by omega), shiftRight_eq_div_pow, shiftLeft_eq,
      ← Nat.add_sub_assoc hpos, ← Nat.ceilDiv_eq_add_pred_div, u32_of_lt h]

/-- The bits below the first that is set are clear, so the power divides. -/
lemma pow_dvd_of_le_countrZero {value e : ℕ} (he : e ≤ countrZero value) : 2 ^ e ∣ value := by
  have hclear : ∀ j < e, value.testBit j = false := by
    intro j hj
    by_contra hbit
    rw [Bool.not_eq_false] at hbit
    rw [countrZero] at he
    cases hfind : (range 32).find? value.testBit with
    | none =>
      rw [hfind] at he
      have := find?_eq_none.1 hfind j (mem_range.2 (hj.trans_le he))
      exact this hbit
    | some k =>
      rw [hfind] at he
      obtain ⟨-, i, hi, hik, hbelow⟩ := find?_eq_some_iff_getElem.1 hfind
      rw [getElem_range] at hik
      have hje : j < i := by
        rw [hik]
        exact hj.trans_le he
      have := hbelow j hje
      rw [getElem_range, hbit] at this
      cases this
  apply dvd_of_mod_eq_zero
  apply eq_of_testBit_eq
  intro j
  rw [testBit_mod_two_pow, zero_testBit]
  by_cases hj : j < e
  · simp [hclear j hj]
  · simp [hj]

lemma Fits.bounded (h : Fits bytesPerPixel width height depth blockHeight blockDepth strideAlignment)
    (hpos : 0 < width * bytesPerPixel) :
    Bounded (width * bytesPerPixel) (strideOf bytesPerPixel width strideAlignment) height depth blockHeight
      blockDepth where
  pitch_le := pitch_le_strideOf bytesPerPixel width strideAlignment
  stride_le := by
    have := h.stride_lt
    omega
  height_le := by
    have hpow : 0 < 2 ^ (blockHeight + 3) := by positivity
    have := h.height_lt
    omega
  blockDepth_le := by
    have hstride := hpos.trans_le (pitch_le_strideOf bytesPerPixel width strideAlignment)
    have hgobs : 0 < strideOf bytesPerPixel width strideAlignment ⌈/⌉ 64 :=
      Bounded.ceilDiv_pos hstride (by decide)
    calc 2 ^ blockDepth ≤ 2 ^ (9 + blockHeight + blockDepth) := Nat.pow_le_pow_right (by decide) (by omega)
      _ ≤ strideOf bytesPerPixel width strideAlignment ⌈/⌉ 64 * 2 ^ (9 + blockHeight + blockDepth) :=
        Nat.le_mul_of_pos_left _ hgobs
      _ ≤ 2 ^ 32 := h.blockSize_lt.le
  image_le := h.image_le
  offset_lt := h.offset_lt

lemma Fits.of_size (hbytes : 0 < bytesPerPixel) (hwidth : 0 < width) (hheight : 0 < height) (hdepth : 0 < depth)
    (hsize : (textureLayout bytesPerPixel width height depth blockHeight blockDepth strideAlignment).size < 2 ^ 32) :
    Fits bytesPerPixel width height depth blockHeight blockDepth strideAlignment := by
  have hpitch := pitch_le_strideOf bytesPerPixel width strideAlignment
  have hpos : 0 < width * bytesPerPixel := mul_pos hwidth hbytes
  have hb := Bounded.of_size hpitch (hpos.trans_le hpitch) hheight hdepth hsize
  have hstride := hb.stride_le
  have hlines := hb.height_le
  have haligned : width ⌈/⌉ 2 ^ strideAlignment * 2 ^ strideAlignment ≤
      strideOf bytesPerPixel width strideAlignment := Nat.le_mul_of_pos_right _ hbytes
  have hblock : 0 < 2 ^ (blockHeight + 3) := by positivity
  refine ⟨by omega, by omega, by omega, ?_, hb.image_le, hb.offset_lt⟩
  have hy : 0 < height ⌈/⌉ 2 ^ (blockHeight + 3) := Bounded.ceilDiv_pos hheight (by positivity)
  have hz : 0 < depth ⌈/⌉ 2 ^ blockDepth := Bounded.ceilDiv_pos hdepth (by positivity)
  refine lt_of_le_of_lt ?_ hsize
  calc strideOf bytesPerPixel width strideAlignment ⌈/⌉ 64 * 2 ^ (9 + blockHeight + blockDepth)
      = 512 * (2 ^ blockHeight * (2 ^ blockDepth *
          (strideOf bytesPerPixel width strideAlignment ⌈/⌉ 64 * (1 * 1)))) := by ring
    _ ≤ (textureLayout bytesPerPixel width height depth blockHeight blockDepth strideAlignment).size := by
        simp only [Layout.size, textureLayout, layoutOf]
        gcongr <;> assumption

lemma regroupAndSwizzle_empty {toLinear : Bool} {output input : List UInt8} (h : width * bytesPerPixel = 0) :
    regroupAndSwizzle toLinear output input bytesPerPixel width height depth blockHeight blockDepth strideAlignment =
      some output := by
  have hloop : ∀ (n : ℕ) (output : List UInt8) (f : List UInt8 → ℕ → Option (List UInt8)),
      (∀ output i, f output i = some output) → (range n).foldlM f output = some output := by
    intro n output f hf
    induction n with
    | zero => rfl
    | succ n ih =>
      rw [range_succ, foldlM_append, ih]
      simp [hf]
  simp only [regroupAndSwizzle, h, u32, zero_mod, zero_shiftRight, swizzle]
  split_ifs with hcase
  · refine hloop depth output _ fun output slice => hloop height output _ fun output line => ?_
    rfl
  · rfl

/-- **Both functions copy the image**, in pixels of a power of two that divides a line. -/
lemma regroupAndSwizzle_eq (h : Fits bytesPerPixel width height depth blockHeight blockDepth strideAlignment)
    (hpos : 0 < width * bytesPerPixel) :
    ∃ e ≤ 4, ∃ columns, columns * 2 ^ e = width * bytesPerPixel ∧
      (∀ toLinear (output input : List UInt8),
        regroupAndSwizzle toLinear output input bytesPerPixel width height depth blockHeight blockDepth strideAlignment =
          copies (2 ^ e) input output (imageCopies toLinear
            (textureLayout bytesPerPixel width height depth blockHeight blockDepth strideAlignment) (2 ^ e) columns
            height depth)) := by
  have hb := h.bounded hpos
  have hpitch : u32 (width * bytesPerPixel) = width * bytesPerPixel := by
    refine u32_of_lt ?_
    have := hb.pitch_le
    have := hb.stride_le
    omega
  have hstride : u32 (alignUpLog2 width strideAlignment * bytesPerPixel) =
      strideOf bytesPerPixel width strideAlignment := by
    rw [alignUpLog2_eq h.alignedWidth_lt]
    refine u32_of_lt ?_
    have := h.stride_lt
    simp only [strideOf] at this
    omega
  obtain ⟨e, he⟩ : ∃ e, e = min 4 (countrZero (width * bytesPerPixel)) := ⟨_, rfl⟩
  have hle : e ≤ 4 := by omega
  have hdvd : 2 ^ e ∣ width * bytesPerPixel := pow_dvd_of_le_countrZero (by omega)
  have hcolumns : width * bytesPerPixel / 2 ^ e * 2 ^ e = width * bytesPerPixel := Nat.div_mul_cancel hdvd
  refine ⟨e, hle, width * bytesPerPixel / 2 ^ e, hcolumns, fun toLinear output input => ?_⟩
  have hcase : 2 ^ e ∈ [1, 2, 3, 4, 6, 8, 12, 16] := by
    interval_cases e <;> decide
  rw [← hcolumns] at hb
  simp only [regroupAndSwizzle, hpitch, hstride, ← he, one_shiftLeft, shiftRight_eq_div_pow, swizzle, if_pos hcase]
  exact swizzleImpl_eq hb hle

lemma textureLayout_inside {x y z : ℕ} (hx : x < width * bytesPerPixel) (hy : y < height) (hz : z < depth) :
    (textureLayout bytesPerPixel width height depth blockHeight blockDepth strideAlignment).Inside x y z :=
  layoutOf_inside (hx.trans_le (pitch_le_strideOf bytesPerPixel width strideAlignment)) hy hz

/-- **`CalculateSize` is exact** if the size of the surface fits: no factor of it overflows. -/
theorem calculateSize_eq (hbytes : 0 < bytesPerPixel) (hwidth : 0 < width) (hheight : 0 < height) (hdepth : 0 < depth)
    (hsize : (layoutOf (width * bytesPerPixel) height depth blockHeight blockDepth).size < 2 ^ 32) :
    calculateSize true bytesPerPixel width height depth blockHeight blockDepth =
      (layoutOf (width * bytesPerPixel) height depth blockHeight blockDepth).size := by
  have hgobs : 0 < width * bytesPerPixel ⌈/⌉ 64 := Bounded.ceilDiv_pos (mul_pos hwidth hbytes) (by decide)
  have hlines : 0 < height ⌈/⌉ 2 ^ (blockHeight + 3) := Bounded.ceilDiv_pos hheight (by positivity)
  have hslices : 0 < depth ⌈/⌉ 2 ^ blockDepth := Bounded.ceilDiv_pos hdepth (by positivity)
  have hH : 0 < 2 ^ blockHeight := by positivity
  have hD : 0 < 2 ^ blockDepth := by positivity
  obtain ⟨hgobs_le, hlines_le, hslices_le⟩ := Bounded.factors_le hH hD hgobs hlines hslices
  have hproduct := hsize
  simp only [Layout.size, layoutOf] at hproduct
  have hx : width * bytesPerPixel ⌈/⌉ 2 ^ 6 * 2 ^ 6 < 2 ^ 32 := by
    change width * bytesPerPixel ⌈/⌉ 64 * 64 < 2 ^ 32
    omega
  have hy : height ⌈/⌉ 2 ^ (blockHeight + 3) * 2 ^ (blockHeight + 3) < 2 ^ 32 := by
    have hpow : height ⌈/⌉ 2 ^ (blockHeight + 3) * 2 ^ (blockHeight + 3) =
        8 * (2 ^ blockHeight * (height ⌈/⌉ 2 ^ (blockHeight + 3))) := by ring
    omega
  have hz : depth ⌈/⌉ 2 ^ blockDepth * 2 ^ blockDepth < 2 ^ 32 := by
    rw [Nat.mul_comm]
    omega
  have hpitch : width * bytesPerPixel < 2 ^ 32 := (width_le_aligned _ 6).trans_lt hx
  rw [calculateSize, if_pos rfl, u32_of_lt hpitch, gobSizeXShift, gobSizeYShift, gobSizeZShift,
    add_comm 3 blockHeight, zero_add, alignUpLog2_eq hx, alignUpLog2_eq hy, alignUpLog2_eq hz]
  have heq : width * bytesPerPixel ⌈/⌉ 64 * 64 * (height ⌈/⌉ 2 ^ (blockHeight + 3) * 2 ^ (blockHeight + 3)) *
      (depth ⌈/⌉ 2 ^ blockDepth * 2 ^ blockDepth) =
        (layoutOf (width * bytesPerPixel) height depth blockHeight blockDepth).size := by
    simp only [Layout.size, layoutOf]
    ring
  exact (congrArg u32 heq).trans (u32_of_lt hsize)

theorem calculateSize_eq_rgb : calculateSize true 3 5 4 2 1 1 = 2048 :=
  calculateSize_eq (by decide) (by decide) (by decide) (by decide) (by decide)

end

/-- **Swizzling is a bijection onto the block linear layout.**  When what the source computes fits in 32 bits and the
spans are large enough, byte `(x, y, z)` of the image is stored at its offset, distinct bytes at distinct offsets, all
within the surface, and no other byte is written.  `UnswizzleTexture` then returns the image. -/
theorem swizzleTexture_bijective
    (bytesPerPixel width height depth blockHeight blockDepth strideAlignment : ℕ) (output input : List UInt8)
    (hfits : Fits bytesPerPixel width height depth blockHeight blockDepth strideAlignment)
    (houtput : (textureLayout bytesPerPixel width height depth blockHeight blockDepth strideAlignment).size ≤
      output.length)
    (hinput : width * bytesPerPixel * height * depth ≤ input.length) :
    let l := textureLayout bytesPerPixel width height depth blockHeight blockDepth strideAlignment
    (∀ x < width * bytesPerPixel, ∀ y < height, ∀ z < depth, l.offset x y z < l.size) ∧
    (∀ x < width * bytesPerPixel, ∀ y < height, ∀ z < depth,
      ∀ x' < width * bytesPerPixel, ∀ y' < height, ∀ z' < depth,
        l.offset x y z = l.offset x' y' z' → x = x' ∧ y = y' ∧ z = z') ∧
    ∃ swizzled, swizzleTexture output input bytesPerPixel width height depth blockHeight blockDepth strideAlignment =
        some swizzled ∧
      swizzled.length = output.length ∧
      (∀ x < width * bytesPerPixel, ∀ y < height, ∀ z < depth,
        swizzled[l.offset x y z]? = input[linearOffset (width * bytesPerPixel) height x y z]?) ∧
      (∀ k, (∀ x < width * bytesPerPixel, ∀ y < height, ∀ z < depth, l.offset x y z ≠ k) → swizzled[k]? = output[k]?) ∧
      ∀ linear : List UInt8, width * bytesPerPixel * height * depth ≤ linear.length →
        unswizzleTexture linear swizzled bytesPerPixel width height depth blockHeight blockDepth strideAlignment =
          some (input.take (width * bytesPerPixel * height * depth) ++
            linear.drop (width * bytesPerPixel * height * depth)) := by
  intro l
  have hinside : ∀ x < width * bytesPerPixel, ∀ y < height, ∀ z < depth, l.Inside x y z :=
    fun x hx y hy z hz => textureLayout_inside hx hy hz
  refine ⟨fun x hx y hy z hz => Layout.offset_lt (hinside x hx y hy z hz),
    fun x hx y hy z hz x' hx' y' hy' z' hz' =>
      Layout.offset_injective (hinside x hx y hy z hz) (hinside x' hx' y' hy' z' hz'), ?_⟩
  rcases Nat.eq_zero_or_pos (width * bytesPerPixel) with hzero | hpos
  · refine ⟨output, regroupAndSwizzle_empty hzero, rfl, fun x hx => by omega, fun _ _ => rfl, fun linear _ => ?_⟩
    rw [hzero, zero_mul, zero_mul]
    exact regroupAndSwizzle_empty hzero
  · obtain ⟨e, he, columns, hcolumns, hcopies⟩ := regroupAndSwizzle_eq hfits hpos
    simp only [swizzleTexture, unswizzleTexture, hcopies, ← hcolumns]
    rw [← hcolumns] at hinside hinput
    obtain ⟨swizzled, hswizzled, hlength⟩ :=
      copies_eq_some (imageCopies_fit true he hinside houtput hinput)
    obtain ⟨hstored, hframe⟩ := imageCopies_swizzle he hinside hswizzled
    refine ⟨swizzled, hswizzled, hlength, hstored, hframe, fun linear hlinear => ?_⟩
    obtain ⟨back, hback, hlength'⟩ :=
      copies_eq_some (imageCopies_fit false he hinside (houtput.trans_eq hlength.symm) hlinear)
    obtain ⟨hread, hrest⟩ := imageCopies_unswizzle he hback
    rw [hback]
    refine congrArg some (ext_getElem? fun i => ?_)
    have htake : (input.take (columns * 2 ^ e * height * depth)).length = columns * 2 ^ e * height * depth := by
      rw [length_take]
      omega
    by_cases hi : i < columns * 2 ^ e * height * depth
    · obtain ⟨x, y, z, hx, hy, hz, rfl⟩ := exists_linearOffset hi
      rw [getElem?_append_left (by omega), getElem?_take_of_lt hi, hread x hx y hy z hz, hstored x hx y hy z hz]
    · rw [getElem?_append_right (by omega), htake, getElem?_drop, hrest i (by omega)]
      congr 1
      omega

/-- Two slices of four lines of five pixels of three bytes, in blocks of two by two GOBs.  The line has 15 bytes, so the
pixels are regrouped to single bytes, and it is aligned to eight pixels. -/
theorem swizzleTexture_bijective_rgb :
    Fits 3 5 4 2 1 1 3 ∧
      ∃ swizzled, swizzleTexture (replicate 2048 0) ((range 120).map UInt8.ofNat) 3 5 4 2 1 1 3 = some swizzled ∧
        unswizzleTexture (replicate 120 0) swizzled 3 5 4 2 1 1 3 = some ((range 120).map UInt8.ofNat) := by
  have hfits : Fits 3 5 4 2 1 1 3 :=
    Fits.of_size (by decide) (by decide) (by decide) (by decide) (by decide +kernel)
  have h := swizzleTexture_bijective 3 5 4 2 1 1 3 (replicate 2048 0) ((range 120).map UInt8.ofNat) hfits
    (by decide +kernel) (by decide +kernel)
  obtain ⟨swizzled, hswizzled, -, -, -, hback⟩ := h.2.2
  exact ⟨hfits, swizzled, hswizzled, hback (replicate 120 0) (by decide +kernel)⟩

end Voltemu.VideoCore.Decoders
