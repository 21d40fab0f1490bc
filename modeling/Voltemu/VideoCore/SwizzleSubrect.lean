import Voltemu.VideoCore.SwizzleTexture

/-!
# Swizzling a rectangle

`SwizzleSubrect` and `UnswizzleSubrect` of `video_core/textures/decoders.cpp`, which copy a rectangle pixel by pixel.

* `swizzleSubrectImpl_eq`: they are the copies of the pixels of the rectangle.
* `SubrectRight`: a rectangle is stored where `SwizzleTexture` stores its bytes, and it is read back.
* `subrectRight_iff`: this is so if no pixel crosses a sector of 16 bytes and the lines of the surface have as many GOBs as those of
  the texture, which does not matter for a rectangle in the first blocks.
-/

namespace Voltemu.VideoCore.Decoders

open Copies List Nat

/-! ## The source -/

/-- The body of the innermost loop of `SwizzleSubrectImpl`. -/
def swizzleSubrectPixel (toLinear : Bool) (bytesPerPixel : ℕ) (input : List UInt8)
    (width height originX originY blockHeight blockDepth pitchLinear slice line : ℕ) (state : List UInt8 × BitVec 32) (column : ℕ) :
    Option (List UInt8 × BitVec 32) := do
  let (output, swizzledX) := state
  let stride := alignUpLog2 (u32 (width * bytesPerPixel)) gobSizeXShift
  let y := u32 (line + originY)
  let swizzledY := pdep swizzleYBits (BitVec.ofNat 32 y)
  let x := u32 ((column + originX) * bytesPerPixel)
  let swizzledOffset :=
    u32 (offsetZ slice height stride blockHeight blockDepth + offsetY y stride blockHeight blockDepth +
      offsetX x blockHeight blockDepth + (swizzledX ||| swizzledY).toNat)
  let unswizzledOffset := u32 (slice * pitchLinear * height + line * pitchLinear + column * bytesPerPixel)
  let dst := if toLinear then swizzledOffset else unswizzledOffset
  let src := if toLinear then unswizzledOffset else swizzledOffset
  let output ← copy bytesPerPixel output input dst src
  return (output, incrpdep swizzleXBits (BitVec.ofNat 32 bytesPerPixel) swizzledX)

/-- The loop over slices, which returns when no lines are left. -/
def subrectSlices (lines : (slice linesInY : ℕ) → List UInt8 → Option (List UInt8)) (extentY : ℕ) :
    (slices : List ℕ) → (unprocessedLines : ℕ) → List UInt8 → Option (List UInt8)
  | [], _, output => some output
  | slice :: slices, unprocessedLines, output =>
      let linesInY := min unprocessedLines extentY
      (lines slice linesInY output).bind fun output =>
        if unprocessedLines - linesInY = 0 then some output
        else subrectSlices lines extentY slices (unprocessedLines - linesInY) output

/-- `SwizzleSubrectImpl<TO_LINEAR, BYTES_PER_PIXEL>`. -/
def swizzleSubrectImpl (toLinear : Bool) (bytesPerPixel : ℕ) (output input : List UInt8)
    (width height depth originX originY extentX numLines blockHeight blockDepth pitchLinear : ℕ) : Option (List UInt8) :=
  let extentY := min numLines (u32 (height + (2 ^ 32 - originY)))
  subrectSlices (fun slice linesInY output =>
    (range linesInY).foldlM (fun output line =>
      ((range extentX).foldlM
        (swizzleSubrectPixel toLinear bytesPerPixel input width height originX originY blockHeight blockDepth pitchLinear slice line)
        (output, pdep swizzleXBits (BitVec.ofNat 32 (originX * bytesPerPixel)))).map Prod.fst) output)
    extentY (range depth) numLines output

/-- What `SwizzleSubrect` and `UnswizzleSubrect` share. -/
def swizzleRect (toLinear : Bool) (output input : List UInt8)
    (bytesPerPixel width height depth originX originY extentX extentY blockHeight blockDepth pitchLinear : ℕ) : Option (List UInt8) :=
  if bytesPerPixel ∈ [1, 2, 3, 4, 6, 8, 12, 16] then
    swizzleSubrectImpl toLinear bytesPerPixel output input width height depth originX originY extentX extentY blockHeight blockDepth
      pitchLinear
  else some output

def swizzleSubrect (output input : List UInt8)
    (bytesPerPixel width height depth originX originY extentX extentY blockHeight blockDepth pitchLinear : ℕ) : Option (List UInt8) :=
  swizzleRect true output input bytesPerPixel width height depth originX originY extentX extentY blockHeight blockDepth pitchLinear

def unswizzleSubrect (output input : List UInt8)
    (bytesPerPixel width height depth originX originY extentX extentY blockHeight blockDepth pitchLinear : ℕ) : Option (List UInt8) :=
  swizzleRect false output input bytesPerPixel width height depth originX originY extentX extentY blockHeight blockDepth pitchLinear

/-! ## Rectangles -/

/-- A rectangle of an image of one slice, and the pitch of its lines in memory. -/
structure Rect where
  bytesPerPixel : ℕ
  width : ℕ
  height : ℕ
  originX : ℕ
  originY : ℕ
  extentX : ℕ
  extentY : ℕ
  blockHeight : ℕ
  blockDepth : ℕ
  pitch : ℕ

namespace Rect

variable (r : Rect)

/-- The layout that the functions compute for the image. -/
def layout : Layout := layoutOf (r.width * r.bytesPerPixel) r.height 1 r.blockHeight r.blockDepth

/-- The layout that `SwizzleTexture` uses for the image. -/
def wholeLayout (strideAlignment : ℕ) : Layout :=
  textureLayout r.bytesPerPixel r.width r.height 1 r.blockHeight r.blockDepth strideAlignment

def memorySize : ℕ := if r.extentY = 0 then 0 else (r.extentY - 1) * r.pitch + r.extentX * r.bytesPerPixel

def swizzle (output input : List UInt8) : Option (List UInt8) :=
  swizzleSubrect output input r.bytesPerPixel r.width r.height 1 r.originX r.originY r.extentX r.extentY r.blockHeight r.blockDepth
    r.pitch

def unswizzle (output input : List UInt8) : Option (List UInt8) :=
  unswizzleSubrect output input r.bytesPerPixel r.width r.height 1 r.originX r.originY r.extentX r.extentY r.blockHeight r.blockDepth
    r.pitch

/-- **The rectangles that the functions are for**: inside of the image, with a pitch that holds a line, and such that what the source
computes for them and for the whole image fits in 32 bits. -/
structure Valid (strideAlignment : ℕ) : Prop where
  pixel : r.bytesPerPixel ∈ [1, 2, 3, 4, 6, 8, 12, 16]
  inX : r.originX + r.extentX ≤ r.width
  inY : r.originY + r.extentY ≤ r.height
  pitch : r.extentX * r.bytesPerPixel ≤ r.pitch
  memory : r.extentY * r.pitch ≤ 2 ^ 32
  fits : Fits r.bytesPerPixel r.width r.height 1 r.blockHeight r.blockDepth strideAlignment

/-- Where the pixel at a column and a line of the rectangle goes and where it comes from. -/
def pixelCopy (toLinear : Bool) (line column : ℕ) : ℕ × ℕ :=
  let swizzled := r.layout.offset ((column + r.originX) * r.bytesPerPixel) (line + r.originY) 0
  let linear := line * r.pitch + column * r.bytesPerPixel
  if toLinear then (swizzled, linear) else (linear, swizzled)

/-- The copies of a rectangle, in the order of the loops. -/
def rectCopies (toLinear : Bool) : List (ℕ × ℕ) :=
  (range r.extentY).flatMap fun line => (range r.extentX).map (r.pixelCopy toLinear line)

variable {r} {strideAlignment : ℕ} {toLinear : Bool} {output input : List UInt8}

lemma mem_rectCopies {p : ℕ × ℕ} :
    p ∈ r.rectCopies toLinear ↔ ∃ line < r.extentY, ∃ column < r.extentX, r.pixelCopy toLinear line column = p := by
  simp only [rectCopies, mem_flatMap, mem_range, mem_map]

lemma Valid.pixel_pos (h : r.Valid strideAlignment) : 0 < r.bytesPerPixel ∧ r.bytesPerPixel ≤ 16 := by
  have hpixel : ∀ n ∈ [1, 2, 3, 4, 6, 8, 12, 16], 0 < n ∧ n ≤ 16 := by decide
  exact hpixel _ h.pixel

lemma Valid.stride (h : r.Valid strideAlignment) :
    alignUpLog2 (u32 (r.width * r.bytesPerPixel)) gobSizeXShift = r.width * r.bytesPerPixel ⌈/⌉ 64 * 64 ∧
      r.width * r.bytesPerPixel ⌈/⌉ 64 * 64 + 64 ≤ 2 ^ 32 := by
  have hpitch := pitch_le_strideOf r.bytesPerPixel r.width strideAlignment
  have hstride := h.fits.stride_lt
  have hceil : r.width * r.bytesPerPixel ⌈/⌉ 64 * 64 + 64 ≤ 2 ^ 32 := by
    rw [ceilDiv_eq_add_pred_div]
    omega
  have halign : r.width * r.bytesPerPixel ⌈/⌉ 2 ^ 6 * 2 ^ 6 < 2 ^ 32 := by
    norm_num
    omega
  rw [u32_of_lt (by omega)]
  exact ⟨alignUpLog2_eq halign, hceil⟩

/-- The lines of the rectangle's layout do not have more GOBs than those of the whole image. -/
lemma gobs_le (r : Rect) (strideAlignment : ℕ) : r.layout.gobsInX ≤ (r.wholeLayout strideAlignment).gobsInX := by
  have hpitch := pitch_le_strideOf r.bytesPerPixel r.width strideAlignment
  simp only [layout, wholeLayout, textureLayout, layoutOf, ceilDiv_eq_add_pred_div]
  exact Nat.div_le_div_right (by omega)

/-- The layout of the rectangle does not depend on what its stride is rounded up by. -/
lemma layout_eq (r : Rect) :
    layoutOf (r.width * r.bytesPerPixel ⌈/⌉ 64 * 64) r.height 1 r.blockHeight r.blockDepth = r.layout := by
  have hgobs : (r.width * r.bytesPerPixel ⌈/⌉ 64 * 64) ⌈/⌉ 64 = r.width * r.bytesPerPixel ⌈/⌉ 64 := by
    rw [ceilDiv_eq_add_pred_div (r.width * r.bytesPerPixel ⌈/⌉ 64 * 64)]
    omega
  rw [layout, layoutOf, layoutOf, hgobs]

lemma Valid.bounded (h : r.Valid strideAlignment) (hpos : 0 < r.width * r.bytesPerPixel) :
    Bounded (r.width * r.bytesPerPixel) (r.width * r.bytesPerPixel ⌈/⌉ 64 * 64) r.height 1 r.blockHeight r.blockDepth := by
  have hstride := h.stride.2
  have hwhole := h.fits.bounded hpos
  refine ⟨?_, hstride, hwhole.height_le, hwhole.blockDepth_le, h.fits.image_le, fun x hx y hy z hz => ?_⟩
  · rw [ceilDiv_eq_add_pred_div]
    omega
  · refine lt_of_le_of_lt ?_ (h.fits.offset_lt x hx y hy z hz)
    have hgobs := gobs_le r strideAlignment
    rw [layout_eq]
    change r.layout.offset x y z ≤ (r.wholeLayout strideAlignment).offset x y z
    simp only [Layout.offset]
    have hsame : (r.wholeLayout strideAlignment).blockHeight = r.layout.blockHeight ∧
        (r.wholeLayout strideAlignment).blockDepth = r.layout.blockDepth ∧
        (r.wholeLayout strideAlignment).blocksInY = r.layout.blocksInY := ⟨rfl, rfl, rfl⟩
    rw [hsame.1, hsame.2.1, hsame.2.2]
    gcongr

/-! ## The loops -/

variable {column line i x x' y : ℕ}

lemma swizzleSubrectPixel_eq (h : r.Valid strideAlignment) (hline : line < r.extentY) (hcolumn : column < r.extentX) :
    swizzleSubrectPixel toLinear r.bytesPerPixel input r.width r.height r.originX r.originY r.blockHeight r.blockDepth r.pitch 0
        line (output, pdep swizzleXBits (BitVec.ofNat 32 ((column + r.originX) * r.bytesPerPixel))) column =
      (copy r.bytesPerPixel output input (r.pixelCopy toLinear line column).1 (r.pixelCopy toLinear line column).2).map
        fun output => (output, pdep swizzleXBits (BitVec.ofNat 32 ((column + 1 + r.originX) * r.bytesPerPixel))) := by
  obtain ⟨hpos, h16⟩ := h.pixel_pos
  have hinX := h.inX
  have hinY := h.inY
  have hmemory := h.memory
  have hx : (column + r.originX) * r.bytesPerPixel < r.width * r.bytesPerPixel :=
    mul_lt_mul_of_pos_right (by omega) hpos
  have hbounded := h.bounded (Nat.zero_lt_of_lt hx)
  obtain ⟨hstride, hstride_le⟩ := h.stride
  have hpitch := hbounded.pitch_le
  have hheight := hbounded.height_le
  have hpow : 0 < 2 ^ (r.blockHeight + 3) := by positivity
  have hlinear : 0 * r.pitch * r.height + line * r.pitch + column * r.bytesPerPixel =
      line * r.pitch + column * r.bytesPerPixel := by ring
  have hlinear_lt : line * r.pitch + column * r.bytesPerPixel < 2 ^ 32 := by
    have hlast : (column + 1) * r.bytesPerPixel ≤ r.pitch := (mul_le_mul_right _ hcolumn).trans h.pitch
    have hlines : (line + 1) * r.pitch ≤ r.extentY * r.pitch := mul_le_mul_right _ hline
    rw [add_one_mul] at hlast hlines
    omega
  have hnext : incrpdep swizzleXBits (BitVec.ofNat 32 r.bytesPerPixel)
      (pdep swizzleXBits (BitVec.ofNat 32 ((column + r.originX) * r.bytesPerPixel))) =
        pdep swizzleXBits (BitVec.ofNat 32 ((column + 1 + r.originX) * r.bytesPerPixel)) := by
    rw [incrpdep_pdep_of_le h16]
    congr 2
    ring
  simp only [swizzleSubrectPixel, hstride, u32_of_lt (show line + r.originY < 2 ^ 32 by omega),
    u32_of_lt (show (column + r.originX) * r.bytesPerPixel < 2 ^ 32 by omega), pdep_or,
    hbounded.swizzledOffset_eq hx (show line + r.originY < r.height by omega) one_pos, hlinear, u32_of_lt hlinear_lt, hnext,
    layout_eq]
  cases toLinear with
  | false =>
    simp only [pixelCopy, Bool.false_eq_true, if_false]
    cases copy r.bytesPerPixel output input _ _ <;> rfl
  | true =>
    simp only [pixelCopy, if_true]
    cases copy r.bytesPerPixel output input _ _ <;> rfl

lemma swizzleSubrectLine_eq (h : r.Valid strideAlignment) {n : ℕ} (hline : line < r.extentY) (hn : n ≤ r.extentX) :
    (range n).foldlM
        (swizzleSubrectPixel toLinear r.bytesPerPixel input r.width r.height r.originX r.originY r.blockHeight r.blockDepth r.pitch 0
          line) (output, pdep swizzleXBits (BitVec.ofNat 32 (r.originX * r.bytesPerPixel))) =
      (copies r.bytesPerPixel input output ((range n).map (r.pixelCopy toLinear line))).map
        fun output => (output, pdep swizzleXBits (BitVec.ofNat 32 ((n + r.originX) * r.bytesPerPixel))) := by
  induction n with
  | zero => simp [copies]
  | succ n ih =>
    rw [range_succ, foldlM_append, ih (by omega), map_append, copies_append]
    cases copies r.bytesPerPixel input output ((range n).map (r.pixelCopy toLinear line)) with
    | none => rfl
    | some middle =>
      have hpixel : swizzleSubrectPixel toLinear r.bytesPerPixel input r.width r.height r.originX r.originY r.blockHeight
          r.blockDepth r.pitch 0 line (middle, pdep swizzleXBits (BitVec.ofNat 32 ((n + r.originX) * r.bytesPerPixel))) n = _ :=
        swizzleSubrectPixel_eq h hline (lt_of_succ_le hn)
      simp only [Option.map_some, Option.bind_some, Option.bind_eq_bind, foldlM_cons, foldlM_nil,
        map_cons, map_nil, copies_cons, copies_nil, hpixel]
      cases copy r.bytesPerPixel middle input _ _ <;> rfl

lemma swizzleRect_eq (h : r.Valid strideAlignment) (toLinear : Bool) (output input : List UInt8) :
    swizzleRect toLinear output input r.bytesPerPixel r.width r.height 1 r.originX r.originY r.extentX r.extentY r.blockHeight
        r.blockDepth r.pitch = copies r.bytesPerPixel input output (r.rectCopies toLinear) := by
  have hheight := h.fits.height_lt
  have hinY := h.inY
  have hextent : min r.extentY (u32 (r.height + (2 ^ 32 - r.originY))) = r.extentY := by
    have hrest : u32 (r.height + (2 ^ 32 - r.originY)) = r.height - r.originY := by
      rw [u32]
      omega
    omega
  have hslice : range 1 = [0] := rfl
  rw [swizzleRect, if_pos h.pixel, swizzleSubrectImpl, hextent, hslice, subrectSlices, min_self]
  have hlines : (range r.extentY).foldlM (fun output line =>
      ((range r.extentX).foldlM
        (swizzleSubrectPixel toLinear r.bytesPerPixel input r.width r.height r.originX r.originY r.blockHeight r.blockDepth r.pitch 0
          line) (output, pdep swizzleXBits (BitVec.ofNat 32 (r.originX * r.bytesPerPixel)))).map Prod.fst) output =
      copies r.bytesPerPixel input output (r.rectCopies toLinear) := by
    rw [rectCopies, copies, foldlM_flatMap]
    refine foldlM_congr (fun line hline output => ?_) output
    rw [swizzleSubrectLine_eq h (mem_range.1 hline) le_rfl, Option.map_map]
    exact Option.map_id'
  rw [hlines]
  cases copies r.bytesPerPixel input output (r.rectCopies toLinear) with
  | none => rfl
  | some result =>
    rw [Option.bind_some]
    exact if_pos (Nat.sub_self _)

/-! ## Agreement with the whole image -/

variable (r strideAlignment)

/-- **A rectangle is stored where `SwizzleTexture` stores its bytes**, nothing else is written, and it is read back. -/
def SubrectRight : Prop :=
  ∀ output input : List UInt8, (r.wholeLayout strideAlignment).size ≤ output.length → r.memorySize ≤ input.length →
    ∃ swizzled, r.swizzle output input = some swizzled ∧
      (∀ x < r.extentX * r.bytesPerPixel, ∀ y < r.extentY,
        swizzled[(r.wholeLayout strideAlignment).offset (r.originX * r.bytesPerPixel + x) (r.originY + y) 0]? =
          input[y * r.pitch + x]?) ∧
      (∀ k, (∀ x < r.extentX * r.bytesPerPixel, ∀ y < r.extentY,
        (r.wholeLayout strideAlignment).offset (r.originX * r.bytesPerPixel + x) (r.originY + y) 0 ≠ k) →
          swizzled[k]? = output[k]?) ∧
      ∀ linear : List UInt8, r.memorySize ≤ linear.length → ∃ back, r.unswizzle linear swizzled = some back ∧
        ∀ x < r.extentX * r.bytesPerPixel, ∀ y < r.extentY, back[y * r.pitch + x]? = input[y * r.pitch + x]?

/-- No pixel of the rectangle crosses a sector of 16 bytes. -/
def SectorsWhole : Prop := ∀ column < r.extentX, (column + r.originX) * r.bytesPerPixel % 16 + r.bytesPerPixel ≤ 16

/-- The lines of both layouts have the same number of GOBs, or the rectangle is in the first blocks. -/
def GobsAgree : Prop :=
  r.width * r.bytesPerPixel ⌈/⌉ 64 = strideOf r.bytesPerPixel r.width strideAlignment ⌈/⌉ 64 ∨
    r.originY + r.extentY ≤ 8 * 2 ^ r.blockHeight

/-- The bytes of the pixels are copied to where the whole image has them. -/
def PixelsAgree : Prop :=
  ∀ line < r.extentY, ∀ column < r.extentX, ∀ i < r.bytesPerPixel,
    r.layout.offset ((column + r.originX) * r.bytesPerPixel) (line + r.originY) 0 + i =
      (r.wholeLayout strideAlignment).offset (r.originX * r.bytesPerPixel + (column * r.bytesPerPixel + i)) (r.originY + line) 0

variable {r strideAlignment}

lemma offset_eq (l : Layout) (x y : ℕ) :
    l.offset x y 0 = Layout.gobOffset x y + 512 * (y / 8 % 2 ^ l.blockHeight + 2 ^ l.blockHeight * (2 ^ l.blockDepth *
      (x / 64 + l.gobsInX * (y / 8 / 2 ^ l.blockHeight)))) := by
  simp [Layout.offset]

/-- The byte behind the end of a sector is not that of the next place. -/
lemma gobOffset_sector (y : ℕ) (h : x % 16 + i = 16) :
    (Layout.gobOffset x y + i) % 512 ≠ Layout.gobOffset (x + i) y % 512 := by
  rw [Layout.gobOffset_eq, Layout.gobOffset_eq]
  omega

lemma image_byte (r : Rect) (column i : ℕ) :
    (column + r.originX) * r.bytesPerPixel + i = r.originX * r.bytesPerPixel + (column * r.bytesPerPixel + i) := by ring

lemma pixelsAgree_iff (hpos : 0 < r.bytesPerPixel) (hX : 0 < r.extentX) (hY : 0 < r.extentY) :
    r.PixelsAgree strideAlignment ↔ r.SectorsWhole ∧ r.GobsAgree strideAlignment := by
  have hgobs : r.layout.gobsInX = r.width * r.bytesPerPixel ⌈/⌉ 64 ∧
      (r.wholeLayout strideAlignment).gobsInX = strideOf r.bytesPerPixel r.width strideAlignment ⌈/⌉ 64 := ⟨rfl, rfl⟩
  have hsame : (r.wholeLayout strideAlignment).blockHeight = r.blockHeight ∧ r.layout.blockHeight = r.blockHeight ∧
      (r.wholeLayout strideAlignment).blockDepth = r.blockDepth ∧ r.layout.blockDepth = r.blockDepth := ⟨rfl, rfl, rfl, rfl⟩
  have hH : 0 < 2 ^ r.blockHeight := by positivity
  have hD : 0 < 2 ^ r.blockDepth := by positivity
  constructor
  · intro h
    refine ⟨fun column hcolumn => ?_, ?_⟩
    · by_contra hcross
      have hbyte := h 0 hY column hcolumn (16 - (column + r.originX) * r.bytesPerPixel % 16) (by omega)
      rw [← image_byte, Nat.add_comm r.originY 0, offset_eq, offset_eq] at hbyte
      refine gobOffset_sector (x := (column + r.originX) * r.bytesPerPixel)
        (i := 16 - (column + r.originX) * r.bytesPerPixel % 16) (0 + r.originY) (by omega) ?_
      omega
    · have hbyte := h (r.extentY - 1) (by omega) 0 hX 0 hpos
      rw [← image_byte, add_zero, add_zero, Nat.add_comm r.originY, offset_eq, offset_eq, hsame.1, hsame.2.1, hsame.2.2.1,
        hsame.2.2.2, hgobs.1, hgobs.2] at hbyte
      generalize hrow : (r.extentY - 1 + r.originY) / 8 / 2 ^ r.blockHeight = row at hbyte
      have hrows : 2 ^ r.blockHeight * (2 ^ r.blockDepth *
          ((0 + r.originX) * r.bytesPerPixel / 64 + r.width * r.bytesPerPixel ⌈/⌉ 64 * row)) =
          2 ^ r.blockHeight * (2 ^ r.blockDepth * ((0 + r.originX) * r.bytesPerPixel / 64 +
            strideOf r.bytesPerPixel r.width strideAlignment ⌈/⌉ 64 * row)) := by omega
      have hcancel := Nat.add_left_cancel (Nat.eq_of_mul_eq_mul_left hD (Nat.eq_of_mul_eq_mul_left hH hrows))
      rcases Nat.eq_zero_or_pos row with hzero | hrowpos
      · right
        rw [hzero, Nat.div_div_eq_div_mul, Nat.div_eq_zero_iff] at hrow
        omega
      · exact .inl (eq_of_mul_eq_mul_right hrowpos hcancel)
  · rintro ⟨hsectors, hrows⟩ line hline column hcolumn i hi
    have hsector := hsectors column hcolumn
    have hgob : Layout.gobOffset ((column + r.originX) * r.bytesPerPixel + i) (line + r.originY) =
        Layout.gobOffset ((column + r.originX) * r.bytesPerPixel) (line + r.originY) + i := Layout.gobOffset_add (by omega) _
    have hdiv : ((column + r.originX) * r.bytesPerPixel + i) / 64 = (column + r.originX) * r.bytesPerPixel / 64 := by omega
    have hrow : r.width * r.bytesPerPixel ⌈/⌉ 64 * ((line + r.originY) / 8 / 2 ^ r.blockHeight) =
        strideOf r.bytesPerPixel r.width strideAlignment ⌈/⌉ 64 * ((line + r.originY) / 8 / 2 ^ r.blockHeight) := by
      rcases hrows with hgobs | hfirst
      · rw [hgobs]
      · rw [Nat.div_div_eq_div_mul, Nat.div_eq_of_lt (by omega), Nat.mul_zero, Nat.mul_zero]
    rw [← image_byte, Nat.add_comm r.originY, offset_eq, offset_eq, hsame.1, hsame.2.1, hsame.2.2.1, hsame.2.2.2, hgobs.1, hgobs.2,
      hgob, hdiv, hrow]
    omega

/-! ## The bytes of a rectangle -/

lemma exists_byte (hx : x < r.extentX * r.bytesPerPixel) :
    ∃ column < r.extentX, ∃ i < r.bytesPerPixel, x = column * r.bytesPerPixel + i := by
  have hpos : 0 < r.bytesPerPixel := Nat.pos_of_mul_pos_left (Nat.zero_lt_of_lt hx)
  exact ⟨x / r.bytesPerPixel, (Nat.div_lt_iff_lt_mul hpos).2 hx, x % r.bytesPerPixel, Nat.mod_lt _ hpos,
    (div_add_mod' x r.bytesPerPixel).symm⟩

lemma byte_lt (hcolumn : column < r.extentX) (hi : i < r.bytesPerPixel) :
    column * r.bytesPerPixel + i < r.extentX * r.bytesPerPixel := by
  have h := mul_le_mul_right r.bytesPerPixel hcolumn
  rw [succ_mul] at h
  omega

lemma linear_lt (hline : line < r.extentY) (hx : x < r.extentX * r.bytesPerPixel) :
    line * r.pitch + x < r.memorySize := by
  have h : line * r.pitch ≤ (r.extentY - 1) * r.pitch := mul_le_mul_right _ (by omega)
  rw [memorySize, if_neg (by omega)]
  omega

lemma Valid.linear_inj (h : r.Valid strideAlignment) {line' : ℕ} (hx : x < r.extentX * r.bytesPerPixel)
    (hx' : x' < r.extentX * r.bytesPerPixel) (heq : line * r.pitch + x = line' * r.pitch + x') : line = line' ∧ x = x' := by
  have hpitch := h.pitch
  have hdigit := Layout.digit_inj (show x < r.pitch by omega) (show x' < r.pitch by omega)
    (show x + r.pitch * line = x' + r.pitch * line' by rw [mul_comm r.pitch, mul_comm r.pitch]; omega)
  exact ⟨hdigit.2, hdigit.1⟩

lemma Valid.inside (h : r.Valid strideAlignment) (hx : x < r.extentX * r.bytesPerPixel) (hy : y < r.extentY) :
    (r.wholeLayout strideAlignment).Inside (r.originX * r.bytesPerPixel + x) (r.originY + y) 0 := by
  have hinX := mul_le_mul_right r.bytesPerPixel h.inX
  have hinY := h.inY
  rw [add_mul] at hinX
  exact textureLayout_inside (by omega) (by omega) one_pos

lemma Valid.offset_inj (h : r.Valid strideAlignment) {y' : ℕ} (hx : x < r.extentX * r.bytesPerPixel) (hy : y < r.extentY)
    (hx' : x' < r.extentX * r.bytesPerPixel) (hy' : y' < r.extentY)
    (heq : (r.wholeLayout strideAlignment).offset (r.originX * r.bytesPerPixel + x) (r.originY + y) 0 =
      (r.wholeLayout strideAlignment).offset (r.originX * r.bytesPerPixel + x') (r.originY + y') 0) : x = x' ∧ y = y' := by
  obtain ⟨heqx, heqy, -⟩ := Layout.offset_injective (h.inside hx hy) (h.inside hx' hy') heq
  exact ⟨Nat.add_left_cancel heqx, Nat.add_left_cancel heqy⟩

lemma covers_iff (line column k : ℕ) :
    ((r.pixelCopy true line column).1 ≤ k ∧ k < (r.pixelCopy true line column).1 + r.bytesPerPixel) ↔
      ∃ i < r.bytesPerPixel, r.layout.offset ((column + r.originX) * r.bytesPerPixel) (line + r.originY) 0 + i = k := by
  simp only [pixelCopy, if_true]
  constructor
  · rintro ⟨hlow, hhigh⟩
    exact ⟨k - r.layout.offset ((column + r.originX) * r.bytesPerPixel) (line + r.originY) 0, by omega, by omega⟩
  · rintro ⟨i, hi, rfl⟩
    omega

section

variable (h : r.Valid strideAlignment)
include h

lemma swizzle_eq (output input : List UInt8) :
    r.swizzle output input = copies r.bytesPerPixel input output (r.rectCopies true) := swizzleRect_eq h true output input

lemma unswizzle_eq (output input : List UInt8) :
    r.unswizzle output input = copies r.bytesPerPixel input output (r.rectCopies false) := swizzleRect_eq h false output input

/-- **Where bytes are stored is seen**: of a buffer of zeros and a byte that is not, the place that has it is that of a copy. -/
lemma pixelsAgree_of_right (hright : r.SubrectRight strideAlignment) :
    r.PixelsAgree strideAlignment := by
  intro line hline column hcolumn i hi
  have hx := byte_lt hcolumn hi
  have hv := linear_lt hline hx
  have hk := Layout.offset_lt (h.inside hx hline)
  generalize hplace : (r.wholeLayout strideAlignment).offset (r.originX * r.bytesPerPixel + (column * r.bytesPerPixel + i))
    (r.originY + line) 0 = k at hk
  obtain ⟨swizzled, hswizzled, hwritten, -⟩ := hright (replicate (r.wholeLayout strideAlignment).size 0)
    ((replicate r.memorySize 0).set (line * r.pitch + (column * r.bytesPerPixel + i)) 1) (by simp) (by simp)
  have hone := hwritten _ hx line hline
  rw [hplace, getElem?_set_self (by simpa using hv)] at hone
  rw [swizzle_eq h] at hswizzled
  rcases copies_origin hswizzled k with hkeep | ⟨p, hp, hlow, hhigh, horigin⟩
  · rw [hone, getElem?_replicate, if_pos hk] at hkeep
    cases hkeep
  · obtain ⟨line', hline', column', hcolumn', rfl⟩ := mem_rectCopies.1 hp
    obtain ⟨i', hi', hcovers⟩ := (covers_iff line' column' k).1 ⟨hlow, hhigh⟩
    have hsource : (r.pixelCopy true line' column').2 + (k - (r.pixelCopy true line' column').1) =
        line' * r.pitch + (column' * r.bytesPerPixel + i') := by
      simp only [pixelCopy, if_true]
      omega
    rw [hone, hsource] at horigin
    by_cases hsame : line * r.pitch + (column * r.bytesPerPixel + i) = line' * r.pitch + (column' * r.bytesPerPixel + i')
    · obtain ⟨rfl, hbyte⟩ := h.linear_inj hx (byte_lt hcolumn' hi') hsame
      obtain ⟨rfl, rfl⟩ : i = i' ∧ column = column' := Layout.digit_inj hi hi' (by
        rw [mul_comm r.bytesPerPixel, mul_comm r.bytesPerPixel]
        omega)
      exact hcovers
    · rw [getElem?_set_ne hsame, getElem?_replicate] at horigin
      split_ifs at horigin
      cases horigin

/-- Where the pixels go where the image has them, the copies are those of the image. -/
lemma right_of_pixelsAgree (hagree : r.PixelsAgree strideAlignment) :
    r.SubrectRight strideAlignment := by
  intro output input houtput hinput
  have hpos := h.pixel_pos.1
  -- the last byte of a pixel lies in the buffers, and so does the pixel
  have hfits : ∀ line < r.extentY, ∀ column < r.extentX,
      r.layout.offset ((column + r.originX) * r.bytesPerPixel) (line + r.originY) 0 + r.bytesPerPixel ≤
          (r.wholeLayout strideAlignment).size ∧
        line * r.pitch + column * r.bytesPerPixel + r.bytesPerPixel ≤ r.memorySize := by
    intro line hline column hcolumn
    have hlast := byte_lt hcolumn (show r.bytesPerPixel - 1 < r.bytesPerPixel by omega)
    have hplace := Layout.offset_lt (h.inside hlast hline)
    have hlinear := linear_lt hline hlast
    rw [← hagree line hline column hcolumn _ (by omega)] at hplace
    omega
  obtain ⟨swizzled, hswizzled, hlength⟩ :
      ∃ result, copies r.bytesPerPixel input output (r.rectCopies true) = some result ∧ result.length = output.length := by
    refine copies_eq_some fun p hp => ?_
    obtain ⟨line, hline, column, hcolumn, rfl⟩ := mem_rectCopies.1 hp
    obtain ⟨hplace, hlinear⟩ := hfits line hline column hcolumn
    simp only [pixelCopy, if_true]
    omega
  have hwritten : ∀ x < r.extentX * r.bytesPerPixel, ∀ y < r.extentY,
      swizzled[(r.wholeLayout strideAlignment).offset (r.originX * r.bytesPerPixel + x) (r.originY + y) 0]? =
        input[y * r.pitch + x]? := by
    intro x hx line hline
    obtain ⟨column, hcolumn, i, hi, rfl⟩ := exists_byte hx
    obtain ⟨hlow, hhigh⟩ := (covers_iff line column _).2 ⟨i, hi, hagree line hline column hcolumn i hi⟩
    refine copies_written hswizzled (mem_rectCopies.2 ⟨line, hline, column, hcolumn, rfl⟩) hlow hhigh fun q hq hlow hhigh => ?_
    obtain ⟨line', hline', column', hcolumn', rfl⟩ := mem_rectCopies.1 hq
    obtain ⟨i', hi', hcovers⟩ := (covers_iff line' column' _).1 ⟨hlow, hhigh⟩
    rw [← hcovers]
    rw [hagree line' hline' column' hcolumn' i' hi'] at hcovers
    obtain ⟨hbyte, rfl⟩ := h.offset_inj (byte_lt hcolumn' hi') hline' hx hline hcovers
    simp only [pixelCopy, if_true]
    omega
  refine ⟨swizzled, by rw [swizzle_eq h, hswizzled], hwritten, fun k hk => ?_, fun linear hlinear => ?_⟩
  · refine copies_frame hswizzled fun q hq hcovers => ?_
    obtain ⟨line, hline, column, hcolumn, rfl⟩ := mem_rectCopies.1 hq
    obtain ⟨i, hi, hplace⟩ := (covers_iff line column k).1 hcovers
    exact hk _ (byte_lt hcolumn hi) line hline ((hagree line hline column hcolumn i hi).symm.trans hplace)
  · obtain ⟨back, hback, -⟩ :
        ∃ result, copies r.bytesPerPixel swizzled linear (r.rectCopies false) = some result ∧ result.length = linear.length := by
      refine copies_eq_some fun p hp => ?_
      obtain ⟨line, hline, column, hcolumn, rfl⟩ := mem_rectCopies.1 hp
      obtain ⟨hplace, hlinear'⟩ := hfits line hline column hcolumn
      simp only [pixelCopy, Bool.false_eq_true, if_false]
      omega
    refine ⟨back, by rw [unswizzle_eq h, hback], fun x hx line hline => ?_⟩
    rw [← hwritten x hx line hline]
    obtain ⟨column, hcolumn, i, hi, rfl⟩ := exists_byte hx
    refine copies_written hback (mem_rectCopies.2 ⟨line, hline, column, hcolumn, rfl⟩)
      (by simp only [pixelCopy, Bool.false_eq_true, if_false]; omega)
      (by simp only [pixelCopy, Bool.false_eq_true, if_false]; omega) fun q hq hlow hhigh => ?_
    obtain ⟨line', hline', column', hcolumn', rfl⟩ := mem_rectCopies.1 hq
    simp only [pixelCopy, Bool.false_eq_true, if_false] at hlow hhigh ⊢
    obtain ⟨i', hi'⟩ := Nat.exists_eq_add_of_le hlow
    have hlt : i' < r.bytesPerPixel := by omega
    obtain ⟨rfl, hbyte⟩ : line = line' ∧ column * r.bytesPerPixel + i = column' * r.bytesPerPixel + i' :=
      h.linear_inj hx (byte_lt hcolumn' hlt) (by omega)
    rw [hbyte, ← hagree line hline column' hcolumn' i' hlt]
    omega

end

lemma pixelsAgree_of_empty (hempty : r.extentX = 0 ∨ r.extentY = 0) : r.PixelsAgree strideAlignment := by
  intro line hline column hcolumn
  omega

/-- **A rectangle agrees with the whole image** if it is empty, or no pixel crosses a sector and the rows of blocks before it are as
long in both layouts. -/
theorem subrectRight_iff (h : r.Valid strideAlignment) :
    r.SubrectRight strideAlignment ↔ r.extentX = 0 ∨ r.extentY = 0 ∨ r.SectorsWhole ∧ r.GobsAgree strideAlignment := by
  have hagree : r.SubrectRight strideAlignment ↔ r.PixelsAgree strideAlignment :=
    ⟨pixelsAgree_of_right h, right_of_pixelsAgree h⟩
  rw [hagree]
  rcases Nat.eq_zero_or_pos r.extentX with hX | hX
  · exact ⟨fun _ => .inl hX, fun _ => pixelsAgree_of_empty (.inl hX)⟩
  · rcases Nat.eq_zero_or_pos r.extentY with hY | hY
    · exact ⟨fun _ => .inr (.inl hY), fun _ => pixelsAgree_of_empty (.inr hY)⟩
    · rw [pixelsAgree_iff h.pixel_pos.1 hX hY]
      constructor
      · exact fun hboth => .inr (.inr hboth)
      · rintro (hzero | hzero | hboth)
        · omega
        · omega
        · exact hboth

/-- A rectangle of 5 × 3 pixels of 4 bytes, from the middle of an image of 20 × 20, in lines of 32 bytes. -/
theorem subrectRight_rgba :
    (Rect.mk 4 20 20 7 9 5 3 1 0 32).Valid 1 ∧ (Rect.mk 4 20 20 7 9 5 3 1 0 32).SubrectRight 1 := by
  have hvalid : (Rect.mk 4 20 20 7 9 5 3 1 0 32).Valid 1 :=
    ⟨by decide, by decide, by decide, by decide, by decide,
      Fits.of_size (by decide) (by decide) (by decide) (by decide) (by decide +kernel)⟩
  refine ⟨hvalid, (subrectRight_iff hvalid).2 (.inr (.inr ⟨?_, .inl (by decide +kernel)⟩))⟩
  show ∀ column < 5, (column + 7) * 4 % 16 + 4 ≤ 16
  decide

/-- The sixth pixel of 3 bytes crosses a sector.  In the second row of blocks of an image of 21 of them, all bytes are in the place
of others. -/
theorem subrect_misplaced :
    ((Rect.mk 3 6 1 0 0 6 1 0 0 18).Valid 1 ∧ ¬ (Rect.mk 3 6 1 0 0 6 1 0 0 18).SubrectRight 1) ∧
      (Rect.mk 3 21 9 0 8 1 1 0 0 3).Valid 1 ∧ ¬ (Rect.mk 3 21 9 0 8 1 1 0 0 3).SubrectRight 1 := by
  have hrow : (Rect.mk 3 6 1 0 0 6 1 0 0 18).Valid 1 :=
    ⟨by decide, by decide, by decide, by decide, by decide,
      Fits.of_size (by decide) (by decide) (by decide) (by decide) (by decide +kernel)⟩
  have hpixel : (Rect.mk 3 21 9 0 8 1 1 0 0 3).Valid 1 :=
    ⟨by decide, by decide, by decide, by decide, by decide,
      Fits.of_size (by decide) (by decide) (by decide) (by decide) (by decide +kernel)⟩
  refine ⟨⟨hrow, fun hright => ?_⟩, hpixel, fun hright => ?_⟩
  · have hbyte := pixelsAgree_of_right hrow hright 0 (by decide) 5 (by decide) 1 (by decide)
    revert hbyte
    decide +kernel
  · have hbyte := pixelsAgree_of_right hpixel hright 0 (by decide) 0 (by decide) 0 (by decide)
    revert hbyte
    decide +kernel

end Rect

end Voltemu.VideoCore.Decoders
