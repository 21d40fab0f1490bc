import Voltemu.Lib.Copies
import Mathlib.Algebra.Order.Floor.Div
import Mathlib.Data.Nat.Bitwise

/-!
# Texture decoders

`SwizzleTexture` and `UnswizzleTexture` of `video_core/textures/decoders.cpp`, with `pdep`, `incrpdep` and
`SwizzleImpl`, and `CalculateSize`.

* A `u32` is a natural number, and `u32` reduces what the source computes in 32 bits.  Sums, products and left shifts
  of one expression are reduced together, which gives the same number.
* A span is a list.  An access outside of it is not defined in the source and gives `none` here.
* `pdep` and `incrpdep` work on the bits and are modelled on bit vectors.
-/

namespace Voltemu.VideoCore.Decoders

open Copies

/-! ## Arithmetic -/

def u32 (n : ℕ) : ℕ := n % 2 ^ 32

/-- `Common::AlignUpLog2`, whose sum and shifts are of 64 bits. -/
def alignUpLog2 (value alignLog2 : ℕ) : ℕ :=
  u32 (((value + (1 <<< alignLog2 - 1)) % 2 ^ 64) >>> alignLog2 <<< alignLog2)

/-- `Common::DivCeilLog2` on `u32`. -/
def divCeilLog2 (value alignmentLog2 : ℕ) : ℕ :=
  u32 (value + 1 <<< alignmentLog2 + (2 ^ 32 - 1)) >>> alignmentLog2

/-- `std::countr_zero` of a `u32`. -/
def countrZero (value : ℕ) : ℕ := ((List.range 32).find? value.testBit).getD 32

/-- `(1U << bits) - 1`. -/
def lowMask (bits : ℕ) : ℕ := u32 (1 <<< bits + (2 ^ 32 - 1))

def gobSizeXShift : ℕ := 6
def gobSizeYShift : ℕ := 3
def gobSizeZShift : ℕ := 0
def gobSizeShift : ℕ := gobSizeXShift + gobSizeYShift + gobSizeZShift

def swizzleXBits : BitVec 32 := 0b100101111#32
def swizzleYBits : BitVec 32 := 0b011010000#32

/-- The loop of `pdep`, which stops when no bit of the mask is left.  A mask has at most 32 bits, so 32 rounds are
enough. -/
def pdepLoop (value : BitVec 32) : ℕ → BitVec 32 → BitVec 32 → BitVec 32 → BitVec 32
  | 0, _, _, result => result
  | rounds + 1, m, bit, result =>
      if m = 0#32 then result
      else
        pdepLoop value rounds (m &&& (m - 1#32)) (bit + bit)
          (if value &&& bit ≠ 0#32 then result ||| (m &&& (~~~m + 1#32)) else result)

/-- `pdep<mask>`. -/
def pdep (mask value : BitVec 32) : BitVec 32 := pdepLoop value 32 mask 1#32 0#32

/-- `incrpdep<mask, incr_amount>`. -/
def incrpdep (mask incrAmount value : BitVec 32) : BitVec 32 :=
  ((value ||| ~~~mask) + pdep mask incrAmount) &&& mask

/-! ## `SwizzleImpl` -/

def blockSize (stride blockHeight blockDepth : ℕ) : ℕ :=
  u32 (divCeilLog2 stride gobSizeXShift <<< (gobSizeShift + blockHeight + blockDepth))

def sliceSize (height stride blockHeight blockDepth : ℕ) : ℕ :=
  u32 (divCeilLog2 height (blockHeight + gobSizeYShift) * blockSize stride blockHeight blockDepth)

def offsetZ (z height stride blockHeight blockDepth : ℕ) : ℕ :=
  u32 ((z >>> blockDepth) * sliceSize height stride blockHeight blockDepth +
    (z &&& lowMask blockDepth) <<< (gobSizeShift + blockHeight))

def offsetY (y stride blockHeight blockDepth : ℕ) : ℕ :=
  let blockY := y >>> gobSizeYShift
  u32 ((blockY >>> blockHeight) * blockSize stride blockHeight blockDepth +
    (blockY &&& lowMask blockHeight) <<< gobSizeShift)

def offsetX (x blockHeight blockDepth : ℕ) : ℕ :=
  u32 ((x >>> gobSizeXShift) <<< (gobSizeShift + blockHeight + blockDepth))

/-- The body of the innermost loop: one pixel is copied and `swizzled_x` is advanced. -/
def swizzlePixel (toLinear : Bool) (bytesPerPixel : ℕ) (input : List UInt8)
    (width height blockHeight blockDepth stride slice line : ℕ) (state : List UInt8 × BitVec 32) (column : ℕ) :
    Option (List UInt8 × BitVec 32) := do
  let (output, swizzledX) := state
  let pitch := u32 (width * bytesPerPixel)
  let swizzledY := pdep swizzleYBits (BitVec.ofNat 32 line)
  let x := u32 (column * bytesPerPixel)
  let swizzledOffset :=
    u32 (offsetZ slice height stride blockHeight blockDepth + offsetY line stride blockHeight blockDepth +
      offsetX x blockHeight blockDepth + (swizzledX ||| swizzledY).toNat)
  let unswizzledOffset := u32 (slice * pitch * height + line * pitch + column * bytesPerPixel)
  let dst := if toLinear then swizzledOffset else unswizzledOffset
  let src := if toLinear then unswizzledOffset else swizzledOffset
  let output ← copy bytesPerPixel output input dst src
  return (output, incrpdep swizzleXBits (BitVec.ofNat 32 bytesPerPixel) swizzledX)

/-- `SwizzleImpl<TO_LINEAR, BYTES_PER_PIXEL>`.  The flag has its name from the source, where it is set to copy into the
block linear texture. -/
def swizzleImpl (toLinear : Bool) (bytesPerPixel : ℕ) (output input : List UInt8)
    (width height depth blockHeight blockDepth stride : ℕ) : Option (List UInt8) :=
  (List.range depth).foldlM (fun output slice =>
    (List.range height).foldlM (fun output line =>
      ((List.range width).foldlM
        (swizzlePixel toLinear bytesPerPixel input width height blockHeight blockDepth stride slice line)
        (output, pdep swizzleXBits 0#32)).map Prod.fst) output) output

/-- `Swizzle<TO_LINEAR>`.  A size that has no case is logged and nothing is done. -/
def swizzle (toLinear : Bool) (output input : List UInt8)
    (bytesPerPixel width height depth blockHeight blockDepth stride : ℕ) : Option (List UInt8) :=
  if bytesPerPixel ∈ [1, 2, 3, 4, 6, 8, 12, 16] then
    swizzleImpl toLinear bytesPerPixel output input width height depth blockHeight blockDepth stride
  else some output

/-- What `UnswizzleTexture` and `SwizzleTexture` share: pixels are regrouped to the largest power of two, up to 16
bytes, that divides a line. -/
def regroupAndSwizzle (toLinear : Bool) (output input : List UInt8)
    (bytesPerPixel width height depth blockHeight blockDepth strideAlignment : ℕ) : Option (List UInt8) :=
  let stride := u32 (alignUpLog2 width strideAlignment * bytesPerPixel)
  let newBpp := min 4 (countrZero (u32 (width * bytesPerPixel)))
  swizzle toLinear output input (1 <<< newBpp) (u32 (width * bytesPerPixel) >>> newBpp) height depth blockHeight
    blockDepth stride

def unswizzleTexture (output input : List UInt8)
    (bytesPerPixel width height depth blockHeight blockDepth strideAlignment : ℕ) : Option (List UInt8) :=
  regroupAndSwizzle false output input bytesPerPixel width height depth blockHeight blockDepth strideAlignment

def swizzleTexture (output input : List UInt8)
    (bytesPerPixel width height depth blockHeight blockDepth strideAlignment : ℕ) : Option (List UInt8) :=
  regroupAndSwizzle true output input bytesPerPixel width height depth blockHeight blockDepth strideAlignment

def calculateSize (tiled : Bool) (bytesPerPixel width height depth blockHeight blockDepth : ℕ) : ℕ :=
  if tiled then
    u32 (alignUpLog2 (u32 (width * bytesPerPixel)) gobSizeXShift *
      alignUpLog2 height (gobSizeYShift + blockHeight) * alignUpLog2 depth (gobSizeZShift + blockDepth))
  else u32 (width * height * depth * bytesPerPixel)

def makeSwizzleTable (y : Fin 8) (x : Fin 64) : ℕ :=
  (x % 64) / 32 * 256 + (y % 8) / 2 * 64 + (x % 32) / 16 * 32 + (y % 2) * 16 + x % 16

end Voltemu.VideoCore.Decoders
