import Voltemu.Lib.Ring

/-!
# `RingBuffer`: a queue whose indices wrap at `2 ^ 64`

`common/ring_buffer.h`, with a capacity of `2 ^ k` slots.  The indices only grow, and the array is read and written in two
parts around its end.

* `Holds` — the slots from the read index on hold a queue; every call keeps it (`Holds.push`, `Holds.pop`).
* `ringBuffer_fifo` — a run answers as a bounded queue does, wherever the indices start.
-/

namespace Voltemu.Common

open List Voltemu.Lib.Ring

variable {T : Type*}

structure RingBuffer (T : Type*) where
  data : ℕ → T
  readIndex : BitVec 64
  writeIndex : BitVec 64

inductive RingCall (T : Type*)
  | push (newSlots : List T)
  | pop (maxSlots : ℕ)
  /-- `Pop` into a vector. -/
  | popVector (maxSlots : ℕ)

inductive RingAnswer (T : Type*)
  | pushed (count : ℕ)
  | popped (slots : List T)

namespace RingBuffer

def copyIn (data : ℕ → T) (pos : ℕ) (slots : List T) (i : ℕ) : T :=
  if pos ≤ i then slots[i - pos]?.getD (data i) else data i

def copyOut (data : ℕ → T) (pos count : ℕ) : List T := (range' pos count).map data

variable (capacity : ℕ) (b : RingBuffer T)

def size : ℕ := (b.writeIndex - b.readIndex).toNat

def push (newSlots : List T) : ℕ × RingBuffer T :=
  let slotsFree := (BitVec.ofNat 64 capacity + b.readIndex - b.writeIndex).toNat
  let pushCount := min newSlots.length slotsFree
  let pos := b.writeIndex.toNat % capacity
  let firstCopy := min (capacity - pos) pushCount
  let secondCopy := pushCount - firstCopy
  (pushCount, { b with
    data := copyIn (copyIn b.data pos (newSlots.take firstCopy)) 0 ((newSlots.drop firstCopy).take secondCopy)
    writeIndex := b.writeIndex + BitVec.ofNat 64 pushCount })

def pop (maxSlots : ℕ) : List T × RingBuffer T :=
  let slotsFilled := (b.writeIndex - b.readIndex).toNat
  let popCount := min slotsFilled maxSlots
  let pos := b.readIndex.toNat % capacity
  let firstCopy := min (capacity - pos) popCount
  let secondCopy := popCount - firstCopy
  (copyOut b.data pos firstCopy ++ copyOut b.data 0 secondCopy,
    { b with readIndex := b.readIndex + BitVec.ofNat 64 popCount })

def call : RingCall T → RingAnswer T × RingBuffer T
  | .push newSlots => ((b.push capacity newSlots).map .pushed id)
  | .pop maxSlots => ((b.pop capacity maxSlots).map .popped id)
  | .popVector maxSlots => ((b.pop capacity (min maxSlots capacity)).map .popped id)

/-- The answers of a run, each with the `Size()` behind it. -/
def run : RingBuffer T → List (RingCall T) → List (RingAnswer T × ℕ)
  | _, [] => []
  | b, c :: calls => ((b.call capacity c).1, (b.call capacity c).2.size) :: run (b.call capacity c).2 calls

end RingBuffer

/-! ## The bounded queue -/

namespace Fifo

variable (capacity : ℕ)

def call (queue : List T) : RingCall T → RingAnswer T × List T
  | .push newSlots => (.pushed (min newSlots.length (capacity - queue.length)), queue ++ newSlots.take (capacity - queue.length))
  | .pop maxSlots | .popVector maxSlots => (.popped (queue.take maxSlots), queue.drop maxSlots)

def run : List T → List (RingCall T) → List (RingAnswer T × ℕ)
  | _, [] => []
  | queue, c :: calls => ((call capacity queue c).1, (call capacity queue c).2.length) :: run (call capacity queue c).2 calls

end Fifo

/-! ## Copies and windows -/

namespace RingBuffer

variable {n p pos c : ℕ} {a : ℕ → T}

lemma copyIn_nil : copyIn a pos [] = a := by
  funext i
  simp [copyIn]

lemma copyIn_cons {x : T} {xs : List T} :
    copyIn a pos (x :: xs) = copyIn (Function.update a pos x) (pos + 1) xs := by
  funext i
  rw [copyIn, copyIn]
  rcases Nat.lt_trichotomy i pos with hlt | rfl | hgt
  · rw [if_neg (by omega), if_neg (by omega), Function.update_of_ne hlt.ne]
  · simp
  · rw [if_pos hgt.le, if_pos (by omega : pos + 1 ≤ i), Function.update_of_ne hgt.ne', show i - pos = i - (pos + 1) + 1 by omega,
      getElem?_cons_succ]

lemma window_copyIn (a : ℕ → T) {len : ℕ} (xs : List T) (hpos : pos % n = (p + len) % n) (hfit : pos + xs.length ≤ n) (hroom : len + xs.length ≤ n) :
    window n (copyIn a pos xs) p (len + xs.length) = window n a p len ++ xs := by
  induction xs generalizing a pos len with
  | nil => rw [copyIn_nil, length_nil, Nat.add_zero, append_nil]
  | cons x xs ih =>
    rw [length_cons] at hfit hroom
    have hslot : pos = (p + len) % n := hpos ▸ (Nat.mod_eq_of_lt (by omega)).symm
    have hnext : (pos + 1) % n = (p + (len + 1)) % n := by rw [Nat.add_mod, hpos, ← Nat.add_mod, Nat.add_assoc]
    rw [copyIn_cons, length_cons, show len + (xs.length + 1) = len + 1 + xs.length by omega, ih _ hnext (by omega) (by omega),
      hslot, window_update_end (by omega), append_assoc, singleton_append]

lemma window_congr {q : ℕ} (h : p % n = q % n) : window n a p c = window n a q c :=
  map_congr_left fun i _ => by rw [Nat.add_mod, h, ← Nat.add_mod]

lemma window_add {d : ℕ} : window n a p (c + d) = window n a p c ++ window n a (p + c) d := by
  simp [window, range_add, Function.comp_def, Nat.add_assoc]

lemma window_eq_copyOut (hpos : pos % n = p % n) (hfit : pos + c ≤ n) : window n a p c = copyOut a pos c := by
  rw [← window_congr hpos, window, copyOut, range'_eq_map_range, map_map]
  refine map_congr_left fun i hi => ?_
  rw [Nat.mod_eq_of_lt (by have := mem_range.1 hi; omega), Function.comp_apply]

/-! ## Runs -/

section

variable {r w : BitVec 64}

lemma toNat_free (hn : n < 2 ^ 63) (hle : (w - r).toNat ≤ n) : (BitVec.ofNat 64 n + r - w).toNat = n - (w - r).toNat := by
  bv_omega

lemma toNat_write (h : (w - r).toNat + c < 2 ^ 64) : (w + BitVec.ofNat 64 c - r).toNat = (w - r).toNat + c := by
  bv_omega

lemma toNat_read (h : c ≤ (w - r).toNat) : (w - (r + BitVec.ofNat 64 c)).toNat = (w - r).toNat - c := by
  bv_omega

end

/-- The slots from the read index on hold the queue. -/
structure Holds (n : ℕ) (b : RingBuffer T) (queue : List T) : Prop where
  size : b.size = queue.length
  le : queue.length ≤ n
  slots : window n b.data b.readIndex.toNat queue.length = queue

/-- The part of an access before the end of the array, and what its second part starts at. -/
lemma mod_add_first (hn : 0 < n) (hsecond : min (n - p % n) c < c) : 0 % n = (p + min (n - p % n) c) % n := by
  have hlt := Nat.mod_lt p hn
  have hfirst : min (n - p % n) c = n - p % n := by omega
  rw [hfirst, Nat.zero_mod, ← Nat.mod_add_mod, Nat.add_sub_of_le hlt.le, Nat.mod_self]

variable {k : Fin 63} {b : RingBuffer T} {queue : List T}

lemma mod_word (p : ℕ) : p % 2 ^ 64 % 2 ^ k.val = p % 2 ^ k.val :=
  Nat.mod_mod_of_dvd p (Nat.pow_dvd_pow 2 (by omega))

namespace Holds

variable (h : Holds (2 ^ k.val) b queue)
include h

lemma writeIndex_mod : b.writeIndex.toNat % 2 ^ k.val = (b.readIndex.toNat + queue.length) % 2 ^ k.val := by
  have hsize := h.size
  have hwrite : b.writeIndex.toNat = (b.readIndex.toNat + queue.length) % 2 ^ 64 := by
    rw [RingBuffer.size] at hsize
    bv_omega
  rw [hwrite, mod_word]

lemma push (newSlots : List T) : (b.push (2 ^ k.val) newSlots).1 = min newSlots.length (2 ^ k.val - queue.length) ∧
    Holds (2 ^ k.val) (b.push (2 ^ k.val) newSlots).2 (queue ++ newSlots.take (2 ^ k.val - queue.length)) := by
  have hn := Nat.two_pow_pos k.val
  have hword : 2 ^ k.val < 2 ^ 63 := Nat.pow_lt_pow_right (by decide) k.isLt
  have hwrite := h.writeIndex_mod
  obtain ⟨hsize, hle, hslots⟩ := h
  generalize 2 ^ k.val = n at *
  have hfree : (BitVec.ofNat 64 n + b.readIndex - b.writeIndex).toNat = n - queue.length := by
    rw [toNat_free hword (hsize.trans_le hle), ← hsize, RingBuffer.size]
  have hlt := Nat.mod_lt b.writeIndex.toNat hn
  simp only [RingBuffer.push, hfree]
  obtain ⟨count, hcount⟩ : ∃ count, min newSlots.length (n - queue.length) = count := ⟨_, rfl⟩
  have htake : newSlots.take (n - queue.length) = newSlots.take count := by rw [← hcount, take_eq_take_min, min_comm]
  rw [htake, hcount]
  obtain ⟨first, hfirst⟩ : ∃ first, min (n - b.writeIndex.toNat % n) count = first := ⟨_, rfl⟩
  rw [hfirst]
  have hxs : (newSlots.take first).length = first := by rw [length_take]; omega
  have hys : ((newSlots.drop first).take (count - first)).length = count - first := by
    rw [length_take, length_drop]
    omega
  have hboth : newSlots.take first ++ (newSlots.drop first).take (count - first) = newSlots.take count := by
    rw [← take_add, Nat.add_sub_of_le (by omega)]
  have hlen : (queue ++ newSlots.take count).length = queue.length + first + (count - first) := by
    rw [length_append, length_take]
    omega
  refine ⟨trivial, ?_, by omega, ?_⟩
  · rw [RingBuffer.size] at hsize ⊢
    dsimp only
    rw [toNat_write (by rw [hsize]; omega), hsize, hlen]
    omega
  · have hone := window_copyIn b.data (newSlots.take first) ((Nat.mod_mod ..).trans hwrite) (by rw [hxs]; omega)
      (by rw [hxs]; omega)
    rw [hslots, hxs] at hone
    rw [hlen, ← hboth, ← append_assoc, ← hone]
    rcases Nat.eq_or_lt_of_le (by omega : first ≤ count) with rfl | hsecond
    · rw [Nat.sub_self, take_zero, copyIn_nil, append_nil, Nat.add_zero]
    · have hzero := mod_add_first hn (hfirst ▸ hsecond : min (n - b.writeIndex.toNat % n) count < count)
      rw [hfirst, Nat.add_mod, hwrite, ← Nat.add_mod, Nat.add_assoc] at hzero
      have htwo := window_copyIn (copyIn b.data (b.writeIndex.toNat % n) (newSlots.take first))
        ((newSlots.drop first).take (count - first)) hzero (by rw [hys]; omega) (by rw [hys]; omega)
      rw [hys] at htwo
      exact htwo

lemma pop (maxSlots : ℕ) : (b.pop (2 ^ k.val) maxSlots).1 = queue.take maxSlots ∧
    Holds (2 ^ k.val) (b.pop (2 ^ k.val) maxSlots).2 (queue.drop maxSlots) := by
  have hn := Nat.two_pow_pos k.val
  have hword : 2 ^ k.val < 2 ^ 63 := Nat.pow_lt_pow_right (by decide) k.isLt
  have hmod := mod_word (k := k) (b.readIndex.toNat + min queue.length maxSlots)
  obtain ⟨hsize, hle, hslots⟩ := h
  generalize 2 ^ k.val = n at *
  have hsize' := hsize
  rw [RingBuffer.size] at hsize
  have hlt := Nat.mod_lt b.readIndex.toNat hn
  simp only [RingBuffer.pop, hsize]
  obtain ⟨count, hcount⟩ : ∃ count, min queue.length maxSlots = count := ⟨_, rfl⟩
  rw [hcount] at hmod ⊢
  have htake : queue.take maxSlots = queue.take count := by rw [← hcount, take_eq_take_min, min_comm]
  have hdrop : queue.drop maxSlots = queue.drop count := by
    rcases Nat.le_total queue.length maxSlots with hmax | hmax
    · rw [drop_of_length_le hmax, drop_of_length_le (by omega)]
    · rw [← hcount, min_eq_right hmax]
  have hsplit : window n b.data b.readIndex.toNat count ++ window n b.data (b.readIndex.toNat + count) (queue.length - count) =
      queue := by rw [← window_add, Nat.add_sub_of_le (by omega), hslots]
  have hwindows := append_inj (hsplit.trans (take_append_drop count queue).symm) (by rw [window_length, length_take]; omega)
  rw [htake, hdrop, ← hwindows.1, ← hwindows.2]
  refine ⟨?_, ?_, ?_, ?_⟩
  · obtain ⟨first, hfirst⟩ : ∃ first, min (n - b.readIndex.toNat % n) count = first := ⟨_, rfl⟩
    have hone : window n b.data b.readIndex.toNat first = copyOut b.data (b.readIndex.toNat % n) first :=
      window_eq_copyOut (Nat.mod_mod ..) (by omega)
    have hcut := window_add (n := n) (a := b.data) (p := b.readIndex.toNat) (c := first) (d := count - first)
    rw [Nat.add_sub_of_le (by omega)] at hcut
    rw [hfirst, hcut, hone]
    rcases Nat.eq_or_lt_of_le (by omega : first ≤ count) with rfl | hsecond
    · rw [Nat.sub_self]
      rfl
    · have hzero := mod_add_first hn (hfirst ▸ hsecond : min (n - b.readIndex.toNat % n) count < count)
      rw [hfirst] at hzero
      rw [window_eq_copyOut hzero (by omega)]
  · rw [RingBuffer.size, window_length]
    dsimp only
    rw [toNat_read (by rw [hsize]; omega), hsize]
  · rw [window_length]
    omega
  · have hindex : (b.readIndex + BitVec.ofNat 64 count).toNat = (b.readIndex.toNat + count) % 2 ^ 64 := by
      rw [BitVec.toNat_add, BitVec.toNat_ofNat, Nat.add_mod_mod]
    rw [window_length]
    dsimp only
    rw [hindex, window_congr hmod]

lemma call (c : RingCall T) : (b.call (2 ^ k.val) c).1 = (Fifo.call (2 ^ k.val) queue c).1 ∧
    Holds (2 ^ k.val) (b.call (2 ^ k.val) c).2 (Fifo.call (2 ^ k.val) queue c).2 := by
  cases c with
  | push newSlots => exact ⟨congrArg RingAnswer.pushed (h.push newSlots).1, (h.push newSlots).2⟩
  | pop maxSlots => exact ⟨congrArg RingAnswer.popped (h.pop maxSlots).1, (h.pop maxSlots).2⟩
  | popVector maxSlots =>
    have hpop := h.pop (min maxSlots (2 ^ k.val))
    have htake : queue.take (min maxSlots (2 ^ k.val)) = queue.take maxSlots := by
      rw [← take_take, take_of_length_le h.le]
    have hdrop : queue.drop (min maxSlots (2 ^ k.val)) = queue.drop maxSlots := by
      rcases Nat.le_total maxSlots (2 ^ k.val) with hmax | hmax
      · rw [min_eq_left hmax]
      · rw [min_eq_right hmax, drop_of_length_le h.le, drop_of_length_le (h.le.trans hmax)]
    rw [htake, hdrop] at hpop
    exact ⟨congrArg RingAnswer.popped hpop.1, hpop.2⟩

lemma run (calls : List (RingCall T)) : b.run (2 ^ k.val) calls = Fifo.run (2 ^ k.val) queue calls := by
  induction calls generalizing b queue with
  | nil => rfl
  | cons c calls ih =>
    obtain ⟨hanswer, hholds⟩ := h.call c
    rw [RingBuffer.run, Fifo.run, hanswer, hholds.size, ih hholds]

end Holds

/-- **A ring buffer is a bounded queue**, from any index that both indices start at. -/
theorem ringBuffer_fifo (k : Fin 63) (data : ℕ → T) (index : BitVec 64) (calls : List (RingCall T)) :
    (⟨data, index, index⟩ : RingBuffer T).run (2 ^ k.val) calls = Fifo.run (2 ^ k.val) [] calls :=
  Holds.run ⟨by simp [RingBuffer.size], Nat.zero_le _, rfl⟩ calls

end RingBuffer

end Voltemu.Common
