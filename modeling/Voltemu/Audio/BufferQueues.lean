import Voltemu.Audio.AudioBuffers

/-!
# The ring of audio buffers refines three queues

The ring is read as one window that starts at the oldest released buffer; its parts are the three queues.

* `Queues` — what the ring stands for;
* `Refines` — the window, cut by the three counts;
* `Refines.call` — one call answers as the queues do;
* `run_refines` — so does every run whose flushes find nothing appended, or the whole ring appended.
-/

namespace Voltemu.Audio

open Voltemu.Lib List AudioBuffers Nat

/-! ## The three queues -/

/-- The buffers of each section, the oldest first. -/
structure Queues where
  released : List AudioBuffer
  registered : List AudioBuffer
  appended : List AudioBuffer

namespace Queues

def empty : Queues := ⟨[], [], []⟩

def all (q : Queues) : List AudioBuffer := q.released ++ (q.registered ++ q.appended)

/-- The oldest appended buffers are registered, as long as the backend takes them. -/
def register (q : Queues) : Queues × List AudioBuffer :=
  let k := min (min q.appended.length bufferAppendLimit) (bufferAppendLimit - q.registered.length)
  (⟨q.released, q.registered ++ q.appended.take k, q.appended.drop k⟩, q.appended.take k)

/-- The oldest registered buffer is asked about and released, then the next one. -/
def releaseAll (rounds : Rounds) (force : Bool) (released appended : List AudioBuffer) :
    ℕ → List AudioBuffer → Released → Queues × Released
  | _, [], out => (⟨released, [], appended⟩, out)
  | k, x :: registered, out =>
      let out := if force then out else { out with asked := out.asked ++ [x] }
      if !force && !rounds.isBufferConsumed k x then (⟨released, x :: registered, appended⟩, out)
      else releaseAll rounds force (released ++ [{ x with playedTimestamp := rounds.globalTimeNs k }])
        appended (k + 1) registered { out with given := out.given ++ [x] }

/-- **What a call does with the queues, and what it answers.** -/
def call (q : Queues) : Call → Queues × Answer
  | .append buffer => (⟨q.released, q.registered, q.appended ++ [buffer]⟩, .done)
  | .register => (q.register.1, .registered q.register.2)
  | .release rounds force =>
      let r := releaseAll rounds force q.released q.appended 0 q.registered ⟨[], []⟩
      (r.1, .released r.2 (!r.2.given.isEmpty || r.1.registered.isEmpty))
  | .getReleased tags =>
      let k := min q.released.length tags.length
      (⟨q.released.drop tags.length, q.registered, q.appended⟩,
        .handedOut ((q.released.take tags.length).map (·.tag) ++ tags.drop k) k)
  | .flush =>
      (⟨q.all, [], []⟩, .flushed (q.registered.length + q.appended.length) true)
  | .contains tag => (q, .contains (q.all.any (·.tag == tag)))

def run (q : Queues) : List Call → Queues × List Answer
  | [] => (q, [])
  | c :: cs => (((q.call c).1.run cs).1, (q.call c).2 :: ((q.call c).1.run cs).2)

end Queues

/-! ## The ring -/

/-- **The ring stands for the queues**, with its oldest buffer at position `p`. -/
structure Refines {N : ℕ} (p : ℕ) (b : AudioBuffers N) (q : Queues) : Prop where
  limit : b.appendLimit = N
  released : b.releasedCount = q.released.length
  registered : b.registeredCount = q.registered.length
  appended : b.appendedCount = q.appended.length
  window : Ring.window N b.buffers p q.all.length = q.all
  fits : q.all.length ≤ N
  releasedIndex : b.releasedIndex = (p + q.released.length) % N
  registeredIndex : b.registeredIndex = (p + (q.released.length + q.registered.length)) % N
  appendedIndex : b.appendedIndex = (p + q.all.length) % N
  tags : ∀ x ∈ q.all, x.tag ≠ 0

namespace Refines

variable {N p : ℕ} {b : AudioBuffers N} {q : Queues} {x : AudioBuffer}

lemma init : Refines 0 (init N : AudioBuffers N) Queues.empty where
  limit := rfl
  released := rfl
  registered := rfl
  appended := rfl
  window := rfl
  fits := zero_le _
  releasedIndex := (zero_mod N).symm
  registeredIndex := (zero_mod N).symm
  appendedIndex := (zero_mod N).symm
  tags := by simp [Queues.all, Queues.empty]

lemma total (h : Refines p b q) : b.getTotalBufferCount = q.all.length := by
  simp only [getTotalBufferCount, h.released, h.registered, h.appended, Queues.all, length_append]
  omega

variable {k m i : ℕ}

lemma slot (h : Refines p b q) (hk : q.all[k]? = some x) : b.buffers ((p + k) % N) = x := by
  have hlt : k < q.all.length := (List.getElem?_eq_some_iff.1 hk).1
  rw [← h.window, Ring.window_getElem? hlt, Option.some.injEq] at hk
  exact hk

/-- The slot that a section's index and count give. -/
lemma back {count : ℕ} (h : Refines p b q) (hcount : 0 < count) (hk : k + count ≤ q.all.length) :
    Ring.back N ((p + (k + count)) % N) count = (p + k) % N := by
  have hN := h.fits
  rw [← add_assoc]
  exact Ring.back_eq (by omega) (by omega)

lemma succ_mod (i : ℕ) : (i % N + 1) % N = (i + 1) % N := mod_add_mod i N 1

/-! ### Append -/

lemma append (h : Refines p b q) (hroom : q.all.length < N) (hx : x.tag ≠ 0) :
    Refines p (b.appendBuffer x) ⟨q.released, q.registered, q.appended ++ [x]⟩ := by
  have hall : (⟨q.released, q.registered, q.appended ++ [x]⟩ : Queues).all = q.all ++ [x] := by
    simp [Queues.all]
  refine ⟨h.limit, h.released, h.registered, ?_, ?_, ?_, h.releasedIndex, h.registeredIndex, ?_, ?_⟩
  · simp [appendBuffer, h.appended]
  · rw [hall, length_append, length_singleton]
    simp only [appendBuffer, h.appendedIndex]
    rw [Ring.window_update_end hroom, h.window]
  · rw [hall, length_append, length_singleton]
    exact hroom
  · simp only [appendBuffer, h.appendedIndex, h.limit, hall, length_append, length_singleton]
    rw [succ_mod, add_assoc]
  · intro y hy
    rw [hall] at hy
    rcases mem_append.1 hy with hy | hy
    · exact h.tags y hy
    · obtain rfl : y = x := by simpa using hy
      exact hx

/-! ### Register -/

variable {xs : List AudioBuffer}

lemma appended_slot (h : Refines p b q) (hq : q.appended = x :: xs) :
    b.buffers (Ring.back N b.appendedIndex b.appendedCount) = x := by
  have hlen : q.all.length = (q.released.length + q.registered.length) + q.appended.length := by
    simp only [Queues.all, length_append]
    omega
  rw [h.appendedIndex, h.appended, hlen, h.back (by simp [hq]) (by omega)]
  refine h.slot ?_
  rw [Queues.all, ← append_assoc, hq, getElem?_append_right (by simp)]
  simp

lemma registerOne (h : Refines p b q) (hq : q.appended = x :: xs) :
    Refines p b.registerOne ⟨q.released, q.registered ++ [x], xs⟩ := by
  have hall : (⟨q.released, q.registered ++ [x], xs⟩ : Queues).all = q.all := by
    simp [Queues.all, hq]
  refine ⟨h.limit, h.released, ?_, ?_, ?_, ?_, h.releasedIndex, ?_, ?_, ?_⟩
  · simp [AudioBuffers.registerOne, h.registered]
  · simp [AudioBuffers.registerOne, h.appended, hq]
  · rw [hall]
    exact h.window
  · rw [hall]
    exact h.fits
  · simp only [AudioBuffers.registerOne, h.registeredIndex, h.limit, length_append, length_singleton]
    rw [succ_mod]
    congr 1
  · rw [hall]
    exact h.appendedIndex
  · rw [hall]
    exact h.tags

lemma registerLoop {out : List AudioBuffer} (h : Refines p b q) (hk : k ≤ q.appended.length) :
    Refines p (registerLoop k b out).1 ⟨q.released, q.registered ++ q.appended.take k, q.appended.drop k⟩ ∧
      (registerLoop k b out).2 = out ++ q.appended.take k := by
  induction k generalizing b q out with
  | zero => simpa [registerLoop] using h
  | succ k ih =>
    obtain ⟨x, xs, hq⟩ := exists_cons_of_length_pos (lt_of_lt_of_le (succ_pos k) hk)
    have hone := h.registerOne hq
    have hrest : k ≤ xs.length := by simpa [hq] using hk
    unfold registerLoop
    simp only [h.appended_slot hq]
    split_ifs with hzero
    · -- the last appended buffer: nothing is left to do
      obtain rfl : xs = [] := by
        rw [hone.appended] at hzero
        exact eq_nil_of_length_eq_zero hzero
      obtain rfl : k = 0 := by simpa using hrest
      simpa [hq] using hone
    · simpa [hq] using @ih _ _ (out ++ [x]) hone hrest

lemma register (h : Refines p b q) : Refines p b.registerBuffers.1 q.register.1 ∧ b.registerBuffers.2 = q.register.2 := by
  unfold registerBuffers Queues.register
  rw [h.appended, h.registered]
  exact h.registerLoop (by omega)

/-! ### Release -/

lemma registered_slot (h : Refines p b q) (hq : q.registered = x :: xs) :
    Ring.back N b.registeredIndex b.registeredCount = (p + q.released.length) % N ∧
      b.buffers ((p + q.released.length) % N) = x := by
  have hlen : q.released.length + q.registered.length ≤ q.all.length := by
    simp only [Queues.all, length_append]
    omega
  refine ⟨?_, h.slot ?_⟩
  · rw [h.registeredIndex, h.registered, h.back (by simp [hq]) hlen]
  · rw [Queues.all, hq, getElem?_append_right (le_refl _)]
    simp

lemma releaseBuffer (h : Refines p b q) (hq : q.registered = x :: xs) (t : ℤ) :
    Refines p (b.releaseBuffer ((p + q.released.length) % N) t)
      ⟨q.released ++ [{ x with playedTimestamp := t }], xs, q.appended⟩ := by
  obtain ⟨-, hslot⟩ := h.registered_slot hq
  set y : AudioBuffer := { x with playedTimestamp := t }
  have hall : (⟨q.released ++ [y], xs, q.appended⟩ : Queues).all = q.all.set q.released.length y := by
    simp [Queues.all, hq]
  have hlen : q.released.length < q.all.length := by
    simp only [Queues.all, length_append, hq, length_cons]
    omega
  refine ⟨h.limit, ?_, ?_, h.appended, ?_, ?_, ?_, ?_, ?_, ?_⟩
  · simp [AudioBuffers.releaseBuffer, h.released]
  · simp [AudioBuffers.releaseBuffer, h.registered, hq]
  · rw [hall, length_set]
    simp only [AudioBuffers.releaseBuffer, hslot]
    rw [Ring.window_update h.fits hlen, h.window]
  · rw [hall, length_set]
    exact h.fits
  · simp only [AudioBuffers.releaseBuffer, h.releasedIndex, h.limit, length_append, length_singleton]
    rw [succ_mod, add_assoc]
  · simp only [AudioBuffers.releaseBuffer, h.registeredIndex, hq, length_append, length_cons, length_nil]
    congr 2
    omega
  · rw [hall, length_set]
    exact h.appendedIndex
  · intro z hz
    rw [hall] at hz
    rcases mem_or_eq_of_mem_set hz with hz | rfl
    · exact h.tags z hz
    · exact h.tags x (by simp [Queues.all, hq])

/-- **The loop of `ReleaseBuffers`** asks about and releases the oldest registered buffer at each round. -/
lemma releaseLoop {rounds : Rounds} {force : Bool} {out : Released} (h : Refines p b q) (hq : q.registered = xs) :
    Refines p (AudioBuffers.releaseLoop rounds force xs.length k b out).1
        (Queues.releaseAll rounds force q.released q.appended k xs out).1 ∧
      (AudioBuffers.releaseLoop rounds force xs.length k b out).2 =
        (Queues.releaseAll rounds force q.released q.appended k xs out).2 := by
  induction xs generalizing b q k out with
  | nil =>
    refine ⟨?_, rfl⟩
    rw [length_nil, AudioBuffers.releaseLoop, Queues.releaseAll, ← hq]
    exact h
  | cons x xs ih =>
    obtain ⟨hback, hslot⟩ := h.registered_slot hq
    have hcount : b.registeredCount ≠ 0 := by simp [h.registered, hq]
    rw [length_cons]
    unfold AudioBuffers.releaseLoop Queues.releaseAll
    simp only [if_neg hcount, hback, hslot]
    by_cases hstop : (!force && !rounds.isBufferConsumed k x) = true
    · rw [if_pos hstop, if_pos hstop, ← hq]
      exact ⟨h, rfl⟩
    · rw [if_neg hstop, if_neg hstop]
      exact ih (h.releaseBuffer hq _) rfl

lemma release (h : Refines p b q) (rounds : Rounds) (force : Bool) :
    Refines p (b.call (.release rounds force)).1 (q.call (.release rounds force)).1 ∧
      (b.call (.release rounds force)).2 = (q.call (.release rounds force)).2 := by
  obtain ⟨hloop, hout⟩ :
      Refines p (AudioBuffers.releaseLoop rounds force q.registered.length 0 b ⟨[], []⟩).1
        (Queues.releaseAll rounds force q.released q.appended 0 q.registered ⟨[], []⟩).1 ∧ _ :=
    h.releaseLoop rfl
  simp only [call, Queues.call, releaseBuffers, h.registered]
  refine ⟨hloop, ?_⟩
  rw [hout, hloop.registered]
  congr 2
  cases (Queues.releaseAll rounds force q.released q.appended 0 q.registered ⟨[], []⟩).1.registered <;> rfl

/-! ### The released tags -/

lemma released_slot (h : Refines p b q) (hq : q.released = x :: xs) :
    Ring.back N b.releasedIndex b.releasedCount = p % N ∧ b.buffers (p % N) = x := by
  have hlen : 0 + q.released.length ≤ q.all.length := by
    simp only [Queues.all, length_append]
    omega
  refine ⟨?_, ?_⟩
  · have hback := h.back (by simp [hq]) hlen
    rw [h.releasedIndex, h.released]
    simpa using hback
  · have hslot : b.buffers ((p + 0) % N) = x := h.slot (by simp [Queues.all, hq])
    simpa using hslot

lemma takeReleased (h : Refines p b q) (hq : q.released = x :: xs) :
    Refines (p + 1) b.takeReleased ⟨xs, q.registered, q.appended⟩ := by
  obtain ⟨hback, -⟩ := h.released_slot hq
  have hall : q.all = x :: (⟨xs, q.registered, q.appended⟩ : Queues).all := by
    simp [Queues.all, hq]
  have hfits := h.fits
  have hwindow := h.window
  rw [hall, length_cons] at hfits
  rw [hall, length_cons, Ring.window_succ] at hwindow
  refine ⟨h.limit, ?_, h.registered, h.appended, ?_, ?_, ?_, ?_, ?_, ?_⟩
  · simp [AudioBuffers.takeReleased, h.released, hq]
  · simp only [AudioBuffers.takeReleased, hback]
    rw [Ring.window_update_start hfits]
    exact (cons.inj hwindow).2
  · exact (lt_of_succ_le hfits).le
  · simp only [AudioBuffers.takeReleased, h.releasedIndex, hq, length_cons]
    congr 1
    omega
  · simp only [AudioBuffers.takeReleased, h.registeredIndex, hq, length_cons]
    congr 1
    omega
  · simp only [AudioBuffers.takeReleased, h.appendedIndex, hall, length_cons]
    congr 1
    omega
  · intro y hy
    exact h.tags y (by rw [hall]; exact mem_cons_of_mem _ hy)

lemma getReleasedLoop {tags : List ℕ} {j : ℕ} (h : Refines p b q) (hq : q.released = xs) (hj : j < tags.length) :
    (∃ p', Refines p' (getReleasedLoop xs.length b tags j).1 ⟨xs.drop (tags.length - j), q.registered, q.appended⟩) ∧
      (getReleasedLoop xs.length b tags j).2 =
        (tags.take j ++ ((xs.take (tags.length - j)).map (·.tag) ++
          tags.drop (j + min xs.length (tags.length - j))), j + min xs.length (tags.length - j)) := by
  induction xs generalizing p b q tags j with
  | nil =>
    refine ⟨⟨p, ?_⟩, by simp [getReleasedLoop]⟩
    rw [drop_nil, length_nil, getReleasedLoop, ← hq]
    exact h
  | cons x xs ih =>
    obtain ⟨hback, hslot⟩ := h.released_slot hq
    have hcount : b.releasedCount ≠ 0 := by simp [h.released, hq]
    have htag : x.tag ≠ 0 := h.tags x (by simp [Queues.all, hq])
    have hset : (tags.set j x.tag).take (j + 1) = tags.take j ++ [x.tag] := by
      rw [take_set, take_succ_eq_append_getElem hj, set_append_right _ _ (by simp)]
      simp [min_eq_left hj.le]
    rw [length_cons]
    unfold getReleasedLoop
    simp only [if_neg hcount, hback, hslot, if_neg htag, if_pos hj, length_set]
    by_cases hlast : tags.length ≤ j + 1
    · have hone : tags.length - j = 1 := by omega
      have hmin : min (xs.length + 1) 1 = 1 := by omega
      rw [if_pos hlast, hone, hmin]
      refine ⟨⟨p + 1, by simpa using h.takeReleased hq⟩, ?_⟩
      have hfull : tags.set j x.tag = tags.take j ++ [x.tag] := by
        rw [← hset, take_of_length_le (by simpa using hlast)]
      simp [hfull, drop_eq_nil_of_le hlast]
    · rw [if_neg hlast]
      obtain ⟨⟨p', hrefines⟩, hout⟩ := @ih (p + 1) b.takeReleased ⟨xs, q.registered, q.appended⟩
        (tags.set j x.tag) (j + 1) (h.takeReleased hq) rfl (by simpa using hlast)
      have hsub : tags.length - j = tags.length - (j + 1) + 1 := by omega
      have hmin : j + min (xs.length + 1) (tags.length - (j + 1) + 1) =
          j + 1 + min xs.length (tags.length - (j + 1)) := by omega
      rw [length_set] at hrefines hout
      refine ⟨⟨p', by rw [hsub, drop_succ_cons]; exact hrefines⟩, ?_⟩
      rw [hout, hset, hsub, hmin, take_succ_cons, map_cons, drop_set_of_lt (by omega)]
      simp

lemma getReleased (h : Refines p b q) {tags : List ℕ} (htags : tags ≠ []) :
    (∃ p', Refines p' (b.call (.getReleased tags)).1 (q.call (.getReleased tags)).1) ∧
      (b.call (.getReleased tags)).2 = (q.call (.getReleased tags)).2 := by
  obtain ⟨⟨p', hrefines⟩, hout⟩ :=
    h.getReleasedLoop (j := 0) rfl (length_pos_iff.2 htags)
  simp only [call, Queues.call, getReleasedBuffers, h.released]
  rw [Nat.sub_zero] at hrefines hout
  refine ⟨⟨p', hrefines⟩, ?_⟩
  rw [hout]
  simp

/-! ### Flush -/

/-- A loop of a flush that takes a buffer off a section in each round empties the section. -/
lemma flushLoop {toFlush : ℕ} (flushed : List AudioBuffer)
    (loop : ℕ → AudioBuffers N → List AudioBuffer → AudioBuffers N × List AudioBuffer) (take : AudioBuffers N → AudioBuffers N) (count : AudioBuffers N → ℕ)
    (last : AudioBuffers N → AudioBuffer) (hzero : ∀ b flushed, loop 0 b flushed = (b, flushed))
    (hsucc : ∀ fuel b flushed, loop (fuel + 1) b flushed =
      if count b = 0 then (b, flushed)
      else if toFlush ≤ (flushed ++ [last b]).length then (take b, flushed ++ [last b])
      else loop fuel (take b) (flushed ++ [last b]))
    (htake : ∀ b, count (take b) = count b - 1) (hm : count b = m) (hflush : flushed.length + m ≤ toFlush) :
    (loop m b flushed).1 = take^[m] b ∧ (loop m b flushed).2.length = flushed.length + m := by
  induction m generalizing b flushed with
  | zero => simp [hzero]
  | succ m ih =>
    have hcount : count (take b) = m := by rw [htake, hm, Nat.add_sub_cancel]
    rw [hsucc, if_neg (by omega)]
    split_ifs with hlast
    · obtain rfl : m = 0 := by
        simp only [length_append, length_singleton] at hlast
        omega
      exact ⟨rfl, by simp⟩
    · have hlength : (flushed ++ [last b]).length = flushed.length + 1 := by simp
      obtain ⟨hloop, hflushed⟩ := ih (flushed ++ [last b]) hcount (by omega)
      exact ⟨hloop, by omega⟩

lemma flushRegistered_iterate (hlimit : b.appendLimit = N) (hi : b.releasedIndex = i % N) :
    flushRegistered^[m] b =
      { b with
        registeredCount := b.registeredCount - m
        releasedCount := b.releasedCount + m
        releasedIndex := (i + m) % N } := by
  induction m with
  | zero => simp [← hi]
  | succ m ih =>
    rw [Function.iterate_succ_apply', ih, flushRegistered]
    simp only [hlimit, succ_mod]
    rfl

lemma flushAppended_iterate (hlimit : b.appendLimit = N) (hi : b.releasedIndex = i % N) :
    flushAppended^[m] b =
      { b with
        appendedCount := b.appendedCount - m
        releasedCount := b.releasedCount + m
        releasedIndex := (i + m) % N } := by
  induction m with
  | zero => simp [← hi]
  | succ m ih =>
    rw [Function.iterate_succ_apply', ih, flushAppended]
    simp only [hlimit, succ_mod]
    rfl

lemma getRegisteredAppendedBuffers (h : Refines p b q) :
    (b.getRegisteredAppendedBuffers N).1 =
        { b with
          registeredCount := 0
          appendedCount := 0
          releasedCount := q.all.length
          releasedIndex := (p + q.all.length) % N } ∧
      (b.getRegisteredAppendedBuffers N).2.length = q.registered.length + q.appended.length := by
  have hlen : q.all.length = q.released.length + (q.registered.length + q.appended.length) := by
    simp only [Queues.all, length_append]
  have hfits := h.fits
  have hmin : min (q.registered.length + q.appended.length) N = q.registered.length + q.appended.length := by omega
  unfold AudioBuffers.getRegisteredAppendedBuffers
  rw [h.registered, h.appended, hmin]
  by_cases hzero : q.registered.length + q.appended.length = 0
  · rw [if_pos hzero]
    have hall : q.all.length = q.released.length := by omega
    have hregistered : q.registered.length = 0 := by omega
    have happended : q.appended.length = 0 := by omega
    refine ⟨AudioBuffers.ext rfl rfl ?_ ?_ rfl ?_ rfl ?_, hzero.symm⟩
    · rw [hall]
      exact h.releasedIndex
    · rw [hall]
      exact h.released
    · exact h.registered.trans hregistered
    · exact h.appended.trans happended
  · rw [if_neg hzero, if_neg hzero]
    obtain ⟨hloop, hlength⟩ := flushLoop [] (flushRegisteredLoop _) flushRegistered
      registeredCount (fun b => b.buffers (Ring.back N b.registeredIndex b.registeredCount))
      (fun _ _ => rfl) (fun _ _ _ => rfl) (fun _ => rfl) h.registered (show _ ≤ q.registered.length + q.appended.length by simp)
    rw [flushRegistered_iterate h.limit h.releasedIndex, h.registered, Nat.sub_self] at hloop
    generalize flushRegisteredLoop (q.registered.length + q.appended.length)
      q.registered.length b [] = r at hloop hlength ⊢
    obtain ⟨b', flushed⟩ := r
    dsimp only at hloop hlength ⊢
    have happended : b'.appendedCount = q.appended.length := by rw [hloop]; exact h.appended
    rw [happended]
    obtain ⟨hloop', hlength'⟩ := flushLoop flushed (flushAppendedLoop _) flushAppended
      appendedCount (fun b => b.buffers (Ring.back N b.appendedIndex b.appendedCount))
      (fun _ _ => rfl) (fun _ _ _ => rfl) (fun _ => rfl) happended (show flushed.length + q.appended.length ≤ q.registered.length + q.appended.length by simp [hlength])
    rw [flushAppended_iterate (i := p + q.released.length + q.registered.length) (by rw [hloop]; exact h.limit)
      (by rw [hloop]), happended, Nat.sub_self] at hloop'
    refine ⟨?_, ?_⟩
    · rw [hloop', hloop, hlen, h.released]
      simp only [add_assoc]
    · rw [hlength', hlength, length_nil, zero_add]

lemma flush (h : Refines p b q) (hflush : b.Flushable .flush) :
    Refines p (b.call .flush).1 (q.call .flush).1 ∧ (b.call .flush).2 = (q.call .flush).2 := by
  obtain ⟨hstate, hlength⟩ := h.getRegisteredAppendedBuffers
  have hlen : q.all.length = q.released.length + q.registered.length + q.appended.length := by
    simp only [Queues.all, length_append]
    omega
  have hall : (⟨q.all, [], []⟩ : Queues).all = q.all := by simp [Queues.all]
  have hindex : (p + (q.released.length + q.registered.length)) % N = (p + (q.all.length + 0)) % N := by
    rw [hlen, add_zero, ← h.appended]
    rcases hflush with hzero | hfull
    · rw [hzero, add_zero]
    · rw [hfull, ← add_assoc p (_ + _) N, add_mod_right]
  simp only [call, Queues.call, flushBuffers, h.limit]
  rw [hstate, hlength]
  refine ⟨⟨h.limit, rfl, rfl, rfl, ?_, ?_, rfl, ?_, ?_, ?_⟩, ?_⟩
  · rw [hall]
    exact h.window
  · rw [hall]
    exact h.fits
  · exact h.registeredIndex.trans hindex
  · rw [hall]
    exact h.appendedIndex
  · rw [hall]
    exact h.tags
  · simp [h.limit, h.fits]

/-! ### Contains -/

lemma containsLoop (hlimit : b.appendLimit = N) (tag i count : ℕ) :
    b.containsLoop tag count (i % N) = (Ring.window N b.buffers i count).any (·.tag == tag) := by
  induction count generalizing i with
  | zero => rfl
  | succ count ih =>
    unfold AudioBuffers.containsLoop
    rw [Ring.window_succ, any_cons, hlimit, succ_mod, ih]
    by_cases htag : (b.buffers (i % N)).tag = tag
    · simp [htag]
    · simp [htag]

lemma contains (h : Refines p b q) (tag : ℕ) : b.containsBuffer tag = q.all.any (·.tag == tag) := by
  unfold containsBuffer
  rw [h.total]
  by_cases hzero : q.all.length = 0
  · rw [if_pos hzero, eq_nil_of_length_eq_zero hzero]
    rfl
  · have hfits := h.fits
    have hreleased : q.released.length ≤ q.all.length := by simp [Queues.all]
    rw [if_neg hzero, h.limit, h.releasedIndex, h.released, Ring.back_eq (by omega) (by omega),
      containsLoop h.limit, h.window]

/-! ### Calls and runs -/

/-- **One call**: the ring answers as the queues do. -/
lemma call (h : Refines p b q) {c : Call} (hc : b.Admits c) (hflush : b.Flushable c) :
    (∃ p', Refines p' (b.call c).1 (q.call c).1) ∧ (b.call c).2 = (q.call c).2 := by
  cases c with
  | append x =>
    obtain ⟨hroom, hx⟩ := hc
    rw [h.total] at hroom
    exact ⟨⟨p, h.append hroom hx⟩, rfl⟩
  | register =>
    obtain ⟨hq, hout⟩ := h.register
    exact ⟨⟨p, hq⟩, congrArg Answer.registered hout⟩
  | release rounds force =>
    obtain ⟨hq, hout⟩ := h.release rounds force
    exact ⟨⟨p, hq⟩, hout⟩
  | getReleased tags => exact h.getReleased hc
  | flush =>
    obtain ⟨hq, hout⟩ := h.flush hflush
    exact ⟨⟨p, hq⟩, hout⟩
  | contains tag => exact ⟨⟨p, h⟩, congrArg Answer.contains (h.contains tag)⟩

lemma run {cs : List Call} (h : Refines p b q) (hcs : b.Always AudioBuffers.Admits cs)
    (hflush : b.Always AudioBuffers.Flushable cs) :
    (∃ p', Refines p' (b.run cs).1 (q.run cs).1) ∧ (b.run cs).2 = (q.run cs).2 := by
  induction cs generalizing p b q with
  | nil => exact ⟨⟨p, h⟩, rfl⟩
  | cons c cs ih =>
    obtain ⟨⟨p', hcall⟩, hanswer⟩ := h.call hcs.1 hflush.1
    obtain ⟨hrun, hanswers⟩ := ih hcall hcs.2 hflush.2
    exact ⟨hrun, congrArg₂ cons hanswer hanswers⟩

end Refines

/-! ## Tags -/

def Answer.returned : Answer → List ℕ
  | .handedOut tags k => tags.take k
  | _ => []

def Call.tags : Call → List ℕ
  | .append buffer => [buffer.tag]
  | _ => []

namespace Queues

lemma releaseAll_tags (rounds : Rounds) (force : Bool) (released appended : List AudioBuffer) (k : ℕ)
    (registered : List AudioBuffer) (out : Released) :
    (releaseAll rounds force released appended k registered out).1.all.map (·.tag) =
      (⟨released, registered, appended⟩ : Queues).all.map (·.tag) := by
  induction registered generalizing released k out with
  | nil => rfl
  | cons x registered ih =>
    unfold releaseAll
    by_cases hstop : (!force && !rounds.isBufferConsumed k x) = true
    · rw [if_pos hstop]
    · rw [if_neg hstop, ih]
      simp [all]

lemma call_tags (q : Queues) (c : Call) :
    (q.call c).2.returned ++ (q.call c).1.all.map (·.tag) = q.all.map (·.tag) ++ c.tags := by
  cases c with
  | append x => simp [call, Answer.returned, Call.tags, all]
  | register => simp [call, Answer.returned, Call.tags, all, register]
  | release rounds force => simp [call, Answer.returned, Call.tags, releaseAll_tags]
  | getReleased tags =>
    have hlen : min q.released.length tags.length =
        ((q.released.take tags.length).map (·.tag)).length := by simp [min_comm]
    simp only [call, Answer.returned, Call.tags, all, hlen, take_left, append_nil]
    rw [← map_append, ← append_assoc, take_append_drop]
  | flush => simp [call, Answer.returned, Call.tags, all]
  | contains tag => simp [call, Answer.returned, Call.tags]

/-- **Every tag that comes in is handed out once**, in order, or is still in one of the queues. -/
lemma run_tags (q : Queues) (cs : List Call) :
    (q.run cs).2.flatMap Answer.returned ++ (q.run cs).1.all.map (·.tag) = q.all.map (·.tag) ++ cs.flatMap Call.tags := by
  induction cs generalizing q with
  | nil => simp [run]
  | cons c cs ih =>
    rw [run, flatMap_cons, flatMap_cons, append_assoc, ih, ← append_assoc, call_tags, append_assoc]

end Queues

/-! ## Runs -/

/-- **The ring refines the three queues**, over every run whose flushes find nothing appended or the whole ring
appended: the answers are those of the queues, the sections are the queues, the tags are handed out in order and
once, and `ContainsBuffer` finds what is in a queue. -/
theorem run_refines {N : ℕ} (cs : List Call) (hcs : (init N : AudioBuffers N).Always AudioBuffers.Admits cs)
    (hflush : (init N : AudioBuffers N).Always AudioBuffers.Flushable cs) :
    ((init N : AudioBuffers N).run cs).2 = (Queues.empty.run cs).2 ∧
      (∃ p, Refines p ((init N : AudioBuffers N).run cs).1 (Queues.empty.run cs).1) ∧
      ((init N : AudioBuffers N).run cs).2.flatMap Answer.returned ++
          (Queues.empty.run cs).1.all.map (·.tag) = cs.flatMap Call.tags ∧
      ∀ tag, ((init N : AudioBuffers N).run cs).1.containsBuffer tag = true ↔
        ∃ x ∈ (Queues.empty.run cs).1.all, x.tag = tag := by
  obtain ⟨⟨p, hrefines⟩, hanswers⟩ := Refines.init.run hcs hflush
  refine ⟨hanswers, ⟨p, hrefines⟩, ?_, fun tag => ?_⟩
  · rw [hanswers, Queues.run_tags]
    rfl
  · rw [hrefines.contains, any_eq_true]
    simp

/-! ## Two runs -/

def tagged (tag : ℕ) : AudioBuffer := ⟨0, 0, 0, 0, tag, 256⟩

/-- The backend has played the buffers with these tags. -/
def played (tags : List ℕ) : Rounds := ⟨fun _ x => x.tag ∈ tags, fun k => k⟩

/-- Five buffers, of which the backend takes four; two have been played, and the rest is flushed once all are
registered. -/
def fiveBuffers : List Call :=
  [.append (tagged 1), .append (tagged 2), .append (tagged 3), .append (tagged 4), .append (tagged 5),
    .register, .release (played [1, 2]) false, .register, .getReleased [0], .flush, .contains 5,
    .getReleased [0, 0, 0, 0]]

theorem run_refines_five :
    (init 32 : AudioBuffers 32).Always AudioBuffers.Admits fiveBuffers ∧
      (init 32 : AudioBuffers 32).Always AudioBuffers.Flushable fiveBuffers ∧
      ((init 32 : AudioBuffers 32).run fiveBuffers).2 = (Queues.empty.run fiveBuffers).2 :=
  ⟨by decide, by decide, (run_refines fiveBuffers (by decide) (by decide)).1⟩

/-- Six buffers, of which the backend takes four; all are flushed, a seventh comes and is played. -/
def flushedAppended : List Call :=
  [.append (tagged 1), .append (tagged 2), .append (tagged 3), .append (tagged 4), .append (tagged 5),
    .append (tagged 6), .register, .flush, .append (tagged 7), .register,
    .release (played [7]) false]

/-- **After a flush of appended buffers the wrong buffer is asked about**: the fifth instead of the seventh,
which stays registered. -/
theorem release_after_flush :
    (init 32 : AudioBuffers 32).Always AudioBuffers.Admits flushedAppended ∧
      ((init 32 : AudioBuffers 32).run flushedAppended).2.getLast? = some (.released ⟨[tagged 5], []⟩ false) ∧
      (Queues.empty.run flushedAppended).2.getLast? = some (.released ⟨[tagged 7], [tagged 7]⟩ true) := by
  refine ⟨by decide, by decide, by decide⟩

end Voltemu.Audio
