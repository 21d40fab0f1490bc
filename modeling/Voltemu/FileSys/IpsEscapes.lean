import Voltemu.FileSys.PathNormalizer
import Voltemu.Lib.PairReplacement

/-!
# Escape sequences of IPSwitch patches

`ESCAPE_CHARACTER_MAP` and `EscapeStringSequences` of `ips_layer.cpp`, which replaces the pairs of the map one after another in the
whole string, against `unescape`, which goes over the string once.

* A string is the list of its bytes.  `std::string::find` and `std::string::replace` are `find` and `replace`.
* Every pass ends and is a `replacePair` (`replaceAll_spec`), so that `EscapeStringSequences` makes seven passes for control
  characters, one for the backslash and three for quotes.
* `escapeStringSequences_eq_iff`: the two agree exactly if no character that can be escaped stands behind a positive, even number
  of backslashes.
-/

namespace Voltemu.FileSys.Ips

open Voltemu.Lib List Nat

def Backslash : Byte := 0x5C#8

/-- The pairs `\\a`, `\\b`, `\\f`, `\\n`, `\\r`, `\\t`, `\\v`, `\\\\`, `\\'`, `\\"` and `\\?`, with their characters. -/
def ESCAPE_CHARACTER_MAP : List (List Byte × List Byte) :=
  [([0x5C#8, 0x61#8], [0x07#8]), ([0x5C#8, 0x62#8], [0x08#8]), ([0x5C#8, 0x66#8], [0x0C#8]), ([0x5C#8, 0x6E#8], [0x0A#8]),
    ([0x5C#8, 0x72#8], [0x0D#8]), ([0x5C#8, 0x74#8], [0x09#8]), ([0x5C#8, 0x76#8], [0x0B#8]), ([0x5C#8, 0x5C#8], [0x5C#8]),
    ([0x5C#8, 0x27#8], [0x27#8]), ([0x5C#8, 0x22#8], [0x22#8]), ([0x5C#8, 0x3F#8], [0x3F#8])]

/-- `in.find(pattern, pos)`. -/
def find (s pattern : List Byte) (pos : ℕ) : Option ℕ :=
  (range' pos (s.length + 1 - pos)).find? fun i => pattern.isPrefixOf (s.drop i)

/-- `in.replace(index, count, by)`. -/
def replace (s : List Byte) (index count : ℕ) (by' : List Byte) : List Byte := s.take index ++ by' ++ s.drop (index + count)

/-- The inner loop of `EscapeStringSequences`, with `none` if the rounds do not suffice. -/
def replaceLoop (seq : List Byte × List Byte) : (fuel : ℕ) → (s : List Byte) → (index : Option ℕ) → Option (List Byte)
  | _, s, none => some s
  | 0, _, some _ => none
  | fuel + 1, s, some index =>
      let s' := replace s index seq.1.length seq.2
      replaceLoop seq fuel s' (find s' seq.1 (index + seq.2.length))

def replaceAll (s : List Byte) (seq : List Byte × List Byte) : Option (List Byte) :=
  replaceLoop seq s.length s (find s seq.1 0)

def escapeStringSequences (s : List Byte) : Option (List Byte) := ESCAPE_CHARACTER_MAP.foldlM replaceAll s

/-! ## One scan from left to right -/

/-- The character that a backslash and `c` stand for. -/
def unescapeChar (c : Byte) : Option Byte := (ESCAPE_CHARACTER_MAP.find? (·.1 = [Backslash, c])).bind (·.2.head?)

/-- The string with every escape pair replaced, each character being looked at once. -/
def unescape : List Byte → List Byte
  | x :: c :: t =>
      if x = Backslash then
        match unescapeChar c with
        | some v => v :: unescape t
        | none => x :: unescape (c :: t)
      else x :: unescape (c :: t)
  | t => t

/-- The length of the run of backslashes in front of a position. -/
def backslashesBefore (s : List Byte) (i : ℕ) : ℕ := ((s.take i).reverse.takeWhile (· = Backslash)).length

/-- No character of an escape pair stands behind escaped backslashes alone. -/
def Untangled (s : List Byte) : Prop :=
  ∀ (i : ℕ) (c : Byte), s[i]? = some c → c ≠ Backslash → unescapeChar c ≠ none →
    Even (backslashesBefore s i) → backslashesBefore s i = 0

/-! ## The loop is a pass -/

variable {a b r c : Byte} {s t : List Byte} {k : ℕ}

lemma find_cons (pattern done : List Byte) (x : Byte) (t : List Byte) :
    find (done ++ x :: t) pattern done.length =
      if pattern.isPrefixOf (x :: t) then some done.length else find ((done ++ [x]) ++ t) pattern (done ++ [x]).length := by
  have hlength : (done ++ x :: t).length + 1 - done.length = ((done ++ [x]) ++ t).length + 1 - (done ++ [x]).length + 1 := by
    simp only [length_append, length_cons, length_nil]
    omega
  have hdrop : (done ++ x :: t).drop done.length = x :: t := drop_left
  have hstart : (done ++ [x]).length = done.length + 1 := length_append
  rw [find, hlength, range'_succ, find?_cons, hdrop]
  cases pattern.isPrefixOf (x :: t) with
  | true => rfl
  | false =>
    rw [find, hstart, append_assoc, singleton_append]
    rfl

lemma find_pair (done rest : List Byte) :
    find (done ++ rest) [a, b] done.length = (firstPair a b rest).map (done.length + ·) := by
  induction rest generalizing done with
  | nil => simp [find, firstPair]
  | cons x t ih =>
    rw [find_cons, ih]
    cases t with
    | nil => simp [firstPair, isPrefixOf]
    | cons y t =>
      have htest : [a, b].isPrefixOf (x :: y :: t) = true ↔ x = a ∧ y = b := by
        simp only [isPrefixOf, Bool.and_true, Bool.and_eq_true, beq_iff_eq]
        exact ⟨fun h => ⟨h.1.symm, h.2.symm⟩, fun h => ⟨h.1.symm, h.2.symm⟩⟩
      rw [firstPair]
      by_cases hxy : x = a ∧ y = b
      · rw [if_pos (htest.2 hxy), if_pos hxy]
        rfl
      · rw [if_neg (mt htest.1 hxy), if_neg hxy, Option.map_map]
        congr 1
        funext i
        simp
        omega

lemma replaceLoop_spec {fuel : ℕ} {rest : List Byte} (hfuel : rest.length ≤ fuel) (done : List Byte) :
    replaceLoop ([a, b], [r]) fuel (done ++ rest) (find (done ++ rest) [a, b] done.length) =
      some (done ++ replacePair a b r rest) := by
  induction fuel generalizing done rest with
  | zero =>
    rw [eq_nil_of_length_eq_zero (le_zero.1 hfuel), find_pair]
    rfl
  | succ fuel ih =>
    rw [find_pair]
    cases hfirst : firstPair a b rest with
    | none =>
      rw [replacePair_of_firstPair_none hfirst]
      rfl
    | some j =>
      obtain ⟨hj, hreplace⟩ := replacePair_of_firstPair hfirst r
      have hreplaced : replace (done ++ rest) (done.length + j) 2 [r] =
          (done ++ rest.take j ++ [r]) ++ rest.drop (j + 2) := by
        rw [replace, add_assoc, take_length_add_append, drop_length_add_append]
      have hindex : done.length + j + 1 = (done ++ rest.take j ++ [r]).length := by
        simp only [length_append, length_take, length_singleton]
        omega
      have hrest : (rest.drop (j + 2)).length ≤ fuel := by
        rw [length_drop]
        omega
      have hih := ih hrest (done ++ rest.take j ++ [r])
      rw [Option.map_some, replaceLoop, hreplace]
      dsimp only [length_cons, length_nil]
      rw [hreplaced, hindex, hih]
      simp

/-- **Every pass of `EscapeStringSequences`** ends and replaces the pairs from left to right. -/
lemma replaceAll_spec (s : List Byte) (a b r : Byte) : replaceAll s ([a, b], [r]) = some (replacePair a b r s) :=
  replaceLoop_spec (le_refl _) []

/-! ## The passes on a block -/

/-- The passes in front of the one for the backslash, and those behind it. -/
def controls : List (Byte × Byte) :=
  [(0x61#8, 0x07#8), (0x62#8, 0x08#8), (0x66#8, 0x0C#8), (0x6E#8, 0x0A#8), (0x72#8, 0x0D#8), (0x74#8, 0x09#8), (0x76#8, 0x0B#8)]

def quotes : List (Byte × Byte) := [(0x27#8, 0x27#8), (0x22#8, 0x22#8), (0x3F#8, 0x3F#8)]

def passes (s : List Byte) : List Byte :=
  replacePairs Backslash quotes (replacePair Backslash Backslash Backslash (replacePairs Backslash controls s))

lemma escapeStringSequences_spec (s : List Byte) : escapeStringSequences s = some (passes s) := by
  simp only [escapeStringSequences, ESCAPE_CHARACTER_MAP, foldlM_cons, foldlM_nil, replaceAll_spec,
    Option.bind_eq_bind, Option.bind_some]
  rfl

lemma controls_independent : Independent Backslash controls where
  keys := by simp [controls, Backslash]
  values := by simp [controls, Backslash]
  later := by simp [controls]

lemma quotes_independent : Independent Backslash quotes where
  keys := by simp [quotes, Backslash]
  values := by simp [quotes, Backslash]
  later := by simp [quotes]

lemma passes_marks (k : ℕ) : passes (replicate k Backslash) = replicate (k - k / 2) Backslash := by
  rw [passes, replacePairs_marks controls_independent, replacePair_mark_marks, replacePairs_marks quotes_independent]

/-- How a character that is no backslash is escaped, if it is. -/
inductive Kind (c : Byte) : Prop
  | control (d : Byte) (hfirst : controls.find? (·.1 = c) = some (c, d)) (hd : d ≠ Backslash) (hne : d ≠ c)
      (hquotes : ∀ p ∈ quotes, p.1 ≠ d) (hchar : unescapeChar c = some d)
  | quote (hcontrols : ∀ p ∈ controls, p.1 ≠ c) (hfirst : quotes.find? (·.1 = c) = some (c, c))
      (hchar : unescapeChar c = some c)
  | plain (hcontrols : ∀ p ∈ controls, p.1 ≠ c) (hquotes : ∀ p ∈ quotes, p.1 ≠ c) (hchar : unescapeChar c = none)

section

variable (hc : c ≠ Backslash)
include hc

lemma kind : Kind c := by
  by_cases hcontrol : c ∈ controls.map (·.1)
  · simp only [controls, map_cons, map_nil, mem_cons, not_mem_nil, or_false] at hcontrol
    rcases hcontrol with rfl | rfl | rfl | rfl | rfl | rfl | rfl <;>
      exact .control _ rfl (by decide) (by decide) (by simp [quotes]) rfl
  · have hcontrols : ∀ p ∈ controls, p.1 ≠ c := fun p hp heq => hcontrol (heq ▸ mem_map_of_mem hp)
    by_cases hquote : c ∈ quotes.map (·.1)
    · simp only [quotes, map_cons, map_nil, mem_cons, not_mem_nil, or_false] at hquote
      rcases hquote with rfl | rfl | rfl <;> exact .quote hcontrols rfl rfl
    · have hquotes : ∀ p ∈ quotes, p.1 ≠ c := fun p hp heq => hquote (heq ▸ mem_map_of_mem hp)
      refine .plain hcontrols hquotes ?_
      simp only [controls, quotes, map_cons, map_nil, mem_cons, not_mem_nil, or_false, not_or] at hcontrol hquote
      rw [unescapeChar, find?_eq_none.2, Option.bind_none]
      simp only [ESCAPE_CHARACTER_MAP, forall_mem_cons, decide_eq_true_eq, cons.injEq, and_true, Backslash] at *
      simp [Ne.symm, *]

lemma passes_control {d : Byte} (hfirst : controls.find? (·.1 = c) = some (c, d)) (hd : d ≠ Backslash)
    (hquotes : ∀ p ∈ quotes, p.1 ≠ d) (hk : 0 < k) (t : List Byte) :
    passes (replicate k Backslash ++ c :: t) = replicate (k - 1 - (k - 1) / 2) Backslash ++ d :: passes t := by
  rw [passes, replacePairs_block_of_mem controls_independent hc hk hfirst, replacePair_mark_block hd,
    replacePairs_block_of_kept quotes_independent hd fun _ => hquotes]
  rfl

lemma passes_quote (hcontrols : ∀ p ∈ controls, p.1 ≠ c) (hfirst : quotes.find? (·.1 = c) = some (c, c))
    (hk : 0 < k) (t : List Byte) :
    passes (replicate k Backslash ++ c :: t) = replicate (k - k / 2 - 1) Backslash ++ c :: passes t := by
  rw [passes, replacePairs_block_of_kept controls_independent hc fun _ => hcontrols, replacePair_mark_block hc,
    replacePairs_block_of_mem quotes_independent hc (by omega) hfirst]
  rfl

lemma passes_plain (hcontrols : 0 < k → ∀ p ∈ controls, p.1 ≠ c) (hquotes : 0 < k → ∀ p ∈ quotes, p.1 ≠ c)
    (t : List Byte) :
    passes (replicate k Backslash ++ c :: t) = replicate (k - k / 2) Backslash ++ c :: passes t := by
  rw [passes, replacePairs_block_of_kept controls_independent hc hcontrols, replacePair_mark_block hc,
    replacePairs_block_of_kept quotes_independent hc fun hk => hquotes (by omega)]
  rfl

end

/-! ## The scan on a block -/

lemma unescapeChar_backslash : unescapeChar Backslash = some Backslash := rfl

lemma unescape_cons_of_ne (hc : c ≠ Backslash) (t : List Byte) : unescape (c :: t) = c :: unescape t := by
  cases t with
  | nil => rfl
  | cons y t => rw [unescape, if_neg hc]

lemma unescape_two_marks (t : List Byte) : unescape (Backslash :: Backslash :: t) = Backslash :: unescape t := by
  rw [unescape, if_pos rfl, unescapeChar_backslash]

lemma unescape_marks (k : ℕ) : unescape (replicate k Backslash) = replicate (k - k / 2) Backslash := by
  induction k using Nat.twoStepInduction with
  | zero => rfl
  | one => rfl
  | more k ih _ =>
    rw [replicate_succ, replicate_succ, unescape_two_marks, ih, ← replicate_succ]
    congr 1
    omega

lemma unescape_even (hc : c ≠ Backslash) (m : ℕ) (t : List Byte) :
    unescape (replicate (2 * m) Backslash ++ c :: t) = replicate m Backslash ++ c :: unescape t := by
  induction m with
  | zero => exact unescape_cons_of_ne hc t
  | succ m ih =>
    rw [mul_succ, replicate_succ, replicate_succ, cons_append, cons_append, unescape_two_marks, ih]
    rfl

lemma unescape_odd (hc : c ≠ Backslash) (m : ℕ) (t : List Byte) :
    unescape (replicate (2 * m + 1) Backslash ++ c :: t) =
      replicate m Backslash ++
        match unescapeChar c with
        | some v => v :: unescape t
        | none => Backslash :: c :: unescape t := by
  induction m with
  | zero =>
    rw [mul_zero, zero_add, replicate_one, singleton_append, unescape, if_pos rfl, replicate_zero,
      nil_append, unescape_cons_of_ne hc]
  | succ m ih =>
    have hmarks : 2 * (m + 1) + 1 = 2 * m + 1 + 1 + 1 := by omega
    rw [hmarks, replicate_succ, replicate_succ, cons_append, cons_append, unescape_two_marks, ih]
    rfl

/-! ## The condition on a block -/

lemma backslashesBefore_run (k : ℕ) (c : Byte) (t : List Byte) :
    backslashesBefore (replicate k Backslash ++ c :: t) k = k := by
  have htake : (replicate k Backslash ++ c :: t).take k = replicate k Backslash :=
    take_left' length_replicate
  rw [backslashesBefore, htake, reverse_replicate, takeWhile_replicate, if_pos (decide_eq_true rfl), length_replicate]

lemma takeWhile_append_cons {p : Byte → Bool} (hc : p c = false) (l r : List Byte) :
    (l ++ c :: r).takeWhile p = l.takeWhile p := by
  induction l with
  | nil => rw [nil_append, takeWhile_cons, hc, takeWhile_nil]; rfl
  | cons x l ih => rw [cons_append, takeWhile_cons, takeWhile_cons, ih]

lemma backslashesBefore_rest (hc : c ≠ Backslash) (k : ℕ) (t : List Byte) (i : ℕ) :
    backslashesBefore (replicate k Backslash ++ c :: t) (k + 1 + i) = backslashesBefore t i := by
  have htake : (replicate k Backslash ++ c :: t).take (k + 1 + i) = replicate k Backslash ++ c :: t.take i := by
    have hindex : k + 1 + i = (replicate k Backslash).length + (i + 1) := by
      rw [length_replicate]
      omega
    rw [hindex, take_length_add_append, take_succ_cons]
  rw [backslashesBefore, htake, reverse_append, reverse_cons, append_assoc, singleton_append,
    takeWhile_append_cons (decide_eq_false hc), backslashesBefore]

lemma untangled_marks (k : ℕ) : Untangled (replicate k Backslash) := by
  intro i c hi hc
  exact absurd (eq_of_mem_replicate (mem_of_getElem? hi)) hc

lemma untangled_block (hc : c ≠ Backslash) (k : ℕ) (t : List Byte) :
    Untangled (replicate k Backslash ++ c :: t) ↔ (unescapeChar c ≠ none → Even k → k = 0) ∧ Untangled t := by
  have hrun (i : ℕ) (hi : i < k) : (replicate k Backslash ++ c :: t)[i]? = some Backslash := by
    rw [getElem?_append_left (by rwa [length_replicate]), getElem?_replicate, if_pos hi]
  have hrest (i : ℕ) : (replicate k Backslash ++ c :: t)[k + i]? = (c :: t)[i]? := by
    rw [getElem?_append_right (by rw [length_replicate]; omega), length_replicate, Nat.add_sub_cancel_left]
  constructor
  · intro h
    refine ⟨fun hchar heven => ?_, fun i d hi hd hchar heven => ?_⟩
    · have hk := h k c (hrest 0) hc hchar
      rw [backslashesBefore_run] at hk
      exact hk heven
    · have hi' := h (k + 1 + i) d (by rw [add_assoc, hrest, add_comm, getElem?_cons_succ, hi]) hd hchar
      rw [backslashesBefore_rest hc] at hi'
      exact hi' heven
  · rintro ⟨hblock, ht⟩ i d hi hd hchar heven
    rcases lt_trichotomy i k with hlt | rfl | hgt
    · rw [hrun i hlt] at hi
      exact absurd (Option.some.inj hi).symm hd
    · have hdc : c = d := Option.some.inj ((hrest 0).symm.trans hi)
      subst hdc
      rw [backslashesBefore_run] at heven ⊢
      exact hblock hchar heven
    · obtain ⟨j, rfl⟩ : ∃ j, i = k + 1 + j := ⟨i - (k + 1), by omega⟩
      rw [backslashesBefore_rest hc] at heven ⊢
      rw [add_assoc, hrest, add_comm, getElem?_cons_succ] at hi
      exact ht j d hi hd hchar heven

/-- **The passes are the scan** exactly for untangled strings. -/
lemma passes_eq_unescape_iff (s : List Byte) : passes s = unescape s ↔ Untangled s := by
  induction s using blocks_induction Backslash with
  | hend k =>
    rw [passes_marks, unescape_marks]
    exact iff_of_true rfl (untangled_marks k)
  | hblock k c t hc ih =>
    rw [untangled_block hc, ← ih]
    obtain ⟨m, rfl | rfl⟩ := even_or_odd' k
    · -- an even run: the scan keeps the character
      rw [unescape_even hc]
      rcases Nat.eq_zero_or_pos m with rfl | hm
      · rw [passes_plain hc (fun h => absurd h (lt_irrefl 0)) (fun h => absurd h (lt_irrefl 0)), block_inj hc hc]
        simp
      · have hescaped {v : Byte} (hchar : unescapeChar c = some v) : ¬ (unescapeChar c ≠ none → Even (2 * m) → 2 * m = 0) := by
          intro h
          have := h (by rw [hchar]; exact Option.some_ne_none v) (even_two_mul m)
          omega
        cases kind hc with
        | control d hfirst hd hne hquotes hchar =>
          rw [passes_control hc hfirst hd hquotes (by omega), block_inj hd hc]
          exact iff_of_false (fun h => hne h.2.1) (fun h => hescaped hchar h.1)
        | quote hcontrols hfirst hchar =>
          rw [passes_quote hc hcontrols hfirst (by omega), block_inj hc hc]
          exact iff_of_false (fun h => by omega) (fun h => hescaped hchar h.1)
        | plain hcontrols hquotes hchar =>
          have hhalf : 2 * m - 2 * m / 2 = m := by omega
          rw [passes_plain hc (fun _ => hcontrols) (fun _ => hquotes), hhalf, block_inj hc hc, hchar]
          simp
    · -- an odd run: its last backslash escapes the character, whatever the order of the passes
      have hodd : ¬ Even (2 * m + 1) := not_even_bit1 m
      rw [unescape_odd hc]
      cases kind hc with
      | control d hfirst hd hne hquotes hchar =>
        have hhalf : 2 * m + 1 - 1 - (2 * m + 1 - 1) / 2 = m := by omega
        rw [passes_control hc hfirst hd hquotes (by omega), hhalf, hchar, block_inj hd hd]
        simp [hodd]
      | quote hcontrols hfirst hchar =>
        have hhalf : 2 * m + 1 - (2 * m + 1) / 2 - 1 = m := by omega
        rw [passes_quote hc hcontrols hfirst (by omega), hhalf, hchar, block_inj hc hc]
        simp [hodd]
      | plain hcontrols hquotes hchar =>
        have hhalf : 2 * m + 1 - (2 * m + 1) / 2 = m + 1 := by omega
        have hrun : replicate m Backslash ++ Backslash :: c :: unescape t =
            replicate (m + 1) Backslash ++ c :: unescape t := by
          rw [replicate_succ', append_assoc, singleton_append]
        rw [passes_plain hc (fun _ => hcontrols) (fun _ => hquotes), hchar, hhalf, hrun, block_inj hc hc]
        simp

/-- **`EscapeStringSequences`** ends for every string.  It returns what one scan from left to right gives exactly if no character
of an escape pair stands behind a positive, even number of backslashes. -/
theorem escapeStringSequences_eq_iff (s : List Byte) : escapeStringSequences s = some (unescape s) ↔ Untangled s := by
  rw [escapeStringSequences_spec, Option.some.injEq, passes_eq_unescape_iff]

/-- Two backslashes and an `n`: the scan gives a backslash and an `n`, the passes a backslash and a line feed. -/
theorem escapeStringSequences_backslash_n :
    escapeStringSequences [0x5C#8, 0x5C#8, 0x6E#8] = some [0x5C#8, 0x0A#8] ∧
      unescape [0x5C#8, 0x5C#8, 0x6E#8] = [0x5C#8, 0x6E#8] ∧
      escapeStringSequences [0x5C#8, 0x5C#8, 0x6E#8] ≠ some (unescape [0x5C#8, 0x5C#8, 0x6E#8]) := by
  decide

end Voltemu.FileSys.Ips
