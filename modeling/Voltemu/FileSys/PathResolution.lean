import Voltemu.FileSys.PathNormalizer

/-!
# Normalised paths never leave the root

`Resolve` is what a path means: a stack of components, on which `".."` removes the last one.

* `Holds` relates the destination of `Normalize` to a stack.  The separator behind the last component is there if the next
  one is skipped.
* `normalizeLoop_spec`: the loop resolves the components.
* **`normalize_resolves`**: `Normalize` returns the resolved path, or fails if the path leaves the root, as long as no
  byte with its highest bit set is looked up as a signed character.
* **`normalize_twice`**: normalising again changes nothing.
-/

namespace Voltemu.FileSys

open StringTraits Function List Option Nat

/-! ## Resolved paths -/

def components (path : List Byte) : List (List Byte) := path.splitOn DirectorySeparator

/-- A component that is kept. -/
def Ordinary (component : List Byte) : Prop := component ≠ [] ∧ component ≠ [Dot] ∧ component ≠ [Dot, Dot]

instance (component : List Byte) : Decidable (Ordinary component) := inferInstanceAs (Decidable (_ ∧ _ ∧ _))

/-- One component.  The last component of the stack comes first. -/
def resolveStep (stack : List (List Byte)) (component : List Byte) : Option (List (List Byte)) :=
  if Ordinary component then some (component :: stack)
  else if component = [Dot, Dot] then
    match stack with
    | [] => none
    | _ :: stack => some stack
  else some stack

/-- **The components that are left**, or `none` if a component leaves the root. -/
def resolve : (stack components : List (List Byte)) → Option (List (List Byte))
  | stack, [] => some stack
  | stack, component :: rest => (resolveStep stack component).bind fun stack => resolve stack rest

/-- The path with the components of a stack. -/
def resolvedPath (stack : List (List Byte)) : List Byte :=
  DirectorySeparator :: [DirectorySeparator].intercalate stack.reverse

/-- No prefix of the path has more `".."` components than ordinary ones. -/
def StaysInside (path : List Byte) : Prop :=
  ∀ n, ((components path).take n).countP (· = [Dot, Dot]) ≤ ((components path).take n).countP (Ordinary ·)

section Resolve

variable {stack : List (List Byte)} {component : List Byte} {rest : List (List Byte)}

lemma resolveStep_ordinary (h : Ordinary component) : resolveStep stack component = some (component :: stack) := by
  simp [resolveStep, h]

lemma not_ordinary_parent : ¬ Ordinary [Dot, Dot] := fun h => h.2.2 rfl

lemma resolveStep_parent_nil : resolveStep [] [Dot, Dot] = none := by
  simp [resolveStep, not_ordinary_parent]

lemma resolveStep_parent_cons (top : List Byte) : resolveStep (top :: stack) [Dot, Dot] = some stack := by
  simp [resolveStep, not_ordinary_parent]

lemma resolveStep_other (h : ¬ Ordinary component) (hparent : component ≠ [Dot, Dot]) :
    resolveStep stack component = some stack := by
  simp [resolveStep, h, hparent]

@[simp] lemma resolve_nil_cons : resolve stack ([] :: rest) = resolve stack rest := by
  simp [resolve, resolveStep, Ordinary]

/-- Resolution succeeds if no prefix removes more components than there are. -/
lemma resolve_isSome_iff (components : List (List Byte)) : ∀ stack : List (List Byte),
    (resolve stack components).isSome ↔ ∀ n, (components.take n).countP (· = [Dot, Dot]) ≤
      (components.take n).countP (Ordinary ·) + stack.length := by
  induction components with
  | nil =>
    intro stack
    simp [resolve]
  | cons component rest ih =>
    intro stack
    have hcons : (∀ n, ((component :: rest).take n).countP (· = [Dot, Dot]) ≤
          ((component :: rest).take n).countP (Ordinary ·) + stack.length) ↔
        ∀ n, (rest.take n).countP (· = [Dot, Dot]) + (if component = [Dot, Dot] then 1 else 0) ≤
          (rest.take n).countP (Ordinary ·) + (if Ordinary component then 1 else 0) + stack.length := by
      constructor
      · intro h n
        have := h (n + 1)
        simpa [countP_cons] using this
      · intro h n
        cases n with
        | zero => simp
        | succ n =>
          have := h n
          simpa [countP_cons] using this
    rw [hcons, resolve]
    by_cases hordinary : Ordinary component
    · have hne : component ≠ [Dot, Dot] := hordinary.2.2
      simp only [resolveStep_ordinary hordinary, if_pos hordinary, if_neg hne, bind_some, ih, length_cons]
      exact forall_congr' fun n => by omega
    · by_cases hparent : component = [Dot, Dot]
      · subst hparent
        simp only [if_neg hordinary, if_true]
        cases stack with
        | nil =>
          simp only [resolveStep_parent_nil, bind_none, isSome_none, length_nil]
          constructor
          · intro h
            cases h
          · intro h
            have := h 0
            simp at this
        | cons top stack =>
          simp only [resolveStep_parent_cons, bind_some, ih, length_cons]
          exact forall_congr' fun n => by omega
      · simp only [resolveStep_other hordinary hparent, if_neg hparent, if_neg hordinary, bind_some, ih]
        exact forall_congr' fun n => by omega

lemma staysInside_iff (path : List Byte) : StaysInside path ↔ (resolve [] (components path)).isSome := by
  rw [resolve_isSome_iff]
  rfl

end Resolve

/-! ## Components of a string -/

def firstComponent (rest : List Byte) : List Byte := rest.takeWhile (· != DirectorySeparator)

def afterComponent (rest : List Byte) : List Byte := rest.dropWhile (· != DirectorySeparator)

section Components

variable {rest : List Byte}

lemma first_append_after (rest : List Byte) : firstComponent rest ++ afterComponent rest = rest :=
  takeWhile_append_dropWhile

lemma take_firstComponent (rest : List Byte) : rest.take (firstComponent rest).length = firstComponent rest := by
  conv_lhs => arg 2; rw [← first_append_after rest]
  exact take_left

lemma drop_firstComponent (rest : List Byte) : rest.drop (firstComponent rest).length = afterComponent rest := by
  conv_lhs => arg 2; rw [← first_append_after rest]
  exact drop_left

lemma firstComponent_subset (rest : List Byte) : firstComponent rest ⊆ rest :=
  List.IsPrefix.subset ( takeWhile_prefix _)

lemma separator_notMem_first (rest : List Byte) : DirectorySeparator ∉ firstComponent rest := by
  intro hmem
  have hall := all_eq_true.1 (all_takeWhile (p := (· != DirectorySeparator)) (l := rest)) _ hmem
  simp at hall

/-- What is behind a component is empty or starts with a separator. -/
def AtSeparator (rest : List Byte) : Prop := rest = [] ∨ ∃ tail, rest = DirectorySeparator :: tail

lemma atSeparator_after (rest : List Byte) : AtSeparator (afterComponent rest) := by
  induction rest with
  | nil => exact .inl rfl
  | cons c rest ih =>
    rw [afterComponent, dropWhile_cons]
    split_ifs with hc
    · exact ih
    · exact .inr ⟨rest, by simpa using hc⟩

lemma components_separator (tail : List Byte) : components (DirectorySeparator :: tail) = [] :: components tail :=
  splitOn_append_cons_self [] tail

lemma resolve_components (stack : List (List Byte)) (rest : List Byte) :
    resolve stack (components rest) =
      (resolveStep stack (firstComponent rest)).bind fun stack => resolve stack (components (afterComponent rest)) := by
  have hmem := separator_notMem_first rest
  conv_lhs => rw [← first_append_after rest]
  rcases atSeparator_after rest with hnil | ⟨tail, hcons⟩
  · rw [hnil, append_nil, components, splitOn_eq_singleton hmem]
    rfl
  · rw [hcons, components, splitOn_append_cons_self_of_not_mem hmem]
    simp only [components_separator, resolve_nil_cons]
    rfl

lemma resolve_dropWhile (stack : List (List Byte)) (rest : List Byte) :
    resolve stack (components (rest.dropWhile (· == DirectorySeparator))) = resolve stack (components rest) := by
  induction rest with
  | nil => rfl
  | cons c rest ih =>
    rw [dropWhile_cons]
    split_ifs with hc
    · obtain rfl : c = DirectorySeparator := by simpa using hc
      rw [ih, components_separator, resolve_nil_cons]
    · rfl

end Components

/-! ## Characters -/

/-- A byte that can be looked up in the character masks. -/
def Readable (charSigned allowAll : Bool) (c : Byte) : Prop :=
  allowAll = true ∨ charSigned = false ∨ c < 0x80#8

instance (charSigned allowAll : Bool) (c : Byte) : Decidable (Readable charSigned allowAll c) :=
  inferInstanceAs (Decidable (_ ∨ _ ∨ _))

lemma isInvalidCharacter_eq : ∀ (charSigned : Bool) (c : Byte),
    isInvalidCharacter charSigned c =
      if charSigned = false ∨ c < 0x80#8 then some (decide (c ∈ InvalidCharacters)) else none := by
  decide +kernel

section Characters

variable {charSigned allowAll : Bool} {c : Byte}

lemma checkCharacter_of_readable (hread : Readable charSigned allowAll c) (hc : c ∉ InvalidCharacters) :
    PathNormalizer.checkCharacter charSigned allowAll c = some (.ok ()) := by
  rw [PathNormalizer.checkCharacter]
  split_ifs with hall
  · rfl
  · have hin : charSigned = false ∨ c < 0x80#8 := hread.resolve_left hall
    rw [isInvalidCharacter_eq, if_pos hin]
    simp [hc]

lemma checkCharacter_of_not_readable (hread : ¬ Readable charSigned allowAll c) :
    PathNormalizer.checkCharacter charSigned allowAll c = none := by
  have hall : ¬ allowAll = true := fun h => hread (.inl h)
  have hout : ¬ (charSigned = false ∨ c < 0x80#8) := fun h => hread (.inr h)
  rw [PathNormalizer.checkCharacter, if_neg hall, isInvalidCharacter_eq, if_neg hout]
  rfl

lemma componentLength_eq {rest : List Byte} (hvalid : ∀ c ∈ rest, c ∉ InvalidCharacters) :
    PathNormalizer.componentLength charSigned allowAll rest =
      if ∀ c ∈ firstComponent rest, Readable charSigned allowAll c then
        some (.ok (firstComponent rest).length)
      else none := by
  induction rest with
  | nil => rfl
  | cons c rest ih =>
    have ih := ih fun c hc => hvalid c (by simp [hc])
    rw [PathNormalizer.componentLength]
    by_cases hsep : c = DirectorySeparator
    · subst hsep
      simp [firstComponent]
    · have hfirst : firstComponent (c :: rest) = c :: firstComponent rest := by
        simp [firstComponent, hsep]
      rw [if_neg hsep, hfirst]
      by_cases hread : Readable charSigned allowAll c
      · rw [checkCharacter_of_readable hread (hvalid c (by simp)), ih]
        by_cases hall : ∀ c ∈ firstComponent rest, Readable charSigned allowAll c
        · rw [if_pos hall, if_pos (by simpa [hread] using hall)]
          rfl
        · rw [if_neg hall, if_neg (by simpa [hread] using hall)]
          rfl
      · rw [checkCharacter_of_not_readable hread, if_neg (fun h => hread (h c (by simp)))]
        rfl

end Characters

/-! ## The destination -/

namespace PathNormalizer

section State

variable {maxOutSize : ℕ} {s : NormalizeState}

@[simp] lemma output_length (s : NormalizeState) : s.output.length = s.totalLen := by
  simp [NormalizeState.output]

lemma output_take {n : ℕ} (hn : n ≤ s.totalLen) : (range n).map s.dst = s.output.take n := by
  rw [NormalizeState.output, ← map_take, take_range, min_eq_left hn]

lemma dst_eq_output {i : ℕ} (hi : i < s.totalLen) : s.dst i = s.output.getD i NullTerminator := by
  simp [NormalizeState.output, hi]

lemma push_output (c : Byte) : (s.push maxOutSize c).output = s.output ++ [c] := by
  have hsame : ∀ i ∈ range s.totalLen, update s.dst s.totalLen c i = s.dst i := by
    intro i hi
    exact update_of_ne (by have := mem_range.1 hi; omega) _ _
  simp only [NormalizeState.output, NormalizeState.push, NormalizeState.store, range_succ, map_append,
    map_cons, map_nil, update_self]
  rw [map_congr_left hsame]

lemma pushAll_output (cs : List Byte) : (s.pushAll maxOutSize cs).output = s.output ++ cs := by
  induction cs generalizing s with
  | nil => simp [NormalizeState.pushAll]
  | cons c cs ih =>
    have hstep : s.pushAll maxOutSize (c :: cs) = (s.push maxOutSize c).pushAll maxOutSize cs := rfl
    rw [hstep, ih, push_output, append_assoc, singleton_append]

/-- Writes that stay inside of the buffer. -/
lemma pushAll_flags (cs : List Byte) (hin : s.inBounds = true) (hfits : s.totalLen + cs.length ≤ maxOutSize) :
    (s.pushAll maxOutSize cs).inBounds = true ∧ (s.pushAll maxOutSize cs).asserts = s.asserts ∧
      (s.pushAll maxOutSize cs).skipNextSep = s.skipNextSep := by
  induction cs generalizing s with
  | nil => exact ⟨hin, rfl, rfl⟩
  | cons c cs ih =>
    rw [length_cons] at hfits
    have hpush : (s.push maxOutSize c).inBounds = true := by
      simp only [NormalizeState.push, NormalizeState.store, hin, Bool.true_and, decide_eq_true_eq]
      omega
    exact ih hpush (by simp only [NormalizeState.push]; omega)

lemma previousSeparator_eq {dst : ℕ → Byte} {n : ℕ} (hn : dst n = DirectorySeparator) (k : ℕ)
    (hbetween : ∀ i, n < i → i ≤ n + k → dst i ≠ DirectorySeparator) : previousSeparator dst (n + k) = n := by
  induction k with
  | zero =>
    cases n with
    | zero => rfl
    | succ n => rw [add_zero, previousSeparator, if_pos hn]
  | succ k ih =>
    rw [← add_assoc, previousSeparator, if_neg (hbetween (n + k + 1) (by omega) (by omega))]
    exact ih fun i h1 h2 => hbetween i h1 (by omega)

end State

/-! ## One component -/

section Step

variable {rest : List Byte}

lemma isCurrentDirectory_iff (hnul : NullTerminator ∉ rest) :
    isCurrentDirectory rest = true ↔ firstComponent rest = [Dot] := by
  have hdot : DirectorySeparator ≠ Dot := by decide
  rcases rest with _ | ⟨a, _ | ⟨b, rest⟩⟩
  · decide
  · by_cases ha : a = Dot
    · subst ha
      decide
    · by_cases hsep : a = DirectorySeparator <;> simp [isCurrentDirectory, charAt, firstComponent, ha, hsep, hdot]
  · have hb : b ≠ NullTerminator := fun h => hnul (by simp [h])
    by_cases ha : a = Dot
    · subst ha
      by_cases hsep : b = DirectorySeparator <;>
        simp [isCurrentDirectory, charAt, firstComponent, hsep, hb, hdot.symm]
    · by_cases hsep : a = DirectorySeparator <;> simp [isCurrentDirectory, charAt, firstComponent, ha, hsep, hdot]

lemma isParentDirectory_iff (hnul : NullTerminator ∉ rest) :
    isParentDirectory rest = true ↔ firstComponent rest = [Dot, Dot] := by
  have hdot : DirectorySeparator ≠ Dot := by decide
  have hdot' : NullTerminator ≠ Dot := by decide
  rcases rest with _ | ⟨a, _ | ⟨b, _ | ⟨c, rest⟩⟩⟩
  · decide
  · by_cases hsep : a = DirectorySeparator <;> simp [isParentDirectory, charAt, firstComponent, hsep, hdot']
  · by_cases ha : a = Dot
    · subst ha
      by_cases hb : b = Dot
      · subst hb
        decide
      · by_cases hsep : b = DirectorySeparator <;> simp [isParentDirectory, charAt, firstComponent, hb, hsep, hdot, hdot.symm]
    · by_cases hsep : a = DirectorySeparator <;> simp [isParentDirectory, charAt, firstComponent, ha, hsep, hdot]
  · have hc : c ≠ NullTerminator := fun h => hnul (by simp [h])
    by_cases ha : a = Dot
    · subst ha
      by_cases hb : b = Dot
      · subst hb
        by_cases hsep : c = DirectorySeparator <;>
          simp [isParentDirectory, charAt, firstComponent, hsep, hc, hdot.symm]
      · by_cases hsep : b = DirectorySeparator <;> simp [isParentDirectory, charAt, firstComponent, hb, hsep, hdot, hdot.symm]
    · by_cases hsep : a = DirectorySeparator <;> simp [isParentDirectory, charAt, firstComponent, ha, hsep, hdot]

end Step

/-- The components of a stack, each behind a separator. -/
def render (stack : List (List Byte)) : List Byte := stack.reverse.flatMap (DirectorySeparator :: ·)

lemma render_cons (component : List Byte) (stack : List (List Byte)) :
    render (component :: stack) = render stack ++ DirectorySeparator :: component := by
  simp [render]

lemma getElem?_render_zero (stack : List (List Byte)) (tail : List Byte) :
    (render stack ++ DirectorySeparator :: tail)[0]? = some DirectorySeparator := by
  rw [render]
  cases stack.reverse <;> rfl

/-- The components of a stack are ordinary ones, whose bytes meet a predicate. -/
def Proper (P : Byte → Prop) (stack : List (List Byte)) : Prop :=
  ∀ c ∈ stack, Ordinary c ∧ DirectorySeparator ∉ c ∧ ∀ b ∈ c, P b

/-- **The destination holds a stack.** -/
structure Holds (P : Byte → Prop) (stack : List (List Byte)) (s : NormalizeState) : Prop where
  output : s.output = render stack ++ if s.skipNextSep then [DirectorySeparator] else []
  inBounds : s.inBounds = true
  asserts : s.asserts = true
  proper : Proper P stack

/-- The destination behind the separator of the next component. -/
structure AtComponent (P : Byte → Prop) (stack : List (List Byte)) (s : NormalizeState) : Prop where
  output : s.output = render stack ++ [DirectorySeparator]
  skip : s.skipNextSep = false
  inBounds : s.inBounds = true
  asserts : s.asserts = true
  proper : Proper P stack

section Loop

variable {P : Byte → Prop} {maxOutSize : ℕ} {stack : List (List Byte)} {s : NormalizeState} {rest : List Byte}

variable {c : Byte} {tail : List Byte}

lemma handleSeparators_spec (h : Holds P stack s) (hfits : s.totalLen + 1 < maxOutSize)
    (hrest : charAt rest 0 = DirectorySeparator) (hdrop : rest.dropWhile (· == DirectorySeparator) = c :: tail) :
    ∃ s', handleSeparators maxOutSize rest s = some (c :: tail, s', .ok ()) ∧ AtComponent P stack s' := by
  rw [handleSeparators, if_pos hrest, hdrop]
  dsimp only
  by_cases hskip : s.skipNextSep = true
  · rw [if_pos hskip]
    refine ⟨_, rfl, ?_, rfl, h.inBounds, h.asserts, h.proper⟩
    have houtput := h.output
    rw [if_pos hskip] at houtput
    exact houtput
  · rw [if_neg hskip, if_neg (by omega)]
    refine ⟨_, rfl, ?_, rfl, ?_, h.asserts, h.proper⟩
    · have houtput : s.output = render stack := by
        have := h.output
        rwa [if_neg hskip, append_nil] at this
      have hpush : (s.push maxOutSize DirectorySeparator).output = render stack ++ [DirectorySeparator] := by
        rw [push_output, houtput]
      exact hpush
    · simp only [NormalizeState.push, NormalizeState.store, h.inBounds, Bool.true_and, decide_eq_true_eq]
      omega

variable {s' : NormalizeState}

/-- A separator is written at most. -/
lemma AtComponent.totalLen_le (h' : AtComponent P stack s') (h : Holds P stack s) : s'.totalLen ≤ s.totalLen + 1 := by
  rw [← output_length s', ← output_length s, h'.output, h.output]
  simp

def handle (maxOutSize : ℕ) (isWindowsPath : Bool) (rest : List Byte) (s : NormalizeState) : NormalizeOutput :=
  if isCurrentDirectory rest then ⟨{ s with skipNextSep := true }, .ok ()⟩
  else if isParentDirectory rest then handleParentDirectory maxOutSize isWindowsPath s
  else handleComponent maxOutSize (firstComponent rest) s

lemma handleParentDirectory_root (h : AtComponent P [] s) :
    (handleParentDirectory maxOutSize false s).result = .error .directoryUnobtainable ∧
    (handleParentDirectory maxOutSize false s).state.inBounds = true ∧
    (handleParentDirectory maxOutSize false s).state.asserts = true := by
  have hlen : s.totalLen = 1 := by
    rw [← output_length, h.output]
    rfl
  have hfirst : s.dst 0 = DirectorySeparator := by
    rw [dst_eq_output (by omega), h.output]
    rfl
  rw [handleParentDirectory]
  simp [NormalizeState.check, hlen, hfirst, h.inBounds, h.asserts]

lemma handleParentDirectory_pop {top : List Byte} (h : AtComponent P (top :: stack) s) (hfits : s.totalLen < maxOutSize) :
    (handleParentDirectory maxOutSize false s).result = .ok () ∧
    Holds P stack (handleParentDirectory maxOutSize false s).state ∧
    (handleParentDirectory maxOutSize false s).state.totalLen ≤ s.totalLen := by
  have houtput := h.output
  rw [render_cons, append_assoc] at houtput
  have htotal : s.totalLen = (render stack).length + top.length + 2 := by
    rw [← output_length, houtput]
    simp
    omega
  -- The bytes of the destination.
  have hbyte : ∀ i < s.totalLen, s.dst i = (render stack ++ DirectorySeparator :: (top ++ [DirectorySeparator]))[i]?.getD
      NullTerminator := by
    intro i hi
    rw [dst_eq_output hi, houtput, getD_eq_getElem?_getD, cons_append]
  have hseparator : s.dst (render stack).length = DirectorySeparator := by
    rw [hbyte _ (by omega), getElem?_append_right (le_refl _), Nat.sub_self]
    rfl
  have hbetween : ∀ i, (render stack).length < i → i ≤ (render stack).length + top.length →
      s.dst i ≠ DirectorySeparator := by
    intro i h1 h2 heq
    obtain ⟨j, rfl⟩ := Nat.exists_eq_add_of_lt h1
    have hj : j < top.length := by omega
    rw [hbyte _ (by omega), getElem?_append_right (by omega),
      show (render stack).length + j + 1 - (render stack).length = j + 1 by omega, getElem?_cons_succ,
      getElem?_append_left hj, getElem?_eq_getElem hj, getD_some] at heq
    exact (h.proper top (by simp)).2.1 (heq ▸ getElem_mem hj)
  have hlast : s.dst (s.totalLen - 1) = DirectorySeparator := by
    rw [hbyte _ (by omega), getElem?_append_right (by omega),
      show s.totalLen - 1 - (render stack).length = top.length + 1 by omega, getElem?_cons_succ,
      getElem?_append_right (le_refl _), Nat.sub_self]
    rfl
  have hfirst : s.dst 0 = DirectorySeparator := by
    rw [hbyte _ (by omega), getElem?_render_zero]
    rfl
  have hprevious : previousSeparator s.dst (s.totalLen - 2) = (render stack).length := by
    rw [htotal, Nat.add_sub_cancel]
    exact previousSeparator_eq hseparator _ hbetween
  have hnot : ¬ s.totalLen = 1 := by omega
  have hsmall : (render stack).length < maxOutSize := by omega
  rw [handleParentDirectory]
  simp only [NormalizeState.check, hnot, false_and, if_false, hprevious]
  refine ⟨trivial, ⟨?_, h.inBounds, ?_, fun c hc => h.proper c (mem_cons_of_mem _ hc)⟩, by omega⟩
  · have htake : (range (render stack).length).map s.dst = render stack := by
      rw [output_take (by omega), houtput, take_left]
    rw [h.skip]
    simpa [NormalizeState.output] using htake
  · simp [h.asserts, hlast, hfirst, hseparator, hsmall]

lemma handleComponent_spec {component : List Byte} (h : AtComponent P stack s)
    (hproper : Ordinary component ∧ DirectorySeparator ∉ component ∧ ∀ b ∈ component, P b)
    (hfits : s.totalLen + component.length + 1 ≤ maxOutSize) :
    (handleComponent maxOutSize component s).result = .ok () ∧
    Holds P (component :: stack) (handleComponent maxOutSize component s).state ∧
    (handleComponent maxOutSize component s).state.totalLen = s.totalLen + component.length := by
  rw [handleComponent, if_neg (by omega)]
  obtain ⟨hin, hasserts, hskip⟩ := pushAll_flags component h.inBounds (by omega : s.totalLen + component.length ≤ maxOutSize)
  refine ⟨rfl, ⟨?_, hin, hasserts.trans h.asserts, ?_⟩, ?_⟩
  · rw [pushAll_output, hskip, h.skip, h.output, render_cons]
    simp
  · intro c hc
    rcases mem_cons.1 hc with rfl | hc
    · exact hproper
    · exact h.proper c hc
  · rw [← output_length, pushAll_output, length_append, output_length]

/-- **One component**: the destination holds the stack of the resolved path, or the path leaves the root. -/
lemma handle_spec (h : AtComponent P stack s) (hnul : NullTerminator ∉ rest) (hne : firstComponent rest ≠ [])
    (hbytes : ∀ b ∈ firstComponent rest, P b) (hfits : s.totalLen + (firstComponent rest).length + 1 ≤ maxOutSize) :
    match resolveStep stack (firstComponent rest) with
    | some stack' => (handle maxOutSize false rest s).result = .ok () ∧
        Holds P stack' (handle maxOutSize false rest s).state ∧
        (handle maxOutSize false rest s).state.totalLen ≤ s.totalLen + (firstComponent rest).length
    | none => (handle maxOutSize false rest s).result = .error .directoryUnobtainable ∧
        (handle maxOutSize false rest s).state.inBounds = true ∧
        (handle maxOutSize false rest s).state.asserts = true := by
  by_cases hcurrent : firstComponent rest = [Dot]
  · have hnot : ¬ Ordinary (firstComponent rest) := fun hord => hord.2.1 hcurrent
    have hparent : firstComponent rest ≠ [Dot, Dot] := by
      rw [hcurrent]
      decide
    rw [resolveStep_other hnot hparent, handle, if_pos ((isCurrentDirectory_iff hnul).2 hcurrent)]
    exact ⟨rfl, ⟨h.output, h.inBounds, h.asserts, h.proper⟩, le_add_right _ _⟩
  · have hcurrent' := mt (isCurrentDirectory_iff hnul).1 hcurrent
    by_cases hparent : firstComponent rest = [Dot, Dot]
    · rw [handle, if_neg hcurrent', if_pos ((isParentDirectory_iff hnul).2 hparent), hparent]
      cases stack with
      | nil =>
        rw [resolveStep_parent_nil]
        exact handleParentDirectory_root h
      | cons top stack =>
        rw [resolveStep_parent_cons]
        have hpop := handleParentDirectory_pop h (by omega : s.totalLen < maxOutSize)
        exact ⟨hpop.1, hpop.2.1, hpop.2.2.trans (le_add_right _ _)⟩
    · have hordinary : Ordinary (firstComponent rest) := ⟨hne, hcurrent, hparent⟩
      rw [handle, if_neg hcurrent', if_neg (mt (isParentDirectory_iff hnul).1 hparent), resolveStep_ordinary hordinary]
      have hcopy := handleComponent_spec h ⟨hordinary, separator_notMem_first rest, hbytes⟩ hfits
      exact ⟨hcopy.1, hcopy.2.1, hcopy.2.2.le⟩

/-- The components that are looked at meet a predicate: up to and including the first one that leaves the root. -/
def Reached (P : List Byte → Prop) : (stack components : List (List Byte)) → Prop
  | _, [] => True
  | stack, component :: rest =>
      P component ∧ ∀ stack', resolveStep stack component = some stack' → Reached P stack' rest

section Reached

variable {Q : List Byte → Prop}

lemma reached_nil_cons (hnil : Q []) {stack rest : List (List Byte)} :
    Reached Q stack ([] :: rest) ↔ Reached Q stack rest := by
  have hstep : resolveStep stack [] = some stack := resolveStep_other (fun h => h.1 rfl) (by decide)
  rw [Reached, hstep]
  constructor
  · rintro ⟨-, h⟩
    exact h stack rfl
  · rintro h
    refine ⟨hnil, ?_⟩
    rintro _ ⟨⟩
    exact h

lemma reached_of_forall {components : List (List Byte)} (h : ∀ c ∈ components, Q c) (stack : List (List Byte)) :
    Reached Q stack components := by
  induction components generalizing stack with
  | nil => trivial
  | cons component rest ih =>
    exact ⟨h component (by simp), fun stack' _ => ih (fun c hc => h c (mem_cons_of_mem _ hc)) stack'⟩

lemma reached_end (hnil : Q []) (stack : List (List Byte)) : Reached Q stack (components []) := by
  have hcomponents : components [] = [[]] := rfl
  rw [hcomponents, reached_nil_cons hnil]
  trivial

lemma reached_components (hnil : Q []) (stack : List (List Byte)) (rest : List Byte) :
    Reached Q stack (components rest) ↔ Q (firstComponent rest) ∧
      ∀ stack', resolveStep stack (firstComponent rest) = some stack' →
        Reached Q stack' (components (afterComponent rest)) := by
  have hmem := separator_notMem_first rest
  conv_lhs => rw [← first_append_after rest]
  rcases atSeparator_after rest with hafter | ⟨tail, hafter⟩
  · rw [hafter, append_nil, components, splitOn_eq_singleton hmem]
    simp [Reached, components, hnil]
  · rw [hafter, components, splitOn_append_cons_self_of_not_mem hmem]
    simp only [components_separator, reached_nil_cons hnil]
    rfl

lemma reached_dropWhile (hnil : Q []) (stack : List (List Byte)) (rest : List Byte) :
    Reached Q stack (components (rest.dropWhile (· == DirectorySeparator))) ↔ Reached Q stack (components rest) := by
  induction rest with
  | nil => rfl
  | cons c rest ih =>
    rw [dropWhile_cons]
    split_ifs with hc
    · obtain rfl : c = DirectorySeparator := by simpa using hc
      rw [ih, components_separator, reached_nil_cons hnil]
    · rfl

end Reached

/-- The bytes of a component can be looked up. -/
def ReadableComponent (charSigned allowAll : Bool) (component : List Byte) : Prop :=
  ∀ c ∈ component, Readable charSigned allowAll c

instance (charSigned allowAll : Bool) (component : List Byte) :
    Decidable (ReadableComponent charSigned allowAll component) :=
  inferInstanceAs (Decidable (∀ c ∈ component, Readable charSigned allowAll c))

/-- A byte that passes the check. -/
def Checked (charSigned allowAll : Bool) (c : Byte) : Prop :=
  checkCharacter charSigned allowAll c = some (.ok ())

/-- The outcome of the loop: the stack is held, or the path left the root. -/
def LoopResolves (P : Byte → Prop) (maxOutSize : ℕ) (resolved : Option (List (List Byte))) (out : NormalizeOutput) :
    Prop :=
  match resolved with
  | some stack => out.result = .ok () ∧ Holds P stack out.state ∧ out.state.totalLen + 1 ≤ maxOutSize
  | none => out.result = .error .directoryUnobtainable ∧ out.state.inBounds = true ∧ out.state.asserts = true

variable {charSigned allowAll : Bool}

lemma normalizeLoop_component {fuel : ℕ} (hne : rest ≠ []) (hvalid : ∀ b ∈ c :: tail, b ∉ InvalidCharacters)
    (hsep : handleSeparators maxOutSize rest s = some (c :: tail, s', .ok ())) :
    normalizeLoop charSigned allowAll false maxOutSize (fuel + 1) rest s =
      if ReadableComponent charSigned allowAll (firstComponent (c :: tail)) then
        match (handle maxOutSize false (c :: tail) s').result with
        | .error e => some ⟨(handle maxOutSize false (c :: tail) s').state, .error e⟩
        | .ok () =>
          normalizeLoop charSigned allowAll false maxOutSize fuel (afterComponent (c :: tail))
            (handle maxOutSize false (c :: tail) s').state
      else none := by
  obtain ⟨first, rest, rfl⟩ := exists_cons_of_ne_nil hne
  simp only [normalizeLoop, hsep, componentLength_eq hvalid]
  by_cases hread : ReadableComponent charSigned allowAll (firstComponent (c :: tail))
  · have hread' : ∀ b ∈ firstComponent (c :: tail), Readable charSigned allowAll b := hread
    rw [if_pos hread, if_pos hread', bind_some]
    simp only [take_firstComponent, drop_firstComponent]
    rfl
  · have hread' : ¬ ∀ b ∈ firstComponent (c :: tail), Readable charSigned allowAll b := hread
    rw [if_neg hread, if_neg hread']
    rfl

/-- **The loop resolves the components**, if the bytes that are reached can be looked up. -/
lemma normalizeLoop_spec (fuel : ℕ) : ∀ (rest : List Byte) (stack : List (List Byte)) (s : NormalizeState),
    rest.length < fuel → AtSeparator rest → Holds (Checked charSigned allowAll) stack s →
    NullTerminator ∉ rest → (∀ c ∈ rest, c ∉ InvalidCharacters) → s.totalLen + rest.length + 1 ≤ maxOutSize →
    (Reached (ReadableComponent charSigned allowAll) stack (components rest) →
      ∃ out, normalizeLoop charSigned allowAll false maxOutSize fuel rest s = some out ∧
        LoopResolves (Checked charSigned allowAll) maxOutSize (resolve stack (components rest)) out) ∧
    (¬ Reached (ReadableComponent charSigned allowAll) stack (components rest) →
      normalizeLoop charSigned allowAll false maxOutSize fuel rest s = none) := by
  have hnil : ReadableComponent charSigned allowAll [] := by
    intro c hc
    cases hc
  induction fuel with
  | zero => exact fun rest stack s hfuel => absurd hfuel (not_lt_zero _)
  | succ fuel ih =>
    intro rest stack s hfuel hat hholds hnul hvalid hfits
    rcases hat with rfl | ⟨tail, rfl⟩
    · -- The end of the string.
      refine ⟨fun _ => ⟨⟨s, .ok ()⟩, rfl, rfl, hholds, by simpa using hfits⟩, ?_⟩
      intro h
      exact absurd (reached_end hnil stack) h
    · rw [← reached_dropWhile hnil, ← resolve_dropWhile]
      rcases hdrop : (DirectorySeparator :: tail).dropWhile (· == DirectorySeparator) with _ | ⟨c, rest⟩
      · -- Only separators are left.
        have hend : handleSeparators maxOutSize (DirectorySeparator :: tail) s = none := by
          have hfirst : charAt (DirectorySeparator :: tail) 0 = DirectorySeparator := rfl
          rw [handleSeparators, if_pos hfirst, hdrop]
        have hloop : normalizeLoop charSigned allowAll false maxOutSize (fuel + 1)
            (DirectorySeparator :: tail) s = some ⟨s, .ok ()⟩ := by
          rw [normalizeLoop, hend]
          exact cons_ne_nil _ _
        have hfits' : s.totalLen + 1 ≤ maxOutSize := by omega
        refine ⟨fun _ => ⟨_, hloop, rfl, hholds, hfits'⟩, ?_⟩
        intro h
        exact absurd (reached_end hnil stack) h
      · have hsuffix : (c :: rest) <:+ tail := by
          rw [← hdrop, dropWhile_cons_of_pos (by simp)]
          exact dropWhile_suffix _
        have hlen := hsuffix.length_le
        rw [length_cons] at hfuel hfits hlen
        have hc : c ≠ DirectorySeparator := by
          have := head?_dropWhile_not (· == DirectorySeparator) (DirectorySeparator :: tail)
          rw [hdrop] at this
          simpa using this
        have hne : firstComponent (c :: rest) ≠ [] := by
          simp [firstComponent, hc]
        have hnul' : NullTerminator ∉ c :: rest := fun h => hnul (mem_cons_of_mem _ (hsuffix.mem h))
        have hvalid' : ∀ b ∈ c :: rest, b ∉ InvalidCharacters :=
          fun b hb => hvalid b (mem_cons_of_mem _ (hsuffix.mem hb))
        have hsplit : (firstComponent (c :: rest)).length + (afterComponent (c :: rest)).length = rest.length + 1 := by
          rw [← length_append, first_append_after, length_cons]
        obtain ⟨s', hsep, hcomponent⟩ := handleSeparators_spec hholds (by omega : s.totalLen + 1 < maxOutSize) rfl hdrop
        have hlen' := hcomponent.totalLen_le hholds
        rw [normalizeLoop_component (cons_ne_nil _ _) hvalid' hsep, reached_components hnil, resolve_components]
        by_cases hread : ReadableComponent charSigned allowAll (firstComponent (c :: rest))
        · have hchecked : ∀ b ∈ firstComponent (c :: rest), Checked charSigned allowAll b :=
            fun b hb => checkCharacter_of_readable (hread b hb) (hvalid' b (firstComponent_subset _ hb))
          have hhandle := handle_spec hcomponent hnul' hne hchecked
            (by omega : s'.totalLen + (firstComponent (c :: rest)).length + 1 ≤ maxOutSize)
          rw [if_pos hread]
          rcases hstep : resolveStep stack (firstComponent (c :: rest)) with _ | stack'
          · -- The path leaves the root.
            rw [hstep] at hhandle
            dsimp only at hhandle
            rw [hhandle.1]
            refine ⟨fun _ => ⟨_, rfl, rfl, hhandle.2⟩, ?_⟩
            intro h
            exact absurd ⟨hread, fun _ hsome => by cases hsome⟩ h
          · rw [hstep] at hhandle
            dsimp only at hhandle
            have hafter : afterComponent (c :: rest) ⊆ c :: rest := (dropWhile_suffix _).subset
            have hrest := ih (afterComponent (c :: rest)) stack' _ (by omega) (atSeparator_after _) hhandle.2.1
              (fun h => hnul' (hafter h)) (fun b hb => hvalid' b (hafter hb)) (by omega)
            rw [hhandle.1]
            refine ⟨fun h => hrest.1 (h.2 stack' rfl), ?_⟩
            intro h
            refine hrest.2 fun hreached => h ⟨hread, ?_⟩
            rintro _ ⟨⟩
            exact hreached
        · rw [if_neg hread]
          exact ⟨fun h => absurd h.1 hread, fun _ => rfl⟩

end Loop

/-! ## The resolved path is normalised -/

section Normalized

variable {charSigned allowAll : Bool} {len : ℕ} {rest component : List Byte}

lemma checked_separator : Checked charSigned allowAll DirectorySeparator :=
  checkCharacter_of_readable (.inr (.inr (by decide))) (by decide)

lemma isNormalizedFrom_cons {state state' : PathState} {c : Byte} (hc : Checked charSigned allowAll c)
    (hnext : state.next c = .ok (some state')) :
    isNormalizedFrom charSigned allowAll state len (c :: rest) =
      isNormalizedFrom charSigned allowAll state' (len + 1) rest := by
  have hc' : checkCharacter charSigned (allowAll || state == .start) c = some (.ok ()) := by
    cases hstart : state == .start with
    | false =>
      rw [Bool.or_false]
      exact hc
    | true =>
      rw [Bool.or_true]
      rfl
  rw [isNormalizedFrom, hc', bind_some, hnext]

lemma isNormalizedFrom_normal (hsep : DirectorySeparator ∉ component)
    (hchecked : ∀ c ∈ component, Checked charSigned allowAll c) :
    isNormalizedFrom charSigned allowAll .normal len (component ++ rest) =
      isNormalizedFrom charSigned allowAll .normal (len + component.length) rest := by
  induction component generalizing len with
  | nil => rfl
  | cons c component ih =>
    have hc : c ≠ DirectorySeparator := fun h => hsep (by simp [h])
    have hnext : PathState.normal.next c = .ok (some .normal) := by
      rw [PathState.next, if_neg hc]
    rw [cons_append, isNormalizedFrom_cons (hchecked c (by simp)) hnext,
      ih (fun h => hsep (by simp [h])) (fun b hb => hchecked b (by simp [hb])), length_cons,
      add_assoc, add_comm 1]

lemma isNormalizedFrom_ordinary {state : PathState} (hstate : state = .separator ∨ state = .firstSeparator)
    (hordinary : Ordinary component) (hsep : DirectorySeparator ∉ component)
    (hchecked : ∀ c ∈ component, Checked charSigned allowAll c) :
    isNormalizedFrom charSigned allowAll state len (component ++ rest) =
      isNormalizedFrom charSigned allowAll .normal (len + component.length) rest := by
  have hskip : ∀ {state : PathState} {len : ℕ} {c : Byte} {tail : List Byte}, c :: tail <:+ component →
      state.next c = .ok (some .normal) →
      isNormalizedFrom charSigned allowAll state len (c :: tail ++ rest) =
        isNormalizedFrom charSigned allowAll .normal (len + (c :: tail).length) rest := by
    intro state len c tail hsuffix hnext
    rw [cons_append, isNormalizedFrom_cons (hchecked c (hsuffix.mem (by simp))) hnext,
      isNormalizedFrom_normal (fun h => hsep (hsuffix.mem (by simp [h])))
        (fun b hb => hchecked b (hsuffix.mem (by simp [hb]))), length_cons, add_assoc, add_comm 1]
  have hdot : Dot ≠ DirectorySeparator := by decide
  rcases component with _ | ⟨c, component⟩
  · exact absurd rfl hordinary.1
  have hc : c ≠ DirectorySeparator := fun h => hsep (by simp [h])
  by_cases hcdot : c = Dot
  swap
  · refine hskip (suffix_refl _) ?_
    rcases hstate with rfl | rfl <;> rw [PathState.next, if_neg hc, if_neg hcdot]
  subst hcdot
  have hcurrent : state.next Dot = .ok (some .currentDir) := by
    rcases hstate with rfl | rfl <;> rfl
  rw [cons_append, isNormalizedFrom_cons (hchecked _ (by simp)) hcurrent]
  rcases component with _ | ⟨d, component⟩
  · exact absurd rfl hordinary.2.1
  have hd : d ≠ DirectorySeparator := fun h => hsep (by simp [h])
  by_cases hddot : d = Dot
  swap
  · rw [hskip (suffix_cons _ _) (by rw [PathState.next, if_neg hd, if_neg hddot])]
    congr 1
    simp only [length_cons]
    omega
  subst hddot
  have hparent : PathState.currentDir.next Dot = .ok (some .parentDir) := rfl
  rw [cons_append, isNormalizedFrom_cons (hchecked _ (by simp)) hparent]
  rcases component with _ | ⟨e, component⟩
  · exact absurd rfl hordinary.2.2
  have he : e ≠ DirectorySeparator := fun h => hsep (by simp [h])
  have hsuffix : e :: component <:+ Dot :: Dot :: e :: component := ⟨[Dot, Dot], rfl⟩
  rw [hskip hsuffix (by rw [PathState.next, if_neg he])]
  congr 1
  simp only [length_cons]
  omega

lemma isNormalizedFrom_flatMap (l : List (List Byte)) (hproper : Proper (Checked charSigned allowAll) l) :
    ∃ n, isNormalizedFrom charSigned allowAll .normal len (l.flatMap (DirectorySeparator :: ·)) =
      some (.ok (true, n)) := by
  induction l generalizing len with
  | nil => exact ⟨_, rfl⟩
  | cons component l ih =>
    obtain ⟨hordinary, hsep, hchecked⟩ := hproper component (by simp)
    have hnext : PathState.normal.next DirectorySeparator = .ok (some .separator) := rfl
    rw [flatMap_cons, cons_append, isNormalizedFrom_cons checked_separator hnext,
      isNormalizedFrom_ordinary (.inl rfl) hordinary hsep hchecked]
    exact ih fun c hc => hproper c (mem_cons_of_mem _ hc)

lemma render_eq_resolvedPath (stack : List (List Byte)) (hne : stack ≠ []) : render stack = resolvedPath stack := by
  have hjoin : ∀ (c : List Byte) (l : List (List Byte)),
      (c :: l).flatMap (DirectorySeparator :: ·) = DirectorySeparator :: [DirectorySeparator].intercalate (c :: l) := by
    intro c l
    induction l generalizing c with
    | nil => simp [intercalate]
    | cons d l ih =>
      rw [flatMap_cons, ih]
      simp [intercalate]
  rw [render, resolvedPath]
  rcases hreverse : stack.reverse with _ | ⟨c, l⟩
  · exact absurd (reverse_eq_nil_iff.1 hreverse) hne
  · exact hjoin c l

lemma isNormalized_resolvedPath {stack : List (List Byte)} (hproper : Proper (Checked charSigned allowAll) stack) :
    ∃ n, isNormalized charSigned allowAll (resolvedPath stack) = some (.ok (true, n)) := by
  have hnext : PathState.start.next DirectorySeparator = .ok (some .firstSeparator) := rfl
  by_cases hne : stack = []
  · subst hne
    refine ⟨some 1, ?_⟩
    have hpath : resolvedPath [] = [DirectorySeparator] := rfl
    rw [hpath, isNormalized, isNormalizedFrom_cons checked_separator hnext]
    rfl
  · rw [← render_eq_resolvedPath stack hne, render, isNormalized]
    rcases hreverse : stack.reverse with _ | ⟨component, l⟩
    · exact absurd (reverse_eq_nil_iff.1 hreverse) hne
    · have hmem : ∀ c ∈ component :: l, c ∈ stack := by
        intro c hc
        rw [← hreverse] at hc
        exact mem_reverse.1 hc
      obtain ⟨hordinary, hsep, hchecked⟩ := hproper component (hmem component (by simp))
      rw [flatMap_cons, cons_append, isNormalizedFrom_cons checked_separator hnext,
        isNormalizedFrom_ordinary (.inr rfl) hordinary hsep hchecked]
      exact isNormalizedFrom_flatMap l fun c hc => hproper c (hmem c (mem_cons_of_mem _ hc))

end Normalized

/-! ## `Normalize` -/

section Normalize

variable {charSigned allowAll : Bool} {maxOutSize : ℕ}

/-- A terminator behind the string does not change it. -/
lemma store_output (s : NormalizeState) (c : Byte) : (s.store maxOutSize s.totalLen c).output = s.output := by
  refine map_congr_left fun i hi => ?_
  have hi' : i < s.totalLen := mem_range.1 hi
  exact update_of_ne hi'.ne _ _

/-- The destination before the terminator is written. -/
def trimmed (maxOutSize : ℕ) (s : NormalizeState) : NormalizeState :=
  let s := if s.skipNextSep then { s with totalLen := s.totalLen - 1 } else s
  if s.totalLen = 0 ∧ maxOutSize ≠ 0 then { s.store maxOutSize 0 DirectorySeparator with totalLen := 1 } else s

variable {stack : List (List Byte)} {s : NormalizeState}

lemma finishNormalize_eq : finishNormalize charSigned allowAll maxOutSize s =
    if ¬ (trimmed maxOutSize s).totalLen - 1 ≤ maxOutSize then some ⟨trimmed maxOutSize s, .error .tooLongPath⟩
    else
      let s := (trimmed maxOutSize s).store maxOutSize (trimmed maxOutSize s).totalLen NullTerminator
      (isNormalized charSigned allowAll s.output).map fun
        | .error e => ⟨s, .error e⟩
        | .ok (normalized, _) => ⟨s.check normalized, .ok ()⟩ := rfl

lemma finishNormalize_trimmed
    (houtput : (trimmed maxOutSize s).output = resolvedPath stack) (hin : (trimmed maxOutSize s).inBounds = true)
    (hasserts : (trimmed maxOutSize s).asserts = true)
    (hproper : Proper (Checked charSigned allowAll) stack)
    (hfits : (trimmed maxOutSize s).totalLen + 1 ≤ maxOutSize) :
    ∃ out, finishNormalize charSigned allowAll maxOutSize s = some out ∧ out.result = .ok () ∧
      out.state.output = resolvedPath stack ∧ out.state.dst out.state.totalLen = NullTerminator ∧
      out.state.inBounds = true ∧ out.state.asserts = true := by
  obtain ⟨n, hnormalized⟩ := isNormalized_resolvedPath hproper
  rw [finishNormalize_eq, if_neg (by omega)]
  generalize trimmed maxOutSize s = t at *
  have hstore : (t.store maxOutSize t.totalLen NullTerminator).output = resolvedPath stack := by
    rw [store_output, houtput]
  dsimp only
  rw [hstore, hnormalized]
  refine ⟨_, rfl, rfl, hstore, update_self _ _ _, ?_, ?_⟩
  · simp only [NormalizeState.check, NormalizeState.store, hin, Bool.true_and, decide_eq_true_eq]
    omega
  · simp [NormalizeState.check, NormalizeState.store, hasserts]

/-- **The end of `Normalize`** with a destination that holds a stack. -/
lemma finishNormalize_spec (h : Holds (Checked charSigned allowAll) stack s) (hfits : s.totalLen + 1 ≤ maxOutSize)
    (hmax : 2 ≤ maxOutSize) :
    ∃ out, finishNormalize charSigned allowAll maxOutSize s = some out ∧ out.result = .ok () ∧
      out.state.output = resolvedPath stack ∧ out.state.dst out.state.totalLen = NullTerminator ∧
      out.state.inBounds = true ∧ out.state.asserts = true := by
  -- The separator behind the last component is dropped.
  obtain ⟨t, ht, houtput, hin, hasserts, hlen⟩ : ∃ t,
      t = (if s.skipNextSep then { s with totalLen := s.totalLen - 1 } else s) ∧ t.output = render stack ∧
      t.inBounds = true ∧ t.asserts = true ∧ t.totalLen ≤ s.totalLen := by
    have hout := h.output
    by_cases hskip : s.skipNextSep = true
    · rw [if_pos hskip] at hout
      have hlen : s.totalLen = (render stack).length + 1 := by
        rw [← output_length, hout]
        simp
      refine ⟨_, rfl, ?_⟩
      rw [if_pos hskip]
      refine ⟨?_, h.inBounds, h.asserts, Nat.sub_le _ _⟩
      have htake : (range (s.totalLen - 1)).map s.dst = render stack := by
        rw [output_take (Nat.sub_le _ _), hout, hlen, Nat.add_sub_cancel, take_left]
      exact htake
    · rw [if_neg hskip, append_nil] at hout
      refine ⟨_, rfl, ?_⟩
      rw [if_neg hskip]
      exact ⟨hout, h.inBounds, h.asserts, le_refl _⟩
  have hlength : t.totalLen = (render stack).length := by
    rw [← output_length, houtput]
  have htrimmed : trimmed maxOutSize s =
      if t.totalLen = 0 ∧ maxOutSize ≠ 0 then { t.store maxOutSize 0 DirectorySeparator with totalLen := 1 } else t := by
    rw [trimmed, ht]
  by_cases hne : stack = []
  · -- The root is written out.
    subst hne
    have hempty : t.totalLen = 0 ∧ maxOutSize ≠ 0 := ⟨hlength, by omega⟩
    rw [if_pos hempty] at htrimmed
    refine finishNormalize_trimmed ?_ ?_ ?_ h.proper ?_ <;> rw [htrimmed]
    · simp [NormalizeState.output, NormalizeState.store, resolvedPath]
    · simp only [NormalizeState.store, hin, Bool.true_and, decide_eq_true_eq]
      omega
    · exact hasserts
    · exact hmax
  · have hnot : ¬ (t.totalLen = 0 ∧ maxOutSize ≠ 0) := by
      rintro ⟨hzero, -⟩
      obtain ⟨c, l, rfl⟩ := exists_cons_of_ne_nil hne
      rw [render_cons, length_append, length_cons] at hlength
      omega
    rw [if_neg hnot] at htrimmed
    refine finishNormalize_trimmed ?_ ?_ ?_ h.proper ?_ <;> rw [htrimmed]
    · rw [houtput, render_eq_resolvedPath stack hne]
    · exact hin
    · exact hasserts
    · omega

variable {path : List Byte}

lemma charAt_ne {c : Byte} (hc : c ∉ path) (hne : NullTerminator ≠ c) (i : ℕ) : charAt path i ≠ c := by
  intro heq
  rw [charAt, getD_eq_getElem?_getD] at heq
  rcases hget : path[i]? with _ | d
  · rw [hget] at heq
    exact hne heq
  · rw [hget, getD_some] at heq
    exact hc (heq ▸ mem_of_getElem? hget)

/-- There is nothing to replace without backslashes. -/
lemma replacedPath_eq (hpath : AlternateDirectorySeparator ∉ path) : replacedPath path = path := by
  have hloop : ∀ path : List Byte, AlternateDirectorySeparator ∉ path → replacementNeededLoop path = false := by
    intro path hpath
    induction path using replacementNeededLoop.induct with
    | case1 c0 c1 c2 c3 rest hdots ih =>
      rw [replacementNeededLoop, if_pos hdots]
      exact ih fun h => hpath (mem_cons_of_mem _ h)
    | case2 c0 c1 c2 c3 rest hdots hreplace => exact absurd (by simp [hreplace.1]) hpath
    | case3 c0 c1 c2 c3 rest hdots hfirst hreplace => exact absurd (by simp [hreplace.1]) hpath
    | case4 c0 c1 c2 c3 rest hdots hfirst hsecond ih =>
      rw [replacementNeededLoop, if_neg hdots, if_neg hfirst, if_neg hsecond]
      exact ih fun h => hpath (mem_cons_of_mem _ h)
    | case5 path hshort =>
      have hfirst := charAt_ne hpath (by decide) 0
      rw [replacementNeededLoop]
      · simp [hfirst]
      · exact hshort
  have hneeded : isParentDirectoryPathReplacementNeeded path = false := by
    rw [isParentDirectoryPathReplacementNeeded]
    split_ifs
    · rfl
    · exact hloop path hpath
    · rfl
  rw [replacedPath, hneeded]
  rfl

/-- **What a call of `Normalize` has to do**: return the resolved path if the path stays inside of the root, and fail with
`ResultDirectoryUnobtainable` else.  No write is outside of the buffer and no `ASSERT` fails. -/
def Resolves (path : List Byte) (call : Option NormalizeOutput) : Prop :=
  ∃ out, call = some out ∧ out.state.inBounds = true ∧ out.state.asserts = true ∧
    (StaysInside path → out.result = .ok () ∧ out.state.dst out.state.totalLen = NullTerminator ∧
      ∃ stack, resolve [] (components path) = some stack ∧ out.state.output = resolvedPath stack) ∧
    (¬ StaysInside path → out.result = .error .directoryUnobtainable)

/-- **`Normalize` never leaves the root**: a path is resolved, exactly if the bytes of the components that are looked at can
be looked up in the character masks. -/
theorem normalize_resolves (charSigned : Bool) (dst : ℕ → Byte) (path : List Byte) (maxOutSize : ℕ)
    (isDriveRelativePath allowAllCharacters : Bool) (hroot : charAt path 0 = DirectorySeparator)
    (hnul : NullTerminator ∉ path) (hslash : AlternateDirectorySeparator ∉ path)
    (hvalid : ∀ c ∈ path, c ∉ InvalidCharacters) (hfits : path.length + 1 ≤ maxOutSize) :
    Resolves path (normalize charSigned dst path maxOutSize false isDriveRelativePath allowAllCharacters) ↔
      Reached (ReadableComponent charSigned allowAllCharacters) [] (components path) := by
  obtain ⟨tail, rfl⟩ : ∃ tail, path = DirectorySeparator :: tail := by
    rcases path with _ | ⟨c, tail⟩
    · exact absurd hroot (by decide)
    · exact ⟨tail, by rw [← show c = DirectorySeparator from hroot]⟩
  have hmax : 2 ≤ maxOutSize := by
    rw [length_cons] at hfits
    omega
  have hholds : Holds (Checked charSigned allowAllCharacters) [] ⟨dst, 0, false, true, true⟩ :=
    ⟨rfl, rfl, rfl, fun c hc => absurd hc not_mem_nil⟩
  obtain ⟨hreached, hnot⟩ := normalizeLoop_spec _ _ _ _ (lt_succ_self _) (.inr ⟨tail, rfl⟩) hholds hnul hvalid
    (by simpa using hfits)
  have hnormalize : normalize charSigned dst (DirectorySeparator :: tail) maxOutSize false isDriveRelativePath
      allowAllCharacters =
        (normalizeLoop charSigned allowAllCharacters false maxOutSize ((DirectorySeparator :: tail).length + 1)
          (DirectorySeparator :: tail) ⟨dst, 0, false, true, true⟩).bind fun out =>
        match out.result with
        | .error e => some ⟨out.state, .error e⟩
        | .ok () => finishNormalize charSigned allowAllCharacters maxOutSize out.state := by
    rw [normalize, if_neg (fun h => h.1 hroot), if_neg (fun h => h hroot), replacedPath_eq hslash] <;> rfl
  rw [hnormalize]
  constructor
  · -- A byte that cannot be looked up ends the call without a result.
    rintro ⟨out, hout, -⟩
    by_contra hread
    rw [hnot hread] at hout
    cases hout
  · intro hread
    obtain ⟨⟨s, result⟩, hloop, hresolves⟩ := hreached hread
    rw [hloop, bind_some]
    rcases hresolve : resolve [] (components (DirectorySeparator :: tail)) with _ | stack
    · rw [hresolve] at hresolves
      obtain ⟨hresult, hin, hasserts⟩ := hresolves
      have hleaves : ¬ StaysInside (DirectorySeparator :: tail) := by
        rw [staysInside_iff, hresolve]
        exact Bool.false_ne_true
      obtain rfl : result = .error .directoryUnobtainable := hresult
      exact ⟨_, rfl, hin, hasserts, fun h => absurd h hleaves, fun _ => rfl⟩
    · rw [hresolve] at hresolves
      obtain ⟨hresult, hfinal, hsmall⟩ := hresolves
      have hstays : StaysInside (DirectorySeparator :: tail) := by
        rw [staysInside_iff, hresolve]
        rfl
      obtain rfl : result = .ok () := hresult
      obtain ⟨out, hout, hok, houtput, hend, hin, hasserts⟩ := finishNormalize_spec hfinal hsmall hmax
      exact ⟨out, hout, hin, hasserts, fun _ => ⟨hok, hend, stack, hresolve, houtput⟩, fun h => absurd hstays h⟩

/-- `"/a/../b"` with a signed `char`. -/
theorem normalize_resolves_sibling :
    Resolves [0x2F#8, 0x61#8, 0x2F#8, 0x2E#8, 0x2E#8, 0x2F#8, 0x62#8]
      (normalize true (fun _ => 0#8) [0x2F#8, 0x61#8, 0x2F#8, 0x2E#8, 0x2E#8, 0x2F#8, 0x62#8] 8 false false false) :=
  (normalize_resolves true (fun _ => 0#8) _ 8 false false (by decide) (by decide) (by decide) (by decide)
    (by decide)).2 (reached_of_forall (by decide) [])

/-- `"/é"` stays inside, but its bytes are looked up outside of the character masks if `char` is signed. -/
theorem normalize_reads_outside_masks : charAt [0x2F#8, 0xC3#8, 0xA9#8] 0 = DirectorySeparator ∧
    NullTerminator ∉ [0x2F#8, 0xC3#8, 0xA9#8] ∧ AlternateDirectorySeparator ∉ [0x2F#8, 0xC3#8, 0xA9#8] ∧
    (∀ c ∈ [0x2F#8, 0xC3#8, 0xA9#8], c ∉ InvalidCharacters) ∧
    StaysInside [0x2F#8, 0xC3#8, 0xA9#8] ∧
    ¬ Resolves [0x2F#8, 0xC3#8, 0xA9#8] (normalize true (fun _ => 0#8) [0x2F#8, 0xC3#8, 0xA9#8] 0x301 false false false) := by
  refine ⟨by decide, by decide, by decide, by decide, (staysInside_iff _).2 (by decide), ?_⟩
  have hcall : normalize true (fun _ => 0#8) [0x2F#8, 0xC3#8, 0xA9#8] 0x301 false false false = none := by
    rfl
  rintro ⟨out, hout, -⟩
  rw [hcall] at hout
  cases hout

end Normalize

/-! ## Normalising twice -/

section Twice

variable {charSigned allowAll : Bool} {maxOutSize : ℕ} {stack : List (List Byte)} {path : List Byte}

lemma mem_components (path : List Byte) : ∀ c ∈ components path, DirectorySeparator ∉ c ∧ c ⊆ path := by
  induction path with
  | nil => simp [components]
  | cons a path ih =>
    obtain ⟨d, ds, hds⟩ := exists_cons_of_ne_nil (splitOn_ne_nil DirectorySeparator path)
    rw [components, hds] at ih
    rw [components, splitOn_cons_eq_if_modifyHead, hds]
    split_ifs with ha
    · exact forall_mem_cons.2 ⟨⟨not_mem_nil, nil_subset _⟩, fun c hc => ⟨(ih c hc).1, subset_cons_of_subset _ (ih c hc).2⟩⟩
    · obtain ⟨⟨hd, hsub⟩, hrest⟩ := forall_mem_cons.1 ih
      refine forall_mem_cons.2 ⟨⟨?_, cons_subset_cons a hsub⟩, fun c hc =>
        ⟨(hrest c hc).1, subset_cons_of_subset _ (hrest c hc).2⟩⟩
      simpa [hd] using fun h => ha (by simp [h])

lemma mem_of_resolveStep {stack' : List (List Byte)} {c component : List Byte}
    (h : resolveStep stack component = some stack') (hc : c ∈ stack') : c ∈ stack ∨ c = component ∧ Ordinary c := by
  unfold resolveStep at h
  split_ifs at h with hordinary hparent
  · cases h
    grind
  · cases stack with
    | nil => cases h
    | cons top stack =>
      cases h
      exact .inl (mem_cons_of_mem _ hc)
  · cases h
    exact .inl hc

/-- Resolution leaves only components that it was given. -/
lemma proper_resolve {P : Byte → Prop} {components : List (List Byte)}
    (h : ∀ c ∈ components, DirectorySeparator ∉ c ∧ ∀ b ∈ c, P b) : ∀ {stack stack' : List (List Byte)},
      Proper P stack → resolve stack components = some stack' → Proper P stack' := by
  induction components with
  | nil =>
    rintro stack _ hstack ⟨⟩
    exact hstack
  | cons component rest ih =>
    intro stack stack' hstack hresolve
    obtain ⟨stack1, hstep, hrest⟩ := Option.bind_eq_some_iff.1 hresolve
    refine ih (fun c hc => h c (mem_cons_of_mem _ hc)) ?_ hrest
    intro c hc
    rcases mem_of_resolveStep hstep hc with hold | ⟨rfl, hordinary⟩
    · exact hstack c hold
    · exact ⟨hordinary, h c mem_cons_self⟩

lemma resolve_ordinary {components : List (List Byte)} (h : ∀ c ∈ components, Ordinary c) :
    ∀ stack : List (List Byte), resolve stack components = some (components.reverse ++ stack) := by
  induction components with
  | nil => exact fun _ => rfl
  | cons component rest ih =>
    intro stack
    rw [resolve, resolveStep_ordinary (h component mem_cons_self), bind_some,
      ih fun c hc => h c (mem_cons_of_mem _ hc)]
    simp

/-- A path that is resolved resolves to itself. -/
lemma resolve_resolvedPath {P : Byte → Prop} (h : Proper P stack) :
    resolve [] (components (resolvedPath stack)) = some stack := by
  rw [resolvedPath, components_separator, resolve_nil_cons]
  rcases eq_or_ne stack [] with rfl | hne
  · rfl
  rw [components, splitOn_intercalate _ (fun c hc => (h c (mem_reverse.1 hc)).2.1) (by simpa using hne),
    resolve_ordinary (fun c hc => (h c (mem_reverse.1 hc)).1), reverse_reverse, append_nil]

lemma forall_mem_resolvedPath {P : Byte → Prop} (h : Proper P stack) (hseparator : P DirectorySeparator) :
    ∀ b ∈ resolvedPath stack, P b := by
  rcases eq_or_ne stack [] with rfl | hne
  · exact forall_mem_singleton.2 hseparator
  rw [← render_eq_resolvedPath stack hne, render]
  intro b hb
  obtain ⟨c, hc, hb⟩ := mem_flatMap.1 hb
  exact (mem_cons.1 hb).elim (fun hb => hb ▸ hseparator) ((h c (mem_reverse.1 hc)).2.2 b)

/-- A byte that may stand in a path and can be looked up. -/
def Plain (charSigned allowAll : Bool) (b : Byte) : Prop :=
  Readable charSigned allowAll b ∧ b ∉ NullTerminator :: AlternateDirectorySeparator :: InvalidCharacters

instance (b : Byte) : Decidable (Plain charSigned allowAll b) := inferInstanceAs (Decidable (_ ∧ _))

lemma normalize_resolved (dst : ℕ → Byte) (isDriveRelativePath : Bool)
    (hroot : charAt path 0 = DirectorySeparator) (hplain : ∀ b ∈ path, Plain charSigned allowAll b)
    (hfits : path.length + 1 ≤ maxOutSize) (hresolve : resolve [] (components path) = some stack) :
    ∃ out, normalize charSigned dst path maxOutSize false isDriveRelativePath allowAll = some out ∧
      out.result = .ok () ∧ out.state.output = resolvedPath stack := by
  have hnot {c : Byte} (hc : c ∈ NullTerminator :: AlternateDirectorySeparator :: InvalidCharacters) : c ∉ path :=
    fun h => (hplain c h).2 hc
  obtain ⟨tail, rfl⟩ : ∃ tail, path = DirectorySeparator :: tail := by
    rcases path with _ | ⟨c, tail⟩
    · exact absurd hroot (by decide)
    · exact ⟨tail, by rw [← show c = DirectorySeparator from hroot]⟩
  have hread : Reached (ReadableComponent charSigned allowAll) [] (components (DirectorySeparator :: tail)) :=
    reached_of_forall (fun c hc b hb => (hplain b ((mem_components _ c hc).2 hb)).1) []
  obtain ⟨⟨s, result⟩, hloop, hresolves⟩ := (normalizeLoop_spec _ _ [] ⟨dst, 0, false, true, true⟩ (lt_succ_self _)
    (.inr ⟨tail, rfl⟩) ⟨rfl, rfl, rfl, fun c hc => absurd hc not_mem_nil⟩ (hnot (by decide))
    (fun c hc h => hnot (mem_cons_of_mem _ (mem_cons_of_mem _ h)) hc) (by simpa using hfits)).1 hread
  rw [hresolve] at hresolves
  obtain ⟨rfl, hfinal, hsmall⟩ := hresolves
  obtain ⟨out, hout, hok, houtput, -⟩ := finishNormalize_spec hfinal hsmall (by rw [length_cons] at hfits; omega)
  refine ⟨out, ?_, hok, houtput⟩
  rw [normalize, if_neg (fun h => h.1 hroot), if_neg (fun h => h hroot), replacedPath_eq (hnot (by decide))]
  dsimp only
  rw [hloop]
  exact hout

/-- **Normalising twice is normalising once.**  What `Normalize` makes of a path that stays inside of the root passes
`IsNormalized`, and `Normalize` makes the same of it, in any buffer that it fits into. -/
theorem normalize_twice (dst dst' : ℕ → Byte) (isDriveRelativePath : Bool)
    (hroot : charAt path 0 = DirectorySeparator) (hplain : ∀ b ∈ path, Plain charSigned allowAll b)
    (hfits : path.length + 1 ≤ maxOutSize) (hstays : StaysInside path) :
    ∃ out, normalize charSigned dst path maxOutSize false isDriveRelativePath allowAll = some out ∧
      out.result = .ok () ∧ (∃ n, isNormalized charSigned allowAll out.state.output = some (.ok (true, n))) ∧
      ∀ maxOutSize', out.state.output.length + 1 ≤ maxOutSize' →
        ∃ out', normalize charSigned dst' out.state.output maxOutSize' false isDriveRelativePath allowAll = some out' ∧
          out'.result = .ok () ∧ out'.state.output = out.state.output := by
  obtain ⟨stack, hresolve⟩ := Option.isSome_iff_exists.1 ((staysInside_iff path).1 hstays)
  obtain ⟨out, hout, hok, houtput⟩ := normalize_resolved dst isDriveRelativePath hroot hplain hfits hresolve
  have hcomponents : ∀ c ∈ components path, DirectorySeparator ∉ c ∧ ∀ b ∈ c, Plain charSigned allowAll b :=
    fun c hc => ⟨(mem_components path c hc).1, fun b hb => hplain b ((mem_components path c hc).2 hb)⟩
  have hproper := proper_resolve hcomponents (fun c hc => absurd hc not_mem_nil) hresolve
  refine ⟨out, hout, hok, ?_, ?_⟩
  · rw [houtput]
    refine isNormalized_resolvedPath fun c hc => ⟨(hproper c hc).1, (hproper c hc).2.1, fun b hb => ?_⟩
    obtain ⟨hread, hallowed⟩ := (hproper c hc).2.2 b hb
    exact checkCharacter_of_readable hread fun h => hallowed (mem_cons_of_mem _ (mem_cons_of_mem _ h))
  · intro maxOutSize' hfits'
    rw [houtput] at hfits' ⊢
    exact normalize_resolved dst' isDriveRelativePath rfl
      (forall_mem_resolvedPath hproper ⟨.inr (.inr (by decide)), by decide⟩) hfits' (resolve_resolvedPath hproper)

theorem normalize_twice_sibling : ∃ out,
    normalize true (fun _ => 0#8) [0x2F#8, 0x61#8, 0x2F#8, 0x2E#8, 0x2E#8, 0x2F#8, 0x62#8] 8 false false false =
      some out ∧ ∃ n, isNormalized true false out.state.output = some (.ok (true, n)) := by
  obtain ⟨out, hout, -, hnormalized, -⟩ :=
    @normalize_twice true false 8 [0x2F#8, 0x61#8, 0x2F#8, 0x2E#8, 0x2E#8, 0x2F#8, 0x62#8] (fun _ => 0#8) (fun _ => 0#8)
      false (by decide) (by decide) (by decide) ((staysInside_iff _).2 (by decide))
  exact ⟨out, hout, hnormalized⟩

end Twice

end PathNormalizer

end Voltemu.FileSys
