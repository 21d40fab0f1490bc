import Mathlib.Data.List.TakeWhile
import Voltemu.FileSys.IpsEscapes

/-!
# `ParamPackage`: a map of strings, written to one string and read back

`common/param_package.cpp`, with `SplitString` and `ReplaceAll` of `common/string_util.cpp`.

* A string is the list of its bytes.  `ankerl::unordered_dense::map` keeps its elements in the order in which they came.
* Escaping writes each character by its `code` in the table so far (`escape_spec`); each pass of the unescaping takes the entry of
  one character from that table again (`unescape_spec`).
* `SplitString` loses the empty field behind the last delimiter (`splitString_fields`), and with it the value of a pair if that is
  empty: `roundTrips_iff` says that all other packages come back.
-/

namespace Voltemu.Common

open List FileSys FileSys.Ips Lib

def KEY_VALUE_SEPARATOR : Byte := 0x3A#8

def PARAM_SEPARATOR : Byte := 0x2C#8

def ESCAPE_CHARACTER : Byte := 0x24#8

/-- `"$0"`, `"$1"` and `"$2"`. -/
def KEY_VALUE_SEPARATOR_ESCAPE : List Byte := [ESCAPE_CHARACTER, 0x30#8]

def PARAM_SEPARATOR_ESCAPE : List Byte := [ESCAPE_CHARACTER, 0x31#8]

def ESCAPE_CHARACTER_ESCAPE : List Byte := [ESCAPE_CHARACTER, 0x32#8]

def EMPTY_PLACEHOLDER : List Byte := [0x5B#8, 0x65#8, 0x6D#8, 0x70#8, 0x74#8, 0x79#8, 0x5D#8]

/-- `std::getline`: the field and what is left of the stream, or failure if there is nothing left. -/
def getline (iss : List Byte) (delim : Byte) : Option (List Byte × List Byte) :=
  if iss = [] then none else some (iss.takeWhile (· ≠ delim), (iss.dropWhile (· ≠ delim)).tail)

/-- The loop of `SplitString`, with `none` if the rounds do not suffice.  The field of the call that fails is dropped. -/
def splitLoop (delim : Byte) : (fuel : ℕ) → (iss : List Byte) → (output : List (List Byte)) → Option (List (List Byte))
  | 0, iss, output => if getline iss delim = none then some output else none
  | fuel + 1, iss, output =>
    match getline iss delim with
    | none => some output
    | some (field, rest) => splitLoop delim fuel rest (output ++ [field])

def splitString (str : List Byte) (delim : Byte) : Option (List (List Byte)) := splitLoop delim str.length str []

/-- `ReplaceAll`, whose loop is that of `EscapeStringSequences`. -/
def replaceAll (result src dest : List Byte) : Option (List Byte) :=
  if src = dest then some result else Ips.replaceAll result (src, dest)

structure ParamPackage where
  data : List (List Byte × List Byte)
  nodup : (data.map Prod.fst).Nodup

namespace ParamPackage

/-- `Set`, that is `data.insert_or_assign`. -/
def set (p : ParamPackage) (key value : List Byte) : ParamPackage where
  data :=
    if key ∈ p.data.map Prod.fst then p.data.map fun kv => if kv.1 = key then (kv.1, value) else kv
    else p.data ++ [(key, value)]
  nodup := by
    split_ifs with hkey
    · have hkeys : Prod.fst ∘ (fun kv : List Byte × List Byte => if kv.1 = key then (kv.1, value) else kv) = Prod.fst := by
        funext kv
        rw [Function.comp_apply]
        split_ifs <;> rfl
      rw [map_map, hkeys]
      exact p.nodup
    · rw [map_append]
      exact p.nodup.append (nodup_singleton key) (disjoint_singleton.2 hkey)

/-- The replacements that `Serialize` makes in a key or a value. -/
def escape (part : List Byte) : Option (List Byte) := do
  let part ← replaceAll part [ESCAPE_CHARACTER] ESCAPE_CHARACTER_ESCAPE
  let part ← replaceAll part [PARAM_SEPARATOR] PARAM_SEPARATOR_ESCAPE
  replaceAll part [KEY_VALUE_SEPARATOR] KEY_VALUE_SEPARATOR_ESCAPE

def unescape (part : List Byte) : Option (List Byte) := do
  let part ← replaceAll part KEY_VALUE_SEPARATOR_ESCAPE [KEY_VALUE_SEPARATOR]
  let part ← replaceAll part PARAM_SEPARATOR_ESCAPE [PARAM_SEPARATOR]
  replaceAll part ESCAPE_CHARACTER_ESCAPE [ESCAPE_CHARACTER]

def serialize (p : ParamPackage) : Option (List Byte) :=
  if p.data = [] then some EMPTY_PLACEHOLDER
  else do
    let result ← p.data.foldlM (fun result pair => do
      let key ← escape pair.1
      let value ← escape pair.2
      some (result ++ (key ++ KEY_VALUE_SEPARATOR :: value ++ [PARAM_SEPARATOR]))) []
    some result.dropLast

def ofString (serialized : List Byte) : Option ParamPackage :=
  if serialized = EMPTY_PLACEHOLDER then some ⟨[], nodup_nil⟩
  else do
    let pairs ← splitString serialized PARAM_SEPARATOR
    pairs.foldlM (fun p pair => do
      match ← splitString pair KEY_VALUE_SEPARATOR with
      | [key, value] => some (p.set (← unescape key) (← unescape value))
      | _ => some p) ⟨[], nodup_nil⟩

/-- Writing the package and reading it back ends, with the same pairs. -/
def RoundTrips (p : ParamPackage) : Prop :=
  ∃ serialized q, p.serialize = some serialized ∧ ofString serialized = some q ∧ ∀ kv, kv ∈ q.data ↔ kv ∈ p.data

end ParamPackage

/-! ## Splitting -/

variable {delim : Byte} {field : List Byte} {s : List Byte}

lemma getline_field (hfield : delim ∉ field) (rest : List Byte) : getline (field ++ delim :: rest) delim = some (field, rest) := by
  have hkeep : ∀ c ∈ field, decide (c ≠ delim) = true := fun c hc => decide_eq_true (ne_of_mem_of_not_mem hc hfield)
  rw [getline, if_neg (by simp), takeWhile_append_of_pos hkeep, dropWhile_append_of_pos hkeep]
  simp

lemma getline_last (hfield : delim ∉ field) (hne : field ≠ []) : getline field delim = some (field, []) := by
  have hkeep : ∀ c ∈ field, decide (c ≠ delim) = true := fun c hc => decide_eq_true (ne_of_mem_of_not_mem hc hfield)
  rw [getline, if_neg hne, takeWhile_eq_self_iff.2 hkeep, dropWhile_eq_nil_iff.2 hkeep]
  rfl

lemma splitLoop_nil (delim : Byte) (fuel : ℕ) (output : List (List Byte)) : splitLoop delim fuel [] output = some output := by
  cases fuel <;> rfl

variable {fields : List (List Byte)} {fuel : ℕ}

lemma splitLoop_fields (hfields : ∀ f ∈ fields, delim ∉ f) (hlast : delim ∉ field)
    (hfuel : (fields.flatMap (· ++ [delim]) ++ field).length ≤ fuel) (output : List (List Byte)) :
    splitLoop delim fuel (fields.flatMap (· ++ [delim]) ++ field) output =
      some (output ++ (fields ++ if field = [] then [] else [field])) := by
  induction fields generalizing fuel output with
  | nil =>
    rw [flatMap_nil, nil_append] at hfuel ⊢
    split_ifs with hnil
    · rw [hnil, splitLoop_nil]
      simp
    · cases fuel with
      | zero => exact absurd (eq_nil_of_length_eq_zero (Nat.le_zero.1 hfuel)) hnil
      | succ n =>
        rw [splitLoop, getline_last hlast hnil]
        exact splitLoop_nil delim n _
  | cons f fields ih =>
    obtain ⟨hf, hfields⟩ := forall_mem_cons.1 hfields
    have hsplit : (f :: fields).flatMap (· ++ [delim]) ++ field =
        f ++ delim :: (fields.flatMap (· ++ [delim]) ++ field) := by simp
    rw [hsplit, length_append, length_cons] at hfuel
    rw [hsplit]
    cases fuel with
    | zero => omega
    | succ n =>
      rw [splitLoop, getline_field hf]
      dsimp only
      rw [ih hfields (by omega), append_assoc output]
      rfl

/-- **`SplitString`** delivers all fields but an empty one at the end. -/
lemma splitString_fields (hfields : ∀ f ∈ fields, delim ∉ f) (hlast : delim ∉ field) :
    splitString (fields.flatMap (· ++ [delim]) ++ field) delim = some (fields ++ if field = [] then [] else [field]) :=
  splitLoop_fields hfields hlast (Nat.le_refl _) []

/-! ## Escaping -/

/-- How a character is written if the characters of the table are escaped. -/
def code (table : List (Byte × Byte)) (c : Byte) : List Byte := (table.lookup c).elim [c] ([ESCAPE_CHARACTER, ·])

def escapes : List (Byte × Byte) :=
  [(KEY_VALUE_SEPARATOR, 0x30#8), (PARAM_SEPARATOR, 0x31#8), (ESCAPE_CHARACTER, 0x32#8)]

lemma replaceLoop_char {a : Byte} {d : List Byte} {rest : List Byte} (hfuel : rest.length ≤ fuel) (done : List Byte) :
    replaceLoop ([a], d) fuel (done ++ rest) (find (done ++ rest) [a] done.length) =
      some (done ++ rest.flatMap fun c => if c = a then d else [c]) := by
  induction rest generalizing done fuel with
  | nil => simp [find, replaceLoop]
  | cons x t ih =>
    rw [find_cons, flatMap_cons]
    by_cases hx : x = a
    · cases fuel with
      | zero => cases hfuel
      | succ n =>
        have hreplace : Ips.replace (done ++ x :: t) done.length 1 d = (done ++ d) ++ t := by
          simp [Ips.replace, drop_append]
        rw [if_pos (by simp [hx]), if_pos hx, replaceLoop]
        dsimp only [length_singleton]
        rw [hreplace, ← length_append, ih (Nat.le_of_succ_le_succ hfuel), append_assoc]
    · rw [if_neg (by simpa using Ne.symm hx), if_neg hx, append_cons, ih (Nat.le_of_succ_le hfuel), append_assoc]

section

variable {table : List (Byte × Byte)} {c k : Byte}

lemma code_self : code ((c, k) :: table) c = [ESCAPE_CHARACTER, k] := by simp [code]

lemma code_of_ne {x : Byte} (hx : x ≠ c) : code ((c, k) :: table) x = code table x := by
  rw [code, code, lookup_cons, beq_false_of_ne hx]

/-- No pass for a character of the table meets what the pass for `c` reads or writes. -/
structure Apart (table : List (Byte × Byte)) (c k : Byte) : Prop where
  entries : ∀ e ∈ table, e.1 ≠ c ∧ e.2 ∉ [c, k, ESCAPE_CHARACTER] ∧ ESCAPE_CHARACTER ≠ c
  escaped : ESCAPE_CHARACTER = c ∨ ESCAPE_CHARACTER ∈ table.map Prod.fst

section

variable (hapart : Apart table c k)
include hapart

lemma Apart.lookup_self : table.lookup c = none :=
  lookup_eq_none_iff.2 fun e he => by simpa using (hapart.entries e he).1.symm

lemma Apart.lookup {x y : Byte} (h : table.lookup x = some y) : y ∉ [c, k, ESCAPE_CHARACTER] ∧ ESCAPE_CHARACTER ≠ c := by
  obtain ⟨l, l', rfl, -⟩ := lookup_eq_some_iff.1 h
  exact (hapart.entries (x, y) (by simp)).2

lemma Apart.ne_escape {x : Byte} (hx : x ≠ c) (h : table.lookup x = none) : x ≠ ESCAPE_CHARACTER := by
  rintro rfl
  rcases hapart.escaped with heq | hmem
  · exact hx heq
  · obtain ⟨e, he, heq⟩ := mem_map.1 hmem
    simpa [heq] using lookup_eq_none_iff.1 h e he

lemma replaceAll_escape (s : List Byte) :
    replaceAll (s.flatMap (code table)) [c] [ESCAPE_CHARACTER, k] = some (s.flatMap (code ((c, k) :: table))) := by
  have hspec := replaceLoop_char (a := c) (d := [ESCAPE_CHARACTER, k]) (Nat.le_refl (s.flatMap (code table)).length) []
  rw [replaceAll, if_neg (by simp), Ips.replaceAll]
  refine hspec.trans (congrArg some ?_)
  rw [nil_append, flatMap_assoc]
  congr 1
  funext x
  by_cases hx : x = c
  · rw [hx, code_self, code, hapart.lookup_self]
    simp
  · rw [code_of_ne hx, code]
    cases hlookup : table.lookup x with
    | none => simp [hx]
    | some y =>
      obtain ⟨hy, hc⟩ := hapart.lookup hlookup
      simp only [mem_cons, not_or] at hy
      simp [hc, hy.1]

/-- One pass of the unescaping takes it away again. -/
lemma replaceAll_unescape (s : List Byte) :
    replaceAll (s.flatMap (code ((c, k) :: table))) [ESCAPE_CHARACTER, k] [c] = some (s.flatMap (code table)) := by
  rw [replaceAll, if_neg (by simp), replaceAll_spec]
  congr 1
  induction s with
  | nil => rfl
  | cons x t ih =>
    rw [flatMap_cons, flatMap_cons]
    by_cases hx : x = c
    · rw [hx, code_self, code, hapart.lookup_self]
      simp [replacePair, ih]
    · rw [code_of_ne hx, code]
      cases hlookup : table.lookup x with
      | none => simp [replacePair_cons_of_ne (hapart.ne_escape hx hlookup), ih]
      | some y =>
        have hy := (hapart.lookup hlookup).1
        simp only [mem_cons, not_mem_nil, or_false, not_or] at hy
        simp [replacePair, hy.2.1, replacePair_cons_of_ne hy.2.2, ih]

end

end

lemma code_nil (s : List Byte) : s.flatMap (code []) = s := by
  have hcode : code [] = ([·]) := rfl
  rw [hcode, flatMap_singleton']

lemma apart_escape : Apart [] ESCAPE_CHARACTER 0x32#8 := ⟨forall_mem_nil _, .inl rfl⟩

lemma apart_param : Apart [(ESCAPE_CHARACTER, 0x32#8)] PARAM_SEPARATOR 0x31#8 :=
  ⟨forall_mem_singleton.2 (by decide), by decide⟩

lemma apart_keyValue : Apart [(PARAM_SEPARATOR, 0x31#8), (ESCAPE_CHARACTER, 0x32#8)] KEY_VALUE_SEPARATOR 0x30#8 :=
  ⟨forall_mem_cons.2 ⟨by decide, forall_mem_singleton.2 (by decide)⟩, by decide⟩

lemma not_mem_code {sep : Byte} (hsep : sep ∈ [KEY_VALUE_SEPARATOR, PARAM_SEPARATOR]) (s : List Byte) :
    sep ∉ s.flatMap (code escapes) := by
  have hseps : ∀ x ∈ [KEY_VALUE_SEPARATOR, PARAM_SEPARATOR],
      escapes.lookup x ≠ none ∧ x ≠ ESCAPE_CHARACTER ∧ x ∉ escapes.map Prod.snd :=
    forall_mem_cons.2 ⟨by decide, forall_mem_singleton.2 (by decide)⟩
  obtain ⟨hlookup, hescape, hkeys⟩ := hseps sep hsep
  rw [mem_flatMap]
  rintro ⟨c, -, hc⟩
  rw [code] at hc
  cases hcode : escapes.lookup c with
  | none =>
    rw [hcode] at hc
    exact hlookup (eq_of_mem_singleton hc ▸ hcode)
  | some k =>
    obtain ⟨l, l', hl, -⟩ := lookup_eq_some_iff.1 hcode
    rw [hcode] at hc
    rcases mem_pair.1 hc with heq | heq
    · exact hescape heq
    · exact hkeys (mem_map.2 ⟨(c, k), hl ▸ mem_append_right _ mem_cons_self, heq.symm⟩)

namespace ParamPackage

lemma escape_spec (s : List Byte) : escape s = some (s.flatMap (code escapes)) := by
  have hescape := replaceAll_escape apart_escape s
  rw [code_nil] at hescape
  rw [escape, ESCAPE_CHARACTER_ESCAPE, hescape]
  exact (congrArg (Option.bind · _) (replaceAll_escape apart_param s)).trans (replaceAll_escape apart_keyValue s)

/-- **Unescaping** reads the codes. -/
lemma unescape_spec (s : List Byte) : unescape (s.flatMap (code escapes)) = some s := by
  have hescape := replaceAll_unescape apart_escape s
  rw [code_nil] at hescape
  exact (congrArg (Option.bind · _) (replaceAll_unescape apart_keyValue s)).trans
    ((congrArg (Option.bind · _) (replaceAll_unescape apart_param s)).trans hescape)

/-! ## Packages -/

variable {p : ParamPackage}

def pairCode (kv : List Byte × List Byte) : List Byte :=
  kv.1.flatMap (code escapes) ++ KEY_VALUE_SEPARATOR :: kv.2.flatMap (code escapes)

lemma serialize_spec (hp : p.data ≠ []) :
    p.serialize = some (p.data.flatMap fun kv => pairCode kv ++ [PARAM_SEPARATOR]).dropLast := by
  have hstep : (fun (result : List Byte) (pair : List Byte × List Byte) => do
      let key ← escape pair.1
      let value ← escape pair.2
      some (result ++ (key ++ KEY_VALUE_SEPARATOR :: value ++ [PARAM_SEPARATOR]))) =
      fun result pair => pure (result ++ (pairCode pair ++ [PARAM_SEPARATOR])) := by
    funext result pair
    simp only [escape_spec, Option.bind_eq_bind, Option.bind_some]
    rfl
  rw [serialize, if_neg hp, hstep, foldlM_pure, flatMap_eq_foldl]
  rfl

lemma not_mem_pairCode (kv : List Byte × List Byte) : PARAM_SEPARATOR ∉ pairCode kv := by
  have hne : PARAM_SEPARATOR ≠ KEY_VALUE_SEPARATOR := by decide
  have hcode (s : List Byte) : PARAM_SEPARATOR ∉ s.flatMap (code escapes) := not_mem_code (by simp) s
  simp [pairCode, hcode, hne]

variable {l : List (List Byte × List Byte)}

lemma pairs_eq (hl : l ≠ []) :
    (l.flatMap fun kv => pairCode kv ++ [PARAM_SEPARATOR]).dropLast =
      (l.dropLast.map pairCode).flatMap (· ++ [PARAM_SEPARATOR]) ++ pairCode (l.getLast hl) := by
  conv_lhs => rw [← dropLast_append_getLast hl]
  rw [flatMap_append, flatMap_singleton, ← append_assoc, dropLast_concat, flatMap_map]

lemma splitString_pairs (hl : l ≠ []) :
    splitString (l.flatMap fun kv => pairCode kv ++ [PARAM_SEPARATOR]).dropLast PARAM_SEPARATOR = some (l.map pairCode) := by
  have hfields : ∀ f ∈ l.dropLast.map pairCode, PARAM_SEPARATOR ∉ f := by
    intro f hf
    obtain ⟨kv, -, rfl⟩ := mem_map.1 hf
    exact not_mem_pairCode kv
  have hne : pairCode (l.getLast hl) ≠ [] := by simp [pairCode]
  rw [pairs_eq hl, splitString_fields hfields (not_mem_pairCode _), if_neg hne]
  conv_rhs => rw [← dropLast_append_getLast hl, map_append]
  rfl

lemma code_ne_nil (table : List (Byte × Byte)) (c : Byte) : code table c ≠ [] := by
  rw [code]
  cases table.lookup c <;> simp

/-- The fields of a pair: the value is missing if it is empty. -/
lemma splitString_pairCode (kv : List Byte × List Byte) :
    splitString (pairCode kv) KEY_VALUE_SEPARATOR =
      some (kv.1.flatMap (code escapes) :: if kv.2 = [] then [] else [kv.2.flatMap (code escapes)]) := by
  have hcode (s : List Byte) : KEY_VALUE_SEPARATOR ∉ s.flatMap (code escapes) := not_mem_code (by simp) s
  have hkey : ∀ f ∈ [kv.1.flatMap (code escapes)], KEY_VALUE_SEPARATOR ∉ f := by simpa using hcode kv.1
  have hsplit := splitString_fields hkey (hcode kv.2)
  have hempty : kv.2.flatMap (code escapes) = [] ↔ kv.2 = [] := by
    cases kv.2 with
    | nil => exact iff_of_true rfl rfl
    | cons c s => simp [code_ne_nil]
  simp only [hempty, flatMap_singleton, append_assoc, singleton_append] at hsplit
  exact hsplit

lemma ofString_spec (hl : l ≠ []) :
    ofString (l.flatMap fun kv => pairCode kv ++ [PARAM_SEPARATOR]).dropLast =
      some ((l.filter (·.2 ≠ [])).foldl (fun q kv => q.set kv.1 kv.2) ⟨[], nodup_nil⟩) := by
  have hplaceholder : (l.flatMap fun kv => pairCode kv ++ [PARAM_SEPARATOR]).dropLast ≠ EMPTY_PLACEHOLDER := by
    have hnot : KEY_VALUE_SEPARATOR ∉ EMPTY_PLACEHOLDER := by decide
    intro heq
    rw [← heq, pairs_eq hl] at hnot
    simp [pairCode] at hnot
  have hstep : (fun (q : ParamPackage) (kv : List Byte × List Byte) => do
      match ← splitString (pairCode kv) KEY_VALUE_SEPARATOR with
      | [key, value] => some (q.set (← unescape key) (← unescape value))
      | _ => some q) = fun q kv => pure (if decide (kv.2 ≠ []) = true then q.set kv.1 kv.2 else q) := by
    funext q kv
    rw [splitString_pairCode]
    by_cases hvalue : kv.2 = []
    · simp [hvalue]
    · simp [hvalue, unescape_spec]
  rw [ofString, if_neg hplaceholder, splitString_pairs hl, foldl_filter]
  refine foldlM_map.trans ?_
  rw [hstep, foldlM_pure]
  rfl

/-- New keys come behind the old ones. -/
lemma foldl_set {q : ParamPackage} (h : ((q.data ++ l).map Prod.fst).Nodup) :
    (l.foldl (fun q kv => q.set kv.1 kv.2) q).data = q.data ++ l := by
  induction l generalizing q with
  | nil => rw [append_nil, foldl_nil]
  | cons kv l ih =>
    have hkey : kv.1 ∉ q.data.map Prod.fst := fun hkey =>
      disjoint_of_nodup_append (map_append ▸ h) hkey (by simp)
    have hset : (q.set kv.1 kv.2).data = q.data ++ [kv] := if_neg hkey
    rw [append_cons, ← hset] at h ⊢
    exact ih h

/-- **Round trip**: a package comes back exactly if no value is empty; the pairs with empty values get lost. -/
theorem roundTrips_iff (p : ParamPackage) : p.RoundTrips ↔ ∀ kv ∈ p.data, kv.2 ≠ [] := by
  by_cases hp : p.data = []
  · refine iff_of_true ⟨EMPTY_PLACEHOLDER, ⟨[], nodup_nil⟩, if_pos hp, if_pos rfl, fun kv => ?_⟩ ?_
    all_goals simp [hp]
  · have hkeys : (((⟨[], nodup_nil⟩ : ParamPackage).data ++ p.data.filter (·.2 ≠ [])).map Prod.fst).Nodup :=
      p.nodup.sublist (filter_sublist.map _)
    constructor
    · rintro ⟨serialized, q, hserialize, hq, hsame⟩ kv hkv
      rw [serialize_spec hp, Option.some_inj] at hserialize
      rw [← hserialize, ofString_spec hp, Option.some_inj] at hq
      rw [← hsame, ← hq, foldl_set hkeys] at hkv
      exact of_decide_eq_true (mem_filter.1 hkv).2
    · intro hvalues
      refine ⟨_, _, serialize_spec hp, ofString_spec hp, fun kv => ?_⟩
      rw [foldl_set hkeys, filter_eq_self.2 fun kv hkv => decide_eq_true (hvalues kv hkv)]
      rfl

/-- The key `a` with an empty value is written as `a:`, which has one field. -/
theorem empty_value_lost : ¬ (⟨[([0x61#8], [])], nodup_singleton _⟩ : ParamPackage).RoundTrips := by
  rintro ⟨serialized, q, hserialize, hq, hsame⟩
  have hwritten : serialized = [0x61#8, 0x3A#8] := (Option.some_inj.1 hserialize).symm
  subst hwritten
  have hdata : q.data = [] := congrArg ParamPackage.data (Option.some_inj.1 hq).symm
  have hmem := (hsame ([0x61#8], [])).2 mem_cons_self
  rw [hdata] at hmem
  cases hmem

end ParamPackage

end Voltemu.Common
