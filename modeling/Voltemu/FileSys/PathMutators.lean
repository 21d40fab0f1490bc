import Voltemu.FileSys.BucketTreeLookup
import Voltemu.FileSys.Path

/-!
# Paths that are changed

What `AppendChild`, `RemoveChild` and `Combine` make of the string of a path.

* `cString_eq_some`: a pointer is at a string if its cells are those of the string and a terminator.
* `strlcpyInt_spec`: what `Strlcpy` copies.  A count that is too large for an `int` cuts the string off, or nothing is copied.
* **`mutators_right`**: which paths and strings the functions are right for.
-/

namespace Voltemu.FileSys

open StringTraits BucketTable List Option

/-! ## Strings in memory -/

section Strings

def NoTerminator (s : List Byte) : Prop := ∀ c ∈ s, c ≠ NullTerminator

lemma NoTerminator.nil : NoTerminator [] := fun _ hc => absurd hc not_mem_nil

variable {s : List Byte}

lemma NoTerminator.tail (h : NoTerminator s) : NoTerminator s.tail :=
  fun c hc => h c (mem_of_mem_tail hc)

lemma NoTerminator.take (h : NoTerminator s) (n : ℕ) : NoTerminator (s.take n) :=
  fun c hc => h c (mem_of_mem_take hc)

lemma cString_eq_some {cells : List Cell} : ∀ {s : List Byte}, cString cells = some s ↔
    NoTerminator s ∧ ∃ rest, cells = terminated s ++ rest := by
  induction cells with
  | nil =>
    intro s
    constructor
    · intro h
      cases h
    · rintro ⟨-, rest, h⟩
      simp [terminated] at h
  | cons cell cells ih =>
    intro s
    cases cell with
    | none =>
      constructor
      · intro h
        cases h
      · rintro ⟨-, rest, h⟩
        cases s <;> simp [terminated] at h
    | some c =>
      rw [cString]
      by_cases hc : c = NullTerminator
      · rw [if_pos hc]
        constructor
        · rintro h
          cases h
          exact ⟨.nil, cells, by rw [hc]; rfl⟩
        · rintro ⟨hs, rest, h⟩
          cases s with
          | nil => rfl
          | cons d s =>
            have hcd : c = d := by simp [terminated] at h; exact h.1
            exact absurd (hcd.symm.trans hc) (hs d mem_cons_self)
      · rw [if_neg hc, map_eq_some_iff]
        constructor
        · rintro ⟨s', hs', rfl⟩
          obtain ⟨hno, rest, rfl⟩ := ih.1 hs'
          exact ⟨forall_mem_cons.2 ⟨hc, hno⟩, rest, rfl⟩
        · rintro ⟨hs, rest, h⟩
          cases s with
          | nil => exact absurd (by simp [terminated] at h; exact h.1) hc
          | cons d s =>
            have hcons : c = d ∧ cells = terminated s ++ rest := by simpa [terminated] using h
            obtain ⟨rfl, hcells⟩ := hcons
            exact ⟨s, ih.2 ⟨(forall_mem_cons.1 hs).2, rest, hcells⟩, rfl⟩

lemma cString_terminated (h : NoTerminator s) (rest : List Cell) : cString (terminated s ++ rest) = some s :=
  cString_eq_some.2 ⟨h, rest, rfl⟩

lemma strlen_terminated (h : NoTerminator s) (rest : List Cell) : strlen (terminated s ++ rest) = some s.length := by
  rw [strlen, cString_terminated h]
  rfl

lemma terminated_length (s : List Byte) : (terminated s).length = s.length + 1 := by simp [terminated]

lemma cString_append {pre rest : List Cell} : ∀ {a b : List Byte}, a.length = pre.length →
    (cString (pre ++ rest) = some (a ++ b) ↔ NoTerminator a ∧ pre = a.map some ∧ cString rest = some b) := by
  induction pre with
  | nil =>
    intro a b ha
    obtain rfl := eq_nil_of_length_eq_zero ha
    simp [NoTerminator.nil]
  | cons cell pre ih =>
    intro a b ha
    cases a with
    | nil => simp at ha
    | cons c a =>
      have ha' : a.length = pre.length := by simpa using ha
      cases cell with
      | none => simp [cString]
      | some d =>
        rw [cons_append, cString, cons_append]
        by_cases hd : d = NullTerminator
        · rw [if_pos hd]
          constructor
          · intro h
            cases h
          · rintro ⟨hno, hcells, -⟩
            have hdc : d = c := by simp at hcells; exact hcells.1
            exact absurd (hdc.symm.trans hd) (hno c mem_cons_self)
        · rw [if_neg hd, map_eq_some_iff]
          constructor
          · rintro ⟨s, hs, hcons⟩
            obtain ⟨rfl, rfl⟩ := cons.inj hcons
            obtain ⟨hno, hpre, hrest⟩ := (ih ha').1 hs
            exact ⟨forall_mem_cons.2 ⟨hd, hno⟩, by rw [hpre]; rfl, hrest⟩
          · rintro ⟨hno, hcells, hrest⟩
            obtain ⟨hdc, hpre⟩ := cons.inj hcells
            obtain rfl := some.inj hdc
            exact ⟨a ++ b, (ih ha').2 ⟨(forall_mem_cons.1 hno).2, hpre, hrest⟩, rfl⟩

end Strings

/-! ## `Strlcpy` -/

section Copies

variable {s : List Byte} {dst rest : List Cell}

lemma strlcpyLoop_spec (n : ℕ) : ∀ {s : List Byte} {dst : List Cell}, NoTerminator s → n ≤ s.length → n < dst.length →
    strlcpyLoop n dst (terminated s ++ rest) = some (terminated (s.take n) ++ dst.drop (n + 1)) := by
  induction n with
  | zero =>
    intro s dst _ _ hdst
    cases dst with
    | nil => simp at hdst
    | cons d dst => simp [strlcpyLoop, terminated]
  | succ n ih =>
    intro s dst hs hn hdst
    cases dst with
    | nil => simp at hdst
    | cons d dst =>
      cases s with
      | nil => simp at hn
      | cons c s =>
        obtain ⟨hc, hs'⟩ := forall_mem_cons.1 hs
        have hcells : terminated (c :: s) ++ rest = some c :: (terminated s ++ rest) := rfl
        rw [hcells, strlcpyLoop, if_neg hc, ih hs' (by simpa using hn) (by simpa using hdst)]
        rfl

/-- The numbers that an `int` holds. -/
lemma toS32_lt (x : ℤ) : toS32 x < 2 ^ 31 := by
  rw [toS32, Int.bmod_def]
  split_ifs <;> omega

/-- **What `Strlcpy` copies** with room for `k + 1` bytes: the first `k` of them, or if `k + 1` is too large for an `int`,
nothing or less of them. -/
lemma strlcpyInt_spec (rest : List Cell) (hs : NoTerminator s) {k : ℕ} (hk : k ≤ s.length) (hdst : k < dst.length) :
    ∃ dst', strlcpyInt dst (terminated s ++ rest) (toS32 (k + 1 : ℕ)) = some (dst', toS32 s.length) ∧
      ((k + 1 < 2 ^ 31 ∧ dst' = terminated (s.take k) ++ dst.drop (k + 1)) ∨
        (2 ^ 31 ≤ k + 1 ∧ (dst' = dst ∨ ∃ j < k, dst' = terminated (s.take j) ++ dst.drop (j + 1)))) := by
  rw [strlcpyInt, strlen_terminated hs, strlcpyCopy]
  by_cases hfits : k + 1 < 2 ^ 31
  · rw [toS32_of_range (by omega) (by omega), if_pos (by omega), show ((k + 1 : ℕ) : ℤ).toNat - 1 = k by omega,
      strlcpyLoop_spec k hs hk hdst]
    exact ⟨_, rfl, .inl ⟨hfits, rfl⟩⟩
  · have hlt := toS32_lt ((k + 1 : ℕ) : ℤ)
    by_cases hpos : toS32 ((k + 1 : ℕ) : ℤ) > 0
    · rw [if_pos hpos, strlcpyLoop_spec _ hs (by omega) (by omega)]
      exact ⟨_, rfl, .inr ⟨by omega, .inr ⟨_, by omega, rfl⟩⟩⟩
    · rw [if_neg hpos]
      exact ⟨dst, rfl, .inr ⟨by omega, .inl rfl⟩⟩

end Copies

namespace Path

/-! ## What the functions should do -/

def dropSeparator (s : List Byte) : List Byte := if s ≠ [] ∧ isSeparator (charAt s (s.length - 1)) = true then s.dropLast else s

def dropSlash (c : List Byte) : List Byte := if charAt c 0 = DirectorySeparator then c.tail else c

def appended (s c : List Byte) : List Byte :=
  if s = [] then c else if dropSlash c = [] then s else dropSeparator s ++ DirectorySeparator :: dropSlash c

/-- What is before the last component, up to the separator. -/
def upToSeparator (s : List Byte) : List Byte := (s.reverse.dropWhile fun c => !isSeparator c).reverse

/-- **A string without its last component** and the separator before it, unless that is the root, or nothing if there is
only one component. -/
def removed (s : List Byte) : Option (List Byte) :=
  if s = [DirectorySeparator] ∨ s = [Dot] then none
  else
    let before := upToSeparator (dropSeparator s)
    if before = [] then none else if before.length = 1 then some before else some before.dropLast

/-- A function succeeds, and the path then has a string. -/
def Makes (result : PathResult) (s : List Byte) : Prop := ∃ q, result = some (.ok (), q) ∧ q.string = some s

def AppendsRight (lookup : Lookup) (p : Path) (s c : List Byte) : Prop := Makes (p.appendChild lookup c) (appended s c)

/-- **`Combine` is right**: it makes the same as `Initialize` and `AppendChild`. -/
def CombinesRight (lookup : Lookup) (p parent child : Path) (s c : List Byte) : Prop :=
  Makes (p.combine lookup parent child) (appended s c) ∧
    ∃ q, p.initializePath lookup parent = some (.ok (), q) ∧ Makes (q.appendChildPath lookup child) (appended s c)

def RemovesRight (lookup : Lookup) (p : Path) (s : List Byte) : Prop :=
  match removed s with
  | some s' => Makes (p.removeChild lookup) s'
  | none => ∃ q, p.removeChild lookup = some (.error .notImplemented, q) ∧ q.string = some s

def Writable (p : Path) : Prop := ∃ buffer, p.buffer = .writable buffer

/-- A string can be copied: `Strlcpy` returns, and the size of the string fits an `int`. -/
def Copies (lookup : Lookup) (s : List Byte) : Prop := lookup = .atInstantiation ∧ s.length + 1 < 2 ^ 31

def AppendCondition (lookup : Lookup) (p : Path) (s c : List Byte) : Prop :=
  if s = [] then c = [] ∨ Copies lookup c
  else dropSlash c = [] ∨
    (Copies lookup (dropSlash c) ∧ (dropSeparator s = [] ∨ (p.Writable ∧ Copies lookup (dropSeparator s))))

/-- When `Combine` is right, for a parent that can be copied. -/
def CombineCondition (lookup : Lookup) (s c : List Byte) : Prop :=
  lookup = .atInstantiation ∧ (if s = [] then Copies lookup c else dropSlash c = [] ∨ Copies lookup (dropSlash c))

/-! ## `RemoveChild` -/

section Remove

variable {p : Path} {s : List Byte} {rest : List Cell}

lemma upToSeparator_nil : upToSeparator [] = [] := rfl

lemma upToSeparator_append (s : List Byte) (c : Byte) :
    upToSeparator (s ++ [c]) = if isSeparator c = true then s ++ [c] else upToSeparator s := by
  rw [upToSeparator, reverse_append, reverse_singleton, singleton_append, dropWhile_cons]
  by_cases hc : isSeparator c = true
  · simp [hc]
  · simp [hc, upToSeparator]

lemma upToSeparator_length_le (s : List Byte) : (upToSeparator s).length ≤ s.length := by
  have := (dropWhile_sublist (l := s.reverse) fun c => !isSeparator c).length_le
  simpa [upToSeparator] using this

lemma terminated_getElem {i : ℕ} (hi : i < s.length) : (terminated s ++ rest)[i]?.join = some (s.getD i NullTerminator) := by
  rw [terminated, append_assoc, getElem?_append_left (by simpa using hi)]
  simp [hi, getD_eq_getElem?_getD]

lemma terminated_set {i : ℕ} (hi : i < s.length) :
    (terminated s ++ rest).set i (some NullTerminator) = terminated (s.take i) ++ ((terminated s ++ rest).drop (i + 1)) := by
  have hlength : i < (terminated s ++ rest).length := by
    rw [length_append, terminated_length]
    omega
  have htake : (terminated s ++ rest).take i = (s.take i).map some := by
    rw [terminated, append_assoc, take_append_of_le_length (by simpa using hi.le), map_take]
  rw [set_eq_take_append_cons_drop, if_pos hlength, htake, terminated.eq_def (s.take i), append_assoc]
  rfl

lemma removeLoop_spec (rest : List Cell) (hs : NoTerminator s) (n : ℕ) : n ≤ s.length →
    (upToSeparator (s.take n) = [] → removeLoop (terminated s ++ rest) n = some (-1, terminated s ++ rest)) ∧
    ∀ m, (upToSeparator (s.take n)).length = m + 1 → ∃ behind,
      removeLoop (terminated s ++ rest) n = some (behind, (terminated s ++ rest).set (max m 1) (some NullTerminator)) ∧
        0 < behind := by
  induction n with
  | zero =>
    intro _
    refine ⟨fun _ => rfl, ?_⟩
    intro m hm
    simp [upToSeparator_nil] at hm
  | succ n ih =>
    intro hn
    have hlt : n < s.length := hn
    have htake : s.take (n + 1) = s.take n ++ [s.getD n NullTerminator] := by
      rw [take_add_one, getD_eq_getElem?_getD, getElem?_eq_getElem hlt]
      rfl
    have hc : s.getD n NullTerminator ≠ NullTerminator := by
      rw [getD_eq_getElem?_getD, getElem?_eq_getElem hlt]
      exact hs _ (getElem_mem hlt)
    have hlength : (terminated s ++ rest).length = s.length + 1 + rest.length := by
      rw [length_append, terminated_length]
    rw [htake, upToSeparator_append, removeLoop, terminated_getElem hlt, bind_some, if_neg hc]
    by_cases hsep : isSeparator (s.getD n NullTerminator) = true
    · rw [if_pos hsep, if_pos hsep]
      refine ⟨fun hnil => absurd hnil (by simp), ?_⟩
      intro m hm
      obtain rfl : m = n := by
        rw [length_append, length_take] at hm
        simp only [length_singleton] at hm
        omega
      by_cases hpos : m > 0
      · rw [if_pos hpos, storeAt, if_pos (by omega), show max m 1 = m by omega]
        exact ⟨m, rfl, by omega⟩
      · rw [if_neg hpos, storeAt, if_pos (by omega), show max m 1 = 1 by omega]
        exact ⟨1, rfl, by omega⟩
    · rw [if_neg hsep, if_neg hsep]
      exact ih (by omega)

lemma upToSeparator_eq_take (s : List Byte) : upToSeparator s = s.take (upToSeparator s).length := by
  have hsuffix := dropWhile_suffix (l := s.reverse) fun c => !isSeparator c
  have hprefix : upToSeparator s <+: s := by
    rw [← reverse_suffix]
    simpa [upToSeparator] using hsuffix
  exact prefix_iff_eq_take.1 hprefix

lemma dropSeparator_eq_take (s : List Byte) : dropSeparator s = s.take (dropSeparator s).length := by
  rw [dropSeparator]
  split_ifs
  · rw [length_dropLast, dropLast_eq_take]
  · rw [take_length]

lemma dropSeparator_length_le (s : List Byte) : (dropSeparator s).length ≤ s.length := by
  rw [dropSeparator]
  split_ifs
  · rw [length_dropLast]
    omega
  · exact le_refl _

lemma root_iff (s : List Byte) : s = [DirectorySeparator] ∨ s = [Dot] ↔
    s.length = 1 ∧ (charAt s 0 = DirectorySeparator ∨ charAt s 0 = Dot) := by
  constructor
  · rintro (rfl | rfl)
    · exact ⟨rfl, .inl rfl⟩
    · exact ⟨rfl, .inr rfl⟩
  · rintro ⟨hlength, hfirst⟩
    obtain ⟨c, rfl⟩ := length_eq_one_iff.1 hlength
    rcases hfirst with hc | hc
    · exact .inl (congrArg (fun c => [c]) hc)
    · exact .inr (congrArg (fun c => [c]) hc)

lemma dropSeparator_append (s : List Byte) (c : Byte) :
    dropSeparator (s ++ [c]) = if isSeparator c = true then s else s ++ [c] := by
  have hlast : charAt (s ++ [c]) ((s ++ [c]).length - 1) = c := by simp [charAt]
  have hne : s ++ [c] ≠ [] := by simp
  rw [dropSeparator, hlast, dropLast_concat]
  by_cases hc : isSeparator c = true
  · rw [if_pos hc, if_pos ⟨hne, hc⟩]
  · rw [if_neg hc, if_neg fun h => hc h.2]

/-- Behind what is left there is a component. -/
lemma upToSeparator_dropSeparator_lt (hs : s ≠ []) : (upToSeparator (dropSeparator s)).length < s.length := by
  obtain ⟨s, c, rfl⟩ := (eq_nil_or_concat' s).resolve_left hs
  have hle := upToSeparator_length_le s
  rw [dropSeparator_append]
  by_cases hc : isSeparator c = true
  · rw [if_pos hc, length_append, length_singleton]
    omega
  · rw [if_neg hc, upToSeparator_append, if_neg hc, length_append, length_singleton]
    omega

variable {buffer : List Cell}

lemma removeFrom_eq (p : Path) (hcells : cString buffer = some s) (hfits : s.length < 2 ^ 31)
    (hroot : ¬ (s = [DirectorySeparator] ∨ s = [Dot])) :
    p.removeFrom buffer = (removeLoop buffer (dropSeparator s).length).map fun (behind, buffer) =>
      if behind > 0 then (.ok (), { p with buffer := .writable buffer })
      else (.error .notImplemented, { p with buffer := .writable buffer }) := by
  have hlen : toS32 s.length = s.length := toS32_of_range (by omega) (by omega)
  have hnot : ¬ ((s.length : ℤ) = 1 ∧ (charAt s 0 = DirectorySeparator ∨ charAt s 0 = Dot)) := by
    rintro ⟨hone, hfirst⟩
    exact hroot ((root_iff s).2 ⟨by omega, hfirst⟩)
  have hdropped : (if (s.length : ℤ) > 0 ∧ isSeparator (charAt s ((s.length : ℤ).toNat - 1)) = true then
      (s.length : ℤ) - 1 else s.length) = ((dropSeparator s).length : ℤ) := by
    rw [Int.toNat_natCast, dropSeparator]
    by_cases hsep : s ≠ [] ∧ isSeparator (charAt s (s.length - 1)) = true
    · have hpos := length_pos_of_ne_nil hsep.1
      rw [if_pos hsep, if_pos ⟨by omega, hsep.2⟩, length_dropLast]
      omega
    · rw [if_neg hsep, if_neg]
      rintro ⟨hpos, hsep'⟩
      refine hsep ⟨?_, hsep'⟩
      rintro rfl
      exact absurd hpos (by decide)
  have hsmallest : ¬ ((dropSeparator s).length : ℤ) = -2 ^ 31 := by
    omega
  rw [removeFrom, hcells, bind_some, hlen]
  rw [if_neg hnot, hdropped, if_neg hsmallest, Int.toNat_natCast]

/-- **`RemoveChild` with a write buffer** is right for strings whose length fits an `s32`. -/
lemma removesRight_writable (hbuffer : p.buffer = .writable buffer) (hstring : p.string = some s)
    (hfits : s.length < 2 ^ 31) (lookup : Lookup) : RemovesRight lookup p s := by
  have hcells : cString buffer = some s := by
    rw [string, str, hbuffer] at hstring
    exact hstring
  have hchild : p.removeChild lookup = p.removeFrom buffer := by rw [removeChild, hbuffer]
  by_cases hroot : s = [DirectorySeparator] ∨ s = [Dot]
  · have hone := (root_iff s).1 hroot
    have hlen : toS32 s.length = s.length := toS32_of_range (by omega) (by omega)
    have hremoved : removed s = none := if_pos hroot
    rw [RemovesRight, hremoved, hchild, removeFrom, hcells, bind_some, hlen]
    rw [if_pos ⟨by omega, hone.2⟩]
    exact ⟨_, rfl, hcells⟩
  have hfrom := removeFrom_eq p hcells hfits hroot
  obtain ⟨hs, rest, rfl⟩ := cString_eq_some.1 hcells
  obtain ⟨hnone, hsome⟩ := removeLoop_spec rest hs _ (dropSeparator_length_le s)
  rw [← dropSeparator_eq_take] at hnone hsome
  by_cases hbefore : upToSeparator (dropSeparator s) = []
  · have hremoved : removed s = none := by
      rw [removed, if_neg hroot]
      exact if_pos hbefore
    rw [hnone hbefore] at hfrom
    rw [RemovesRight, hremoved, hchild, hfrom]
    exact ⟨_, rfl, hcells⟩
  · have hpos := length_pos_of_ne_nil hbefore
    obtain ⟨m, hm⟩ : ∃ m, (upToSeparator (dropSeparator s)).length = m + 1 :=
      ⟨_, (Nat.succ_pred_eq_of_pos hpos).symm⟩
    obtain ⟨behind, hloop, hbehind⟩ := hsome m hm
    have hlt : m + 1 < s.length := by
      rw [← hm]
      refine upToSeparator_dropSeparator_lt ?_
      rintro rfl
      exact hbefore rfl
    have hle := upToSeparator_length_le (dropSeparator s)
    have htake : upToSeparator (dropSeparator s) = s.take (m + 1) := by
      rw [upToSeparator_eq_take, hm, dropSeparator_eq_take, take_take]
      congr 1
      omega
    have hremoved : removed s = some (s.take (max m 1)) := by
      rw [removed, if_neg hroot]
      rw [if_neg hbefore, hm, htake]
      by_cases hzero : m = 0
      · rw [if_pos (by omega), hzero]
        rfl
      · rw [if_neg (by omega), dropLast_eq_take, take_take, length_take]
        congr 2
        omega
    rw [hloop, terminated_set (by omega : max m 1 < s.length)] at hfrom
    rw [RemovesRight, hremoved, hchild, hfrom]
    refine ⟨_, congrArg some (if_pos hbehind), ?_⟩
    exact cString_terminated (hs.take (max m 1)) _

/-! ## Buffers -/

lemma alignUp_ge (n : ℕ) : n ≤ alignUp n WriteBufferAlignmentLength := by
  rw [alignUp, WriteBufferAlignmentLength]
  split_ifs <;> omega

lemma cString_replicate_none (n : ℕ) : cString (replicate n none) = none := by
  cases n <;> rfl

lemma preallocate_spec (p : Path) {n : ℕ} (hn : 0 < n) : ∃ buffer, (p.preallocate n).buffer = .writable buffer ∧
    n ≤ buffer.length ∧ (cString buffer = none ∨ cString buffer = p.string) := by
  rw [preallocate]
  by_cases hlt : n > p.writeBufferLength
  · rw [if_pos hlt]
    refine ⟨_, rfl, ?_, .inl (cString_replicate_none _)⟩
    rw [length_replicate]
    exact alignUp_ge n
  · rw [if_neg hlt]
    cases hbuffer : p.buffer with
    | readOnly s =>
      rw [writeBufferLength, hbuffer] at hlt
      exact absurd hn hlt
    | writable buffer =>
      rw [writeBufferLength, hbuffer] at hlt
      refine ⟨buffer, rfl, not_lt.1 hlt, .inr ?_⟩
      rw [string, str, hbuffer]

/-- **`RemoveChild` without a write buffer** reads the new buffer. -/
lemma removeChild_readOnly {s' : List Byte} (hbuffer : p.buffer = .readOnly s') (hstring : p.string = some s)
    (hfits : s.length < 2 ^ 31) (lookup : Lookup) : p.removeChild lookup = none := by
  have hlen : strlen p.str = some s.length := by
    rw [strlen, show cString p.str = some s from hstring]
    rfl
  rw [removeChild, hbuffer]
  rw [hlen, bind_some]
  by_cases hzero : s.length = 0
  · rw [if_pos hzero]
  · have hnew : (p.preallocate s.length).str = replicate (alignUp s.length WriteBufferAlignmentLength) none := by
      rw [preallocate, writeBufferLength, hbuffer, if_pos (by show s.length > 0; omega), str]
    obtain ⟨m, hm⟩ : ∃ m, alignUp s.length WriteBufferAlignmentLength = m + 1 :=
      ⟨_, (Nat.succ_pred_eq_of_pos (by have := alignUp_ge s.length; omega)).symm⟩
    rw [if_neg hzero, hnew, hm, replicate_succ]
    cases lookup with
    | atDefinition => rfl
    | atInstantiation =>
      rw [strlcpySelf, strlcpyCopy]
      by_cases hpos : toS32 ((s.length + 1 : ℕ) : ℤ) > 0
      · have hcount : toS32 ((s.length + 1 : ℕ) : ℤ) = (s.length + 1 : ℕ) := by
          refine toS32_of_range (by omega) ?_
          by_contra hnot
          rw [toS32_of_ge (by omega) (by omega)] at hpos
          omega
        rw [if_pos hpos, hcount, show ((s.length + 1 : ℕ) : ℤ).toNat - 1 = (s.length - 1) + 1 by omega]
        rfl
      · rw [if_neg hpos]
        rfl

end Remove

/-! ## `AppendChild` -/

section Append

variable {lookup : Lookup} {p q : Path} {s a c : List Byte} {n : ℕ}

lemma toSizeT_toS32 {x : ℕ} (hx : x < 2 ^ 31) : toSizeT (toS32 x) = x := by
  rw [toS32_of_range (by omega) (by omega), toSizeT]
  omega

variable {d : List Cell}

lemma copyTo_eq (hd : q.buffer = .writable d) (lookup : Lookup) (n : ℕ) (src : List Cell) (count : ℕ) :
    q.copyTo lookup n src count = (strlcpy lookup (d.drop n) src count).map fun (dst, copied) =>
      ({ q with buffer := .writable (d.take n ++ dst) }, toSizeT copied) := by
  rw [copyTo, hd]

lemma copied_iff {d d' : List Cell} (hc : NoTerminator c) (hfresh : cString d ≠ some c)
    (hd' : (c.length + 1 < 2 ^ 31 ∧ d' = terminated (c.take c.length) ++ d.drop (c.length + 1)) ∨
      (2 ^ 31 ≤ c.length + 1 ∧ (d' = d ∨ ∃ j < c.length, d' = terminated (c.take j) ++ d.drop (j + 1)))) :
    cString d' = some c ↔ c.length + 1 < 2 ^ 31 := by
  rcases hd' with ⟨hfits, rfl⟩ | ⟨hlarge, rfl | ⟨j, hj, rfl⟩⟩
  · rw [take_length]
    exact ⟨fun _ => hfits, fun _ => cString_terminated hc _⟩
  · exact ⟨fun h => absurd h hfresh, fun h => by omega⟩
  · rw [cString_terminated (hc.take j)]
    refine ⟨fun h => ?_, fun h => by omega⟩
    have hlength := congrArg length (some.inj h)
    rw [length_take] at hlength
    omega

lemma initializeString_makes (hp : p.string = some []) (hc : NoTerminator c) :
    Makes (p.initializeString lookup c) c ↔ c = [] ∨ Copies lookup c := by
  rw [initializeString, initializeImpl]
  by_cases hnil : c = []
  · rw [if_neg (by rw [hnil]; exact fun h => lt_irrefl _ h.1), hnil]
    exact ⟨fun _ => .inl rfl, fun _ => ⟨_, rfl, rfl⟩⟩
  have hpos := length_pos_of_ne_nil hnil
  have hfirst : charAt c 0 ≠ NullTerminator := by
    obtain ⟨d, c, rfl⟩ := exists_cons_of_ne_nil hnil
    exact hc d mem_cons_self
  obtain ⟨buffer, hbuffer, hle, hfresh⟩ := p.preallocate_spec (by omega : 0 < c.length + 1)
  have hfresh' : cString buffer ≠ some c := by
    rcases hfresh with h | h
    · rw [h]
      exact some_ne_none c |>.symm
    · rw [h, hp]
      exact fun h' => hnil (some.inj h').symm
  rw [if_pos ⟨hpos, hfirst⟩, copyTo_eq hbuffer, drop_zero, take_zero]
  cases lookup with
  | atDefinition =>
    refine ⟨?_, ?_⟩
    · rintro ⟨q, hq, -⟩
      cases hq
    · rintro (h | ⟨h, -⟩)
      · exact absurd h hnil
      · cases h
  | atInstantiation =>
    have hspec := strlcpyInt_spec [] hc (le_refl c.length) (by omega : c.length < buffer.length)
    rw [append_nil] at hspec
    obtain ⟨d', hcopy, hd'⟩ := hspec
    have hiff := copied_iff hc hfresh' hd'
    have hcopied : (strlcpy .atInstantiation buffer (terminated c) (c.length + 1)) = some (d', toS32 c.length) := hcopy
    rw [hcopied, map_some, map_some, map_some]
    dsimp only
    by_cases hreturned : toSizeT (toS32 c.length) ≥ c.length
    · rw [if_pos hreturned]
      refine ⟨?_, ?_⟩
      · rintro ⟨q, hq, hstring⟩
        cases hq
        exact .inr ⟨rfl, hiff.1 hstring⟩
      · rintro (h | ⟨-, hfits⟩)
        · exact absurd h hnil
        · exact ⟨_, rfl, hiff.2 hfits⟩
    · rw [if_neg hreturned]
      refine ⟨?_, ?_⟩
      · rintro ⟨q, hq, -⟩
        cases hq
      · rintro (h | ⟨-, hfits⟩)
        · exact absurd h hnil
        · rw [toSizeT_toS32 (by omega)] at hreturned
          exact absurd (le_refl _) hreturned

/-- **The separator and the child**, behind cells `d.take n` that may hold the string `a`. -/
lemma appendTail_makes (hd : q.buffer = .writable d) (hlength : n + 1 + c.length + 1 ≤ d.length)
    (hc : NoTerminator c) (ha : NoTerminator a) (han : a.length = n) (hfresh : cString (d.drop (n + 1)) = none) :
    Makes ((storeAt q.str n DirectorySeparator).bind fun dst =>
        (({ q with buffer := .writable dst } : Path).copyTo lookup (n + 1) (terminated c) (c.length + 1)).map
          fun (q, copied) => if copied = c.length then (.ok (), q) else (.error .unexpectedInPathA, q))
      (a ++ DirectorySeparator :: c) ↔ Copies lookup c ∧ d.take n = a.map some := by
  have hstr : q.str = d := by rw [str, hd]
  have hdrop : (d.set n (some DirectorySeparator)).drop (n + 1) = d.drop (n + 1) := by
    rw [drop_set_of_lt (Nat.lt_succ_self n)]
  have htake : (d.set n (some DirectorySeparator)).take (n + 1) = d.take n ++ [some DirectorySeparator] := by
    rw [set_eq_take_append_cons_drop, if_pos (by omega), take_append, length_take, take_take,
      show min n d.length = n by omega, show min (n + 1) n = n by omega, show n + 1 - n = 0 + 1 by omega,
      take_succ_cons, take_zero]
  rw [hstr, storeAt, if_pos (by omega), bind_some, copyTo_eq rfl, hdrop, htake]
  cases lookup with
  | atDefinition =>
    refine ⟨?_, ?_⟩
    · rintro ⟨q, hq, -⟩
      cases hq
    · rintro ⟨⟨h, -⟩, -⟩
      cases h
  | atInstantiation =>
    have hspec := strlcpyInt_spec [] hc (le_refl c.length)
      (by rw [length_drop]; omega : c.length < (d.drop (n + 1)).length)
    rw [append_nil] at hspec
    obtain ⟨d', hcopy, hd'⟩ := hspec
    have hiff := copied_iff hc (by rw [hfresh]; exact (some_ne_none c).symm) hd'
    have hcopied : strlcpy .atInstantiation (d.drop (n + 1)) (terminated c) (c.length + 1) = some (d', toS32 c.length) :=
      hcopy
    have hstring : cString (d.take n ++ [some DirectorySeparator] ++ d') = some (a ++ DirectorySeparator :: c) ↔
        c.length + 1 < 2 ^ 31 ∧ d.take n = a.map some := by
      have hseparator : cString (some DirectorySeparator :: d') = some (DirectorySeparator :: c) ↔ cString d' = some c := by
        rw [cString, if_neg (by decide), map_eq_some_iff]
        refine ⟨?_, fun h => ⟨c, h, rfl⟩⟩
        rintro ⟨c', hc', heq⟩
        rw [hc', (cons.inj heq).2]
      rw [append_assoc, singleton_append, cString_append (by rw [han, length_take]; omega), hseparator, hiff]
      exact ⟨fun h => ⟨h.2.2, h.2.1⟩, fun h => ⟨ha, h.2, h.1⟩⟩
    rw [hcopied, map_some, map_some]
    dsimp only
    by_cases hreturned : toSizeT (toS32 c.length) = c.length
    · rw [if_pos hreturned]
      refine ⟨?_, ?_⟩
      · rintro ⟨q, hq, hmade⟩
        cases hq
        have := hstring.1 hmade
        exact ⟨⟨rfl, this.1⟩, this.2⟩
      · rintro ⟨⟨-, hfits⟩, hpre⟩
        exact ⟨_, rfl, hstring.2 ⟨hfits, hpre⟩⟩
    · rw [if_neg hreturned]
      refine ⟨?_, ?_⟩
      · rintro ⟨q, hq, -⟩
        cases hq
      · rintro ⟨⟨-, hfits⟩, -⟩
        exact absurd (toSizeT_toS32 (by omega)) hreturned

/-- Uninitialised cells hold nothing but the empty string. -/
lemma replicate_take_iff {m : ℕ} (hn : n ≤ s.length) (hm : n ≤ m) :
    (replicate m none : List Cell).take n = (s.take n).map some ↔ n = 0 := by
  refine ⟨fun h => ?_, fun h => by rw [h]; rfl⟩
  by_contra hne
  have hfirst := congrArg head? h
  obtain ⟨n, rfl⟩ := Nat.exists_eq_succ_of_ne_zero hne
  obtain ⟨m, rfl⟩ := Nat.exists_eq_succ_of_ne_zero (by omega : m ≠ 0)
  cases s with
  | nil => simp at hn
  | cons c s => simp [replicate_succ] at hfirst

/-- What the first `Strlcpy` leaves in the new buffer. -/
lemma prefix_iff {m : ℕ} (hs : NoTerminator s) (hn : n ≤ s.length) (hpos : 0 < n) (hm : n < m)
    (hd : (n + 1 < 2 ^ 31 ∧ d = terminated (s.take n) ++ (replicate m none).drop (n + 1)) ∨
      (2 ^ 31 ≤ n + 1 ∧ (d = replicate m none ∨ ∃ j < n, d = terminated (s.take j) ++ (replicate m none).drop (j + 1)))) :
    d.length = m ∧ cString (d.drop (n + 1)) = none ∧ (d.take n = (s.take n).map some ↔ n + 1 < 2 ^ 31) := by
  have hcut : ∀ j ≤ n, (terminated (s.take j) ++ (replicate m none).drop (j + 1)).length = m ∧
      cString ((terminated (s.take j) ++ (replicate m none).drop (j + 1)).drop (n + 1)) = none := by
    intro j hj
    have hlength : (terminated (s.take j)).length = j + 1 := by
      rw [terminated_length, length_take]
      omega
    refine ⟨?_, ?_⟩
    · rw [length_append, hlength, length_drop, length_replicate]
      omega
    · rw [drop_append, drop_eq_nil_of_le (by omega), nil_append, drop_drop, drop_replicate, cString_replicate_none]
  rcases hd with ⟨hfits, rfl⟩ | ⟨hlarge, rfl | ⟨j, hj, rfl⟩⟩
  · obtain ⟨hlength, hdrop⟩ := hcut n (le_refl n)
    refine ⟨hlength, hdrop, fun _ => hfits, fun _ => ?_⟩
    rw [terminated, append_assoc]
    exact take_left' (by rw [length_map, length_take]; omega)
  · refine ⟨length_replicate, ?_, fun h => ?_, fun h => by omega⟩
    · rw [drop_replicate, cString_replicate_none]
    · exact absurd ((replicate_take_iff hn hm.le).1 h) hpos.ne'
  · obtain ⟨hlength, hdrop⟩ := hcut j hj.le
    refine ⟨hlength, hdrop, fun h => ?_, fun h => by omega⟩
    -- The terminator is where a byte of the string should be.
    have hcell := congrArg (fun l : List Cell => l[j]?) h
    have hjs : j < s.length := by omega
    have hleft : ((terminated (s.take j) ++ (replicate m none).drop (j + 1)).take n)[j]? = some (some NullTerminator) := by
      rw [getElem?_take_of_lt hj, terminated, append_assoc,
        getElem?_append_right (by rw [length_map, length_take]; omega), length_map, length_take,
        show j - min j s.length = 0 by omega]
      rfl
    have hright : ((s.take n).map some)[j]? = some (some s[j]) := by
      rw [getElem?_map, getElem?_take_of_lt hj, getElem?_eq_getElem hjs]
      rfl
    rw [hleft, hright] at hcell
    exact absurd (some.inj (some.inj hcell)).symm (hs _ (getElem_mem hjs))

lemma appendParts_makes (lookup : Lookup) (hp : p.string = some s) (hn : n ≤ s.length) (hc : NoTerminator c) :
    Makes (p.appendParts lookup n c) (s.take n ++ DirectorySeparator :: c) ↔
      Copies lookup c ∧ (n = 0 ∨ (p.Writable ∧ Copies lookup (s.take n))) := by
  obtain ⟨hs, rest, hcells⟩ := cString_eq_some.1 hp
  have htake : (s.take n).length = n := by
    rw [length_take]
    omega
  let m := alignUp (n + 1 + c.length + 1) WriteBufferAlignmentLength
  have hm : n + 1 + c.length + 1 ≤ m := alignUp_ge _
  have hnew : (p.clearBuffer.preallocate (n + 1 + c.length + 1)).buffer = .writable (replicate m none) := by
    rw [preallocate, if_pos (by show n + 1 + c.length + 1 > 0; omega)]
  have hfresh : cString ((replicate m none : List Cell).drop (n + 1)) = none := by
    rw [drop_replicate, cString_replicate_none]
  have hlength : n + 1 + c.length + 1 ≤ (replicate m none : List Cell).length := by
    rw [length_replicate]
    exact hm
  have hnone := replicate_take_iff hn (by omega : n ≤ m)
  rw [appendParts]
  cases hbuffer : p.buffer with
  | readOnly s' =>
    have hnot : ¬ p.Writable := by
      rintro ⟨buffer, hbuffer'⟩
      rw [hbuffer] at hbuffer'
      cases hbuffer'
    rw [bind_some, appendTail_makes hnew hlength hc (hs.take n) htake hfresh, hnone]
    exact ⟨fun h => ⟨h.1, .inl h.2⟩, fun h => ⟨h.1, h.2.resolve_right fun h' => hnot h'.1⟩⟩
  | writable old =>
    have hwritable : p.Writable := ⟨old, hbuffer⟩
    have hold : old = terminated s ++ rest := by
      rw [← hcells, str, hbuffer]
    dsimp only
    by_cases hzero : n = 0
    · rw [if_neg (by omega), bind_some, appendTail_makes hnew hlength hc (hs.take n) htake hfresh, hnone]
      exact ⟨fun h => ⟨h.1, .inl h.2⟩, fun h => ⟨h.1, hzero⟩⟩
    · rw [if_pos (by omega), copyTo_eq hnew, drop_zero, take_zero, hold]
      cases lookup with
      | atDefinition =>
        refine ⟨?_, ?_⟩
        · rintro ⟨q, hq, -⟩
          cases hq
        · rintro ⟨⟨h, -⟩, -⟩
          cases h
      | atInstantiation =>
        obtain ⟨d, hcopy, hd⟩ := strlcpyInt_spec rest hs hn
          (by rw [length_replicate]; omega : n < (replicate m none).length)
        obtain ⟨hdlength, hdfresh, hdtake⟩ := prefix_iff hs hn (Nat.pos_of_ne_zero hzero) (by omega) hd
        have hcopied : strlcpy .atInstantiation (replicate m none) (terminated s ++ rest) (n + 1) =
            some (d, toS32 s.length) := hcopy
        rw [hcopied, map_some, map_some, bind_some,
          appendTail_makes (d := d) rfl (by rw [hdlength]; exact hm) hc (hs.take n) htake hdfresh, hdtake]
        refine ⟨fun h => ⟨h.1, .inr ⟨hwritable, rfl, by rw [htake]; exact h.2⟩⟩, ?_⟩
        rintro ⟨hchild, h | ⟨-, -, hfits⟩⟩
        · exact absurd h hzero
        · rw [htake] at hfits
          exact ⟨hchild, hfits⟩

lemma dropSlash_noTerminator (hc : NoTerminator c) : NoTerminator (dropSlash c) := by
  rw [dropSlash]
  split_ifs
  · exact hc.tail
  · exact hc

lemma charAt_zero_eq_iff (hc : NoTerminator c) : charAt c 0 = NullTerminator ↔ c = [] := by
  cases c with
  | nil => exact ⟨fun _ => rfl, fun _ => rfl⟩
  | cons d c => exact ⟨fun h => absurd h (hc d mem_cons_self), fun h => by cases h⟩

lemma head_str (hp : p.string = some s) : p.str.head?.join = some (charAt s 0) := by
  obtain ⟨-, rest, hcells⟩ := cString_eq_some.1 hp
  rw [hcells]
  cases s <;> rfl

lemma appendsRight_iff (lookup : Lookup) (hp : p.string = some s) (hc : NoTerminator c) :
    AppendsRight lookup p s c ↔ AppendCondition lookup p s c := by
  obtain ⟨hs, -⟩ := cString_eq_some.1 hp
  have hstr : cString p.str = some s := hp
  rw [AppendsRight, AppendCondition, appendChild, head_str hp, bind_some]
  by_cases hnil : s = []
  · subst hnil
    have hfirst : charAt [] 0 = NullTerminator := rfl
    rw [if_pos rfl, hfirst, if_neg (fun h => h.1 rfl), if_neg (fun h => h.1 rfl), hstr, bind_some, if_pos length_nil,
      appended, if_pos rfl]
    exact initializeString_makes hp hc
  · have hfirst : charAt s 0 ≠ NullTerminator := mt (charAt_zero_eq_iff hs).1 hnil
    have hslash : (if charAt s 0 ≠ NullTerminator ∧ charAt c 0 = DirectorySeparator then c.tail else c) = dropSlash c := by
      rw [dropSlash]
      by_cases hleading : charAt c 0 = DirectorySeparator
      · rw [if_pos ⟨hfirst, hleading⟩, if_pos hleading]
      · rw [if_neg fun h => hleading h.2, if_neg hleading]
    have hc' := dropSlash_noTerminator hc
    rw [hslash, if_neg hnil, appended, if_neg hnil]
    by_cases hempty : dropSlash c = []
    · rw [if_pos ⟨hfirst, (charAt_zero_eq_iff hc').2 hempty⟩, if_pos hempty]
      exact ⟨fun _ => .inl hempty, fun _ => ⟨p, rfl, hp⟩⟩
    · have hlen : (if isSeparator (charAt s (s.length - 1)) = true then s.length - 1 else s.length) =
          (dropSeparator s).length := by
        rw [dropSeparator]
        by_cases hsep : isSeparator (charAt s (s.length - 1)) = true
        · rw [if_pos hsep, if_pos ⟨hnil, hsep⟩, length_dropLast]
        · rw [if_neg hsep, if_neg fun h => hsep h.2]
      have hmakes := appendParts_makes lookup hp (dropSeparator_length_le s) hc'
      rw [← dropSeparator_eq_take, length_eq_zero_iff] at hmakes
      rw [if_neg fun h => hempty ((charAt_zero_eq_iff hc').1 h.2), if_neg hempty, hstr, bind_some,
        if_neg (mt length_eq_zero_iff.1 hnil), hlen, hmakes]
      exact ⟨.inr, fun h => h.resolve_left hempty⟩

end Append

/-! ## `Combine` -/

section Combine

variable {lookup : Lookup} {p q parent child : Path} {s c : List Byte}

variable {buffer : List Cell}

lemma preallocate_of_le (hbuffer : p.buffer = .writable buffer) {n : ℕ} (hn : n ≤ buffer.length) :
    p.preallocate n = p := by
  rw [preallocate, writeBufferLength, hbuffer]
  exact if_neg (not_lt.2 hn)

lemma initializePath_atDefinition (hnorm : parent.normalized = true) (hparent : parent.string = some s) (p : Path) :
    p.initializePath .atDefinition parent = none := by
  obtain ⟨buffer, hbuffer, -, -⟩ := p.preallocate_spec (by omega : 0 < s.length + 1)
  have hlen : strlen parent.str = some s.length := by
    rw [strlen, show cString parent.str = some s from hparent]
    rfl
  rw [initializePath, hnorm, if_neg (by decide), hlen, bind_some, copyTo_eq hbuffer]
  rfl

/-- `Initialize` from a path makes its string if this fits an `int`, and otherwise not in a buffer without it. -/
lemma initializePath_spec (hnorm : parent.normalized = true) (hparent : parent.string = some s)
    (hbuffer : (p.preallocate (s.length + 1)).buffer = .writable buffer) (hle : s.length + 1 ≤ buffer.length) :
    (s.length + 1 < 2 ^ 31 → ∃ q, p.initializePath .atInstantiation parent = some (.ok (), q) ∧
      q.buffer = .writable (terminated s ++ buffer.drop (s.length + 1))) ∧
    (cString buffer ≠ some s → Makes (p.initializePath .atInstantiation parent) s → s.length + 1 < 2 ^ 31) := by
  obtain ⟨hs, rest, hcells⟩ := cString_eq_some.1 hparent
  have hlen : strlen parent.str = some s.length := by
    rw [strlen, show cString parent.str = some s from hparent]
    rfl
  obtain ⟨d, hcopy, hd⟩ := strlcpyInt_spec rest hs (le_refl s.length) (by omega : s.length < buffer.length)
  have hcopied : strlcpy .atInstantiation buffer (terminated s ++ rest) (s.length + 1) = some (d, toS32 s.length) := hcopy
  rw [initializePath, hnorm, if_neg (by decide), hlen, bind_some, copyTo_eq hbuffer, drop_zero, take_zero,
    hcells, hcopied, map_some, map_some]
  dsimp only
  refine ⟨fun hfits => ?_, fun hfresh hmakes => ?_⟩
  · rcases hd with ⟨-, rfl⟩ | ⟨hlarge, -⟩
    · rw [if_pos (toSizeT_toS32 (by omega)), take_length]
      exact ⟨_, rfl, rfl⟩
    · omega
  · by_cases hreturned : toSizeT (toS32 s.length) = s.length
    · rw [if_pos hreturned] at hmakes
      obtain ⟨q, hq, hstring⟩ := hmakes
      cases hq
      exact (copied_iff hs hfresh hd).1 hstring
    · rw [if_neg hreturned] at hmakes
      obtain ⟨q, hq, -⟩ := hmakes
      cases hq

lemma appendChildPath_makes (hs : s ≠ []) (hfits : s.length + 1 < 2 ^ 31) (hq : q.string = some s) (hwritable : q.Writable)
    (hchild : child.string = some c) : Makes (q.appendChildPath .atInstantiation child) (appended s c) ↔
      dropSlash c = [] ∨ Copies .atInstantiation (dropSlash c) := by
  have hc := (cString_eq_some.1 hchild).1
  have hright := appendsRight_iff .atInstantiation hq hc
  have hcopies : Copies .atInstantiation (dropSeparator s) := ⟨rfl, by have := dropSeparator_length_le s; omega⟩
  rw [appendChildPath, show cString child.str = some c from hchild, bind_some]
  rw [AppendsRight, AppendCondition, if_neg hs] at hright
  rw [hright]
  exact ⟨fun h => h.imp_right And.left, fun h => h.imp_right fun h' => ⟨h', .inr ⟨hwritable, hcopies⟩⟩⟩

/-- **When `Combine` is right**, for a parent that can be copied. -/
lemma combinesRight_iff (p : Path) (hparent : parent.string = some s) (hchild : child.string = some c)
    (hnorm : parent.normalized = true) (hnorm' : child.normalized = true) (hfits : s.length + 1 < 2 ^ 31) :
    CombinesRight lookup p parent child s c ↔ CombineCondition lookup s c := by
  have hs := (cString_eq_some.1 hparent).1
  have hparentLen : strlen parent.str = some s.length := by
    rw [strlen, show cString parent.str = some s from hparent]
    rfl
  have hchildLen : strlen child.str = some c.length := by
    rw [strlen, show cString child.str = some c from hchild]
    rfl
  rw [CombinesRight, CombineCondition, combine, hparentLen, bind_some, hchildLen, bind_some]
  cases lookup with
  | atDefinition =>
    rw [initializePath_atDefinition hnorm hparent]
    refine ⟨?_, fun h => by cases h.1⟩
    rintro ⟨⟨q, hq, -⟩, -⟩
    cases hq
  | atInstantiation =>
    obtain ⟨buffer, hbuffer, hle, -⟩ := p.preallocate_spec (by omega : 0 < s.length + c.length + 1)
    have hsame := preallocate_of_le hbuffer (by omega : s.length + 1 ≤ buffer.length)
    obtain ⟨q, hq, hqbuffer⟩ := (initializePath_spec (p := p.preallocate (s.length + c.length + 1)) hnorm hparent
      (by rw [hsame]; exact hbuffer) (by omega)).1 hfits
    obtain ⟨buffer0, hbuffer0, hle0, -⟩ := p.preallocate_spec (by omega : 0 < s.length + 1)
    obtain ⟨q0, hq0, hqbuffer0⟩ := (initializePath_spec hnorm hparent hbuffer0 hle0).1 hfits
    have hqstring : q.string = some s := by
      rw [string, str, hqbuffer]
      exact cString_terminated hs _
    have hqstring0 : q0.string = some s := by
      rw [string, str, hqbuffer0]
      exact cString_terminated hs _
    rw [hq, bind_some]
    dsimp only
    rw [head_str hqstring, bind_some]
    by_cases hnil : s = []
    · subst hnil
      have hc := (cString_eq_some.1 hchild).1
      have hlength : c.length + 1 ≤ (terminated [] ++ buffer.drop 1).length := by
        rw [length_append, terminated_length, length_drop]
        rw [length_nil] at hle ⊢
        omega
      have hbuffer' : (q.preallocate (c.length + 1)).buffer = .writable (terminated [] ++ buffer.drop 1) := by
        rw [preallocate_of_le hqbuffer hlength]
        exact hqbuffer
      obtain ⟨hcopies, hmakes⟩ := initializePath_spec hnorm' hchild hbuffer' hlength
      have happend := appendsRight_iff .atInstantiation hqstring0 hc
      rw [AppendsRight, AppendCondition, if_pos rfl] at happend
      rw [if_pos (show charAt [] 0 = NullTerminator from rfl), appended, if_pos rfl]
      refine ⟨fun h => ⟨rfl, rfl, ?_⟩, fun h => ⟨?_, q0, hq0, ?_⟩⟩
      · by_cases hempty : c = []
        · rw [hempty]
          decide
        · refine hmakes ?_ h.1
          rw [cString_terminated hs]
          exact fun heq => hempty (some.inj heq).symm
      · obtain ⟨q', hq', hqbuffer'⟩ := hcopies h.2.2
        refine ⟨q', hq', ?_⟩
        rw [string, str, hqbuffer']
        exact cString_terminated hc _
      · rw [appendChildPath, show cString child.str = some c from hchild, bind_some]
        exact happend.2 (.inr h.2)
    · rw [if_neg (mt (charAt_zero_eq_iff hs).1 hnil), if_neg hnil,
        appendChildPath_makes hnil hfits hqstring ⟨_, hqbuffer⟩ hchild]
      refine ⟨fun h => ⟨rfl, h.1⟩, fun h => ⟨h.2, q0, hq0, ?_⟩⟩
      exact (appendChildPath_makes hnil hfits hqstring0 ⟨_, hqbuffer0⟩ hchild).2 h.2

end Combine

end Path

end Voltemu.FileSys
