import Voltemu.FileSys.Vfs

/-!
# Virtual files denote slices

A `View` is a nesting of virtual files.  It denotes a list of bytes, and builds a file.

* `Slices`: a file reads the bytes that it denotes at every offset up to their end.  Every kind of file keeps this.
* `ReadableAt`: the reads beyond the end that still return nothing.  A concatenation checks its end; the other files subtract
  the offset from their size, which wraps.
* **`view_reads_slice`**: a read delivers the part of the bytes that it should, exactly if it is one of these.
-/

namespace Voltemu.FileSys

open List

/-! ## Views -/

/-- A nesting of virtual files. -/
inductive View
  | vector (data : List Byte)
  | static (value : Byte) (size : ℕ)
  | window (view : View) (size offset : ℕ)
  | joined (views : List View)
  | filled (fillerByte : Byte) (offsets : List ℕ) (views : List View)

/-- The bytes of files at given offsets, with filler in the gaps. -/
def filledBytes (fillerByte : Byte) : (lastOffset : ℕ) → List (ℕ × List Byte) → List Byte
  | _, [] => []
  | lastOffset, (offset, bytes) :: files =>
      replicate (offset - lastOffset) fillerByte ++ bytes ++ filledBytes fillerByte (offset + bytes.length) files

/-- The offsets ascend, and the files at them do not overlap. -/
def Ascending : (lastOffset : ℕ) → List (ℕ × List Byte) → Prop
  | lastOffset, [] => lastOffset < 2 ^ 64
  | lastOffset, (offset, bytes) :: files => lastOffset ≤ offset ∧ Ascending (offset + bytes.length) files

namespace View

mutual

/-- **The bytes that a view denotes.** -/
def bytes : View → List Byte
  | .vector data => data
  | .static value size => replicate size value
  | .window view size offset => (view.bytes.drop offset).take size
  | .joined views => (bytesOf views).flatten
  | .filled fillerByte offsets views => filledBytes fillerByte 0 (offsets.zip (bytesOf views))

def bytesOf : List View → List (List Byte)
  | [] => []
  | view :: views => view.bytes :: bytesOf views

end

mutual

/-- The file that a view builds, with `none` if it is or uses a null pointer. -/
def file : View → Option VfsFile
  | .vector data => some (vectorVfsFile data)
  | .static value size => some (staticVfsFile value size)
  | .window view size offset => view.file.map fun file => offsetVfsFile file size offset
  | .joined views => (filesOf views).bind makeConcatenatedFile
  | .filled fillerByte offsets views =>
      (filesOf views).bind fun files => makeFilledConcatenatedFile fillerByte (offsets.zip files)

def filesOf : List View → Option (List VfsFile)
  | [] => some []
  | view :: views => view.file.bind fun file => (filesOf views).map (file :: ·)

end

mutual

/-- Windows are inside of their file, offsets ascend without overlap, and sizes are 64 bit numbers. -/
def WellFormed : View → Prop
  | .vector data => data.length < 2 ^ 64
  | .static _ size => size < 2 ^ 64
  | .window view size offset => view.WellFormed ∧ offset + size ≤ view.bytes.length
  | .joined views => WellFormedAll views ∧ (bytesOf views).flatten.length < 2 ^ 64
  | .filled _ offsets views =>
      WellFormedAll views ∧ offsets.length = views.length ∧ Ascending 0 (offsets.zip (bytesOf views))

def WellFormedAll : List View → Prop
  | [] => True
  | view :: views => view.WellFormed ∧ WellFormedAll views

end

mutual

/-- No list of files is empty, and a list of one file puts it at the start. -/
def Direct : View → Prop
  | .vector _ => True
  | .static _ _ => True
  | .window view _ _ => view.Direct
  | .joined views => DirectAll views ∧ views ≠ []
  | .filled _ offsets views => DirectAll views ∧ views ≠ [] ∧ (views.length = 1 → offsets = [0])

def DirectAll : List View → Prop
  | [] => True
  | view :: views => view.Direct ∧ DirectAll views

end

mutual

/-- **The reads that are right.**  A read of no bytes is right, and so is one that does not start behind the end.  Behind
the end, a concatenation of several files returns nothing; a window passes the read on to its file, which has to end there. -/
def ReadableAt : View → (length offset : ℕ) → Prop
  | .vector data, length, offset => length = 0 ∨ offset ≤ data.length
  | .static _ size, length, offset => length = 0 ∨ offset ≤ size
  | .window view size start, length, offset =>
      length = 0 ∨ offset ≤ size ∨ (view.bytes.length ≤ (start + offset) % 2 ^ 64 ∧
        view.ReadableAt (min length (2 ^ 64 + size - offset)) ((start + offset) % 2 ^ 64))
  | .joined views, length, offset => ReadableAlone views length offset
  | .filled _ _ views, length, offset => ReadableAlone views length offset

/-- A list of one file is that file. -/
def ReadableAlone : List View → (length offset : ℕ) → Prop
  | [], _, _ => True
  | view :: views, length, offset => views = [] → view.ReadableAt length offset

end

/-- **What a read has to do**: the size of the file is the number of its bytes, and the read delivers the part of them that is
asked for.  It returns the number of bytes that it delivers. -/
def ReadsSlice (view : View) (length offset : ℕ) : Prop :=
  ∃ file, view.file = some file ∧ file.getSize = view.bytes.length ∧
    file.read length offset = some ((view.bytes.drop offset).take length)

end View

/-! ## Arithmetic -/

section Arithmetic

variable {a b : ℕ}

lemma subU64_of_le (hb : b ≤ a) (ha : a < 2 ^ 64) : subU64 a b = a - b := by
  rw [subU64]
  omega

lemma subU64_of_lt (hab : a < b) (hb : b < 2 ^ 64) : subU64 a b = 2 ^ 64 + a - b := by
  rw [subU64]
  omega

lemma addU64_of_lt (h : a + b < 2 ^ 64) : addU64 a b = a + b := Nat.mod_eq_of_lt h

end Arithmetic

/-! ## Files that read their bytes -/

/-- **A file reads its bytes**, at every offset up to their end. -/
structure Slices (file : VfsFile) (bytes : List Byte) : Prop where
  size : file.getSize = bytes.length
  small : bytes.length < 2 ^ 64
  read : ∀ length offset : ℕ, length < 2 ^ 64 → offset ≤ bytes.length →
    file.read length offset = some ((bytes.drop offset).take length)

section Files

variable {data : List Byte} {file : VfsFile} {bytes : List Byte}

lemma take_min_length (l : List Byte) (n : ℕ) : l.take (min n l.length) = l.take n := by
  rcases Nat.le_total n l.length with h | h
  · rw [Nat.min_eq_left h]
  · rw [Nat.min_eq_right h, take_length, take_of_length_le h]

lemma vectorVfsFile_slices (hdata : data.length < 2 ^ 64) : Slices (vectorVfsFile data) data where
  size := rfl
  small := hdata
  read := by
    intro length offset _ hoffset
    have hmin : min length (subU64 data.length offset) = min length (data.drop offset).length := by
      rw [subU64_of_le hoffset hdata, length_drop]
    show memcpy data offset _ = _
    rw [hmin, memcpy]
    by_cases hzero : min length (data.drop offset).length = 0
    · rw [if_pos hzero, ← take_min_length, hzero, take_zero]
    · have hin : offset + min length (data.drop offset).length ≤ data.length := by
        rw [length_drop]
        omega
      rw [if_neg hzero, if_pos hin, take_min_length]

lemma staticVfsFile_slices (value : Byte) {size : ℕ} (hsize : size < 2 ^ 64) :
    Slices (staticVfsFile value size) (replicate size value) where
  size := length_replicate.symm
  small := by simpa using hsize
  read := by
    intro length offset _ hoffset
    rw [length_replicate] at hoffset
    simp only [staticVfsFile, subU64_of_le hoffset hsize, drop_replicate, take_replicate]

lemma offsetVfsFile_slices (h : Slices file bytes) {size offset : ℕ} (hwindow : offset + size ≤ bytes.length) :
    Slices (offsetVfsFile file size offset) ((bytes.drop offset).take size) := by
  have hlength : ((bytes.drop offset).take size).length = size := by
    rw [length_take, length_drop]
    omega
  have hsmall := h.small
  refine ⟨hlength.symm, by omega, ?_⟩
  intro length rOffset hlen hoffset
  rw [hlength] at hoffset
  have htrim : trimToFit size length rOffset = min length (size - rOffset) := by
    rw [trimToFit, subU64_of_le hoffset (by omega)]
  have hadd : addU64 offset rOffset = offset + rOffset := addU64_of_lt (by omega)
  have hread := h.read (min length (size - rOffset)) (offset + rOffset) (by omega) (by omega)
  show file.read _ _ = _
  rw [htrim, hadd, hread, drop_take, drop_drop, take_take]

end Files

/-! ## Concatenations -/

/-- A concatenation map, from an offset on, has no gaps. -/
inductive Continuous : List ConcatenationEntry → (start : ℕ) → List Byte → Prop
  | nil (start : ℕ) : Continuous [] start []
  | cons {file : VfsFile} {bytes : List Byte} {rest : List ConcatenationEntry} {start : ℕ} {more : List Byte}
      (hfile : Slices file bytes) (hrest : Continuous rest (start + bytes.length) more) :
      Continuous (⟨start, file⟩ :: rest) start (bytes ++ more)

section Concatenation

variable {map : List ConcatenationEntry} {start : ℕ} {bytes : List Byte}

lemma concatenatedReadLoop_zero (map : List ConcatenationEntry) (curOffset : ℕ) :
    concatenatedReadLoop map 0 curOffset = some [] := by
  cases map <;> simp [concatenatedReadLoop]

section

variable (h : Continuous map start bytes)
include h

/-- **The loop reads on** from an offset that is in the first file, or behind all of them. -/
lemma concatenatedReadLoop_spec : ∀ curLength curOffset : ℕ,
    curLength < 2 ^ 64 → curOffset < 2 ^ 64 → start + bytes.length < 2 ^ 64 → start ≤ curOffset →
    (∀ entry ∈ map.head?, curOffset ≤ start + entry.file.getSize ∨ map.tail = []) →
    concatenatedReadLoop map curLength curOffset = some ((bytes.drop (curOffset - start)).take curLength) := by
  induction h with
  | nil start =>
    intro curLength curOffset _ _ _ _ _
    simp [concatenatedReadLoop]
  | @cons file bytes rest start more hfile hrest ih =>
    intro curLength curOffset hlength hoffset hsmall hstart hfirst
    rw [length_append] at hsmall
    have hsize := hfile.size
    rw [concatenatedReadLoop]
    by_cases hzero : curLength = 0
    · rw [if_pos hzero, hzero, take_zero]
    rw [if_neg hzero]
    dsimp only
    rw [hsize, addU64_of_lt (by omega)]
    by_cases hbehind : curOffset > start + bytes.length
    · -- Behind the last file.
      have hnil : rest = [] := by
        rcases hfirst _ rfl with hle | hnil
        · rw [hsize] at hle
          omega
        · exact hnil
      subst hnil
      cases hrest
      rw [if_pos hbehind, append_nil, drop_eq_nil_of_le (by omega), take_nil]
    · rw [if_neg hbehind, subU64_of_le hstart hoffset, subU64_of_le (by omega) hfile.small]
      rw [hfile.read _ (curOffset - start) (by omega) (by omega), Option.bind_some]
      have hactual : ((bytes.drop (curOffset - start)).take (min curLength (bytes.length - (curOffset - start)))).length =
          min curLength (bytes.length - (curOffset - start)) := by
        rw [length_take, length_drop]
        omega
      have htake : (bytes.drop (curOffset - start)).take (min curLength (bytes.length - (curOffset - start))) =
          (bytes.drop (curOffset - start)).take curLength := by
        rw [← length_drop, take_min_length]
      have hdrop : (bytes ++ more).drop (curOffset - start) = bytes.drop (curOffset - start) ++ more :=
        drop_append_of_le_length (by omega)
      rw [hactual, if_neg (lt_irrefl _), htake, hdrop, take_append, length_drop]
      -- The rest is read from the start of the next file, if there is a rest.
      by_cases hdone : curLength ≤ bytes.length - (curOffset - start)
      · rw [Nat.min_eq_left hdone, subU64_of_le (le_refl _) hlength, Nat.sub_self, concatenatedReadLoop_zero,
          Nat.sub_eq_zero_of_le hdone, take_zero]
        rfl
      · have hnext : curOffset + (bytes.length - (curOffset - start)) = start + bytes.length := by omega
        rw [Nat.min_eq_right (by omega), subU64_of_le (by omega) hlength, addU64_of_lt (by omega), hnext,
          ih _ _ (by omega) (by omega) (by omega) (le_refl _) (fun _ _ => .inl (Nat.le_add_right _ _)), Nat.sub_self,
          drop_zero]
        rfl

variable {entry : ConcatenationEntry}

lemma Continuous.head_offset (hentry : entry ∈ map.head?) : entry.offset = start := by
  cases h with
  | nil => cases hentry
  | cons hfile hrest =>
    cases hentry
    rfl

/-- **A concatenation reads its bytes**, also behind their end. -/
lemma concatenatedRead_spec (hsmall : start + bytes.length < 2 ^ 64) {length offset : ℕ}
    (hlength : length < 2 ^ 64) (hoffset : offset < 2 ^ 64) (hstart : start ≤ offset) :
    concatenatedReadLoop (entriesAt map offset) length offset = some ((bytes.drop (offset - start)).take length) := by
  induction h with
  | nil start => simp [entriesAt, concatenatedReadLoop]
  | @cons file bytes rest start more hfile hrest ih =>
    have hsize := hfile.size
    rw [length_append] at hsmall
    by_cases hnext : ∃ entry ∈ rest.head?, entry.offset ≤ offset
    · -- The search goes on behind the first entry.
      obtain ⟨entry, hentry, hle⟩ := hnext
      have hfirst := hrest.head_offset hentry
      obtain ⟨more', rfl⟩ : ∃ more', rest = entry :: more' := by
        rcases rest with _ | ⟨e, more'⟩
        · cases hentry
        · cases hentry
          exact ⟨more', rfl⟩
      have hentries : entriesAt (⟨start, file⟩ :: entry :: more') offset = entriesAt (entry :: more') offset := by
        rw [entriesAt, entriesAt, takeWhile_cons_of_pos (by simpa using hstart),
          takeWhile_cons_of_pos (by simpa using hle)]
        simp
      have hsplit : offset - start = bytes.length + (offset - (start + bytes.length)) := by omega
      rw [hentries, ih (by omega) (by omega), hsplit, drop_length_add_append]
    · have hentries : entriesAt (⟨start, file⟩ :: rest) offset = ⟨start, file⟩ :: rest := by
        rw [entriesAt, takeWhile_cons_of_pos (by simpa using hstart)]
        rcases rest with _ | ⟨entry, more'⟩
        · rfl
        · have hnot : ¬ entry.offset ≤ offset := fun hle => hnext ⟨entry, rfl, hle⟩
          rw [takeWhile_cons_of_neg (by simpa using hnot)]
          rfl
      rw [hentries]
      refine concatenatedReadLoop_spec (.cons hfile hrest) _ _ hlength hoffset (by simpa using hsmall) hstart ?_
      rintro _ ⟨⟩
      rcases rest with _ | ⟨entry, more'⟩
      · exact .inr rfl
      · left
        have hfirst : entry.offset = start + bytes.length := hrest.head_offset rfl
        have hnot : ¬ entry.offset ≤ offset := fun hle => hnext ⟨entry, rfl, hle⟩
        rw [hsize]
        omega

lemma Continuous.getLast_end (hsmall : start + bytes.length < 2 ^ 64) (hentry : map.getLast? = some entry) :
    addU64 entry.offset entry.file.getSize = start + bytes.length := by
  induction h with
  | nil => cases hentry
  | @cons file bytes rest start more hfile hrest ih =>
    rw [length_append] at hsmall
    rcases rest with _ | ⟨next, rest⟩
    · cases hentry
      cases hrest
      show addU64 start file.getSize = _
      rw [hfile.size, append_nil, addU64_of_lt (by omega)]
    · rw [getLast?_cons_cons] at hentry
      rw [ih (by omega) hentry, length_append, Nat.add_assoc]

end

lemma Continuous.getSize (h : Continuous map 0 bytes) (hsmall : bytes.length < 2 ^ 64) :
    (concatenatedVfsFile map).getSize = bytes.length := by
  rw [concatenatedVfsFile]
  rcases hlast : map.getLast? with _ | entry
  · rw [getLast?_eq_none_iff] at hlast
    subst hlast
    cases h
    rfl
  · show addU64 entry.offset entry.file.getSize = bytes.length
    rw [h.getLast_end (by omega) hlast, Nat.zero_add]

lemma Continuous.read (h : Continuous map 0 bytes) (hsmall : bytes.length < 2 ^ 64) {length offset : ℕ}
    (hlength : length < 2 ^ 64) (hoffset : offset < 2 ^ 64) :
    (concatenatedVfsFile map).read length offset = some ((bytes.drop offset).take length) := by
  have hloop := concatenatedRead_spec h (by omega) hlength hoffset (Nat.zero_le _)
  rw [Nat.sub_zero] at hloop
  rw [concatenatedVfsFile]
  split_ifs with hempty
  · rw [List.isEmpty_iff] at hempty
    subst hempty
    cases h
    simp
  · exact hloop

variable {files : List VfsFile} {bytess : List (List Byte)}

lemma concatenationMap_continuous
    (h : List.Forall₂ Slices files bytess) : ∀ start, start + bytess.flatten.length < 2 ^ 64 →
      Continuous (concatenationMap start files) start bytess.flatten := by
  induction h with
  | nil => exact fun start _ => .nil start
  | @cons file bytes files bytess hfile _ ih =>
    intro start hsmall
    rw [flatten_cons, length_append] at hsmall
    rw [concatenationMap, flatten_cons, hfile.size, addU64_of_lt (by omega)]
    exact .cons hfile (ih _ (by omega))

lemma Ascending.lt {start : ℕ} {files : List (ℕ × List Byte)} (h : Ascending start files) : start < 2 ^ 64 := by
  induction files generalizing start with
  | nil => exact h
  | cons file files ih =>
    have := ih h.2
    have := h.1
    omega

lemma Ascending.length_lt (fillerByte : Byte) {start : ℕ} {files : List (ℕ × List Byte)} (h : Ascending start files) :
    start + (filledBytes fillerByte start files).length < 2 ^ 64 := by
  induction files generalizing start with
  | nil => exact h
  | cons file files ih =>
    obtain ⟨offset, bytes⟩ := file
    have hle : start ≤ offset := h.1
    have hrest := ih h.2
    rw [filledBytes, length_append, length_append, length_replicate]
    omega

lemma filledConcatenationMap_continuous (fillerByte : Byte)
    (h : List.Forall₂ Slices files bytess) : ∀ (offsets : List ℕ) (start : ℕ), Ascending start (offsets.zip bytess) →
      Continuous (filledConcatenationMap fillerByte start (offsets.zip files)) start
        (filledBytes fillerByte start (offsets.zip bytess)) := by
  induction h with
  | nil =>
    intro offsets start _
    rw [zip_nil_right, zip_nil_right]
    exact .nil start
  | @cons file bytes files bytess hfile _ ih =>
    intro offsets start hascending
    cases offsets with
    | nil => exact .nil start
    | cons offset offsets =>
      rw [zip_cons_cons] at hascending
      have hle : start ≤ offset := hascending.1
      have hend := hascending.2.lt
      have hrest := Continuous.cons hfile (ih offsets _ hascending.2)
      rw [zip_cons_cons, zip_cons_cons, filledConcatenationMap, filledBytes, hfile.size, addU64_of_lt hend, append_assoc]
      by_cases hgap : offset > start
      · -- The gap is filled.
        have hfiller := staticVfsFile_slices fillerByte (by omega : offset - start < 2 ^ 64)
        rw [if_pos hgap, subU64_of_le hle (by omega)]
        refine .cons hfiller ?_
        rw [length_replicate, show start + (offset - start) = offset by omega]
        exact hrest
      · obtain rfl : offset = start := by omega
        rw [if_neg hgap, Nat.sub_self]
        exact hrest

end Concatenation

/-! ## Views -/

namespace View

theorem induction {P : View → Prop} (hvector : ∀ data, P (.vector data)) (hstatic : ∀ value size, P (.static value size))
    (hwindow : ∀ view size offset, P view → P (.window view size offset))
    (hjoined : ∀ views, (∀ view ∈ views, P view) → P (.joined views))
    (hfilled : ∀ fillerByte offsets views, (∀ view ∈ views, P view) → P (.filled fillerByte offsets views))
    (view : View) : P view := by
  refine @View.rec P (fun views => ∀ view ∈ views, P view) hvector hstatic hwindow hjoined hfilled ?_ ?_ view
  · exact fun view hmem => absurd hmem not_mem_nil
  · intro view views hview hviews other hmem
    rcases mem_cons.1 hmem with rfl | hmem
    · exact hview
    · exact hviews other hmem

lemma wellFormedAll_iff (views : List View) : WellFormedAll views ↔ ∀ view ∈ views, view.WellFormed := by
  induction views with
  | nil => simp [WellFormedAll]
  | cons view views ih => simp [WellFormedAll, ih]

lemma directAll_iff (views : List View) : DirectAll views ↔ ∀ view ∈ views, view.Direct := by
  induction views with
  | nil => simp [DirectAll]
  | cons view views ih => simp [DirectAll, ih]

lemma readableAt_zero (view : View) : ∀ offset, view.ReadableAt 0 offset := by
  have halone : ∀ views : List View, (∀ view ∈ views, ∀ offset, view.ReadableAt 0 offset) →
      ∀ offset, ReadableAlone views 0 offset := by
    intro views h offset
    cases views with
    | nil => trivial
    | cons view views => exact fun _ => h view (by simp) offset
  induction view using View.induction with
  | hvector data => exact fun _ => .inl rfl
  | hstatic value size => exact fun _ => .inl rfl
  | hwindow view size offset ih => exact fun _ => .inl rfl
  | hjoined views ih => exact halone views ih
  | hfilled fillerByte offsets views ih => exact halone views ih

end View

/-- **A view is described**: its file reads its bytes up to their end, and the reads behind it that return nothing are the ones
that are readable. -/
structure Described (view : View) (file : VfsFile) : Prop where
  built : view.file = some file
  slices : Slices file view.bytes
  readable : ∀ length offset : ℕ, length < 2 ^ 64 → offset < 2 ^ 64 →
    (file.read length offset = some ((view.bytes.drop offset).take length) ↔ view.ReadableAt length offset)

namespace View

variable {view : View} {file : VfsFile}

lemma described_vector {data : List Byte} (hdata : data.length < 2 ^ 64) :
    Described (.vector data) (vectorVfsFile data) := by
  have hslices := vectorVfsFile_slices hdata
  refine ⟨rfl, hslices, ?_⟩
  intro length offset hlength hoffset
  simp only [View.bytes, ReadableAt]
  by_cases hin : offset ≤ data.length
  · exact iff_of_true (hslices.read length offset hlength hin) (.inr hin)
  -- The difference wraps, so that every byte is copied from behind the end.
  have hwrap : subU64 data.length offset = 2 ^ 64 + data.length - offset := subU64_of_lt (by omega) hoffset
  have hread : (vectorVfsFile data).read length offset = memcpy data offset (min length (2 ^ 64 + data.length - offset)) := by
    rw [← hwrap]
    rfl
  have hnil : data.drop offset = [] := drop_eq_nil_of_le (by omega)
  rw [hread, memcpy, hnil, take_nil, take_nil]
  by_cases hzero : length = 0
  · rw [if_pos (by omega)]
    exact iff_of_true rfl (.inl hzero)
  · rw [if_neg (by omega), if_neg (by omega)]
    exact iff_of_false (Option.some_ne_none _).symm fun h => h.elim hzero hin

lemma described_static (value : Byte) {size : ℕ} (hsize : size < 2 ^ 64) :
    Described (.static value size) (staticVfsFile value size) := by
  have hslices := staticVfsFile_slices value hsize
  refine ⟨rfl, hslices, ?_⟩
  intro length offset hlength hoffset
  simp only [View.bytes, ReadableAt]
  by_cases hin : offset ≤ size
  · exact iff_of_true (hslices.read length offset hlength (by simpa using hin)) (.inr hin)
  have hread : (staticVfsFile value size).read length offset =
      some (replicate (min length (2 ^ 64 + size - offset)) value) := by
    rw [← subU64_of_lt (by omega) hoffset]
    rfl
  rw [hread, drop_eq_nil_of_le (by simp; omega), take_nil, Option.some_inj, replicate_eq_nil_iff]
  by_cases hzero : length = 0
  · exact iff_of_true (by omega) (.inl hzero)
  · exact iff_of_false (by omega) fun h => h.elim hzero hin

lemma described_window (h : Described view file) {size start : ℕ} (hwindow : start + size ≤ view.bytes.length) :
    Described (.window view size start) (offsetVfsFile file size start) := by
  have hslices := offsetVfsFile_slices h.slices hwindow
  refine ⟨by rw [View.file, h.built]; rfl, hslices, ?_⟩
  intro length offset hlength hoffset
  have hbytes : ((view.bytes.drop start).take size).length = size := by
    rw [length_take, length_drop]
    omega
  simp only [View.bytes, ReadableAt]
  by_cases hin : offset ≤ size
  · exact iff_of_true (hslices.read length offset hlength (by omega)) (.inr (.inl hin))
  have hread : (offsetVfsFile file size start).read length offset =
      file.read (min length (2 ^ 64 + size - offset)) ((start + offset) % 2 ^ 64) := by
    rw [← subU64_of_lt (by omega) hoffset]
    rfl
  rw [hread, drop_eq_nil_of_le (by omega), take_nil]
  have hposition : (start + offset) % 2 ^ 64 < 2 ^ 64 := Nat.mod_lt _ (by decide)
  have hreadable := h.readable (min length (2 ^ 64 + size - offset)) _ (by omega) hposition
  generalize (start + offset) % 2 ^ 64 = position at *
  by_cases hzero : length = 0
  · subst hzero
    rw [Nat.zero_min, take_zero] at hreadable
    rw [Nat.zero_min]
    exact iff_of_true (hreadable.2 (readableAt_zero view position)) (.inl rfl)
  by_cases hend : view.bytes.length ≤ position
  · rw [drop_eq_nil_of_le hend, take_nil] at hreadable
    rw [hreadable]
    simp [hzero, hin, hend]
  · have hinside := h.slices.read (min length (2 ^ 64 + size - offset)) position (by omega) (by omega)
    rw [hinside]
    refine iff_of_false ?_ ?_
    · rw [Option.some_inj, ← length_eq_zero_iff, length_take, length_drop]
      omega
    · rintro (h | h | h)
      · exact hzero h
      · exact hin h
      · exact hend h.1

variable {views : List View} {files : List VfsFile}

lemma filesOf_described (h : ∀ view ∈ views, ∃ file, Described view file) :
    ∃ files, filesOf views = some files ∧ List.Forall₂ Described views files := by
  induction views with
  | nil => exact ⟨[], rfl, .nil⟩
  | cons view views ih =>
    obtain ⟨file, hfile⟩ := h view (by simp)
    obtain ⟨files, hfiles, hall⟩ := ih fun other hmem => h other (mem_cons_of_mem _ hmem)
    refine ⟨file :: files, ?_, .cons hfile hall⟩
    rw [filesOf, hfile.built, hfiles]
    rfl

lemma slicesOf (h : List.Forall₂ Described views files) : List.Forall₂ Slices files (bytesOf views) := by
  induction h with
  | nil => exact .nil
  | cons hfile _ ih => exact .cons hfile.slices ih

lemma described_concatenated (views : List View) {map : List ConcatenationEntry}
    (hbuilt : view.file = some (concatenatedVfsFile map)) (hmap : Continuous map 0 view.bytes)
    (hsmall : view.bytes.length < 2 ^ 64) (hviews : 2 ≤ views.length)
    (hreadable : ∀ length offset, view.ReadableAt length offset ↔ ReadableAlone views length offset) :
    Described view (concatenatedVfsFile map) := by
  refine ⟨hbuilt, ⟨hmap.getSize hsmall, hsmall, fun _ _ hlength hoffset => hmap.read hsmall hlength (by omega)⟩, ?_⟩
  intro length offset hlength hoffset
  rw [hreadable]
  refine iff_of_true (hmap.read hsmall hlength hoffset) ?_
  rcases views with _ | ⟨first, _ | ⟨second, views⟩⟩
  · trivial
  · simp at hviews
  · exact fun h => absurd h (cons_ne_nil _ _)

lemma described_joined (h : List.Forall₂ Described views files)
    (hfiles : filesOf views = some files) (hne : views ≠ []) (hsmall : (bytesOf views).flatten.length < 2 ^ 64) :
    ∃ file, Described (.joined views) file := by
  have hmap := concatenationMap_continuous (slicesOf h) 0 (by omega)
  cases h with
  | nil => exact absurd rfl hne
  | @cons view file views files hview hrest =>
    cases hrest with
    | nil =>
      -- One file stands for itself.
      refine ⟨file, ?_, ?_, ?_⟩
      · rw [View.file, hfiles]
        rfl
      · simpa [View.bytes, bytesOf] using hview.slices
      · simpa [View.bytes, bytesOf, ReadableAt, ReadableAlone] using hview.readable
    | cons hnext hrest =>
      refine ⟨_, described_concatenated (view :: _ :: _) ?_ hmap hsmall (by simp) (fun _ _ => Iff.rfl)⟩
      rw [View.file, hfiles]
      rfl

lemma described_filled (fillerByte : Byte) {offsets : List ℕ}
    (h : List.Forall₂ Described views files) (hfiles : filesOf views = some files) (hne : views ≠ [])
    (hlength : offsets.length = views.length) (hascending : Ascending 0 (offsets.zip (bytesOf views)))
    (hsingle : views.length = 1 → offsets = [0]) : ∃ file, Described (.filled fillerByte offsets views) file := by
  have hmap := filledConcatenationMap_continuous fillerByte (slicesOf h) offsets 0 hascending
  have hsmall := hascending.length_lt fillerByte
  rw [Nat.zero_add] at hsmall
  cases h with
  | nil => exact absurd rfl hne
  | @cons view file views files hview hrest =>
    cases hrest with
    | nil =>
      have hzero := hsingle rfl
      subst hzero
      refine ⟨file, ?_, ?_, ?_⟩
      · rw [View.file, hfiles]
        rfl
      · simpa [View.bytes, bytesOf, filledBytes] using hview.slices
      · simpa [View.bytes, bytesOf, filledBytes, ReadableAt, ReadableAlone] using hview.readable
    | cons hnext hrest =>
      rcases offsets with _ | ⟨first, _ | ⟨second, offsets⟩⟩
      · simp at hlength
      · simp at hlength
      · refine ⟨_, described_concatenated (view :: _ :: _) ?_ hmap hsmall (by simp) (fun _ _ => Iff.rfl)⟩
        rw [View.file, hfiles]
        rfl

lemma described (view : View) : view.WellFormed → view.Direct → ∃ file, Described view file := by
  induction view using View.induction with
  | hvector data => exact fun hwf _ => ⟨_, described_vector hwf⟩
  | hstatic value size => exact fun hwf _ => ⟨_, described_static value hwf⟩
  | hwindow view size offset ih =>
    intro hwf hdirect
    obtain ⟨file, hfile⟩ := ih hwf.1 hdirect
    exact ⟨_, described_window hfile hwf.2⟩
  | hjoined views ih =>
    intro hwf hdirect
    obtain ⟨files, hfiles, hall⟩ := filesOf_described fun view hmem =>
      ih view hmem ((wellFormedAll_iff views).1 hwf.1 view hmem) ((directAll_iff views).1 hdirect.1 view hmem)
    exact described_joined hall hfiles hdirect.2 hwf.2
  | hfilled fillerByte offsets views ih =>
    intro hwf hdirect
    obtain ⟨files, hfiles, hall⟩ := filesOf_described fun view hmem =>
      ih view hmem ((wellFormedAll_iff views).1 hwf.1 view hmem) ((directAll_iff views).1 hdirect.1 view hmem)
    exact described_filled fillerByte hall hfiles hdirect.2.1 hwf.2.1 hwf.2.2 hdirect.2.2

/-- The views inside of a view are direct. -/
def InnerDirect : View → Prop
  | .vector _ => True
  | .static _ _ => True
  | .window view _ _ => view.Direct
  | .joined views => DirectAll views
  | .filled _ _ views => DirectAll views

lemma described_readsSlice (h : Described view file) {length offset : ℕ} (hlength : length < 2 ^ 64)
    (hoffset : offset < 2 ^ 64) : view.ReadsSlice length offset ↔ view.ReadableAt length offset := by
  rw [← h.readable length offset hlength hoffset]
  constructor
  · rintro ⟨other, hother, -, hread⟩
    rw [h.built] at hother
    cases hother
    exact hread
  · intro hread
    exact ⟨file, h.built, h.slices.size, hread⟩

/-- No file is built from an empty list, and one file that does not come first is built without the filler before it. -/
lemma not_readsSlice_of_not_direct (hwf : view.WellFormed) (hinner : view.InnerDirect) (hdirect : ¬ view.Direct)
    (length offset : ℕ) : ¬ view.ReadsSlice length offset := by
  rintro ⟨file, hfile, hsize, -⟩
  cases view with
  | vector data => exact hdirect trivial
  | static value size => exact hdirect trivial
  | window view size start => exact hdirect hinner
  | joined views =>
    cases views with
    | nil => cases hfile
    | cons view views => exact hdirect ⟨hinner, cons_ne_nil _ _⟩
  | filled fillerByte offsets views =>
    rcases views with _ | ⟨view, _ | ⟨other, views⟩⟩
    · rw [View.file, filesOf, Option.bind_some, zip_nil_right] at hfile
      cases hfile
    · obtain ⟨start, rfl⟩ := length_eq_one_iff.1 hwf.2.1
      obtain ⟨inner, hinner'⟩ := described view hwf.1.1 hinner.1
      have hstart : start ≠ 0 := fun hzero => hdirect ⟨hinner, cons_ne_nil _ _, fun _ => by rw [hzero]⟩
      rw [View.file, filesOf, hinner'.built] at hfile
      cases hfile
      rw [hinner'.slices.size] at hsize
      simp [View.bytes, bytesOf, filledBytes] at hsize
      exact hstart hsize
    · exact hdirect ⟨hinner, cons_ne_nil _ _, fun h => absurd h (by simp)⟩

/-- **Views denote slices**: a read delivers the part of the bytes that it should if no list of files is empty, a list of one
file puts it at the start, and the read does not start behind the end of a file that does not check its end.  The converse
holds for views whose inner views are direct. -/
theorem view_reads_slice (view : View) (hwf : view.WellFormed) (length offset : ℕ) (hlength : length < 2 ^ 64)
    (hoffset : offset < 2 ^ 64) :
    (view.Direct ∧ view.ReadableAt length offset → view.ReadsSlice length offset) ∧
    (view.InnerDirect → view.ReadsSlice length offset → view.Direct ∧ view.ReadableAt length offset) := by
  have hiff : view.Direct → (view.ReadsSlice length offset ↔ view.ReadableAt length offset) := by
    intro hdirect
    obtain ⟨file, hfile⟩ := described view hwf hdirect
    exact described_readsSlice hfile hlength hoffset
  refine ⟨fun h => (hiff h.1).2 h.2, ?_⟩
  intro hinner hreads
  have hdirect : view.Direct := by
    by_contra hnot
    exact not_readsSlice_of_not_direct hwf hinner hnot length offset hreads
  exact ⟨hdirect, (hiff hdirect).1 hreads⟩

/-- A read of a concatenation with gaps, from inside of a gap, and one from behind its end. -/
theorem view_reads_slice_filled : (View.filled 0xFF#8 [1, 4] [.vector [1#8, 2#8], .static 7#8 2]).ReadsSlice 4 2 ∧
    (View.filled 0xFF#8 [1, 4] [.vector [1#8, 2#8], .static 7#8 2]).ReadsSlice 4 9 :=
  have hwf : (View.filled 0xFF#8 [1, 4] [.vector [1#8, 2#8], .static 7#8 2]).WellFormed := by
    simp [WellFormed, WellFormedAll, bytesOf, View.bytes, Ascending]
  have hdirect : (View.filled 0xFF#8 [1, 4] [.vector [1#8, 2#8], .static 7#8 2]).Direct := by
    simp [Direct, DirectAll]
  have hreadable : ∀ length offset,
      (View.filled 0xFF#8 [1, 4] [.vector [1#8, 2#8], .static 7#8 2]).ReadableAt length offset := by
    simp [ReadableAt, ReadableAlone]
  ⟨(view_reads_slice _ hwf 4 2 (by decide) (by decide)).1 ⟨hdirect, hreadable 4 2⟩,
    (view_reads_slice _ hwf 4 9 (by decide) (by decide)).1 ⟨hdirect, hreadable 4 9⟩⟩

/-- Behind its end, a vector copies memory that is not its own, a static file delivers bytes that it does not have, and a
window reads what is behind it.  One file at an offset is not shifted. -/
theorem views_read_behind_end : (View.vector [1#8]).WellFormed ∧ ¬ (View.vector [1#8]).ReadsSlice 1 2 ∧
    (View.static 7#8 1).WellFormed ∧ ¬ (View.static 7#8 1).ReadsSlice 1 2 ∧
    (View.window (.vector [1#8, 2#8, 3#8]) 1 0).WellFormed ∧
    ¬ (View.window (.vector [1#8, 2#8, 3#8]) 1 0).ReadsSlice 1 2 ∧
    (View.filled 0xFF#8 [1] [.vector [1#8]]).WellFormed ∧ ¬ (View.filled 0xFF#8 [1] [.vector [1#8]]).ReadsSlice 1 0 := by
  refine ⟨by simp [WellFormed], ?_, by simp [WellFormed], ?_, by simp [WellFormed, View.bytes], ?_,
    by simp [WellFormed, WellFormedAll, bytesOf, View.bytes, Ascending], ?_⟩
  all_goals
    rintro ⟨file, hfile, hsize, hread⟩
    cases hfile
  · exact absurd hread (by decide)
  · exact absurd hread (by decide)
  · exact absurd hread (by decide)
  · exact absurd hsize (by decide)

end View

/-- A file cut into windows that follow each other. -/
def pieces (file : VfsFile) : (offset : ℕ) → List ℕ → List VfsFile
  | _, [] => []
  | offset, size :: sizes => offsetVfsFile file size offset :: pieces file (offset + size) sizes

lemma pieces_slices {file : VfsFile} {bytes : List Byte} (h : Slices file bytes) (sizes : List ℕ) : ∀ offset,
    offset + sizes.sum ≤ bytes.length →
      ∃ parts, Forall₂ Slices (pieces file offset sizes) parts ∧ parts.flatten = (bytes.drop offset).take sizes.sum := by
  induction sizes with
  | nil => exact fun _ _ => ⟨[], .nil, by simp⟩
  | cons size sizes ih =>
    intro offset hsizes
    rw [sum_cons] at hsizes
    obtain ⟨parts, hparts, hflatten⟩ := ih (offset + size) (by omega)
    refine ⟨_ :: parts, .cons (offsetVfsFile_slices h (by omega)) hparts, ?_⟩
    rw [flatten_cons, hflatten, sum_cons, take_add, drop_drop]

/-- **A file that is cut into pieces and put together again** reads as it did. -/
theorem concatenation_of_pieces {file : VfsFile} {bytes : List Byte} (h : Slices file bytes) {sizes : List ℕ}
    (hne : sizes ≠ []) (hsizes : sizes.sum = bytes.length) :
    ∃ joined, makeConcatenatedFile (pieces file 0 sizes) = some joined ∧ joined.getSize = file.getSize ∧
      ∀ length offset : ℕ, length < 2 ^ 64 → offset ≤ bytes.length → joined.read length offset = file.read length offset := by
  obtain ⟨parts, hparts, hflatten⟩ := pieces_slices h sizes 0 (by omega)
  rw [hsizes, drop_zero, take_length] at hflatten
  have hsmall := h.small
  obtain ⟨joined, hjoined, hslices⟩ :
      ∃ joined, makeConcatenatedFile (pieces file 0 sizes) = some joined ∧ Slices joined bytes := by
    rcases sizes with _ | ⟨size, _ | ⟨size', sizes⟩⟩
    · exact absurd rfl hne
    · cases hparts with
      | cons hfile hrest =>
        cases hrest
        exact ⟨_, rfl, by simpa [← hflatten] using hfile⟩
    · have hcontinuous := concatenationMap_continuous hparts 0 (by rw [hflatten]; omega)
      rw [hflatten] at hcontinuous
      exact ⟨_, rfl, hcontinuous.getSize hsmall, hsmall, fun length offset hlength hoffset =>
        hcontinuous.read hsmall hlength (by omega)⟩
  exact ⟨joined, hjoined, hslices.size.trans h.size.symm, fun length offset hlength hoffset =>
    (hslices.read length offset hlength hoffset).trans (h.read length offset hlength hoffset).symm⟩

theorem concatenation_of_pieces_three : ∃ joined,
    makeConcatenatedFile (pieces (vectorVfsFile [1#8, 2#8, 3#8]) 0 [1, 2]) = some joined ∧ joined.read 2 0 = some [1#8, 2#8] := by
  obtain ⟨joined, hjoined, -, hread⟩ :=
    @concatenation_of_pieces _ _ (@vectorVfsFile_slices [1#8, 2#8, 3#8] (by decide)) [1, 2] (by decide) rfl
  exact ⟨joined, hjoined, hread 2 0 (by decide) (by decide)⟩

end Voltemu.FileSys
