import Voltemu.FileSys.RomFsBuild
import Voltemu.Lib.HashChains

/-!
# Hash tables of a RomFS

What the two hash tables in the metadata of a RomFS hold.

* `nameHash`: the hash of a name, whose bytes are unsigned.
* `PutRight` and `putAll_chained`: entries that are put one behind the other are on the chains of their hashes.
* `place_files`, `place_directories`: the entries of a context follow each other in their tables.
* `hashTables_complete_iff`: the hash tables are complete, and the same on all hosts, if and only if no name has a hash that falls
  into another bucket when its characters are signed.
-/

namespace Voltemu.FileSys.RomFs

open Overwrite Linked HashChains List Nat

/-! ## Hashes of names -/

/-- **The hash of a name**: the offset of the parent, into which the bytes are mixed. -/
def nameHash (parent : BitVec 32) (name : List Byte) : BitVec 32 :=
  name.foldl (fun hash c => hash.rotateRight 5 ^^^ c.setWidth 32) (parent ^^^ 123456789#32)

variable {path : List Byte}

lemma romfsCalcPathHash_unsigned (parent : BitVec 32) {start n : ℕ} (hpath : start + n = path.length)
    (hsmall : path.length < 2 ^ 32) : romfsCalcPathHash false parent path start n = nameHash parent (nameBytes path start n) := by
  have hname : nameBytes path start n = (range n).map fun i => path.getD (addU32 start i) 0 := by
    refine ext_getElem (by simp [nameBytes, ← hpath]) fun i hi hi' => ?_
    have hin : i < n := by simpa using hi'
    rw [getElem_map, getElem_range, addU32, mod_eq_of_lt (by omega), getD_eq_getElem _ _ (by omega)]
    simp [nameBytes]
  rw [nameHash, hname, foldl_map, romfsCalcPathHash]
  rfl

/-! ## Numbers of buckets -/

lemma le_hashTableCountLoop (fuel count : ℕ) : count ≤ hashTableCountLoop fuel count := by
  induction fuel generalizing count with
  | zero => exact le_refl _
  | succ fuel ih =>
    rw [hashTableCountLoop]
    split_ifs
    · exact (le_succ count).trans (ih (count + 1))
    · exact le_refl _

lemma le_romfsGetHashTableCount (numEntries : ℕ) : 3 ≤ romfsGetHashTableCount numEntries := by
  unfold romfsGetHashTableCount
  split_ifs with hfew hsome
  · exact le_refl 3
  · exact (not_lt.1 hfew).trans left_le_or
  · exact (not_lt.1 hfew).trans (le_hashTableCountLoop _ _)

/-! ## Entries that are put into a table -/

def linkOf (value : ℕ) : Option (BitVec 32) :=
  if BitVec.ofNat 32 value = romFsEntryEmpty then none else some (BitVec.ofNat 32 value)

/-- The chains of a hash table, and the links of a table whose entries have the next hash link at some place. -/
def heads (metadata : ℕ → Byte) (hashTable bucket : ℕ) : Option (BitVec 32) :=
  linkOf (littleEndian metadata (hashTable + 4 * bucket) 4)

def nextLink (metadata : ℕ → Byte) (table hashField : ℕ) (entryOffset : BitVec 32) : Option (BitVec 32) :=
  linkOf (littleEndian metadata (table + entryOffset.toNat + hashField) 4)

/-- An entry that is to be put into a table. -/
structure Put where
  entryOffset : BitVec 32
  hash : BitVec 32
  name : List Byte
  nameSize : ℕ
  entry : ℕ → List Byte

/-- The size of an entry with its name. -/
def Put.size (e : Put) : ℕ := (e.entry 0).length + alignUp 32 e.nameSize 4

def putAll (hashTable count table : ℕ) (puts : List Put) (metadata : ℕ → Byte) : ℕ → Byte :=
  puts.foldl (fun metadata e => putEntry hashTable count table e.entryOffset e.hash e.name e.nameSize e.entry metadata) metadata

/-- **An entry is as its table needs it**: its name fits, and the hash link is a number at some place. -/
structure PutRight (hashField : ℕ) (e : Put) : Prop where
  name : e.name.length ≤ alignUp 32 e.nameSize 4
  hash : ∃ front back : List Byte, front.length = hashField ∧ ∀ h, e.entry h = front ++ leBytes 4 h ++ back

/-- Entries that follow each other from an offset on. -/
def FollowFrom : ℕ → List Put → Prop
  | _, [] => True
  | start, e :: rest => e.entryOffset.toNat = start ∧ FollowFrom (start + e.size) rest

section Puts

variable {hashTable count table hashField start : ℕ} {metadata : ℕ → Byte} {e : Put} {puts : List Put}
  {elems : List (BitVec 32 × ℕ)}

lemma PutRight.length (h : PutRight hashField e) (k : ℕ) : (e.entry k).length = (e.entry 0).length := by
  obtain ⟨front, back, -, hentry⟩ := h.hash
  simp [hentry]

lemma PutRight.hash_le (h : PutRight hashField e) : hashField + 4 ≤ e.size := by
  obtain ⟨front, back, hfront, hentry⟩ := h.hash
  rw [Put.size, hentry]
  simp only [length_append, leBytes_length, hfront]
  omega

/-- What is not written by an entry: everything outside of its bucket and of its place. -/
lemma putEntry_outside (h : PutRight hashField e) {a : ℕ}
    (hbucket : a < hashTable + 4 * (e.hash.toNat % count) ∨ hashTable + 4 * (e.hash.toNat % count) + 4 ≤ a)
    (hplace : a < table + e.entryOffset.toNat ∨ table + e.entryOffset.toNat + e.size ≤ a) :
    putEntry hashTable count table e.entryOffset e.hash e.name e.nameSize e.entry metadata a = metadata a := by
  have hlength := h.length
  have hname := h.name
  rw [Put.size] at hplace
  unfold putEntry
  rw [putBytes_outside (by rw [hlength]; omega), putBytes_outside (by rw [hlength, length_replicate]; omega),
    putBytes_outside (by rw [hlength]; omega), putBytes_outside (by rw [leBytes_length]; omega)]

lemma putEntry_links (metadata : ℕ → Byte) (h : PutRight hashField e) (htable : hashTable + 4 * count ≤ table) (hcount : 0 < count) :
    littleEndian (putEntry hashTable count table e.entryOffset e.hash e.name e.nameSize e.entry metadata)
      (hashTable + 4 * (e.hash.toNat % count)) 4 = e.entryOffset.toNat ∧
    littleEndian (putEntry hashTable count table e.entryOffset e.hash e.name e.nameSize e.entry metadata)
      (table + e.entryOffset.toNat + hashField) 4 = littleEndian metadata (hashTable + 4 * (e.hash.toNat % count)) 4 := by
  obtain ⟨front, back, hfront, hentry⟩ := h.hash
  have hbucket := mod_lt e.hash.toNat hcount
  have hread : littleEndian metadata (hashTable + 4 * (e.hash.toNat % count)) 4 < 0x100 ^ 4 := littleEndian_lt _ _ _
  simp only [putEntry]
  generalize littleEndian metadata (hashTable + 4 * (e.hash.toNat % count)) 4 = head at hread ⊢
  have hlength : hashField + 4 ≤ (e.entry head).length := by
    rw [hentry]
    simp only [length_append, leBytes_length, hfront]
    omega
  constructor
  · rw [littleEndian_putBytes (.inl (by omega)), littleEndian_putBytes (.inl (by omega)), littleEndian_putBytes (.inl (by omega)),
      (Holds.stored _ _ _).number, mod_eq_of_lt (by omega)]
  · rw [littleEndian_putBytes (.inl (by omega)), littleEndian_putBytes (.inl (by omega))]
    have hholds := Holds.stored
      (putBytes metadata (hashTable + 4 * (e.hash.toNat % count)) (leBytes 4 e.entryOffset.toNat))
      (table + e.entryOffset.toNat) (e.entry head)
    rw [hentry, append_assoc, Holds.append_iff, Holds.append_iff, hfront] at hholds
    rw [hentry, append_assoc, hholds.2.1.number, mod_eq_of_lt hread]

lemma putEntry_chained (h : PutRight hashField e) (hsize : e.entryOffset.toNat + e.size ≤ 2 ^ 32)
    (htable : hashTable + 4 * count ≤ table) (hcount : 0 < count)
    (hchained : Chained (heads metadata hashTable) (nextLink metadata table hashField) count elems)
    (hbefore : ∀ x ∈ elems.map Prod.fst, x.toNat + hashField + 4 ≤ e.entryOffset.toNat) :
    Chained (heads (putEntry hashTable count table e.entryOffset e.hash e.name e.nameSize e.entry metadata) hashTable)
      (nextLink (putEntry hashTable count table e.entryOffset e.hash e.name e.nameSize e.entry metadata) table hashField) count
      ((e.entryOffset, e.hash.toNat % count) :: elems) := by
  have hlength := h.hash_le
  have hbucket := mod_lt e.hash.toNat hcount
  obtain ⟨hhead, hlink⟩ := putEntry_links metadata h htable hcount
  have hout {a n : ℕ} (hbeside : a + n ≤ hashTable + 4 * (e.hash.toNat % count) ∨ hashTable + 4 * (e.hash.toNat % count) + 4 ≤ a)
      (hplace : a + n ≤ table + e.entryOffset.toNat ∨ table + e.entryOffset.toNat + e.size ≤ a) :
      littleEndian (putEntry hashTable count table e.entryOffset e.hash e.name e.nameSize e.entry metadata) a n =
        littleEndian metadata a n :=
    littleEndian_congr n fun j hj => putEntry_outside h (by omega) (by omega)
  refine hchained.push hbucket ?_ ?_ ?_ ?_
  · intro hx
    have := hbefore _ hx
    omega
  · intro b hb
    by_cases hsame : b = e.hash.toNat % count
    · rw [if_pos hsame, hsame, heads, hhead, linkOf, if_neg, BitVec.ofNat_toNat, BitVec.setWidth_eq]
      rw [BitVec.ofNat_toNat, BitVec.setWidth_eq]
      intro hempty
      have hvalue : e.entryOffset.toNat = 0xFFFFFFFF := by rw [hempty]; rfl
      omega
    · rw [if_neg hsame, heads, heads, hout (by omega) (by omega)]
  · rw [nextLink, hlink, heads]
  · intro y hy
    have := hbefore y hy
    rw [nextLink, nextLink, hout (by omega) (by omega)]

section

variable (hright : ∀ e ∈ puts, PutRight hashField e) (hfollow : FollowFrom start puts)
include hright hfollow

/-- What is not written by entries that follow each other. -/
lemma putAll_outside (hcount : 0 < count) {a : ℕ} (hbucket : a < hashTable ∨ hashTable + 4 * count ≤ a)
    (hplace : a < table + start ∨ table + start + (puts.map Put.size).sum ≤ a) :
    putAll hashTable count table puts metadata a = metadata a := by
  induction puts generalizing start metadata with
  | nil => rfl
  | cons e rest ih =>
    obtain ⟨rfl, hrest⟩ := hfollow
    rw [map_cons, sum_cons] at hplace
    have hmod := mod_lt e.hash.toNat hcount
    have hfirst : putEntry hashTable count table e.entryOffset e.hash e.name e.nameSize e.entry metadata a = metadata a :=
      putEntry_outside (hright e mem_cons_self) (by omega) (by omega)
    rw [← hfirst]
    exact ih (fun e' he' => hright e' (mem_cons_of_mem e he')) hrest (by omega)

/-- **Entries that are put one behind the other** are on the chains of their hashes. -/
lemma putAll_chained
    (hsize : start + (puts.map Put.size).sum ≤ 2 ^ 32) (htable : hashTable + 4 * count ≤ table) (hcount : 0 < count)
    (hchained : Chained (heads metadata hashTable) (nextLink metadata table hashField) count elems)
    (hbefore : ∀ x ∈ elems.map Prod.fst, x.toNat + hashField + 4 ≤ start) :
    Chained (heads (putAll hashTable count table puts metadata) hashTable)
      (nextLink (putAll hashTable count table puts metadata) table hashField) count
      ((puts.map fun e => (e.entryOffset, e.hash.toNat % count)).reverse ++ elems) := by
  induction puts generalizing start metadata elems with
  | nil => exact hchained
  | cons e rest ih =>
    obtain ⟨rfl, hrest⟩ := hfollow
    rw [map_cons, sum_cons] at hsize
    have he := hright e mem_cons_self
    have hlength := he.hash_le
    have hnext := putEntry_chained he (by omega) htable hcount hchained hbefore
    rw [map_cons, reverse_cons, append_assoc, singleton_append]
    refine ih (fun e' he' => hright e' (mem_cons_of_mem e he')) hrest (by omega) hnext ?_
    intro x hx
    rw [map_cons, mem_cons] at hx
    rcases hx with rfl | hx
    · change e.entryOffset.toNat + hashField + 4 ≤ _
      omega
    · have := hbefore x hx
      omega

end

end Puts

/-! ## Contexts -/

/-- The place of a name in a path, as `u32` numbers. -/
def PathRight (path : List Byte) (curPathOfs pathLen : ℕ) : Prop :=
  pathLen = path.length % 2 ^ 32 ∧ ∃ k ≤ path.length, curPathOfs = k % 2 ^ 32

/-- **What visiting a directory keeps**: the sizes of the tables are those of their entries, and names are at the ends of paths. -/
structure RomFSBuildContext.Right (ctx : RomFSBuildContext) : Prop where
  dirSize : ctx.dirTableSize = (ctx.directories.map (·.entrySize)).sum
  fileSize : ctx.fileTableSize = (ctx.files.map (·.entrySize)).sum
  dirPaths : ∀ c ∈ ctx.directories, PathRight c.path c.curPathOfs c.pathLen
  filePaths : ∀ c ∈ ctx.files, PathRight c.path c.curPathOfs c.pathLen

section Contexts

variable {ctx : RomFSBuildContext} {patchIPS : VfsFile → VfsFile → Option VfsFile} {extDir : Option VectorVfsDirectory}
  {number : ℕ} {parent : RomFSBuildDirectoryContext}

lemma pathRight_child (hparent : parent.pathLen = parent.path.length % 2 ^ 32) (name : List Byte) :
    PathRight (childPath parent name) (childPathOfs parent) (addU32 (childPathOfs parent) name.length) := by
  have hlength : (childPath parent name).length = parent.path.length + 1 + name.length := by
    rw [childPath, length_append, length_append]
    rfl
  refine ⟨?_, parent.path.length + 1, by omega, ?_⟩
  · rw [addU32, childPathOfs, addU32, hlength]
    omega
  · rw [childPathOfs, addU32]
    omega

lemma RomFSBuildContext.Right.addFile (h : ctx.Right) {file : RomFSBuildFileContext}
    (hpath : PathRight file.path file.curPathOfs file.pathLen) : (ctx.addFile file).Right := by
  refine ⟨h.dirSize, ?_, h.dirPaths, ?_⟩
  · simp [RomFSBuildContext.addFile, h.fileSize]
  · intro c hc
    rcases mem_append.1 hc with hc | hc
    · exact h.filePaths c hc
    · rw [mem_singleton.1 hc]
      exact hpath

lemma RomFSBuildContext.Right.addDirectory (h : ctx.Right) {dir : RomFSBuildDirectoryContext}
    (hpath : PathRight dir.path dir.curPathOfs dir.pathLen) : (ctx.addDirectory dir).Right := by
  refine ⟨?_, h.fileSize, ?_, h.filePaths⟩
  · simp [RomFSBuildContext.addDirectory, h.dirSize]
  · intro c hc
    rcases mem_append.1 hc with hc | hc
    · exact h.dirPaths c hc
    · rw [mem_singleton.1 hc]
      exact hpath

lemma RomFSBuildContext.Right.visitFiles (h : ctx.Right) (hparent : parent.pathLen = parent.path.length % 2 ^ 32)
    (files : List NamedFile) : (visitFiles patchIPS extDir number parent files ctx).Right := by
  unfold RomFs.visitFiles
  induction files generalizing ctx with
  | nil => exact h
  | cons file files ih =>
    rw [foldl_cons]
    split_ifs
    · exact ih h
    · exact ih (h.addFile (pathRight_child hparent file.name))

mutual

lemma RomFSBuildContext.Right.visitDirectory : ∀ (dir : VectorVfsDirectory) {ctx : RomFSBuildContext}
    {extDir : Option VectorVfsDirectory} {number : ℕ} {parent : RomFSBuildDirectoryContext}, ctx.Right →
    parent.pathLen = parent.path.length % 2 ^ 32 → (visitDirectory patchIPS dir extDir number parent ctx).Right
  | .mk files dirs _, _, _, _, _, h, hparent => by
    rw [RomFs.visitDirectory]
    exact RomFSBuildContext.Right.visitSubdirectories dirs (h.visitFiles hparent files) hparent

lemma RomFSBuildContext.Right.visitSubdirectories : ∀ (dirs : List VectorVfsDirectory) {ctx : RomFSBuildContext}
    {extDir : Option VectorVfsDirectory} {number : ℕ} {parent : RomFSBuildDirectoryContext}, ctx.Right →
    parent.pathLen = parent.path.length % 2 ^ 32 → (visitSubdirectories patchIPS dirs extDir number parent ctx).Right
  | [], _, _, _, _, h, _ => by
    rw [RomFs.visitSubdirectories]
    exact h
  | dir :: dirs, _, _, number, parent, h, hparent => by
    rw [RomFs.visitSubdirectories]
    split_ifs
    · exact RomFSBuildContext.Right.visitSubdirectories dirs h hparent
    · have hchild := pathRight_child hparent dir.name
      have hadded : (RomFSBuildContext.addDirectory _ (directoryContext number parent dir.name)).Right := h.addDirectory hchild
      exact RomFSBuildContext.Right.visitSubdirectories dirs
        (RomFSBuildContext.Right.visitDirectory dir hadded hchild.1) hparent

end

lemma RomFSBuildContext.Right.new (patchIPS : VfsFile → VfsFile → Option VfsFile) (base : VectorVfsDirectory) (ext : Option VectorVfsDirectory) :
    (RomFSBuildContext.new patchIPS base ext).Right := by
  refine RomFSBuildContext.Right.visitDirectory base ⟨rfl, rfl, ?_, nofun⟩ rfl
  intro c hc
  rw [mem_singleton.1 hc]
  exact ⟨rfl, 0, le_refl 0, rfl⟩

end Contexts

/-- **A context that fits into the format**: paths and tables have less than 4 GiB. -/
structure RomFSBuildContext.Fits (ctx : RomFSBuildContext) : Prop where
  dirPaths : ∀ c ∈ ctx.directories, c.path.length + 3 < 2 ^ 32
  filePaths : ∀ c ∈ ctx.files, c.path.length + 3 < 2 ^ 32
  dirTable : ctx.dirTableSize ≤ 2 ^ 32
  fileTable : ctx.fileTableSize ≤ 2 ^ 32

lemma PathRight.name {curPathOfs pathLen : ℕ} (h : PathRight path curPathOfs pathLen)
    (hsmall : path.length + 3 < 2 ^ 32) :
    curPathOfs + subU32 pathLen curPathOfs = path.length ∧
      (nameBytes path curPathOfs (subU32 pathLen curPathOfs)).length ≤ alignUp 32 (subU32 pathLen curPathOfs) 4 := by
  obtain ⟨rfl, k, hk, rfl⟩ := h
  have hsize : subU32 (path.length % 2 ^ 32) (k % 2 ^ 32) = path.length - k := by
    rw [subU32]
    omega
  rw [hsize]
  refine ⟨by omega, ?_⟩
  rw [nameBytes, length_take, alignUp]
  split_ifs <;> omega

/-! ## Placement -/

lemma entryOffsets_length (entryOffset : BitVec 32) (sizes : List ℕ) : (entryOffsets entryOffset sizes).length = sizes.length := by
  induction sizes generalizing entryOffset with
  | nil => rfl
  | cons size sizes ih => rw [entryOffsets, length_cons, length_cons, ih]

lemma fileOffsets_length (filePartitionSize : ℕ) (sizes : List ℕ) : (fileOffsets filePartitionSize sizes).1.length = sizes.length := by
  induction sizes generalizing filePartitionSize with
  | nil => rfl
  | cons size sizes ih => rw [fileOffsets, length_cons, length_cons, ih]

lemma linkSiblings_length (entries : List (ℕ × BitVec 32)) : (linkSiblings entries).2.length = entries.length := by
  induction entries with
  | nil => rfl
  | cons entry entries ih => rw [linkSiblings, length_cons, length_cons, ih]

lemma followFrom_entryOffsets {puts : List Put} {sizes : List ℕ} {start : ℕ}
    (hoffsets : puts.map (·.entryOffset) = entryOffsets (BitVec.ofNat 32 start) sizes) (hsizes : puts.map Put.size = sizes)
    (hpos : ∀ e ∈ puts, 0 < e.size) (hfits : start + sizes.sum ≤ 2 ^ 32) : FollowFrom start puts := by
  induction puts generalizing start sizes with
  | nil => trivial
  | cons e rest ih =>
    rw [map_cons] at hsizes
    subst hsizes
    rw [map_cons, entryOffsets, cons_eq_cons] at hoffsets
    rw [sum_cons] at hfits
    have hfirst := hpos e mem_cons_self
    refine ⟨?_, ih ?_ rfl (fun e' he' => hpos e' (mem_cons_of_mem e he')) (by omega)⟩
    · rw [hoffsets.1, BitVec.toNat_ofNat, mod_eq_of_lt (by omega)]
    · rw [hoffsets.2, BitVec.ofNat_add]

section Placement

variable {std : StdSort} {ctx : RomFSBuildContext}

lemma place_files (std : StdSort) (ctx : RomFSBuildContext) :
    (ctx.place std).files.map (·.file) = ctx.sortedFiles std ∧
      (ctx.place std).files.map (·.entryOffset) = entryOffsets 0 ((ctx.sortedFiles std).map (·.entrySize)) := by
  have hoffsets := entryOffsets_length 0 ((ctx.sortedFiles std).map (·.entrySize))
  have hplaces := fileOffsets_length 0 ((ctx.sortedFiles std).map (·.size))
  have hlinks := linkSiblings_length
    (((ctx.sortedFiles std).map (·.parent)).zip (entryOffsets 0 ((ctx.sortedFiles std).map (·.entrySize))))
  rw [length_map] at hoffsets hplaces
  rw [length_zip, length_map, hoffsets, min_self] at hlinks
  unfold RomFSBuildContext.place
  constructor
  · refine ext_getElem ?_ fun i hi hi' => ?_
    · simp only [length_map, length_zipWith, length_zip, hoffsets, hplaces, hlinks, min_self]
    · simp
  · refine ext_getElem ?_ fun i hi hi' => ?_
    · simp only [length_map, length_zipWith, length_zip, hoffsets, hplaces, hlinks, min_self]
    · simp

lemma place_directories (std : StdSort) (ctx : RomFSBuildContext) :
    (ctx.place std).directories.map (fun placed => (placed.dir, placed.number)) = ctx.sortedDirectories std ∧
      (ctx.place std).directories.map (·.entryOffset) = entryOffsets 0 ((ctx.sortedDirectories std).map (·.1.entrySize)) := by
  have hoffsets := entryOffsets_length 0 ((ctx.sortedDirectories std).map (·.1.entrySize))
  rw [length_map] at hoffsets
  unfold RomFSBuildContext.place
  constructor
  · refine ext_getElem ?_ fun i hi hi' => ?_
    · simp only [length_map, length_zipWith, length_zip, length_append, length_replicate,
        linkSiblings_length, length_reverse, hoffsets]
      omega
    · simp
  · refine ext_getElem ?_ fun i hi hi' => ?_
    · simp only [length_map, length_zipWith, length_zip, length_append, length_replicate,
        linkSiblings_length, length_reverse, hoffsets]
      omega
    · simp

/-- The entries of the loops. -/
def PlacedFile.put (signedChar : Bool) (p : Placement) (placed : PlacedFile) : Put where
  entryOffset := placed.entryOffset
  hash := placed.hash signedChar p
  name := nameBytes placed.file.path placed.file.curPathOfs placed.file.nameSize
  nameSize := placed.file.nameSize
  entry := placed.entry p

def PlacedDirectory.put (signedChar : Bool) (p : Placement) (placed : PlacedDirectory) : Put where
  entryOffset := placed.entryOffset
  hash := placed.hash signedChar p
  name := nameBytes placed.dir.path placed.dir.curPathOfs placed.dir.nameSize
  nameSize := placed.dir.nameSize
  entry := placed.entry p

section

variable (signedChar : Bool) (p : Placement)
include signedChar p

lemma putFiles_eq (metadata : ℕ → Byte) : ctx.putFiles signedChar p metadata =
      putAll ctx.fileHashTable ctx.fileHashTableEntryCount ctx.fileTable (p.files.map (·.put signedChar p)) metadata := by
  rw [putAll, foldl_map]
  rfl

lemma putDirectories_eq (metadata : ℕ → Byte) : ctx.putDirectories signedChar p metadata =
      putAll 0 ctx.dirHashTableEntryCount ctx.dirTable (p.directories.map (·.put signedChar p)) metadata := by
  rw [putAll, foldl_map]
  rfl

lemma PlacedFile.put_size (placed : PlacedFile) : (placed.put signedChar p).size = placed.file.entrySize := by
  simp [Put.size, PlacedFile.put, PlacedFile.entry, RomFSBuildFileContext.entrySize]

lemma PlacedDirectory.put_size (placed : PlacedDirectory) : (placed.put signedChar p).size = placed.dir.entrySize := by
  simp [Put.size, PlacedDirectory.put, PlacedDirectory.entry, RomFSBuildDirectoryContext.entrySize]

end

end Placement

/-! ## Complete hash tables -/

section Complete

variable (std : StdSort) (signedChar : Bool) (ctx : RomFSBuildContext)

/-- The entries of the files and the buckets that they belong to. -/
def fileBuckets : List (BitVec 32 × ℕ) :=
  (ctx.place std).files.map fun placed => (placed.entryOffset,
    (nameHash ((ctx.place std).directoryOffset placed.file.parent)
      (nameBytes placed.file.path placed.file.curPathOfs placed.file.nameSize)).toNat % ctx.fileHashTableEntryCount)

/-- The entries of the directories and the buckets that they belong to. -/
def directoryBuckets : List (BitVec 32 × ℕ) :=
  (ctx.place std).directories.map fun placed => (placed.entryOffset,
    (nameHash (placed.parentOffset (ctx.place std))
      (nameBytes placed.dir.path placed.dir.curPathOfs placed.dir.nameSize)).toNat % ctx.dirHashTableEntryCount)

/-- **The hash tables of a host are complete**: every chain ends, and it visits the entries that belong to its bucket, each once. -/
structure TablesComplete : Prop where
  files : Complete (heads (ctx.metadata std signedChar) ctx.fileHashTable) (nextLink (ctx.metadata std signedChar) ctx.fileTable 0x18)
    ctx.fileHashTableEntryCount (fileBuckets std ctx)
  directories : Complete (heads (ctx.metadata std signedChar) 0) (nextLink (ctx.metadata std signedChar) ctx.dirTable 0x10)
    ctx.dirHashTableEntryCount (directoryBuckets std ctx)

/-- **The hash tables are complete on every host**, and the result is the same on all of them. -/
def HashTablesComplete : Prop := (∀ signedChar, TablesComplete std signedChar ctx) ∧ ctx.build std true = ctx.build std false

/-- **No name changes its bucket** when its characters are signed. -/
structure BucketsAgree : Prop where
  files : ∀ placed ∈ (ctx.place std).files,
    (placed.hash true (ctx.place std)).toNat % ctx.fileHashTableEntryCount =
      (placed.hash false (ctx.place std)).toNat % ctx.fileHashTableEntryCount
  directories : ∀ placed ∈ (ctx.place std).directories,
    (placed.hash true (ctx.place std)).toNat % ctx.dirHashTableEntryCount =
      (placed.hash false (ctx.place std)).toNat % ctx.dirHashTableEntryCount

variable {std signedChar ctx}

lemma files_put (std : StdSort) (signedChar : Bool) (hright : ctx.Right) (hfits : ctx.Fits) :
    (∀ e ∈ (ctx.place std).files.map (·.put signedChar (ctx.place std)), PutRight 0x18 e) ∧
      FollowFrom 0 ((ctx.place std).files.map (·.put signedChar (ctx.place std))) ∧
      (((ctx.place std).files.map (·.put signedChar (ctx.place std))).map Put.size).sum = ctx.fileTableSize := by
  obtain ⟨hfiles, hoffsets⟩ := place_files std ctx
  have hperm : (ctx.sortedFiles std).Perm ctx.files := std.perm _ _
  have hsizes : ((ctx.place std).files.map (·.put signedChar (ctx.place std))).map Put.size =
      (ctx.sortedFiles std).map (·.entrySize) := by
    rw [← hfiles, map_map, map_map]
    exact map_congr_left fun placed _ => placed.put_size signedChar _
  have hsum : ((ctx.sortedFiles std).map (·.entrySize)).sum = ctx.fileTableSize := by
    rw [hright.fileSize]
    exact (hperm.map _).sum_eq
  refine ⟨?_, ?_, by rw [hsizes, hsum]⟩
  · intro e he
    obtain ⟨placed, hplaced, rfl⟩ := mem_map.1 he
    have hmem : placed.file ∈ ctx.files := by
      rw [← hperm.mem_iff, ← hfiles]
      exact mem_map_of_mem hplaced
    refine ⟨((hright.filePaths _ hmem).name (hfits.filePaths _ hmem)).2, ?_⟩
    exact ⟨_, leBytes 4 placed.file.nameSize, by simp, fun h => rfl⟩
  · have hplaced : ((ctx.place std).files.map (·.put signedChar (ctx.place std))).map (·.entryOffset) =
        entryOffsets (BitVec.ofNat 32 0) ((ctx.sortedFiles std).map (·.entrySize)) := by
      rw [map_map]
      exact hoffsets
    refine followFrom_entryOffsets hplaced hsizes ?_ ?_
    · intro e he
      obtain ⟨placed, -, rfl⟩ := mem_map.1 he
      rw [placed.put_size, RomFSBuildFileContext.entrySize]
      omega
    · rw [hsum, zero_add]
      exact hfits.fileTable

lemma directories_put (std : StdSort) (signedChar : Bool) (hright : ctx.Right) (hfits : ctx.Fits) :
    (∀ e ∈ (ctx.place std).directories.map (·.put signedChar (ctx.place std)), PutRight 0x10 e) ∧
      FollowFrom 0 ((ctx.place std).directories.map (·.put signedChar (ctx.place std))) ∧
      (((ctx.place std).directories.map (·.put signedChar (ctx.place std))).map Put.size).sum = ctx.dirTableSize := by
  obtain ⟨hdirs, hoffsets⟩ := place_directories std ctx
  have hperm : (ctx.sortedDirectories std).Perm ctx.directories.zipIdx := std.perm _ _
  have hsizes : ((ctx.place std).directories.map (·.put signedChar (ctx.place std))).map Put.size =
      (ctx.sortedDirectories std).map (·.1.entrySize) := by
    rw [← hdirs, map_map, map_map]
    exact map_congr_left fun placed _ => placed.put_size signedChar _
  have hsum : ((ctx.sortedDirectories std).map (·.1.entrySize)).sum = ctx.dirTableSize := by
    have hfirst : ctx.directories.zipIdx.map (·.1.entrySize) = ctx.directories.map (·.entrySize) := by
      have hfst := congrArg (map RomFSBuildDirectoryContext.entrySize) (zipIdx_map_fst 0 ctx.directories)
      rw [map_map] at hfst
      exact hfst
    rw [hright.dirSize, ← hfirst]
    exact (hperm.map _).sum_eq
  refine ⟨?_, ?_, by rw [hsizes, hsum]⟩
  · intro e he
    obtain ⟨placed, hplaced, rfl⟩ := mem_map.1 he
    have hmem : placed.dir ∈ ctx.directories := by
      have hpair : (placed.dir, placed.number) ∈ ctx.directories.zipIdx := by
        rw [← hperm.mem_iff, ← hdirs]
        exact mem_map_of_mem hplaced
      exact fst_mem_of_mem_zipIdx hpair
    refine ⟨((hright.dirPaths _ hmem).name (hfits.dirPaths _ hmem)).2, ?_⟩
    exact ⟨_, leBytes 4 placed.dir.nameSize, by simp, fun h => rfl⟩
  · have hplaced : ((ctx.place std).directories.map (·.put signedChar (ctx.place std))).map (·.entryOffset) =
        entryOffsets (BitVec.ofNat 32 0) ((ctx.sortedDirectories std).map (·.1.entrySize)) := by
      rw [map_map]
      exact hoffsets
    refine followFrom_entryOffsets hplaced hsizes ?_ ?_
    · intro e he
      obtain ⟨placed, -, rfl⟩ := mem_map.1 he
      rw [placed.put_size, RomFSBuildDirectoryContext.entrySize]
      omega
    · rw [hsum, zero_add]
      exact hfits.dirTable

variable {count hashTable : ℕ} {metadata : ℕ → Byte}

lemma heads_initial {bucket : ℕ}
    (h : ∀ a, hashTable ≤ a → a < hashTable + 4 * count → metadata a = 0xFF#8) (hbucket : bucket < count) :
    heads metadata hashTable bucket = none := by
  have hread : littleEndian metadata (hashTable + 4 * bucket) 4 = littleEndian (fun _ => 0xFF#8) 0 4 :=
    littleEndian_congr 4 fun j hj => h _ (by omega) (by omega)
  rw [heads, hread]
  rfl

/-- **Both hash tables hold the entries** by the buckets that `Build` puts them in. -/
lemma metadata_chained (std : StdSort) (signedChar : Bool) (hright : ctx.Right) (hfits : ctx.Fits) :
    Chained (heads (ctx.metadata std signedChar) ctx.fileHashTable) (nextLink (ctx.metadata std signedChar) ctx.fileTable 0x18)
        ctx.fileHashTableEntryCount
        ((ctx.place std).files.map fun placed =>
          (placed.entryOffset, (placed.hash signedChar (ctx.place std)).toNat % ctx.fileHashTableEntryCount)).reverse ∧
      Chained (heads (ctx.metadata std signedChar) 0) (nextLink (ctx.metadata std signedChar) ctx.dirTable 0x10)
        ctx.dirHashTableEntryCount
        ((ctx.place std).directories.map fun placed =>
          (placed.entryOffset, (placed.hash signedChar (ctx.place std)).toNat % ctx.dirHashTableEntryCount)).reverse := by
  obtain ⟨hfileRight, hfileFollow, hfileSize⟩ := files_put std signedChar hright hfits
  obtain ⟨hdirRight, hdirFollow, hdirSize⟩ := directories_put std signedChar hright hfits
  have hfileCount : 0 < ctx.fileHashTableEntryCount := lt_of_lt_of_le (by decide) (le_romfsGetHashTableCount _)
  have hdirCount : 0 < ctx.dirHashTableEntryCount := lt_of_lt_of_le (by decide) (le_romfsGetHashTableCount _)
  have hdirTable : ctx.dirTable = 0 + 4 * ctx.dirHashTableEntryCount := (zero_add _).symm
  have hfileHashTable : ctx.fileHashTable = ctx.dirTable + ctx.dirTableSize := rfl
  have hfileTable : ctx.fileTable = ctx.fileHashTable + 4 * ctx.fileHashTableEntryCount := rfl
  have hdirInitial : ∀ a, 0 ≤ a → a < 0 + 4 * ctx.dirHashTableEntryCount → ctx.initialMetadata a = 0xFF#8 := by
    intro a _ ha
    unfold RomFSBuildContext.initialMetadata
    rw [putBytes_outside (.inl (by omega)), putBytes, overwrite_inside (by
      rw [length_replicate, RomFSBuildContext.dirHashTableSize]; omega), getD_replicate _ (by
      rw [RomFSBuildContext.dirHashTableSize]; omega)]
  have hfileInitial : ∀ a, ctx.fileHashTable ≤ a → a < ctx.fileHashTable + 4 * ctx.fileHashTableEntryCount →
      ctx.initialMetadata a = 0xFF#8 := by
    intro a hlow hhigh
    unfold RomFSBuildContext.initialMetadata
    rw [putBytes, overwrite_inside (by
      rw [length_replicate, RomFSBuildContext.fileHashTableSize]; omega), getD_replicate _ (by
      rw [RomFSBuildContext.fileHashTableSize]; omega)]
  -- the files are put in first
  have hfiles := putAll_chained hfileRight hfileFollow (by rw [hfileSize, zero_add]; exact hfits.fileTable)
    (le_of_eq hfileTable.symm) hfileCount
    (Chained.nil fun b hb => heads_initial hfileInitial hb) (fun x hx => by cases hx)
  rw [← putFiles_eq, append_nil, map_map] at hfiles
  -- and leave the hash table of the directories as it is
  have hdirUntouched : ∀ a, 0 ≤ a → a < 0 + 4 * ctx.dirHashTableEntryCount →
      ctx.putFiles signedChar (ctx.place std) ctx.initialMetadata a = 0xFF#8 := by
    intro a hlow hhigh
    rw [putFiles_eq, putAll_outside hfileRight hfileFollow hfileCount (.inl (by omega)) (.inl (by omega))]
    exact hdirInitial a hlow hhigh
  have hdirs := putAll_chained hdirRight hdirFollow (by rw [hdirSize, zero_add]; exact hfits.dirTable)
    (le_of_eq hdirTable.symm) hdirCount
    (Chained.nil fun b hb => heads_initial hdirUntouched hb) (fun x hx => by cases hx)
  rw [← putDirectories_eq, append_nil, map_map] at hdirs
  refine ⟨?_, hdirs⟩
  -- the directories are put in front of the tables of the files
  have hbehind : ∀ a, ctx.fileHashTable ≤ a →
      ctx.metadata std signedChar a = ctx.putFiles signedChar (ctx.place std) ctx.initialMetadata a := by
    intro a ha
    rw [RomFSBuildContext.metadata, putDirectories_eq]
    exact putAll_outside hdirRight hdirFollow hdirCount (.inr (by omega)) (.inr (by rw [hdirSize]; omega))
  refine hfiles.congr (fun b hb => ?_) fun x hx => ?_
  · rw [heads, heads]
    exact congrArg linkOf (littleEndian_congr 4 fun j hj => hbehind _ (by omega))
  · rw [nextLink, nextLink]
    exact congrArg linkOf (littleEndian_congr 4 fun j hj => hbehind _ (by omega))

lemma hash_unsigned (std : StdSort) (hright : ctx.Right) (hfits : ctx.Fits) :
    (∀ placed ∈ (ctx.place std).files, placed.hash false (ctx.place std) =
      nameHash ((ctx.place std).directoryOffset placed.file.parent)
        (nameBytes placed.file.path placed.file.curPathOfs placed.file.nameSize)) ∧
    ∀ placed ∈ (ctx.place std).directories, placed.hash false (ctx.place std) =
      nameHash (placed.parentOffset (ctx.place std)) (nameBytes placed.dir.path placed.dir.curPathOfs placed.dir.nameSize) := by
  refine ⟨fun placed hplaced => ?_, fun placed hplaced => ?_⟩
  · have hmem : placed.file ∈ ctx.files := by
      rw [← (std.perm _ ctx.files).mem_iff, ← RomFSBuildContext.sortedFiles, ← (place_files std ctx).1]
      exact mem_map_of_mem hplaced
    have hsmall := hfits.filePaths _ hmem
    exact romfsCalcPathHash_unsigned _ ((hright.filePaths _ hmem).name hsmall).1 (by omega)
  · have hmem : placed.dir ∈ ctx.directories := by
      have hpair : (placed.dir, placed.number) ∈ ctx.directories.zipIdx := by
        rw [← (std.perm _ ctx.directories.zipIdx).mem_iff, ← RomFSBuildContext.sortedDirectories, ← (place_directories std ctx).1]
        exact mem_map_of_mem hplaced
      exact fst_mem_of_mem_zipIdx hpair
    have hsmall := hfits.dirPaths _ hmem
    exact romfsCalcPathHash_unsigned _ ((hright.dirPaths _ hmem).name hsmall).1 (by omega)

/-- The tables of a host are complete if its hashes have the buckets of those with unsigned characters. -/
lemma tablesComplete_iff (signedChar : Bool) (hright : ctx.Right) (hfits : ctx.Fits) : TablesComplete std signedChar ctx ↔
    (∀ placed ∈ (ctx.place std).files,
      (placed.hash false (ctx.place std)).toNat % ctx.fileHashTableEntryCount =
        (placed.hash signedChar (ctx.place std)).toNat % ctx.fileHashTableEntryCount) ∧
    ∀ placed ∈ (ctx.place std).directories,
      (placed.hash false (ctx.place std)).toNat % ctx.dirHashTableEntryCount =
        (placed.hash signedChar (ctx.place std)).toNat % ctx.dirHashTableEntryCount := by
  obtain ⟨hfiles, hdirs⟩ := metadata_chained std signedChar hright hfits
  obtain ⟨hfileHash, hdirHash⟩ := hash_unsigned std hright hfits
  have hfileCount : 0 < ctx.fileHashTableEntryCount := lt_of_lt_of_le (by decide) (le_romfsGetHashTableCount _)
  have hdirCount : 0 < ctx.dirHashTableEntryCount := lt_of_lt_of_le (by decide) (le_romfsGetHashTableCount _)
  have hfileIff : Complete (heads (ctx.metadata std signedChar) ctx.fileHashTable)
      (nextLink (ctx.metadata std signedChar) ctx.fileTable 0x18) ctx.fileHashTableEntryCount (fileBuckets std ctx) ↔
      ∀ placed ∈ (ctx.place std).files,
        (nameHash ((ctx.place std).directoryOffset placed.file.parent)
          (nameBytes placed.file.path placed.file.curPathOfs placed.file.nameSize)).toNat % ctx.fileHashTableEntryCount =
          (placed.hash signedChar (ctx.place std)).toNat % ctx.fileHashTableEntryCount :=
    hfiles.complete_iff fun placed _ => mod_lt _ hfileCount
  have hdirIff : Complete (heads (ctx.metadata std signedChar) 0) (nextLink (ctx.metadata std signedChar) ctx.dirTable 0x10)
      ctx.dirHashTableEntryCount (directoryBuckets std ctx) ↔
      ∀ placed ∈ (ctx.place std).directories,
        (nameHash (placed.parentOffset (ctx.place std))
          (nameBytes placed.dir.path placed.dir.curPathOfs placed.dir.nameSize)).toNat % ctx.dirHashTableEntryCount =
          (placed.hash signedChar (ctx.place std)).toNat % ctx.dirHashTableEntryCount :=
    hdirs.complete_iff fun placed _ => mod_lt _ hdirCount
  have hsame : TablesComplete std signedChar ctx ↔ _ ∧ _ := ⟨fun h => ⟨h.files, h.directories⟩, fun h => ⟨h.1, h.2⟩⟩
  rw [hsame, hfileIff, hdirIff]
  refine and_congr (forall₂_congr fun placed hplaced => ?_) (forall₂_congr fun placed hplaced => ?_)
  · rw [hfileHash placed hplaced]
  · rw [hdirHash placed hplaced]

lemma putEntry_congr {table : ℕ} {entryOffset hash hash' : BitVec 32} {name : List Byte} {nameSize : ℕ}
    {entry : ℕ → List Byte} (h : hash.toNat % count = hash'.toNat % count) :
    putEntry hashTable count table entryOffset hash name nameSize entry metadata =
      putEntry hashTable count table entryOffset hash' name nameSize entry metadata := by
  unfold putEntry
  rw [h]

/-- If no name changes its bucket, all hosts write the same image. -/
lemma BucketsAgree.build_eq (h : BucketsAgree std ctx) : ctx.build std true = ctx.build std false := by
  have hfiles : ∀ metadata, ctx.putFiles true (ctx.place std) metadata = ctx.putFiles false (ctx.place std) metadata := fun metadata =>
    foldl_ext _ _ metadata fun _ placed hplaced => putEntry_congr (h.files placed hplaced)
  have hdirs : ∀ metadata, ctx.putDirectories true (ctx.place std) metadata = ctx.putDirectories false (ctx.place std) metadata :=
    fun metadata => foldl_ext _ _ metadata fun _ placed hplaced => putEntry_congr (h.directories placed hplaced)
  have hmetadata : ctx.metadata std true = ctx.metadata std false := by
    rw [RomFSBuildContext.metadata, RomFSBuildContext.metadata, hfiles, hdirs]
  rw [RomFSBuildContext.build, RomFSBuildContext.build, hmetadata]

end Complete

/-- **The hash tables of a RomFS are complete**, and the same on hosts with signed and with unsigned characters, if and only if no
name has hashes in different buckets on them. -/
theorem hashTables_complete_iff (patchIPS : VfsFile → VfsFile → Option VfsFile) (std : StdSort) (base : VectorVfsDirectory)
    (ext : Option VectorVfsDirectory) (hfits : (RomFSBuildContext.new patchIPS base ext).Fits) :
    HashTablesComplete std (.new patchIPS base ext) ↔ BucketsAgree std (.new patchIPS base ext) := by
  have hright := RomFSBuildContext.Right.new patchIPS base ext
  constructor
  · rintro ⟨htables, -⟩
    obtain ⟨hfiles, hdirs⟩ := (tablesComplete_iff true hright hfits).1 (htables true)
    exact ⟨fun placed hplaced => (hfiles placed hplaced).symm, fun placed hplaced => (hdirs placed hplaced).symm⟩
  · intro hagree
    refine ⟨fun signedChar => (tablesComplete_iff signedChar hright hfits).2 ?_, hagree.build_eq⟩
    cases signedChar with
    | false => exact ⟨fun _ _ => rfl, fun _ _ => rfl⟩
    | true =>
      exact ⟨fun placed hplaced => (hagree.files placed hplaced).symm,
        fun placed hplaced => (hagree.directories placed hplaced).symm⟩

/-- A directory with one empty file, whose name has one byte. -/
def oneFile (c : Byte) : VectorVfsDirectory := .mk [⟨[c], vectorVfsFile []⟩] [] []

def oneFileContext (c : Byte) : RomFSBuildContext :=
  ⟨[rootContext], [⟨[0x2F, c], 1, 2, 0, 0, vectorVfsFile []⟩], 0x18, 0x24⟩

lemma oneFile_context (c : Byte) : RomFSBuildContext.new (fun _ _ => none) (oneFile c) none = oneFileContext c := by
  rw [RomFSBuildContext.new, oneFile, visitDirectory, visitSubdirectories]
  simp [visitFiles, hasStub, fileContext, childSource, childPath, childPathOfs, addU32, rootContext, RomFSBuildContext.addFile,
    RomFSBuildFileContext.entrySize, RomFSBuildFileContext.nameSize, subU32, alignUp, oneFileContext, vectorVfsFile]

lemma oneFile_fits (c : Byte) : (RomFSBuildContext.new (fun _ _ => none) (oneFile c) none).Fits := by
  rw [oneFile_context]
  refine ⟨?_, ?_, show 0x18 ≤ 2 ^ 32 by decide, show 0x24 ≤ 2 ^ 32 by decide⟩
  · intro dir hdir
    rw [mem_singleton.1 hdir]
    decide
  · intro file hfile
    rw [mem_singleton.1 hfile]
    show 2 + 3 < 2 ^ 32
    decide

lemma oneFile_agree_iff (std : StdSort) (c : Byte) : BucketsAgree std (oneFileContext c) ↔
    (romfsCalcPathHash true 0 [0x2F, c] 1 1).toNat % 3 = (romfsCalcPathHash false 0 [0x2F, c] 1 1).toNat % 3 := by
  obtain ⟨hfiles, -⟩ := place_files std (oneFileContext c)
  obtain ⟨hdirs, hoffsets⟩ := place_directories std (oneFileContext c)
  have hsortedFiles : (oneFileContext c).sortedFiles std = (oneFileContext c).files := perm_singleton.1 (std.perm _ _)
  have hsortedDirs : (oneFileContext c).sortedDirectories std = [(rootContext, 0)] := perm_singleton.1 (std.perm _ _)
  rw [hsortedFiles] at hfiles
  rw [hsortedDirs] at hdirs hoffsets
  obtain ⟨file, hfile, hfileEq⟩ := map_eq_singleton_iff.1 hfiles
  obtain ⟨dir, hdir, hdirEq⟩ := map_eq_singleton_iff.1 hdirs
  rw [hdir] at hoffsets
  have hoffset : dir.entryOffset = 0 := singleton_inj.1 hoffsets
  obtain ⟨hroot, hnumber⟩ := Prod.mk.inj hdirEq
  have hparent : ((oneFileContext c).place std).directoryOffset 0 = 0 := by
    simp [Placement.directoryOffset, hdir, hnumber, hoffset]
  have hhash : ∀ signedChar, file.hash signedChar ((oneFileContext c).place std) =
      romfsCalcPathHash signedChar 0 [0x2F, c] 1 1 := by
    intro signedChar
    rw [PlacedFile.hash, hfileEq]
    show romfsCalcPathHash signedChar (Placement.directoryOffset _ 0) [0x2F, c] 1 (subU32 2 1) = _
    rw [hparent, show subU32 2 1 = 1 by decide]
  constructor
  · intro h
    have := h.files file (by rw [hfile]; exact mem_singleton_self file)
    rwa [hhash, hhash] at this
  · intro h
    refine ⟨fun placed hplaced => ?_, fun placed hplaced => ?_⟩
    · rw [hfile] at hplaced
      rw [mem_singleton.1 hplaced, hhash, hhash]
      exact h
    · rw [hdir] at hplaced
      rw [mem_singleton.1 hplaced, PlacedDirectory.hash, PlacedDirectory.hash, hroot]
      rfl

theorem hashTables_complete_ascii :
    (RomFSBuildContext.new (fun _ _ => none) (oneFile 0x61) none).Fits ∧
      HashTablesComplete .stable (.new (fun _ _ => none) (oneFile 0x61) none) := by
  have hagree : BucketsAgree .stable (.new (fun _ _ => none) (oneFile 0x61) none) := by
    rw [oneFile_context, oneFile_agree_iff]
    decide
  exact ⟨oneFile_fits 0x61, (hashTables_complete_iff (fun _ _ => none) .stable (oneFile 0x61) none (oneFile_fits 0x61)).2 hagree⟩

/-- **A name with a byte above 127** is in the wrong bucket on a host whose characters are signed. -/
theorem hashTables_incomplete_above_ascii :
    ∃ base, (RomFSBuildContext.new (fun _ _ => none) base none).Fits ∧
      ¬ HashTablesComplete .stable (.new (fun _ _ => none) base none) := by
  refine ⟨oneFile 0x80, oneFile_fits 0x80, fun hcomplete => ?_⟩
  have hright := RomFSBuildContext.Right.new (fun _ _ => none) (oneFile 0x80) none
  obtain ⟨hfiles, hdirs⟩ := (tablesComplete_iff true hright (oneFile_fits 0x80)).1 (hcomplete.1 true)
  have hagree : BucketsAgree .stable (.new (fun _ _ => none) (oneFile 0x80) none) :=
    ⟨fun placed hplaced => (hfiles placed hplaced).symm, fun placed hplaced => (hdirs placed hplaced).symm⟩
  rw [oneFile_context, oneFile_agree_iff] at hagree
  exact absurd hagree (by decide)

end Voltemu.FileSys.RomFs
