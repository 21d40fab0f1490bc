import Voltemu.FileSys.RomFs

/-!
# Building a RomFS

`RomFSBuildContext` of `core/file_sys/fsmitm_romfsbuild.cpp`.

* A context of a directory is known by its number in the order in which the directories are visited; the root has the number 0.
  Pointers to contexts are these numbers, or the offsets of their entries where nothing else is read through them.
* `std::sort` may leave elements that are equal in any order (`StdSort`).  Whether `char` is signed is a parameter, and so is what
  `PatchIPS` returns.
* The metadata are a memory and its size.  Assertions do not stop the program.
-/

namespace Voltemu.FileSys.RomFs

/-- `Common::AlignUp` of an unsigned number. -/
def alignUp (bits value size : ℕ) : ℕ := (if value % size = 0 then value else value - value % size + size) % 2 ^ bits

/-- A sum and a difference of `u32`. -/
def addU32 (a b : ℕ) : ℕ := (a + b) % 2 ^ 32

def subU32 (a b : ℕ) : ℕ := (a + (2 ^ 32 - b)) % 2 ^ 32

def romFsFilePartitionOfs : ℕ := 0x200

/-! ## Contexts -/

structure RomFSBuildDirectoryContext where
  path : List Byte
  curPathOfs : ℕ
  pathLen : ℕ
  parent : ℕ

structure RomFSBuildFileContext where
  path : List Byte
  curPathOfs : ℕ
  pathLen : ℕ
  size : ℕ
  parent : ℕ
  source : VfsFile

/-- The contexts in the order in which they are added, and the sizes of their tables. -/
structure RomFSBuildContext where
  directories : List RomFSBuildDirectoryContext
  files : List RomFSBuildFileContext
  dirTableSize : ℕ
  fileTableSize : ℕ

/-- The size of the name of an entry: `path_len - cur_path_ofs`. -/
def RomFSBuildDirectoryContext.nameSize (c : RomFSBuildDirectoryContext) : ℕ := subU32 c.pathLen c.curPathOfs

def RomFSBuildFileContext.nameSize (c : RomFSBuildFileContext) : ℕ := subU32 c.pathLen c.curPathOfs

def RomFSBuildDirectoryContext.entrySize (c : RomFSBuildDirectoryContext) : ℕ := 0x18 + alignUp 32 c.nameSize 4

def RomFSBuildFileContext.entrySize (c : RomFSBuildFileContext) : ℕ := 0x20 + alignUp 32 c.nameSize 4

namespace RomFSBuildContext

def addDirectory (ctx : RomFSBuildContext) (dir : RomFSBuildDirectoryContext) : RomFSBuildContext :=
  { ctx with directories := ctx.directories ++ [dir], dirTableSize := ctx.dirTableSize + dir.entrySize }

def addFile (ctx : RomFSBuildContext) (file : RomFSBuildFileContext) : RomFSBuildContext :=
  { ctx with files := ctx.files ++ [file], fileTableSize := ctx.fileTableSize + file.entrySize }

end RomFSBuildContext

def VectorVfsDirectory.getFile (name : List Byte) : VectorVfsDirectory → Option VfsFile
  | mk files _ _ => (files.find? fun file => file.name == name).map (·.file)

def VectorVfsDirectory.getSubdirectory (name : List Byte) : VectorVfsDirectory → Option VectorVfsDirectory
  | mk _ dirs _ => dirs.find? fun dir => dir.name == name

def stubName (name : List Byte) : List Byte := name ++ [0x2E, 0x73, 0x74, 0x75, 0x62]

def ipsName (name : List Byte) : List Byte := name ++ [0x2E, 0x69, 0x70, 0x73]

section Visit

variable (patchIPS : VfsFile → VfsFile → Option VfsFile)

def childPath (parent : RomFSBuildDirectoryContext) (name : List Byte) : List Byte := parent.path ++ [0x2F] ++ name

def childPathOfs (parent : RomFSBuildDirectoryContext) : ℕ := addU32 parent.pathLen 1

def hasStub (extDir : Option VectorVfsDirectory) (name : List Byte) : Bool := (extDir.bind (·.getFile (stubName name))).isSome

def childSource (extDir : Option VectorVfsDirectory) (file : NamedFile) : VfsFile :=
  match (extDir.bind (·.getFile (ipsName file.name))).bind (patchIPS file.file) with
  | some patched => patched
  | none => file.file

def fileContext (extDir : Option VectorVfsDirectory) (number : ℕ) (parent : RomFSBuildDirectoryContext) (file : NamedFile) :
    RomFSBuildFileContext where
  path := childPath parent file.name
  curPathOfs := childPathOfs parent
  pathLen := addU32 (childPathOfs parent) file.name.length
  size := (childSource patchIPS extDir file).getSize
  parent := number
  source := childSource patchIPS extDir file

def directoryContext (number : ℕ) (parent : RomFSBuildDirectoryContext) (name : List Byte) : RomFSBuildDirectoryContext where
  path := childPath parent name
  curPathOfs := childPathOfs parent
  pathLen := addU32 (childPathOfs parent) name.length
  parent := number

def visitFiles (extDir : Option VectorVfsDirectory) (number : ℕ) (parent : RomFSBuildDirectoryContext) (files : List NamedFile)
    (ctx : RomFSBuildContext) : RomFSBuildContext :=
  files.foldl (fun ctx file =>
    if hasStub extDir file.name then ctx else ctx.addFile (fileContext patchIPS extDir number parent file)) ctx

mutual

/-- `VisitDirectory`, with the number of the directory. -/
def visitDirectory : VectorVfsDirectory → (extDir : Option VectorVfsDirectory) → (number : ℕ) →
    (parent : RomFSBuildDirectoryContext) → RomFSBuildContext → RomFSBuildContext
  | .mk files dirs _, extDir, number, parent, ctx =>
      visitSubdirectories dirs extDir number parent (visitFiles patchIPS extDir number parent files ctx)

/-- The loop of `VisitDirectory` over subdirectories. -/
def visitSubdirectories : List VectorVfsDirectory → (extDir : Option VectorVfsDirectory) → (number : ℕ) →
    (parent : RomFSBuildDirectoryContext) → RomFSBuildContext → RomFSBuildContext
  | [], _, _, _, ctx => ctx
  | dir :: dirs, extDir, number, parent, ctx =>
      if hasStub extDir dir.name then visitSubdirectories dirs extDir number parent ctx
      else
        let child := directoryContext number parent dir.name
        let childNumber := ctx.directories.length
        let childExtDir := extDir.bind (·.getSubdirectory dir.name)
        visitSubdirectories dirs extDir number parent (visitDirectory dir childExtDir childNumber child (ctx.addDirectory child))

end

/-- The root, whose path is empty. -/
def rootContext : RomFSBuildDirectoryContext := ⟨[], 0, 0, 0⟩

def RomFSBuildContext.new (base : VectorVfsDirectory) (ext : Option VectorVfsDirectory) : RomFSBuildContext :=
  visitDirectory patchIPS base ext 0 rootContext ⟨[rootContext], [], 0x18, 0⟩

end Visit

/-! ## Hashes -/

def charValue (signedChar : Bool) (c : Byte) : BitVec 32 := if signedChar then c.signExtend 32 else c.setWidth 32

def romfsCalcPathHash (signedChar : Bool) (parent : BitVec 32) (path : List Byte) (start pathLen : ℕ) : BitVec 32 :=
  (List.range pathLen).foldl (fun hash i =>
    let hash := (hash >>> 5) ||| (hash <<< 27)
    hash ^^^ charValue signedChar (path.getD (addU32 start i) 0)) (parent ^^^ 123456789#32)

/-- The primes that a large number of buckets is not divisible by. -/
def hasSmallFactor (count : ℕ) : Bool :=
  count % 2 == 0 || count % 3 == 0 || count % 5 == 0 || count % 7 == 0 || count % 11 == 0 || count % 13 == 0 || count % 17 == 0

def hashTableCountLoop : (fuel count : ℕ) → ℕ
  | 0, count => count
  | fuel + 1, count => if hasSmallFactor count then hashTableCountLoop fuel (count + 1) else count

/-- `romfs_get_hash_table_count`.  One of `510510 = 2 * 3 * 5 * 7 * 11 * 13 * 17` numbers in a row has none of the factors. -/
def romfsGetHashTableCount (numEntries : ℕ) : ℕ :=
  if numEntries < 3 then 3 else if numEntries < 19 then numEntries ||| 1 else hashTableCountLoop 510510 numEntries

/-! ## `Build` -/

/-- **`std::sort`**: some order in which no element is less than one before it. -/
structure StdSort where
  sort : {α : Type} → (α → α → Bool) → List α → List α
  perm : ∀ {α : Type} (less : α → α → Bool) (l : List α), (sort less l).Perm l
  ordered : ∀ {α : Type} (less : α → α → Bool) (l : List α), (∀ a b c, !less b a → !less c b → !less c a) →
    (∀ a b, !less b a || !less a b) → (sort less l).Pairwise fun a b => !less b a

/-- A sort that keeps the order of elements that are equal. -/
def StdSort.stable : StdSort where
  sort less l := l.mergeSort fun a b => !less b a
  perm _ l := List.mergeSort_perm l _
  ordered _ l htrans htotal := List.pairwise_mergeSort htrans htotal l

def pathLess (a b : List Byte) : Bool := decide (a < b)

/-- The offsets of entries that follow each other. -/
def entryOffsets : (entryOffset : BitVec 32) → (sizes : List ℕ) → List (BitVec 32)
  | _, [] => []
  | entryOffset, size :: sizes => entryOffset :: entryOffsets (entryOffset + BitVec.ofNat 32 size) sizes

/-- The offsets of files in their partition, and its size. -/
def fileOffsets : (filePartitionSize : ℕ) → (sizes : List ℕ) → List ℕ × ℕ
  | filePartitionSize, [] => ([], filePartitionSize)
  | filePartitionSize, size :: sizes =>
      let offset := alignUp 64 filePartitionSize 16
      let rest := fileOffsets (addU64 offset size) sizes
      (offset :: rest.1, rest.2)

/-- **The deferred assignment of siblings**, of entries that have a parent and an offset: the first child of every parent, and the
sibling of every entry. -/
def linkSiblings : List (ℕ × BitVec 32) → (ℕ → BitVec 32) × List (BitVec 32)
  | [] => (fun _ => romFsEntryEmpty, [])
  | (parent, entryOffset) :: rest =>
      let (first, siblings) := linkSiblings rest
      (Function.update first parent entryOffset, first parent :: siblings)

structure PlacedFile where
  file : RomFSBuildFileContext
  entryOffset : BitVec 32
  offset : ℕ
  sibling : BitVec 32

structure PlacedDirectory where
  dir : RomFSBuildDirectoryContext
  number : ℕ
  entryOffset : BitVec 32
  sibling : BitVec 32

/-- What `Build` determines before it writes anything. -/
structure Placement where
  files : List PlacedFile
  directories : List PlacedDirectory
  filePartitionSize : ℕ
  firstFile : ℕ → BitVec 32
  firstChild : ℕ → BitVec 32

section Build

variable (std : StdSort) (signedChar : Bool) (ctx : RomFSBuildContext)

def Placement.directoryOffset (p : Placement) (number : ℕ) : BitVec 32 :=
  ((p.directories.find? fun placed => placed.number == number).map (·.entryOffset)).getD 0

def RomFSBuildContext.sortedFiles : List RomFSBuildFileContext := std.sort (fun a b => pathLess a.path b.path) ctx.files

def RomFSBuildContext.sortedDirectories : List (RomFSBuildDirectoryContext × ℕ) :=
  std.sort (fun a b => pathLess a.1.path b.1.path) ctx.directories.zipIdx

/-- The first part of `Build`.  The loop over directories from the last one on stops at the root. -/
def RomFSBuildContext.place : Placement :=
  let files := ctx.sortedFiles std
  let directories := ctx.sortedDirectories std
  let fileEntryOffsets := entryOffsets 0 (files.map (·.entrySize))
  let offsets := fileOffsets 0 (files.map (·.size))
  let fileLinks := linkSiblings ((files.map (·.parent)).zip fileEntryOffsets)
  let dirEntryOffsets := entryOffsets 0 (directories.map (·.1.entrySize))
  let children := (directories.zip dirEntryOffsets).reverse.takeWhile fun d => d.1.2 != 0
  let dirLinks := linkSiblings (children.reverse.map fun d => (d.1.1.parent, d.2))
  let dirSiblings := List.replicate (directories.length - children.length) romFsEntryEmpty ++ dirLinks.2
  { files := List.zipWith (fun (file, entryOffset) (offset, sibling) => ⟨file, entryOffset, offset, sibling⟩)
      (files.zip fileEntryOffsets) (offsets.1.zip fileLinks.2)
    directories := List.zipWith (fun (dir, number) (entryOffset, sibling) => ⟨dir, number, entryOffset, sibling⟩)
      directories (dirEntryOffsets.zip dirSiblings)
    filePartitionSize := offsets.2
    firstFile := fileLinks.1
    firstChild := dirLinks.1 }

/-- An entry that is put in front of a hash chain, at an address of its table, with its name behind it. -/
def putEntry (hashTable count table : ℕ) (entryOffset hash : BitVec 32) (name : List Byte) (nameSize : ℕ)
    (entry : (hash : ℕ) → List Byte) (metadata : ℕ → Byte) : ℕ → Byte :=
  let bucket := hashTable + 4 * (hash.toNat % count)
  let head := littleEndian metadata bucket 4
  let address := table + entryOffset.toNat
  let metadata := putBytes metadata bucket (leBytes 4 entryOffset.toNat)
  let metadata := putBytes metadata address (entry head)
  let metadata := putBytes metadata (address + (entry head).length) (List.replicate (alignUp 32 nameSize 4) 0)
  putBytes metadata (address + (entry head).length) name

def nameBytes (path : List Byte) (curPathOfs nameSize : ℕ) : List Byte := (path.drop curPathOfs).take nameSize

/-- `RomFSFileEntry`. -/
def PlacedFile.entry (p : Placement) (placed : PlacedFile) (hash : ℕ) : List Byte :=
  leBytes 4 (p.directoryOffset placed.file.parent).toNat ++ leBytes 4 placed.sibling.toNat ++ leBytes 8 placed.offset ++
    leBytes 8 placed.file.size ++ leBytes 4 hash ++ leBytes 4 placed.file.nameSize

/-- The offset of the entry of the parent, which is 0 for the root. -/
def PlacedDirectory.parentOffset (p : Placement) (placed : PlacedDirectory) : BitVec 32 :=
  if placed.number = 0 then 0 else p.directoryOffset placed.dir.parent

/-- `RomFSDirectoryEntry`. -/
def PlacedDirectory.entry (p : Placement) (placed : PlacedDirectory) (hash : ℕ) : List Byte :=
  leBytes 4 (placed.parentOffset p).toNat ++ leBytes 4 placed.sibling.toNat ++ leBytes 4 (p.firstChild placed.number).toNat ++
    leBytes 4 (p.firstFile placed.number).toNat ++ leBytes 4 hash ++ leBytes 4 placed.dir.nameSize

def PlacedFile.hash (p : Placement) (placed : PlacedFile) : BitVec 32 :=
  romfsCalcPathHash signedChar (p.directoryOffset placed.file.parent) placed.file.path placed.file.curPathOfs placed.file.nameSize

def PlacedDirectory.hash (p : Placement) (placed : PlacedDirectory) : BitVec 32 :=
  romfsCalcPathHash signedChar (placed.parentOffset p) placed.dir.path placed.dir.curPathOfs placed.dir.nameSize

namespace RomFSBuildContext

def dirHashTableEntryCount : ℕ := romfsGetHashTableCount ctx.directories.length

def fileHashTableEntryCount : ℕ := romfsGetHashTableCount ctx.files.length

def dirHashTableSize : ℕ := 4 * ctx.dirHashTableEntryCount

def fileHashTableSize : ℕ := 4 * ctx.fileHashTableEntryCount

/-- The places of the tables in the metadata, of which the first one is at 0. -/
def dirTable : ℕ := ctx.dirHashTableSize

def fileHashTable : ℕ := ctx.dirHashTableSize + ctx.dirTableSize

def fileTable : ℕ := ctx.dirHashTableSize + ctx.dirTableSize + ctx.fileHashTableSize

def metadataSize : ℕ := ctx.fileHashTableSize + ctx.fileTableSize + ctx.dirHashTableSize + ctx.dirTableSize

/-- The metadata with hash tables that are initialized. -/
def initialMetadata : ℕ → Byte :=
  let metadata := putBytes (fun _ => 0) 0 (List.replicate ctx.dirHashTableSize 0xFF#8)
  putBytes metadata ctx.fileHashTable (List.replicate ctx.fileHashTableSize 0xFF#8)

def putFiles (p : Placement) (metadata : ℕ → Byte) : ℕ → Byte :=
  p.files.foldl (fun metadata placed =>
    putEntry ctx.fileHashTable ctx.fileHashTableEntryCount ctx.fileTable placed.entryOffset (placed.hash signedChar p)
      (nameBytes placed.file.path placed.file.curPathOfs placed.file.nameSize) placed.file.nameSize (placed.entry p) metadata) metadata

def putDirectories (p : Placement) (metadata : ℕ → Byte) : ℕ → Byte :=
  p.directories.foldl (fun metadata placed =>
    putEntry 0 ctx.dirHashTableEntryCount ctx.dirTable placed.entryOffset (placed.hash signedChar p)
      (nameBytes placed.dir.path placed.dir.curPathOfs placed.dir.nameSize) placed.dir.nameSize (placed.entry p) metadata) metadata

def metadata : ℕ → Byte :=
  ctx.putDirectories signedChar (ctx.place std) (ctx.putFiles signedChar (ctx.place std) ctx.initialMetadata)

def headerBytes (p : Placement) : List Byte :=
  let dirHashTableOfs := alignUp 64 (addU64 romFsFilePartitionOfs p.filePartitionSize) 4
  let dirTableOfs := addU64 dirHashTableOfs ctx.dirHashTableSize
  let fileHashTableOfs := addU64 dirTableOfs ctx.dirTableSize
  let fileTableOfs := addU64 fileHashTableOfs ctx.fileHashTableSize
  leBytes 8 0x50 ++ leBytes 8 dirHashTableOfs ++ leBytes 8 ctx.dirHashTableSize ++ leBytes 8 dirTableOfs ++
    leBytes 8 ctx.dirTableSize ++ leBytes 8 fileHashTableOfs ++ leBytes 8 ctx.fileHashTableSize ++ leBytes 8 fileTableOfs ++
    leBytes 8 ctx.fileTableSize ++ leBytes 8 romFsFilePartitionOfs

/-- **`Build`**: the pieces of the image and their offsets. -/
def build : List (ℕ × VfsFile) :=
  let p := ctx.place std
  let header := (0, vectorVfsFile (ctx.headerBytes p))
  let files := p.files.map fun placed => (addU64 placed.offset romFsFilePartitionOfs, placed.file.source)
  let metadataOfs := alignUp 64 (addU64 romFsFilePartitionOfs p.filePartitionSize) 4
  let metadata := (metadataOfs, vectorVfsFile ((List.range ctx.metadataSize).map (ctx.metadata std signedChar)))
  std.sort (fun a b => decide (a.1 < b.1)) (header :: files ++ [metadata])

end RomFSBuildContext

end Build

end Voltemu.FileSys.RomFs
