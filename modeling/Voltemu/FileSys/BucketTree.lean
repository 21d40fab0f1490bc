import Voltemu.FileSys.LittleEndian

/-!
# Bucket trees

`BucketTree` and its `Visitor`.

* The node storage and the entry storage are functions from offsets to bytes, and numbers in them are little endian.  Nodes that
  are copied to a buffer are read where they are.
* `s32` numbers are integers; sums of them wrap.
* A visitor has a list of what it has read: the storage, the offset and the size of every read.
-/

namespace Voltemu.FileSys

/-! ## Numbers in a storage -/

def s64At (storage : ℕ → Byte) (offset : ℕ) : ℤ := (BitVec.ofNat 64 (littleEndian storage offset 8)).toInt

def s32At (storage : ℕ → Byte) (offset : ℕ) : ℤ := (BitVec.ofNat 32 (littleEndian storage offset 4)).toInt

/-- A number that is converted to `s32`. -/
def toS32 (x : ℤ) : ℤ := x.bmod (2 ^ 32)

/-- `Common::DivideUp` of two `s32` numbers. -/
def divideUp (x y : ℤ) : ℤ := (toS32 (x + (y - 1))).tdiv y

namespace BucketTree

/-- The results that the functions below fail with. -/
inductive Error
  | invalidArgument
  | invalidOffset
  | outOfRange
  | invalidSize
  | invalidBucketTreeNodeIndex
  | invalidBucketTreeNodeEntryCount
  | invalidBucketTreeNodeOffset
  | invalidBucketTreeEntryOffset
  | invalidBucketTreeEntrySetOffset
  | invalidBucketTreeVirtualOffset
deriving DecidableEq

/-! ## Nodes -/

/-- `sizeof(NodeHeader)`. -/
def NodeHeaderSize : ℕ := 0x10

def OffsetSize : ℕ := 8

def EntrySetHeaderSize : ℕ := 0x18

def NodeSizeMin : ℕ := 0x400

def NodeSizeMax : ℕ := 0x80000

structure NodeHeader where
  index : ℤ
  count : ℤ
  offset : ℤ
deriving DecidableEq

def nodeHeaderAt (storage : ℕ → Byte) (offset : ℕ) : NodeHeader :=
  ⟨s32At storage offset, s32At storage (offset + 4), s64At storage (offset + 8)⟩

def NodeHeader.verify (h : NodeHeader) (nodeIndex : ℤ) (nodeSize entrySize : ℕ) : Except Error Unit :=
  if h.index ≠ nodeIndex then .error .invalidBucketTreeNodeIndex
  else if ¬ (entrySize ≠ 0 ∧ nodeSize ≥ entrySize + NodeHeaderSize) then .error .invalidSize
  else if ¬ (h.count > 0 ∧ h.count ≤ ((nodeSize - NodeHeaderSize) / entrySize : ℕ)) then
    .error .invalidBucketTreeNodeEntryCount
  else if ¬ h.offset ≥ 0 then .error .invalidBucketTreeNodeOffset
  else .ok ()

/-- The loop of `StorageNode::Find`.  Every iteration halves the range, so that `fuel` is its length. -/
def storageNodeFindLoop (read : ℕ → ℤ) (stride : ℕ) (virtualAddress : ℤ) : (fuel pos count : ℕ) → ℕ
  | 0, pos, _ => pos
  | fuel + 1, pos, count =>
      if count > 0 then
        let half := count / 2
        let mid := pos + half * stride
        if read mid ≤ virtualAddress then
          storageNodeFindLoop read stride virtualAddress fuel (mid + stride) (count - (half + 1))
        else storageNodeFindLoop read stride virtualAddress fuel pos half
      else pos

/-- `StorageNode::Find`, with the index that it finds. -/
def storageNodeFind (read : ℕ → ℤ) (start stride count : ℕ) (virtualAddress : ℤ) : ℤ :=
  ((storageNodeFindLoop read stride virtualAddress count start count - start) / stride : ℕ) - 1

/-- `std::upper_bound` of a sorted range of `n` numbers. -/
def upperBound (read : ℕ → ℤ) (value : ℤ) : (first n : ℕ) → ℕ
  | first, 0 => first
  | first, n + 1 => if value < read first then first else upperBound read value (first + 1) n

/-! ## Counts -/

def getEntryCount (nodeSize entrySize : ℕ) : ℤ := toS32 ((nodeSize - NodeHeaderSize) / entrySize : ℕ)

def getOffsetCount (nodeSize : ℕ) : ℤ := toS32 ((nodeSize - NodeHeaderSize) / OffsetSize : ℕ)

def getEntrySetCount (nodeSize entrySize : ℕ) (entryCount : ℤ) : ℤ :=
  divideUp entryCount (getEntryCount nodeSize entrySize)

/-- `GetNodeL2Count`, with whether its `ASSERT` holds. -/
def getNodeL2Count (nodeSize entrySize : ℕ) (entryCount : ℤ) : ℤ × Bool :=
  let offsetCountPerNode := getOffsetCount nodeSize
  let entrySetCount := getEntrySetCount nodeSize entrySize entryCount
  if entrySetCount ≤ offsetCountPerNode then (0, true)
  else
    let nodeL2Count := divideUp entrySetCount offsetCountPerNode
    (divideUp (entrySetCount - (offsetCountPerNode - (nodeL2Count - 1))) offsetCountPerNode,
      decide (nodeL2Count ≤ offsetCountPerNode))

def isPowerOfTwo (x : ℕ) : Bool := x != 0 && x &&& (x - 1) == 0

/-- What `Initialize`, `QueryNodeStorageSize` and `QueryEntryStorageSize` assert. -/
def checkSizes (nodeSize entrySize : ℕ) : Bool :=
  decide (entrySize ≥ OffsetSize) && decide (nodeSize ≥ entrySize + NodeHeaderSize) &&
    decide (NodeSizeMin ≤ nodeSize ∧ nodeSize ≤ NodeSizeMax) && isPowerOfTwo nodeSize

def queryNodeStorageSize (nodeSize entrySize : ℕ) (entryCount : ℤ) : ℤ :=
  if entryCount ≤ 0 then 0 else (1 + (getNodeL2Count nodeSize entrySize entryCount).1) * nodeSize

def queryEntryStorageSize (nodeSize entrySize : ℕ) (entryCount : ℤ) : ℤ :=
  if entryCount ≤ 0 then 0 else getEntrySetCount nodeSize entrySize entryCount * nodeSize

end BucketTree

open BucketTree

/-! ## `BucketTree` -/

/-- `BucketTree`, once it is initialised. -/
structure BucketTree where
  nodeStorage : ℕ → Byte
  entryStorage : ℕ → Byte
  nodeSize : ℕ
  entrySize : ℕ
  entryCount : ℤ
  offsetCount : ℤ
  entrySetCount : ℤ
  startOffset : ℤ
  endOffset : ℤ

inductive BucketTree.Storage
  | node
  | entry
deriving DecidableEq

abbrev BucketTree.Read := BucketTree.Storage × ℕ × ℕ

namespace BucketTree

/-- The number at an index of the array of the L1 node. -/
def l1Offset (nodeStorage : ℕ → Byte) (i : ℕ) : ℤ := s64At nodeStorage (NodeHeaderSize + i * OffsetSize)

/-- `BucketTree::Initialize`, behind its assertions.  The L1 node is read at the start of the node storage. -/
def initializeTree (nodeStorage entryStorage : ℕ → Byte) (nodeSize entrySize : ℕ) (entryCount : ℤ) :
    Except Error BucketTree :=
  if ¬ entryCount > 0 then .error .invalidArgument
  else
    let node := nodeHeaderAt nodeStorage 0
    match node.verify 0 nodeSize OffsetSize with
    | .error e => .error e
    | .ok () =>
        let offsetCount := getOffsetCount nodeSize
        let entrySetCount := getEntrySetCount nodeSize entrySize entryCount
        let startOffset :=
          if offsetCount < entrySetCount ∧ node.count < offsetCount then l1Offset nodeStorage node.count.toNat
          else l1Offset nodeStorage 0
        let endOffset := node.offset
        if ¬ (0 ≤ startOffset ∧ startOffset ≤ l1Offset nodeStorage 0) then .error .invalidBucketTreeEntryOffset
        else if ¬ startOffset < endOffset then .error .invalidBucketTreeEntryOffset
        else
          .ok ⟨nodeStorage, entryStorage, nodeSize, entrySize, entryCount, offsetCount, entrySetCount, startOffset, endOffset⟩

def initializeReads (nodeSize : ℕ) : List BucketTree.Read := [(.node, 0, nodeSize)]

variable (t : BucketTree)

def nodeL1 : NodeHeader := nodeHeaderAt t.nodeStorage 0

def isExistL2 : Bool := decide (t.offsetCount < t.entrySetCount)

def isExistOffsetL2OnL1 : Bool := t.isExistL2 && decide (t.nodeL1.count < t.offsetCount)

def getEntrySetIndex (nodeIndex offsetIndex : ℤ) : ℤ :=
  t.offsetCount - t.nodeL1.count + t.offsetCount * nodeIndex + offsetIndex

/-! ## `Visitor` -/

/-- `EntrySetHeader::Info`. -/
structure EntrySetInfo where
  index : ℤ
  count : ℤ
  (end' : ℤ)
  start : ℤ
deriving DecidableEq

/-- The header of the entry set at an offset, and the offset of its first entry. -/
def entrySetInfoAt (storage : ℕ → Byte) (offset : ℕ) : EntrySetInfo :=
  ⟨s32At storage offset, s32At storage (offset + 4), s64At storage (offset + 8), s64At storage (offset + 0x10)⟩

def EntrySetInfo.header (info : EntrySetInfo) : NodeHeader := ⟨info.index, info.count, info.end'⟩

structure Visitor where
  entry : List Byte
  entryIndex : ℤ
  entrySetCount : ℤ
  entrySet : EntrySetInfo
  reads : List BucketTree.Read

def Visitor.new : Visitor := ⟨[], -1, 0, ⟨0, 0, 0, 0⟩, []⟩

def entryBytes (offset : ℕ) : List Byte := (List.range t.entrySize).map fun i => t.entryStorage (offset + i)

def getBucketTreeEntryOffset (entrySetOffset entrySize : ℕ) (entryIndex : ℤ) : ℕ :=
  entrySetOffset + NodeHeaderSize + entryIndex.toNat * entrySize

namespace Visitor

variable (v : Visitor)

def isValid : Bool := decide (v.entryIndex ≥ 0)

def canMoveNext : Bool :=
  v.isValid && (decide (v.entryIndex + 1 < v.entrySet.count) || decide (v.entrySet.index + 1 < v.entrySetCount))

def canMovePrevious : Bool := v.isValid && (decide (v.entryIndex > 0) || decide (v.entrySet.index > 0))

def readEntrySet (entrySetIndex : ℤ) : Visitor × EntrySetInfo :=
  let entrySetOffset := entrySetIndex.toNat * t.nodeSize
  ({ v with reads := v.reads ++ [(.entry, entrySetOffset, EntrySetHeaderSize)] },
    entrySetInfoAt t.entryStorage entrySetOffset)

/-- The entry of the current entry set at an index. -/
def readEntry (entryIndex : ℤ) : Visitor :=
  let entryOffset := getBucketTreeEntryOffset (v.entrySet.index.toNat * t.nodeSize) t.entrySize entryIndex
  { v with
    entry := t.entryBytes entryOffset
    entryIndex := entryIndex
    reads := v.reads ++ [(.entry, entryOffset, t.entrySize)] }

def moveNext : Except Error Visitor :=
  if v.isValid = false then .error .outOfRange
  else
    let entryIndex := v.entryIndex + 1
    if entryIndex = v.entrySet.count then
      let entrySetIndex := v.entrySet.index + 1
      if ¬ entrySetIndex < v.entrySetCount then .error .outOfRange
      else
        let (v', entrySet) := v.readEntrySet t entrySetIndex
        match entrySet.header.verify entrySetIndex t.nodeSize t.entrySize with
        | .error e => .error e
        | .ok () =>
            if ¬ (entrySet.start = v.entrySet.end' ∧ entrySet.start < entrySet.end') then
              .error .invalidBucketTreeEntrySetOffset
            else .ok ({ v' with entrySet := entrySet }.readEntry t 0)
    else .ok (v.readEntry t entryIndex)

def movePrevious : Except Error Visitor :=
  if v.isValid = false then .error .outOfRange
  else if v.entryIndex = 0 then
    if ¬ v.entrySet.index > 0 then .error .outOfRange
    else
      let entrySetIndex := v.entrySet.index - 1
      let (v', entrySet) := v.readEntrySet t entrySetIndex
      match entrySet.header.verify entrySetIndex t.nodeSize t.entrySize with
      | .error e => .error e
      | .ok () =>
          if ¬ (entrySet.end' = v.entrySet.start ∧ entrySet.start < entrySet.end') then
            .error .invalidBucketTreeEntrySetOffset
          else .ok ({ v' with entrySet := entrySet }.readEntry t (entrySet.count - 1))
  else .ok (v.readEntry t (v.entryIndex - 1))

/-- `FindEntrySet`, with the index of the entry set. -/
def findEntrySet (virtualAddress nodeIndex : ℤ) : Except Error (Visitor × ℤ) :=
  let nodeOffset := (nodeIndex + 1).toNat * t.nodeSize
  let v := { v with reads := v.reads ++ [(.node, nodeOffset, t.nodeSize)] }
  let header := nodeHeaderAt t.nodeStorage nodeOffset
  match header.verify nodeIndex t.nodeSize OffsetSize with
  | .error e => .error e
  | .ok () =>
      let index :=
        storageNodeFind (fun pos => s64At t.nodeStorage (nodeOffset + pos)) NodeHeaderSize OffsetSize header.count.toNat
          virtualAddress
      if ¬ index ≥ 0 then .error .invalidBucketTreeVirtualOffset
      else .ok (v, toS32 (t.getEntrySetIndex header.index index))

def findEntry (virtualAddress entrySetIndex : ℤ) : Except Error Visitor :=
  let entrySetOffset := entrySetIndex.toNat * t.nodeSize
  let entrySet := entrySetInfoAt t.entryStorage entrySetOffset
  match entrySet.header.verify entrySetIndex t.nodeSize t.entrySize with
  | .error e => .error e
  | .ok () =>
      let index :=
        storageNodeFind (fun pos => s64At t.entryStorage (entrySetOffset + pos)) NodeHeaderSize t.entrySize
          entrySet.count.toNat virtualAddress
      if ¬ index ≥ 0 then .error .outOfRange
      else
        .ok { v with
          entry := t.entryBytes (getBucketTreeEntryOffset entrySetOffset t.entrySize index)
          entryIndex := index
          entrySet := entrySet
          reads := v.reads ++ [(.entry, entrySetOffset, t.nodeSize)] }

/-- The entry set that an address is in, by the offsets in the L1 node. -/
def findEntrySetIndex (virtualAddress : ℤ) : Except Error (Visitor × ℤ) :=
  let node := t.nodeL1
  if t.isExistOffsetL2OnL1 = true ∧ virtualAddress < l1Offset t.nodeStorage 0 then
    let start := node.count.toNat
    let pos := upperBound (l1Offset t.nodeStorage) virtualAddress start (t.offsetCount - node.count).toNat
    if ¬ start < pos then .error .outOfRange else .ok (v, (pos - 1 - start : ℕ))
  else
    let pos := upperBound (l1Offset t.nodeStorage) virtualAddress 0 node.count.toNat
    if ¬ 0 < pos then .error .outOfRange
    else if t.isExistL2 then
      let nodeIndex : ℤ := (pos - 1 : ℕ)
      if ¬ (0 ≤ nodeIndex ∧ nodeIndex < t.offsetCount) then .error .invalidBucketTreeNodeOffset
      else v.findEntrySet t virtualAddress nodeIndex
    else .ok (v, (pos - 1 : ℕ))

def find (virtualAddress : ℤ) : Except Error Visitor :=
  if ¬ virtualAddress < t.nodeL1.offset then .error .outOfRange
  else
    match v.findEntrySetIndex t virtualAddress with
    | .error e => .error e
    | .ok (v, entrySetIndex) =>
        if ¬ (0 ≤ entrySetIndex ∧ entrySetIndex < t.entrySetCount) then .error .invalidBucketTreeNodeOffset
        else
          match v.findEntry t virtualAddress entrySetIndex with
          | .error e => .error e
          | .ok v => .ok { v with entrySetCount := t.entrySetCount }

end Visitor

def find (virtualAddress : ℤ) : Except Error Visitor :=
  if ¬ virtualAddress ≥ 0 then .error .invalidOffset
  else if t.entrySize = 0 then .error .outOfRange
  else Visitor.new.find t virtualAddress

end BucketTree

end Voltemu.FileSys
