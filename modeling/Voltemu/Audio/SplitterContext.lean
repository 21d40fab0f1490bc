import Mathlib.Data.BitVec

/-!
# Splitters

`audio_core/renderer/splitter`: a splitter sends a mix to several destinations.  The destinations are one pool;
each of them has room for one successor, and a splitter has the first destination of its list and a count.

* The guest's update is a sequence of 32-bit words: a header, an info for each splitter that gets a new list, and
  a record for each destination that gets new data.
* `RecomposeDestination` unlinks what hangs on a splitter and links the new list.  The unlinking walk has fuel
  here; running out of it is the answer `none`.
* Volumes and filters of a destination play no part in the lists or in the graph and are left out.
-/

namespace Voltemu.Audio

open Function

def unusedMixId : ℤ := 2 ^ 31 - 1

def unusedSplitterId : ℤ := -1

def makeMagic (a b c d : Char) : BitVec 32 :=
  BitVec.ofNat 32 (a.toNat + b.toNat * 2 ^ 8 + c.toNat * 2 ^ 16 + d.toNat * 2 ^ 24)

def splitterInParamHeaderMagic : BitVec 32 := makeMagic 'S' 'N' 'D' 'H'

def splitterInfoMagic : BitVec 32 := makeMagic 'S' 'N' 'D' 'I'

def splitterSendDataMagic : BitVec 32 := makeMagic 'S' 'N' 'D' 'D'

structure SplitterDestinationData where
  destinationId : ℤ
  inUse : Bool
  next : Option ℕ

structure SplitterInfo where
  sampleRate : BitVec 32
  destinationCount : ℕ
  hasNewConnection : Bool
  destinations : Option ℕ

structure SplitterContext where
  splitterInfos : ℕ → SplitterInfo
  infoCount : ℕ
  splitterDestinations : ℕ → SplitterDestinationData
  destinationsCount : ℕ
  splitterBugFixed : Bool
  splitterBiquadParamSupported : Bool
  splitterFloatCoeffSupported : Bool

/-- `SplitterInfo::InParameter`, with the destination ids that follow it. -/
structure InfoParameter where
  magic : BitVec 32
  id : ℤ
  sampleRate : BitVec 32
  destinationIds : List ℕ
deriving DecidableEq

def InfoParameter.read (input : ℕ → BitVec 32) (offset : ℕ) : InfoParameter where
  magic := input offset
  id := (input (offset + 1)).toInt
  sampleRate := input (offset + 2)
  destinationIds := (List.range (input (offset + 3)).toNat).map fun i => (input (offset + 4 + i)).toNat

/-- What of a `SplitterDestinationData::InParameter` matters here. -/
structure DataParameter where
  magic : BitVec 32
  id : ℤ
  mixId : ℤ
  inUse : Bool

namespace SplitterContext

def setNext (d : ℕ → SplitterDestinationData) (i : ℕ) (next : Option ℕ) : ℕ → SplitterDestinationData :=
  update d i { d i with next := next }

def getData (d : ℕ → SplitterDestinationData) (destinations : Option ℕ) : ℕ → Option ℕ
  | 0 => destinations
  | i + 1 => (getData d destinations i).bind fun x => (d x).next

/-- The first loop of `RecomposeDestination`. -/
def unlink : ℕ → (ℕ → SplitterDestinationData) → Option ℕ → Option (ℕ → SplitterDestinationData)
  | _, d, none => some d
  | 0, _, some _ => none
  | fuel + 1, d, some destination => unlink fuel (setNext d destination none) (d destination).next

/-- The second loop of `RecomposeDestination`. -/
def link : (ℕ → SplitterDestinationData) → ℕ → List ℕ → (ℕ → SplitterDestinationData)
  | d, _, [] => d
  | d, current, i :: ids => link (setNext d current (some i)) i ids

def getDestCountPerInfoForCompat (c : SplitterContext) : ℕ :=
  if c.infoCount = 0 then 0 else c.destinationsCount / c.infoCount

/-- `RecomposeDestination` of the splitter `s`.  A chain has at most as many links as there are destinations. -/
def recomposeDestination (c : SplitterContext) (s : ℕ) (info : InfoParameter) : Option SplitterContext :=
  (unlink (c.destinationsCount + 1) c.splitterDestinations (c.splitterInfos s).destinations).map fun d =>
    let ids :=
      if c.splitterBugFixed then info.destinationIds
      else info.destinationIds.take (min info.destinationIds.length c.getDestCountPerInfoForCompat)
    match ids with
    | [] =>
        { c with
          splitterInfos := update c.splitterInfos s
            { c.splitterInfos s with destinations := none }
          splitterDestinations := d }
    | head :: rest =>
        { c with
          splitterInfos := update c.splitterInfos s
            { c.splitterInfos s with destinations := some head, destinationCount := ids.length }
          splitterDestinations := link d head rest }

/-- `SplitterInfo::Update`, of the splitter that the parameter names: the size of the parameter in words. -/
def updateSplitterInfo (c : SplitterContext) (s : ℕ) (info : InfoParameter) : SplitterContext × ℕ :=
  ({ c with
      splitterInfos := update c.splitterInfos s
        { c.splitterInfos s with sampleRate := info.sampleRate, hasNewConnection := true } },
    7 + info.destinationIds.length)

def updateInfo (input : ℕ → BitVec 32) : ℕ → SplitterContext → ℕ → Option (SplitterContext × ℕ)
  | 0, c, offset => some (c, offset)
  | count + 1, c, offset =>
      let info := InfoParameter.read input offset
      if info.magic ≠ splitterInfoMagic then updateInfo input count c offset
      else if info.id < 0 ∨ (c.infoCount : ℤ) < info.id then some (c, offset)
      else (c.recomposeDestination info.id.toNat info).bind fun c =>
        let (c, size) := c.updateSplitterInfo info.id.toNat info
        updateInfo input count c (offset + size)

/-- `SplitterDestinationData::Update`. -/
def updateDestination (d : SplitterDestinationData) (data : DataParameter) : SplitterDestinationData :=
  { d with destinationId := data.mixId, inUse := data.inUse }

/-- A data parameter at an offset, and its size in words; the three layouts have `in_use` at different places. -/
def readData (c : SplitterContext) (input : ℕ → BitVec 32) (offset : ℕ) : DataParameter × ℕ :=
  let layout :=
    if !c.splitterBiquadParamSupported then (27, 28)
    else if !c.splitterFloatCoeffSupported then (33, 36)
    else (39, 42)
  (⟨input offset, (input (offset + 1)).toInt, (input (offset + 26)).toInt,
    (input (offset + layout.1)).setWidth 8 != 0⟩, layout.2)

def updateData (input : ℕ → BitVec 32) : ℕ → SplitterContext → ℕ → SplitterContext × ℕ
  | 0, c, offset => (c, offset)
  | count + 1, c, offset =>
      let (data, size) := c.readData input offset
      if data.magic ≠ splitterSendDataMagic then updateData input count c offset
      else if data.id < 0 ∨ (c.destinationsCount : ℤ) < data.id then updateData input count c offset
      else
        let i := data.id.toNat
        let c := { c with
          splitterDestinations := update c.splitterDestinations i (updateDestination (c.splitterDestinations i) data) }
        updateData input count c (offset + size)

def clearNewConnectionFlags (c : SplitterContext) : SplitterContext :=
  { c with
    splitterInfos := fun s => { c.splitterInfos s with hasNewConnection := false } }

def update (c : SplitterContext) (input : ℕ → BitVec 32) : Option (SplitterContext × Bool) :=
  if c.destinationsCount = 0 ∨ c.infoCount = 0 then some (c, true)
  else if input 0 ≠ splitterInParamHeaderMagic then some (c, false)
  else
    (updateInfo input (input 1).toNat c.clearNewConnectionFlags 8).map fun (c, offset) =>
      ((updateData input (input 2).toNat c offset).1, true)

def init (infoCount destinationsCount : ℕ) (bugFixed biquad float : Bool) : SplitterContext where
  splitterInfos := fun _ => ⟨0, 0, true, none⟩
  infoCount := infoCount
  splitterDestinations := fun _ => ⟨unusedMixId, false, none⟩
  destinationsCount := destinationsCount
  splitterBugFixed := bugFixed
  splitterBiquadParamSupported := biquad
  splitterFloatCoeffSupported := float

end SplitterContext

end Voltemu.Audio
