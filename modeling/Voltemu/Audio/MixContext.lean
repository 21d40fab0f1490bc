import Voltemu.Audio.NodeStates
import Voltemu.Audio.SplitterContext

/-!
# Mixes

`audio_core/renderer/mix` and `InfoUpdater::UpdateMixes`: a mix sends to another mix or to a splitter.  The edges
of a mix are computed anew when its destination changes or its splitter has a new connection.

* In the dirty-only mode a parameter says itself which mix it is for; else the parameters are for the mixes in
  order.
* Volumes, effects, and the order and the buffer offsets that sorting computes are left out: nothing here reads
  them.  The negative counts that the dirty-only mode rejects are not lengths of a list.
-/

namespace Voltemu.Audio

def finalMixId : ℤ := 0

/-- `MixInfo::InParameter`. -/
structure MixParameter where
  bufferCount : ℕ
  inUse : Bool
  mixId : ℤ
  destMixId : ℤ
  destSplitterId : ℤ

structure MixInfo where
  inUse : Bool
  mixId : ℤ
  dstMixId : ℤ
  dstSplitterId : ℤ

structure MixContext where
  count : ℕ
  mixInfos : ℕ → MixInfo
  nodeStates : NodeStates
  edgeMatrix : EdgeMatrix

/-- What of `BehaviorInfo` matters here. -/
structure Behavior where
  splitterSupported : Bool
  mixInParameterDirtyOnlyUpdateSupported : Bool

def SplitterContext.getDestinationData (c : SplitterContext) (splitter destination : ℕ) : Option ℕ :=
  getData c.splitterDestinations (c.splitterInfos splitter).destinations destination

def SplitterContext.usingSplitter (c : SplitterContext) : Bool :=
  0 < c.infoCount && 0 < c.destinationsCount

/-- The loop of `UpdateConnection` over the destinations of a splitter. -/
def connectDestinations (e : EdgeMatrix) (c : SplitterContext) (mixId : ℤ) (splitter : ℕ) : EdgeMatrix :=
  (List.range (c.splitterInfos splitter).destinationCount).foldl (fun e i =>
    match c.getDestinationData splitter i with
    | some destination =>
        let destinationId := (c.splitterDestinations destination).destinationId
        if destinationId ≠ unusedMixId then e.setEdge (u32 mixId) (u32 destinationId) true else e
    | none => e) e

/-- Whether `UpdateConnection` goes on. -/
def MixInfo.reconnects (info : MixInfo) (p : MixParameter) (c : SplitterContext) : Bool :=
  let hasNewConnection := info.dstSplitterId ≠ unusedSplitterId &&
    (c.splitterInfos info.dstSplitterId.toNat).hasNewConnection
  !(info.dstMixId == p.destMixId && info.dstSplitterId == p.destSplitterId && !hasNewConnection)

/-- `UpdateConnection`: whether a sort is required comes last. -/
def MixInfo.updateConnection (info : MixInfo) (e : EdgeMatrix) (p : MixParameter) (c : SplitterContext) :
    MixInfo × EdgeMatrix × Bool :=
  if !info.reconnects p c then (info, e, false)
  else
    let e := e.removeEdges (u32 info.mixId)
    let e :=
      if p.destMixId = unusedMixId then
        if p.destSplitterId ≠ unusedSplitterId then
          connectDestinations e c info.mixId p.destSplitterId.toNat
        else e
      else e.setEdge (u32 info.mixId) (u32 p.destMixId) true
    ({ info with dstMixId := p.destMixId, dstSplitterId := p.destSplitterId }, e, true)

def MixInfo.update (info : MixInfo) (b : Behavior) (e : EdgeMatrix) (p : MixParameter)
    (c : SplitterContext) : MixInfo × EdgeMatrix × Bool :=
  let info := { info with inUse := p.inUse, mixId := p.mixId }
  if b.splitterSupported then info.updateConnection e p c
  else
    ({ info with dstMixId := p.destMixId, dstSplitterId := unusedSplitterId }, e,
      info.dstMixId != p.destMixId)

namespace MixContext

/-- One round of the second loop of `UpdateMixes`, for the mix `k`. -/
def updateMix (m : MixContext) (b : Behavior) (c : SplitterContext) (k : ℕ) (p : MixParameter) : MixContext × Bool :=
  let info := { m.mixInfos k with inUse := p.inUse }
  let changed := (m.mixInfos k).inUse != p.inUse
  if p.inUse then
    let (info, e, sortRequired) := info.update b m.edgeMatrix p c
    ({ m with mixInfos := Function.update m.mixInfos k info, edgeMatrix := e }, changed || sortRequired)
  else ({ m with mixInfos := Function.update m.mixInfos k info }, changed)

def mixOf (b : Behavior) (i : ℕ) (p : MixParameter) : ℕ :=
  if b.mixInParameterDirtyOnlyUpdateSupported then p.mixId.toNat else i

def updateLoop (b : Behavior) (c : SplitterContext) : ℕ → List MixParameter → MixContext → Bool → MixContext × Bool
  | _, [], m, dirty => (m, dirty)
  | i, p :: ps, m, dirty =>
      let (m, changed) := m.updateMix b c (mixOf b i p) p
      updateLoop b c (i + 1) ps m (dirty || changed)

def checks (m : MixContext) (b : Behavior) (params : List MixParameter) (mixBufferCount : ℕ) : Bool :=
  (!b.mixInParameterDirtyOnlyUpdateSupported || params.length ≤ 0x100) && mixBufferCount != 0 &&
  !(params.any fun p => p.inUse && ((m.count : ℤ) < p.destMixId && p.destMixId != unusedMixId &&
    p.mixId != finalMixId)) &&
  ((params.filter (·.inUse)).map (·.bufferCount)).sum % 2 ^ 32 ≤ mixBufferCount

/-- What becomes of an `UpdateMixes`; all but the first are `ResultInvalidUpdateInfo`. -/
inductive Outcome
  | success
  | rejected
  | unsorted
  | wrongSize
deriving DecidableEq

def consumedInputSize (b : Behavior) (params : List MixParameter) : ℕ :=
  (if b.mixInParameterDirtyOnlyUpdateSupported then 0x20 else 0) + params.length * 0x930

def updateMixes (m : MixContext) (b : Behavior) (c : SplitterContext) (params : List MixParameter)
    (mixBufferCount mixSize : ℕ) : Option (MixContext × Outcome) :=
  if !m.checks b params mixBufferCount then some (m, .rejected)
  else
    let (m, mixDirty) := updateLoop b c 0 params m false
    let outcome := if consumedInputSize b params ≠ mixSize then .wrongSize else .success
    if mixDirty && b.splitterSupported && c.usingSplitter then
      (m.nodeStates.tsort m.edgeMatrix).map fun (ns, sorted) =>
        ({ m with nodeStates := ns }, if sorted then outcome else .unsorted)
    else some (m, outcome)

def init (count : ℕ) : MixContext where
  count := count
  mixInfos := fun _ => ⟨false, unusedMixId, unusedMixId, unusedSplitterId⟩
  nodeStates := ⟨count, fun _ => .unknown, [], []⟩
  edgeMatrix := ⟨count, fun _ => false⟩

end MixContext

end Voltemu.Audio
