import ServerlessLLM.Vram.Compact
import ServerlessLLM.Vram.Split

/-!
# The VRAM manager

`VRAMManager::LoadModel` with its strategies 1 to 4, `RegisteredModel::LoadModelFromMem` and `VRAMManager::AllocateBlocks`,
and the runs of a manager. The vector `allocated_regions` of `LoadModel` is a list of addresses; the null pointer is 0.
-/

namespace ServerlessLLM

open Linked Function TGNeedAllocates

/-- How a strategy ends: 0, -1, or a null pointer it dereferences. -/
inductive Outcome where
  | done
  | failed
  | crashed
  deriving DecidableEq

/-! ## The strategies -/

namespace GPUTensorPool

/-- The loop of `GlobalMerge`. -/
def globalMergeLoop (m : RegisteredModel) :
    List TGNeedAllocates → List Nat → GPUTensorPool → Outcome × List Nat × GPUTensorPool
  | [], addrs, p => (.done, addrs, p)
  | tg :: l, addrs, p =>
    match p.allocateRegionFromList tg.size tg.tgIndex.fingerprint with
    | (none, p) => (.failed, addrs, p)
    | (some i, p) => globalMergeLoop m l (addrs.set tg.tgId (p.region i).addr) (p.setModelRef i m)

/-- `GlobalMerge` (strategy 1). -/
def globalMerge (P : Platform) (m : RegisteredModel) (tgs : List TGNeedAllocates) (addrs : List Nat)
    (p : GPUTensorPool) : Outcome × List Nat × GPUTensorPool :=
  if tgs.isEmpty then (.done, addrs, p)
  else
    let (ret, p) := p.globalDeFrag P
    if ret ≠ 0 then (.failed, addrs, p) else globalMergeLoop m tgs addrs p

/-- One round of the merge loop of strategies 2 and 3: make room for a group, and place it there. -/
def greedyMergeStep (P : Platform) (m : RegisteredModel) (tg : TGNeedAllocates) (addrs : List Nat) (p : GPUTensorPool) :
    Bool × List Nat × GPUTensorPool :=
  match p.greedyMerge P tg.size with
  | (none, p) => (false, addrs, p)
  | (some merged, p) =>
    match p.allocateFreeRegion merged tg.size tg.tgIndex.fingerprint with
    | (none, p) => (false, addrs, p)
    | (some reg, p) => (true, addrs.set tg.tgId (p.region reg).addr, p.setModelRef reg m)

def greedyMergeLoop (P : Platform) (m : RegisteredModel) :
    List TGNeedAllocates → List Nat → GPUTensorPool → Outcome × List Nat × GPUTensorPool
  | [], addrs, p => (.done, addrs, p)
  | tg :: l, addrs, p =>
    match p.greedyMergeStep P m tg addrs with
    | (false, addrs, p) => (.failed, addrs, p)
    | (true, addrs, p) => greedyMergeLoop P m l addrs p

/-- `VRAMManager::GreedyMerge` (strategy 2): largest group first. -/
def greedyMergeAll (P : Platform) (m : RegisteredModel) (tgs : List TGNeedAllocates) (addrs : List Nat)
    (p : GPUTensorPool) : Outcome × List Nat × GPUTensorPool :=
  greedyMergeLoop P m (P.sortDesc size tgs) addrs p

end GPUTensorPool

structure BipartEdge where
  rightIdx : Nat
  weight : Int

/-- An edge to every FREE region a request fits in, weighted by the bytes it leaves over. The source also
computes move costs, a match bonus and a fragmentation penalty, and uses none of them. -/
def npmWeightFunc4 (p : GPUTensorPool) (toAllocates : List Nat) (freeRegions : List NodeId) : List (List BipartEdge) :=
  toAllocates.map fun req =>
    freeRegions.zipIdx.filterMap fun e =>
      if req ≤ (p.region e.1).size then some ⟨e.2, -((p.region e.1).size - req : Nat)⟩ else none

/-- Requests are the vertices `0 .. leftSize - 1`, regions the ones behind them. -/
def maxWeightBMatchingWithBoost (P : Platform) (leftEdges : List (List BipartEdge)) : List (Nat × Nat) :=
  let leftSize := leftEdges.length
  let rightSize := (leftEdges.flatten.map fun e => e.rightIdx + 1).foldr max 0
  let edges := leftEdges.zipIdx.flatMap fun e => e.1.map fun b => (e.2, leftSize + b.rightIdx, b.weight)
  let mate := P.maximumWeightedMatching (leftSize + rightSize) edges
  (List.range (leftSize + rightSize)).filterMap fun i =>
    match mate i with
    | some v => if i < v then some (i, v - leftSize) else none
    | none => none

namespace GPUTensorPool

/-- Pairs of a request's index and a FREE region. -/
def weightedBipartiteAllocate (P : Platform) (p : GPUTensorPool) (toAllocates : List Nat) : List (Nat × NodeId) :=
  let freeRegions := p.regions.filter fun i => (p.region i).status = .FREE
  (maxWeightBMatchingWithBoost P (npmWeightFunc4 p toAllocates freeRegions)).map fun e =>
    (e.1, freeRegions.getD e.2 0)

/-- Place the matched requests; `removed` are the indices placed so far. -/
def placeMatches (m : RegisteredModel) (remaining : List TGNeedAllocates) :
    List (Nat × NodeId) → List Nat → List Nat → GPUTensorPool → Bool × List Nat × List Nat × GPUTensorPool
  | [], addrs, removed, p => (true, addrs, removed, p)
  | (idx, region) :: l, addrs, removed, p =>
    match remaining[idx]? with
    | none => (false, addrs, removed, p)
    | some tg =>
      match p.allocateFreeRegion region tg.size tg.tgIndex.fingerprint with
      | (none, p) => (false, addrs, removed, p)
      | (some i, p) =>
        placeMatches m remaining l (addrs.set tg.tgId (p.region i).addr) (removed ++ [idx]) (p.setModelRef i m)

/-- The matching loop of strategy 3. It ends when no group is left or none can be matched; every other round places a group,
so there are at most as many rounds as groups. -/
def matchLoop (P : Platform) (m : RegisteredModel) :
    Nat → List TGNeedAllocates → List Nat → GPUTensorPool → Bool × List TGNeedAllocates × List Nat × GPUTensorPool
  | 0, remaining, addrs, p => (true, remaining, addrs, p)
  | fuel + 1, remaining, addrs, p =>
    if remaining.isEmpty then (true, remaining, addrs, p)
    else
      let pairs := p.weightedBipartiteAllocate P (remaining.map size)
      if pairs.isEmpty then (true, remaining, addrs, p)
      else
        match placeMatches m remaining pairs addrs [] p with
        | (false, addrs, _, p) => (false, remaining, addrs, p)
        | (true, addrs, removed, p) =>
          -- the indices are erased from the largest down, so that they stay valid
          matchLoop P m fuel ((P.sortDesc id removed).foldl List.eraseIdx remaining) addrs p

/-- `WeightedBipartiteMatch_GreedyMerge` (strategy 3). -/
def weightedBipartiteMatchGreedyMerge (P : Platform) (m : RegisteredModel) (tgs : List TGNeedAllocates)
    (addrs : List Nat) (p : GPUTensorPool) : Outcome × List Nat × GPUTensorPool :=
  match matchLoop P m tgs.length tgs addrs p with
  | (false, _, addrs, p) => (.failed, addrs, p)
  | (true, remaining, addrs, p) => greedyMergeLoop P m (P.sortDesc size remaining) addrs p

/-- The inner loop of `PartitionedBinPacking`: place the requests of a group one behind the other. A null `next_free` that is
handed to `AllocateNewRegion` is dereferenced there. -/
def packGroup (m : RegisteredModel) :
    List TGNeedAllocates → Option NodeId → List Nat → GPUTensorPool → Outcome × List Nat × GPUTensorPool
  | [], _, addrs, p => (.done, addrs, p)
  | _ :: _, none, addrs, p => (.crashed, addrs, p)
  | tg :: l, some nextFree, addrs, p =>
    match p.allocateNewRegion nextFree tg.size tg.tgIndex.fingerprint with
    | (none, _, p) => (.failed, addrs, p)
    | (some i, rest, p) => packGroup m l rest (addrs.set tg.tgId (p.region i).addr) (p.setModelRef i m)

/-- The outer loop of `PartitionedBinPacking`: merge each group, then place its requests. -/
def packGroups (P : Platform) (m : RegisteredModel) :
    List RegionAllocateGroup → List Nat → GPUTensorPool → Outcome × List Nat × GPUTensorPool
  | [], addrs, p => (.done, addrs, p)
  | g :: gs, addrs, p =>
    match p.mergeRegions P g.start g.stop true with
    | (none, p) => (.failed, addrs, p)
    | (some merged, p) =>
      match packGroup m g.tgToLoads (some merged) addrs p with
      | (.done, addrs, p) => packGroups P m gs addrs p
      | r => r

/-- `PartitionedBinPacking` (strategy 4). -/
def partitionedBinPacking (P : Platform) (m : RegisteredModel) (tgs : List TGNeedAllocates) (addrs : List Nat)
    (p : GPUTensorPool) : Outcome × List Nat × GPUTensorPool :=
  match p.recursiveSplitAllocate P tgs with
  | none => (.crashed, addrs, p)
  | some groups => packGroups P m groups addrs p

/-- The `switch` of `LoadModel`, for the strategies that keep the pool. -/
def runStrategy (P : Platform) (strategy : Int) (m : RegisteredModel) (tgs : List TGNeedAllocates) (addrs : List Nat)
    (p : GPUTensorPool) : Outcome × List Nat × GPUTensorPool :=
  if strategy = 1 then p.globalMerge P m tgs addrs
  else if strategy = 2 then p.greedyMergeAll P m tgs addrs
  else if strategy = 3 then p.weightedBipartiteMatchGreedyMerge P m tgs addrs
  else if strategy = 4 then p.partitionedBinPacking P m tgs addrs
  else (.failed, addrs, p)

end GPUTensorPool

/-! ## Loading -/

/-- `cudaMemcpy(dst, host, n, cudaMemcpyHostToDevice)`. -/
def cudaMemcpyHostToDevice (P : Platform) (d : Device) (dst : Nat) (host : List UInt8) (n : Nat) : Bool × Device :=
  let o := P.hostToDevice d.loads
  (o.ok, { d with
    loads := d.loads + 1
    bytes := overwrite d.bytes (if o.ok then fun i => host.getD (i - dst) 0 else o.junk) dst n })

/-- The loop of `LoadModelFromMem`. A group that is not in host memory runs into the timeout. -/
def loadGroups (P : Platform) (m : RegisteredModel) (addrs : List Nat) : List Nat → Device → Bool × Device
  | [], d => (true, d)
  | tgId :: l, d =>
    match (m.tensorGroupHostPtr[tgId]?).join, m.tensorGroupIndexes[tgId]?, addrs[tgId]? with
    | some host, some tg, some addr =>
      let (ok, d) := cudaMemcpyHostToDevice P d addr host tg.size
      if ok then loadGroups P m addrs l d else (false, d)
    | _, _, _ => (false, d)

/-- Copy the groups of `tgToLoad` to their addresses, after `cudaSetDevice`. -/
def loadModelFromMem (P : Platform) (m : RegisteredModel) (addrs tgToLoad : List Nat) (d : Device) : Bool × Device :=
  let ok := (P.hostToDevice d.loads).ok
  let d := { d with loads := d.loads + 1 }
  if ok then loadGroups P m addrs tgToLoad d else (false, d)

/-- The groups of a model that are not in the pool, and the addresses of those that are. -/
def collectGroups (p : GPUTensorPool) : List (TensorGroupIndex × Nat) → List TGNeedAllocates × List Nat
  | [] => ([], [])
  | (tg, i) :: l =>
    let (need, addrs) := collectGroups p l
    match p.getTensor tg.fingerprint with
    | some r => (need, (p.region r).addr :: addrs)
    | none => (⟨i, tg⟩ :: need, 0 :: addrs)

/-- What `LoadModel` returns: "ERROR", or the base offset of every group and the offset of every tensor (the response). A run
that dereferences a null pointer returns nothing. -/
inductive LoadResult where
  | error
  | crashed
  | ok (bases : List Nat) (response : List Nat)
deriving DecidableEq

/-- The response of `LoadModel`: the base offset of each group, and the offset of each tensor. -/
def buildResponse (base : Nat) (m : RegisteredModel) (addrs : List Nat) : LoadResult :=
  let bases := addrs.map fun a => a - base
  .ok bases (List.zipWith (fun b tg => tg.tensorIndexes.map fun t => b + t.offset) bases m.tensorGroupIndexes).flatten

/-- `LoadModel` on the pool of the device, once model and device were found. -/
def GPUTensorPool.loadModel (P : Platform) (p : GPUTensorPool) (m : RegisteredModel) (strategy : Int) :
    LoadResult × GPUTensorPool :=
  let p := (p.useModel m.modelPath).cleanBlocks
  let (tgs, addrs) := collectGroups p m.tensorGroupIndexes.zipIdx
  if tgs.isEmpty then (buildResponse p.gpuBaseAddr m addrs, p)
  else
    let (ret, p) := p.greedyDrop P (totalNeed tgs) m.modelPath
    if ret ≠ 0 then (.error, p)
    else
      match p.runStrategy P strategy m tgs addrs with
      | (.failed, _, p) => (.error, p)
      | (.crashed, _, p) => (.crashed, p)
      | (.done, addrs, p) =>
        if addrs.any (· = 0) then (.error, p)
        else
          let (ok, d) := loadModelFromMem P m addrs (tgs.map tgId) p.device
          let p := { p with device := d }
          if ok then (buildResponse p.gpuBaseAddr m addrs, p) else (.error, p)

/-! ## The manager -/

structure VRAMManager where
  registeredModels : String → Option RegisteredModel
  gpuTensorPools : Int → Option GPUTensorPool
  loadStrategy : Int

namespace VRAMManager

/-- `RegisterModel`, for a model that could be read from disk. -/
def registerModel (v : VRAMManager) (m : RegisteredModel) : VRAMManager :=
  match v.registeredModels m.modelPath with
  | some _ => v
  | none => { v with registeredModels := update v.registeredModels m.modelPath (some m) }

/-- `LoadModel`. The strategy the manager was made with overrides the argument, unless it is 4. -/
def loadModel (P : Platform) (v : VRAMManager) (modelPath : String) (deviceId strategy : Int) :
    LoadResult × VRAMManager :=
  match v.registeredModels modelPath, v.gpuTensorPools deviceId with
  | some m, some p =>
    let (r, p) := p.loadModel P m (if v.loadStrategy ≠ 4 then v.loadStrategy else strategy)
    (r, { v with gpuTensorPools := update v.gpuTensorPools deviceId (some p) })
  | _, _ => (.error, v)

def allocateBlocks (P : Platform) (v : VRAMManager) (deviceId : Int) (blockSize : Nat) (useModel : String)
    (blockNumber : Int) : List Nat × VRAMManager :=
  match v.gpuTensorPools deviceId with
  | some p =>
    let (r, p) := p.allocateBlocks P blockSize useModel blockNumber
    (r, { v with gpuTensorPools := update v.gpuTensorPools deviceId (some p) })
  | none => ([], v)

end VRAMManager

end ServerlessLLM
