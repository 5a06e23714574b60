import ServerlessLLM.Library.Runs
import ServerlessLLM.Vram.Manager

/-!
# The manager of the mock backend

`VRAMManager` of `tools/mock_allocation`: the pool and the strategies are those of the store's manager, and `LoadModel` differs.
With `disable_parameter_reuse` it loads every group afresh; groups that do not fit behind the others are popped from the list
and given the address 1; and with `mock_copy` no byte is copied. The free strategy is 1 (`GreedyDrop`).
-/

namespace ServerlessLLM

open Function

/-- A platform whose copies succeed: what is left of one when `mock_copy` skips them. -/
def Platform.withoutCopies (P : Platform) : Platform :=
  { P with
    deviceToDevice := fun _ => { ok := true, junk := fun _ => 0 }
    hostToDevice := fun _ => { ok := true, junk := fun _ => 0 } }

namespace GPUTensorPool

/-- `GreedyDrop` of the mock backend: how many bytes there is room for, `n` at most. -/
def greedyDropSize (P : Platform) (p : GPUTensorPool) (n : Nat) (skipModel : String) : Nat × GPUTensorPool :=
  if n = 0 then (0, p)
  else if n ≤ p.getFreeSize then (n, p)
  else
    let need := n - p.getFreeSize
    let allocated := p.regions.filter fun i => (p.region i).status = .ALLOCATED
    if allocated.any fun i => (p.region i).modelRef.isNone then
      (0, (collectDrops P ((allocated.takeWhile fun i => (p.region i).modelRef.isSome).filter
        fun i => isOther skipModel (p.region i)) p []).1)
    else
      let (q, es) := collectDrops P (allocated.filter fun i => isOther skipModel (p.region i)) p []
      let (released, q) := dropLoop Region.size need es 0 q
      if released < need then (p.getFreeSize + released, q) else (n, q)

end GPUTensorPool

namespace MockAllocation

/-- The groups of a model that have to be loaded, and the addresses of the others. -/
def collectGroups (p : GPUTensorPool) (disableParameterReuse : Bool) :
    List (TensorGroupIndex × Nat) → List TGNeedAllocates × List Nat
  | [] => ([], [])
  | (tg, i) :: l =>
    let (need, addrs) := collectGroups p disableParameterReuse l
    match if disableParameterReuse then none else p.getTensor tg.fingerprint with
    | some r => (need, (p.region r).addr :: addrs)
    | none => (⟨i, tg⟩ :: need, 0 :: addrs)

/-- The address that stands for a group without a region. -/
def fakeAddr : Nat := 1

/-- The loop that pops groups until `short` bytes are popped, over the groups from the back. -/
def popLoop (short : Nat) : List TGNeedAllocates → Nat → List Nat → List TGNeedAllocates × List Nat
  | [], _, addrs => ([], addrs)
  | tg :: l, popSize, addrs =>
    if short ≤ popSize + tg.size then (l, addrs.set tg.tgId fakeAddr)
    else popLoop short l (popSize + tg.size) (addrs.set tg.tgId fakeAddr)

/-- Pop groups from the back of the list until the others fit. -/
def popBack (short : Nat) (tgs : List TGNeedAllocates) (addrs : List Nat) : List TGNeedAllocates × List Nat :=
  ((popLoop short tgs.reverse 0 addrs).1.reverse, (popLoop short tgs.reverse 0 addrs).2)

/-- What `LoadModel` returns: "ERROR", or the offset of every tensor in the pool. The vector `allocated_regions` that the
offsets are computed from stands beside them. -/
inductive LoadResult where
  | error
  | crashed
  | ok (allocatedRegions : List Nat) (response : List (BitVec 64))
  deriving DecidableEq

/-- The response: the offset of each tensor, in the arithmetic of `size_t`. -/
def buildResponse (base : Nat) (m : RegisteredModel) (addrs : List Nat) : LoadResult :=
  .ok addrs (List.zipWith (fun a tg => tg.tensorIndexes.map fun t =>
    BitVec.ofNat 64 a - BitVec.ofNat 64 base + BitVec.ofNat 64 t.offset) addrs m.tensorGroupIndexes).flatten

/-- What `LoadModel` does behind `CleanBlocks`, with the groups it collected: evict, pop what does not fit, place, copy. -/
def placeGroups (P : Platform) (mockCopy : Bool) (p : GPUTensorPool) (m : RegisteredModel) (strategy : Int)
    (tgs : List TGNeedAllocates) (addrs : List Nat) : LoadResult × GPUTensorPool :=
  if tgs.isEmpty then (buildResponse p.gpuBaseAddr m addrs, p)
  else
    let (actualFree, p) := p.greedyDropSize P (totalNeed tgs) m.modelPath
    let (tgs, addrs) := if actualFree < totalNeed tgs then popBack (totalNeed tgs - actualFree) tgs addrs else (tgs, addrs)
    match p.runStrategy P strategy m tgs addrs with
    | (.failed, _, p) => (.error, p)
    | (.crashed, _, p) => (.crashed, p)
    | (.done, addrs, p) =>
      if addrs.any (· = 0) then (.error, p)
      else
        let (ok, d) :=
          if mockCopy then (true, p.device) else loadModelFromMem P m addrs (tgs.map TGNeedAllocates.tgId) p.device
        let p := { p with device := d }
        if ok then (buildResponse p.gpuBaseAddr m addrs, p) else (.error, p)

/-- `LoadModel` on the pool of the device, once model and device were found. -/
def loadModelOn (P : Platform) (mockCopy : Bool) (p : GPUTensorPool) (m : RegisteredModel) (strategy : Int)
    (disableParameterReuse : Bool) : LoadResult × GPUTensorPool :=
  let p := (p.useModel m.modelPath).cleanBlocks
  let (tgs, addrs) := collectGroups p disableParameterReuse m.tensorGroupIndexes.zipIdx
  placeGroups P mockCopy p m strategy tgs addrs

structure VRAMManager where
  registeredModels : String → Option RegisteredModel
  gpuTensorPools : Int → Option GPUTensorPool
  mockCopy : Bool

namespace VRAMManager

/-- `RegisterModel`, for a model that could be read from disk. -/
def registerModel (v : VRAMManager) (m : RegisteredModel) : VRAMManager :=
  match v.registeredModels m.modelPath with
  | some _ => v
  | none => { v with registeredModels := update v.registeredModels m.modelPath (some m) }

def loadModel (P : Platform) (v : VRAMManager) (modelPath : String) (deviceId strategy : Int) (disableParameterReuse : Bool) :
    LoadResult × VRAMManager :=
  match v.registeredModels modelPath, v.gpuTensorPools deviceId with
  | some m, some p =>
    let (r, p) := loadModelOn (if v.mockCopy then P.withoutCopies else P) v.mockCopy p m strategy disableParameterReuse
    (r, { v with gpuTensorPools := update v.gpuTensorPools deviceId (some p) })
  | _, _ => (.error, v)

end VRAMManager

/-- A request to the manager. -/
inductive Op where
  | registerModel (m : RegisteredModel)
  | loadModel (modelPath : String) (deviceId strategy : Int) (disableParameterReuse : Bool)

/-- Serve one request. -/
def VRAMManager.step (P : Platform) (v : VRAMManager) : Op → VRAMManager
  | .registerModel m => v.registerModel m
  | .loadModel modelPath deviceId strategy disable => (v.loadModel P modelPath deviceId strategy disable).2

/-! ## The GPU to load on -/

/-- `l[i]`, for an index in range. -/
def elem? (l : List Nat) (i : Int) : Option Nat := if 0 ≤ i then l[i.toNat]? else none

/-- `l[i] = x`, for an index in range. -/
def setElem? (l : List Nat) (i : Int) (x : Nat) : Option (List Nat) :=
  if 0 ≤ i ∧ i < l.length then some (l.set i.toNat x) else none

def cachedSize (m : RegisteredModel) (p : GPUTensorPool) : Nat :=
  (m.tensorGroupIndexes.map fun tg => if (p.getTensor tg.fingerprint).isSome then tg.size else 0).sum

namespace VRAMManager

/-- The keys of `gpu_tensor_pools_`, in an order in which the map is iterated. -/
structure GpuIds (v : VRAMManager) where
  ids : List Int
  nodup : ids.Nodup
  mem_iff : ∀ id, id ∈ ids ↔ (v.gpuTensorPools id).isSome = true

/-- The loop of `GetGPUToLoad` that fills `cached_sizes` and `free_sizes`. -/
def sizesLoop (v : VRAMManager) (m : RegisteredModel) : List Int → List Nat → List Nat → Option (List Nat × List Nat)
  | [], cached, free => some (cached, free)
  | id :: ids, cached, free =>
    (v.gpuTensorPools id).bind fun p =>
      (setElem? cached id (cachedSize m p)).bind fun cached =>
        (setElem? free id p.getFreeSize).bind fun free => sizesLoop v m ids cached free

/-- The loop of `GetGPUToLoad` that looks for the best GPU. -/
def bestLoop (cached free : List Nat) : List Int → Nat → Int → Option Int
  | [], _, best => some best
  | id :: ids, max, best =>
    (elem? cached id).bind fun c =>
      if max < c then bestLoop cached free ids c id
      else if c = max then
        (elem? free id).bind fun f =>
          (elem? free best).bind fun b => bestLoop cached free ids max (if b < f then id else best)
      else bestLoop cached free ids max best

/-- `GetGPUToLoad`. It has no result where it goes out of a vector, or takes a model that is not registered; `random` is what
`std::rand` returns. -/
def getGPUToLoad (v : VRAMManager) (gpus : v.GpuIds) (modelPath : String) (policy : Int) (random : Nat) : Option Int :=
  if gpus.ids = [] then some (-1)
  else if policy = 0 then gpus.ids[random % gpus.ids.length]?
  else if policy = 1 then
    (v.registeredModels modelPath).bind fun m =>
      (v.sizesLoop m gpus.ids (List.replicate gpus.ids.length 0) (List.replicate gpus.ids.length 0)).bind fun s =>
        bestLoop s.1 s.2 gpus.ids 0 0
  else some (-1)

end VRAMManager

end MockAllocation

end ServerlessLLM
