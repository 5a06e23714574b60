import Mathlib.Data.List.Infix
import ServerlessLLM.Library.Greedy
import ServerlessLLM.Library.Linked
import ServerlessLLM.Vram.Device

/-!
# The tensor pool of a GPU

`GPUTensorPool_v1` of `vram_manager.h`: a doubly linked list of memory regions that tile the pool, with an index from
fingerprints to allocated regions. Regions are `shared_ptr` nodes; here they are numbered nodes of a store, so that a node that
was unlinked keeps its pointers, as it does in the source. The loops that only read the list go over the numbers that
following `next` from the head meets (`regions`); the two loops that change the list under their feet (`CleanBlocks` and
`AllocateBlocks`) follow the pointers one by one, and `CleanBlocks` goes on from the `next` pointer of a region it may just have
unlinked.
-/

namespace ServerlessLLM

open Linked Function

/-! ## Models -/

/-- A tensor inside its group. -/
structure TensorIndex where
  name : String
  offset : Nat
  size : Nat

/-- A tensor group of a model. -/
structure TensorGroupIndex where
  fileOffset : Nat
  size : Nat
  fingerprint : String
  tensorIndexes : List TensorIndex

/-- The fields the VRAM manager reads. `tensorGroupHostPtr` holds the host copy of each group
(`none` is a group that is not in host memory). -/
structure RegisteredModel where
  modelPath : String
  tensorGroupIndexes : List TensorGroupIndex
  tensorGroupHostPtr : List (Option (List UInt8))
  loadSensitive : ℚ

/-- The fingerprints of a model's groups (`GetFingerPrints`). -/
def RegisteredModel.fingerprints (m : RegisteredModel) : List String :=
  m.tensorGroupIndexes.map TensorGroupIndex.fingerprint

/-- A group that has to be placed, with its position in the model. -/
structure TGNeedAllocates where
  tgId : Nat
  tgIndex : TensorGroupIndex

/-! ## Regions -/

inductive RegionStatus where
  | FREE
  | LOADING
  | ALLOCATED
  deriving DecidableEq, Repr

/-- The fields of `GPUMemoryRegion_v1` but its links. -/
structure Region where
  status : RegionStatus
  addr : Nat
  size : Nat
  fingerprint : String
  modelRef : Option RegisteredModel

/-- The region a constructor call `GPUMemoryRegion_v1(addr, size)` makes. -/
def Region.mk' (addr size : Nat) : Region :=
  { status := .FREE, addr := addr, size := size, fingerprint := "", modelRef := none }

/-- `region->status = s`. -/
@[simps] def Region.setStatus (r : Region) (s : RegionStatus) : Region := { r with status := s }

/-- `region->addr = a`. -/
@[simps] def Region.setAddr (r : Region) (a : Nat) : Region := { r with addr := a }

/-- `region->size = n`. -/
@[simps] def Region.setSize (r : Region) (n : Nat) : Region := { r with size := n }

/-- `region->fingerprint = fp`. -/
@[simps] def Region.setFingerprint (r : Region) (fp : String) : Region := { r with fingerprint := fp }

/-- `region->model_ref = m`. -/
@[simps] def Region.setModelRef (r : Region) (m : Option RegisteredModel) : Region := { r with modelRef := m }

/-- The pointer to a region: its number in the store. -/
abbrev NodeId := Nat

/-- `GPUTensorPool_v1`, with the GPU memory behind it. -/
structure GPUTensorPool where
  store : Linked.Store Region
  memoryRegions : Option NodeId
  gpuBaseAddr : Nat
  allocatedRegions : String → Option NodeId
  modelAccess : List (String × Nat)
  totalAccess : Nat
  moveDataVolume : List Nat
  allocatedBlockId : Nat
  cpuBandwidth : ℚ
  device : Device

namespace GPUTensorPool

/-- The region a pointer points to. -/
def region (p : GPUTensorPool) (i : NodeId) : Region := (p.store.node i).val

/-- `region->prev`. -/
def prev (p : GPUTensorPool) (i : NodeId) : Option NodeId := (p.store.node i).prev

/-- `region->next`. -/
def next (p : GPUTensorPool) (i : NodeId) : Option NodeId := (p.store.node i).next

/-- Assign to the region a pointer points to. -/
def setRegion (p : GPUTensorPool) (i : NodeId) (r : Region) : GPUTensorPool := { p with store := p.store.setVal i r }

/-- The regions met from the head of the list along `next`. -/
def regions (p : GPUTensorPool) : List NodeId := p.store.walk p.memoryRegions

/-- The regions met from `start` along `next` until `stop`. -/
def regionsUntil (p : GPUTensorPool) (start stop : Option NodeId) : List NodeId :=
  p.store.walkUntil stop p.store.fresh start

/-- The constructor: one FREE region of the size of the pool. -/
def init (base totalSize : Nat) (cpuBandwidth : ℚ) (bytes : Nat → UInt8) : GPUTensorPool where
  store := { node := fun _ => ⟨Region.mk' base totalSize, none, none⟩, fresh := 1 }
  memoryRegions := some 0
  gpuBaseAddr := base
  allocatedRegions := fun _ => none
  modelAccess := []
  totalAccess := 0
  moveDataVolume := []
  allocatedBlockId := 0
  cpuBandwidth := cpuBandwidth
  device := { bytes := bytes, moves := 0, loads := 0 }

/-! ## Access counts and costs -/

/-- `model_access[path]`: the operator inserts 0 for a key that is not there. -/
def accessOf (p : GPUTensorPool) (path : String) : Nat × GPUTensorPool :=
  match p.modelAccess.lookup path with
  | some n => (n, p)
  | none => (0, { p with modelAccess := p.modelAccess ++ [(path, 0)] })

def useModel (p : GPUTensorPool) (path : String) : GPUTensorPool :=
  let q := (p.accessOf path).2
  { q with
    modelAccess := q.modelAccess.map fun e => if e.1 = path then (e.1, e.2 + 1) else e
    totalAccess := q.totalAccess + 1 }

/-- `CostFunction`, in `double` arithmetic: the exact operations, each followed by the platform's rounding. -/
def costFunction (P : Platform) (p : GPUTensorPool) (i : NodeId) : ℚ × GPUTensorPool :=
  let r := p.region i
  let accessProb : ℚ := if p.modelAccess.isEmpty then 1 else P.roundDouble (1 / p.modelAccess.length)
  let sensi : ℚ := match r.modelRef with
    | some m => m.loadSensitive
    | none => 1
  let (accessProb, p) := match r.modelRef with
    | some m =>
      if 0 < p.totalAccess then
        let (n, q) := p.accessOf m.modelPath
        (P.roundDouble (n / p.totalAccess), q)
      else (accessProb, p)
    | none => (accessProb, p)
  (P.roundDouble (P.roundDouble (P.roundDouble (r.size / p.cpuBandwidth) * accessProb) * sensi), p)

def getTensor (p : GPUTensorPool) (fingerprint : String) : Option NodeId := p.allocatedRegions fingerprint

/-- Also the loop at the head of `GreedyDrop` and of `GreedyMerge`. -/
def getFreeSize (p : GPUTensorPool) : Nat :=
  (p.regions.map fun i => if (p.region i).status = .FREE then (p.region i).size else 0).sum

/-! ## Freeing -/

def merge (p : GPUTensorPool) (this other : NodeId) : GPUTensorPool :=
  let t := p.region this
  let o := p.region other
  if t.addr + t.size = o.addr then
    let next := p.next other
    let s := (p.store.setVal this (t.setSize (t.size + o.size))).setNext (some this) next
    { p with store := s.setPrev next (some this) }
  else if o.addr + o.size = t.addr then
    let prev := p.prev other
    let s := (p.store.setVal this ((t.setAddr o.addr).setSize (t.size + o.size))).setPrev (some this) prev
    { p with store := s.setNext prev (some this) }
  else p

/-- The first merge of `FreeRegion`: into the region before, when that one is FREE. -/
def mergePrev (p : GPUTensorPool) (region : NodeId) : GPUTensorPool × NodeId :=
  match p.prev region with
  | some q => if (p.region q).status = .FREE then (p.merge q region, q) else (p, region)
  | none => (p, region)

/-- The second merge of `FreeRegion`: the region behind into this one, when that one is FREE. -/
def mergeNext (p : GPUTensorPool) (region : NodeId) : GPUTensorPool :=
  match p.next region with
  | some n => if (p.region n).status = .FREE then p.merge region n else p
  | none => p

/-- The start of `FreeRegion`: mark the region FREE and take its fingerprint out of the index. -/
def markFree (p : GPUTensorPool) (region : NodeId) : GPUTensorPool :=
  { p.setRegion region ((p.region region).setStatus .FREE) with
    allocatedRegions := update p.allocatedRegions (p.region region).fingerprint none }

/-- The end of `FreeRegion`: assign the links of the neighbours once more. -/
def fixLinks (p : GPUTensorPool) (region : NodeId) : GPUTensorPool :=
  let p := { p with store := p.store.setNext (p.prev region) (some region) }
  { p with store := p.store.setPrev (p.next region) (some region) }

def freeRegion (p : GPUTensorPool) (region : NodeId) : GPUTensorPool :=
  if (p.region region).status ≠ .ALLOCATED then p else
    let (p, region) := (p.markFree region).mergePrev region
    (p.mergeNext region).fixLinks region

structure DropCostEntry where
  cost : ℚ
  region : NodeId

/-- `DropCostEntry::operator<`: by cost, then by address. -/
def dropLt (p : GPUTensorPool) (a b : DropCostEntry) : Bool :=
  if a.cost ≠ b.cost then a.cost < b.cost else (p.region a.region).addr < (p.region b.region).addr

/-- `std::set<DropCostEntry>::insert`, on the list of the set's entries in order. -/
def insertDrop (p : GPUTensorPool) (e : DropCostEntry) (es : List DropCostEntry) : List DropCostEntry :=
  Greedy.insertBy p.dropLt e es

/-- Insert the regions of a list into the set of drop candidates, each with its cost. -/
def collectDrops (P : Platform) : List NodeId → GPUTensorPool → List DropCostEntry → GPUTensorPool × List DropCostEntry
  | [], p, es => (p, es)
  | i :: l, p, es =>
    let (cost, p) := p.costFunction P i
    collectDrops P l p (p.insertDrop ⟨cost, i⟩ es)

/-- The loop that frees candidates in order until enough units are released; `units` is what a region counts for. -/
def dropLoop (units : Region → Nat) (need : Nat) : List DropCostEntry → Nat → GPUTensorPool → Nat × GPUTensorPool
  | [], released, p => (released, p)
  | e :: es, released, p =>
    if released < need then dropLoop units need es (released + units (p.region e.region)) (p.freeRegion e.region)
    else (released, p)

/-- A region `GreedyDrop` may free: ALLOCATED, and not placed by the model to be skipped. -/
def isOther (skipModel : String) (r : Region) : Bool :=
  r.status = .ALLOCATED && (match r.modelRef with
    | some m => m.modelPath ≠ skipModel
    | none => false)

/-- 0 when enough is free afterwards, 1 otherwise. -/
def greedyDrop (P : Platform) (p : GPUTensorPool) (n : Nat) (skipModel : String) : Int × GPUTensorPool :=
  if n = 0 then (0, p)
  else if n ≤ p.getFreeSize then (0, p)
  else
    let need := n - p.getFreeSize
    let allocated := p.regions.filter fun i => (p.region i).status = .ALLOCATED
    -- the source leaves with an error at the first region without a model; what it collected before is dropped with it
    if allocated.any fun i => (p.region i).modelRef.isNone then
      (1, (collectDrops P ((allocated.takeWhile fun i => (p.region i).modelRef.isSome).filter
        fun i => isOther skipModel (p.region i)) p []).1)
    else
      let (p, es) := collectDrops P (allocated.filter fun i => isOther skipModel (p.region i)) p []
      let (released, p) := dropLoop Region.size need es 0 p
      if released < need then (1, p) else (0, p)

/-! ## Allocating -/

/-- Cut a region down to `size` bytes, with a new FREE region behind it for the rest, if there is a rest. -/
def splitOff (p : GPUTensorPool) (i : NodeId) (size : Nat) : GPUTensorPool × Option NodeId :=
  let r := p.region i
  if size < r.size then
    let s := p.store.insertAfter i (Region.mk' (r.addr + size) (r.size - size))
    ({ p with store := s.setVal i (r.setSize size) }, some p.store.fresh)
  else (p, none)

/-- Mark a region ALLOCATED under a fingerprint, and enter it in the index. -/
def enter (p : GPUTensorPool) (i : NodeId) (fingerprint : String) : GPUTensorPool :=
  { p.setRegion i (((p.region i).setStatus .ALLOCATED).setFingerprint fingerprint) with
    allocatedRegions := update p.allocatedRegions fingerprint (some i) }

/-- The part that the three allocation functions share: cut `size` bytes off the front of a FREE region, and enter the
region in the index. Returns the region that holds the rest, if there is a rest. -/
def cutRegion (p : GPUTensorPool) (i : NodeId) (size : Nat) (fingerprint : String) : GPUTensorPool × Option NodeId :=
  ((p.splitOff i size).1.enter i fingerprint, (p.splitOff i size).2)

/-- The first FREE region that is large enough. -/
def allocateRegionFromList (p : GPUTensorPool) (size : Nat) (fp : String) : Option NodeId × GPUTensorPool :=
  match p.regions.find? fun i => (p.region i).status = .FREE ∧ size ≤ (p.region i).size with
  | some i => (some i, (p.cutRegion i size fp).1)
  | none => (none, p)

def allocateFreeRegion (p : GPUTensorPool) (freeRegion : NodeId) (allocateSize : Nat) (fingerprint : String) :
    Option NodeId × GPUTensorPool :=
  if (p.region freeRegion).status ≠ .FREE ∨ (p.region freeRegion).size < allocateSize then (none, p)
  else (some freeRegion, (p.cutRegion freeRegion allocateSize fingerprint).1)

/-- The allocated region and the one that holds the rest. -/
def allocateNewRegion (p : GPUTensorPool) (old : NodeId) (allocateSize : Nat) (fingerprint : String) :
    Option NodeId × Option NodeId × GPUTensorPool :=
  if (p.region old).status ≠ .FREE ∨ (p.region old).size < allocateSize then (none, none, p)
  else
    let (p, rest) := p.cutRegion old allocateSize fingerprint
    (some old, rest, p)

/-- `region->model_ref = model`. -/
def setModelRef (p : GPUTensorPool) (i : NodeId) (m : RegisteredModel) : GPUTensorPool :=
  p.setRegion i ((p.region i).setModelRef (some m))

end GPUTensorPool

namespace GPUTensorPool

/-- A region `GreedyDropBlocks` may free. -/
def isDroppable (blockSize : Nat) (modelPath : String) (r : Region) : Bool :=
  isOther modelPath r && decide (blockSize ≤ r.size)

def freeBlocks (p : GPUTensorPool) (blockSize : Nat) : Nat :=
  (p.regions.map fun i => if (p.region i).status = .FREE then (p.region i).size / blockSize else 0).sum

/-- The blocks that the FREE regions and those that another model has placed can hold, each for itself. -/
def availableBlocks (p : GPUTensorPool) (modelSkip : String) (blockSize : Nat) : Nat :=
  (p.regions.map fun i =>
    if (p.region i).status = .FREE then (p.region i).size / blockSize
    else if isOther modelSkip (p.region i) then (p.region i).size / blockSize
    else 0).sum

/-- The count is a `size_t`, but returned as an `int`. -/
def getAvailableBlocks (p : GPUTensorPool) (modelSkip : String) (blockSize : Nat) : Int :=
  Int.bmod (p.availableBlocks modelSkip blockSize) (2 ^ 32)

def greedyDropBlocks (P : Platform) (p : GPUTensorPool) (blockSize : Nat) (modelPath : String) (blockNumber : Int) :
    Int × GPUTensorPool :=
  if blockSize = 0 ∨ blockNumber ≤ 0 then (-1, p)
  else if blockNumber ≤ p.freeBlocks blockSize then (0, p)
  else
    let need := blockNumber.toNat - p.freeBlocks blockSize
    let droppable := p.regions.filter fun i => isDroppable blockSize modelPath (p.region i)
    let could := (droppable.map fun i => (p.region i).size / blockSize).sum
    let (p, es) := collectDrops P droppable p []
    if could < need then (-1, p)
    else
      let (released, p) := dropLoop (fun r => r.size / blockSize) need es 0 p
      if released < need then (-1, p) else (0, p)

/-- The fingerprint of the KV region that ends with block number `id`. -/
def kvFingerprint (id : Nat) : String := "KVCACHE-" ++ toString id

/-- The loop of `AllocateBlocks`. A FREE region that was cut is followed by its rest, so a list of `n` regions takes at most
`2 * n` rounds. -/
def allocateBlocksLoop (blockSize blockNumber : Nat) :
    Nat → Option NodeId → List Nat → GPUTensorPool → List Nat × GPUTensorPool
  | 0, _, result, p => (result, p)
  | _ + 1, none, result, p => (result, p)
  | fuel + 1, some current, result, p =>
    if result.length < blockNumber then
      let r := p.region current
      if r.status = .FREE ∧ blockSize ≤ r.size then
        let blocks := min (r.size / blockSize) (blockNumber - result.length)
        let offset := r.addr - p.gpuBaseAddr
        let result := result ++ (List.range blocks).map fun i => offset + i * blockSize
        let p := { p with allocatedBlockId := p.allocatedBlockId + blocks }
        let p := (p.allocateFreeRegion current (blocks * blockSize) (kvFingerprint p.allocatedBlockId)).2
        allocateBlocksLoop blockSize blockNumber fuel (p.next current) result p
      else allocateBlocksLoop blockSize blockNumber fuel (p.next current) result p
    else (result, p)

/-- The offsets of the blocks, none when the request fails. -/
def allocateBlocks (P : Platform) (p : GPUTensorPool) (blockSize : Nat) (modelPath : String) (blockNumber : Int) :
    List Nat × GPUTensorPool :=
  let (ret, p) := p.greedyDropBlocks P blockSize modelPath blockNumber
  if ret ≠ 0 then ([], p)
  else
    let (result, p) :=
      allocateBlocksLoop blockSize blockNumber.toNat (2 * p.store.fresh) p.memoryRegions [] p
    if result.length < blockNumber.toNat then ([], p) else (result, p)

/-- `fingerprint.find("KVCACHE") != npos`. -/
def isKv (fingerprint : String) : Bool := decide ("KVCACHE".toList <:+: fingerprint.toList)

/-- The loop of `CleanBlocks`. It makes no node, so it meets at most as many as were allocated. -/
def cleanBlocksLoop : Nat → Option NodeId → GPUTensorPool → GPUTensorPool
  | 0, _, p => p
  | _ + 1, none, p => p
  | fuel + 1, some current, p =>
    let r := p.region current
    let p := if r.status = .ALLOCATED ∧ isKv r.fingerprint = true then p.freeRegion current else p
    cleanBlocksLoop fuel (p.next current) p

def cleanBlocks (p : GPUTensorPool) : GPUTensorPool := cleanBlocksLoop p.store.fresh p.memoryRegions p

end GPUTensorPool

end ServerlessLLM
