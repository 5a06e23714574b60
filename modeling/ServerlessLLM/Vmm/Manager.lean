import ServerlessLLM.Vmm.Pool
import ServerlessLLM.Vmm.Registered

/-!
# The manager of the page pools

`VmmVRAMManager` of `vram_manager_vmm.h`: the registered models, a pool for each GPU, and the copies from the host. The
selection of a GPU is left out.
-/

namespace ServerlessLLM.Vmm

open TensorGroupIndex

/-- What a call of the manager meets outside the code: the calls and loops of the host, and those of each GPU. -/
structure Outside extends Surroundings where
  gpu : ℤ → Surroundings

/-- No CUDA call fails. -/
def Outside.NoFailure (S : Outside) : Prop := ∀ device, (S.gpu device).NoFailure

/-- No `cudaMemcpyAsync` fails. -/
def Outside.CopiesAsync (S : Outside) : Prop := ∀ device, (S.gpu device).CopiesAsync

/-- Every call succeeds. -/
def Outside.reliable : Outside := { Surroundings.reliable with gpu := fun _ => .reliable }

def Outside.failing (c : Call) : Outside := { Surroundings.failing c with gpu := fun _ => .failing c }

structure VmmVRAMManager where
  models : Dict String RegisteredModel
  modelGroupOffsets : Dict String (List Nat)
  modelPackedBytes : Dict String Nat
  pools : Dict ℤ Pool
  modelAccessCounts : Dict String Nat
  totalCachedWeightBytes : Nat
  totalWeightBytes : Nat
  totalH2dWeightBytes : Nat
  modelCachedWeightBytes : Dict String Nat
  modelWeightBytes : Dict String Nat
  modelH2dWeightBytes : Dict String Nat

/-- The address of the group, as a range and an offset in bytes. -/
structure TensorBinding where
  name : String
  groupBase : Nat × Nat
  offset : Nat
  size : Nat

structure LayerWeaveLoadResult where
  requestedPages : Nat
  cachedPages : Nat
  mappedPages : Nat
  cachedBytes : Nat
  toLoadBytes : Nat

/-! ## Copies -/

/-- A tensor group in the arena of its model, and its host copy. -/
structure PlacedGroup where
  offset : Nat
  size : Nat
  host : Option (Nat → UInt8)

def RegisteredModel.placedGroups (m : RegisteredModel) (offsets : List Nat) : List PlacedGroup :=
  (m.tensorGroupIndexes.zip (offsets.zip m.tensorGroupHostPtr)).map fun e => ⟨e.2.1, e.1.size, e.2.2⟩

/-- One copy: so many bytes of a group go to an address of the arena. -/
structure CopyUnit where
  address : Nat
  bytes : Nat
  host : Option (Nat → UInt8)
  start : Nat

/-- `copy_begin` and `copy_end`: the part of a group in a page. -/
def PlacedGroup.copyUnit (pageSize packedBytes page : Nat) (g : PlacedGroup) : Option CopyUnit :=
  let copyBegin := max (page * pageSize) g.offset
  let copyEnd := min (min (page * pageSize + pageSize) packedBytes) (g.offset + g.size)
  if copyBegin ≥ copyEnd then none else some ⟨copyBegin, copyEnd - copyBegin, g.host, copyBegin - g.offset⟩

def copyUnits (pageSize packedBytes : Nat) (groups : List PlacedGroup) (pages : List Nat) : List CopyUnit :=
  pages.flatMap fun page => groups.filterMap (PlacedGroup.copyUnit pageSize packedBytes page)

/-- How the copies end. -/
inductive CopyEnd where
  | done
  | noHost
  | failed
deriving DecidableEq

/-- The copies are made one after the other, with `cudaMemcpy` or with `cudaMemcpyAsync`, whose copies are complete before the
next operation. -/
def Pool.copy (S : Surroundings) (c : Call) (base : Nat) : List CopyUnit → Pool → CopyEnd × Pool
  | [], p => (.done, p)
  | u :: us, p =>
    match u.host with
    | none => (.noHost, p)
    | some host =>
      let r := p.driver.cudaMemcpy S c p.granularity base u.address host u.start u.bytes
      if r.1 then Pool.copy S c base us (p.withDriver r.2) else (.failed, p.withDriver r.2)

namespace VmmVRAMManager

/-- The constructor, without the warm-up. -/
def create (nativeGranularity : ℤ → Nat) (memory : ℤ → Handle → Nat → UInt8) (poolSize : Nat) (gpuIds : List ℤ)
    (requestedPageSize : Nat) : Option VmmVRAMManager :=
  let addPool (pools : Dict ℤ Pool) (id : ℤ) : Option (Dict ℤ Pool) :=
    (Pool.create (nativeGranularity id) requestedPageSize poolSize (memory id)).map fun p =>
      if id ∈ pools.keys then pools else pools.set id p
  (gpuIds.foldlM addPool .empty).map fun pools => ⟨.empty, .empty, .empty, pools, .empty, 0, 0, 0, .empty, .empty, .empty⟩

variable (S : Outside) (M : VmmVRAMManager)

/-- The pool of a GPU after a call. -/
def withPool (device : ℤ) (p : Pool) : VmmVRAMManager := { M with pools := M.pools.set device p }

/-! ## Models -/

/-- The offsets of the groups, from a number of packed bytes on, and `packed_bytes` in the end. -/
def packGroups : Nat → List TensorGroupIndex → List Nat × Nat
  | packedBytes, [] => ([], packedBytes)
  | packedBytes, group :: groups =>
    let offset := (packedBytes + 255) / 256 * 256
    let r := packGroups (offset + group.size) groups
    (offset :: r.1, r.2)

/-- The loop over `pools_` that reserves the arena, and undoes it when a pool cannot reserve it. -/
def reserveInPools (path : String) (packedBytes : Nat) (sensitivity : ℚ) : List (ℤ × Pool) → List ℤ → Dict ℤ Pool →
    Bool × Dict ℤ Pool
  | [], _, pools => (true, pools)
  | (device, pool) :: rest, reserved, pools =>
    let r := pool.reserveStableWeight (S.gpu device) path packedBytes sensitivity
    let pools := pools.set device r.2
    if r.1 then reserveInPools path packedBytes sensitivity rest (reserved ++ [device]) pools
    else (false, reserved.foldl (fun pools device => pools.modify device fun pool => pool.dropStableWeight path true) pools)

def regroup (model : RegisteredModel) (mergeTargetCount : ℤ) : RegisteredModel :=
  if mergeTargetCount = -2 then model.splitTensorGroupsToTensors
  else if mergeTargetCount > 0 then model.mergeTGsRatio mergeTargetCount.toNat
  else model

/-- `RegisterModelWithMergeTarget`, for an index and the files that it finds. -/
def registerModelWithMergeTarget (path : String) (sensitivity : ℚ) (mockCopy : Bool) (mergeTargetCount : ℤ)
    (groups : List TensorGroupIndex) (partitions : List Partition) : ℤ × VmmVRAMManager :=
  if mockCopy then (-1, M)
  else
    match M.models.get? path with
    | some model => (model.modelSize, M)
    | none =>
      let model := regroup (.ofIndex path sensitivity mergeTargetCount groups partitions) mergeTargetCount
      match model.loadModelFromDisk S.toSurroundings with
      | none => (-1, M)
      | some model =>
        let packed := packGroups 0 model.tensorGroupIndexes
        match reserveInPools S path packed.2 sensitivity (S.visit M.pools.entries) [] M.pools with
        | (false, pools) => (-1, { M with pools := pools })
        | (true, pools) =>
          (model.modelSize,
            { M with
              pools := pools
              models := M.models.set path model
              modelGroupOffsets := M.modelGroupOffsets.set path packed.1
              modelPackedBytes := M.modelPackedBytes.set path packed.2 })

def countAccesses (path : String) (n : Nat) : VmmVRAMManager :=
  let count := (M.modelAccessCounts.get? path).getD 0 + n
  { M with
    modelAccessCounts := M.modelAccessCounts.set path count
    pools := M.pools.mapValues fun _ pool => pool.setModelAccessCount path count }

def warmupModelAccess (counts : List (String × Nat)) : VmmVRAMManager := counts.foldl (fun M e => M.countAccesses e.1 e.2) M

/-! ## Loading -/

def groupsOf (path : String) (model : RegisteredModel) : List PlacedGroup :=
  model.placedGroups ((M.modelGroupOffsets.get? path).getD [])

def accountLoad (path : String) (totalBytes toLoadBytes : Nat) : VmmVRAMManager :=
  let cachedBytes := totalBytes - toLoadBytes
  { M with
    totalCachedWeightBytes := M.totalCachedWeightBytes + cachedBytes
    totalWeightBytes := M.totalWeightBytes + totalBytes
    totalH2dWeightBytes := M.totalH2dWeightBytes + toLoadBytes
    modelCachedWeightBytes := M.modelCachedWeightBytes.set path ((M.modelCachedWeightBytes.get? path).getD 0 + cachedBytes)
    modelWeightBytes := M.modelWeightBytes.set path ((M.modelWeightBytes.get? path).getD 0 + totalBytes)
    modelH2dWeightBytes := M.modelH2dWeightBytes.set path ((M.modelH2dWeightBytes.get? path).getD 0 + toLoadBytes) }

/-- The part of `LoadModel` that works on the pool: the bytes to load, unless it fails. -/
def loadIntoPool (S : Surroundings) (path : String) (groups : List PlacedGroup) (packedBytes : Nat)
    (disableReuse : Bool) (pool : Pool) :
    Option Nat × Pool :=
  let pool := pool.cleanKV S
  let pool := if disableReuse then pool.dropStableWeight path false else pool
  match pool.mapStableWeight S path [path] with
  | (none, pool) => (none, pool)
  | (some missingPages, pool) =>
    let r := pool.driver.cudaSetDevice S
    let pool := pool.withDriver r.2
    if !r.1 then (none, pool.rollbackStablePages path missingPages)
    else
      let units := copyUnits pool.granularity packedBytes groups missingPages
      match pool.copy S .memcpy (pool.pageAddr path 0).range units with
      | (.done, pool) => (some (units.map CopyUnit.bytes).sum, pool)
      | (_, pool) => (none, pool.rollbackStablePages path missingPages)

/-- The cached bytes and the bytes to load, when it returns `VMM`. -/
def loadModel (path : String) (device : ℤ) (disableReuse : Bool) : Option (Nat × Nat) × VmmVRAMManager :=
  match M.models.get? path, M.pools.get? device with
  | some model, some pool =>
    let M := M.countAccesses path 1
    let pool := pool.setModelAccessCount path ((M.modelAccessCounts.get? path).getD 0)
    let r := loadIntoPool (S.gpu device) path (M.groupsOf path model) ((M.modelPackedBytes.get? path).getD 0) disableReuse pool
    let M := M.withPool device r.2
    match r.1 with
    | none => (none, M)
    | some toLoadBytes =>
      let totalBytes := (model.tensorGroupIndexes.map size).sum
      (some (totalBytes - toLoadBytes, toLoadBytes), M.accountLoad path totalBytes toLoadBytes)
  | _, _ => (none, M)

/-- The resident bytes of a group, in the loop of `EstimateModelLoad`. -/
def residentBytes (pool : Pool) (path : String) (g : PlacedGroup) : Nat :=
  let firstPage := g.offset / pool.granularity
  let lastPage := (g.offset + g.size - 1) / pool.granularity
  (((List.range' firstPage (lastPage + 1 - firstPage)).filter fun page => pool.extentOf path page ≠ none).map fun page =>
    min (g.offset + g.size) ((page + 1) * pool.granularity) - max g.offset (page * pool.granularity)).sum

/-- The cached bytes, the bytes to load and all bytes, when it returns true. The groups have some bytes. -/
def estimateModelLoad (path : String) (device : ℤ) (disableReuse : Bool) : Option (Nat × Nat × Nat) :=
  match M.models.get? path, M.pools.get? device with
  | some model, some pool =>
    let total := (model.tensorGroupIndexes.map size).sum
    let cached := if disableReuse then 0 else ((M.groupsOf path model).map (residentBytes pool path)).sum
    some (cached, total - cached, total)
  | _, _ => none

/-- The part of `PrepareLayerWeavePages` that works on the pool. -/
def prepareInPool (S : Surroundings) (path : String) (groups : List PlacedGroup) (packedBytes : Nat) (requestedPages : List Nat)
    (pool : Pool) : Option LayerWeaveLoadResult × Pool :=
  let cachedPages := requestedPages.countP fun page => pool.extentOf path page ≠ none
  match pool.mapStablePages S path requestedPages [path] with
  | (none, pool) => (none, pool)
  | (some newlyMappedPages, pool) =>
    let units := copyUnits pool.granularity packedBytes groups (requestedPages.filter fun page => page ∈ newlyMappedPages)
    let cached := copyUnits pool.granularity packedBytes groups (requestedPages.filter fun page => page ∉ newlyMappedPages)
    match pool.copy S .memcpyAsync (pool.pageAddr path 0).range units with
    | (.done, pool) =>
      (some ⟨requestedPages.length, cachedPages, newlyMappedPages.length, (cached.map CopyUnit.bytes).sum,
        (units.map CopyUnit.bytes).sum⟩,
        pool)
    | (.noHost, pool) => (none, pool.rollbackStablePages path newlyMappedPages)
    -- an asynchronous copy may be under way, so that the pages stay mapped
    | (.failed, pool) => (none, pool)

def prepareLayerWeavePages (path : String) (device : ℤ) (requestedPages : List Nat) :
    Option LayerWeaveLoadResult × VmmVRAMManager :=
  match M.models.get? path, M.pools.get? device with
  | some model, some pool =>
    let r := prepareInPool (S.gpu device) path (M.groupsOf path model)
      ((M.modelPackedBytes.get? path).getD 0) requestedPages pool
    (r.1, M.withPool device r.2)
  | _, _ => (none, M)

def getLayerWeaveResidency (path : String) (device : ℤ) : Option (List Bool) :=
  match M.models.get? path, M.pools.get? device with
  | some _, some pool => some ((List.range (pool.arenaPages path)).map fun page => (pool.extentOf path page).isSome)
  | _, _ => none

def configureLayerWeaveCache (path : String) (device : ℤ) (retainedPages : List Nat) : Bool × VmmVRAMManager :=
  match M.models.get? path, M.pools.get? device with
  | some _, some pool =>
    if ∃ page ∈ retainedPages, page ≥ pool.arenaPages path then (false, M)
    else
      let r := pool.retainStablePages (S.gpu device) path retainedPages
      (r.1, M.withPool device r.2)
  | _, _ => (false, M)

def beginLayerWeaveBinding (path : String) (device : ℤ) : Bool × VmmVRAMManager :=
  match M.models.get? path, M.pools.get? device with
  | some _, some pool =>
    let r := pool.beginStableBinding (S.gpu device) path
    (r.1, M.withPool device r.2)
  | _, _ => (false, M)

def endLayerWeaveBinding (path : String) (device : ℤ) : Bool × VmmVRAMManager :=
  match M.models.get? path, M.pools.get? device with
  | some _, some pool =>
    let r := pool.endStableBinding path
    (r.1, M.withPool device r.2)
  | _, _ => (false, M)

def getTensorBindings (path : String) (device : ℤ) : Option (List TensorBinding) :=
  match M.models.get? path, M.pools.get? device with
  | some model, some pool =>
    let offsets := (M.modelGroupOffsets.get? path).getD []
    some ((model.tensorGroupIndexes.zip offsets).flatMap fun e =>
      e.1.tensorIndexes.map fun tensor => ⟨tensor.name, ((pool.pageAddr path 0).range, e.2), tensor.offset, tensor.size⟩)
  | _, _ => none

/-! ## KV blocks -/

/-- `static_cast<int>`. -/
def toInt (n : Nat) : ℤ := Int.bmod n (2 ^ 32)

/-- The models that KV blocks of a model must not evict. -/
def protectedFps (model : String) : List String := if model ∈ M.models.keys then [model] else []

def getAvailableBlocks (model : String) (blockSize : Nat) (device : ℤ) : ℤ :=
  match M.pools.get? device with
  | none => 0
  | some pool => if blockSize = 0 then 0 else toInt
      (pool.reclaimablePages (M.protectedFps model) * pool.granularity / blockSize)

def allocateBlocks (device : ℤ) (block : Nat) (model : String) (count : ℤ) : List (Nat × Nat) × VmmVRAMManager :=
  match M.pools.get? device with
  | none => ([], M)
  | some pool =>
    let r := pool.mapKV (S.gpu device) block count (M.protectedFps model)
    (r.1, M.withPool device r.2)

def getAvailableKVBlocks (model : String) (blockSize : Nat) (device : ℤ) : ℤ :=
  match M.pools.get? device with
  | none => -1
  | some pool => if model ∉ M.models.keys ∨ blockSize = 0 then -1 else toInt (pool.availableKVBlocks blockSize [model])

/-- The offsets, when it returns true. -/
def allocateKVBlocks (model : String) (blockSize : Nat) (device : ℤ) (logicalIds : List Nat) :
    Option (List Nat) × VmmVRAMManager :=
  match M.pools.get? device with
  | none => (none, M)
  | some pool =>
    if model ∉ M.models.keys then (none, M)
    else
      let r := pool.allocateKVBlocks (S.gpu device) blockSize logicalIds [model]
      (r.1.toOption, M.withPool device r.2)

def allocateKVBlocksUnprotected (blockSize : Nat) (device : ℤ) (logicalIds : List Nat) : Option (List Nat) × VmmVRAMManager :=
  match M.pools.get? device with
  | none => (none, M)
  | some pool =>
    let r := pool.allocateKVBlocks (S.gpu device) blockSize logicalIds []
    (r.1.toOption, M.withPool device r.2)

def releaseKVBlocks (device : ℤ) (logicalIds : List Nat) : VmmVRAMManager :=
  match M.pools.get? device with
  | none => M
  | some pool => M.withPool device (pool.releaseKVBlocks logicalIds)

def clearKV (device : ℤ) : VmmVRAMManager :=
  match M.pools.get? device with
  | none => M
  | some pool => M.withPool device (pool.cleanKV (S.gpu device))

/-! ## Runs -/

/-- The calls of the manager. -/
inductive Op where
  | registerModel (path : String) (sensitivity : ℚ) (mergeTargetCount : ℤ) (groups : List TensorGroupIndex)
      (partitions : List Partition)
  | warmupModelAccess (counts : List (String × Nat))
  | loadModel (path : String) (device : ℤ) (disableReuse : Bool)
  | prepareLayerWeavePages (path : String) (device : ℤ) (requestedPages : List Nat)
  | configureLayerWeaveCache (path : String) (device : ℤ) (retainedPages : List Nat)
  | beginLayerWeaveBinding (path : String) (device : ℤ)
  | endLayerWeaveBinding (path : String) (device : ℤ)
  | allocateBlocks (device : ℤ) (block : Nat) (model : String) (count : ℤ)
  | allocateKVBlocks (model : String) (blockSize : Nat) (device : ℤ) (logicalIds : List Nat)
  | allocateKVBlocksUnprotected (blockSize : Nat) (device : ℤ) (logicalIds : List Nat)
  | releaseKVBlocks (device : ℤ) (logicalIds : List Nat)
  | clearKV (device : ℤ)

/-- The manager after a call. -/
def step (M : VmmVRAMManager) (c : Outside × Op) : Option VmmVRAMManager :=
  match c.2 with
  | .registerModel path sensitivity mergeTargetCount groups partitions =>
    some (M.registerModelWithMergeTarget c.1 path sensitivity false mergeTargetCount groups partitions).2
  | .warmupModelAccess counts => some (M.warmupModelAccess counts)
  | .loadModel path device disableReuse => some (M.loadModel c.1 path device disableReuse).2
  | .prepareLayerWeavePages path device requestedPages => some (M.prepareLayerWeavePages c.1 path device requestedPages).2
  | .configureLayerWeaveCache path device retainedPages => some (M.configureLayerWeaveCache c.1 path device retainedPages).2
  | .beginLayerWeaveBinding path device => some (M.beginLayerWeaveBinding c.1 path device).2
  | .endLayerWeaveBinding path device => some (M.endLayerWeaveBinding path device).2
  | .allocateBlocks device block model count => some (M.allocateBlocks c.1 device block model count).2
  | .allocateKVBlocks model blockSize device logicalIds => some (M.allocateKVBlocks c.1 model blockSize device logicalIds).2
  | .allocateKVBlocksUnprotected blockSize device logicalIds =>
      some (M.allocateKVBlocksUnprotected c.1 blockSize device logicalIds).2
  | .releaseKVBlocks device logicalIds => some (M.releaseKVBlocks device logicalIds)
  | .clearKV device => some (M.clearKV c.1 device)

end VmmVRAMManager

end ServerlessLLM.Vmm
