import ServerlessLLM.ModelPool.Regions
import ServerlessLLM.Vram.Pool
import ServerlessLLM.Host.Reader

/-!
# Loading models and allocating blocks

`ModelPool` of `model_pool.h`, on one device. `LoadModelAsync` places the tensor groups of a model one after the other and then
copies those that were not there; `AllocateBlocks` places blocks of the KV cache.
-/

namespace ServerlessLLM.ModelPool

/-- The index, and the bytes that its files hold for each tensor group. -/
structure RegisteredModel where
  modelSize : Nat
  tensorGroupIndexes : List TensorGroupIndex
  groupBytes : List (List UInt8)

def RegisteredModel.fingerprints (m : RegisteredModel) : List String := m.tensorGroupIndexes.map TensorGroupIndex.fingerprint

namespace GPUTensorPool

/-- The region of a tensor group, when it is there and allocated. -/
def allocatedTensor (p : GPUTensorPool) (fingerprint : String) : Option Nat :=
  (p.getTensor fingerprint).filter fun i => (p.region i).isAllocated

/-- The loop of `LoadModelAsync` over the tensor groups, with `allocated_region` and `region_to_load`. It ends without an
address list when there is no memory for a tensor group. -/
def placeGroups (addressOf : Nat → Nat) (modelPath : String) :
    List TensorGroupIndex → List Nat → List Nat → GPUTensorPool → Option (Option (List Nat × List Nat) × GPUTensorPool)
  | [], allocatedRegion, regionToLoad, p => some (some (allocatedRegion, regionToLoad), p)
  | g :: gs, allocatedRegion, regionToLoad, p =>
    match p.allocatedTensor g.fingerprint with
    | some i => placeGroups addressOf modelPath gs (allocatedRegion ++ [(p.region i).addr]) regionToLoad p
    | none =>
      match p.bestFitAllocation addressOf g.size g.fingerprint modelPath with
      | none => none
      | some (none, p) => some (none, p)
      | some (some i, p) =>
        placeGroups addressOf modelPath gs (allocatedRegion ++ [(p.region i).addr]) (regionToLoad ++ [allocatedRegion.length]) p

/-- The loop of `AllocateBlocks`. -/
def placeBlocks (addressOf : Nat → Nat) (blockSize : Nat) (modelPath : String) :
    Nat → List Nat → GPUTensorPool → Option (List Nat × GPUTensorPool)
  | 0, offsets, p => some (offsets, p)
  | n + 1, offsets, p =>
    match p.bestFitAllocation addressOf blockSize "kvcache" modelPath with
    | none => none
    | some (none, p) => some ([], p)
    | some (some i, p) =>
      placeBlocks addressOf blockSize modelPath n (offsets ++ [(p.region i).addr - (p.region p.memoryRegionView).addr]) p

end GPUTensorPool

/-- How the copies of a call go: the copy with this number may fail, and leaves these bytes. -/
inductive Copies where
  | succeed
  | fail (k : Nat) (junk : List UInt8)
deriving DecidableEq

def copyGroup (m : RegisteredModel) (allocatedRegion : List Nat) (bytes : Nat → UInt8) (tgId : Nat) : Nat → UInt8 :=
  Bytes.copyIn bytes (allocatedRegion.getD tgId 0) (m.groupBytes.getD tgId [])

def loadModelFromMem (m : RegisteredModel) (allocatedRegion tgToLoad : List Nat) (copies : Copies) (bytes : Nat → UInt8) :
    Nat → UInt8 :=
  match copies with
  | .succeed => tgToLoad.foldl (copyGroup m allocatedRegion) bytes
  | .fail k junk =>
    let bytes := (tgToLoad.take k).foldl (copyGroup m allocatedRegion) bytes
    match tgToLoad[k]? with
    | none => bytes
    | some tgId => Bytes.copyIn bytes (allocatedRegion.getD tgId 0) (junk.take (m.groupBytes.getD tgId []).length)

/-- `ModelPool` on one device: the registered models, the tensor pool of the device, and its memory. -/
structure Pool where
  registeredModels : Dict String RegisteredModel
  gpu : GPUTensorPool
  bytes : Nat → UInt8

namespace Pool

def init (base totalSize : Nat) (bytes : Nat → UInt8) : Pool := ⟨.empty, .init base totalSize, bytes⟩

variable (addressOf : Nat → Nat) (s : Pool)

/-- `RegisterModel`, with what the files of the model hold. -/
def registerModel (modelPath : String) (m : RegisteredModel) : Pool :=
  match s.registeredModels.get? modelPath with
  | some _ => s
  | none => { s with registeredModels := s.registeredModels.set modelPath m }

def response (base : Nat) (tensorGroupIndexes : List TensorGroupIndex) (allocatedRegion : List Nat) : List Nat :=
  (tensorGroupIndexes.zip allocatedRegion).flatMap fun e => e.1.tensorIndexes.map fun t => e.2 - base + t.offset

/-- What `LoadModelAsync` returns: `"ERROR"`, or the offsets, here with the addresses of the tensor groups they are taken from.
-/
inductive Answer where
  | error
  | offsets (allocatedRegion response : List Nat)
deriving DecidableEq

/-- `LoadModelAsync`, on the device. -/
def loadModelAsync (modelPath : String) (copies : Copies) : Option (Answer × Pool) :=
  match s.registeredModels.get? modelPath with
  | none => some (.error, s)
  | some m =>
    match (s.gpu.useModel modelPath m.fingerprints).placeGroups addressOf modelPath m.tensorGroupIndexes [] [] with
    | none => none
    | some (none, p) => some (.error, { s with gpu := p })
    | some (some (allocatedRegion, regionToLoad), p) =>
      some (.offsets allocatedRegion (response (p.region p.memoryRegionView).addr m.tensorGroupIndexes allocatedRegion),
        { s with gpu := p, bytes := loadModelFromMem m allocatedRegion regionToLoad copies s.bytes })

def allocateBlocks (blockSize : Nat) (modelPath : String) (blockNumber : Int) : Option (List Nat × Pool) :=
  (s.gpu.placeBlocks addressOf blockSize modelPath blockNumber.toNat []).map fun r => (r.1, { s with gpu := r.2 })

end Pool

inductive Request where
  | registerModel (modelPath : String) (m : RegisteredModel)
  | loadModelAsync (modelPath : String) (copies : Copies)
  | allocateBlocks (blockSize : Nat) (modelPath : String) (blockNumber : Int)

def Pool.serve (addressOf : Nat → Nat) (s : Pool) : Request → Option Pool
  | .registerModel modelPath m => some (s.registerModel modelPath m)
  | .loadModelAsync modelPath copies => (s.loadModelAsync addressOf modelPath copies).map Prod.snd
  | .allocateBlocks blockSize modelPath blockNumber => (s.allocateBlocks addressOf blockSize modelPath blockNumber).map Prod.snd

/-- The requests are served in their order. -/
def Pool.serveAll (addressOf : Nat → Nat) (s : Pool) (requests : List Request) : Option Pool :=
  requests.foldlM (Pool.serve addressOf) s

/-- Every request meets a condition in the state in which it is served. -/
def Pool.Meets (addressOf : Nat → Nat) (cond : Pool → Request → Prop) : Pool → List Request → Prop
  | _, [] => True
  | s, r :: requests => cond s r ∧ ∀ s' ∈ s.serve addressOf r, Meets addressOf cond s' requests

instance Pool.decidableMeets (addressOf : Nat → Nat) (cond : Pool → Request → Prop) [∀ s r, Decidable (cond s r)] :
    ∀ s requests, Decidable (Pool.Meets addressOf cond s requests)
  | _, [] => inferInstanceAs (Decidable True)
  | s, r :: requests =>
    have := fun s' => decidableMeets addressOf cond s' requests
    inferInstanceAs (Decidable (cond s r ∧ ∀ s' ∈ s.serve addressOf r, Pool.Meets addressOf cond s' requests))

/-! ## The host side: 64-bit byte counts, while `UnloadModel` returns an `int` -/

/-- `getandRemoveLRUKey`, with the value. -/
def LRUCache.getandRemoveLRU {ν : Type} (c : LRUCache ν) : Option ((String × ν) × LRUCache ν) :=
  c.lruList.getLast?.map fun e => (e, { c with lruList := c.lruList.dropLast })

def LRUCache.contains {ν : Type} (c : LRUCache ν) (key : String) : Bool := key ∈ c.lruList.map Prod.fst

/-- The difference of two `size_t`. -/
def subSize (a b : Nat) : Nat := (a + 2 ^ 64 - b) % 2 ^ 64

/-- The sum of two `size_t`. -/
def addSize (a b : Nat) : Nat := (a + b) % 2 ^ 64

/-- The host side of `ModelPool`. `hostPtr` tells which buffers of a model are held; a model without bytes has no
`tensor_group_host_ptr`. -/
structure CpuPool where
  poolSize : Nat
  allocated : Nat
  inCpuModels : LRUCache RegisteredModel
  hostPtr : String → Option (List Bool)

/-- How the task ends. -/
inductive CpuStatus where
  | ok
  | notRegistered
  /-- The model is in host memory already. -/
  | contained
  | largerThanPool
  | unloadFailed
  | noMoreModels
  | readFailed
deriving DecidableEq

inductive DiskOutcome where
  | read
  /-- The files are not opened, and no buffer is touched. -/
  | notOpened
  /-- A thread fails, and all buffers are freed. -/
  | readFailed
deriving DecidableEq

namespace CpuPool

def init (models : Dict String RegisteredModel) (poolSize : Nat) : CpuPool where
  poolSize := poolSize
  allocated := 0
  inCpuModels := ⟨GPUTensorPool.maxInCpuModel, []⟩
  hostPtr path := (models.get? path).bind fun m =>
    if m.modelSize = 0 then none else some (m.tensorGroupIndexes.map fun _ => false)

variable (c : CpuPool)

/-- The buffers of a model are taken or freed. -/
def setBuffers (path : String) (held : Bool) : CpuPool :=
  { c with hostPtr := Function.update c.hostPtr path ((c.hostPtr path).map fun ptrs => ptrs.map fun _ => held) }

def unloadModel (path : String) (m : RegisteredModel) : Int × CpuPool :=
  match c.hostPtr path with
  | none => (0, c)
  | some ptrs =>
    if ptrs.count true < m.tensorGroupIndexes.length then (-1, c.setBuffers path false)
    else (toInt m.modelSize, c.setBuffers path false)

/-- Models are unloaded until `need` bytes are free. Every round takes one out of `in_cpu_models`. -/
def evictModels (need : Nat) : Nat → CpuPool → CpuStatus × CpuPool
  | 0, c => (.noMoreModels, c)
  | fuel + 1, c =>
    if subSize c.poolSize c.allocated < need then
      match c.inCpuModels.getandRemoveLRU with
      | none => (.noMoreModels, c)
      | some ((path, m), models) =>
        let (freed, c) := ({ c with inCpuModels := models } : CpuPool).unloadModel path m
        if freed ≤ 0 then (.unloadFailed, c)
        else evictModels need fuel { c with allocated := subSize c.allocated freed.toNat }
    else (.ok, c)

def loadModelFromDisk (path : String) : DiskOutcome → Bool × CpuPool
  | .read => (true, c.setBuffers path true)
  | .notOpened => (false, c)
  | .readFailed => (false, c.setBuffers path false)

/-- The end of the task: the files are read, and the model is put into `in_cpu_models`. -/
def readStep (path : String) (m : RegisteredModel) (disk : DiskOutcome) : CpuStatus × CpuPool :=
  match c.loadModelFromDisk path disk with
  | (false, c) => (.readFailed, c)
  | (true, c) => (.ok, { c with inCpuModels := c.inCpuModels.put path m, allocated := addSize c.allocated m.modelSize })

/-- The task of `LoadModelAsync`, with the test before it. -/
def loadStep (models : Dict String RegisteredModel) (path : String) (disk : DiskOutcome) : CpuStatus × CpuPool :=
  match models.get? path with
  | none => (.notRegistered, c)
  | some m =>
    if c.inCpuModels.contains path then (.contained, c)
    else if c.poolSize < m.modelSize then (.largerThanPool, c)
    else
      match evictModels m.modelSize (c.inCpuModels.lruList.length + 1) c with
      | (.ok, c) => c.readStep path m disk
      | (status, c) => (status, c)

def run (models : Dict String RegisteredModel) (c : CpuPool) (steps : List (String × DiskOutcome)) : CpuPool :=
  steps.foldl (fun c e => (c.loadStep models e.1 e.2).2) c

end CpuPool

end ServerlessLLM.ModelPool
