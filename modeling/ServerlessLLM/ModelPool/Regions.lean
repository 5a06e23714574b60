import ServerlessLLM.Library.Dict
import ServerlessLLM.Library.Linked
import ServerlessLLM.Library.Tiling

/-!
# The tensor pool of a device, with best fit

`GPUTensorPool` of `model_pool.h`. The memory of a device is a linked list of regions. `free_regions` has the free ones by size,
`allocated_regions` finds a region by its fingerprint, and `lru_models` has the models from the one that was used last on.
Regions are known by the numbers of their nodes; `addressOf` gives the address of a node, by which regions of one size are
ordered in `free_regions`.
-/

namespace ServerlessLLM.ModelPool

/-- `GPUMemoryRegion`, without its links. -/
structure GPUMemoryRegion where
  isAllocated : Bool
  addr : Nat
  size : Nat
  fingerprint : String
deriving DecidableEq

def GPUMemoryRegion.isAdjacent (r other : GPUMemoryRegion) : Bool :=
    r.addr + r.size = other.addr || other.addr + other.size = r.addr

/-- The list has the entry that was used last at its head. -/
structure LRUCache (ν : Type) where
  capacity : Nat
  lruList : List (String × ν)

namespace LRUCache

variable {ν : Type} (c : LRUCache ν)

/-- `put`. A full cache loses its last entry, and does not take the new one. -/
def put (key : String) (value : ν) : LRUCache ν :=
  if key ∈ c.lruList.map Prod.fst then { c with lruList := (key, value) :: c.lruList.filter fun e => e.1 ≠ key }
  else if c.lruList.length = c.capacity then { c with lruList := c.lruList.dropLast }
  else { c with lruList := (key, value) :: c.lruList }

def remove (key : String) : LRUCache ν := { c with lruList := c.lruList.filter fun e => e.1 ≠ key }

end LRUCache

inductive RegionError where
  | freeMergeNextFindFailed
  | freeMergePrevFindFailed
  | remainingFreeRegionInsertFailed
  | freeRegionInsertFailed
deriving DecidableEq

/-- `GPUTensorPool`. A model of `lru_models` is given by the fingerprints of its tensor groups. -/
structure GPUTensorPool where
  base : Nat
  totalSize : Nat
  store : Linked.Store GPUMemoryRegion
  memoryRegionView : Nat
  allocatedRegions : Dict String Nat
  freeRegions : List (Nat × Nat)
  lruModels : LRUCache (List String)
  errors : List RegionError

namespace GPUTensorPool

variable (p : GPUTensorPool)

def region (i : Nat) : GPUMemoryRegion := (p.store.node i).val

def maxInCpuModel : Nat := 100

def init (base totalSize : Nat) : GPUTensorPool where
  base := base
  totalSize := totalSize
  store := (⟨fun _ => ⟨⟨false, 0, 0, ""⟩, none, none⟩, 0⟩ : Linked.Store GPUMemoryRegion).snoc none ⟨false, base, totalSize, ""⟩
  memoryRegionView := 0
  allocatedRegions := .empty
  freeRegions := [(totalSize, 0)]
  lruModels := ⟨maxInCpuModel, []⟩
  errors := []

def getTensor (fingerprint : String) : Option Nat := p.allocatedRegions.get? fingerprint

/-- The regions that `CheckConsistency` meets, from `memory_region_view` on. -/
def regions : List Nat := p.store.walk (some p.memoryRegionView)

def actualAllocatedRegions : List Nat := p.regions.filter fun i => (p.region i).isAllocated

def useModel (modelPath : String) (fingerprints : List String) : GPUTensorPool :=
  { p with lruModels := p.lruModels.put modelPath fingerprints }

/-! ## The free regions -/

/-- The order of `free_regions`. -/
def regionLt (addressOf : Nat → Nat) (a b : Nat × Nat) : Bool := a.1 < b.1 || (a.1 = b.1 && addressOf a.2 < addressOf b.2)

/-- The first region of at least so many bytes. -/
def lowerBound (addressOf : Nat → Nat) (requestedSize : Nat) : List (Nat × Nat) → Option (Nat × Nat)
  | [] => none
  | e :: es =>
    match lowerBound addressOf requestedSize es with
    | none => if requestedSize ≤ e.1 then some e else none
    | some e' => if requestedSize ≤ e.1 ∧ regionLt addressOf e e' then some e else some e'

/-- `free_regions.insert`, with the error that is logged when the region is there already. -/
def insertFree (error : RegionError) (i : Nat) : GPUTensorPool :=
  if ((p.region i).size, i) ∈ p.freeRegions then { p with errors := p.errors ++ [error] }
  else { p with freeRegions := ((p.region i).size, i) :: p.freeRegions }

/-- A neighbour that is free leaves `free_regions`, before it is merged. -/
def removeFree (error : RegionError) (o : Option Nat) : GPUTensorPool :=
  match o with
  | none => p
  | some i =>
    if (p.region i).isAllocated then p
    else if ((p.region i).size, i) ∈ p.freeRegions then { p with freeRegions := p.freeRegions.erase ((p.region i).size, i) }
    else { p with errors := p.errors ++ [error] }

/-! ## FreeRegion -/

def merge (this other : Nat) : GPUTensorPool :=
  if (p.region this).isAdjacent (p.region other) then
    let next := (p.store.node other).next
    let s := p.store.setVal this { p.region this with size := (p.region this).size + (p.region other).size }
    { p with store := (s.setNext (some this) next).setPrev next (some this) }
  else p

def mergeNext (region : Nat) (next : Option Nat) : GPUTensorPool :=
  match next with
  | none => p
  | some n => if (p.region n).isAllocated then p else p.merge region n

def mergePrev (region : Nat) (prev : Option Nat) : GPUTensorPool × Nat :=
  match prev with
  | none => (p, region)
  | some q => if (p.region q).isAllocated then (p, region) else (p.merge q region, q)

def freeRegion (region : Nat) : GPUTensorPool :=
  let prev := (p.store.node region).prev
  let next := (p.store.node region).next
  let p := { p with allocatedRegions := p.allocatedRegions.erase (p.region region).fingerprint }
  let p := (p.removeFree .freeMergeNextFindFailed next).removeFree .freeMergePrevFindFailed prev
  let (p, region) := (p.mergeNext region next).mergePrev region prev
  let p := { p with store := p.store.setVal region { p.region region with isAllocated := false } }
  p.insertFree .freeRegionInsertFailed region

/-! ## BestFitAllocation -/

/-- A free region is allocated. What it has too many bytes becomes a region behind it. -/
def allocate (e : Nat × Nat) (requestedSize : Nat) (fingerprint : String) : GPUTensorPool :=
  let r := p.region e.2
  if r.size > requestedSize then
    let s := p.store.setVal e.2 { r with size := requestedSize, isAllocated := true, fingerprint := fingerprint }
    let remaining := p.store.fresh
    let p := { p with
      store := s.insertAfter e.2 ⟨false, r.addr + requestedSize, r.size - requestedSize, ""⟩
      freeRegions := p.freeRegions.erase e }
    let p := p.insertFree .remainingFreeRegionInsertFailed remaining
    { p with allocatedRegions := p.allocatedRegions.set fingerprint e.2 }
  else
    { p with
      freeRegions := p.freeRegions.erase e
      store := p.store.setVal e.2 { r with isAllocated := true, fingerprint := fingerprint }
      allocatedRegions := p.allocatedRegions.set fingerprint e.2 }

/-- What the loop over the models finds. -/
inductive Victim where
  /-- The model of the request. -/
  | request
  | region (i : Nat)
  /-- Nothing. -/
  | none

/-- The loop over the models, from the one that was used least recently on: models without an allocated tensor group are
removed. -/
def findVictim (modelPath : String) : List (String × List String) → LRUCache (List String) → Victim × LRUCache (List String)
  | [], c => (.none, c)
  | (path, fingerprints) :: models, c =>
    if path = modelPath then (.request, c)
    else
      match fingerprints.reverse.findSome? fun fingerprint => p.allocatedRegions.get? fingerprint with
      | some i => (.region i, c)
      | none => findVictim modelPath models (c.remove path)

/-- `BestFitAllocation`, with a bound on the regions that are evicted. -/
def bestFit (addressOf : Nat → Nat) (requestedSize : Nat) (fingerprint modelPath : String) :
    Nat → GPUTensorPool → Option (Option Nat × GPUTensorPool)
  | 0, _ => none
  | fuel + 1, p =>
    match if fingerprint = "kvcache" then none else p.getTensor fingerprint with
    | some i => some (some i, p)
    | none =>
      match lowerBound addressOf requestedSize p.freeRegions with
      | some e => some (some e.2, p.allocate e requestedSize fingerprint)
      | none =>
        match p.findVictim modelPath p.lruModels.lruList.reverse p.lruModels with
        | (.request, c) => some (none, { p with lruModels := c })
        | (.region i, c) => bestFit addressOf requestedSize fingerprint modelPath fuel (freeRegion { p with lruModels := c } i)
        | (.none, c) => some (none, { p with lruModels := c })

/-- `BestFitAllocation`. Every round but the last one frees an allocated region. -/
def bestFitAllocation (addressOf : Nat → Nat) (requestedSize : Nat) (fingerprint modelPath : String) :
    Option (Option Nat × GPUTensorPool) :=
  bestFit addressOf requestedSize fingerprint modelPath (p.allocatedRegions.entries.length + 1) p

/-- The fingerprints of the regions that `bestFit` evicts. -/
def victims (addressOf : Nat → Nat) (requestedSize : Nat) (fingerprint modelPath : String) : Nat → GPUTensorPool → List String
  | 0, _ => []
  | fuel + 1, p =>
    match if fingerprint = "kvcache" then none else p.getTensor fingerprint with
    | some _ => []
    | none =>
      match lowerBound addressOf requestedSize p.freeRegions with
      | some _ => []
      | none =>
        match p.findVictim modelPath p.lruModels.lruList.reverse p.lruModels with
        | (.region i, c) =>
          (p.region i).fingerprint :: victims addressOf requestedSize fingerprint modelPath fuel
            (freeRegion { p with lruModels := c } i)
        | _ => []

/-- The fingerprints of the regions that `BestFitAllocation` evicts. -/
def evictions (addressOf : Nat → Nat) (requestedSize : Nat) (fingerprint modelPath : String) : List String :=
  victims addressOf requestedSize fingerprint modelPath (p.allocatedRegions.entries.length + 1) p

end GPUTensorPool

inductive Call where
  | useModel (modelPath : String) (fingerprints : List String)
  | bestFitAllocation (requestedSize : Nat) (fingerprint modelPath : String)
deriving DecidableEq

/-- A call is made. The sizes that are requested are positive. -/
def perform (addressOf : Nat → Nat) (p : GPUTensorPool) : Call → Option GPUTensorPool
  | .useModel modelPath fingerprints => some (p.useModel modelPath fingerprints)
  | .bestFitAllocation requestedSize fingerprint modelPath =>
    if 0 < requestedSize then (p.bestFitAllocation addressOf requestedSize fingerprint modelPath).map Prod.snd else none

def run (addressOf : Nat → Nat) (p : GPUTensorPool) (calls : List Call) : Option GPUTensorPool :=
    calls.foldlM (perform addressOf) p

end ServerlessLLM.ModelPool
