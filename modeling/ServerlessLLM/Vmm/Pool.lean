import Mathlib.Algebra.BigOperators.Group.List.Basic
import Mathlib.Algebra.Order.Ring.Rat
import Mathlib.Data.List.Sort
import Mathlib.Data.Nat.Bitwise
import ServerlessLLM.Vmm.Driver

/-!
# The page pool

`VmmGpuPagePool` of `vram_manager_vmm.h`, function by function. The vector `free_extent_ids_` is a list whose head is its back,
the page number -1 is `none`, `double` values are exact rationals, and the faults that the code logs are kept in a list. The
counters of the operation statistics, which are only printed, are left out.
-/

namespace ServerlessLLM.Vmm

/-- What an operation logs when a `catch` block ends it. -/
inductive Fault where
  /-- A driver call failed. -/
  | cuda (c : Call)
  /-- `VMM physical-page pool is inconsistent`, of `MapStablePages`. -/
  | poolInconsistent
  /-- `preallocated VMM physical-page pool is inconsistent`, of `MapAtReservedAddress`. -/
  | preallocatedPoolInconsistent
deriving DecidableEq

/-- An extent has one page, so `page_count` is 1. The offset is in pages. -/
structure Mapping where
  physicalExtentId : Nat
  virtualOffset : Nat
deriving DecidableEq

structure Allocation where
  va : PageAddr
  logicalBytes : Nat
  mappedBytes : Nat
  mappings : List Mapping
  sensitivity : ℚ
  accessCount : Nat
deriving DecidableEq

structure StableWeightArena where
  va : Nat
  logicalBytes : Nat
  sensitivity : ℚ
  physicalExtentIds : List (Option Nat)
  lastAccess : List Nat
deriving DecidableEq

structure StableBindingAliases where
  handle : Handle
  pages : List Nat
deriving DecidableEq

/-- `StableLoadEstimate`; an infinite cost is `none`. -/
structure StableLoadEstimate where
  cachedLogicalBytes : Nat
  missingLogicalBytes : Nat
  pagesToEvict : Nat
  evictionValueBytes : ℚ
  placementCostBytes : Option ℚ
deriving DecidableEq

/-- `VmmGpuPagePool`. -/
structure Pool where
  granularity : Nat
  granularity_pos : 0 < granularity
  pageCapacity : Nat
  usedPages : Nat
  clock : Nat
  /-- `in_use` of the physical extents. -/
  physicalExtents : List Bool
  freeExtentIds : List Nat
  weights : Dict String Allocation
  stableWeights : Dict String StableWeightArena
  bindingAliases : Dict String StableBindingAliases
  modelAccessCounts : Dict String Nat
  totalModelAccessCount : Nat
  kvVaBase : Nat
  kvVaSlots : List Bool
  kvBlocks : Dict Nat Allocation
  legacyKv : List Allocation
  driver : Driver
  log : List Fault

/-- Why `AllocateKVBlocks` returns false. -/
inductive KVFailure where
  /-- The block size is 0. -/
  | noBlockSize
  /-- `EnsurePages` finds too little to evict. -/
  | noPages
  /-- `FindFreeKVSlot` finds no free slot. -/
  | noFreeSlot
  /-- `MapAtReservedAddress` fails. -/
  | notMapped
deriving DecidableEq

/-- What `EnsurePages` evicts. -/
inductive Victim where
  | weight (fp : String)
  | stable (model : String) (page : Nat)
deriving DecidableEq

/-- The search for a victim: the best score (infinite at first), `oldest_access`, and the victim. -/
structure Search where
  best : Option ℚ
  oldest : Nat
  victim : Option Victim

def Search.below (s : Search) (score : ℚ) : Prop := ∀ b ∈ s.best, score < b

instance (s : Search) (score : ℚ) : Decidable (s.below score) :=
  inferInstanceAs (Decidable (∀ b ∈ s.best, score < b))

namespace Pool

/-- The constructor: nothing for a page size that the device does not support, or a pool below one page. The page size is
`requested_page_size`, or that of the device. -/
def create (nativeGranularity requestedPageSize capacityBytes : Nat) (memory : Handle → Nat → UInt8) : Option Pool :=
  let granularity := if requestedPageSize = 0 then nativeGranularity else requestedPageSize
  if h : 0 < granularity ∧ nativeGranularity ≤ granularity ∧ granularity % nativeGranularity = 0 ∧
      granularity &&& (granularity - 1) = 0 then
    let pages := capacityBytes / granularity
    if pages = 0 then none
    else some {
      granularity := granularity
      granularity_pos := h.1
      pageCapacity := pages
      usedPages := 0
      clock := 0
      physicalExtents := List.replicate pages false
      freeExtentIds := (List.range pages).reverse
      weights := .empty
      stableWeights := .empty
      bindingAliases := .empty
      modelAccessCounts := .empty
      totalModelAccessCount := 0
      kvVaBase := 1
      kvVaSlots := List.replicate pages false
      kvBlocks := .empty
      legacyKv := []
      driver := ⟨0, 1, 0, .empty, memory⟩
      log := [] }
  else none

variable (S : Surroundings) (p : Pool)

def freePages : Nat := p.pageCapacity - p.usedPages

def pagesFor (bytes : Nat) : Nat := (bytes + p.granularity - 1) / p.granularity

/-- The driver after a call. -/
def withDriver (d : Driver) : Pool := { p with driver := d }

/-- `LOG(ERROR)`. -/
def logged (f : Fault) : Pool := { p with log := p.log ++ [f] }

def setModelAccessCount (model : String) (count : Nat) : Pool :=
  let previous := (p.modelAccessCounts.get? model).getD 0
  { p with
    modelAccessCounts := p.modelAccessCounts.set model count
    totalModelAccessCount :=
      if count ≥ previous then p.totalModelAccessCount + (count - previous) else p.totalModelAccessCount - (previous - count) }

/-! ## Physical extents -/

/-- `AcquirePhysicalExtent`, which always acquires one page. -/
def acquirePhysicalExtent : Option (Nat × Pool) :=
  match p.freeExtentIds with
  | [] => none
  | id :: rest => some (id, { p with physicalExtents := p.physicalExtents.set id true, freeExtentIds := rest })

/-- An extent goes back to `free_extent_ids_`. -/
def returnExtent (id : Nat) : Pool :=
  { p with physicalExtents := p.physicalExtents.set id false, freeExtentIds := id :: p.freeExtentIds }

def extentOf (model : String) (page : Nat) : Option Nat :=
  (p.stableWeights.get? model).bind fun arena => arena.physicalExtentIds.getD page none

/-- `physical_extent_ids[page] = id`. -/
def setExtent (model : String) (page : Nat) (id : Option Nat) : Pool :=
  { p with stableWeights := p.stableWeights.modify model fun arena =>
      { arena with physicalExtentIds := arena.physicalExtentIds.set page id } }

/-- `last_access[page] = ++clock_`. -/
def touchPage (model : String) (page : Nat) : Pool :=
  { p with
    clock := p.clock + 1
    stableWeights := p.stableWeights.modify model fun arena =>
      { arena with lastAccess := arena.lastAccess.set page (p.clock + 1) } }

def pageAddr (model : String) (page : Nat) : PageAddr := ⟨((p.stableWeights.get? model).map StableWeightArena.va).getD 0, page⟩

def releaseStablePageMetadata (model : String) (page : Nat) : Pool :=
  match p.extentOf model page with
  | none => p
  | some id => { (p.returnExtent id).setExtent model page none with usedPages := p.usedPages - 1 }

def releaseStablePage (model : String) (page : Nat) : Pool :=
  match p.extentOf model page with
  | none => p
  | some _ => (p.withDriver (p.driver.cuMemUnmap (p.pageAddr model page))).releaseStablePageMetadata model page

/-- `ReleaseStablePage` of some pages, one after the other. -/
def releaseStablePages (model : String) (pages : List Nat) : Pool :=
    pages.foldl (fun p page => p.releaseStablePage model page) p

def arenaPages (model : String) : Nat := ((p.stableWeights.get? model).map fun a => a.physicalExtentIds.length).getD 0

/-! ## Allocations -/

/-- One step of the loop of `Release`. -/
def releaseMapping (va : PageAddr) (p : Pool) (m : Mapping) : Pool :=
  { (p.withDriver (p.driver.cuMemUnmap ⟨va.range, va.page + m.virtualOffset⟩)).returnExtent m.physicalExtentId with
    usedPages := p.usedPages - 1 }

def release (a : Allocation) : Pool := if a.va.range = 0 then p else a.mappings.foldl (releaseMapping a.va) p

/-- The mapping loop of `MapAtReservedAddress`: the fault that ends it, if any, and the allocation and the pool it leaves. -/
def mapExtents : Nat → Nat → Allocation → Pool → Option Fault × Allocation × Pool
  | 0, _, a, p => (none, a, p)
  | pagesRemaining + 1, virtualOffset, a, p =>
    match p.acquirePhysicalExtent with
    | none => (some .preallocatedPoolInconsistent, a, p)
    | some (id, p) =>
      let r := p.driver.cuMemMap S .mapExtent ⟨a.va.range, a.va.page + virtualOffset⟩ (.extent id)
      -- the extent that was acquired is not returned here
      if !r.1 then (some (.cuda .mapExtent), a, p.withDriver r.2)
      else
        mapExtents pagesRemaining (virtualOffset + 1) { a with mappings := a.mappings ++ [⟨id, virtualOffset⟩] }
          { p.withDriver r.2 with usedPages := p.usedPages + 1 }

/-- The allocation, when it is mapped. -/
def mapAtReservedAddress (a : Allocation) : Option Allocation × Pool :=
  match mapExtents S (a.mappedBytes / p.granularity) 0 a p with
  | (some fault, a, p) => (none, (p.logged fault).release a)
  | (none, a, p) =>
    let r := p.driver.cuMemSetAccess S .accessExtents
    if r.1 then (some a, p.withDriver r.2) else (none, ((p.withDriver r.2).logged (.cuda .accessExtents)).release a)

def map (a : Allocation) : Option Allocation × Pool :=
  match p.driver.cuMemAddressReserve S .reserveAllocation with
  | (none, d) => (none, (p.withDriver d).logged (.cuda .reserveAllocation))
  | (some va, d) => (p.withDriver d).mapAtReservedAddress S { a with va := ⟨va, 0⟩ }

/-! ## Eviction -/

def stablePageUsefulBytes (arena : StableWeightArena) (page : Nat) : Nat :=
  min p.granularity (arena.logicalBytes - page * p.granularity)

def stablePageValue (model : String) (arena : StableWeightArena) (page : Nat) : ℚ :=
  let accesses : Nat := (p.modelAccessCounts.get? model).getD 0
  let probability : ℚ := if p.totalModelAccessCount = 0 then 1 else (accesses : ℚ) / p.totalModelAccessCount
  p.stablePageUsefulBytes arena page * probability * arena.sensitivity

/-- One step of the loop over `weights_`. -/
def weighWeight (protectedFps : List String) (s : Search) (e : String × Allocation) : Search :=
  if e.1 ∈ protectedFps then s
  else
    let score : ℚ := (e.2.accessCount : ℚ) / max 1 p.clock * e.2.sensitivity
    if s.below score then { s with best := some score, victim := some (.weight e.1) } else s

/-- One step of the loop over the pages of an arena. -/
def weighPage (model : String) (arena : StableWeightArena) (s : Search) (page : Nat) : Search :=
  match arena.physicalExtentIds.getD page none with
  | none => s
  | some _ =>
    let score := p.stablePageValue model arena page
    let lastAccess := arena.lastAccess.getD page 0
    if s.below score ∨ s.best = some score ∧
      lastAccess < s.oldest then ⟨some score, lastAccess, some (.stable model page)⟩ else s

/-- One step of the loop over `stable_weights_`. -/
def weighArena (protectedFps : List String) (s : Search) (e : String × StableWeightArena) : Search :=
  if e.1 ∈ protectedFps then s else (List.range e.2.physicalExtentIds.length).foldl (p.weighPage e.1 e.2) s

/-- The victim that one round of `EnsurePages` chooses. -/
def findVictim (protectedFps : List String) : Option Victim :=
  let s := (S.visit p.weights.entries).foldl (p.weighWeight protectedFps) ⟨none, 2 ^ 64 - 1, none⟩
  ((S.visit p.stableWeights.entries).foldl (p.weighArena protectedFps) s).victim

def evict : Victim → Pool
  | .stable model page => p.releaseStablePage model page
  | .weight fp =>
    match p.weights.get? fp with
    | none => p
    | some a =>
      let p := p.release a
      { p with weights := p.weights.erase fp }

/-- How many pages and weights there are to evict. -/
def evictable : Nat :=
  (p.stableWeights.entries.map fun e => e.2.physicalExtentIds.countP Option.isSome).sum + p.weights.entries.length

/-- The loop of `EnsurePages`. Every round evicts something, so that `evictable` rounds and one more are enough. -/
def ensurePagesLoop (pages : Nat) (protectedFps : List String) : Nat → Pool → Bool × Pool
  | 0, p => (false, p)
  | fuel + 1, p =>
    if p.freePages < pages then
      match p.findVictim S protectedFps with
      | none => (false, p)
      | some v => ensurePagesLoop pages protectedFps fuel (p.evict v)
    else (true, p)

def ensurePages (pages : Nat) (protectedFps : List String) : Bool × Pool :=
  ensurePagesLoop S pages protectedFps (p.evictable + 1) p

/-! ## Model arenas -/

def reserveStableWeight (model : String) (bytes : Nat) (sensitivity : ℚ) : Bool × Pool :=
  if model ∈ p.stableWeights.keys then (true, p)
  else
    let pages := p.pagesFor bytes
    match p.driver.cuMemAddressReserve S .reserveArena with
    | (none, d) => (false, (p.withDriver d).logged (.cuda .reserveArena))
    | (some va, d) =>
      (true, { p.withDriver d with
        stableWeights := p.stableWeights.set model ⟨va, bytes, sensitivity, List.replicate pages none,
          List.replicate pages 0⟩ })

def dropStableWeight (model : String) (releaseVa : Bool) : Pool :=
  let p := p.releaseStablePages model (List.range (p.arenaPages model))
  if releaseVa then { p with stableWeights := p.stableWeights.erase model } else p

/-- The resident pages of the models other than `model`, as `EstimateStableLoad` goes through them. -/
def otherPages (model : String) : List (String × Nat) :=
  (p.stableWeights.entries.filter fun e => e.1 ≠ model).flatMap fun e =>
    ((List.range e.2.physicalExtentIds.length).filter fun page =>
      (e.2.physicalExtentIds.getD page none).isSome).map fun page => (e.1, page)

/-- The `StablePageValue` of a page of a model's arena. -/
def pageValue (v : String × Nat) : ℚ := ((p.stableWeights.get? v.1).map fun arena => p.stablePageValue v.1 arena v.2).getD 0

/-- `EstimateStableLoad`. The values of the victims are sorted, so that the order in which they are found does not show. -/
def estimateStableLoad (model : String) : StableLoadEstimate :=
  match p.stableWeights.get? model with
  | none => ⟨0, 0, 0, 0, none⟩
  | some target =>
    let pages := List.range target.physicalExtentIds.length
    let resident := fun page => (target.physicalExtentIds.getD page none).isSome
    let cachedLogicalBytes := ((pages.filter resident).map (p.stablePageUsefulBytes target)).sum
    let missing := pages.filter fun page => !resident page
    let missingLogicalBytes := (missing.map (p.stablePageUsefulBytes target)).sum
    let pagesToEvict := if missing.length > p.freePages then missing.length - p.freePages else 0
    let victimValues := ((p.otherPages model).map p.pageValue).insertionSort (· ≤ ·)
    if victimValues.length < pagesToEvict then ⟨cachedLogicalBytes, missingLogicalBytes, pagesToEvict, 0, none⟩
    else
      let evictionValueBytes := (victimValues.take pagesToEvict).sum
      ⟨cachedLogicalBytes, missingLogicalBytes, pagesToEvict, evictionValueBytes,
        some (missingLogicalBytes + evictionValueBytes)⟩

def rollbackStablePages (model : String) (pages : List Nat) : Pool := p.releaseStablePages model pages

/-- The `try` block of `MapStablePages`: the fault that ends it, if any, and the pages mapped so far. -/
def mapRequested (model : String) : List Nat → List Nat → Pool → Option Fault × List Nat × Pool
  | [], newly, p => (none, newly, p)
  | page :: pages, newly, p =>
    match p.extentOf model page with
    | some _ => mapRequested model pages newly (p.touchPage model page)
    | none =>
      match p.acquirePhysicalExtent with
      | none => (some .poolInconsistent, newly, p)
      | some (id, p) =>
        let r := p.driver.cuMemMap S .mapPage (p.pageAddr model page) (.extent id)
        let p := p.withDriver r.2
        if !r.1 then (some (.cuda .mapPage), newly, p.returnExtent id)
        else
          let p := { p.setExtent model page (some id) with usedPages := p.usedPages + 1 }
          let r := p.driver.cuMemSetAccess S .accessPage
          let p := p.withDriver r.2
          if !r.1 then (some (.cuda .accessPage), newly ++ [page], p)
          else mapRequested model pages (newly ++ [page]) (p.touchPage model page)

/-- The newly mapped pages, when it returns true. -/
def mapStablePages (model : String) (requestedPages : List Nat) (protectedModels : List String) : Option (List Nat) × Pool :=
  if model ∉ p.stableWeights.keys then (none, p)
  else if ∃ page ∈ requestedPages, page ≥ p.arenaPages model then (none, p)
  else
    let missing := requestedPages.countP fun page => p.extentOf model page = none
    match p.ensurePages S missing protectedModels with
    | (false, p) => (none, p)
    | (true, p) =>
      match mapRequested S model requestedPages [] p with
      | (none, newly, p) => (some newly, p)
      | (some fault, newly, p) => (none, (p.logged fault).releaseStablePages model newly)

def mapStableWeight (model : String) (protectedModels : List String) : Option (List Nat) × Pool :=
  p.mapStablePages S model (List.range (p.arenaPages model)) protectedModels

/-- `flush_run` of `RetainStablePages`. -/
def flushRun (model : String) (run : List Nat) : Pool :=
  match run with
  | [] => p
  | first :: _ =>
    let r := p.driver.cuMemUnmapRun S (p.pageAddr model first) run.length
    let p := p.withDriver r.2
    if r.1 then run.foldl (fun p page => p.releaseStablePageMetadata model page) p else p.releaseStablePages model run

/-- The batch loop of `RetainStablePages`; `run` holds the pages from `run_begin` on. -/
def retainBatch (model : String) (retainedPages : List Nat) : List Nat → List Nat → Pool → Pool
  | [], run, p => p.flushRun S model run
  | page :: pages, run, p =>
    if p.extentOf model page ≠ none ∧ page ∉ retainedPages then retainBatch model retainedPages pages (run ++ [page]) p
    else retainBatch model retainedPages pages [] (p.flushRun S model run)

def retainStablePages (model : String) (retainedPages : List Nat) : Bool × Pool :=
  if model ∉ p.stableWeights.keys then (false, p)
  else
    let pages := List.range (p.arenaPages model)
    if S.batchUnmap then (true, retainBatch S model retainedPages pages [] p)
    else (true, p.releaseStablePages model (pages.filter fun page => page ∉ retainedPages))

/-- The mapping loop of `BeginStableBinding`: whether it ends, the pages that are aliased by then, and the pool. -/
def aliasPages (model : String) (handle : Handle) : List Nat → List Nat → Pool → Option Fault × List Nat × Pool
  | [], aliased, p => (none, aliased, p)
  | page :: pages, aliased, p =>
    match p.extentOf model page with
    | some _ => aliasPages model handle pages aliased p
    | none =>
      let r := p.driver.cuMemMap S .mapAlias (p.pageAddr model page) handle
      let p := p.withDriver r.2
      if !r.1 then (some (.cuda .mapAlias), aliased, p)
      else
        let r := p.driver.cuMemSetAccess S .accessAlias
        let p := p.withDriver r.2
        if !r.1 then (some (.cuda .accessAlias), aliased ++ [page], p)
        else aliasPages model handle pages (aliased ++ [page]) p

/-- `cuMemUnmap` of some pages of a model's arena. -/
def unmapPages (model : String) (pages : List Nat) : Pool :=
  pages.foldl (fun p page => p.withDriver (p.driver.cuMemUnmap (p.pageAddr model page))) p

def beginStableBinding (model : String) : Bool × Pool :=
  if model ∉ p.stableWeights.keys ∨ model ∈ p.bindingAliases.keys then (false, p)
  else
    match p.driver.cuMemCreate S with
    | (none, d) => (false, (p.withDriver d).logged (.cuda .createAlias))
    | (some handle, d) =>
      match aliasPages S model handle (List.range (p.arenaPages model)) [] (p.withDriver d) with
      | (none, aliased, p) => (true, { p with bindingAliases := p.bindingAliases.set model ⟨handle, aliased⟩ })
      | (some fault, aliased, p) => (false, (p.logged fault).unmapPages model aliased)

def endStableBinding (model : String) : Bool × Pool :=
  if model ∉ p.stableWeights.keys then (false, p)
  else
    match p.bindingAliases.get? model with
    | none => (false, p)
    | some aliases =>
      let p := p.unmapPages model aliases.pages
      (true, { p with bindingAliases := p.bindingAliases.erase model })

/-! ## Weights with a range of their own -/

def reclaimablePages (protectedFps : List String) : Nat :=
  p.freePages + ((p.weights.entries.filter fun e => e.1 ∉ protectedFps).map fun e => e.2.mappedBytes / p.granularity).sum

def mapWeight (fp : String) (bytes : Nat) (sensitivity : ℚ) (protectedFps : List String) : Bool × Pool :=
  match p.weights.get? fp with
  | some a =>
    (true, { p with clock := p.clock + 1, weights := p.weights.set fp { a with accessCount := a.accessCount + 1 } })
  | none =>
    match p.ensurePages S (p.pagesFor bytes) protectedFps with
    | (false, p) => (false, p)
    | (true, p) =>
      match p.map S ⟨⟨0, 0⟩, bytes, p.pagesFor bytes * p.granularity, [], sensitivity, 0⟩ with
      | (none, p) => (false, p)
      | (some a, p) =>
        (true, { p with clock := p.clock + 1, weights := p.weights.set fp { a with accessCount := 1 } })

/-! ## KV blocks -/

def availableKVBlocks (blockSize : Nat) (protectedFps : List String) : Nat :=
  if blockSize = 0 then 0
  else if p.pagesFor blockSize = 0 then 0
  else p.reclaimablePages protectedFps / p.pagesFor blockSize

/-- The loop of `FindFreeKVSlot` from slot `i` on; `run` is the number of free slots before it. -/
def findFreeRun (pages : Nat) : List Bool → Nat → Nat → Option Nat
  | [], _, _ => none
  | used :: slots, i, run =>
    let run := if used then 0 else run + 1
    if run = pages then some (i + 1 - pages) else findFreeRun pages slots (i + 1) run

/-- `FindFreeKVSlot`; `none` stands for `kv_va_slots_.size()`. -/
def findFreeKVSlot (pages : Nat) : Option Nat :=
  if pages = 0 ∨ pages > p.kvVaSlots.length then none else findFreeRun pages p.kvVaSlots 0 0

def markKVSlots (start pages : Nat) (used : Bool) : Pool :=
  { p with kvVaSlots := (List.range pages).foldl (fun slots i => slots.set (start + i) used) p.kvVaSlots }

/-- One step of `ReleaseKVBlocks`. -/
def releaseKVBlock (logicalId : Nat) : Pool :=
  match p.kvBlocks.get? logicalId with
  | none => p
  | some a =>
    let p := (p.release a).markKVSlots a.va.page (a.mappedBytes / p.granularity) false
    { p with kvBlocks := p.kvBlocks.erase logicalId }

/-- `ReleaseKVBlocks`, and `RollbackKVBlocks`. -/
def releaseKVBlocks (logicalIds : List Nat) : Pool := logicalIds.foldl releaseKVBlock p

def placeKVBlock (blockSize logicalId slot : Nat) : Except KVFailure Nat × Pool :=
  let pagesPerBlock := p.pagesFor blockSize
  let a : Allocation := ⟨⟨p.kvVaBase, slot⟩, blockSize, pagesPerBlock * p.granularity, [], 1, 0⟩
  match (p.markKVSlots slot pagesPerBlock true).mapAtReservedAddress S a with
  | (none, p) => (.error .notMapped, p.markKVSlots slot pagesPerBlock false)
  | (some a, p) => (.ok (a.va.page * p.granularity), { p with kvBlocks := p.kvBlocks.set logicalId a })

/-- The body of the loop of `AllocateKVBlocks` for a new logical id. -/
def allocateKVBlock (blockSize logicalId : Nat) (protectedFps : List String) : Except KVFailure Nat × Pool :=
  let pagesPerBlock := p.pagesFor blockSize
  match p.ensurePages S pagesPerBlock protectedFps with
  | (false, p) => (.error .noPages, p)
  | (true, p) =>
    match p.findFreeKVSlot pagesPerBlock with
    | none => (.error .noFreeSlot, p)
    | some slot => p.placeKVBlock S blockSize logicalId slot

/-- The loop of `AllocateKVBlocks`. -/
def allocateKVBlocksLoop (blockSize : Nat) (protectedFps : List String) :
    List Nat → List Nat → List Nat → Pool → Except KVFailure (List Nat) × Pool
  | [], offsets, _, p => (.ok offsets, p)
  | logicalId :: ids, offsets, newlyAllocated, p =>
    match p.kvBlocks.get? logicalId with
    | some a => allocateKVBlocksLoop blockSize protectedFps ids (offsets ++ [a.va.page * p.granularity]) newlyAllocated p
    | none =>
      match p.allocateKVBlock S blockSize logicalId protectedFps with
      | (.error e, p) => (.error e, p.releaseKVBlocks newlyAllocated)
      | (.ok offset, p) => allocateKVBlocksLoop blockSize protectedFps ids (offsets ++ [offset])
          (newlyAllocated ++ [logicalId]) p

/-- The offsets in the KV arena, when it returns true. -/
def allocateKVBlocks (blockSize : Nat) (logicalIds : List Nat) (protectedFps : List String) :
    Except KVFailure (List Nat) × Pool :=
  if blockSize = 0 then (.error .noBlockSize, p) else allocateKVBlocksLoop S blockSize protectedFps logicalIds [] [] p

/-- The addresses of the blocks, as a range and an offset in bytes. -/
def mapKV (blockSize : Nat) (blockCount : ℤ) (protectedFps : List String) : List (Nat × Nat) × Pool :=
  if blockCount ≤ 0 ∨ blockSize = 0 then ([], p)
  else
    let bytes := blockSize * blockCount.toNat
    match p.ensurePages S (p.pagesFor bytes) protectedFps with
    | (false, p) => ([], p)
    | (true, p) =>
      match p.map S ⟨⟨0, 0⟩, bytes, p.pagesFor bytes * p.granularity, [], 1, 0⟩ with
      | (none, p) => ([], p)
      | (some a, p) =>
        ((List.range blockCount.toNat).map fun i => (a.va.range, i * blockSize), { p with legacyKv := p.legacyKv ++ [a] })

def cleanKV : Pool :=
  let p := p.releaseKVBlocks (S.visit p.kvBlocks.keys)
  { p.legacyKv.foldl release p with legacyKv := [] }

def clear : Pool :=
  let p := (S.visit p.bindingAliases.keys).foldl (fun p model => (p.endStableBinding model).2) p
  let p := p.cleanKV S
  let p := { (S.visit p.weights.entries).foldl (fun p e => p.release e.2) p with weights := .empty }
  let p := (S.visit p.stableWeights.entries).foldl
    (fun p e => p.releaseStablePages e.1 (List.range e.2.physicalExtentIds.length)) p
  { p with stableWeights := .empty }

end Pool

/-! ## Runs -/

/-- The calls of a pool. -/
inductive Op where
  | setModelAccessCount (model : String) (count : Nat)
  | reserveStableWeight (model : String) (bytes : Nat) (sensitivity : ℚ)
  | dropStableWeight (model : String) (releaseVa : Bool)
  | retainStablePages (model : String) (retainedPages : List Nat)
  | beginStableBinding (model : String)
  | endStableBinding (model : String)
  | rollbackStablePages (model : String) (pages : List Nat)
  | mapStableWeight (model : String) (protectedModels : List String)
  | mapStablePages (model : String) (requestedPages : List Nat) (protectedModels : List String)
  | mapWeight (fp : String) (bytes : Nat) (sensitivity : ℚ) (protectedFps : List String)
  | allocateKVBlocks (blockSize : Nat) (logicalIds : List Nat) (protectedFps : List String)
  | releaseKVBlocks (logicalIds : List Nat)
  | mapKV (blockSize : Nat) (blockCount : ℤ) (protectedFps : List String)
  | cleanKV
  | clear
deriving DecidableEq

/-- The pool after a call. `VmmVRAMManager` gives an arena up only when the registration of its model fails, so there is no step
that gives up the arena of an open binding. -/
def Pool.step (p : Pool) (c : Surroundings × Op) : Option Pool :=
  match c.2 with
  | .setModelAccessCount model count => some (p.setModelAccessCount model count)
  | .reserveStableWeight model bytes sensitivity => some (p.reserveStableWeight c.1 model bytes sensitivity).2
  | .dropStableWeight model releaseVa =>
    if releaseVa = true ∧ model ∈ p.bindingAliases.keys then none else some (p.dropStableWeight model releaseVa)
  | .retainStablePages model retainedPages => some (p.retainStablePages c.1 model retainedPages).2
  | .beginStableBinding model => some (p.beginStableBinding c.1 model).2
  | .endStableBinding model => some (p.endStableBinding model).2
  | .rollbackStablePages model pages => some (p.rollbackStablePages model pages)
  | .mapStableWeight model protectedModels => some (p.mapStableWeight c.1 model protectedModels).2
  | .mapStablePages model requestedPages protectedModels => some (p.mapStablePages c.1 model requestedPages protectedModels).2
  | .mapWeight fp bytes sensitivity protectedFps => some (p.mapWeight c.1 fp bytes sensitivity protectedFps).2
  | .allocateKVBlocks blockSize logicalIds protectedFps => some (p.allocateKVBlocks c.1 blockSize logicalIds protectedFps).2
  | .releaseKVBlocks logicalIds => some (p.releaseKVBlocks logicalIds)
  | .mapKV blockSize blockCount protectedFps => some (p.mapKV c.1 blockSize blockCount protectedFps).2
  | .cleanKV => some (p.cleanKV c.1)
  | .clear => some (p.clear c.1)

end ServerlessLLM.Vmm
