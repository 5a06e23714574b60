import ServerlessLLM.Simulator.Backend

/-!
# Segments

`SegmentMemory` of `tensor_sim_segment_backend.py`: the pool is a list of extents in the order of their addresses. An extent is
free when it has no key. The objects of the source are told apart by their `id`; `allocated_extents` finds the extent of a key.
Victims are looked for among the keys that a `candidate` predicate accepts, which is what `_victims` of a subclass changes.
-/

namespace ServerlessLLM.Simulator

structure Extent where
  id : Nat
  offset : Nat
  size : Nat
  key : Option Key
deriving DecidableEq

namespace Extent

def room (limit : Nat) (e : Extent) : Nat := min (e.offset + e.size) limit - e.offset

def freeBelow (limit : Nat) (l : List Extent) : List Extent := l.filter fun e => e.key = none ∧ e.offset < limit

def allocated (l : List Extent) : List Extent := l.filter fun e => e.key.isSome

/-- `_coalesce`, with the last extent of the result so far. -/
def coalesceFrom : Extent → List Extent → List Extent
  | last, [] => [last]
  | last, e :: l =>
    if last.key = none ∧ e.key = none then coalesceFrom { last with size := last.size + e.size } l
    else last :: coalesceFrom e l

def coalesce : List Extent → List Extent
  | [] => []
  | e :: l => coalesceFrom e l

/-- The object `id` loses its key. -/
def clearKey (id : Nat) (l : List Extent) : List Extent := l.map fun e => if e.id = id then { e with key := none } else e

/-- Extents are put behind each other, as new objects from `id` on. -/
def repack : Nat → Nat → List Extent → List Extent
  | _, _, [] => []
  | cursor, id, e :: l => ⟨id, cursor, e.size, e.key⟩ :: repack (cursor + e.size) (id + 1) l

def rest (id cursor capacity : Nat) : List Extent :=
  if cursor < capacity then [⟨id, cursor, capacity - cursor, none⟩] else []

/-- The bytes of the extents that `repack` moves. -/
def movedBytes : Nat → List Extent → Nat
  | _, [] => 0
  | cursor, e :: l => (if e.offset = cursor then 0 else e.size) + movedBytes (cursor + e.size) l

/-- `{extent.key: extent for extent in extents if extent.key is not None}`. -/
def byKey (l : List Extent) : Dict Key Extent :=
  (l.filterMap fun e => e.key.map fun key => (key, e)).foldl (fun d x => d.set x.1 x.2) .empty

def freeSize : Option Extent → Nat
  | some e => if e.key = none then e.size else 0
  | none => 0

/-- `_placement_rank`; the cache of `_victims` has the same numbers. -/
def placementRank (key : Key) : Option Extent → List Extent → ℚ
  | _, [] => 0
  | previous, e :: l =>
    if e.key = some key then -((e.size + freeSize previous + freeSize l.head? : Nat) : ℚ) else placementRank key (some e) l

def front (e : Extent) (id : Nat) (key : Key) (size : Nat) : Extent := ⟨id, e.offset, size, some key⟩

/-- What replaces a free extent whose front gets a key. -/
def carve (e : Extent) (id : Nat) (key : Key) (size : Nat) : List Extent :=
  e.front id key size :: if size < e.size then [⟨id + 1, e.offset + size, e.size - size, none⟩] else []

/-- The loop that looks for the first extent with room below a limit, and splits it. -/
def firstFit (limit id : Nat) (key : Key) (size : Nat) : List Extent → Option (Extent × List Extent)
  | [] => none
  | e :: l =>
    if e.key = none ∧ e.offset < limit ∧ size ≤ min e.size (limit - e.offset) then
      some (e.front id key size, e.carve id key size ++ l)
    else (firstFit limit id key size l).map fun x => (x.1, e :: x.2)

end Extent

/-- The fields of `SegmentMemory`, and the number of the next object. -/
structure SegmentMemory where
  capacityBytes : Nat
  weightCapacityBytes : Nat
  extents : List Extent
  nextId : Nat
  allocatedExtents : Dict Key Extent
  compactionCount : Nat
  accesses : Accesses

namespace SegmentMemory

open Extent

/-- A new pool. -/
def init (models : Models) (capacityBytes : Nat) : SegmentMemory where
  capacityBytes := capacityBytes
  weightCapacityBytes := capacityBytes
  extents := [⟨0, 0, capacityBytes, none⟩]
  nextId := 1
  allocatedExtents := .empty
  compactionCount := 0
  accesses := .init models

variable (models : Models) (args : Args) (candidate : Key → Bool) (m : SegmentMemory)

/-- The extent that `_allocated_extent` finds when the dictionary has it. -/
def indexedExtent (key : Key) : Option Extent := (m.allocatedExtents.get? key).filter fun e => e.key = some key

def allocatedExtent (key : Key) : Option Extent × SegmentMemory :=
  match m.indexedExtent key with
  | some e => (some e, m)
  | none =>
    match m.extents.find? fun e => e.key = some key with
    | some e => (some e, { m with allocatedExtents := m.allocatedExtents.set key e })
    | none => (none, m)

def usedBytes : Nat := Tiling.total size (allocated m.extents)

def objectBytes (key : Key) : ℚ :=
  match (m.allocatedExtent key).1 with
  | some e => e.size
  | none => 0

def free (key : Key) (coalescing : Bool) : Nat × SegmentMemory :=
  let extent := (m.indexedExtent key).or (m.extents.find? fun e => e.key = some key)
  let m := { m with allocatedExtents := m.allocatedExtents.erase key }
  match extent with
  | none => (0, m)
  | some e =>
    let l := clearKey e.id m.extents
    (e.size, { m with extents := if coalescing then coalesce l else l })

def freeBytes : Nat := Tiling.total (room m.weightCapacityBytes) (freeBelow m.weightCapacityBytes m.extents)

def largestFree : Nat := ((freeBelow m.weightCapacityBytes m.extents).map (room m.weightCapacityBytes)).foldr max 0

/-- The keys that may be evicted. -/
def candidates : List Key := (m.extents.filterMap key).filter candidate

/-- `_victims`. -/
def victim : Option Key :=
  m.accesses.selectVictim models args (fun key => placementRank key none m.extents) m.objectBytes (m.candidates candidate)

def evictOne (cost : LoadCost) : Option (LoadCost × SegmentMemory) :=
  match m.victim models args candidate with
  | none => none
  | some key =>
    let (released, m) := m.free key true
    some ({ cost with evictedObjects := cost.evictedObjects + 1, evictedBytes := cost.evictedBytes + released }, m)

/-- Evict until the memory is as wanted; `none` when no victim is left. The bound is the number of extents: an eviction leaves
one allocated extent less. -/
def evictUntil (wanted : SegmentMemory → Bool) : Nat → LoadCost → SegmentMemory → Option (LoadCost × SegmentMemory)
  | fuel, cost, m =>
    if wanted m then some (cost, m)
    else
      match fuel with
      | 0 => none
      | fuel + 1 =>
        match m.evictOne models args candidate cost with
        | none => none
        | some (cost, m) => evictUntil wanted fuel cost m

/-- The time that `_compact` takes. -/
def compactionMs (moved : Nat) : ℚ := moved / args.gpuCopyBytesPerMs + args.compactionFixedMs

def compact : LoadCost × SegmentMemory :=
  let l := allocated m.extents
  let moved := movedBytes 0 l
  let extents := repack 0 m.nextId l ++ rest (m.nextId + l.length) (Tiling.total size l) m.capacityBytes
  ({ compactionMovedBytes := moved, compactionMs := compactionMs args moved },
    { m with
      extents := extents
      nextId := m.nextId + l.length + 1
      allocatedExtents := byKey extents
      compactionCount := m.compactionCount + 1 })

/-- `_eviction_alternative_ms`; `none` is infinity. The evictions are made on a copy. -/
def evictionAlternativeMs (size : Nat) : Option ℚ :=
  (evictUntil models args candidate (fun m => size ≤ m.largestFree) m.extents.length {} m).map fun x =>
    x.1.evictedBytes / args.h2dBytesPerMs

def trimToCapacity : Except Fault (LoadCost × SegmentMemory) :=
  match evictUntil models args candidate (fun m => m.usedBytes ≤ m.weightCapacityBytes) m.extents.length {} m with
  | none => .error .noEvictableSegment
  | some (cost, m) =>
    if ∃ e ∈ allocated m.extents, m.weightCapacityBytes < e.offset + e.size then
      let (c, m) := m.compact args
      .ok (cost.add c, m)
    else .ok (cost, m)

/-- What `prepare_tensor` does when no free extent is large enough. -/
def makeContiguous (size : Nat) (cost : LoadCost) : Except Fault (LoadCost × SegmentMemory) :=
  let evict (fault : Fault) :=
    match evictUntil models args candidate (fun m => size ≤ m.largestFree) m.extents.length cost m with
    | none => Except.error fault
    | some x => .ok x
  let compacted := let (c, m) := m.compact args; Except.ok (cost.add c, m)
  match args.compactionPolicy with
  | .never => evict .fragmented
  | .costAware =>
    match m.evictionAlternativeMs models args candidate size with
    | none => compacted
    | some evictionMs =>
      if compactionMs args (movedBytes 0 (allocated m.extents)) ≤ evictionMs then compacted else evict .costAwareFailed
  | .onAllocationFailure => compacted

/-- What `prepare_tensor` does to have room for an object. -/
def makeRoom (key : Key) (size : Nat) : Except Fault (LoadCost × SegmentMemory) :=
  match evictUntil models args candidate (fun m => size ≤ m.freeBytes) m.extents.length {} m with
  | none => .error (.cannotFitTensor key)
  | some (cost, m) => if m.largestFree < size then m.makeContiguous models args candidate size cost else .ok (cost, m)

/-- The object is put into the first free extent with room, and loaded. -/
def place (key : Key) (size : Nat) (cost : LoadCost) : Except Fault (LoadCost × SegmentMemory) :=
  match firstFit m.weightCapacityBytes m.nextId key size m.extents with
  | none => .error .noContiguousSegment
  | some (placed, extents) =>
    .ok ({ cost with
        h2dBytes := size
        h2dMs := size / args.h2dBytesPerMs
        allocationMs := args.segmentAllocationMs },
      { m with
        extents := extents
        nextId := m.nextId + 2
        allocatedExtents := m.allocatedExtents.set key placed
        accesses := m.accesses.touch key })

def prepareTensor (model : Nat) (tensor : TensorSpec) : Except Fault (LoadCost × SegmentMemory) :=
  match (models.byId.get? model).bind fun t => t.group? tensor with
  | none => .error .keyError
  | some group =>
    let key := Key.weight model group.groupId
    match m.allocatedExtent key with
    | (some _, m) => .ok ({}, { m with accesses := m.accesses.touch key })
    | (none, m) => (m.makeRoom models args candidate key group.logicalBytes).bind fun x =>
        x.2.place args key group.logicalBytes x.1

def beginRequest (kvBytes : Nat) : Except Fault (LoadCost × SegmentMemory) :=
  { m with weightCapacityBytes := m.capacityBytes - kvBytes }.trimToCapacity models args candidate

def physicalModelBytes (model : Nat) : Option Nat := (models.byId.get? model).map TensorModel.logicalBytes

end SegmentMemory

/-- `_victims` looks at the keys of all models but the active one. -/
def notOf (activeModel : Nat) (key : Key) : Bool := key.model ≠ some activeModel

/-- `SegmentMemory` as a backend; it plans nothing for a request. -/
def segmentMemory (models : Models) (args : Args) : MemoryBackend SegmentMemory where
  expect m o := { m with accesses := m.accesses.expect o }
  beginRequest m kvBytes active := m.beginRequest models args (notOf active) kvBytes
  planRequest m _ _ := .ok ({}, m)
  prepareTensor m model tensor := m.prepareTensor models args (notOf model) model tensor
  finishRequest m model := do
    let accesses ← m.accesses.finishRequest model
    .ok { m with accesses := accesses }

end ServerlessLLM.Simulator
