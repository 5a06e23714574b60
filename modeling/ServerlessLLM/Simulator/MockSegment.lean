import ServerlessLLM.Simulator.Mckp
import ServerlessLLM.Simulator.Segment

/-!
# The unified segment pool

`MockAllocationSegmentMemory`: weights and KV blocks share one pool. A request is planned as a whole. Its missing groups are
spread over partitions of the free extents; each partition is merged, and its groups are put side by side. KV blocks then take
what is left, in whole blocks.

`execute_profile_request`: the residency of the model is read before the request, the memory actions are run, and the stall is
looked up in the table for that residency. The attribution of the stall to transfers and allocations, and the metrics of the
memory, are left out.
-/

namespace ServerlessLLM.Simulator

def liftTable {α : Type} : Except TableError α → Except Fault α
  | .ok a => .ok a
  | .error .keyError => .error .keyError
  | .error .indexError => .error .indexError
  | .error _ => .error .valueError

/-- The fields of `MockAllocationSegmentMemory`. -/
structure MockSegmentMemory where
  pool : SegmentMemory
  plannedLoads : Dict Key LoadCost
  kvKeys : List Key
  nextKvExtentId : Nat
  pendingKvBytes : Nat

/-- The objects that are requested, and their sizes. -/
abbrev Sizes := List (Key × Nat)

namespace MockSegmentMemory

open Extent Prod Tiling

/-- A new pool. -/
def init (models : Models) (capacityBytes : Nat) : MockSegmentMemory := ⟨.init models capacityBytes, .empty, [], 0, 0⟩

/-! ## Partitions -/

/-- `_split_requests`, with the room that is left on both sides. -/
def splitRequests : Nat → Nat → Sizes → Option (Sizes × Sizes)
  | _, _, [] => some ([], [])
  | leftFree, rightFree, (key, size) :: sizes =>
    if size ≤ leftFree ∧ (rightFree ≤ leftFree ∨ rightFree < size) then
      (splitRequests (leftFree - size) rightFree sizes).map fun s => ((key, size) :: s.1, s.2)
    else if size ≤ rightFree then
      (splitRequests leftFree (rightFree - size) sizes).map fun s => (s.1, (key, size) :: s.2)
    else none

/-- The bytes of the allocated extents between two free ones. -/
def profit (extents : List Extent) (left right : Extent) : Nat :=
  total size ((allocated extents).filter fun e => left.offset + left.size ≤ e.offset ∧ e.offset + e.size ≤ right.offset)

/-- The split of a group after some of its free extents, with its profit. -/
def splitAt (limit : Nat) (extents frees : List Extent) (pending : Sizes) (split : Nat) :
    Option (Nat × (List Extent × Sizes) × (List Extent × Sizes)) :=
  match frees[split]?, frees[split + 1]? with
  | some left, some right =>
    (splitRequests (total (room limit) (frees.take (split + 1))) (total (room limit) (frees.drop (split + 1)))
      pending).map fun s => (profit extents left right, (frees.take (split + 1), s.1), (frees.drop (split + 1), s.2))
  | _, _ => none

/-- The best split of a group; of two with one profit the first. -/
def bestSplit (limit : Nat) (extents frees : List Extent) (pending : Sizes) :
    Option (Nat × (List Extent × Sizes) × (List Extent × Sizes)) :=
  (List.range (frees.length - 1)).foldl (fun best split =>
    match splitAt limit extents frees pending split with
    | none => best
    | some candidate => if ∀ b ∈ best, b.1 < candidate.1 then some candidate else best) none

def splitGroup (limit : Nat) (extents : List Extent) (group : List Extent × Sizes) : Option (List (List Extent × Sizes)) :=
  if group.1.length < 2 ∨ group.2 = [] then none
  else (bestSplit limit extents group.1 group.2).map fun s => [s.2.1, s.2.2]

/-- The rounds of `_partition_requests`, until nothing changes. The bound is the number of free extents: a round that changes
something leaves more groups. -/
def partitionRounds (limit : Nat) (extents : List Extent) : Nat → List (List Extent × Sizes) → List (List Extent × Sizes)
  | 0, groups => groups
  | fuel + 1, groups =>
    if ∃ group ∈ groups, (splitGroup limit extents group).isSome then
      partitionRounds limit extents fuel (groups.flatMap fun group => (splitGroup limit extents group).getD [group])
    else groups

def partitionRequests (limit : Nat) (extents : List Extent) (requests : Sizes) : List (List Extent × Sizes) :=
  let frees := freeBelow limit extents
  if requests = [] then [] else partitionRounds limit extents frees.length [(frees, requests)]

variable (models : Models) (args : Args) (table : Option PrefixStallTable) (m : MockSegmentMemory)

/-- The extents of the pool are replaced, from one object to another, and the dictionary is made anew. -/
def mergePartition (pool : SegmentMemory) (firstFree lastFree : Extent) : Except Fault (Extent × Nat × SegmentMemory) :=
  match pool.extents.findIdx? fun e => e.id = firstFree.id, pool.extents.findIdx? fun e => e.id = lastFree.id with
  | some start, some stop =>
    let region := (pool.extents.take (stop + 1)).drop start
    let moving := allocated region
    let partitionEnd := min (lastFree.offset + lastFree.size) pool.weightCapacityBytes
    let freeBytes := total (room partitionEnd) (region.filter fun e => e.key = none)
    let cursor := firstFree.offset + total size moving
    let originalEnd := lastFree.offset + lastFree.size
    let free : Extent := ⟨pool.nextId + moving.length, cursor, freeBytes, none⟩
    let extents := pool.extents.take start ++ (repack firstFree.offset pool.nextId moving ++
      free :: rest (pool.nextId + moving.length + 1) partitionEnd originalEnd) ++ pool.extents.drop (stop + 1)
    .ok (free, movedBytes firstFree.offset moving,
      { pool with
        extents := extents
        nextId := pool.nextId + moving.length + 2
        allocatedExtents := byKey extents })
  | _, _ => .error .stopIteration

def reserve (pool : SegmentMemory) (freeExtent : Option Extent) (key : Key) (size : Nat) :
    Except Fault (Option Extent × SegmentMemory) :=
  match freeExtent with
  | none => .error .stopIteration
  | some e =>
    match pool.extents.findIdx? fun x => x.id = e.id with
    | none => .error .stopIteration
    | some index =>
      .ok ((e.carve pool.nextId key size)[1]?,
        { pool with
          extents := pool.extents.take index ++ (e.carve pool.nextId key size ++ pool.extents.drop (index + 1))
          nextId := pool.nextId + 2
          allocatedExtents := pool.allocatedExtents.set key (e.front pool.nextId key size) })

/-- The objects of a partition, one behind the other. -/
def reserveAll : SegmentMemory → Option Extent → Sizes → Except Fault SegmentMemory
  | pool, _, [] => .ok pool
  | pool, freeExtent, (key, size) :: sizes => do
    let (freeExtent, pool) ← reserve pool freeExtent key size
    reserveAll pool freeExtent sizes

/-- The loop of `plan_request` over the partitions, with the bytes that were moved. -/
def placePartitions : SegmentMemory → List (List Extent × Sizes) → Except Fault (Nat × SegmentMemory)
  | pool, [] => .ok (0, pool)
  | pool, (frees, pending) :: partitions =>
    if pending = [] then placePartitions pool partitions
    else
      match frees.head?, frees.getLast? with
      | some first, some last => do
        let (free, moved, pool) ← mergePartition pool first last
        let pool ← reserveAll pool (some free) pending
        let (total, pool) ← placePartitions pool partitions
        .ok (moved + total, pool)
      | _, _ => .error .indexError

/-! ## Residency -/

def residentGroupIds (model : Nat) : List Nat :=
  ((m.pool.allocatedExtents.keys.filter fun key => key.isWeight ∧ key.model = some model).map Key.index).insertionSort (· ≤ ·)

def residentPrefixCount (model : Nat) : Except Fault Nat :=
  let resident := m.residentGroupIds model
  if resident = List.range resident.length then .ok resident.length else .error (.prefixInvariant model resident)

def residentSuffixStart (model : Nat) : Except Fault Nat :=
  match models.byId.get? model with
  | none => .error .keyError
  | some t =>
    let resident := m.residentGroupIds model
    let start := t.groups.length - resident.length
    if resident = List.range' start (t.groups.length - start) then .ok start else .error (.suffixInvariant model resident)

/-- `resident_prefixes`, for the models of a list. -/
def residentPrefixesOf : List Nat → Except Fault (List (Nat × Nat))
  | [] => .ok []
  | model :: ids => do
    let count ← m.residentPrefixCount model
    let rest ← residentPrefixesOf ids
    .ok ((model, count) :: rest)

def residentPrefixes : Except Fault (Dict Nat Nat) := do
  let entries ← m.residentPrefixesOf models.byId.keys
  .ok (entries.foldl (fun d e => d.set e.1 e.2) .empty)

/-! ## Reclaiming -/

/-- `_free` without coalescing, for one key after another; the bytes released and the models that lost bytes. -/
def freeAll : SegmentMemory → List (Nat × Nat) → Nat × List Nat × SegmentMemory
  | pool, [] => (0, [], pool)
  | pool, (model, g) :: keys =>
    let (amount, pool) := pool.free (.weight model g) false
    let (released, evicted, pool) := freeAll pool keys
    (amount + released, if amount = 0 then evicted else model :: evicted.filter (· ≠ model), pool)

/-- The extents are coalesced after something was released. -/
def coalesceIf (released : Nat) (pool : SegmentMemory) : SegmentMemory :=
  if released = 0 then pool else { pool with extents := coalesce pool.extents }

def mckpReclaim (activeModel required : Nat) : Except Fault (LoadCost × MockSegmentMemory) :=
  if required = 0 then .ok ({}, m)
  else
    match table with
    | none => .error .noTable
    | some table => do
      let before ← m.residentPrefixes models
      let plan ← liftTable (solveCoveringMckp table before activeModel required m.pool.accesses.mckpPredictionSamples table.prefixBytes)
      if plan.feasible = false then .error (.mckpInfeasible required)
      else
        let (released, evicted, pool) := freeAll m.pool plan.victimKeys
        let m := { m with pool := coalesceIf released pool }
        if released ≠ plan.plannedFreeBytes then .error (.byteMismatch plan.plannedFreeBytes released)
        else do
          let after ← m.residentPrefixes models
          if after.entries.Perm plan.choices.entries then
            .ok ({ evictedObjects := plan.victimKeys.length
                   evictedBytes := released
                   mckpRequiredFreeBytes := plan.requiredFreeBytes
                   mckpPlannedFreeBytes := released
                   mckpPredictedDamageMs := plan.predictedFutureDamageMs.getD 0
                   mckpFrontierPeakStates := plan.frontierPeakStates
                   mckpEvictedGroups := plan.victimKeys.length
                   mckpEvictedModels := evicted.length }, m)
          else .error (.prefixMismatch plan.choices.entries after.entries)

def lastAccessOfPrefix (a : Accesses) (model count : Nat) : ℚ :=
  (((List.range count).map fun g => a.lastAccessOf (.weight model g)).max?).getD (-1)

/-- The model whose prefix was not used for longest. -/
def lruVictim (activeModel : Nat) (prefixes : Dict Nat Nat) : Option (Nat × Nat) :=
  (prefixes.entries.filter fun e => e.1 ≠ activeModel ∧ 0 < e.2).argmin
    fun e => [lastAccessOfPrefix m.pool.accesses e.1 e.2, (e.1 : ℚ)]

/-- The loop of `_lru_prefix_reclaim`. The bound is the number of groups: each round releases one. -/
def lruPrefixLoop (activeModel required : Nat) :
    Nat → Dict Nat Nat → Nat → Nat → MockSegmentMemory → Except Fault (Nat × Nat × MockSegmentMemory)
  | fuel, prefixes, released, victims, m =>
    if required ≤ released then .ok (released, victims, m)
    else
      match fuel, m.lruVictim activeModel prefixes with
      | fuel + 1, some (model, count) =>
        let (amount, pool) := m.pool.free (.weight model (count - 1)) false
        if amount = 0 then .error (.lruFailedToFree (.weight model (count - 1)))
        else
          lruPrefixLoop activeModel required fuel (prefixes.set model (count - 1)) (released + amount) (victims + 1)
            { m with pool := pool }
      | _, _ => .error (.lruInfeasible required released)

def lruPrefixReclaim (activeModel required : Nat) : Except Fault (LoadCost × MockSegmentMemory) := do
  let prefixes ← m.residentPrefixes models
  let (released, victims, m) ← lruPrefixLoop activeModel required (prefixes.entries.map snd).sum prefixes 0 0 m
  .ok ({ evictedObjects := victims, evictedBytes := released }, { m with pool := coalesceIf released m.pool })

def prefixReclaim (activeModel required : Nat) : Except Fault (LoadCost × MockSegmentMemory) :=
  match args.replacementPolicy with
  | .mckpPrefix => m.mckpReclaim models table activeModel required
  | .lruPrefix => m.lruPrefixReclaim models activeModel required
  | _ => .error .notPrefixPolicy

/-- `_victims` looks at weights of all models but the active one. -/
def evictable (activeModel : Nat) (key : Key) : Bool := key.isWeight && key.model ≠ some activeModel

/-! ## KV blocks -/

def availableBlockBytes (extents : List Extent) : Nat :=
  total (fun e => e.size / args.kvBlockBytes * args.kvBlockBytes) (extents.filter fun e => e.key = none)

def isPrefixPolicy : Bool := args.replacementPolicy = .mckpPrefix ∨ args.replacementPolicy = .lruPrefix

/-- The loop of `_allocate_kv_blocks` that releases prefixes. The bound is the number of bytes: each round frees one more. -/
def reclaimBlocks (activeModel required : Nat) : Nat → LoadCost → MockSegmentMemory →
    Except Fault (LoadCost × MockSegmentMemory)
  | fuel, cost, m =>
    let before := availableBlockBytes args m.pool.extents
    if required ≤ before then .ok (cost, m)
    else
      match fuel with
      | 0 => .error .noAlignedBytes
      | fuel + 1 => do
        let (c, m) ← m.prefixReclaim models args table activeModel (required - before)
        if availableBlockBytes args m.pool.extents ≤ before then .error .noAlignedBytes
        else reclaimBlocks activeModel required fuel (cost.add c) m

/-- The first loop of `_allocate_kv_blocks`. -/
def makeBlocks (activeModel required : Nat) (cost : LoadCost) : Except Fault (LoadCost × MockSegmentMemory) :=
  if isPrefixPolicy args then m.reclaimBlocks models args table activeModel required required cost
  else
    match SegmentMemory.evictUntil models args (evictable activeModel)
      (fun pool => required ≤ availableBlockBytes args pool.extents) m.pool.extents.length cost m.pool with
    | none => .error .cannotFitKvBlocks
    | some (cost, pool) => .ok (cost, { m with pool := pool })

/-- The second loop of `_allocate_kv_blocks`: what remains to be allocated, the extents, and those with blocks. -/
def takeBlocks : Nat → Nat → Nat → List Extent → Nat × List Extent × List Extent
  | remaining, _, _, [] => (remaining, [], [])
  | remaining, nextKv, nextId, e :: l =>
    let allocatable := min remaining (e.size / args.kvBlockBytes * args.kvBlockBytes)
    if remaining = 0 then (0, e :: l, [])
    else if e.key.isSome ∨ allocatable = 0 then
      let (remaining, l, taken) := takeBlocks remaining nextKv nextId l
      (remaining, e :: l, taken)
    else
      let (remaining, l, taken) := takeBlocks (remaining - allocatable) (nextKv + 1) (nextId + 2) l
      (remaining, e.carve nextId (.kv nextKv) allocatable ++ l, e.front nextId (.kv nextKv) allocatable :: taken)

def allocateKvBlocks (activeModel : Nat) (cost : LoadCost) : Except Fault (LoadCost × MockSegmentMemory) := do
  let required := m.pendingKvBytes
  let (cost, m) ← { m with pendingKvBytes := 0 }.makeBlocks models args table activeModel required cost
  let (remaining, extents, taken) := takeBlocks args required m.nextKvExtentId m.pool.nextId m.pool.extents
  if remaining ≠ 0 then .error .notEnoughKvBlocks
  else
    .ok (cost,
      { m with
        pool := { m.pool with
          extents := extents
          nextId := m.pool.nextId + 2 * taken.length
          allocatedExtents := taken.foldl (fun d e => e.key.elim d fun key => d.set key e) m.pool.allocatedExtents }
        kvKeys := m.kvKeys ++ taken.filterMap Extent.key
        nextKvExtentId := m.nextKvExtentId + taken.length })

/-! ## Requests -/

def beginRequest (kvBytes : Nat) : LoadCost × MockSegmentMemory :=
  let pool := m.kvKeys.foldl (fun pool key => (pool.free key true).2) m.pool
  ({}, { m with pool := { pool with weightCapacityBytes := pool.capacityBytes }, kvKeys := [], pendingKvBytes := kvBytes })

/-- The groups of a request that are not resident, in the order of the tensors. -/
def missingGroups (model : Nat) : List TensorSpec → Sizes → SegmentMemory → Except Fault (Sizes × SegmentMemory)
  | [], ordered, pool => .ok (ordered, pool)
  | tensor :: tensors, ordered, pool =>
    match (models.byId.get? model).bind fun t => t.group? tensor with
    | none => .error .keyError
    | some group =>
      let key := Key.weight model group.groupId
      if key ∈ ordered.map fst then missingGroups model tensors ordered pool
      else
        match pool.allocatedExtent key with
        | (some _, pool) => missingGroups model tensors ordered pool
        | (none, pool) => missingGroups model tensors (ordered ++ [(key, group.logicalBytes)]) pool

/-- The end of `plan_request`: prefixes are released for the KV blocks, and the blocks are allocated. -/
def planKvBlocks (model : Nat) (cost : LoadCost) : Except Fault (LoadCost × MockSegmentMemory) := do
  let (cost, m) ←
    if isPrefixPolicy args then do
      let (c, m) ← m.prefixReclaim models args table model (m.pendingKvBytes - availableBlockBytes args m.pool.extents)
      .ok (cost.add c, m)
    else .ok (cost, m)
  m.allocateKvBlocks models args table model cost

/-- What `plan_request` does to have enough free bytes for the missing groups. -/
def reclaimFor (model required : Nat) (cost : LoadCost) : Except Fault (LoadCost × MockSegmentMemory) :=
  if isPrefixPolicy args then do
    let (c, m) ← m.prefixReclaim models args table model (required + m.pendingKvBytes - m.pool.freeBytes)
    .ok (cost.add c, m)
  else
    match SegmentMemory.evictUntil models args (evictable model) (fun pool => required ≤ pool.freeBytes)
      m.pool.extents.length cost m.pool with
    | none => .error .pbpCannotReclaim
    | some (cost, pool) => .ok (cost, { m with pool := pool })

def planLoads (moved : Nat) (ordered : Sizes) (planned : Dict Key LoadCost) : Dict Key LoadCost :=
  let planned :=
    match moved, ordered with
    | moved + 1, (first, _) :: _ =>
      planned.set first { compactionMovedBytes := moved + 1, compactionMs := SegmentMemory.compactionMs args (moved + 1) }
    | _, _ => planned
  ordered.foldl (fun planned x => planned.set x.1 { (planned.get? x.1).getD {} with
    h2dBytes := x.2
    h2dMs := x.2 / args.h2dBytesPerMs
    allocationMs := args.segmentAllocationMs }) planned

/-- What `plan_request` does before it comes to the KV blocks: the missing groups are placed. -/
def placeWeights (model : Nat) (tensors : List TensorSpec) : Except Fault (LoadCost × MockSegmentMemory) := do
  let (ordered, pool) ← missingGroups models model tensors [] m.pool
  let m := { m with pool := pool }
  if ordered = [] then .ok ({}, m)
  else do
    let naive := total size (pool.extents.filter fun e => ∃ key ∈ e.key, evictable model key)
    let required := (ordered.map snd).sum
    let (cost, m) ← m.reclaimFor models args table model required { modelReloadEvents := 1, naiveRelocationBytes := naive }
    let requests := ordered.insertionSort fun a b => a.2 ≥ b.2
    let (moved, pool) ← placePartitions m.pool (partitionRequests m.pool.weightCapacityBytes m.pool.extents requests)
    .ok (cost,
      { m with
        pool := { pool with compactionCount := pool.compactionCount + if moved = 0 then 0 else 1 }
        plannedLoads := planLoads args moved ordered m.plannedLoads })

def planRequest (model : Nat) (tensors : List TensorSpec) : Except Fault (LoadCost × MockSegmentMemory) := do
  let (cost, m) ← m.placeWeights models args table model tensors
  m.planKvBlocks models args table model cost

def prepareTensor (model : Nat) (tensor : TensorSpec) : Except Fault (LoadCost × MockSegmentMemory) :=
  match (models.byId.get? model).bind fun t => t.group? tensor with
  | none => .error .keyError
  | some group =>
    let key := Key.weight model group.groupId
    match m.plannedLoads.get? key with
    | some planned =>
      .ok (planned,
        { m with
          plannedLoads := m.plannedLoads.erase key
          pool := { m.pool with accesses := m.pool.accesses.touch key } })
    | none => do
      let (cost, pool) ← m.pool.prepareTensor models args (evictable model) model tensor
      .ok (cost, { m with pool := pool })

end MockSegmentMemory

/-- `MockAllocationSegmentMemory` as a backend. -/
def mockSegmentMemory (models : Models) (args : Args) (table : Option PrefixStallTable) : MemoryBackend MockSegmentMemory where
  expect m o := { m with pool := { m.pool with accesses := m.pool.accesses.expect o } }
  beginRequest m kvBytes _ := .ok (m.beginRequest kvBytes)
  planRequest m model tensors := m.planRequest models args table model tensors
  prepareTensor m model tensor := m.prepareTensor models args model tensor
  finishRequest m model := do
    let accesses ← m.pool.accesses.finishRequest model
    .ok { m with pool := { m.pool with accesses := accesses } }

/-- What `execute_profile_request` returns. -/
structure ProfileRow where
  total : LoadCost
  hotComputeMs : ℚ
  exposedLoadMs : ℚ
  residencyStateBefore : Nat
  residencyStateAfter : Nat
  profileExposedLoadMs : Option ℚ

namespace MockSegmentMemory

variable (models : Models) (args : Args) (table : Option PrefixStallTable) (profile : PrefixStallTable) (pipelined : Bool)
  (m : MockSegmentMemory)

/-- The residency state that the profile is looked up for: where the resident suffix starts for `lru`, else the length of the
resident prefix. -/
def residencyState (model : Nat) : Except Fault Nat :=
  if args.replacementPolicy = .lru then m.residentSuffixStart models model else m.residentPrefixCount model

def profileStall (request : Request) (state : Nat) : Except Fault ℚ :=
  liftTable (if args.replacementPolicy = .lru then profile.lookupSuffix request.modelId request.inputTokens state
    else profile.lookup request.modelId request.inputTokens state)

/-- What a request shows of its loading: the stall of the profile beside compactions and mappings, or all of it when nothing
overlaps. -/
def exposedLoad (total : LoadCost) : Option ℚ → ℚ
  | some stall => total.compactionMs + (total.mapMs + total.unmapMs) + stall
  | none => total.h2dMs + total.allocationMs + total.compactionMs + (total.mapMs + total.unmapMs)

/-- `execute_profile_request`, with what the simulator tells the backend first. -/
def executeProfileRequest (x : Outlook × Request) : Except Fault (ProfileRow × MockSegmentMemory) := do
  let before ← m.residencyState models args x.2.modelId
  let (total, m) ← (mockSegmentMemory models args table).run m (requestActions models args x)
  let hotCompute ← liftTable (profile.baselineMs x.2.modelId x.2.inputTokens)
  let stall ← if pipelined then (profileStall args profile x.2 before).map some else .ok none
  let after ← m.residencyState models args x.2.modelId
  .ok (⟨total, hotCompute, exposedLoad total stall, before, after, stall⟩, m)

/-- Requests one after another, on one pool. -/
def profileRun (m : MockSegmentMemory) : List (Outlook × Request) → Except Fault (List ProfileRow × MockSegmentMemory)
  | [] => .ok ([], m)
  | x :: requests => do
    let (row, m) ← m.executeProfileRequest models args table profile pipelined x
    let (rows, m) ← profileRun m requests
    .ok (row :: rows, m)

end MockSegmentMemory

end ServerlessLLM.Simulator
