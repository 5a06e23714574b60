import ServerlessLLM.Vmm.Driver
import ServerlessLLM.Vram.Pool

/-!
# Registered models

`RegisteredModel` of `registered_model.h`: the tensor groups of an index, how they are split and merged, and how they are read
from the `tensor.data_*` files. Each thread of `LoadModelFromDisk` reads groups of its own, and an error of one of them is one
of all, so that the groups are read in a row here.
-/

namespace ServerlessLLM.Vmm

open TensorGroupIndex

/-- A file `tensor.data_*`. -/
structure Partition where
  size : Nat
  bytes : Nat → UInt8

/-- `RegisteredModel`. The host copy of a group is a function of the position. -/
structure RegisteredModel where
  modelPath : String
  modelSize : Nat
  partitions : List Partition
  tensorGroupIndexes : List TensorGroupIndex
  tensorGroupHostPtr : List (Option (Nat → UInt8))
  loadSensitive : ℚ

namespace RegisteredModel

/-- All groups in one, for the reuse granularity 0. -/
def mergeAll (path : String) : List TensorGroupIndex → List TensorGroupIndex
  | [] => []
  | g :: groups =>
    [⟨g.fileOffset, ((g :: groups).map size).sum,
      (g :: groups).foldl (fun fingerprint g => fingerprint ++ "-" ++ g.fingerprint) ("merged-" ++ path),
      (g :: groups).flatMap tensorIndexes⟩]

/-- The constructor, for an index that has been parsed. -/
def ofIndex (path : String) (loadSensitive : ℚ) (reuseGranularity : ℤ) (groups : List TensorGroupIndex)
    (partitions : List Partition) :
    RegisteredModel :=
  let groups := if reuseGranularity = 0 then mergeAll path groups else groups
  ⟨path, (partitions.map Partition.size).sum, partitions, groups, List.replicate groups.length none, loadSensitive⟩

variable (m : RegisteredModel)

/-- The groups change, and have no host copies yet. -/
def withGroups (groups : List TensorGroupIndex) : RegisteredModel :=
  { m with tensorGroupIndexes := groups, tensorGroupHostPtr := List.replicate groups.length none }

def tensorUnit (group : TensorGroupIndex) (tensor : TensorIndex) : TensorGroupIndex :=
  ⟨group.fileOffset + tensor.offset, tensor.size,
    group.fingerprint ++ ":tensor:" ++ tensor.name ++ ":" ++ toString tensor.offset ++ ":" ++ toString tensor.size,
    [{ tensor with offset := 0 }]⟩

def splitTensorGroupsToTensors : RegisteredModel :=
  m.withGroups (m.tensorGroupIndexes.flatMap fun group => group.tensorIndexes.map (tensorUnit group))

/-- A group takes the next one in: the tensors of that one follow at the size so far. -/
def mergeNext (current next : TensorGroupIndex) : TensorGroupIndex :=
  { current with
    size := current.size + next.size
    fingerprint := current.fingerprint ++ "+" ++ next.fingerprint
    tensorIndexes := current.tensorIndexes ++ next.tensorIndexes.map fun tensor =>
      { tensor with offset := tensor.offset + current.size } }

/-- The loop of `MergeTGs` that takes groups in: the merged group, and the groups behind it. -/
def absorb (minSize : Nat) : TensorGroupIndex → List TensorGroupIndex → TensorGroupIndex × List TensorGroupIndex
  | current, [] => (current, [])
  | current, next :: groups =>
    if current.size < minSize then absorb minSize (mergeNext current next) groups else (current, next :: groups)

/-- The loop of `MergeTGs` over `i`, from the group with number `i` on: whether it merges, and the groups. Every round leaves
fewer groups to go, so that as many rounds as there are groups are enough. -/
def mergePass (minSize : Nat) : Nat → List TensorGroupIndex → Bool × List TensorGroupIndex
  | 0, groups => (false, groups)
  | _ + 1, [] => (false, [])
  | fuel + 1, current :: groups =>
    if current.size ≥ minSize then
      let r := mergePass minSize fuel groups
      (r.1, current :: r.2)
    else if groups.isEmpty then (false, current :: groups)
    else
      let a := absorb minSize current groups
      (true, (mergePass minSize fuel (a.1 :: a.2)).2)

/-- The outer loop of `MergeTGs`. Every round but the last merges. -/
def mergeLoop (minSize : Nat) : Nat → List TensorGroupIndex → List TensorGroupIndex
  | 0, groups => groups
  | fuel + 1, groups =>
    let r := mergePass minSize groups.length groups
    if r.1 then mergeLoop minSize fuel r.2 else r.2

/-- A small last group goes to the one before it. -/
def mergeLast (minSize : Nat) : List TensorGroupIndex → List TensorGroupIndex
  | [] => []
  | [group] => [group]
  | [group, last] => if last.size < minSize then [mergeNext group last] else [group, last]
  | group :: next :: third :: groups => group :: mergeLast minSize (next :: third :: groups)

def mergeTGs (minSize : Nat) : RegisteredModel :=
  m.withGroups (mergeLast minSize (mergeLoop minSize (m.tensorGroupIndexes.length + 1) m.tensorGroupIndexes))

def mergeTGsRatio (finalCnt : Nat) : RegisteredModel := m.mergeTGs (m.modelSize / finalCnt)

/-! ## Reading -/

/-- `pread` of a regular file: the number of bytes that it reads, unless it fails. Linux reads at most 0x7ffff000 bytes in a
call; no call here asks for more. -/
def pread (succeeds : Bool) (partition : Partition) (size offset : Nat) : Option Nat :=
  if succeeds then some (min size (partition.size - offset)) else none

/-- The partition of a position in the file, with the partitions behind it, and the position in it. -/
def findPartition : List Partition → Nat → Option (Partition × List Partition × Nat)
  | [], _ => none
  | partition :: partitions, inPartitionOffset =>
    if inPartitionOffset ≥ partition.size then findPartition partitions (inPartitionOffset - partition.size)
    else some (partition, partitions, inPartitionOffset)

def readGroup (S : Surroundings) (tensorGroupIdx : Nat) (group : TensorGroupIndex) : Option (Nat → UInt8) :=
  match findPartition m.partitions group.fileOffset with
  | none => none
  | some (partition, behind, inPartitionOffset) =>
    if !S.succeeds .hostMemory tensorGroupIdx then none
    else
      match pread (S.succeeds .pread tensorGroupIdx) partition group.size inPartitionOffset with
      | none => none
      | some ret =>
        if ret = group.size then some fun i => partition.bytes (inPartitionOffset + i)
        else
          match behind with
          | [] => none
          | next :: _ =>
            match pread (S.succeeds .preadNext tensorGroupIdx) next (group.size - ret) 0 with
            | none => none
            | some ret' =>
              if ret' = group.size - ret then
                some fun i => if i < ret then partition.bytes (inPartitionOffset + i) else next.bytes (i - ret)
              else none

/-- The model with its host copies, when it returns 0. -/
def loadModelFromDisk (S : Surroundings) : Option RegisteredModel :=
  if m.partitions = [] ∨ ∃ i ∈ List.range m.partitions.length, S.succeeds .openPartition i = false then none
  else
    (m.tensorGroupIndexes.zipIdx.mapM fun e => m.readGroup S e.2 e.1).map fun hosts =>
      { m with tensorGroupHostPtr := hosts.map some }

/-- A thread of `LoadModelFromDisk`: it takes every `numThreads`-th group from its own number on, and ends with the first that
it cannot read. -/
def loadThread (S : Surroundings) (numThreads threadIdx : Nat) : Option (List (Nat × (Nat → UInt8))) :=
  (m.tensorGroupIndexes.zipIdx.filter fun e => e.2 % numThreads = threadIdx).mapM fun e =>
    (m.readGroup S e.2 e.1).map fun host => (e.2, host)

/-- `LoadModelFromDisk` with its threads, each of which sets the host copies of its own groups. -/
def loadModelFromDiskThreads (S : Surroundings) (numThreads : Nat) : Option RegisteredModel :=
  if m.partitions = [] ∨ ∃ i ∈ List.range m.partitions.length, S.succeeds .openPartition i = false then none
  else
    ((List.range numThreads).mapM (m.loadThread S numThreads)).map fun threads =>
      { m with
          tensorGroupHostPtr := threads.flatten.foldl (fun hosts e => hosts.set e.1 (some e.2)) (List.replicate m.tensorGroupIndexes.length none) }

end RegisteredModel

end ServerlessLLM.Vmm
