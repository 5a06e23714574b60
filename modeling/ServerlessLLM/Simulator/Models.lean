import Mathlib.Data.Rat.Defs
import ServerlessLLM.Library.Dict
import ServerlessLLM.Library.Tiling

/-!
# Models, requests and costs of the tensor simulator

The data of `tensor_sim_memory_common.py`, and the builders of `layerweave_tensor_pipeline_sim.py` that make tensor groups.
Times and rates, floats in the source, are rationals.
-/

namespace ServerlessLLM.Simulator

/-- `TensorSpec`, without its name and its layer. -/
structure TensorSpec where
  tensorId : Nat
  logicalBytes : Nat
  compactOffset : Nat
deriving DecidableEq

structure TensorGroup where
  groupId : Nat
  tensorIds : List Nat
  logicalBytes : Nat
  compactOffset : Nat
deriving DecidableEq

structure TensorModel where
  tensors : List TensorSpec
  logicalBytes : Nat
  groups : List TensorGroup
  tensorToGroup : Dict Nat Nat

def ceilDiv (value divisor : Nat) : Nat := (value + divisor - 1) / divisor

/-- `model.groups[model.tensor_to_group[tensor.tensor_id]]`. -/
def TensorModel.group? (m : TensorModel) (tensor : TensorSpec) : Option TensorGroup :=
  (m.tensorToGroup.get? tensor.tensorId).bind fun g => m.groups[g]?

/-! ## The builders of groups -/

def tensorToGroup (groups : List TensorGroup) : Dict Nat Nat :=
  (groups.flatMap fun g => g.tensorIds.map fun t => (t, g.groupId)).foldl (fun d e => d.set e.1 e.2) .empty

/-- The groups that `models_from_prefix_stall_table` makes of the bytes of the prefixes, from a number on. -/
def prefixGroups : Nat → List Nat → List TensorGroup
  | groupId, left :: right :: prefixBytes =>
    ⟨groupId, [groupId], right - left, left⟩ :: prefixGroups (groupId + 1) (right :: prefixBytes)
  | _, _ => []

/-- `models_from_prefix_stall_table`, for one model. -/
def modelFromPrefixBytes (prefixBytes : List Nat) : TensorModel :=
  let groups := prefixGroups 0 prefixBytes
  ⟨groups.map fun g => ⟨g.groupId, g.logicalBytes, g.compactOffset⟩, prefixBytes.getLast?.getD 0, groups, tensorToGroup groups⟩

/-- What the builders make: the groups are numbered, cut the tensors into pieces, and have no more bytes than the model. -/
structure TensorModel.WellGrouped (m : TensorModel) : Prop where
  groupIds : m.groups.map TensorGroup.groupId = List.range m.groups.length
  tensors : m.tensors.map TensorSpec.tensorId = m.groups.flatMap TensorGroup.tensorIds
  nonempty : ∀ g ∈ m.groups, g.tensorIds ≠ []
  nodup : (m.tensors.map TensorSpec.tensorId).Nodup
  lookup : ∀ g ∈ m.groups, ∀ t ∈ g.tensorIds, m.tensorToGroup.get? t = some g.groupId
  bytes : Tiling.total TensorGroup.logicalBytes m.groups ≤ m.logicalBytes

structure Models where
  byId : Dict Nat TensorModel
  wellGrouped : ∀ id m, byId.get? id = some m → m.WellGrouped

def Models.PositiveGroups (models : Models) : Prop :=
  ∀ id m, models.byId.get? id = some m → ∀ g ∈ m.groups, 0 < g.logicalBytes

/-! ## Options -/

inductive ReplacementPolicy where
  | lru
  | lruPrefix
  | mckpPrefix
  | frequencyLru
  | frequencyLruSuffixFirst
  | pipelineValue
  | protectedPipeline
  | protectedPipelineShadow
deriving DecidableEq

inductive CompactionPolicy where
  | never
  | onAllocationFailure
  | costAware
deriving DecidableEq

/-- The options that a memory backend reads. A rate is not zero, nor is the size of a block. -/
structure Args where
  replacementPolicy : ReplacementPolicy
  compactionPolicy : CompactionPolicy
  h2dBytesPerMs : ℚ
  gpuCopyBytesPerMs : ℚ
  segmentAllocationMs : ℚ
  compactionFixedMs : ℚ
  mapFixedMs : ℚ
  mapPerPageMs : ℚ
  unmapFixedMs : ℚ
  unmapPerPageMs : ℚ
  pipelineProtectedThresholdMs : ℚ
  shadowMaxChurnRatio : ℚ
  kvBlockTokens : Nat
  kvBlockBytes : Nat
  h2d_pos : 0 < h2dBytesPerMs
  gpuCopy_pos : 0 < gpuCopyBytesPerMs
  kvBlockTokens_pos : 0 < kvBlockTokens
  kvBlockBytes_pos : 0 < kvBlockBytes

def Args.ofTests (replacementPolicy : ReplacementPolicy) (compactionPolicy : CompactionPolicy) : Args where
  replacementPolicy := replacementPolicy
  compactionPolicy := compactionPolicy
  h2dBytesPerMs := 1000
  gpuCopyBytesPerMs := 1000
  segmentAllocationMs := 0
  compactionFixedMs := 0
  mapFixedMs := 0
  mapPerPageMs := 0
  unmapFixedMs := 0
  unmapPerPageMs := 0
  pipelineProtectedThresholdMs := 1 / 10
  shadowMaxChurnRatio := 1
  kvBlockTokens := 32
  kvBlockBytes := 4
  h2d_pos := by decide
  gpuCopy_pos := by decide
  kvBlockTokens_pos := by decide
  kvBlockBytes_pos := Nat.succ_pos _

structure Request where
  modelId : Nat
  inputTokens : Nat
  outputTokens : Nat

def kvBytes (request : Request) (args : Args) : Nat :=
  ceilDiv (request.inputTokens + request.outputTokens) args.kvBlockTokens * args.kvBlockBytes

/-! ## Costs -/

/-- `LoadCost`, without the times that are measured while the simulator runs. -/
structure LoadCost where
  h2dBytes : Nat := 0
  h2dMs : ℚ := 0
  allocationMs : ℚ := 0
  mapMs : ℚ := 0
  unmapMs : ℚ := 0
  compactionMs : ℚ := 0
  evictedObjects : Nat := 0
  evictedBytes : Nat := 0
  mapCalls : Nat := 0
  unmapCalls : Nat := 0
  mappedPages : Nat := 0
  unmappedPages : Nat := 0
  compactionMovedBytes : Nat := 0
  mckpRequiredFreeBytes : Nat := 0
  mckpPlannedFreeBytes : Nat := 0
  mckpPredictedDamageMs : ℚ := 0
  mckpFrontierPeakStates : Nat := 0
  mckpEvictedGroups : Nat := 0
  mckpEvictedModels : Nat := 0
  modelReloadEvents : Nat := 0
  naiveRelocationBytes : Nat := 0

def LoadCost.add (a b : LoadCost) : LoadCost where
  h2dBytes := a.h2dBytes + b.h2dBytes
  h2dMs := a.h2dMs + b.h2dMs
  allocationMs := a.allocationMs + b.allocationMs
  mapMs := a.mapMs + b.mapMs
  unmapMs := a.unmapMs + b.unmapMs
  compactionMs := a.compactionMs + b.compactionMs
  evictedObjects := a.evictedObjects + b.evictedObjects
  evictedBytes := a.evictedBytes + b.evictedBytes
  mapCalls := a.mapCalls + b.mapCalls
  unmapCalls := a.unmapCalls + b.unmapCalls
  mappedPages := a.mappedPages + b.mappedPages
  unmappedPages := a.unmappedPages + b.unmappedPages
  compactionMovedBytes := a.compactionMovedBytes + b.compactionMovedBytes
  mckpRequiredFreeBytes := a.mckpRequiredFreeBytes + b.mckpRequiredFreeBytes
  mckpPlannedFreeBytes := a.mckpPlannedFreeBytes + b.mckpPlannedFreeBytes
  mckpPredictedDamageMs := a.mckpPredictedDamageMs + b.mckpPredictedDamageMs
  mckpFrontierPeakStates := a.mckpFrontierPeakStates + b.mckpFrontierPeakStates
  mckpEvictedGroups := a.mckpEvictedGroups + b.mckpEvictedGroups
  mckpEvictedModels := a.mckpEvictedModels + b.mckpEvictedModels
  modelReloadEvents := a.modelReloadEvents + b.modelReloadEvents
  naiveRelocationBytes := a.naiveRelocationBytes + b.naiveRelocationBytes

end ServerlessLLM.Simulator
