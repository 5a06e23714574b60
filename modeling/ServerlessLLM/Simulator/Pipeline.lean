import ServerlessLLM.Simulator.Backend

/-!
# Requests whose loads and computes overlap

`compute_durations`, `execute_request` and `_pipeline_group_stalls` of `layerweave_tensor_pipeline_sim.py`, over any memory
backend. Of what `execute_request` returns, the metrics of the memory are left out.
-/

namespace ServerlessLLM.Simulator

def LoadCost.readyMs (c : LoadCost) : ℚ := c.h2dMs + c.allocationMs + c.mapMs + c.unmapMs + c.compactionMs

/-! ## Compute times -/

/-- What an estimator has of the compute of a model: the layers of its tensors, the coefficients of the layers, and those of
tensors that were measured one by one. -/
structure ComputeProfile where
  layerId : Nat → Option Nat
  coefficients : Nat → Option (List ℚ)
  tensorCompute : Nat → Option (ℚ × ℚ)

namespace ComputeProfile

variable (profile : ComputeProfile) (inputTokens : Nat)

/-- `batch_features`, of a batch of one request. -/
def features : List ℚ :=
  let tokens : ℚ := max 1 inputTokens
  [1, 0, tokens / 1000, tokens / 1000, inputTokens ^ 2 / 1000000]

def layerMs (layer : Nat) : ℚ :=
  match profile.coefficients layer with
  | some c => max 0 ((c.zip (features inputTokens)).map fun e => e.1 * e.2).sum
  | none => 0

def shareMs (tensors : List TensorSpec) (tensor : TensorSpec) : Option Nat → ℚ
  | none => 0
  | some layer =>
    let totalBytes := (tensors.map TensorSpec.logicalBytes).sum
    if totalBytes = 0 then 0 else profile.layerMs inputTokens layer * tensor.logicalBytes / totalBytes

def layerTensors (tensors : List TensorSpec) (layer : Option Nat) : List TensorSpec :=
  tensors.filter fun tensor => profile.layerId tensor.tensorId = layer

/-- The times of the tensors from the times of their layers. -/
def layerDurations (tensors : List TensorSpec) : Dict Nat ℚ :=
  ((tensors.map fun tensor => profile.layerId tensor.tensorId).eraseDups.flatMap fun layer =>
    let tensors := profile.layerTensors tensors layer
    tensors.map fun tensor => (tensor.tensorId, profile.shareMs inputTokens tensors tensor layer)).foldl
      (fun d e => d.set e.1 e.2) .empty

def computeDurations (tensors : List TensorSpec) : Dict Nat ℚ :=
  (tensors.filterMap fun tensor => (profile.tensorCompute tensor.tensorId).map fun c =>
    (tensor.tensorId, max (0 : ℚ) (c.1 + c.2 * inputTokens))).foldl (fun d e => d.set e.1 e.2)
      (profile.layerDurations inputTokens tensors)

end ComputeProfile

/-! ## Requests -/

/-- An entry of the timeline of a request. -/
structure StageTimes where
  loadStartMs : ℚ := 0
  loadEndMs : ℚ := 0
  loadMs : ℚ
  computeStartMs : ℚ := 0
  computeMs : ℚ
  readyStallMs : ℚ := 0

/-- The times that `execute_request` carries from tensor to tensor. -/
structure PipelineClock where
  copyEnd : ℚ
  computeEnd : ℚ
  previousComputeStart : ℚ

/-- The times of a tensor, when loads overlap computes. -/
def PipelineClock.stage (c : PipelineClock) (index : Nat) (loadMs computeMs : ℚ) : StageTimes × PipelineClock :=
  let loadStart := if index = 0 then c.copyEnd else max c.copyEnd c.previousComputeStart
  let loadEnd := loadStart + loadMs
  let computeStart := max c.computeEnd loadEnd
  (⟨loadStart, loadEnd, loadMs, computeStart, computeMs, max 0 (loadEnd - c.computeEnd)⟩,
    ⟨loadEnd, computeStart + computeMs, computeStart⟩)

/-- What `execute_request` returns. -/
structure RequestRow where
  request : Request
  criticalPathMs : ℚ
  hotComputeMs : ℚ
  exposedLoadMs : ℚ
  total : LoadCost
  timeline : List StageTimes

/-- The value of a key, or a `KeyError`. -/
def fetch {κ ν : Type} [DecidableEq κ] (d : Dict κ ν) (k : κ) : Except Fault ν :=
  match d.get? k with
  | some v => .ok v
  | none => .error .keyError

namespace MemoryBackend

variable {σ : Type} (b : MemoryBackend σ) (durations : Dict Nat ℚ) (pipelined : Bool) (model : Nat)

/-- The loop of `execute_request`, from a tensor on. -/
def executeTensors (s : σ) (total : LoadCost) (clock : PipelineClock) (index : Nat) :
    List TensorSpec → Except Fault (List StageTimes × LoadCost × PipelineClock × σ)
  | [] => .ok ([], total, clock, s)
  | tensor :: tensors => do
    let (load, s) ← b.prepareTensor s model tensor
    let computeMs ← fetch durations tensor.tensorId
    let (stage, clock) :=
      if pipelined then clock.stage index load.readyMs computeMs else (⟨0, 0, load.readyMs, 0, computeMs, 0⟩, clock)
    let (timeline, rest) ← executeTensors s (total.add load) clock (index + 1) tensors
    .ok (stage :: timeline, rest)

/-- `execute_request` with its timeline; `durations` is what `compute_durations` returns. -/
def executeRequest (s : σ) (request : Request) (m : TensorModel) (args : Args) : Except Fault (RequestRow × σ) := do
  let (total, s) ← b.beginRequest s (kvBytes request args) request.modelId
  let (plan, s) ← b.planRequest s request.modelId m.tensors
  let total := total.add plan
  let clock : PipelineClock := ⟨total.readyMs, if pipelined then total.readyMs else 0, 0⟩
  let (timeline, total, clock, s) ← b.executeTensors durations pipelined request.modelId s total clock 0 m.tensors
  let hotCompute := (durations.entries.map Prod.snd).sum
  let computeEnd := if pipelined then clock.computeEnd else total.readyMs + hotCompute
  let s ← b.finishRequest s request.modelId
  .ok (⟨request, computeEnd, hotCompute, max 0 (computeEnd - hotCompute), total, timeline⟩, s)

end MemoryBackend

/-! ## The stalls of groups -/

/-- What `_pipeline_group_stalls` carries from tensor to tensor. -/
structure GroupPass where
  clock : PipelineClock
  loaded : List Nat
  stalls : Dict Nat ℚ

/-- The load of a group: it is loaded with its first tensor. -/
def loadOnce (groupLoadMs : Dict Nat ℚ) (loaded : List Nat) (groupId : Nat) : Except Fault ℚ :=
  if groupId ∈ loaded then .ok 0 else fetch groupLoadMs groupId

/-- The loop of `_pipeline_group_stalls`, from a tensor on. -/
def groupStallsFrom (m : TensorModel) (durations groupLoadMs : Dict Nat ℚ) (p : GroupPass) (index : Nat) :
    List TensorSpec → Except Fault (Dict Nat ℚ)
  | [] => .ok p.stalls
  | tensor :: tensors => do
    let groupId ← fetch m.tensorToGroup tensor.tensorId
    let loadMs ← loadOnce groupLoadMs p.loaded groupId
    let computeMs ← fetch durations tensor.tensorId
    let (stage, clock) := p.clock.stage index loadMs computeMs
    let stalls := if loadMs = 0 then p.stalls else p.stalls.set groupId stage.readyStallMs
    groupStallsFrom m durations groupLoadMs ⟨clock, p.loaded.insert groupId, stalls⟩ (index + 1) tensors

def pipelineGroupStalls (m : TensorModel) (durations groupLoadMs : Dict Nat ℚ) : Except Fault (Dict Nat ℚ) :=
  groupStallsFrom m durations groupLoadMs
    ⟨⟨0, 0, 0⟩, [], (m.groups.map fun group => (group.groupId, 0)).foldl (fun d e => d.set e.1 e.2) .empty⟩ 0 m.tensors

end ServerlessLLM.Simulator
