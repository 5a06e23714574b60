import Mathlib.Data.List.MinMax
import Mathlib.Algebra.Order.Ring.Rat
import ServerlessLLM.Simulator.Models

/-!
# What the memory backends share

`MemoryBackend`: the clock and the accesses, the value of an object for each replacement policy, and the choice of a victim.
The source goes through a set of keys; here they come in a list, and of two keys of one value the first is taken.
-/

namespace ServerlessLLM.Simulator

/-- The objects that a backend holds: a group or a page of a model, or blocks of KV cache. -/
inductive Key where
  | weight (model index : Nat)
  | kv (id : Nat)
deriving DecidableEq

namespace Key

/-- `_is_weight_key`. -/
def isWeight : Key → Bool
  | weight _ _ => true
  | kv _ => false

/-- `key[0]`: a model, or the text `kv`. -/
def model : Key → Option Nat
  | weight m _ => some m
  | kv _ => none

/-- `key[1]`. -/
def index : Key → Nat
  | weight _ i => i
  | kv i => i

end Key

/-- The errors of the backends. All but the last four are `RuntimeError`s. -/
inductive Fault where
  /-- `No evictable segment for KV capacity` -/
  | noEvictableSegment
  /-- `Segment pool cannot fit tensor` -/
  | cannotFitTensor (key : Key)
  /-- `Fragmented segment allocation` -/
  | fragmented
  /-- `Cost-aware segment allocation failed` -/
  | costAwareFailed
  /-- `No contiguous segment after reclamation` -/
  | noContiguousSegment
  /-- `MCKP prefix invariant failed for model` -/
  | prefixInvariant (model : Nat) (resident : List Nat)
  /-- `LRU suffix invariant failed for model` -/
  | suffixInvariant (model : Nat) (resident : List Nat)
  /-- `mckp-prefix requires a prefix stall table` -/
  | noTable
  /-- `Prefix-MCKP cannot reclaim enough space` -/
  | mckpInfeasible (required : Nat)
  /-- `Prefix-MCKP preview/commit byte mismatch` -/
  | byteMismatch (planned actual : Nat)
  /-- `Prefix-MCKP preview/commit prefix mismatch` -/
  | prefixMismatch (planned actual : List (Nat × Nat))
  /-- `Prefix-LRU cannot reclaim enough space` -/
  | lruInfeasible (required released : Nat)
  /-- `Prefix-LRU failed to free` -/
  | lruFailedToFree (key : Key)
  /-- `not a prefix replacement policy` -/
  | notPrefixPolicy
  /-- `Prefix policy cannot free KV-aligned Segment bytes` -/
  | noAlignedBytes
  /-- `Unified Segment pool cannot fit KV blocks` -/
  | cannotFitKvBlocks
  /-- `Unified Segment pool has bytes but not enough KV blocks` -/
  | notEnoughKvBlocks
  /-- `Segment PBP cannot reclaim enough space` -/
  | pbpCannotReclaim
  /-- `missing resident tensor-page` -/
  | missingResidentPage (model group : Nat)
  /-- `non-canonical compact prefix for model` -/
  | nonCanonicalPrefix (model : Nat)
  /-- `Tensor-page pool cannot fit`, `Compact-page pool cannot fit tensor` -/
  | pagesCannotFit
  /-- `No evictable tensor-page allocation`, `No evictable compact page` -/
  | noEvictablePage
  | keyError
  | indexError
  | valueError
  | stopIteration
deriving DecidableEq

/-- The fields of `MemoryBackend` that change from request to request. -/
structure Accesses where
  clock : Nat
  modelAccesses : Dict Nat Nat
  lastAccess : Dict Key Nat
  pipelineBenefits : Dict Key ℚ
  futureModelProbabilities : Dict Nat ℚ
  mckpPredictionSamples : Dict Nat (List (Nat × ℚ))

/-- What the simulator tells a backend before a request: `set_pipeline_benefits`, `set_future_model_probabilities` and
`set_mckp_prediction_samples`. -/
structure Outlook where
  pipelineBenefits : Dict Key ℚ
  futureModelProbabilities : Dict Nat ℚ
  mckpPredictionSamples : Dict Nat (List (Nat × ℚ))

namespace Accesses

/-- The accesses of a new backend. -/
def init (models : Models) : Accesses where
  clock := 0
  modelAccesses := models.byId.mapValues fun _ _ => 0
  lastAccess := .empty
  pipelineBenefits := .empty
  futureModelProbabilities := .empty
  mckpPredictionSamples := .empty

variable (models : Models) (args : Args) (a : Accesses)

/-- The setters. -/
def expect (o : Outlook) : Accesses :=
  { a with
    pipelineBenefits := o.pipelineBenefits
    futureModelProbabilities := o.futureModelProbabilities
    mckpPredictionSamples := o.mckpPredictionSamples }

def touch (key : Key) : Accesses := { a with clock := a.clock + 1, lastAccess := a.lastAccess.set key (a.clock + 1) }

def finishRequest (model : Nat) : Except Fault Accesses :=
  match a.modelAccesses.get? model with
  | none => .error .keyError
  | some n => .ok { a with modelAccesses := a.modelAccesses.set model (n + 1) }

/-- `last_access.get(key, -1)`. -/
def lastAccessOf (key : Key) : ℚ :=
  match a.lastAccess.get? key with
  | none => -1
  | some t => t

/-- `model_accesses.get(key[0], 0)`. -/
def accessesOf (key : Key) : ℚ := ((key.model.bind a.modelAccesses.get?).getD 0 : Nat)

def frequencyValue (key : Key) : List ℚ :=
  if args.replacementPolicy = .frequencyLruSuffixFirst then [a.accessesOf key, -(key.index : ℚ), a.lastAccessOf key]
  else [a.accessesOf key, a.lastAccessOf key]

/-- `future_model_probabilities.get(key[0], 1.0 / len(models))`. -/
def probabilityOf (key : Key) : ℚ :=
  (key.model.bind a.futureModelProbabilities.get?).getD (1 / models.byId.entries.length)

/-- `pipeline_benefits.get(key, 0.0)`. -/
def benefitOf (key : Key) : ℚ := (a.pipelineBenefits.get? key).getD 0

def pipelineLoss (key : Key) : ℚ := a.probabilityOf models key * a.benefitOf key

/-- `_value`; `rank` is `_placement_rank`. -/
def value (rank : Key → ℚ) (key : Key) : List ℚ :=
  match args.replacementPolicy with
  | .lru => [a.lastAccessOf key]
  | .pipelineValue => [a.pipelineLoss models key, a.lastAccessOf key]
  | .protectedPipeline | .protectedPipelineShadow =>
    [if args.pipelineProtectedThresholdMs < a.benefitOf key then 1 else 0,
      a.probabilityOf models key, a.benefitOf key, rank key, a.lastAccessOf key]
  | .lruPrefix | .mckpPrefix | .frequencyLru | .frequencyLruSuffixFirst => a.frequencyValue args key

/-- `_select_victim`; `objectBytes` is `_object_bytes`. -/
def selectVictim (rank : Key → ℚ) (objectBytes : Key → ℚ) (keys : List Key) : Option Key :=
  match keys.argmin (a.value models args rank), keys.argmin (a.frequencyValue args) with
  | some pipeline, some frequency =>
    if args.replacementPolicy ≠ .protectedPipelineShadow then some pipeline
    else if pipeline = frequency then some pipeline
    else
      let pipelineSoft := a.benefitOf pipeline ≤ args.pipelineProtectedThresholdMs
      let frequencyProtected := args.pipelineProtectedThresholdMs < a.benefitOf frequency
      let pipelineChurn := a.probabilityOf models pipeline * objectBytes pipeline
      let frequencyChurn := a.probabilityOf models frequency * objectBytes frequency
      let churnSafe := pipelineChurn ≤ frequencyChurn * args.shadowMaxChurnRatio
      if pipelineSoft ∧ frequencyProtected ∧ churnSafe then some pipeline else some frequency
  | _, _ => none

end Accesses

/-! ## Requests -/

/-- The methods of `MemoryBackend` that a request calls. -/
structure MemoryBackend (σ : Type) where
  expect : σ → Outlook → σ
  beginRequest : σ → Nat → Nat → Except Fault (LoadCost × σ)
  planRequest : σ → Nat → List TensorSpec → Except Fault (LoadCost × σ)
  prepareTensor : σ → Nat → TensorSpec → Except Fault (LoadCost × σ)
  finishRequest : σ → Nat → Except Fault σ

/-- A call of a method. -/
inductive Action where
  | expect (o : Outlook)
  | beginRequest (kvBytes activeModel : Nat)
  | planRequest (model : Nat) (tensors : List TensorSpec)
  | prepareTensor (model : Nat) (tensor : TensorSpec)
  | finishRequest (model : Nat)

def Action.model : Action → Option Nat
  | expect _ => none
  | beginRequest _ m | planRequest m _ | prepareTensor m _ | finishRequest m => some m

/-- The actions of `execute_request` for one request, after the simulator has told what it expects. -/
def requestActions (models : Models) (args : Args) (x : Outlook × Request) : List Action :=
  let tensors := ((models.byId.get? x.2.modelId).map TensorModel.tensors).getD []
  [.expect x.1, .beginRequest (kvBytes x.2 args) x.2.modelId, .planRequest x.2.modelId tensors] ++
    tensors.map (.prepareTensor x.2.modelId) ++ [.finishRequest x.2.modelId]

/-- `validate_request_feasibility`, for one request. -/
def Feasible (args : Args) (poolBytes : Nat) (physicalModelBytes : Nat → Option Nat) (request : Request) : Prop :=
  ∃ footprint, physicalModelBytes request.modelId = some footprint ∧ footprint + kvBytes request args ≤ poolBytes

namespace MemoryBackend

variable {σ : Type} (b : MemoryBackend σ)

def step (s : σ) : Action → Except Fault (LoadCost × σ)
  | .expect o => .ok ({}, b.expect s o)
  | .beginRequest kvBytes activeModel => b.beginRequest s kvBytes activeModel
  | .planRequest model tensors => b.planRequest s model tensors
  | .prepareTensor model tensor => b.prepareTensor s model tensor
  | .finishRequest model => do
    let s ← b.finishRequest s model
    .ok ({}, s)

/-- Actions one after another. -/
def run (s : σ) : List Action → Except Fault (LoadCost × σ)
  | [] => .ok ({}, s)
  | a :: as => do
    let (cost, s) ← b.step s a
    let (total, s) ← run s as
    .ok (cost.add total, s)

end MemoryBackend

end ServerlessLLM.Simulator
