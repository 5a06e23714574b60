import Mathlib.Data.Rat.Floor
import ServerlessLLM.Layerweave.Dispatch
import ServerlessLLM.Vmm.Manager

/-!
# The trace benchmark

`run` of `vllm_odkv_trace_bench.py` calls `plan_dispatch`: the KV pages are counted from the statistics of the engines, and the
pool says which pages are resident. `apply_joint_pool_input_limits` caps the inputs, so that the weights of a model and the KV
blocks of a request fit the pool together.
-/

namespace ServerlessLLM.Layerweave

/-- What `odkv_stats` says of an engine. -/
structure OdkvStats where
  blockSizeBytes : Nat
  currentBlocks : Nat
deriving DecidableEq

def currentKvPages (pageSize : Nat) (stats : List OdkvStats) : Nat :=
  (stats.map fun s => s.currentBlocks * (s.blockSizeBytes + pageSize - 1) / pageSize).sum

/-- The arguments of `plan_dispatch`; `modelPath` is that of a controller. -/
def dispatchArguments (M : Vmm.VmmVRAMManager) (device : ℤ) (modelPath : Nat → String) (pageSize : Nat) (stats : List OdkvStats)
    (activeModelId : Nat) (batch pending : List Request) : Arguments :=
  { activeModelId := activeModelId
    batch := batch
    pending := pending
    currentKvPages := currentKvPages pageSize stats
    residencies := none
    layerweaveResidency := fun modelId => (M.getLayerWeaveResidency (modelPath modelId) device).getD [] }

/-! ## Input limits -/

/-- What the trace benchmark reads of an engine: `page_size` and `required_pages` of its controller, `block_size_bytes` of
`odkv_stats`, and `block_size` of its cache configuration. -/
structure Engine where
  pageSize : Nat
  requiredPages : Finset ℕ
  blockSizeBytes : Nat
  blockSizeTokens : Nat

/-- What is read of a `TraceRequest`. -/
structure TraceRequest extends Request where
  requestId : Nat
deriving DecidableEq

structure InputLimit where
  poolPages : ℤ
  weightPages : Nat
  pagesPerKvBlock : Nat
  maxKvBlocks : ℤ
  maxTotalTokens : ℤ
  maxInputTokens : Option ℤ
deriving DecidableEq

/-- The exceptions of `apply_joint_pool_input_limits`. -/
inductive LimitError where
  /-- A division by a page size of 0, or by the pages of a block of 0 bytes. -/
  | zeroDivisionError
  | keyError (modelId : Nat)
  /-- `Model {model_id} leaves no usable ODKV capacity in the unified VMM pool`. -/
  | noCapacity (modelId : Nat)
  /-- `Request {request_id} needs {..} tokens but model {model_id} unified-pool capacity is {..}`. -/
  | tooLarge (requestId tokens modelId : Nat) (maxTotalTokens : ℤ)
deriving DecidableEq

def poolPages (vmmPoolGib : ℚ) (pageSize : Nat) : ℤ := ⌊vmmPoolGib * 1024 ^ 3 / pageSize⌋

def Engine.pagesPerBlock (e : Engine) : Nat := (e.blockSizeBytes + e.pageSize - 1) / e.pageSize

/-- The body of the first loop, when the pages of the pool are known. -/
def Engine.limit (e : Engine) (pool : ℤ) (modelId : Nat) : Except LimitError InputLimit :=
  if e.pageSize = 0 then .error .zeroDivisionError
  else
    let availableKvPages := pool - e.requiredPages.card
    if e.pagesPerBlock = 0 then .error .zeroDivisionError
    else
      let maxKvBlocks := availableKvPages / e.pagesPerBlock
      let maxTotalTokens := maxKvBlocks * e.blockSizeTokens
      if maxTotalTokens ≤ 1 then .error (.noCapacity modelId)
      else .ok ⟨pool, e.requiredPages.card, e.pagesPerBlock, maxKvBlocks, maxTotalTokens, none⟩

/-- The first loop; the page size of the first engine is that of the pool. -/
def engineLimits (vmmPoolGib : ℚ) : List (Nat × Engine) → Option ℤ → Dict Nat InputLimit →
    Except LimitError (Dict Nat InputLimit)
  | [], _, limits => .ok limits
  | (modelId, e) :: engines, pool, limits =>
    if pool = none ∧ e.pageSize = 0 then .error .zeroDivisionError
    else do
      let pool := pool.getD (poolPages vmmPoolGib e.pageSize)
      let limit ← e.limit pool modelId
      engineLimits vmmPoolGib engines (some pool) (limits.set modelId limit)

/-- `max_input_tokens` of a request. -/
def maxInputTokens (limit : InputLimit) (r : TraceRequest) : ℤ := max 1 (limit.maxTotalTokens - r.outputTokens)

/-- The body of the second loop. -/
def limitRequest (truncate : Bool) (limit : InputLimit) (r : TraceRequest) : Except LimitError TraceRequest :=
  if (r.inputTokens : ℤ) > maxInputTokens limit r then
    if !truncate then .error (.tooLarge r.requestId (r.inputTokens + r.outputTokens) r.modelId limit.maxTotalTokens)
    else .ok { r with inputTokens := (maxInputTokens limit r).toNat }
  else .ok r

/-- The second loop. -/
def limitRequests (truncate : Bool) :
    List TraceRequest → Dict Nat InputLimit → Except LimitError (Dict Nat InputLimit × List TraceRequest)
  | [], limits => .ok (limits, [])
  | r :: requests, limits =>
    match limits.get? r.modelId with
    | none => .error (.keyError r.modelId)
    | some limit => do
      let r' ← limitRequest truncate limit r
      let rest ← limitRequests truncate requests
        (limits.set r.modelId { limit with maxInputTokens := some (maxInputTokens limit r) })
      .ok (rest.1, r' :: rest.2)

/-- The limits, and the requests as they are afterwards. Only in the load mode `layerweave` is there
a pool that weights and KV blocks share. -/
def applyJointPoolInputLimits (loadMode : String) (truncateInputToModelLimit : Bool) (vmmPoolGib : ℚ)
    (requests : List TraceRequest)
    (engines : Dict Nat Engine) : Except LimitError (Dict Nat InputLimit × List TraceRequest) :=
  if loadMode ≠ "layerweave" then .ok (.empty, requests)
  else do
    let limits ← engineLimits vmmPoolGib engines.entries none .empty
    limitRequests truncateInputToModelLimit requests limits

end ServerlessLLM.Layerweave
