import ServerlessLLM.Simulator.Backend
import ServerlessLLM.Simulator.Trace

/-!
# Online requests

While the requests are routed, `choose_online_routing_candidate` and `update_online_gpu_availability` of
`layerweave_tensor_pipeline_sim.py` keep the times at which the GPUs become free; afterwards `apply_online_timing` works them
out again. Both report the times after each request. The percentiles of the summary are left out.
-/

namespace ServerlessLLM.Simulator.Online

structure Options where
  gpus : Nat
  decodeMsPerToken : ℚ
  sloScale : ℚ
  warmupRequests : Nat
  mckpTransitionWeight : ℚ

/-- What is read of the row of a request. -/
structure Row where
  criticalPathMs : ℚ
  hotComputeMs : ℚ

/-- `math.isclose`, with `abs_tol=1e-9`. -/
def isClose (a b : ℚ) : Prop := |a - b| ≤ max (1 / 1000000000 * max |a| |b|) (1 / 1000000000)

instance (a b : ℚ) : Decidable (isClose a b) := inferInstanceAs (Decidable (_ ≤ _))

/-- `available_at_ms[gpu]`. -/
def availableAt (available : List ℚ) (gpu : Nat) : Except Fault ℚ :=
  match available[gpu]? with
  | some time => .ok time
  | none => .error .indexError

/-- The first of the GPUs from `next_gpu` on, round the circle, that meets a condition. -/
def nextGpuOf (o : Options) (nextGpu : Nat) (p : Nat → Bool) : Except Fault Nat :=
  match ((List.range o.gpus).map fun offset => (nextGpu + offset) % o.gpus).find? p with
  | some gpu => .ok gpu
  | none => .error .stopIteration

/-! ## Routing -/

/-- A GPU that may be chosen, with the result of its probe. -/
structure Candidate where
  gpu : Nat
  criticalPathMs : ℚ
  mckpPredictedDamageMs : ℚ

/-- A candidate with what `choose_online_routing_candidate` writes into its result. -/
structure Scored extends Candidate where
  predictedQueueMs : ℚ
  onlineRoutingScoreMs : ℚ

def score (o : Options) (available : List ℚ) (arrivalMs : ℚ) (c : Candidate) : Except Fault Scored := do
  let time ← availableAt available c.gpu
  let queueMs := max 0 (time - arrivalMs)
  .ok ⟨c, queueMs, queueMs + c.criticalPathMs + o.mckpTransitionWeight * c.mckpPredictedDamageMs⟩

/-- `choose_online_routing_candidate`; of two candidates for one GPU the later one is taken. -/
def chooseOnlineRoutingCandidate (o : Options) (candidates : List Candidate) (available : List ℚ)
    (arrivalMs : ℚ) (nextGpu : Nat) :
    Except Fault (Scored × Nat) := do
  let scored ← candidates.mapM (score o available arrivalMs)
  match (scored.map Scored.onlineRoutingScoreMs).min? with
  | none => .error .valueError
  | some best =>
    let tied := (scored.filter fun s => isClose s.onlineRoutingScoreMs best).reverse
    let gpu ← nextGpuOf o nextGpu fun gpu => tied.any fun s => s.gpu = gpu
    match tied.find? fun s => s.gpu = gpu with
    | some chosen => .ok (chosen, (gpu + 1) % o.gpus)
    | none => .error .keyError

def updateOnlineGpuAvailability (o : Options) (arrivalsMs available : List ℚ) (request : Trace.Request) (gpu : Nat)
    (criticalPathMs : ℚ) :
    Except Fault (List ℚ) := do
  let arrivalMs ← availableAt arrivalsMs request.requestId
  let time ← availableAt available gpu
  .ok (available.set gpu (max arrivalMs time + criticalPathMs + request.outputTokens * o.decodeMsPerToken))

/-- How the GPU of a request is found: it is replayed, there is no other, or it is chosen among candidates. -/
inductive Decision where
  | fixed (gpu : Nat)
  | among (candidates : List Candidate)

/-- The parser and the availability of the GPUs leave decisions for GPUs that there are. -/
def Decision.Valid (o : Options) : Decision → Prop
  | fixed gpu => gpu < o.gpus
  | among candidates => candidates ≠ [] ∧ ∀ c ∈ candidates, c.gpu < o.gpus

/-- A routed request: its GPU, the queue that was predicted, and the times at which the GPUs are free afterwards. -/
structure Routed where
  gpu : Nat
  predictedQueueMs : Option ℚ
  availableAtMs : List ℚ

def gpuFor (o : Options) (arrivalsMs available : List ℚ) (nextGpu requestIndex : Nat) : Decision →
    Except Fault (Nat × Option ℚ × Nat)
  | .fixed gpu => .ok (gpu, none, nextGpu)
  | .among candidates => do
    let arrivalMs ← availableAt arrivalsMs requestIndex
    let (chosen, nextGpu) ← chooseOnlineRoutingCandidate o candidates available arrivalMs nextGpu
    .ok (chosen.gpu, some chosen.predictedQueueMs, nextGpu)

/-- The loop of `simulate` over the requests, with how each is routed and the row of its execution. -/
def routeFrom (o : Options) (arrivalsMs available : List ℚ) (nextGpu requestIndex : Nat) :
    List (Row × Trace.Request × Decision) → Except Fault (List Routed)
  | [] => .ok []
  | (row, request, decision) :: rest => do
    let (gpu, predicted, nextGpu) ← gpuFor o arrivalsMs available nextGpu requestIndex decision
    let available ← updateOnlineGpuAvailability o arrivalsMs available request gpu row.criticalPathMs
    let routed ← routeFrom o arrivalsMs available nextGpu (requestIndex + 1) rest
    .ok (⟨gpu, predicted, available⟩ :: routed)

/-! ## Settlement -/

/-- What `apply_online_timing` adds to a row, and the times at which the GPUs are free afterwards. -/
structure Settled where
  gpu : Nat
  arrivalMs : ℚ
  dispatchMs : ℚ
  firstTokenMs : ℚ
  finishMs : ℚ
  queueMs : ℚ
  serviceTtftMs : ℚ
  ttftMs : ℚ
  decodeMs : ℚ
  sloMs : ℚ
  sloAttained : Bool
  measured : Bool
  availableAtMs : List ℚ

/-- The timing of a request on its GPU, which is free from `time` on. -/
def settle (o : Options) (available : List ℚ) (index gpu : Nat) (row : Row) (request : Trace.Request)
    (arrivalS time : ℚ) : Settled :=
  let arrivalMs := arrivalS * 1000
  let dispatchMs := max arrivalMs time
  let firstTokenMs := dispatchMs + row.criticalPathMs
  let decodeMs := request.outputTokens * o.decodeMsPerToken
  let finishMs := firstTokenMs + decodeMs
  let ttftMs := firstTokenMs - arrivalMs
  let sloMs := o.sloScale * row.hotComputeMs
  ⟨gpu, arrivalMs, dispatchMs, firstTokenMs, finishMs, dispatchMs - arrivalMs, row.criticalPathMs, ttftMs, decodeMs, sloMs,
    ttftMs ≤ sloMs, o.warmupRequests ≤ index, available.set gpu finishMs⟩

/-- The GPU of a request: that of the routing, else one that is free first. -/
def gpuOf (o : Options) (routing : List Nat) (available : List ℚ) (nextGpu index : Nat) : Except Fault (Nat × List Nat × Nat) :=
  match routing[index]? with
  | some gpu => .ok (gpu, routing, nextGpu)
  | none =>
    match available.min? with
    | none => .error .valueError
    | some earliest => do
      let gpu ← nextGpuOf o nextGpu fun gpu => (available[gpu]?.map fun time => decide (isClose time earliest)).getD false
      .ok (gpu, routing ++ [gpu], (gpu + 1) % o.gpus)

/-- The loop of `apply_online_timing`. -/
def settleFrom (o : Options) (routing : List Nat) (available : List ℚ) (nextGpu index : Nat) :
    List (Row × Trace.Request × ℚ) → Except Fault (List Settled)
  | [] => .ok []
  | (row, request, arrivalS) :: rest => do
    let (gpu, routing, nextGpu) ← gpuOf o routing available nextGpu index
    let time ← availableAt available gpu
    let settled := settle o available index gpu row request arrivalS time
    let others ← settleFrom o routing settled.availableAtMs nextGpu (index + 1) rest
    .ok (settled :: others)

/-- `apply_online_timing`, up to its summary. -/
def applyOnlineTiming (o : Options) (rows : List Row) (routing : List Nat) (requests : List Trace.Request)
    (arrivalsS : List ℚ) :
    Except Fault (List Settled) :=
  if rows.length ≠ requests.length ∨ rows.length ≠ arrivalsS.length then .error .valueError
  else settleFrom o routing (List.replicate o.gpus 0) 0 0 (rows.zip (requests.zip arrivalsS))

/-- The routing of requests in `simulate`: `main` makes the arrivals milliseconds, and all GPUs are free at first. -/
def route (o : Options) (rows : List Row) (requests : List Trace.Request) (decisions : List Decision) (arrivalsS : List ℚ) :
    Except Fault (List Routed) :=
  routeFrom o (arrivalsS.map (· * 1000)) (List.replicate o.gpus 0) 0 0 (rows.zip (requests.zip decisions))

end ServerlessLLM.Simulator.Online
