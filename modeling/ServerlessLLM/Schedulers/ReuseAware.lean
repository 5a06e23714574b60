import ServerlessLLM.Schedulers.Queues

/-!
# The reuse-aware scheduler

`allocate_resource` and `_control_loop` of `ReuseAwareScheduler`, with `gpu_reuse_aware_schedule`, as steps between suspension
points. A pass collects the requests in the order of their times, asks the cluster and the store, and takes the requests one by
one, each after another question to the store. It resolves futures at once and pops the requests at the end, by the positions
that it saved.
-/

namespace ServerlessLLM.Schedulers.ReuseAware

/-- The exceptions that end the control loop. -/
inductive LoopError where
  | indexError
  | invalidStateError
  /-- The message for a request that is not served names a node, and there is none. -/
  | unboundLocalError
deriving DecidableEq

/-- `hardware_info` of a node. -/
structure HardwareInfo where
  pcieBandwidth : ℚ
  pcieBandwidth_pos : 0 < pcieBandwidth

/-- What the store answers at the beginning of a pass: the models that each node stores, and the hardware. It answers for every
node, with a positive bandwidth: no `KeyError` and no division by zero come from here. -/
structure StoreAnswers where
  storeInfo : Dict String (List String)
  hardwareInfo : String → HardwareInfo

/-- A pass: what is left of its requests, the answers once they are there, and the positions to remove. -/
structure Pass where
  loadingRequests : List Collected
  answers : Option StoreAnswers
  toRemove : Dict String (List Nat)

/-- The state of the scheduler. `workerNodes` has the free GPUs of each node. -/
structure State where
  queues : Queues
  created : Nat
  resolved : List (Nat × String)
  workerNodes : Dict String Int
  pass : Option Pass
  error : Option LoopError

inductive Step where
  /-- `allocate_resource` appends a request. -/
  | allocateResource (modelName : String) (requestTime : ℚ) (numGpus : Int)
  /-- A pass begins. -/
  | collect
  /-- The cluster and the store have answered. -/
  | prepare (clusterNodes : Dict String Int) (answers : StoreAnswers)
  /-- The next request, with the bytes that each node has to load for its model; they are known for every node. -/
  | turn (toLoadSize : String → Int)
  /-- The requests that were served are popped. -/
  | finish

-- the rounding of a quotient to a `float`
variable (round : ℚ → ℚ)

def getModelLoadingTime (modelSize : Int) (hardwareInfo : HardwareInfo) : ℚ := round (modelSize / hardwareInfo.pcieBandwidth)

def option (a : StoreAnswers) (c : Collected) (toLoadSize : String → Int) (node : String × Int) : Option (String × ℚ) :=
  match a.storeInfo.get? node.1 with
  | none => none
  | some nodeStoreInfo =>
    if node.2 ≥ c.request.numGpus then
      if c.modelName ∉ nodeStoreInfo then none
      else if toLoadSize node.1 = -1 then none
      else some (node.1, getModelLoadingTime round (toLoadSize node.1) (a.hardwareInfo node.1))
    else none

/-- `scheduling_options`, sorted by their loading times. -/
def schedulingOptions (a : StoreAnswers) (c : Collected) (toLoadSize : String → Int) (workerNodes : Dict String Int) :
    List (String × ℚ) :=
  (workerNodes.entries.filterMap (option round a c toLoadSize)).insertionSort fun x y => x.2 ≤ y.2

/-- The positions of one model are popped, from the last one on. -/
def popIndices (q : Queues) (modelName : String) (indices : List Nat) : Option Queues :=
  (indices.insertionSort fun i j => i ≥ j).foldlM (fun q idx => Queues.pop q modelName idx) q

/-- `to_remove` is worked off. -/
def popAll (q : Queues) (toRemove : Dict String (List Nat)) : Option Queues :=
  toRemove.entries.foldlM (fun q e => popIndices q e.1 e.2) q

namespace State

/-- A new scheduler. -/
def init : State := ⟨.empty, 0, [], .empty, none, none⟩

variable (s : State)

def allocateResource (modelName : String) (requestTime : ℚ) (numGpus : Int) : State :=
  { s with queues := s.queues.append modelName ⟨requestTime, numGpus, s.created⟩, created := s.created + 1 }

/-- The requests are collected and sorted by their times. Without a request the pass is over. -/
def collect : State :=
  if s.queues.collect = [] then s
  else { s with pass := some ⟨s.queues.collect.insertionSort fun c d => c.request.requestTime ≤
    d.request.requestTime, none, .empty⟩ }

/-- The nodes of the cluster that are not known yet are added. -/
def getWorkerNodes (clusterNodes : Dict String Int) : Dict String Int :=
  clusterNodes.entries.foldl (fun d e => if (d.get? e.1).isSome then d else d.set e.1 e.2) s.workerNodes

def turn (p : Pass) (a : StoreAnswers) (c : Collected) (loadingRequests : List Collected) (toLoadSize : String → Int) : State :=
  match schedulingOptions round a c toLoadSize s.workerNodes with
  | [] =>
    if s.workerNodes.entries = [] then { s with error := some .unboundLocalError }
    else { s with pass := some { p with loadingRequests := loadingRequests } }
  | (nodeId, _) :: _ =>
    if c.request.allocationResult ∈ s.resolved.map Prod.fst then { s with error := some .invalidStateError }
    else { s with
      resolved := s.resolved ++ [(c.request.allocationResult, nodeId)]
      workerNodes := s.workerNodes.set nodeId ((s.workerNodes.get? nodeId).getD 0 - c.request.numGpus)
      pass := some { p with
        loadingRequests := loadingRequests
        toRemove := p.toRemove.set c.modelName ((p.toRemove.get? c.modelName).getD [] ++ [c.idx]) } }

def finish (p : Pass) : State :=
  match popAll s.queues p.toRemove with
  | none => { s with error := some .indexError }
  | some queues => { s with queues := queues, pass := none }

/-- A step, if the scheduler can make it. -/
def step (step : Step) : Option State :=
  match step, s.error, s.pass with
  | .allocateResource modelName requestTime numGpus, _, _ => some (s.allocateResource modelName requestTime numGpus)
  | .collect, none, none => some s.collect
  | .prepare clusterNodes answers, none, some ⟨loadingRequests, none, toRemove⟩ =>
    some { s with workerNodes := s.getWorkerNodes clusterNodes, pass := some ⟨loadingRequests, some answers, toRemove⟩ }
  | .turn toLoadSize, none, some ⟨c :: loadingRequests, some a, toRemove⟩ =>
    some (s.turn round ⟨c :: loadingRequests, some a, toRemove⟩ a c loadingRequests toLoadSize)
  | .finish, none, some ⟨[], some a, toRemove⟩ => some (s.finish ⟨[], some a, toRemove⟩)
  | _, _, _ => none

def run (steps : List Step) : Option State := steps.foldlM (State.step round) s

end State

end ServerlessLLM.Schedulers.ReuseAware
