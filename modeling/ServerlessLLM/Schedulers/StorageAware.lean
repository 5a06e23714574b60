import ServerlessLLM.Schedulers.Queues

/-!
# The storage-aware scheduler

`allocate_resource` and `_control_loop` of `StorageAwareScheduler`, as steps between suspension points. A pass of the loop
collects the requests with their positions and then takes them one by one; before each one it waits for `schedule`, for
migrations and for the store. None of these touches the queues, so a step is given the node of the best plan, if there is one.
-/

namespace ServerlessLLM.Schedulers.StorageAware

/-- The exceptions that end the control loop. -/
inductive LoopError where
  /-- `pop` found no such position. -/
  | indexError
  /-- `set_result` found the future resolved. -/
  | invalidStateError
deriving DecidableEq

/-- The state of the scheduler. `loadingRequests` has what is left of the pass. -/
structure State where
  queues : Queues
  created : Nat
  resolved : List (Nat × String)
  loadingRequests : List Collected
  error : Option LoopError

inductive Step where
  /-- `allocate_resource` appends a request. -/
  | allocateResource (modelName : String) (requestTime : ℚ) (numGpus : Int)
  /-- A pass begins. -/
  | collect
  /-- The next request is served on the node of its plan, or left in its queue. -/
  | turn (plan : Option String)
deriving DecidableEq

namespace State

/-- A new scheduler. -/
def init : State := ⟨.empty, 0, [], [], none⟩

variable (s : State)

def allocateResource (modelName : String) (requestTime : ℚ) (numGpus : Int) : State :=
  { s with queues := s.queues.append modelName ⟨requestTime, numGpus, s.created⟩, created := s.created + 1 }

/-- The requests are collected and sorted by their positions. -/
def collect : State := { s with loadingRequests := s.queues.collect.insertionSort fun c d => c.idx ≤ d.idx }

def serve (c : Collected) (nodeId : String) : State :=
  match s.queues.pop c.modelName c.idx with
  | none => { s with error := some .indexError }
  | some queues =>
    if c.request.allocationResult ∈ s.resolved.map Prod.fst then { s with queues := queues, error := some .invalidStateError }
    else { s with queues := queues, resolved := s.resolved ++ [(c.request.allocationResult, nodeId)] }

def step : Step → Option State
  | .allocateResource modelName requestTime numGpus => some (s.allocateResource modelName requestTime numGpus)
  | .collect => if s.error = none ∧ s.loadingRequests = [] then some s.collect else none
  | .turn plan =>
    match s.error, s.loadingRequests with
    | none, c :: loadingRequests =>
      match plan with
      | none => some { s with loadingRequests := loadingRequests }
      | some nodeId => some ({ s with loadingRequests := loadingRequests }.serve c nodeId)
    | _, _ => none

def run (steps : List Step) : Option State := steps.foldlM State.step s

end State

end ServerlessLLM.Schedulers.StorageAware
