import ServerlessLLM.Schedulers.Accounts
import ServerlessLLM.Schedulers.ReuseAware

/-!
# The node tables of the reuse-aware scheduler

`ReuseAwareScheduler` once more, with its node tables. A pass of `_control_loop` gets the scheduler's table when it begins, and
writes to it in each turn; between two turns it waits for the store. Meanwhile `deallocate_resource` writes to the table that
the scheduler has by then, and `get_worker_node_status` gives the scheduler a new one. The turn of the last request also writes
the table of the pass back and pops the requests: there is no suspension point in between.
-/

namespace ServerlessLLM.Schedulers.ReuseTables

open ReuseAware (StoreAnswers LoopError schedulingOptions popAll)

/-- A pass, with the table that it holds. -/
structure Pass where
  loadingRequests : List Collected
  answers : Option StoreAnswers
  workerNodes : Nat
  updateWorkerNode : Bool
  toRemove : Dict String (List Nat)

/-- What ended the control loop. -/
inductive Failure where
  | loop (error : LoopError)
  /-- An assertion of `get_worker_nodes`. -/
  | assertionError
deriving DecidableEq

structure State where
  queues : Queues
  accounts : Accounts
  pass : Option Pass
  failure : Option Failure

inductive Step where
  /-- `allocate_resource` appends a request. The name of the instance is a new one. -/
  | allocateResource (modelName instanceId : String) (requestTime : ℚ) (numGpus : Int)
  /-- `allocate_resource` has its node and returns. -/
  | resume (i : Instance)
  /-- `deallocate_resource` of an instance that was allocated, with the resources that it was allocated with. -/
  | deallocateResource (i : Instance)
  /-- `get_worker_node_status`. -/
  | getWorkerNodeStatus (rayNodes : List RayNode)
  /-- A pass begins: the requests are collected, and it gets the node table. -/
  | collect (rayNodes : List RayNode)
  /-- The store has answered. -/
  | prepare (answers : StoreAnswers)
  /-- The next request, with the bytes that each node has to load for its model; they are known for every node. -/
  | turn (toLoadSize : String → Int)

variable (round : ℚ → ℚ)

namespace State

/-- A new scheduler. -/
def init : State := ⟨.empty, .init, none, none⟩

variable (s : State)

def allocateResource (modelName instanceId : String) (requestTime : ℚ) (numGpus : Int) : State :=
  { s with
    queues := s.queues.append modelName ⟨requestTime, numGpus, s.accounts.created⟩
    accounts := s.accounts.request modelName instanceId numGpus }

/-- `get_worker_node_status`. An exception goes to the caller. -/
def getWorkerNodeStatus (rayNodes : List RayNode) : State :=
  match Schedulers.getWorkerNodes rayNodes with
  | none => s
  | some workerNodes => { s with accounts := s.accounts.getWorkerNodes workerNodes }

/-- The requests are collected and sorted by their times, and `gpu_reuse_aware_schedule` gets the node table. -/
def collect (rayNodes : List RayNode) : State :=
  if s.queues.collect = [] then s
  else
    match Schedulers.getWorkerNodes rayNodes with
    | none => { s with failure := some .assertionError }
    | some workerNodes =>
      let accounts := s.accounts.getWorkerNodes workerNodes
      { s with
        accounts := accounts
        pass := some {
          loadingRequests := s.queues.collect.insertionSort fun c d => c.request.requestTime ≤ d.request.requestTime
          answers := none
          workerNodes := accounts.tables.workerNodes
          updateWorkerNode := false
          toRemove := .empty } }

/-- The table of the pass is written back, if a request was served. -/
def writeBack (p : Pass) : State :=
  if p.updateWorkerNode then { s with accounts := s.accounts.updateWorkerNodes p.workerNodes } else s

/-- The requests that were served are popped. -/
def popServed (p : Pass) : State :=
  match popAll s.queues p.toRemove with
  | none => { s with failure := some (.loop .indexError) }
  | some queues => { s with queues := queues, pass := none }

def finish (p : Pass) : State := (s.writeBack p).popServed p

/-- The loop over the requests goes on, or the pass ends. -/
def next (p : Pass) : State := if p.loadingRequests = [] then s.finish p else { s with pass := some p }

def turn (p : Pass) (a : StoreAnswers) (c : Collected) (loadingRequests : List Collected) (toLoadSize : String → Int) : State :=
  match schedulingOptions round a c toLoadSize (s.accounts.tables.table p.workerNodes).free with
  | [] =>
    if (s.accounts.tables.table p.workerNodes).entries = [] then { s with failure := some (.loop .unboundLocalError) }
    else s.next { p with loadingRequests := loadingRequests }
  | (nodeId, _) :: _ =>
    if (s.accounts.results.get? c.request.allocationResult).isSome then { s with failure := some (.loop .invalidStateError) }
    else
      { s with
        accounts := (s.accounts.setResult c.request.allocationResult nodeId).charge p.workerNodes nodeId c.request.numGpus }.next
      { p with
        loadingRequests := loadingRequests
        updateWorkerNode := true
        toRemove := p.toRemove.set c.modelName ((p.toRemove.get? c.modelName).getD [] ++ [c.idx]) }

def step : Step → Option State
  | .allocateResource modelName instanceId requestTime numGpus =>
    if s.accounts.Known modelName instanceId then none
    else some (s.allocateResource modelName instanceId requestTime numGpus)
  | .resume i => (s.accounts.resume i).map fun accounts => { s with accounts := accounts }
  | .deallocateResource i => (s.accounts.deallocate i).map fun accounts => { s with accounts := accounts }
  | .getWorkerNodeStatus rayNodes => some (s.getWorkerNodeStatus rayNodes)
  | .collect rayNodes =>
    match s.failure, s.pass with
    | none, none => some (s.collect rayNodes)
    | _, _ => none
  | .prepare answers =>
    match s.failure, s.pass with
    | none, some p => if p.answers.isNone then some { s with pass := some { p with answers := some answers } } else none
    | _, _ => none
  | .turn toLoadSize =>
    match s.failure, s.pass with
    | none, some p =>
      match p.answers, p.loadingRequests with
      | some a, c :: loadingRequests => some (s.turn round p a c loadingRequests toLoadSize)
      | _, _ => none
    | _, _ => none

def run (steps : List Step) : Option State := steps.foldlM (State.step round) s

end State

end ServerlessLLM.Schedulers.ReuseTables
