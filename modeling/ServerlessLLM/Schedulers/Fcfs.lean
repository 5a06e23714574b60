import ServerlessLLM.Schedulers.Accounts

/-!
# The first-come first-served scheduler

`FcfsScheduler` as steps between suspension points. No section that holds a lock has a suspension point, so that every lock is
free when a coroutine gets to it and none of them suspends there. What is left are the future that `allocate_resource` waits for
and the pause of `_control_loop`: a pass of the loop is one step, and so are `deallocate_resource` and each of the two halves of
`allocate_resource`.
-/

namespace ServerlessLLM.Schedulers

/-- `model_loading_queues[model_name].remove(..)`; nothing when there is no such request. -/
def Queues.remove (q : Queues) (modelName : String) (r : LoadingRequest) : Option Queues :=
  if r ∈ q.queue modelName then some (q.set modelName ((q.queue modelName).erase r)) else none

namespace Fcfs

/-- The state of the scheduler. `running` is false once an assertion has ended the control loop. -/
structure State where
  queues : Queues
  accounts : Accounts
  running : Bool

inductive Step where
  /-- `allocate_resource` appends a request. The name of the instance is a new one. -/
  | allocateResource (modelName instanceId : String) (requestTime : ℚ) (numGpus : Nat)
  /-- `allocate_resource` has its node and returns. -/
  | resume (i : Instance)
  /-- `deallocate_resource` of an instance that was allocated, with the resources that it was allocated with. -/
  | deallocateResource (i : Instance)
  /-- A pass of `_control_loop`, with the nodes that the cluster has by then. -/
  | pass (rayNodes : List RayNode)

def firstFit (nodes : Nodes) (numGpus : Int) : Option String :=
  (nodes.entries.find? fun e => e.2.freeGpu ≥ numGpus).map Prod.fst

namespace State

/-- A new scheduler. -/
def init : State := ⟨.empty, .init, true⟩

variable (s : State)

def allocateResource (modelName instanceId : String) (requestTime : ℚ) (numGpus : Nat) : State :=
  { s with
    queues := s.queues.append modelName ⟨requestTime, numGpus, s.accounts.created⟩
    accounts := s.accounts.request modelName instanceId numGpus }

/-- A request has its turn in a pass that writes to the table `r`. -/
def serve (r : Nat) (c : Collected) : State :=
  match firstFit (s.accounts.tables.table r) c.request.numGpus with
  | none => s
  | some nodeId =>
    if (s.accounts.results.get? c.request.allocationResult).isSome then s
    else
      match s.queues.remove c.modelName c.request with
      | none => s
      | some queues =>
        { s with
          queues := queues
          accounts := (s.accounts.setResult c.request.allocationResult nodeId).charge r nodeId c.request.numGpus }

/-- A pass of `_control_loop`. -/
def pass (rayNodes : List RayNode) : State :=
  if s.queues.collect = [] then s
  else
    match Schedulers.getWorkerNodes rayNodes with
    | none => { s with running := false }
    | some workerNodes =>
      let loadingRequests := s.queues.collect.insertionSort fun c d => c.idx ≤ d.idx
      let s := { s with accounts := s.accounts.getWorkerNodes workerNodes }
      let r := s.accounts.tables.workerNodes
      let s := loadingRequests.foldl (fun s c => s.serve r c) s
      { s with accounts := s.accounts.updateWorkerNodes r }

def step : Step → Option State
  | .allocateResource modelName instanceId requestTime numGpus =>
    if s.accounts.Known modelName instanceId then none
    else some (s.allocateResource modelName instanceId requestTime numGpus)
  | .resume i => (s.accounts.resume i).map fun accounts => { s with accounts := accounts }
  | .deallocateResource i => (s.accounts.deallocate i).map fun accounts => { s with accounts := accounts }
  | .pass rayNodes => if s.running then some (s.pass rayNodes) else none

def run (steps : List Step) : Option State := steps.foldlM State.step s

end State

end Fcfs

end ServerlessLLM.Schedulers
