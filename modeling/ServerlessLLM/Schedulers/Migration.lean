import ServerlessLLM.Schedulers.Accounts
import ServerlessLLM.Schedulers.StorageAware

/-!
# Migrations of the storage-aware scheduler

`_control_loop` of `StorageAwareScheduler` with the migrations that it has the routers execute, as steps between suspension
points: `mark_resource` and `deallocate_resource` are called by a router in the middle of a pass. What `schedule` finds is
given: a node of the table, and the migrations that are to make room on it. The table of a pass is the scheduler's own, so that
one table is enough.
-/

namespace ServerlessLLM.Schedulers

/-- The nodes of the instances of each model. -/
abbrev ModelInstance := Dict String (Dict String String)

namespace ModelInstance

variable (d : ModelInstance)

def node? (modelName instanceId : String) : Option String := (d.get? modelName).bind fun nodes => nodes.get? instanceId

def record (modelName instanceId nodeId : String) : ModelInstance :=
  d.set modelName (((d.get? modelName).getD .empty).set instanceId nodeId)

/-- An instance is taken out. -/
def remove (modelName instanceId : String) : ModelInstance :=
  match d.get? modelName with
  | none => d
  | some nodes => d.set modelName (nodes.erase instanceId)

end ModelInstance

namespace Migration

/-- A call of `allocate_resource` that has not returned. -/
structure Waiting where
  modelName : String
  instanceId : String
  numGpus : Int
  allocationResult : Nat
deriving DecidableEq

structure Running where
  modelName : String
  instanceId : String
  numGpus : Int
  nodeId : String
deriving DecidableEq

/-- An instance of a model, and the node that it goes to. -/
structure MigrationPlan where
  modelName : String
  sourceInstanceId : String
  targetNodeId : String
deriving DecidableEq

structure AllocationPlan where
  nodeId : String
  migrationPlans : Option (List MigrationPlan)
deriving DecidableEq

/-- How far `_control_loop` is. The requests that are left of the pass come last. -/
inductive Phase where
  /-- No pass is in progress. -/
  | idle
  /-- The next request has its turn. -/
  | pass (loadingRequests : List Collected)
  /-- A request is to be placed on a node after these migrations. -/
  | planned (c : Collected) (nodeId : String) (plans : List MigrationPlan) (loadingRequests : List Collected)
  /-- A migration is executed, with the new instance once it is marked. -/
  | executing (c : Collected) (nodeId : String) (plan : MigrationPlan) (marked : Option String) (plans : List MigrationPlan)
      (loadingRequests : List Collected)
  /-- A request was placed, and the store loads its model. -/
  | loading (loadingRequests : List Collected)
  /-- An exception has ended the loop: nothing for an assertion. -/
  | ended (error : Option StorageAware.LoopError)
deriving DecidableEq

/-- The state of the scheduler, with the instances that run. -/
structure State where
  queues : Queues
  created : Nat
  results : Dict Nat String
  waiting : List Waiting
  running : List Running
  modelInstance : ModelInstance
  workerNodes : Nodes
  phase : Phase

inductive Step where
  /-- `allocate_resource` appends a request. The name of the instance is a new one. -/
  | allocateResource (modelName instanceId : String) (requestTime : ℚ) (numGpus : Nat)
  /-- `allocate_resource` has its node and returns: the instance runs. -/
  | resume (w : Waiting)
  /-- `deallocate_resource` of an instance that runs. -/
  | deallocateResource (i : Running)
  /-- A pass begins, with the nodes that the cluster has by then. -/
  | collect (rayNodes : List RayNode)
  /-- The next request has its turn, with the best plan if there is one. -/
  | turn (plan : Option AllocationPlan)
  /-- The next migration of the plan begins. -/
  | execute
  /-- The router calls `mark_resource` for the new instance. -/
  | mark (instanceId : String)
  /-- The migration succeeds: the new instance has taken the place of the old one, and this is deallocated. -/
  | succeed (i : Running)
  /-- The migration fails. -/
  | fail
  /-- The request is placed on its node. -/
  | place
  /-- `load_to_host` returns. -/
  | loaded
  /-- The pass ends. -/
  | finish

namespace State

/-- A new scheduler. -/
def init : State := ⟨.empty, 0, .empty, [], [], .empty, .empty, .idle⟩

variable (s : State)

def Fresh (modelName instanceId : String) : Prop :=
  s.modelInstance.node? modelName instanceId = none ∧
  (∀ i ∈ s.running, ¬(i.modelName = modelName ∧ i.instanceId = instanceId)) ∧
  ∀ w ∈ s.waiting, ¬(w.modelName = modelName ∧ w.instanceId = instanceId)

instance (modelName instanceId : String) : Decidable (s.Fresh modelName instanceId) := inferInstanceAs (Decidable (_ ∧ _ ∧ _))

def allocateResource (modelName instanceId : String) (requestTime : ℚ) (numGpus : Nat) : State :=
  { s with
    queues := s.queues.append modelName ⟨requestTime, numGpus, s.created⟩
    created := s.created + 1
    waiting := s.waiting ++ [⟨modelName, instanceId, numGpus, s.created⟩] }

/-- `allocate_resource` goes on. -/
def resume (w : Waiting) : Option State :=
  if w ∈ s.waiting then
    (s.results.get? w.allocationResult).map fun nodeId =>
      { s with
        modelInstance := s.modelInstance.record w.modelName w.instanceId nodeId
        waiting := s.waiting.erase w
        running := s.running ++ [⟨w.modelName, w.instanceId, w.numGpus, nodeId⟩] }
  else none

def deallocateResource (modelName instanceId : String) (numGpus : Int) : State :=
  match s.modelInstance.node? modelName instanceId with
  | none => s
  | some nodeId =>
    let s := { s with modelInstance := s.modelInstance.remove modelName instanceId }
    if nodeId ∉ s.workerNodes.keys then s else { s with workerNodes := s.workerNodes.charge nodeId (-numGpus) }

/-- An instance that runs is deallocated, with the resources of its model. -/
def deallocate (i : Running) : Option State :=
  if i ∈ s.running then some { s.deallocateResource i.modelName i.instanceId i.numGpus with
    running := s.running.erase i } else none

def collect (rayNodes : List RayNode) : State :=
  if s.queues.collect = [] then s
  else
    match Schedulers.getWorkerNodes rayNodes with
    | none => { s with phase := .ended none }
    | some workerNodes =>
      { s with
        workerNodes := s.workerNodes.addUnknown workerNodes
        phase := .pass (s.queues.collect.insertionSort fun c d => c.idx ≤ d.idx) }

/-- What `schedule` makes sure of: the nodes are those of the table, and there are enough free GPUs where nothing is migrated.
-/
def Valid (c : Collected) (plan : AllocationPlan) : Prop :=
  plan.nodeId ∈ s.workerNodes.keys ∧ (∀ p ∈ plan.migrationPlans.getD [], p.targetNodeId ∈ s.workerNodes.keys) ∧
  (plan.migrationPlans = none → ∀ info ∈ s.workerNodes.get? plan.nodeId, c.request.numGpus ≤ info.freeGpu)

instance (c : Collected) (plan : AllocationPlan) : Decidable (s.Valid c plan) := inferInstanceAs (Decidable (_ ∧ _ ∧ (_ → _)))

def turn (plan : Option AllocationPlan) : Option State :=
  match s.phase with
  | .pass (c :: loadingRequests) =>
    match plan with
    | none => some { s with phase := .pass loadingRequests }
    | some plan =>
      if s.Valid c plan then some { s with
        phase := .planned c plan.nodeId (plan.migrationPlans.getD []) loadingRequests } else none
  | _ => none

/-- A migration begins: the GPUs of the request are taken from the target. -/
def execute : Option State :=
  match s.phase with
  | .planned c nodeId (plan :: plans) loadingRequests =>
    some { s with
      workerNodes := s.workerNodes.charge plan.targetNodeId c.request.numGpus
      phase := .executing c nodeId plan none plans loadingRequests }
  | _ => none

/-- `mark_resource`. -/
def mark (instanceId : String) : Option State :=
  match s.phase with
  | .executing c nodeId plan none plans loadingRequests =>
    if s.Fresh plan.modelName instanceId then
      some { s with
        modelInstance := s.modelInstance.record plan.modelName instanceId plan.targetNodeId
        phase := .executing c nodeId plan (some instanceId) plans loadingRequests }
    else none
  | _ => none

/-- The end of `execute_migration_plan`. The new instance has the GPUs that the resources of its model say. -/
def succeed (i : Running) : Option State :=
  match s.phase with
  | .executing c nodeId plan (some instanceId) plans loadingRequests =>
    if i ∈ s.running ∧ i.modelName = plan.modelName ∧ i.instanceId = plan.sourceInstanceId then
      some { s.deallocateResource i.modelName i.instanceId i.numGpus with
        running := s.running.erase i ++ [⟨plan.modelName, instanceId, i.numGpus, plan.targetNodeId⟩]
        phase := .planned c nodeId plans loadingRequests }
    else none
  | _ => none

/-- A migration has failed: the GPUs are given back to the target. -/
def fail : Option State :=
  match s.phase with
  | .executing c nodeId plan _ plans loadingRequests =>
    some { s with
      workerNodes := s.workerNodes.charge plan.targetNodeId (-c.request.numGpus)
      phase := .planned c nodeId plans loadingRequests }
  | _ => none

/-- A request is placed on its node, whatever became of the migrations. -/
def place : Option State :=
  match s.phase with
  | .planned c nodeId [] loadingRequests =>
    match s.queues.pop c.modelName c.idx with
    | none => some { s with phase := .ended (some .indexError) }
    | some queues =>
      if (s.results.get? c.request.allocationResult).isSome then
        some { s with queues := queues, phase := .ended (some .invalidStateError) }
      else
        some { s with
          queues := queues
          results := s.results.set c.request.allocationResult nodeId
          workerNodes := s.workerNodes.charge nodeId c.request.numGpus
          phase := .loading loadingRequests }
  | _ => none

/-- The pass goes on. The future of the request has its result before `load_to_host` is called, so that its call has gone on by
the time that the reply is there. -/
def loaded : Option State :=
  match s.phase with
  | .loading loadingRequests =>
    if ∀ w ∈ s.waiting, s.results.get? w.allocationResult = none then some { s with phase := .pass loadingRequests } else none
  | _ => none

def finish : Option State :=
  match s.phase with
  | .pass [] => some { s with workerNodes := s.workerNodes.overwrite s.workerNodes, phase := .idle }
  | _ => none

/-- A step; nothing when it is not due. -/
def step : Step → Option State
  | .allocateResource modelName instanceId requestTime numGpus =>
    if s.Fresh modelName instanceId then some (s.allocateResource modelName instanceId requestTime numGpus) else none
  | .resume w => s.resume w
  | .deallocateResource i => s.deallocate i
  | .collect rayNodes => if s.phase = .idle then some (s.collect rayNodes) else none
  | .turn plan => s.turn plan
  | .execute => s.execute
  | .mark instanceId => s.mark instanceId
  | .succeed i => s.succeed i
  | .fail => s.fail
  | .place => s.place
  | .loaded => s.loaded
  | .finish => s.finish

end State

end Migration

end ServerlessLLM.Schedulers
