import ServerlessLLM.Library.Holdings
import ServerlessLLM.Schedulers.Queues

/-!
# The accounts of the schedulers

What `FcfsScheduler`, `ReuseAwareScheduler` and `StorageAwareScheduler` have in common: the node table with the free GPUs, the
futures and `model_instance`. A node table is an object that is copied, shared and written through; so every table that was made
is kept, a variable names a table by its number, and `worker_nodes` of the scheduler is such a number. The tables have no node
information in common: they are deep copies of each other.
-/

namespace ServerlessLLM.Schedulers

/-- A node as `ray.nodes()` lists it. -/
structure RayNode where
  nodeID : Option String
  resources : Dict String Nat
  nodeManagerAddress : Option String

structure NodeInfo where
  freeGpu : Int
  totalGpu : Int
deriving DecidableEq

abbrev Nodes := Dict String NodeInfo

namespace RayNode

/-- `key.split("_")[-1]` for a key that starts with `worker_id_`. -/
def workerId (key : String) : Option String :=
  if "worker_id_".toList.isPrefixOf key.toList then some (String.ofList (key.toList.reverse.takeWhile (· ≠ '_')).reverse)
  else none

variable (n : RayNode)

/-- The assertions of `get_worker_nodes`. -/
def Complete : Prop := n.nodeID.isSome ∧ n.resources.entries ≠ [] ∧ n.nodeManagerAddress.isSome ∧ n.nodeManagerAddress ≠ some ""

instance : Decidable n.Complete := inferInstanceAs (Decidable (_ ∧ _ ∧ _ ∧ _))

def workers : List (String × NodeInfo) :=
  if (n.resources.get? "control_node").getD 0 > 0 then []
  else
    let gpu : Nat := (n.resources.get? "GPU").getD 0
    n.resources.entries.filterMap fun e => (workerId e.1).map fun nodeId => (nodeId, ⟨gpu, gpu⟩)

end RayNode

/-- `get_worker_nodes`; nothing when an assertion fails. -/
def getWorkerNodes (rayNodes : List RayNode) : Option Nodes :=
  if ∀ n ∈ rayNodes, n.Complete then some ((rayNodes.flatMap RayNode.workers).foldl (fun d e => d.set e.1 e.2) .empty) else none

namespace Nodes

variable (nodes : Nodes)

def free : Dict String Int := nodes.mapValues fun _ info => info.freeGpu

def addUnknown (workerNodes : Nodes) : Nodes :=
  workerNodes.entries.foldl (fun d e => if (d.get? e.1).isSome then d else d.set e.1 e.2) nodes

/-- The nodes that are known are replaced. -/
def overwrite (workerNodes : Nodes) : Nodes :=
  workerNodes.entries.foldl (fun d e => if (d.get? e.1).isSome then d.set e.1 e.2 else d) nodes

/-- GPUs of a node are taken, or given back when `numGpus` is negative. -/
def charge (nodeId : String) (numGpus : Int) : Nodes :=
  match nodes.get? nodeId with
  | none => nodes
  | some info => nodes.set nodeId { info with freeGpu := info.freeGpu - numGpus }

end Nodes

/-- The node tables that were made, and the one that `worker_nodes` of the scheduler is. -/
structure Tables where
  made : List Nodes
  workerNodes : Nat

namespace Tables

variable (t : Tables)

def table (r : Nat) : Nodes := t.made.getD r .empty

def current : Nodes := t.table t.workerNodes

/-- A table is written through. -/
def modify (r : Nat) (f : Nodes → Nodes) : Tables := { t with made := t.made.modify r f }

/-- `worker_nodes` of the scheduler becomes a new table. -/
def replace (nodes : Nodes) : Tables := ⟨t.made ++ [nodes], t.made.length⟩

/-- `_get_worker_nodes`. The table that it returns is the scheduler's own. -/
def getWorkerNodes (workerNodes : Nodes) : Tables := t.replace (t.current.addUnknown workerNodes)

def updateWorkerNodes (r : Nat) : Tables := t.replace (t.current.overwrite (t.table r))

end Tables

/-- An instance for which `allocate_resource` was called and that is not deallocated yet. -/
structure Instance where
  modelName : String
  instanceId : String
  numGpus : Int
  allocationResult : Nat
  /-- The call has returned. -/
  returned : Bool
deriving DecidableEq

structure Accounts where
  created : Nat
  results : Dict Nat String
  instances : List Instance
  modelInstance : Dict String (Dict String String)
  tables : Tables

namespace Accounts

/-- A new scheduler has an empty node table. -/
def init : Accounts := ⟨0, .empty, [], .empty, ⟨[.empty], 0⟩⟩

variable (a : Accounts)

def Known (modelName instanceId : String) : Prop := ∃ i ∈ a.instances, i.modelName = modelName ∧ i.instanceId = instanceId

instance (modelName instanceId : String) : Decidable (a.Known modelName instanceId) :=
  inferInstanceAs (Decidable (∃ i ∈ a.instances, _))

/-- `allocate_resource` creates its future. -/
def request (modelName instanceId : String) (numGpus : Int) : Accounts :=
  { a with created := a.created + 1, instances := a.instances ++ [⟨modelName, instanceId, numGpus, a.created, false⟩] }

/-- A future is given its result. -/
def setResult (allocationResult : Nat) (nodeId : String) : Accounts :=
    { a with results := a.results.set allocationResult nodeId }

/-- GPUs of a node are taken in the table `r`. -/
def charge (r : Nat) (nodeId : String) (numGpus : Int) : Accounts :=
  { a with tables := a.tables.modify r fun nodes => nodes.charge nodeId numGpus }

def getWorkerNodes (workerNodes : Nodes) : Accounts := { a with tables := a.tables.getWorkerNodes workerNodes }

def updateWorkerNodes (r : Nat) : Accounts := { a with tables := a.tables.updateWorkerNodes r }

/-- An entry of `model_instance` is made. -/
def record (modelName instanceId nodeId : String) : Dict String (Dict String String) :=
  a.modelInstance.set modelName (((a.modelInstance.get? modelName).getD .empty).set instanceId nodeId)

/-- `allocate_resource` goes on with the node and returns; nothing while the future has no result. -/
def resume (i : Instance) : Option Accounts :=
  if i ∈ a.instances ∧ i.returned = false then
    (a.results.get? i.allocationResult).map fun nodeId =>
      { a with
        modelInstance := a.record i.modelName i.instanceId nodeId
        instances := a.instances.map fun j => if j = i then { i with returned := true } else j }
  else none

/-- `deallocate_resource`, as far as the scheduler goes. -/
def deallocateResource (modelName instanceId : String) (numGpus : Int) : Accounts :=
  match a.modelInstance.get? modelName with
  | none => a
  | some d =>
    match d.get? instanceId with
    | none => a
    | some nodeId =>
      let a := { a with modelInstance := a.modelInstance.set modelName (d.erase instanceId) }
      if (a.tables.current.get? nodeId).isNone then a
      else a.charge a.tables.workerNodes nodeId (-numGpus)

/-- An instance that was allocated is deallocated, with the resources that it was allocated with. -/
def deallocate (i : Instance) : Option Accounts :=
  if i ∈ a.instances ∧ i.returned = true then
    some { a.deallocateResource i.modelName i.instanceId i.numGpus with instances := a.instances.erase i }
  else none

def placed (nodeId : String) : Int :=
  Holdings.heldAt (fun i => a.results.get? i.allocationResult) Instance.numGpus a.instances nodeId

/-- The GPUs of each node of a table are free or those of instances. -/
def BalancedIn (nodes : Nodes) : Prop :=
  ∀ nodeId info, nodes.get? nodeId = some info → info.freeGpu + a.placed nodeId = info.totalGpu

/-- The GPUs of each node are free or those of instances. -/
def Balanced : Prop := a.BalancedIn a.tables.current

end Accounts

end ServerlessLLM.Schedulers
