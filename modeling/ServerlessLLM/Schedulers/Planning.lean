import ServerlessLLM.Schedulers.Migration

/-!
# Planning migrations

`get_migration_plans` of `StorageAwareScheduler`: which instances of a node to move, so that the GPUs that a request is short of
become free. A cell of its table is for the first instances and an exact number of GPUs. Times are rationals, an infinite one is
`none`, and the exception that the table may end with is caught.
-/

namespace ServerlessLLM.Schedulers.Planning

/-- What the planning raises. -/
inductive PlanError where
  | keyError
  | typeError
  | indexError
  | zeroDivisionError
deriving DecidableEq

structure InstanceStatus where
  instanceId : String
  nodeId : String
  numGpu : Int
  modelName : Option String
  numCurrentTokens : Option Int
  resumingLatency : Option ℚ
deriving DecidableEq

/-- What the store of a node says: its models on disk, its models in pinned memory, and how long its queue takes. -/
structure NodeStore where
  diskModels : List String
  pinnedMemoryPool : List String
  waitingTime : ℚ
deriving DecidableEq

abbrev StoreInfo := Dict String NodeStore

/-- The bandwidths of each node. -/
abbrev HardwareInfo := Dict String (Dict String ℚ)

structure MigrationPlan where
  targetNodeId : String
  sourceInstance : InstanceStatus
deriving DecidableEq

structure MigrationPlans where
  totalLatency : Option ℚ
  evictedGPUs : Int
  plans : List MigrationPlan
  storeInfo : Option StoreInfo
deriving DecidableEq

def MigrationPlans.init : MigrationPlans := ⟨none, 0, [], none⟩

def MigrationPlans.append (p : MigrationPlans) (plan : MigrationPlan) (totalLatency : Option ℚ) : MigrationPlans :=
  { p with
    totalLatency := totalLatency
    evictedGPUs := p.evictedGPUs + plan.sourceInstance.numGpu
    plans := p.plans ++ [plan] }

/-- `<` between two times. -/
def latencyLt : Option ℚ → Option ℚ → Bool
  | some a, some b => a < b
  | some _, none => true
  | none, _ => false

/-- `d[k]`. -/
def lookup {ν : Type} (d : Dict String ν) (k : String) : Except PlanError ν :=
  match d.get? k with
  | some v => .ok v
  | none => .error .keyError

/-- `a / b`. -/
def divide (a b : ℚ) : Except PlanError ℚ := if b = 0 then .error .zeroDivisionError else .ok (a / b)

def getModelLoadingTime (modelName : String) (modelSize : ℚ) (hardwareInfo : Dict String ℚ) (nodeWaitingTime : ℚ)
    (pinnedMemoryPool : List String) : Except PlanError ℚ :=
  if modelName ∉ pinnedMemoryPool then do
    let bandwidth ← lookup hardwareInfo "disk_bandwidth"
    let time ← divide modelSize bandwidth
    return nodeWaitingTime + time
  else do
    let bandwidth ← lookup hardwareInfo "pcie_bandwidth"
    divide modelSize bandwidth

section Target

variable (sourceNodeId : String) (modelInfo : Dict String ℚ) (hardwareInfo : HardwareInfo)

/-- The loading time of a model on a node, with the arguments as they are looked up. -/
def loadingTime (modelName : Option String) (storeInfo : Option StoreInfo) (nodeId : String) : Except PlanError ℚ :=
  match modelName with
  | none => .error .keyError
  | some modelName => do
    let modelSize ← lookup modelInfo modelName
    let hardware ← lookup hardwareInfo nodeId
    match storeInfo with
    | none => .error .typeError
    | some storeInfo => do
      let store ← lookup storeInfo nodeId
      getModelLoadingTime modelName modelSize hardware store.waitingTime store.pinnedMemoryPool

/-- The loop of `_get_migration_target`: the other nodes with enough free GPUs, with their loading times. -/
def candidatePlans (modelName : Option String) (numGpu : Int) (storeInfo : Option StoreInfo) :
    List (String × NodeInfo) → Except PlanError (List (String × ℚ))
  | [] => .ok []
  | (nodeId, nodeInfo) :: rest =>
    if nodeId ≠ sourceNodeId ∧ nodeInfo.freeGpu ≥ numGpu then do
      let time ← loadingTime modelInfo hardwareInfo modelName storeInfo nodeId
      let candidates ← candidatePlans modelName numGpu storeInfo rest
      return (nodeId, time) :: candidates
    else candidatePlans modelName numGpu storeInfo rest

/-- The node with the shortest loading time, the first one of several. -/
def getMigrationTarget (modelName : Option String) (numGpu : Int) (workerNodes : Nodes) (storeInfo : Option StoreInfo) :
    Except PlanError (Option (String × ℚ)) := do
  let candidates ← candidatePlans sourceNodeId modelInfo hardwareInfo modelName numGpu storeInfo workerNodes.entries
  return (candidates.insertionSort fun a b => a.2 ≤ b.2).head?

/-- The cell for `j` GPUs and one instance more. -/
def planCell (workerNodes : Nodes) (currentInstance : InstanceStatus) (row : List MigrationPlans) (j : Nat) :
    Except PlanError MigrationPlans :=
  let without := row.getD j .init
  if (j : Int) ≥ currentInstance.numGpu then
    match row[(j - currentInstance.numGpu).toNat]? with
    | none => .error .indexError
    | some before => do
      let target ← getMigrationTarget sourceNodeId modelInfo hardwareInfo currentInstance.modelName currentInstance.numGpu
        workerNodes before.storeInfo
      match target with
      | none => .error .typeError
      | some (targetNodeId, loadingTime) =>
        let migrationLatency := currentInstance.resumingLatency.getD 0 + loadingTime
        let totalLatency := before.totalLatency.map (migrationLatency + ·)
        if latencyLt totalLatency without.totalLatency then
          match before.storeInfo with
          | none => .error .typeError
          | some storeInfo =>
            match storeInfo.get? targetNodeId with
            | none => .error .keyError
            | some store =>
              .ok { before.append ⟨targetNodeId, currentInstance⟩ totalLatency with
                storeInfo := some (storeInfo.set targetNodeId { store with waitingTime := store.waitingTime + loadingTime }) }
        else .ok without
  else .ok without

def planRow (workerNodes : Nodes) (currentInstance : InstanceStatus) (row : List MigrationPlans) :
    List Nat → Except PlanError (List MigrationPlans)
  | [] => .ok []
  | j :: js => do
    let cell ← planCell sourceNodeId modelInfo hardwareInfo workerNodes currentInstance row j
    let cells ← planRow workerNodes currentInstance row js
    return cell :: cells

def planTable (workerNodes : Nodes) (gpuShortage : Nat) :
    List InstanceStatus → List MigrationPlans → Except PlanError (List MigrationPlans)
  | [], row => .ok row
  | currentInstance :: rest, row => do
    let row ← planRow sourceNodeId modelInfo hardwareInfo workerNodes currentInstance row (List.range (gpuShortage + 1))
    planTable workerNodes gpuShortage rest row

end Target

def firstRow (gpuShortage : Nat) (storeInfo : StoreInfo) : List MigrationPlans :=
  { MigrationPlans.init with totalLatency := some 0, storeInfo := some storeInfo } :: List.replicate gpuShortage .init

/-- The loop over the last row. -/
def optimalPlans (gpuShortage : Nat) (row : List MigrationPlans) : Option MigrationPlans :=
  (row.foldl
    (fun (best : Option ℚ × Option MigrationPlans) plans =>
      if latencyLt plans.totalLatency best.1 ∧
        (gpuShortage : Int) ≤ plans.evictedGPUs then (plans.totalLatency, some plans) else best)
    (none, none)).2

/-- The instances of other models on the source node, with the latency of their resumption. A status without a number of tokens
raises, and this exception is not caught. -/
def migratableInstances (modelName sourceNodeId : String) (modelInstance : ModelInstance)
    (getInstanceStatus : String → String → Option InstanceStatus) (modelSchedulerConfig : Dict String (Dict String ℚ)) :
    Except PlanError (List InstanceStatus) :=
  let statuses := modelInstance.entries.flatMap fun (targetModelName, instances) =>
    if targetModelName = modelName then []
    else instances.entries.filterMap fun (instanceId, nodeId) =>
      if nodeId = sourceNodeId then (getInstanceStatus targetModelName instanceId).map fun status => (targetModelName, status)
      else none
  statuses.mapM fun (targetModelName, status) =>
    match status.numCurrentTokens with
    | none => .error .typeError
    | some numCurrentTokens =>
      let config := (modelSchedulerConfig.get? targetModelName).getD .empty
      let alpha := (config.get? "alpha").getD (1 / 100)
      let beta := (config.get? "beta").getD (1 / 10)
      .ok { status with resumingLatency := some (alpha * numCurrentTokens + beta) }

/-- The planning for the instances that can be moved. -/
def planMigrations (instances : List InstanceStatus) (gpuShortage : Nat) (sourceNodeId : String) (workerNodes : Nodes)
    (modelInfo : Dict String ℚ) (storeInfo : StoreInfo) (hardwareInfo : HardwareInfo) : Option MigrationPlans :=
  if instances = [] then none
  else
    match planTable sourceNodeId modelInfo hardwareInfo workerNodes gpuShortage instances (firstRow gpuShortage storeInfo) with
    | .ok row => optimalPlans gpuShortage row
    | .error _ => none

def getMigrationPlans (modelName : String) (gpuShortage : Nat) (sourceNodeId : String) (modelInstance : ModelInstance)
    (getInstanceStatus : String → String → Option InstanceStatus) (modelSchedulerConfig : Dict String (Dict String ℚ))
    (workerNodes : Nodes) (modelInfo : Dict String ℚ) (storeInfo : StoreInfo) (hardwareInfo : HardwareInfo) :
    Except PlanError (Option MigrationPlans) := do
  let instances ← migratableInstances modelName sourceNodeId modelInstance getInstanceStatus modelSchedulerConfig
  return planMigrations instances gpuShortage sourceNodeId workerNodes modelInfo storeInfo hardwareInfo

end ServerlessLLM.Schedulers.Planning
