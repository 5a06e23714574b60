import Mathlib.Algebra.Order.Ring.Rat
import ServerlessLLM.Library.Dict

/-!
# The routers

`RoundRobinRouter` and `MigrationRouter`: the calls of `inference`, the load balancer, the auto-scaler with the instances that
it starts and stops, and the migrations. A step is what a coroutine does between two points at which it may be suspended; the
lock of the instances is such a point, because a migration may hold it over a remote call. The lock of a handle is never waited
for. The handle of an instance outlives its entry in the dictionaries, so that handles are kept by their ids, and a dictionary
of instances is the list of its keys.
-/

namespace ServerlessLLM.Serving.Router

/-- The two classes. -/
inductive Kind where
  | roundRobin
  | migration
deriving DecidableEq

/-- `action` of a call. -/
inductive Action where
  | generate
  | encode
  | other
deriving DecidableEq

inductive Answer where
  /-- What the backend returns. -/
  | result
  | invalidAction
  | instanceStopped
  | instanceNotFound
  | noTargetInstanceFound
  /-- The target is not among the ready instances any more, and a `KeyError` ends the call. -/
  | keyError
deriving DecidableEq

/-- How far a call is. -/
inductive Stage where
  /-- It waits for its future. -/
  | waiting
  /-- Its future has this instance, and it has not gone on yet. -/
  | allocated (instanceId : String)
  /-- The backend of the instance works on it. -/
  | onInstance (instanceId : String)
  /-- It was preempted, and the target of the migration works on it. -/
  | onTarget (instanceId targetInstanceId : String)
  | returned (answer : Answer)
deriving DecidableEq

/-- A call of `inference`. -/
structure Call where
  action : Action
  stage : Stage
deriving DecidableEq

/-- The instance that a call is allocated to, until it returns. -/
def Call.instance? (c : Call) : Option String :=
  match c.stage with
  | .allocated instanceId => some instanceId
  | .onInstance instanceId => some instanceId
  | .onTarget instanceId _ => some instanceId
  | _ => none

def Call.isPending (c : Call) : Bool :=
  match c.stage with
  | .returned _ => false
  | _ => true

structure InstanceHandle where
  maxQueueLength : Int
  ready : Bool
  concurrency : Int
deriving DecidableEq

namespace InstanceHandle

variable (h : InstanceHandle)

/-- `add_requests`; nothing when it returns `False`. -/
def addRequests (numRequests : Int) : Option InstanceHandle :=
  if h.ready = false then none
  else if h.concurrency + numRequests > h.maxQueueLength ∨ h.concurrency + numRequests < 0 then none
  else some { h with concurrency := h.concurrency + numRequests }

def checkRequestQueue : Bool := h.concurrency + 1 ≤ h.maxQueueLength

end InstanceHandle

structure AutoScalingConfig where
  metric : Option String
  minInstances : Option Int
  maxInstances : Option Int
  target : Option Int
  keepAlive : Option ℚ

namespace AutoScalingConfig

variable (cfg : AutoScalingConfig)

/-- `auto_scaler`; nothing when the target is zero. -/
def autoScaler (requestCount : Int) : Option Int :=
  let target := cfg.target.getD 16
  if target = 0 then none
  else some (min (cfg.maxInstances.getD 10) (max (cfg.minInstances.getD 0) (Int.fdiv (requestCount + target - 1) target)))

/-- `max_request_length` of a new instance. -/
def maxRequestLength : Int := if cfg.metric = some "concurrency" then cfg.target.getD 1 else 1

end AutoScalingConfig

inductive LoadBalancer where
  /-- It waits for the queue. -/
  | idle
  /-- It has taken a call and gets the ready instances next. -/
  | looking (call : Nat)
  /-- It sleeps with the instances that were ready. -/
  | sleeping (call : Nat) (instanceOptions : List String)
deriving DecidableEq

def LoadBalancer.held : LoadBalancer → List Nat
  | idle => []
  | looking call => [call]
  | sleeping call _ => [call]

inductive Scaler where
  /-- It begins an iteration. -/
  | idle
  /-- It knows how many instances are desired. -/
  | deciding (desiredInstances : Int)
  /-- It creates an instance. -/
  | creating
  /-- It waits for an instance that it can stop. -/
  | stopping
  /-- An exception has ended it. -/
  | ended
deriving DecidableEq

/-- A migration whose target has its backend. -/
structure Migration where
  sourceInstanceId : String
  instanceId : String
deriving DecidableEq

structure State where
  running : Bool
  requestCount : Int
  requestQueue : List Nat
  calls : List Call
  handles : Dict String InstanceHandle
  startingInstances : List String
  readyInstances : List String
  deletingInstances : List String
  idleTime : ℚ
  loadBalancer : LoadBalancer
  roundRobinIndex : Nat
  scaler : Scaler
  migrations : List Migration
  migrationRecord : Dict String String
  /-- The instances whose backend a migration has told to shut down. -/
  preempting : List String

inductive Step where
  | inference (action : Action)
  /-- The load balancer takes a call. -/
  | take
  /-- The load balancer gets the ready instances. -/
  | look
  /-- The load balancer has slept. -/
  | assign
  /-- A call goes on with its instance. -/
  | lookup (call : Nat)
  /-- The backend returns the result of a call. -/
  | finish (call : Nat)
  /-- The backend preempts a call. -/
  | preempt (call : Nat)
  /-- The auto-scaler reads the number of requests. -/
  | scale (cfg : AutoScalingConfig)
  /-- The auto-scaler compares it with the instances. -/
  | adjust (cfg : AutoScalingConfig)
  /-- The auto-scaler creates an instance, with the configuration that there is by then. -/
  | create (cfg : AutoScalingConfig) (instanceId : String)
  /-- A new instance is ready. -/
  | started (instanceId : String)
  /-- The auto-scaler stops an instance. -/
  | stop
  /-- An instance that was stopped is gone. -/
  | finishInstance (instanceId : String)
  /-- The target of a migration is there. -/
  | beginMigration (sourceInstanceId instanceId : String)
  /-- The target of a migration takes the place of the source, if this is still ready. -/
  | migrate (m : Migration)

namespace State

/-- A router that was started. -/
def init : State := {
  running := true
  requestCount := 0
  requestQueue := []
  calls := []
  handles := .empty
  startingInstances := []
  readyInstances := []
  deletingInstances := []
  idleTime := 0
  loadBalancer := .idle
  roundRobinIndex := 0
  scaler := .idle
  migrations := []
  migrationRecord := .empty
  preempting := [] }

variable (kind : Kind) (s : State)

def setStage (call : Nat) (stage : Stage) : State :=
  { s with calls := s.calls.modify call fun c => { c with stage := stage } }

def stage? (call : Nat) : Option Stage := s.calls[call]?.map Call.stage

/-- `add_requests` of an instance, whose result is not looked at. -/
def addRequests (instanceId : String) (numRequests : Int) : State :=
  match (s.handles.get? instanceId).bind fun h => h.addRequests numRequests with
  | none => s
  | some h => { s with handles := s.handles.set instanceId h }

/-! ## `inference` -/

/-- `inference` until its future is in the queue. -/
def inference (action : Action) : State :=
  if s.running = false then { s with calls := s.calls ++ [⟨action, .returned .instanceStopped⟩] }
  else
    { s with
      requestCount := s.requestCount + 1
      idleTime := if kind = .roundRobin then 0 else s.idleTime
      requestQueue := s.requestQueue ++ [s.calls.length]
      calls := s.calls ++ [⟨action, .waiting⟩] }

/-- The end of `inference`. -/
def conclude (call : Nat) (instanceId : String) (answer : Answer) : State :=
  let s := s.addRequests instanceId (-1)
  { s.setStage call (.returned answer) with requestCount := s.requestCount - 1 }

/-- `inference` from its future to the backend. -/
def lookup (call : Nat) : Option State :=
  match s.calls[call]? with
  | some ⟨action, .allocated instanceId⟩ =>
    if instanceId ∉ s.readyInstances then some (s.setStage call (.returned .instanceNotFound))
    else if action = .other then some (s.conclude call instanceId .invalidAction)
    else some (s.setStage call (.onInstance instanceId))
  | _ => none

/-- `inference` after the result of the backend. -/
def finish (call : Nat) : Option State :=
  match s.stage? call with
  | some (.onInstance instanceId) => some (s.conclude call instanceId .result)
  | some (.onTarget instanceId _) => some (s.conclude call instanceId .result)
  | _ => none

/-- `inference` after a result that says that it was preempted. -/
def preempt (call : Nat) : Option State :=
  match s.calls[call]? with
  | some ⟨.generate, .onInstance instanceId⟩ =>
    if instanceId ∉ s.preempting then none
    else
      match s.migrationRecord.get? instanceId with
      | none => some (s.setStage call (.returned .noTargetInstanceFound))
      | some target =>
        if target ∉ s.readyInstances then some (s.setStage call (.returned .keyError))
        else some (s.setStage call (.onTarget instanceId target))
  | _ => none

/-! ## `_load_balancer_loop` -/

def take : Option State :=
  match s.loadBalancer, s.requestQueue with
  | .idle, call :: rest => some { s with loadBalancer := .looking call, requestQueue := rest }
  | _, _ => none

/-- `instance_options`. -/
def look : Option State :=
  match s.loadBalancer with
  | .looking call => some { s with loadBalancer := .sleeping call s.readyInstances }
  | _ => none

def assign : Option State :=
  match s.loadBalancer with
  | .sleeping call instanceOptions =>
    match instanceOptions[s.roundRobinIndex % instanceOptions.length]? with
    | none => some { s with loadBalancer := .looking call }
    | some instanceId =>
      let s := { s with roundRobinIndex := s.roundRobinIndex + 1, loadBalancer := .looking call }
      if instanceId ∉ s.readyInstances then some s
      else
        match s.handles.get? instanceId with
        | none => some s
        | some h =>
          if h.checkRequestQueue = false then some s
          else
            match h.addRequests 1 with
            | none => some s
            | some h =>
              some { s.setStage call (.allocated instanceId) with
                handles := s.handles.set instanceId h
                loadBalancer := .idle }
  | _ => none

/-! ## `_auto_scaler_loop` -/

def scale (cfg : AutoScalingConfig) : Option State :=
  match s.scaler with
  | .idle =>
    match cfg.autoScaler s.requestCount with
    | none => some { s with scaler := .ended }
    | some desiredInstances => some { s with scaler := .deciding desiredInstances }
  | _ => none

/-- More instances, fewer, or another iteration. -/
def adjust (cfg : AutoScalingConfig) : Option State :=
  match s.scaler with
  | .deciding desiredInstances =>
    let numRunningInstances := s.startingInstances.length + s.readyInstances.length
    if desiredInstances > numRunningInstances then some { s with scaler := .creating }
    else if desiredInstances < numRunningInstances then
      if s.idleTime ≥ cfg.keepAlive.getD 0 then some { s with scaler := .stopping }
      else some { s with scaler := .idle, idleTime := s.idleTime + 1 / 10 }
    else some { s with scaler := .idle }
  | _ => none

/-- `_create_instance`. -/
def create (cfg : AutoScalingConfig) (instanceId : String) : Option State :=
  if s.scaler = .creating ∧ instanceId ∉ s.handles.keys then
    some { s with
      scaler := .idle
      handles := s.handles.set instanceId ⟨cfg.maxRequestLength, false, 0⟩
      startingInstances := s.startingInstances ++ [instanceId] }
  else none

/-- The end of `_start_instance`. -/
def started (instanceId : String) : Option State :=
  if instanceId ∈ s.startingInstances then
    (s.handles.get? instanceId).map fun h =>
      { s with
        handles := s.handles.set instanceId { h with ready := true }
        readyInstances := s.readyInstances ++ [instanceId]
        startingInstances := s.startingInstances.erase instanceId }
  else none

/-- `_stop_instance`, once there is a ready instance: `popitem` takes the last one. -/
def stop : Option State :=
  if s.scaler = .stopping then
    s.readyInstances.getLast?.map fun instanceId =>
      { s with
        scaler := .idle
        idleTime := 0
        readyInstances := s.readyInstances.dropLast
        deletingInstances := s.deletingInstances ++ [instanceId] }
  else none

def finishInstance (instanceId : String) : Option State :=
  if instanceId ∈ s.deletingInstances then some { s with deletingInstances := s.deletingInstances.erase instanceId } else none

/-! ## `execute_migration_plan` -/

/-- The target is started. -/
def beginMigration (sourceInstanceId instanceId : String) : Option State :=
  if kind = .migration ∧ instanceId ∉ s.handles.keys then
    some { s with
      handles := s.handles.set instanceId ⟨10, true, 0⟩
      migrations := s.migrations ++ [⟨sourceInstanceId, instanceId⟩] }
  else none

/-- The target takes the place of the source, or is shut down when the source is gone. -/
def migrate (m : Migration) : Option State :=
  if m ∉ s.migrations then none
  else if m.sourceInstanceId ∉ s.readyInstances then
    (s.handles.get? m.instanceId).map fun h =>
      { s with
        handles := s.handles.set m.instanceId { h with ready := false }
        migrations := s.migrations.erase m }
  else
    some { s with
      readyInstances := s.readyInstances.erase m.sourceInstanceId ++ [m.instanceId]
      migrationRecord := s.migrationRecord.set m.sourceInstanceId m.instanceId
      preempting := m.sourceInstanceId :: s.preempting
      migrations := s.migrations.erase m }

/-- A step; nothing when it is not due. -/
def step (kind : Kind) (s : State) : Step → Option State
  | .inference action => some (s.inference kind action)
  | .take => s.take
  | .look => s.look
  | .assign => s.assign
  | .lookup call => s.lookup call
  | .finish call => s.finish call
  | .preempt call => s.preempt call
  | .scale cfg => s.scale cfg
  | .adjust cfg => s.adjust cfg
  | .create cfg instanceId => s.create cfg instanceId
  | .started instanceId => s.started instanceId
  | .stop => s.stop
  | .finishInstance instanceId => s.finishInstance instanceId
  | .beginMigration sourceInstanceId instanceId => s.beginMigration kind sourceInstanceId instanceId
  | .migrate m => s.migrate m

end State

/-! ## `shutdown` -/

/-- The backends that `_shutdown_instance` tells apart, and `mock`, whose instances have no `backend_instance`. -/
inductive Backend where
  | criu
  | mock
  | other
deriving DecidableEq

/-- How `shutdown` ends. -/
inductive Outcome where
  | returned (deletedInstanceId : List String)
  /-- A future of the queue is unpacked, which raises a `RuntimeError`. -/
  | runtimeError
  /-- `None` has no `shutdown`. -/
  | attributeError
deriving DecidableEq

/-- `shutdown`, when nothing else runs meanwhile and the backends do not fail. -/
def State.shutdown (backend : Backend) (s : State) : Outcome × State :=
  let s := { s with running := false }
  match s.requestQueue with
  | _ :: rest => (.runtimeError, { s with requestQueue := rest })
  | [] =>
    let deletedInstanceId := s.readyInstances
    let s := { s with readyInstances := [] }
    if backend = .mock ∧ deletedInstanceId ≠ [] then (.attributeError, s)
    else (.returned deletedInstanceId, s)

end ServerlessLLM.Serving.Router
