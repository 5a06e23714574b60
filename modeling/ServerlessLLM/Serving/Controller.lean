import ServerlessLLM.Library.Dict

/-!
# The controller

`SllmController` of `controller.py`: `register`, `update`, `delete` and `shutdown`. A step is what a call does up to its next
suspension. `register` suspends while the store registers the model. No call is suspended while it holds a lock: `shutdown`
awaits nothing under `metadata_lock` when there are no models, and raises before it awaits when there are some. So no lock is
ever waited for.
-/

namespace ServerlessLLM.Serving.Controller

/-- A model configuration, of which the rest goes to the store and the router. -/
structure ModelConfig where
  model : String
  backend : Option String
  autoScalingConfig : Option Nat
deriving DecidableEq

/-- How a call ends, or that it is suspended. -/
inductive Outcome where
  | suspended
  | returned
  /-- `ValueError` of `update`. -/
  | notRegistered
  /-- `ValueError` of Ray, for an actor whose name is in use. -/
  | nameInUse
  /-- `RuntimeError` of `register`, with the message of the store. -/
  | storeFailed
  /-- `RuntimeError` of `shutdown`. -/
  | notRunning
  | keyError
  | attributeError
deriving DecidableEq

/-- The controller, and what goes on around it. -/
structure State where
  running : Bool
  registeredModels : Dict String ModelConfig
  /-- The routers are Ray actors, and have numbers here. -/
  requestRouters : Dict String Nat
  /-- The calls of `register` that await the store. -/
  registering : List ModelConfig
  /-- The actors whose names are in use. -/
  actors : Dict String Nat
  nextActor : Nat
  /-- The routers that were started, and have not been deleted. -/
  started : List (String × Nat)

/-- A step: the beginning of a call, the rest of a suspended one, or the end of an actor. -/
inductive Step where
  | register (config : ModelConfig)
  /-- The store is done with a suspended registration. -/
  | resume (index : Nat) (stored : Bool)
  | update (modelName : String) (autoScalingConfig : Option Nat)
  | delete (modelName : String)
  | shutdown
  /-- Ray ends an actor, which raises in no call. -/
  | actorEnds (name : String)

namespace State

/-- A controller that has been started. -/
def init : State := ⟨true, .empty, .empty, [], .empty, 0, []⟩

variable (s : State)

/-- `register`, up to the registration in the store. -/
def register (config : ModelConfig) : Outcome × State :=
  if s.running = false then (.returned, s)
  else if config.backend = none then (.returned, s)
  else if config.model ∈ s.registeredModels.keys then (.returned, s)
  else (.suspended, { s with registering := s.registering ++ [config] })

/-- `register`, after the registration in the store. -/
def finishRegister (config : ModelConfig) (stored : Bool) : Outcome × State :=
  if stored = false then (.storeFailed, s)
  else if config.model ∈ s.actors.keys then (.nameInUse, s)
  else
    let requestRouter := s.nextActor
    let s := { s with actors := s.actors.set config.model requestRouter, nextActor := s.nextActor + 1 }
    if config.model ∈ s.requestRouters.keys then (.returned, s)
    else
      (.returned, { s with
        started := s.started ++ [(config.model, requestRouter)]
        registeredModels := s.registeredModels.set config.model config
        requestRouters := s.requestRouters.set config.model requestRouter })

/-- `update`. It is suspended while the router is updated, which does not raise, and does nothing afterwards. -/
def update (modelName : String) (autoScalingConfig : Option Nat) : Outcome × State :=
  if modelName ∉ s.registeredModels.keys ∨ modelName ∉ s.requestRouters.keys then (.notRegistered, s)
  else
    match autoScalingConfig with
    | none => (.returned, s)
    | some autoScalingConfig =>
      match s.registeredModels.get? modelName with
      | none => (.keyError, s)
      | some config =>
        let s := { s with registeredModels :=
          s.registeredModels.set modelName { config with autoScalingConfig := autoScalingConfig } }
        match s.requestRouters.get? modelName with
        | none => (.keyError, s)
        | some _ => (.suspended, s)

def delete (modelName : String) : Outcome × State :=
  match s.requestRouters.get? modelName with
  | none => (.returned, s)
  | some router =>
    let s := { s with requestRouters := s.requestRouters.erase modelName, started := s.started.erase (modelName, router) }
    match s.registeredModels.get? modelName with
    | none => (.keyError, s)
    | some _ => (.returned, { s with registeredModels := s.registeredModels.erase modelName })

/-- `shutdown`. There is no `_delete`, so that the first task that is made of a model raises. -/
def shutdown : Outcome × State :=
  if s.running = false then (.notRunning, s)
  else
    let s := { s with running := false }
    match s.requestRouters.keys with
    | [] => (.returned, s)
    | _ :: _ => (.attributeError, s)

/-- A step, if it can be made, with what it comes to. -/
def perform : Step → Option (Outcome × State)
  | .register config => some (s.register config)
  | .resume index stored =>
    match s.registering[index]? with
    | none => none
    | some config => some ({ s with registering := s.registering.eraseIdx index }.finishRegister config stored)
  | .update modelName autoScalingConfig => some (s.update modelName autoScalingConfig)
  | .delete modelName => some (s.delete modelName)
  | .shutdown => some s.shutdown
  | .actorEnds name => some (.returned, { s with actors := s.actors.erase name })

def step (c : Step) : Option State := (s.perform c).map Prod.snd

end State

end ServerlessLLM.Serving.Controller
