import ServerlessLLM.Library.Dict

/-!
# The vLLM backend

`VllmBackend.generate` and `stop` of `vllm_backend.py`, with the `LLMEngineStatusDict` of the requests. A step is what a
coroutine does between two points at which it waits: for an output of the engine, for `gather`, or for a second in the loop of
`stop`. The locks are never held over such a point. The engine is not part of the repository: its outputs are of any type, it
has at least one output for a request, and then its stream may end.
-/

namespace ServerlessLLM.Serving.VllmBackend

inductive BackendStatus where
  | uninitialized
  | running
  | stopping
  | deleting
deriving DecidableEq

def BackendStatus.value : BackendStatus → Nat
  | .uninitialized => 1
  | .running => 2
  | .stopping => 3
  | .deleting => 4

/-- A message of a request; either part may be missing. -/
structure Message where
  role : Option String
  content : Option String

/-- What `generate` reads of its request, besides the sampling parameters. -/
structure RequestData where
  model : Option String
  messages : List Message
  prompts : List String
  requestId : Option String

namespace RequestData

variable (request : RequestData)

/-- `system_message`: the content of the first system message, if it has one. -/
def systemContent : String :=
  ((request.messages.find? fun m => m.role = some "system").bind Message.content).getD "You are a helpful assistant."

def userPrompts : List String :=
  let contents := (request.messages.filter fun m => m.role = some "user").filterMap Message.content
  if contents = [] then request.prompts else contents

def buildPrompts : List String := request.userPrompts.map fun prompt => "system: " ++ request.systemContent ++ "\n" ++
    "user: " ++ prompt

/-- The id of the request for all of its prompts, or a new one for each of them. -/
def requestIds (uuid : Nat → String) : List String :=
  (List.range request.buildPrompts.length).map fun i => request.requestId.getD ("chatcmpl-" ++ uuid i)

end RequestData

/-- How far `process_prompt` is. -/
inductive Task (ω : Type) where
  | waiting
  | streaming (finalOutput : ω)
  | done (finalOutput : ω)
  /-- `delete_request` has raised a `KeyError`. -/
  | failed

namespace Task

variable {ω : Type}

/-- The stream of the engine has not ended. -/
def isOpen : Task ω → Bool
  | waiting => true
  | streaming _ => true
  | done _ => false
  | failed => false

/-- There was an output, and the stream has not ended. -/
def isStreaming : Task ω → Bool
  | streaming _ => true
  | _ => false

/-- An exception has ended the task. -/
def isFailed : Task ω → Bool
  | failed => true
  | _ => false

def result? : Task ω → Option ω
  | done finalOutput => some finalOutput
  | _ => none

end Task

/-- What `generate` returns when all prompts are done. -/
structure Response (ω : Type) where
  data : List ω
  model : String
  totalPrompts : Nat
  successfulPrompts : Nat

/-- How a call of `generate` ends: with its results, or with the `KeyError` of a prompt. -/
inductive Answer (ω : Type) where
  | response (r : Response ω)
  | keyError

/-- A call that has passed the check of the status, with the ids of its prompts. -/
structure Call (ω : Type) where
  modelName : String
  tasks : List (String × Task ω)
  answer : Option (Answer ω)

/-- The call has returned its results. -/
def Call.responded {ω : Type} (c : Call ω) : Bool :=
  match c.answer with
  | some (.response _) => true
  | _ => false

inductive Engine where
  | none
  | up
  | deleted
deriving DecidableEq

/-- How far `stop` is. -/
inductive Stopper where
  | idle
  | sleeping
  | ended
deriving DecidableEq

structure State (ω : Type) where
  status : BackendStatus
  engine : Engine
  requestTrace : Dict String ω
  calls : List (Call ω)
  stopper : Stopper

inductive Step (ω : Type) where
  | initBackend
  /-- `generate` up to the first outputs, with the uuids that are drawn. -/
  | generate (request : Option RequestData) (uuid : Nat → String)
  /-- An output for a prompt of a call. -/
  | output (call prompt : Nat) (responseOutput : ω)
  /-- The outputs for a prompt of a call have ended. -/
  | finish (call prompt : Nat)
  /-- `gather` of a call has ended. -/
  | gathered (call : Nat)
  | stop
  /-- `stop` looks again after a second. -/
  | poll

namespace State

variable {ω : Type} (s : State ω)

/-- A new backend. -/
def init : State ω := ⟨.uninitialized, .none, .empty, [], .idle⟩

def task? (call prompt : Nat) : Option (String × Task ω) := s.calls[call]?.bind fun c => c.tasks[prompt]?

def setTask (call prompt : Nat) (t : String × Task ω) : State ω :=
  { s with calls := s.calls.modify call fun c => { c with tasks := c.tasks.set prompt t } }

def initBackend : State ω :=
  if s.status = .uninitialized then { s with status := .running, engine := .up } else s

/-- `generate` until its prompts wait for the engine. A call that is not accepted returns an error and leaves no trace. -/
def generate (request : Option RequestData) (uuid : Nat → String) : State ω :=
  if s.status ≠ .running then s
  else
    match request with
    | none => s
    | some request =>
      { s with calls := s.calls ++
          [⟨request.model.getD "vllm-model", (request.requestIds uuid).map fun id => (id, .waiting), none⟩] }

/-- `process_prompt` with the next output. -/
def output (call prompt : Nat) (responseOutput : ω) : Option (State ω) :=
  match s.task? call prompt with
  | some (id, t) =>
    if t.isOpen then
      some { s.setTask call prompt (id, .streaming responseOutput) with requestTrace := s.requestTrace.set id responseOutput }
    else none
  | none => none

/-- `process_prompt` after the last output. -/
def finish (traceDebug : Bool) (call prompt : Nat) : Option (State ω) :=
  match s.task? call prompt with
  | some (id, .streaming finalOutput) =>
    if traceDebug then some (s.setTask call prompt (id, .done finalOutput))
    else if id ∈ s.requestTrace.keys then
      some { s.setTask call prompt (id, .done finalOutput) with requestTrace := s.requestTrace.erase id }
    else some (s.setTask call prompt (id, .failed))
  | _ => none

/-- The end of `gather`: the first exception, or the results of all prompts. -/
def gather? (c : Call ω) : Option (Answer ω) :=
  if c.tasks.any fun t => t.2.isFailed then some .keyError
  else
    let results := c.tasks.filterMap fun t => t.2.result?
    if results.length = c.tasks.length then some (.response ⟨results, c.modelName, c.tasks.length, results.length⟩)
    else none

/-- `generate` after `gather`. -/
def gathered (call : Nat) : Option (State ω) :=
  match s.calls[call]? with
  | some c =>
    match c.answer, gather? c with
    | none, some answer => some { s with calls := s.calls.set call { c with answer := some answer } }
    | _, _ => none
  | none => none

/-- `shutdown`, when no request is in the trace that could be aborted. -/
def shutdown : State ω :=
  if s.status = .deleting then s else { s with status := .deleting, engine := .deleted }

/-- The loop of `stop`: another second, or `shutdown`. -/
def drain : State ω :=
  if s.requestTrace.entries.length > 0 then { s with stopper := .sleeping }
  else { s.shutdown with stopper := .ended }

/-- `stop` up to its first second. -/
def stop : State ω :=
  if s.status.value ≥ BackendStatus.stopping.value then s else { s with status := .stopping }.drain

/-- A step; nothing when it is not due. -/
def step (traceDebug : Bool) (s : State ω) : Step ω → Option (State ω)
  | .initBackend => some s.initBackend
  | .generate request uuid => some (s.generate request uuid)
  | .output call prompt responseOutput => s.output call prompt responseOutput
  | .finish call prompt => s.finish traceDebug call prompt
  | .gathered call => s.gathered call
  | .stop => some s.stop
  | .poll => if s.stopper = .sleeping then some s.drain else none

end State

end ServerlessLLM.Serving.VllmBackend
