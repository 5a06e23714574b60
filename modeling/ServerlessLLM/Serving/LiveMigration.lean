import Mathlib.Data.List.Basic

/-!
# A request that is migrated while it generates

`MigrationRouter.inference` over `TransformersBackend.generate`, `resume_kv_cache` and `resume_generate`, with the loop of
`execute_migration_plan` that brings the target up to date. A step of the source is a call of its streamer, a step of the
migration is an iteration of its loop or the `shutdown` of the source. The tokenizer and `model.generate` are not part of the
repository: the tokens of a prompt are given, and so is what the model appends, at most `max_new_tokens` tokens. There is one
request at a time, because the streamer does not support more. The `AttributeError` of a call after `shutdown` has deleted
`self.model` is left out.
-/

namespace ServerlessLLM.Serving.LiveMigration

abbrev Token := Nat

/-- What the backends read of a request. The prompt is what the chat template makes of the messages. -/
structure RequestData where
  model : Option String
  prompt : String
  maxTokens : Option Nat
deriving DecidableEq

/-- `request_data.get("max_tokens", 10)`. -/
def RequestData.budget (request : RequestData) : Nat := request.maxTokens.getD 10

inductive FinishReason where
  | stop
  | length
deriving DecidableEq

/-- The response of a backend, with the outputs of which it has the text. -/
structure Response where
  outputs : List Token
  model : String
  finishReason : FinishReason
  promptTokens : Nat
  completionTokens : Nat
  totalTokens : Nat
deriving DecidableEq

/-- What `inference` ends with. -/
inductive Result where
  | response (r : Response)
  /-- `Missing prompt in request data`. -/
  | missingPrompt
  /-- `current_tokens` of the target is not set. -/
  | attributeError
deriving DecidableEq

/-- The part of `generate` and `resume_generate` after `model.generate`. -/
def respond (tokenize : String → List Token) (request : RequestData) (outputs : List Token) : Response :=
  let promptTokens := (tokenize request.prompt).length
  let completionTokens := outputs.length - promptTokens
  { outputs := outputs
    model := request.model.getD "dummy-model"
    finishReason := if completionTokens < request.budget then .stop else .length
    promptTokens := promptTokens
    completionTokens := completionTokens
    totalTokens := outputs.length }

/-- `generate` of the source. -/
inductive Source where
  /-- The streamer has nothing yet. -/
  | begun
  /-- The streamer has these tokens. -/
  | generating (intermediate : List Token)
  /-- A `DeletingException` came out of the streamer. -/
  | preempted (currentOutput : List Token) (completedTokens : Nat)
  | returned (result : Result)
deriving DecidableEq

/-- `execute_migration_plan` from its loop on. -/
inductive Migration where
  /-- With `n_previous_tokens`. -/
  | looping (nPreviousTokens : Nat)
  /-- The loop has ended. -/
  | migrated
  /-- The target has taken the place of the source, and the source is told to shut down. -/
  | shutdown
deriving DecidableEq

/-- The state of a request and its migration. `currentTokens` is the attribute of the target, once it is set; `rounds` counts
the calls of `resume_kv_cache`. -/
structure State where
  source : Source
  migration : Migration
  currentTokens : Option (List Token)
  rounds : Nat
deriving DecidableEq

inductive Step where
  /-- `model.generate` of the source gives the prompt to the streamer. -/
  | putPrompt
  /-- It gives the next token to the streamer. -/
  | put (value : Token)
  /-- It returns. -/
  | finish
  /-- An iteration of the migration, with what `resume_kv_cache` would append. -/
  | migrate (appended : List Token)
  /-- The source is told to shut down. -/
  | shutdown

namespace State

variable (tokenize : String → List Token) (request : RequestData) (migrationDelta : Nat) (s : State)

/-- The request has come to the source; the target has an initialized backend. Without a prompt `generate` returns at once. -/
def init : State := ⟨if request.prompt = "" then .returned .missingPrompt else .begun, .looping 0, none, 0⟩

/-- The end of `put`: a source that is deleting raises an exception, which `generate` turns into a result. -/
def putEnd (intermediate : List Token) : State :=
  { s with
      source := if s.migration = .shutdown then .preempted intermediate (intermediate.length - (tokenize request.prompt).length)
      else .generating intermediate }

/-- `get_current_tokens` of the source: nothing when it is not running, or when the streamer has nothing. -/
def getCurrentTokens : Option (List Token) :=
  if s.migration = .shutdown then none
  else
    match s.source with
    | .generating intermediate => some intermediate
    | _ => none

def migrate (nPreviousTokens : Nat) (appended : List Token) : State :=
  match s.getCurrentTokens with
  | none => { s with migration := .migrated }
  | some current =>
    if current.length - nPreviousTokens ≤ migrationDelta then { s with migration := .migrated }
    else
      -- `resume_kv_cache` keeps the sequences that the model returns
      { s with migration := .looping current.length, currentTokens := some (current ++ appended), rounds := s.rounds + 1 }

/-- A step; nothing when it is not due. The model appends no more than it may. -/
def step (s : State) : Step → Option State
  | .putPrompt =>
    match s.source with
    | .begun => some (s.putEnd tokenize request (tokenize request.prompt))
    | _ => none
  | .put value =>
    match s.source with
    | .generating intermediate =>
      if intermediate.length < (tokenize request.prompt).length + request.budget then
        some (s.putEnd tokenize request (intermediate ++ [value]))
      else none
    | _ => none
  | .finish =>
    match s.source with
    | .generating intermediate => some { s with source := .returned (.response (respond tokenize request intermediate)) }
    | _ => none
  | .migrate appended =>
    match s.migration with
    | .looping nPreviousTokens =>
      if appended.length ≤ 1 then some (s.migrate migrationDelta nPreviousTokens appended) else none
    | _ => none
  | .shutdown => if s.migration = .migrated then some { s with migration := .shutdown } else none

/-- The request as the target gets it: the tokens that are completed are taken off `max_tokens`, if it is there. -/
def resumed (completedTokens : Nat) : RequestData :=
  { request with maxTokens := request.maxTokens.map fun n => n - completedTokens }

/-- The tokens that the target starts from, or nothing when it has no `current_tokens`. -/
def resumeFrom (currentOutput : List Token) : Option (List Token) :=
  s.currentTokens.map fun current => if currentOutput.length < current.length then current else currentOutput

/-- `max_new_tokens` of the target. -/
def maxNewTokens : Nat :=
  match s.source with
  | .preempted _ completedTokens => (resumed request completedTokens).budget
  | _ => 0

/-- What `inference` returns once the source has, when the model of the target appends these tokens. -/
def inference (appended : List Token) : Option Result :=
  match s.source with
  | .returned result => some result
  | .preempted currentOutput completedTokens =>
    match s.resumeFrom currentOutput with
    | none => some .attributeError
    | some start => some (.response (respond tokenize (resumed request completedTokens) (start ++ appended)))
  | _ => none

end State

end ServerlessLLM.Serving.LiveMigration
