import ServerlessLLM.Serving.LocalStore

/-!
# The registration of models in the stores

`StoreManager.register` of `store_manager.py`, with the local stores of the nodes. A call is one step: the calls are made one at
a time, and what the loading loops and other calls of `load_to_host` do is done between them. What the downloads and the clients
do in a call is given with it.
-/

namespace ServerlessLLM.Serving.StoreManager

open LocalStore

/-- A configuration of a model, as far as `register` uses it for more than the downloads. -/
structure ModelConfig where
  model : String
  backend : Option String
  pretrainedModelNameOrPath : Option String
  hfModelClass : Option String
  /-- One, if `backend_config` has none. -/
  tensorParallelSize : Int
  /-- `memory_pool` of `placement_config`; an empty list when there is none. -/
  memoryPool : List String

structure Workers where
  nodes : List String
  nodup : nodes.Nodup

structure Server where
  cfg : Config
  state : State

/-- What happens in a call on a node. -/
structure Events where
  /-- The path of the model exists. -/
  modelExists : Bool
  /-- The download returns, and does not raise. -/
  downloads : Bool
  /-- The size that the client reports for a path, if it does not raise. -/
  register : String → Option Int
  /-- The time. -/
  now : ℚ

/-- The exceptions. -/
inductive PythonError where
  /-- There are no worker nodes. -/
  | assertionError
  /-- There is no store to take the chunk size from. -/
  | valueError
  | keyError
  /-- `model_size` is not bound. -/
  | unboundLocalError
  /-- What a download or a client raises. -/
  | failed
deriving DecidableEq

/-- How a call ends. -/
inductive Outcome where
  | rejected
  | raised (e : PythonError)
  | completed
deriving DecidableEq

/-- What comes of a node before the model is registered there: the loop breaks off, an exception, or the backend from there on.
-/
inductive Prepared where
  | stops
  | raises
  | goesOn (backend : String)
deriving DecidableEq

/-- The manager with its stores. A size is `none` where the source has `None`. -/
structure State where
  modelInfo : Dict String (Option Int)
  modelStorageInfo : Dict String (Dict String Bool)
  localServers : Dict String Server

inductive Step where
  | register (config : ModelConfig) (events : String → Events)
  | loadToHost (node modelName : String) (now : ℚ)
  | loadingLoop (node : String) (ret : Bool) (now : ℚ)

namespace Server

/-- A store for a new node, with the chunk size and the hardware of another. -/
def new (first : Server) : Server :=
  let cfg : Config := ⟨1, first.cfg.chunkSize, first.cfg.diskBandwidth, first.cfg.diskBandwidth_pos⟩
  ⟨cfg, .init cfg⟩

variable (server : Server)

/-- The paths that the client registers. -/
def paths (modelName backend : String) (tensorParallelSize : Int) : List String :=
  let modelPath := getModelPath modelName backend
  if backend = "transformers" then [modelPath]
  else (List.range tensorParallelSize.toNat).map fun rank => pathJoin modelPath ("rank_" ++ toString rank)

/-- `register_model`, with what it returns: nothing for a model that the store knows. -/
def registerModel (modelName backend : String) (tensorParallelSize : Int) (register : String → Option Int) :
    Option (Server × Option Int) :=
  if (server.state.diskModels.get? modelName).isSome then some (server, none)
  else if ∀ path ∈ paths modelName backend tensorParallelSize, (register path).isSome then
    let sizes := fun path => (register path).getD 0
    some ({ server with state := server.state.registerModel modelName backend tensorParallelSize sizes },
      State.modelSize (getModelPath modelName backend) backend tensorParallelSize sizes)
  else none

end Server

/-- The part of the loop before the model is registered on a node. -/
def prepare (config : ModelConfig) (events : Events) (backend : String) : Prepared :=
  if backend = "transformers" then
    match config.hfModelClass with
    | none => .stops
    | some _ => if events.downloads then .goesOn backend else .raises
  else if backend = "vllm" ∨ backend = "criu" ∨ backend = "mock" then
    if events.modelExists ∨ events.downloads then .goesOn "vllm" else .raises
  else .stops

/-- The stores after the loop that makes those that are missing, or nothing when it raises. It raises at the first node only,
before it has made any. -/
def connect : List String → Dict String Server → Option (Dict String Server)
  | [], localServers => some localServers
  | node :: nodes, localServers =>
    if node ∈ localServers.keys then connect nodes localServers
    else
      match localServers.entries with
      | [] => none
      | (_, first) :: _ => connect nodes (localServers.set node (.new first))

namespace State

/-- A manager with these stores. -/
def init (localServers : Dict String Server) : State := ⟨.empty, .empty, localServers⟩

variable (s : State)

def loadToHost (node : String) (modelName : Option String) (now : ℚ) : State :=
  match s.localServers.get? node, modelName with
  | some server, some modelName =>
    let server := { server with state := server.state.loadToHost server.cfg modelName now }
    { s with localServers := s.localServers.set node server }
  | _, _ => s

/-- The loop over the nodes, from a node on, with `backend` and `model_size` as they are then. -/
def registerNodes (config : ModelConfig) (events : String → Events) :
    List String → String → Option (Option Int) → State → State × Except PythonError (Option (Option Int))
  | [], _, modelSize, s => (s, .ok modelSize)
  | node :: nodes, backend, modelSize, s =>
    match prepare config (events node) backend with
    | .stops => (s, .ok modelSize)
    | .raises => (s, .error .failed)
    | .goesOn backend =>
      match s.localServers.get? node with
      | none => (s, .error .keyError)
      | some localServer =>
        match localServer.registerModel config.model backend config.tensorParallelSize (events node).register with
        | none => (s, .error .failed)
        | some (localServer, modelSize) =>
          let s := { s with
            localServers := s.localServers.set node localServer
            modelStorageInfo := s.modelStorageInfo.modify config.model fun nodes => nodes.set node true }
          let s := if node ∈ config.memoryPool then s.loadToHost node config.pretrainedModelNameOrPath (events node).now else s
          registerNodes config events nodes backend (some modelSize) s

def register (workers : Workers) (config : ModelConfig) (events : String → Events) : State × Outcome :=
  match config.backend with
  | none => (s, .rejected)
  | some backend =>
    if config.model ∈ s.modelInfo.keys then (s, .completed)
    else
      let s := { s with modelStorageInfo := s.modelStorageInfo.set config.model .empty }
      if workers.nodes = [] then (s, .raised .assertionError)
      else
        match connect workers.nodes s.localServers with
        | none => (s, .raised .valueError)
        | some localServers =>
          let s := { s with localServers := localServers }
          if ∀ node ∈ config.memoryPool, node ∈ workers.nodes then
            match registerNodes config events workers.nodes backend none s with
            | (s, .error e) => (s, .raised e)
            | (s, .ok none) => (s, .raised .unboundLocalError)
            | (s, .ok (some modelSize)) => ({ s with modelInfo := s.modelInfo.set config.model modelSize }, .completed)
          else (s, .rejected)

def step (workers : Workers) (s : State) : Step → Option State
  | .register config events => some (s.register workers config events).1
  | .loadToHost node modelName now => some (s.loadToHost node (some modelName) now)
  | .loadingLoop node ret now =>
    match s.localServers.get? node with
    | none => none
    | some server =>
      if server.state.loader then
        let server := { server with state := server.state.loadingLoop server.cfg ret now }
        some { s with localServers := s.localServers.set node server }
      else none

end State

end ServerlessLLM.Serving.StoreManager
