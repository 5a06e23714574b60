import Mathlib.Algebra.Order.Ring.Rat
import Mathlib.Data.List.Sort
import ServerlessLLM.Library.Dict

/-!
# The local store of a node

`SllmLocalStore` of `store_manager.py`: `register_model`, `load_to_host` and the iterations of `loading_loop`, with
`_lru_eviction`. Only the loop takes an entry out of `io_queue`, and it takes the first one; so it makes no difference that
other coroutines may run after it has looked at this entry and before it has the lock for the eviction.
-/

namespace ServerlessLLM.Serving.LocalStore

/-- What the store is created with. -/
structure Config where
  memPoolSize : Nat
  chunkSize : Nat
  diskBandwidth : ℚ
  diskBandwidth_pos : 0 < diskBandwidth

theorem unit_pos : (0 : ℚ) < 1 := by decide

/-- An entry of `io_queue`. -/
structure IoEntry where
  modelName : String
  estimatedTime : ℚ
deriving DecidableEq

/-- The state of the store. `loader` is false when there is no loading loop, or an exception has ended it. -/
structure State where
  diskModels : Dict String (String × Int)
  queuedModels : Dict String Bool
  pinnedMemoryPool : Dict String ℚ
  pinnedMemoryPoolUsage : Int
  ioQueue : List IoEntry
  loader : Bool

inductive Step where
  /-- `register_model`, with the sizes that the client reports for the paths. -/
  | registerModel (modelName backend : String) (tensorParallelSize : Int) (register : String → Int)
  /-- `load_to_host` at a time. -/
  | loadToHost (modelName : String) (now : ℚ)
  /-- An iteration of `loading_loop`, with what `load_into_cpu` returns and the time afterwards. -/
  | loadingLoop (ret : Bool) (now : ℚ)

/-- A `TypeError`. -/
inductive PythonError where
  | typeError
deriving DecidableEq

/-- `os.path.join` of two parts. -/
def pathJoin (path part : String) : String :=
  if part.toList.head? = some '/' then part
  else if path.toList = [] ∨ path.toList.getLast? = some '/' then path ++ part
  else path ++ "/" ++ part

def getModelPath (modelName backend : String) : String := pathJoin backend modelName

/-- `self.disk_models[model_name] + n`: an entry of `disk_models` is a tuple, and has no sum with a number. -/
def tuplePlus (_entry : String × Int) (_n : Int) : Except PythonError Int := .error .typeError

namespace Config

variable (cfg : Config)

def pinnedMemoryPoolChunks : Nat := if cfg.chunkSize = 0 then 0 else cfg.memPoolSize / cfg.chunkSize

def requiredChunks (modelSize : Int) : Int := (modelSize + cfg.chunkSize - 1) / cfg.chunkSize

end Config

namespace State

/-- A new store. -/
def init (cfg : Config) : State := ⟨.empty, .empty, .empty, 0, [], cfg.pinnedMemoryPoolChunks > 0⟩

variable (cfg : Config) (s : State)

/-- The size that the client reports; nothing for another backend, where `model_size` is not bound. -/
def modelSize (modelPath backend : String) (tensorParallelSize : Int) (register : String → Int) : Option Int :=
  if backend = "transformers" then some (register modelPath)
  else if backend = "vllm" ∨ backend = "criu" then
    some ((List.range tensorParallelSize.toNat).map fun rank => register (pathJoin modelPath ("rank_" ++ toString rank))).sum
  else none

def registerModel (modelName backend : String) (tensorParallelSize : Int) (register : String → Int) : State :=
  if (s.diskModels.get? modelName).isSome then s
  else
    let modelPath := getModelPath modelName backend
    match modelSize modelPath backend tensorParallelSize register with
    | none => s
    | some size => { s with diskModels := s.diskModels.set modelName (modelPath, size) }

def loadToHost (modelName : String) (now : ℚ) : State :=
  match s.diskModels.get? modelName with
  | none => s
  | some (_, size) =>
    if (s.pinnedMemoryPool.get? modelName).isSome then s
    else if (s.queuedModels.get? modelName).isSome then s
    else
      let startTime := match s.ioQueue.getLast? with
        | none => now
        | some e => max e.estimatedTime now
      { s with
        ioQueue := s.ioQueue ++ [⟨modelName, startTime + size / cfg.diskBandwidth⟩]
        queuedModels := s.queuedModels.set modelName true }

def sortedModels : List (String × ℚ) := s.pinnedMemoryPool.entries.insertionSort fun x y => x.2 ≤ y.2

/-- The loop of `_lru_eviction` over what is left of `sorted_models`. -/
def evict (requiredChunks : Int) : List (String × ℚ) → State → State × Except PythonError Unit
  | [], s => (s, .ok ())
  | (modelName, _) :: sortedModels, s =>
    if s.pinnedMemoryPoolUsage + requiredChunks > cfg.pinnedMemoryPoolChunks then
      if (s.queuedModels.get? modelName).isSome then evict requiredChunks sortedModels s
      else
        let entry := (s.diskModels.get? modelName).getD ("", 0)
        let s := { s with pinnedMemoryPool := s.pinnedMemoryPool.erase modelName }
        match tuplePlus entry cfg.pinnedMemoryPoolChunks with
        | .error e => (s, .error e)
        | .ok n =>
          let unloadedChunks := (n - 1) / cfg.pinnedMemoryPoolChunks
          evict requiredChunks sortedModels { s with pinnedMemoryPoolUsage := s.pinnedMemoryPoolUsage - unloadedChunks }
    else (s, .ok ())

def lruEviction (modelSize : Int) : State × Except PythonError Bool :=
  let r := evict cfg (cfg.requiredChunks modelSize) s.sortedModels s
  (r.1, r.2.map fun _ => r.1.pinnedMemoryPoolUsage + cfg.requiredChunks modelSize ≤ cfg.pinnedMemoryPoolChunks)

/-- An iteration of `loading_loop`. -/
def loadingLoop (ret : Bool) (now : ℚ) : State :=
  match s.ioQueue with
  | [] => s
  | e :: _ =>
    match s.diskModels.get? e.modelName with
    | none => { s with loader := false }
    | some (_, size) =>
      match s.lruEviction cfg size with
      | (s, .error _) => { s with loader := false }
      | (s, .ok false) => s
      | (s, .ok true) =>
        let s := { s with ioQueue := s.ioQueue.tail, queuedModels := s.queuedModels.erase e.modelName }
        if ret then { s with pinnedMemoryPool := s.pinnedMemoryPool.set e.modelName now } else s

def step : Step → Option State
  | .registerModel modelName backend tensorParallelSize register =>
    some (s.registerModel modelName backend tensorParallelSize register)
  | .loadToHost modelName now => some (s.loadToHost cfg modelName now)
  | .loadingLoop ret now => if s.loader then some (s.loadingLoop cfg ret now) else none

def run (steps : List Step) : Option State := steps.foldlM (State.step cfg) s

end State

end ServerlessLLM.Serving.LocalStore
