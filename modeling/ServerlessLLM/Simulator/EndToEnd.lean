import Mathlib.Algebra.GroupWithZero.Nat
import Mathlib.Data.List.Dedup
import Mathlib.Algebra.Order.Ring.Rat
import Mathlib.Data.List.MinMax
import Mathlib.Data.Prod.Lex
import ServerlessLLM.Library.Dict

/-!
# The end-to-end simulator

`OnlineVRAMBackend`, `SLLMBackend`, `choose_gpu` and `simulate` of `simulate_end2end.py`. A cache is an ordered dictionary from
fingerprints to sizes, with a counter of its bytes beside it. Each method returns its result, or an exception, with the state
that it leaves.
-/

namespace ServerlessLLM.Simulator.EndToEnd

open Function

structure TensorGroup where
  fingerprint : String
  size : Nat
deriving DecidableEq

structure ModelInfo where
  tensorGroups : List TensorGroup

def ModelInfo.totalBytes (m : ModelInfo) : Nat := (m.tensorGroups.map TensorGroup.size).sum

structure LoadEstimate where
  gpuId : Nat
  cachedBytes : Nat
  toLoadBytes : ℤ
  totalModelBytes : Nat
  fullModelHit : Bool
  loadMs : ℚ

/-- What a backend is created with. Groups of one fingerprint have one size. -/
structure Backend where
  models : Dict Nat ModelInfo
  numGpus : Nat
  gpuCapacityBytes : Nat
  loadBandwidthGbps : ℚ
  loadOverheadMs : ℚ
  /-- `keep_alive_ms` of `SLLMBackend`; `OnlineVRAMBackend` has none. -/
  keepAliveMs : Option ℚ
  size_eq : ∀ e ∈ models.entries, ∀ e' ∈ models.entries, ∀ group ∈ e.2.tensorGroups, ∀ group' ∈ e'.2.tensorGroups,
    group.fingerprint = group'.fingerprint → group.size = group'.size

/-- The exceptions. -/
inductive BackendError where
  | keyError
  | indexError
  /-- `Model … needs … bytes, larger than GPU capacity …` -/
  | largerThanCapacity (modelId missingBytes gpuCapacityBytes : Nat)
  /-- `Cannot fit model … on GPU …` -/
  | cannotFit (modelId gpuId : Nat)
deriving DecidableEq

/-- What changes. -/
structure Caches where
  gpuCaches : Nat → Dict String Nat
  gpuUsedBytes : Nat → ℤ
  lastModelFinish : Dict (Nat × Nat) ℚ

namespace Caches

/-- The caches of a new backend. -/
def init : Caches := ⟨fun _ => .empty, fun _ => 0, .empty⟩

variable (b : Backend) (s : Caches)

def put (gpuId : Nat) (cache : Dict String Nat) (usedBytes : ℤ) : Caches :=
  { s with gpuCaches := update s.gpuCaches gpuId cache, gpuUsedBytes := update s.gpuUsedBytes gpuId usedBytes }

end Caches

def missingGroups (cache : Dict String Nat) (groups : List TensorGroup) : List TensorGroup :=
  groups.filter fun group => group.fingerprint ∉ cache.keys

/-- The cached groups are moved to the end. -/
def touch (cache : Dict String Nat) : List TensorGroup → Dict String Nat
  | [] => cache
  | group :: groups =>
    match cache.get? group.fingerprint with
    | none => touch cache groups
    | some size => touch ((cache.erase group.fingerprint).set group.fingerprint size) groups

/-- The loop that evicts. An entry is popped each time, so there are at most as many rounds as entries. -/
def makeRoom (capacityBytes missingBytes : Nat) (protectedFingerprints : List String) :
    Nat → Dict String Nat → ℤ → Bool × Dict String Nat × ℤ
  | rounds, cache, usedBytes =>
    if usedBytes + missingBytes ≤ capacityBytes then (true, cache, usedBytes)
    else
      match cache.entries.find? fun e => e.1 ∉ protectedFingerprints, rounds with
      | some e, rounds + 1 => makeRoom capacityBytes missingBytes protectedFingerprints rounds
          (cache.erase e.1) (usedBytes - e.2)
      | _, _ => (false, cache, usedBytes)

def insertGroups (cache : Dict String Nat) (usedBytes : ℤ) : List TensorGroup → Dict String Nat × ℤ
  | [] => (cache, usedBytes)
  | group :: groups => insertGroups (cache.set group.fingerprint group.size) (usedBytes + group.size) groups

namespace Backend

variable (b : Backend) (s : Caches)

def loadMs (toLoadBytes : ℤ) : ℚ :=
  if toLoadBytes ≤ 0 then 0
  else if b.loadBandwidthGbps ≤ 0 then 0
  else toLoadBytes / (b.loadBandwidthGbps * 1000 * 1000 * 1000) * 1000 + b.loadOverheadMs

/-- `SLLMBackend` with a negative `keep_alive_ms` caches nothing. -/
def KeepsNothing : Prop := ∃ keepAliveMs ∈ b.keepAliveMs, keepAliveMs < 0

instance : Decidable b.KeepsNothing :=
  match h : b.keepAliveMs with
  | none => .isFalse fun ⟨k, hk, _⟩ => by rw [h] at hk; cases hk
  | some k => decidable_of_iff (k < 0)
      ⟨fun hlt => ⟨k, h ▸ rfl, hlt⟩, fun ⟨k', hk', hlt⟩ => by rw [h] at hk'; cases hk'; exact hlt⟩

def estimate (modelId gpuId : Nat) : Except BackendError LoadEstimate :=
  match b.models.get? modelId with
  | none => .error .keyError
  | some model =>
    if b.KeepsNothing then .ok ⟨gpuId, 0, model.totalBytes, model.totalBytes, false, b.loadMs model.totalBytes⟩
    else if b.numGpus ≤ gpuId then .error .indexError
    else
      let cachedBytes := ((model.tensorGroups.filter fun group => group.fingerprint ∈
        (s.gpuCaches gpuId).keys).map TensorGroup.size).sum
      let toLoadBytes : ℤ := model.totalBytes - cachedBytes
      .ok ⟨gpuId, cachedBytes, toLoadBytes, model.totalBytes, toLoadBytes = 0, b.loadMs toLoadBytes⟩

def commit (modelId gpuId : Nat) : Except BackendError LoadEstimate × Caches :=
  match b.estimate s modelId gpuId, b.models.get? modelId with
  | .error e, _ => (.error e, s)
  | .ok _, none => (.error .keyError, s)
  | .ok estimate, some model =>
    if b.KeepsNothing then (.ok estimate, s)
    else
      let cache := touch (s.gpuCaches gpuId) model.tensorGroups
      let missing := missingGroups cache model.tensorGroups
      let missingBytes := (missing.map TensorGroup.size).sum
      if b.gpuCapacityBytes < missingBytes then
        (.error (.largerThanCapacity modelId missingBytes b.gpuCapacityBytes), s.put gpuId cache (s.gpuUsedBytes gpuId))
      else
        let r := makeRoom b.gpuCapacityBytes missingBytes
          (model.tensorGroups.map TensorGroup.fingerprint) cache.entries.length cache
          (s.gpuUsedBytes gpuId)
        if r.1 then
          let r := insertGroups r.2.1 r.2.2 missing
          (.ok estimate, s.put gpuId r.1 r.2)
        else (.error (.cannotFit modelId gpuId), s.put gpuId r.2.1 r.2.2)

/-- The loop of `expire` over the models that have finished. -/
def expireFrom (keepAliveMs nowMs : ℚ) : List ((Nat × Nat) × ℚ) → Caches → Option BackendError × Caches
  | [], s => (none, s)
  | ((gpuId, modelId), finishMs) :: rest, s =>
    if nowMs ≤ finishMs + keepAliveMs then expireFrom keepAliveMs nowMs rest s
    else
      match b.models.get? modelId with
      | none => (some .keyError, s)
      | some model =>
        match model.tensorGroups with
        | [] => (some .indexError, s)
        | group :: _ =>
          if b.numGpus ≤ gpuId then (some .indexError, s)
          else
            let s := match (s.gpuCaches gpuId).get? group.fingerprint with
              | none => s
              | some size => s.put gpuId ((s.gpuCaches gpuId).erase group.fingerprint) (s.gpuUsedBytes gpuId - size)
            expireFrom keepAliveMs nowMs rest { s with lastModelFinish := s.lastModelFinish.erase (gpuId, modelId) }

def expire (nowMs : ℚ) : Option BackendError × Caches :=
  match b.keepAliveMs with
  | none => (none, s)
  | some keepAliveMs => if keepAliveMs < 0 then (none, s) else b.expireFrom keepAliveMs nowMs s.lastModelFinish.entries s

/-- `mark_finish`, which only `SLLMBackend` has. -/
def markFinish (modelId gpuId : Nat) (finishMs : ℚ) : Caches :=
  match b.keepAliveMs with
  | none => s
  | some _ => { s with lastModelFinish := s.lastModelFinish.set (gpuId, modelId) finishMs }

end Backend

/-! ## Runs -/

inductive Call where
  | expire (nowMs : ℚ)
  | estimate (modelId gpuId : Nat)
  | commit (modelId gpuId : Nat)
  | markFinish (modelId gpuId : Nat) (finishMs : ℚ)

/-- The caches after a call, whether it raises or not. -/
def Backend.step (b : Backend) (s : Caches) : Call → Option Caches
  | .expire nowMs => some (b.expire s nowMs).2
  | .estimate _ _ => some s
  | .commit modelId gpuId => some (b.commit s modelId gpuId).2
  | .markFinish modelId gpuId finishMs => some (b.markFinish s modelId gpuId finishMs)

/-! ## The event loop -/

structure Request where
  reqId : Nat
  arrivalMs : ℚ
  modelId : Nat
  inputTokens : Nat
  outputTokens : Nat

inductive SchedulerPolicy where
  | onlineTtft
  | locality
  | random
deriving DecidableEq

inductive OccupyUntil where
  | load
  | ttft
  | finish
deriving DecidableEq

/-- What `simulate` is called with. -/
structure Setup where
  engineOverheadMs : ℚ
  prefillMsPerToken : ℚ
  decodeMsPerToken : ℚ
  baseSloMs : ℚ
  occupyUntil : OccupyUntil
  schedulerPolicy : SchedulerPolicy

/-- `SimulatedRequest`, with the estimate in place of its fields. -/
structure SimulatedRequest where
  reqId : Nat
  arrivalMs : ℚ
  modelId : Nat
  gpuId : Nat
  queueMs : ℚ
  prefillMs : ℚ
  decodeMs : ℚ
  ttftMs : ℚ
  e2eMs : ℚ
  baseSloMs : ℚ
  committed : LoadEstimate

/-- The caches, and when each GPU can load and infer again. -/
structure Simulation where
  caches : Caches
  loadAvailable : Nat → ℚ
  inferAvailable : Nat → ℚ

namespace Simulation

/-- The state before the first request. -/
def init : Simulation := ⟨.init, fun _ => 0, fun _ => 0⟩

variable (setup : Setup) (s : Simulation) (request : Request) (estimate : LoadEstimate)

def prefillMs : ℚ := setup.engineOverheadMs + request.inputTokens * setup.prefillMsPerToken

def decodeMs : ℚ := request.outputTokens * setup.decodeMsPerToken

def loadEnd : ℚ := max request.arrivalMs (s.loadAvailable estimate.gpuId) + estimate.loadMs

def prefillStart : ℚ := max (s.loadEnd request estimate) (s.inferAvailable estimate.gpuId)

def ttftTime : ℚ := s.prefillStart request estimate + prefillMs setup request

def finishTime : ℚ := s.ttftTime setup request estimate + decodeMs setup request

/-- `choose_gpu`. `draw` is the number that `rng` draws. -/
def chooseGpu (estimates : List LoadEstimate) (draw : Nat) : Option LoadEstimate :=
  letI : PartialOrder ℤ := Int.instLinearOrder.toPartialOrder
  match setup.schedulerPolicy with
  | .random => estimates[draw]?
  | .locality => estimates.argmin fun est =>
      toLex (est.toLoadBytes, toLex (s.loadEnd request est, toLex (s.inferAvailable est.gpuId, est.gpuId)))
  | .onlineTtft => estimates.argmin fun est => toLex (s.ttftTime setup request est, toLex (est.toLoadBytes, est.gpuId))

def row : SimulatedRequest where
  reqId := request.reqId
  arrivalMs := request.arrivalMs
  modelId := request.modelId
  gpuId := estimate.gpuId
  queueMs := max 0 (s.prefillStart request estimate - request.arrivalMs - estimate.loadMs)
  prefillMs := prefillMs setup request
  decodeMs := decodeMs setup request
  ttftMs := s.ttftTime setup request estimate - request.arrivalMs
  e2eMs := s.finishTime setup request estimate - request.arrivalMs
  baseSloMs := if 0 < setup.baseSloMs then setup.baseSloMs else prefillMs setup request
  committed := estimate

/-- The state after a request, with the caches that the backend has then. -/
def advance (caches : Caches) : Simulation where
  caches := caches
  loadAvailable := update s.loadAvailable estimate.gpuId (s.loadEnd request estimate)
  inferAvailable := match setup.occupyUntil with
    | .load => s.inferAvailable
    | .ttft => update s.inferAvailable estimate.gpuId (s.ttftTime setup request estimate)
    | .finish => update s.inferAvailable estimate.gpuId (s.finishTime setup request estimate)

variable (b : Backend)

/-- The estimates for a request, and the caches after `expire`; nothing when one raises. -/
def estimates : Option (List LoadEstimate) :=
  let r := b.expire s.caches request.arrivalMs
  if r.1.isSome then none else (List.range b.numGpus).mapM fun gpuId => (b.estimate r.2 request.modelId gpuId).toOption

/-- An iteration of the loop of `simulate`; nothing when it raises. -/
def serve (e : Request × Nat) : Option (SimulatedRequest × Simulation) :=
  (s.estimates e.1 b).bind fun ests => (s.chooseGpu setup e.1 ests e.2).bind fun chosen =>
    let r := b.commit (b.expire s.caches e.1.arrivalMs).2 e.1.modelId chosen.gpuId
    r.1.toOption.map fun committed => (s.row setup e.1 committed,
      s.advance setup e.1 committed (b.markFinish r.2 e.1.modelId chosen.gpuId (s.finishTime setup e.1 committed)))

/-- The rows, and the state at the end. A request comes with the number that is drawn for it. -/
def simulate : Simulation → List (Request × Nat) → Option (List SimulatedRequest × Simulation)
  | s, [] => some ([], s)
  | s, e :: rest => (s.serve setup b e).bind fun r => (simulate r.2 rest).map fun rs => (r.1 :: rs.1, rs.2)

end Simulation

end ServerlessLLM.Simulator.EndToEnd
