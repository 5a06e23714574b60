import Mathlib.Data.Finset.Sort
import Mathlib.Data.NNRat.Lemmas
import ServerlessLLM.Layerweave.Estimator

/-!
# The cache policy of LayerWeave

`LayerWeaveSingleGpuCachePolicy` of `layerweave_cache_policy.py`, over exact rationals: the demands, the candidate
configurations of a model with their values, the knapsack over the inactive models, `estimate_dispatch` and `plan_dispatch`. The
page sets of a configuration (`prefix_cache_pages`) are the controller's own, so they are a part of it here.
-/

namespace ServerlessLLM.Layerweave

/-- The configurations, in the order of `PREFIX_CANDIDATES`. -/
inductive Configuration where
  | zero
  | two
  | four
  | eight
  | sixteen
  | thirtyTwo
  | full
deriving DecidableEq

namespace Configuration

def prefixCandidates : List Configuration := [.zero, .two, .four, .eight, .sixteen, .thirtyTwo, .full]

def text : Configuration → String
  | .zero => "0"
  | .two => "2"
  | .four => "4"
  | .eight => "8"
  | .sixteen => "16"
  | .thirtyTwo => "32"
  | .full => "full"

/-- `int(configuration)`; nothing for `full`. -/
def layers? : Configuration → Option Nat
  | .zero => some 0
  | .two => some 2
  | .four => some 4
  | .eight => some 8
  | .sixteen => some 16
  | .thirtyTwo => some 32
  | .full => none

/-- `_configuration_rank`. -/
def rank : Configuration → Nat
  | .zero => 0
  | .two => 1
  | .four => 2
  | .eight => 3
  | .sixteen => 4
  | .thirtyTwo => 5
  | .full => 7

end Configuration

/-- The pages of a model, as its controller knows them. -/
structure Controller where
  requiredPages : Finset ℕ
  initialPages : Finset ℕ
  layerPages : List (Finset ℕ)
  layerPages_ne : layerPages ≠ []
  prefixCachePages : Configuration → Finset ℕ

def Controller.effectiveConfiguration (c : Controller) (configuration : Configuration) : Configuration :=
  match configuration.layers? with
  | none => .full
  | some n => if n ≥ c.layerPages.length then .full else configuration

inductive PolicyMode where
  | demand
  | nextUse
deriving DecidableEq

/-- What the policy is created with. Every model has a profile. -/
structure Policy where
  controllers : Dict Nat Controller
  profiles : Nat → Profile
  pageSize : Nat
  pageSize_pos : 0 < pageSize
  poolPages : Nat
  decay : ℚ≥0
  uncertaintyMs : ℚ≥0
  policyMode : PolicyMode

/-- The token counts of the batch that is expected next. -/
structure Shape where
  batchSize : Nat
  inputTokens : Nat
  maxInputTokens : Nat
  sumInputTokensSquared : Nat
deriving DecidableEq

structure ModelDemand where
  score : ℚ≥0
  shape : Shape
deriving DecidableEq

/-- A candidate configuration, before the demand is applied. -/
structure BaseCandidate where
  configuration : Configuration
  pages : Finset ℕ
  predictedServiceTtftMs : ℚ
  predictedGainMs : ℚ
deriving DecidableEq

structure Candidate extends BaseCandidate where
  effectiveDemand : ℚ≥0
  expectedValueMs : ℚ
deriving DecidableEq

def BaseCandidate.pageCount (c : BaseCandidate) : Nat := c.pages.card

/-- The pages that one configuration adds to the one before. -/
structure Tier where
  index : Nat
  label : String
  addedPages : Nat
  marginalGainMs : ℚ
  conservativeGainMs : ℚ
  valuePerPage : ℚ

/-- What `_marginal_tiers` returns. A tier is listed with the pages that it adds. -/
structure Marginal where
  candidates : List Candidate
  tiers : List (Finset ℕ × Tier)

/-- `page_metadata.get(page)`: the last tier that adds the page. -/
def Marginal.tier? (m : Marginal) (page : ℕ) : Option Tier := (m.tiers.reverse.find? fun e => page ∈ e.1).map Prod.snd

/-- The exceptions. -/
inductive PolicyError where
  | valueError
  | keyError
  | zeroDivisionError
  /-- A model has no configuration that is not an upgrade. -/
  | noConfiguration (modelId : Nat)
  | infeasible (modelId capacityPages : Nat)
  | notEnoughSoftPages (need soft : Nat)
deriving DecidableEq

structure Request where
  modelId : Nat
  inputTokens : Nat
  outputTokens : Nat
deriving DecidableEq

/-! ## Candidates -/

namespace Policy

variable (policy : Policy)

/-- The stages that load these page sets one after the other. -/
def stages (resident : Finset ℕ) : List (Finset ℕ) → List Stage
  | [] => []
  | required :: rest =>
    let missing := (required \ resident).card
    ⟨missing * policy.pageSize, missing⟩ :: stages (resident ∪ required) rest

def hypotheticalBatch (modelId : Nat) (controller : Controller) (shape : Shape) (retainedPages : Finset ℕ) : Batch :=
  let first := controller.initialPages ∪ controller.layerPages.head controller.layerPages_ne
  let missing := (first \ retainedPages).card
  { modelId := modelId
    batchSize := shape.batchSize
    inputTokens := shape.inputTokens
    maxInputTokens := shape.maxInputTokens
    sumInputTokensSquared := shape.sumInputTokensSquared
    prefetch := true
    phase := "steady"
    pageCount := controller.requiredPages.card
    initial := ⟨missing * policy.pageSize, missing⟩
    layers := policy.stages (retainedPages ∪ first) controller.layerPages.tail }

/-- `estimator.predict` of the hypothetical batch. -/
def predict (modelId : Nat) (controller : Controller) (shape : Shape) (retainedPages : Finset ℕ) : Prediction :=
  (policy.profiles modelId).predict (policy.hypotheticalBatch modelId controller shape retainedPages)

/-- The loop of `_score_candidates` over the configurations that are left. `bestTtft` and `coldTtft` are not set before the
first candidate. -/
def curve (modelId : Nat) (controller : Controller) (shape : Shape) :
    List Configuration → List (Finset ℕ) → Option ℚ → Option ℚ → List BaseCandidate
  | [], _, _, _ => []
  | configuration :: rest, seen, bestTtft, coldTtft =>
    let pages := controller.prefixCachePages configuration
    if pages ∈ seen then curve modelId controller shape rest seen bestTtft coldTtft
    else
      let rawPrediction := (policy.predict modelId controller shape pages).predictedServiceTtftMs
      let prediction := match bestTtft with
        | none => rawPrediction
        | some best => min best rawPrediction
      let cold := coldTtft.getD prediction
      { configuration := controller.effectiveConfiguration configuration
        pages := pages
        predictedServiceTtftMs := prediction
        predictedGainMs := max 0 (cold - prediction) } ::
        curve modelId controller shape rest (pages :: seen) (some prediction) (some cold)

/-- `base_candidates` for a model and a shape. -/
def baseCandidates (key : Nat × Shape) : List BaseCandidate :=
  match policy.controllers.get? key.1 with
  | none => []
  | some controller => policy.curve key.1 controller key.2 Configuration.prefixCandidates [] none none

/-- A tier between two candidates. -/
def tier (tierCount index : Nat) (lower upper : Candidate) : Finset ℕ × Tier :=
  let added := upper.pages \ lower.pages
  let marginalGain := max 0 (lower.predictedServiceTtftMs - upper.predictedServiceTtftMs)
  let conservativeGain := max 0 (marginalGain - policy.uncertaintyMs / tierCount)
  (added, {
    index := index
    label := lower.configuration.text ++ "->" ++ upper.configuration.text
    addedPages := added.card
    marginalGainMs := marginalGain
    conservativeGainMs := conservativeGain
    valuePerPage := if added = ∅ then 0 else upper.effectiveDemand * conservativeGain / added.card })

end Policy

/-! ## The state -/

/-- What changes: the demands, what is pending, the protected configurations, and the curves that were computed. -/
structure State (policy : Policy) where
  demands : Nat → ModelDemand
  pendingCounts : Nat → Nat
  /-- `next_use_positions`, where nothing stands for infinity. -/
  nextUsePositions : Nat → Option Nat
  protectedConfiguration : Nat → Configuration
  curveCache : Dict (Nat × Shape) (List BaseCandidate)
  curveCache_eq : ∀ key candidates, curveCache.get? key = some candidates → candidates = policy.baseCandidates key

namespace State

variable {policy : Policy}

def init (policy : Policy) : State policy where
  demands := fun _ => ⟨0, ⟨1, 1, 1, 1⟩⟩
  pendingCounts := fun _ => 0
  nextUsePositions := fun _ => none
  protectedConfiguration := fun _ => .zero
  curveCache := .empty
  curveCache_eq := by rintro key candidates ⟨⟩

variable (s : State policy)

def decayed : State policy :=
  { s with demands := fun m => { s.demands m with score := (s.demands m).score * policy.decay } }

/-- `observe` of a model that has a controller. -/
def observe (modelId batchSize inputTokens maxInputTokens sumInputTokensSquared : Nat) : State policy :=
  let s := s.decayed
  { s with demands := fun m =>
      if m = modelId then
        { score := (s.demands m).score + 1
          shape := ⟨max 1 batchSize, max 1 inputTokens, max 1 maxInputTokens, max 1 sumInputTokensSquared⟩ }
      else s.demands m }

/-- `observe` of a batch that is dispatched. -/
def observeBatch (activeModelId : Nat) (batch : List Request) : State policy :=
  let tokens := batch.map Request.inputTokens
  s.observe activeModelId batch.length tokens.sum (tokens.foldl max 0) (tokens.map fun n => n * n).sum

/-- `set_pending`. Requests for models without a controller are passed over. -/
def setPending (requests : List Request) : State policy :=
  let ofModel (m : Nat) := m ∈ policy.controllers.keys
  { s with
    pendingCounts := fun m => if ofModel m then (requests.filter fun r => r.modelId = m).length else 0
    nextUsePositions := fun m => if ofModel m then requests.findIdx? fun r => r.modelId = m else none
    demands := fun m =>
      match requests.find? fun r => r.modelId = m with
      | none => s.demands m
      | some r =>
        if ofModel m then
          let inputTokens := max 1 r.inputTokens
          { s.demands m with shape := ⟨1, inputTokens, inputTokens, inputTokens ^ 2⟩ }
        else s.demands m }

/-- The curve of a model for its demand, from the cache or computed and kept there. -/
def candidateCurve (modelId : Nat) : List BaseCandidate × State policy :=
  let key := (modelId, (s.demands modelId).shape)
  match s.curveCache.get? key with
  | some candidates => (candidates, s)
  | none =>
    (policy.baseCandidates key, { s with
      curveCache := s.curveCache.set key (policy.baseCandidates key)
      curveCache_eq := by
        intro key' candidates h
        rw [Dict.get?_set] at h
        split at h
        · rename_i hkey
          rw [hkey, ← Option.some.inj h]
        · exact s.curveCache_eq key' candidates h })

def effectiveDemand (modelId : Nat) : ℚ≥0 := (s.demands modelId).score + s.pendingCounts modelId

def scored (modelId : Nat) (c : BaseCandidate) : Candidate :=
  { c with
    effectiveDemand := s.effectiveDemand modelId
    expectedValueMs := s.effectiveDemand modelId * c.predictedGainMs }

def scoreCandidates (modelId : Nat) : List Candidate × State policy :=
  let r := s.candidateCurve modelId
  (r.1.map (s.scored modelId), r.2)

def marginalTiers (modelId : Nat) : Marginal × State policy :=
  let r := s.scoreCandidates modelId
  let tierCount := max 1 (r.1.length - 1)
  (⟨r.1, ((r.1.zip r.1.tail).zipIdx 1).map fun e => policy.tier tierCount e.2 e.1.1 e.1.2⟩, r.2)

/-- `marginal`: what `_marginal_tiers` returns for each of the models. -/
def marginals : List Nat → State policy → List (Nat × Marginal) × State policy
  | [], s => ([], s)
  | modelId :: rest, s =>
    let r := s.marginalTiers modelId
    let r' := marginals rest r.2
    ((modelId, r.1) :: r'.1, r'.2)

end State

/-- `_pareto_candidates` over candidates that are sorted. -/
def paretoFrom (bestValue : ℚ) : List Candidate → List Candidate
  | [] => []
  | c :: rest =>
    if c.expectedValueMs ≤ bestValue then paretoFrom bestValue rest else c :: paretoFrom c.expectedValueMs rest

/-- The order by `(page_count, -expected_value_ms)`. -/
def Candidate.le (c d : Candidate) : Prop :=
  c.pageCount < d.pageCount ∨ c.pageCount = d.pageCount ∧ -c.expectedValueMs ≤ -d.expectedValueMs

instance : DecidableRel Candidate.le := fun _ _ => inferInstanceAs (Decidable (_ ∨ _ ∧ _))

def paretoCandidates (candidates : List Candidate) : List Candidate := paretoFrom (-1) (candidates.insertionSort Candidate.le)

def State.allowedCandidates {policy : Policy} (s : State policy) (modelId : Nat) (candidates : List Candidate)
    (activeModelId : Nat) :
    Except PolicyError (List Candidate) :=
  let candidates := paretoCandidates candidates
  if modelId = activeModelId then .ok candidates
  else
    let currentRank := (s.protectedConfiguration modelId).rank
    let allowed := candidates.filter fun c => c.configuration.rank ≤ currentRank
    if allowed = [] then .error (.noConfiguration modelId) else .ok allowed

/-! ## The knapsack -/

/-- A state of the knapsack: the value, and the choices for the models so far. -/
abbrev Knapsack := Dict Nat (ℚ × Dict Nat Candidate)

/-- What `_solve_mckp` returns. -/
structure Solution where
  usedPages : Nat
  expectedValueMs : ℚ
  choices : Dict Nat Candidate

namespace Knapsack

def add (capacityPages modelId used : Nat) (value : ℚ) (choices : Dict Nat Candidate) (nextStates : Knapsack) (c : Candidate) :
    Knapsack :=
  let newUsed := used + c.pageCount
  if newUsed > capacityPages then nextStates
  else
    let newValue := value + c.expectedValueMs
    match nextStates.get? newUsed with
    | none => nextStates.set newUsed (newValue, choices.set modelId c)
    | some previous => if newValue > previous.1 then nextStates.set newUsed (newValue, choices.set modelId c) else nextStates

/-- The states after another model, before they are pruned. -/
def extend (capacityPages modelId : Nat) (candidates : List Candidate) (states : Knapsack) : Knapsack :=
  states.entries.foldl
    (fun next e => candidates.foldl (add capacityPages modelId e.1 e.2.1 e.2.2) next) .empty

/-- The loop of the pruning over the states that are left, in the order of their pages. -/
def pruneFrom (bestValue : ℚ) (pruned : Knapsack) : List (Nat × ℚ × Dict Nat Candidate) → Knapsack
  | [] => pruned
  | e :: rest =>
    if e.2.1 > bestValue then pruneFrom e.2.1 (pruned.set e.1 e.2) rest else pruneFrom bestValue pruned rest

/-- A state is useless when a no larger state has at least its value. -/
def prune (states : Knapsack) : Knapsack :=
  pruneFrom (-1) .empty (states.entries.insertionSort fun e f => e.1 ≤ f.1)

/-- The loop over the models. -/
def solve (capacityPages : Nat) : List (Nat × List Candidate) → Knapsack → Except PolicyError Knapsack
  | [], states => .ok states
  | (modelId, candidates) :: rest, states =>
    let nextStates := extend capacityPages modelId candidates states
    if nextStates.entries = [] then .error (.infeasible modelId capacityPages)
    else solve capacityPages rest nextStates.prune

end Knapsack

/-- The first of the greatest elements. -/
def firstMax {α : Type} (lt : α → α → Bool) : List α → Option α
  | [] => none
  | x :: rest => some (rest.foldl (fun best y => if lt best y then y else best) x)

def solveMckp (modelCandidates : List (Nat × List Candidate)) (capacityPages : Nat) : Except PolicyError Solution :=
  match Knapsack.solve capacityPages (modelCandidates.insertionSort fun e f => e.1 ≤ f.1) (Dict.empty.set 0 (0, .empty)) with
  | .error e => .error e
  | .ok states =>
    match firstMax (fun e f => e.2.1 < f.2.1 ∨ e.2.1 = f.2.1 ∧ f.1 < e.1) states.entries with
    | none => .error .valueError
    | some (used, value, choices) => .ok ⟨used, value, choices⟩

/-- The candidate with the highest value, and of these the one with the most pages. -/
def activeChoice (candidates : List Candidate) : Except PolicyError Candidate :=
  match firstMax (fun c d => c.expectedValueMs < d.expectedValueMs ∨
      c.expectedValueMs = d.expectedValueMs ∧ c.pageCount < d.pageCount) candidates with
  | none => .error .valueError
  | some c => .ok c

end ServerlessLLM.Layerweave
