import Mathlib.Data.Int.ConditionallyCompleteOrder
import ServerlessLLM.Layerweave.CachePolicy

/-!
# Dispatching a batch

`estimate_dispatch` and `plan_dispatch` of `LayerWeaveSingleGpuCachePolicy`. Both return their result, or an exception, with the
state that they leave. Times that only go into the report are left out, and so are the results of `apply_retained_pages`: the
report has the pages that each controller was told to retain.
-/

namespace ServerlessLLM.Layerweave

/-- What both are called with. `layerweaveResidency` is what the pool answers for a model when no residencies are given. -/
structure Arguments where
  activeModelId : Nat
  batch : List Request
  pending : List Request
  currentKvPages : Nat
  residencies : Option (Dict Nat (Finset ℕ))
  layerweaveResidency : Nat → List Bool

/-- The residencies that are given, or those that the pool has. -/
def Policy.residencies (policy : Policy) (args : Arguments) : Dict Nat (Finset ℕ) :=
  args.residencies.getD (policy.controllers.mapValues fun modelId _ =>
    ((List.range (args.layerweaveResidency modelId).length).filter fun page =>
      (args.layerweaveResidency modelId).getD page false).toFinset)

/-- What `estimate_dispatch` returns. -/
structure Estimate where
  predictedServiceTtftMs : ℚ
  predictedExposedLoadMs : ℚ
  transitionCostMs : ℚ
  protectedCapacityPages : Nat
  residentPages : Nat
  requiredPages : Nat
  missingPages : Nat

/-- What a dispatch needs. -/
structure Reservation where
  residentWeightPages : Nat
  freePagesBefore : Nat
  missingWeightPages : Nat
  kvBlocks : Nat
  kvPagesPerBlock : Nat
  requestKvPages : Nat
  reservationPages : Nat
  evictionRequired : Nat
  protectedCapacity : Nat

/-- The decision over the configurations. -/
structure Decision where
  usedPages : Nat
  expectedValueMs : ℚ
  choices : Dict Nat Candidate
  active : Candidate

/-- A page that may be evicted, with what it is sorted by. -/
structure Victim where
  order : WithBot ℤ
  value : ℚ
  modelId : Nat
  page : ℕ
  label : String

/-- What `plan_dispatch` reports of a model. -/
structure Target where
  configuration : Configuration
  protectedPages : Nat
  softPagesBefore : Nat
  activePages : Nat
  residentPagesBefore : Nat
  residentPagesAfter : Nat
  effectiveDemand : ℚ≥0
  nextUsePosition : Option Nat
  marginalTiers : List Tier

/-- What `plan_dispatch` returns. -/
structure Report where
  cachePolicyMode : PolicyMode
  activeModelId : Nat
  poolPages : Nat
  residentWeightPagesBefore : Nat
  currentKvPages : Nat
  freePagesBefore : Nat
  missingActiveWeightPages : Nat
  requestKvBlocks : Nat
  kvPagesPerBlock : Nat
  requestKvPages : Nat
  reservationPages : Nat
  evictionRequiredPages : Nat
  evictedPages : Nat
  evictedPagesByTier : List (String × Nat)
  capacityPages : Nat
  usedInactiveProtectedPages : Nat
  valueBeforeMs : ℚ
  valueAfterMs : ℚ
  transitionCostMs : ℚ
  targets : List (Nat × Target)
  applied : Dict Nat (Finset ℕ)
  /-- The choices themselves, of which the targets have the numbers. -/
  choices : Dict Nat Candidate

/-- The pages of a model in a dictionary of residencies; nothing when the model is not in it. -/
def pagesOf (residencies : Dict Nat (Finset ℕ)) (modelId : Nat) : Finset ℕ := (residencies.get? modelId).getD ∅

namespace State

variable {policy : Policy} (s : State policy)

def inactiveCandidates (activeModelId : Nat) : List (Nat × Marginal) → Except PolicyError (List (Nat × List Candidate))
  | [] => .ok []
  | (modelId, m) :: rest =>
    if modelId = activeModelId then inactiveCandidates activeModelId rest
    else
      match s.allowedCandidates modelId m.candidates activeModelId with
      | .error e => .error e
      | .ok allowed =>
        match inactiveCandidates activeModelId rest with
        | .error e => .error e
        | .ok others => .ok ((modelId, allowed) :: others)

def activeCandidates (activeModelId : Nat) (marginal : List (Nat × Marginal)) : List Candidate :=
  ((marginal.lookup activeModelId).map Marginal.candidates).getD []

/-- The knapsack over the inactive models, and the choice for the active one. -/
def decide (activeModelId capacityPages : Nat) (marginal : List (Nat × Marginal)) : Except PolicyError Decision :=
  match s.inactiveCandidates activeModelId marginal with
  | .error e => .error e
  | .ok candidates =>
    match solveMckp candidates capacityPages with
    | .error e => .error e
    | .ok solution =>
      match s.allowedCandidates activeModelId (activeCandidates activeModelId marginal) activeModelId with
      | .error e => .error e
      | .ok allowed =>
        match activeChoice allowed with
        | .error e => .error e
        | .ok active => .ok ⟨solution.usedPages, solution.expectedValueMs, solution.choices, active⟩

def valueBefore (marginal : List (Nat × Marginal)) : ℚ :=
  (marginal.map fun e =>
    ((e.2.candidates.find? fun c => c.configuration = s.protectedConfiguration e.1).map Candidate.expectedValueMs).getD 0).sum

/-! ## `estimate_dispatch` -/

/-- The part between `try` and `finally`. -/
def estimate (args : Arguments) (controller : Controller) (requestKvPages : Nat) :
    Except PolicyError Estimate × State policy :=
  let s := (s.observeBatch args.activeModelId args.batch).setPending args.pending
  match (policy.residencies args).get? args.activeModelId with
  | none => (.error .keyError, s)
  | some resident =>
    let prediction := policy.predict args.activeModelId controller (s.demands args.activeModelId).shape resident
    let r := marginals policy.controllers.keys s
    let s := r.2
    let protectedCapacity := policy.poolPages - args.currentKvPages - requestKvPages - controller.requiredPages.card
    match s.decide args.activeModelId protectedCapacity r.1 with
    | .error e => (.error e, s)
    | .ok decision =>
      (.ok {
        predictedServiceTtftMs := prediction.predictedServiceTtftMs
        predictedExposedLoadMs := prediction.predictedGpuReadyStallMs
        transitionCostMs := s.valueBefore r.1 - (decision.expectedValueMs + decision.active.expectedValueMs)
        protectedCapacityPages := protectedCapacity
        residentPages := resident.card
        requiredPages := controller.requiredPages.card
        missingPages := (controller.requiredPages \ resident).card }, s)

def restore (saved : State policy) : State policy :=
  { s with
    demands := fun modelId => ⟨(saved.demands modelId).score, (saved.demands modelId).shape⟩
    pendingCounts := saved.pendingCounts
    nextUsePositions := saved.nextUsePositions }

def estimateDispatch (args : Arguments) (requestKvPages : Nat) : Except PolicyError Estimate × State policy :=
  if args.batch = [] then (.error .valueError, s)
  else
    match policy.controllers.get? args.activeModelId with
    | none => (.error .keyError, s)
    | some controller =>
      let r := s.estimate args controller requestKvPages
      (r.1, r.2.restore s)

/-! ## `plan_dispatch` -/

/-- `kv_blocks` of a batch. -/
def kvBlocks (batch : List Request) (kvBlockSizeTokens : Nat) : Nat :=
  (batch.map fun r => (r.inputTokens + r.outputTokens + kvBlockSizeTokens - 1) / kvBlockSizeTokens).sum

def kvPagesPerBlock (policy : Policy) (kvBlockSizeBytes : Nat) : Nat :=
    (kvBlockSizeBytes + policy.pageSize - 1) / policy.pageSize

/-- The choices in `next-use` mode. -/
def nextUseChoice (controller : Controller) (active : Bool) : Candidate :=
  { configuration := if active then .full else .zero
    pages := if active then controller.requiredPages else ∅
    predictedServiceTtftMs := 0
    predictedGainMs := 0
    effectiveDemand := 0
    expectedValueMs := 0 }

/-- The decision in `next-use` mode: only the active model is protected. -/
def nextUseDecision (policy : Policy) (activeModelId : Nat) (controller : Controller) : Decision :=
  { usedPages := 0
    expectedValueMs := 0
    choices := (policy.controllers.mapValues fun _ c => nextUseChoice c false).erase activeModelId
    active := nextUseChoice controller true }

def reservation (policy : Policy) (args : Arguments) (controller : Controller) (residencies : Dict Nat (Finset ℕ))
    (kvBlockSizeTokens kvBlockSizeBytes : Nat) : Reservation :=
  let missingWeightPages := (controller.requiredPages \ pagesOf residencies args.activeModelId).card
  let requestKvPages := kvBlocks args.batch kvBlockSizeTokens * kvPagesPerBlock policy kvBlockSizeBytes
  let residentWeightPages := (residencies.entries.map fun e => e.2.card).sum
  let freePagesBefore := policy.poolPages - residentWeightPages - args.currentKvPages
  let reservationPages := missingWeightPages + requestKvPages
  { residentWeightPages := residentWeightPages
    freePagesBefore := freePagesBefore
    missingWeightPages := missingWeightPages
    kvBlocks := kvBlocks args.batch kvBlockSizeTokens
    kvPagesPerBlock := kvPagesPerBlock policy kvBlockSizeBytes
    requestKvPages := requestKvPages
    reservationPages := reservationPages
    evictionRequired := reservationPages - freePagesBefore
    protectedCapacity := policy.poolPages - args.currentKvPages - requestKvPages - controller.requiredPages.card }

def decision (activeModelId : Nat) (controller : Controller) (capacityPages : Nat) (marginal : List (Nat × Marginal)) :
    Except PolicyError Decision :=
  match policy.policyMode with
  | .nextUse => .ok (nextUseDecision policy activeModelId controller)
  | .demand => s.decide activeModelId capacityPages marginal

def protect (choices : Dict Nat Candidate) : State policy :=
  { s with protectedConfiguration := fun modelId =>
      ((choices.get? modelId).map fun c => c.configuration).getD (s.protectedConfiguration modelId) }

def protectedPages (choices : Dict Nat Candidate) (modelId : Nat) : Finset ℕ :=
  ((choices.get? modelId).map fun c => c.pages).getD ∅

/-- `soft`: the resident pages of an inactive model that are not protected. -/
def softPages (activeModelId : Nat) (choices : Dict Nat Candidate) (residencies : Dict Nat (Finset ℕ))
    (modelId : Nat) : Finset ℕ :=
  if modelId = activeModelId then ∅
  else pagesOf residencies modelId \ protectedPages choices modelId

def victim (marginal : List (Nat × Marginal)) (modelId : Nat) (page : ℕ) : Victim :=
  match policy.policyMode with
  | .nextUse =>
    -- the further away the next use, the earlier; a model without one comes first
    let order : WithBot ℤ := match s.nextUsePositions modelId with
      | none => ⊥
      | some n => ((-(n : ℤ) : ℤ) : WithBot ℤ)
    ⟨order, 0, modelId, page, "next-use"⟩
  | .demand =>
    let m := (marginal.lookup modelId).getD ⟨[], []⟩
    match m.tier? page with
    | none => ⟨((-(m.tiers.length : ℤ) - 1 : ℤ) : WithBot ℤ), 0, modelId, page, "fragment"⟩
    | some t => ⟨((-(t.index : ℤ) : ℤ) : WithBot ℤ), t.valuePerPage, modelId, page, t.label⟩

end State

/-- The order in which pages are evicted. -/
def Victim.le (v w : Victim) : Prop :=
  v.order < w.order ∨ v.order = w.order ∧ (v.value < w.value ∨ v.value = w.value ∧
    (v.modelId < w.modelId ∨ v.modelId = w.modelId ∧ w.page ≤ v.page))

instance : DecidableRel Victim.le := fun v w =>
  have : DecidableEq (WithBot ℤ) := @WithBot.decidableEq ℤ Int.instDecidableEq
  have : DecidableLT (WithBot ℤ) := @WithBot.decidableLT ℤ Int.instLTInt Int.decLt
  inferInstanceAs (Decidable (v.order < w.order ∨ v.order = w.order ∧ (_ ∨ _ ∧ (_ ∨ _ ∧ _))))

namespace State

variable {policy : Policy} (s : State policy)

/-- `victims`, sorted. -/
def victims (activeModelId : Nat) (marginal : List (Nat × Marginal)) (choices : Dict Nat Candidate)
    (residencies : Dict Nat (Finset ℕ)) : List Victim :=
  (policy.controllers.keys.flatMap fun modelId =>
    ((softPages activeModelId choices residencies modelId).sort (· ≤ ·)).map
      (s.victim marginal modelId)).insertionSort Victim.le

def retained (selected : List Victim) (residencies : Dict Nat (Finset ℕ)) (modelId : Nat) : Finset ℕ :=
  pagesOf residencies modelId \ ((selected.filter fun v => v.modelId = modelId).map Victim.page).toFinset

/-- The number of evicted pages of each tier, in the order of the labels. -/
def evictedPagesByTier (selected : List Victim) : List (String × Nat) :=
  let labels := ((selected.map Victim.label).dedup).insertionSort (· ≤ ·)
  labels.map fun label => (label, (selected.filter fun v => v.label = label).length)

/-- The last part of `plan_dispatch`: the choices are protected, and soft pages are evicted. -/
def reclaim (args : Arguments) (controller : Controller) (residencies : Dict Nat (Finset ℕ)) (need : Reservation)
    (marginal : List (Nat × Marginal)) (d : Decision) : Except PolicyError Report × State policy :=
  let choices := d.choices.set args.activeModelId d.active
  let valueBefore := s.valueBefore marginal
  let valueAfter := (choices.entries.map fun e => e.2.expectedValueMs).sum
  let s := s.protect choices
  if ∃ modelId ∈ policy.controllers.keys, modelId ≠ args.activeModelId ∧
    residencies.get? modelId = none then (.error .keyError, s)
  else
    let selected := (s.victims args.activeModelId marginal choices residencies).take need.evictionRequired
    if selected.length < need.evictionRequired then (.error (.notEnoughSoftPages need.evictionRequired selected.length), s)
    else
      let evicting := policy.controllers.keys.filter fun modelId =>
        modelId ≠ args.activeModelId ∧ (retained selected residencies modelId).card ≠ (pagesOf residencies modelId).card
      (.ok {
        cachePolicyMode := policy.policyMode
        activeModelId := args.activeModelId
        poolPages := policy.poolPages
        residentWeightPagesBefore := need.residentWeightPages
        currentKvPages := args.currentKvPages
        freePagesBefore := need.freePagesBefore
        missingActiveWeightPages := need.missingWeightPages
        requestKvBlocks := need.kvBlocks
        kvPagesPerBlock := need.kvPagesPerBlock
        requestKvPages := need.requestKvPages
        reservationPages := need.reservationPages
        evictionRequiredPages := need.evictionRequired
        evictedPages := selected.length
        evictedPagesByTier := evictedPagesByTier selected
        capacityPages := need.protectedCapacity
        usedInactiveProtectedPages := d.usedPages
        valueBeforeMs := valueBefore
        valueAfterMs := valueAfter
        transitionCostMs := valueBefore - valueAfter
        targets := policy.controllers.keys.map fun modelId => (modelId, {
          configuration := s.protectedConfiguration modelId
          protectedPages := (protectedPages choices modelId).card
          softPagesBefore := (softPages args.activeModelId choices residencies modelId).card
          activePages := if modelId = args.activeModelId then controller.requiredPages.card else 0
          residentPagesBefore := (pagesOf residencies modelId).card
          residentPagesAfter := (retained selected residencies modelId).card
          effectiveDemand := ((marginal.lookup modelId).bind fun m => m.candidates.head?.map fun c => c.effectiveDemand).getD 0
          nextUsePosition := s.nextUsePositions modelId
          marginalTiers := ((marginal.lookup modelId).getD ⟨[], []⟩).tiers.map Prod.snd })
        applied := evicting.foldl (fun a modelId => a.set modelId (retained selected residencies modelId)) .empty
        choices := choices }, s)

def planDispatch (args : Arguments) (kvBlockSizeTokens kvBlockSizeBytes : Nat) : Except PolicyError Report × State policy :=
  match policy.controllers.get? args.activeModelId with
  | none => (.error .keyError, s.decayed)
  | some controller =>
    let s := (s.observeBatch args.activeModelId args.batch).setPending args.pending
    let residencies := policy.residencies args
    let r := if policy.policyMode = .nextUse then ([], s) else marginals policy.controllers.keys s
    let s := r.2
    if residencies.get? args.activeModelId = none then (.error .keyError, s)
    else if kvBlockSizeTokens = 0 ∧ args.batch ≠ [] then (.error .zeroDivisionError, s)
    else
      let need := reservation policy args controller residencies kvBlockSizeTokens kvBlockSizeBytes
      match s.decision args.activeModelId controller need.protectedCapacity r.1 with
      | .error e => (.error e, s)
      | .ok d => s.reclaim args controller residencies need r.1 d

end State

end ServerlessLLM.Layerweave
