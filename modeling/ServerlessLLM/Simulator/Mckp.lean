import Mathlib.Data.List.Sort
import Mathlib.Data.Prod.Lex
import ServerlessLLM.Simulator.Backend

/-!
# Prefix stalls, and the knapsack over prefixes

`tensor_sim_mckp.py`: the table of the stalls that a model has when only a prefix of its groups is resident, and
`solve_covering_mckp`, which chooses the prefixes to keep so that enough bytes are released and little stall is to be expected.
-/

namespace ServerlessLLM.Simulator

/-! ## The table -/

/-- A row of a table: the stalls for one input length, by the groups that are resident. -/
structure StallRow where
  inputTokens : Nat
  prefixStallMs : List ℚ
  suffixStallMs : Option (List ℚ)
  medianBaselineWallMs : Option ℚ

structure StallModel where
  groupCount : Nat
  prefixBytes : List Nat
  rows : List StallRow

/-- What happens past the last input length that was measured. -/
inductive InputExtrapolation where
  | clamp
  | linear
deriving DecidableEq

inductive TableError where
  /-- `prefix byte count mismatch` -/
  | prefixByteCount (model : Nat)
  /-- `prefix bytes are not monotonic` -/
  | prefixBytes (model : Nat)
  /-- `empty or duplicate input rows` -/
  | inputRows (model : Nat)
  /-- `prefix stall count mismatch` -/
  | prefixStallCount (model : Nat)
  /-- `full-resident stall is not zero` -/
  | fullResidentStall (model : Nat)
  /-- `stall is not prefix-monotonic` -/
  | prefixStalls (model : Nat)
  /-- `suffix stall count mismatch` -/
  | suffixStallCount (model : Nat)
  /-- `full suffix stall is not zero` -/
  | fullSuffixStall (model : Nat)
  /-- `stall is not suffix-monotonic` -/
  | suffixStalls (model : Nat)
  /-- `stall table does not contain` the field -/
  | noField
  | keyError
  | indexError
deriving DecidableEq

/-- `PrefixStallTable`. The rows of a model are in the order of their input lengths. -/
structure PrefixStallTable where
  models : Dict Nat StallModel
  inputExtrapolation : InputExtrapolation

namespace PrefixStallTable

def checkRow (model groupCount : Nat) (row : StallRow) : Except TableError Unit :=
  if row.prefixStallMs.length ≠ groupCount + 1 then .error (.prefixStallCount model)
  else if row.prefixStallMs.getLast? ≠ some 0 then .error (.fullResidentStall model)
  else if ¬row.prefixStallMs.IsChain (· ≥ ·) then .error (.prefixStalls model)
  else
    match row.suffixStallMs with
    | none => .ok ()
    | some suffix =>
      if suffix.length ≠ groupCount + 1 then .error (.suffixStallCount model)
      else if suffix.head? ≠ some 0 then .error (.fullSuffixStall model)
      else if ¬suffix.IsChain (· ≤ ·) then .error (.suffixStalls model)
      else .ok ()

def checkRows (model groupCount : Nat) : List StallRow → Except TableError Unit
  | [] => .ok ()
  | row :: rows => do
    checkRow model groupCount row
    checkRows model groupCount rows

/-- What `__init__` makes of a model of the document. -/
def acceptModel (model : Nat) (item : StallModel) : Except TableError StallModel :=
  if item.prefixBytes.length ≠ item.groupCount + 1 then .error (.prefixByteCount model)
  else if ¬item.prefixBytes.IsChain (· ≤ ·) then .error (.prefixBytes model)
  else
    let rows := item.rows.insertionSort fun a b => a.inputTokens ≤ b.inputTokens
    if rows = [] ∨ ¬(rows.map StallRow.inputTokens).Nodup then .error (.inputRows model)
    else do
      checkRows model item.groupCount rows
      .ok { item with rows := rows }

/-- The models of the document, one after another. -/
def acceptModels : List (Nat × StallModel) → Dict Nat StallModel → Except TableError (Dict Nat StallModel)
  | [], models => .ok models
  | (model, item) :: items, models => do
    let accepted ← acceptModel model item
    acceptModels items (models.set model accepted)

/-- `__init__`, for the models of a document. -/
def accept (document : List (Nat × StallModel)) (inputExtrapolation : InputExtrapolation) :
    Except TableError PrefixStallTable := do
  let models ← acceptModels document .empty
  .ok ⟨models, inputExtrapolation⟩

variable (table : PrefixStallTable)

def prefixBytes (model prefixCount : Nat) : Except TableError Nat :=
  match table.models.get? model with
  | none => .error .keyError
  | some item => if item.groupCount < prefixCount then .error .indexError else .ok (item.prefixBytes[prefixCount]?.getD 0)

/-- The weighted mean of two rows, for an input length between (or past) theirs. -/
def weightedMean (inputTokens : Nat) (left right : Nat × ℚ) : ℚ :=
  left.2 + ((inputTokens : ℚ) - left.1) / ((right.1 : ℚ) - left.1) * (right.2 - left.2)

/-- The first or the last row, or the `mean` of the two rows around an input length. A row is its input length and a value. -/
def betweenRows {α : Type} (zero : α) (mean : Nat × α → Nat × α → α) (extrapolation : InputExtrapolation) (inputTokens : Nat)
    (rows : List (Nat × α)) : α :=
  let first := rows.head?.getD (0, zero)
  let last := rows.getLast?.getD (0, zero)
  if inputTokens ≤ first.1 then first.2
  else if last.1 ≤ inputTokens ∧ (extrapolation = .clamp ∨ rows.length = 1) then last.2
  else
    let upper := if last.1 ≤ inputTokens then rows.length - 1 else rows.countP fun row => row.1 ≤ inputTokens
    mean (rows[upper - 1]?.getD (0, zero)) (rows[upper]?.getD (0, zero))

def clippedMean (inputTokens : Nat) (left right : Nat × ℚ) : ℚ := max 0 (weightedMean inputTokens left right)

/-- The value that `_lookup_field` takes from the rows. -/
def lookupRows (extrapolation : InputExtrapolation) (inputTokens : Nat) (rows : List (Nat × ℚ)) : ℚ :=
  betweenRows 0 (clippedMean inputTokens) extrapolation inputTokens rows

/-- `row[field][state_count]`. -/
def readField (values : Option (List ℚ)) (stateCount : Nat) : Except TableError ℚ :=
  match values with
  | none => .error .keyError
  | some values =>
    match values[stateCount]? with
    | none => .error .indexError
    | some value => .ok value

/-- The mean of two rows that have the field. -/
def readMean (inputTokens : Nat) (left right : Nat × Except TableError ℚ) : Except TableError ℚ := do
  let leftValue ← left.2
  let rightValue ← right.2
  .ok (clippedMean inputTokens (left.1, leftValue) (right.1, rightValue))

/-- `_lookup_field`. Only the rows that are used need the field. -/
def lookupField (field : StallRow → Option (List ℚ)) (model inputTokens stateCount : Nat) : Except TableError ℚ :=
  match table.models.get? model with
  | none => .error .keyError
  | some item =>
    if item.groupCount < stateCount then .error .indexError
    else if (item.rows.head?.bind field).isNone then .error .noField
    else
      betweenRows (.error .indexError) (readMean inputTokens) table.inputExtrapolation inputTokens
        (item.rows.map fun row => (row.inputTokens, readField (field row) stateCount))

def lookup (model inputTokens prefixCount : Nat) : Except TableError ℚ :=
  table.lookupField (fun row => some row.prefixStallMs) model inputTokens prefixCount

def lookupSuffix (model inputTokens suffixStart : Nat) : Except TableError ℚ :=
  table.lookupField StallRow.suffixStallMs model inputTokens suffixStart

def baselineMs (model inputTokens : Nat) : Except TableError ℚ :=
  match table.models.get? model with
  | none => .error .keyError
  | some item =>
    .ok (betweenRows 0 (weightedMean inputTokens) table.inputExtrapolation inputTokens
      (item.rows.map fun row => (row.inputTokens, row.medianBaselineWallMs.getD 0)))

end PrefixStallTable

/-! ## The solver -/

structure PrefixOption where
  modelId : Nat
  prefixCount : Nat
  freedBytes : Nat
  damageMs : ℚ
  evictedGroups : Nat

/-- The stalls that are to be expected beyond those of now, for the samples of a model. -/
def damage (table : PrefixStallTable) (model resident : Nat) (samples : List (Nat × ℚ)) (prefixCount : Nat) :
    Except TableError ℚ :=
  match samples with
  | [] => .ok 0
  | (tokens, weight) :: samples =>
    if 0 < weight then do
      let baseline ← table.lookup model tokens resident
      let stall ← table.lookup model tokens prefixCount
      let rest ← damage table model resident samples prefixCount
      .ok (weight * max 0 (stall - baseline) + rest)
    else damage table model resident samples prefixCount

def prefixOption (table : PrefixStallTable) (model resident : Nat) (samples : List (Nat × ℚ))
    (prefixBytes : Nat → Nat → Except TableError Nat) (prefixCount : Nat) : Except TableError PrefixOption := do
  let current ← prefixBytes model resident
  let damageMs ← damage table model resident samples prefixCount
  let kept ← prefixBytes model prefixCount
  .ok ⟨model, prefixCount, current - kept, damageMs, resident - prefixCount⟩

def buildModelOptions (table : PrefixStallTable) (model resident : Nat) (samples : List (Nat × ℚ))
    (prefixBytes : Nat → Nat → Except TableError Nat) : Except TableError (List PrefixOption) :=
  (List.range (resident + 1)).reverse.mapM (prefixOption table model resident samples prefixBytes)

/-- A state of the frontier: the bytes released, the damage, the groups evicted and the prefixes selected. -/
structure Frontier where
  freed : Nat
  cost : ℚ
  evicted : Nat
  selected : List (Nat × Nat)
deriving DecidableEq

namespace Frontier

/-- `_state_rank`. -/
def rank (required : Nat) (s : Frontier) : ℚ ×ₗ Nat ×ₗ Nat ×ₗ List (Nat ×ₗ Nat) :=
  toLex (s.cost, toLex (s.freed - required, toLex (s.evicted, s.selected.map toLex)))

/-- A state with one more choice. -/
def expand (s : Frontier) (o : PrefixOption) : Frontier :=
  ⟨s.freed + o.freedBytes, s.cost + o.damageMs, s.evicted + o.evictedGroups, s.selected ++ [(o.modelId, o.prefixCount)]⟩

/-- One round of the loop over the states. -/
def keepBest (required : Nat) (best : Dict Nat Frontier) (s : Frontier) : Dict Nat Frontier :=
  match best.get? s.freed with
  | none => best.set s.freed s
  | some old => if s.rank required < old.rank required then best.set s.freed s else best

def bestByFreed (required : Nat) (states : List Frontier) : Dict Nat Frontier := states.foldl (keepBest required) .empty

/-- The loop over the states that release too little, from the one that releases most on: a state is kept when it costs less
than those before. -/
def sweep : Option ℚ → List Frontier → List Frontier
  | _, [] => []
  | bestCost, s :: states =>
    if ∀ c ∈ bestCost, s.cost < c then s :: sweep (some s.cost) states else sweep bestCost states

/-- `_prune_frontier`. -/
def prune (required : Nat) (states : List Frontier) : List Frontier :=
  let values := (bestByFreed required states).entries.map Prod.snd
  let bestFeasible := (values.filter fun s => required ≤ s.freed).argmin (rank required)
  let short := (values.filter fun s => s.freed < required).insertionSort fun a b => a.freed ≥ b.freed
  (sweep none short).reverse ++ bestFeasible.toList

end Frontier

/-- `MckpEvictionPlan`, without the time the solver took. -/
structure MckpEvictionPlan where
  feasible : Bool
  requiredFreeBytes : Nat
  plannedFreeBytes : Nat
  /-- Without a value for an infeasible plan, whose damage is infinite. -/
  predictedFutureDamageMs : Option ℚ
  choices : Dict Nat Nat
  victimKeys : List (Nat × Nat)
  frontierPeakStates : Nat
  optionsConsidered : Nat

/-- The loop of `solve_covering_mckp` over the models: the frontier, its largest size and the options so far. -/
def solveLoop (table : PrefixStallTable) (activeModel required : Nat) (samples : Dict Nat (List (Nat × ℚ)))
    (prefixBytes : Nat → Nat → Except TableError Nat) :
    List (Nat × Nat) → List Frontier × Nat × Nat → Except TableError (List Frontier × Nat × Nat)
  | [], s => .ok s
  | (model, resident) :: prefixes, (frontier, peak, considered) =>
    if model = activeModel then solveLoop table activeModel required samples prefixBytes prefixes (frontier, peak, considered)
    else do
      let options ← buildModelOptions table model resident ((samples.get? model).getD []) prefixBytes
      let frontier := Frontier.prune required (frontier.flatMap fun s => options.map s.expand)
      solveLoop table activeModel required samples prefixBytes prefixes
        (frontier, max peak frontier.length, considered + options.length)

/-- The groups between the new and the old prefixes of the models that are not active. -/
def victimKeys (activeModel : Nat) (choices : Dict Nat Nat) (prefixes : List (Nat × Nat)) : List (Nat × Nat) :=
  prefixes.flatMap fun (model, old) =>
    if model = activeModel then []
    else (List.range' ((choices.get? model).getD 0) (old - (choices.get? model).getD 0)).map fun g => (model, g)

def solveCoveringMckp (table : PrefixStallTable) (residentPrefixes : Dict Nat Nat) (activeModel required : Nat)
    (samples : Dict Nat (List (Nat × ℚ))) (prefixBytes : Nat → Nat → Except TableError Nat) :
    Except TableError MckpEvictionPlan :=
  if required = 0 then .ok ⟨true, 0, 0, some 0, residentPrefixes, [], 1, 0⟩
  else do
    let prefixes := residentPrefixes.entries.insertionSort fun a b => a.1 ≤ b.1
    let (frontier, peak, considered) ←
      solveLoop table activeModel required samples prefixBytes prefixes ([⟨0, 0, 0, []⟩], 1, 0)
    match (frontier.filter fun s => required ≤ s.freed).argmin (Frontier.rank required) with
    | none => .ok ⟨false, required, 0, none, residentPrefixes, [], peak, considered⟩
    | some s =>
      let choices := s.selected.foldl (fun d e => d.set e.1 e.2) residentPrefixes
      .ok ⟨true, required, s.freed, some s.cost, choices, victimKeys activeModel choices prefixes, peak, considered⟩

end ServerlessLLM.Simulator
