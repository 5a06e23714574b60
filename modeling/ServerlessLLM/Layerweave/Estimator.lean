import Mathlib.Algebra.GroupWithZero.Nat
import Mathlib.Algebra.Order.Ring.Rat
import Mathlib.Data.List.FinRange
import Mathlib.Data.List.MinMax
import Mathlib.Data.List.Sort
import ServerlessLLM.Library.Dict

/-!
# The latency estimator of LayerWeave

`PipelineEstimator.predict` and `ridge_fit` of `layerweave_estimator.py`, over exact rationals. A batch has a stage that loads
the initial pages with those of layer 0, and then one stage a layer; the compute times come from a profile that was fitted
before.
-/

namespace ServerlessLLM.Layerweave

structure Stage where
  toLoadBytes : Nat
  mappedPages : Nat

/-- Whether the stages are loaded ahead of the compute. -/
inductive Mode where
  | prefetch
  | noPrefetch
deriving DecidableEq

/-- How much of a model has to be loaded. -/
inductive ResidencyClass where
  | fullHit
  | cold
  | partialHit
deriving DecidableEq

structure Batch where
  modelId : Nat
  batchSize : Nat
  inputTokens : Nat
  maxInputTokens : Nat
  sumInputTokensSquared : Nat
  prefetch : Bool
  phase : String
  pageCount : Nat
  initial : Stage
  layers : List Stage

/-- The compute time of a layer: the coefficients of a regression, or those of a polynomial in older reports. -/
inductive LayerCompute where
  | coefficients (c : List ℚ)
  | polynomial (interceptMs msPerToken msPerTokenSquared : ℚ)

structure Profile where
  bytesPerMs : ℚ
  bytesPerMs_pos : 0 < bytesPerMs
  fixedStageMs : ℚ
  compute : Dict Nat LayerCompute
  hostGapMs : Dict (Mode × ResidencyClass × String) ℚ
  serviceResidualMs : Dict (Mode × ResidencyClass × String) ℚ

theorem unit_pos : (0 : ℚ) < 1 := by decide

/-- What the pipeline does: the time that the GPU waits, and the time at which it ends. -/
structure Pipeline where
  predictedGpuReadyStallMs : ℚ
  predictedGpuCriticalPathMs : ℚ

structure Prediction extends Pipeline where
  predictedForwardMs : ℚ
  predictedHostSubmissionGapMs : ℚ
  predictedServiceResidualMs : ℚ
  predictedServiceExternalMs : ℚ
  predictedServiceTtftMs : ℚ

/-- `median`, with the value for no values. -/
def median (values : List ℚ) (default : ℚ) : ℚ :=
  let ordered := values.insertionSort (· ≤ ·)
  if ordered.length = 0 then default
  else if ordered.length % 2 = 1 then ordered.getD (ordered.length / 2) 0
  else (ordered.getD (ordered.length / 2 - 1) 0 + ordered.getD (ordered.length / 2) 0) / 2

namespace Batch

variable (batch : Batch)

def batchFeatures : List ℚ :=
  let batchSize := max 1 batch.batchSize
  let totalTokens := max 1 batch.inputTokens
  let maxTokens := max 1 batch.maxInputTokens
  [1, batchSize - 1, totalTokens / 1000, maxTokens / 1000, batch.sumInputTokensSquared / 1000000]

def residencyClass : ResidencyClass :=
  let mapped := ((batch.initial :: batch.layers).map Stage.mappedPages).sum
  if mapped = 0 then .fullHit
  else if mapped ≥ max 1 batch.pageCount then .cold
  else .partialHit

def modeKey : Mode := if batch.prefetch then .prefetch else .noPrefetch

end Batch

namespace Profile

variable (profile : Profile)

def loadMs (stage : Stage) : ℚ :=
  if stage.toLoadBytes = 0 then profile.fixedStageMs else profile.fixedStageMs + stage.toLoadBytes / profile.bytesPerMs

def computeMs (batch : Batch) (layer : Nat) : ℚ :=
  match (profile.compute.get? layer).getD (.polynomial 0 0 0) with
  | .coefficients c => max 0 ((c.zip batch.batchFeatures).map fun e => e.1 * e.2).sum
  | .polynomial interceptMs msPerToken msPerTokenSquared =>
    let totalTokens : ℚ := max 1 batch.inputTokens
    max 0 (interceptMs + msPerToken * totalTokens + msPerTokenSquared * totalTokens * totalTokens)

/-- The layers from `layer` on, given the end of the last copy, the last start and end of a compute, and the stall so far. -/
def simulateFrom (batch : Batch) (layer : Nat) (copyEnd previousComputeStart computeEnd gpuReadyStall : ℚ) :
    List Stage → Pipeline
  | [] => ⟨gpuReadyStall, computeEnd⟩
  | stage :: stages =>
    let copyStart := if batch.prefetch then max copyEnd previousComputeStart else computeEnd
    let copyEnd := copyStart + profile.loadMs stage
    let stall := max 0 (copyEnd - computeEnd)
    let computeStart := max computeEnd copyEnd
    simulateFrom batch (layer + 1) copyEnd computeStart (computeStart + profile.computeMs batch layer)
      (gpuReadyStall + stall) stages

def simulateGpu (batch : Batch) : Pipeline :=
  let computeStart := profile.loadMs batch.initial
  profile.simulateFrom batch 1 computeStart computeStart (computeStart + profile.computeMs batch 0) computeStart batch.layers

def profileValue (values : Dict (Mode × ResidencyClass × String) ℚ) (mode : Mode) (state : ResidencyClass)
    (phase : String) : ℚ :=
  match values.get? (mode, state, phase) with
  | some value => value
  | none =>
    let sameMode := (values.entries.filter fun e => e.1.1 = mode).map Prod.snd
    median sameMode (median (values.entries.map Prod.snd) 0)

def predict (batch : Batch) : Prediction :=
  let mode := batch.modeKey
  let state := batch.residencyClass
  let gpu := profile.simulateGpu batch
  let hostGap := profileValue profile.hostGapMs mode state batch.phase
  let residualMs := profileValue profile.serviceResidualMs mode state batch.phase
  { gpu with
    predictedForwardMs := gpu.predictedGpuCriticalPathMs + hostGap
    predictedHostSubmissionGapMs := hostGap
    predictedServiceResidualMs := residualMs
    predictedServiceExternalMs := residualMs - hostGap
    predictedServiceTtftMs := gpu.predictedGpuCriticalPathMs + residualMs }

end Profile

/-! ## The fit of a layer -/

/-- A sample: the features, and the value. -/
abbrev Sample (width : Nat) := (Fin width → ℚ) × ℚ

/-- The matrix of `ridge_fit`. The right-hand side is its last column. -/
abbrev Augmented (width : Nat) := Fin width → Fin (width + 1) → ℚ

section

variable {width : Nat}

/-- The matrix before the elimination. -/
def normalMatrix (samples : List (Sample width)) (regularization : ℚ) : Augmented width := fun row =>
  Fin.snoc (fun column => (samples.map fun s => s.1 row * s.1 column).sum + if row = column then regularization else 0)
    (samples.map fun s => s.1 row * s.2).sum

/-- The row with the pivot of a column: the first of those with the largest entry. -/
def pivotRow (matrix : Augmented width) (column : Fin width) : Fin width :=
  (((List.finRange width).filter (column ≤ ·)).argmax fun row => |matrix row column.castSucc|).getD column

/-- The pivot of a column is so small that the column is skipped. -/
def Skips (matrix : Augmented width) (column : Fin width) : Prop :=
    |matrix (pivotRow matrix column) column.castSucc| < 1 / 10 ^ 12

instance (matrix : Augmented width) (column : Fin width) : Decidable (Skips matrix column) :=
  inferInstanceAs (Decidable (|matrix (pivotRow matrix column) column.castSucc| < 1 / 10 ^ 12))

def eliminateColumn (matrix : Augmented width) (column : Fin width) : Augmented width :=
  if Skips matrix column then matrix
  else
    let swapped := fun row => matrix (Equiv.swap column (pivotRow matrix column) row)
    let divisor := swapped column column.castSucc
    let divided := fun index => swapped column index / divisor
    fun row =>
      if row = column then divided
      else
        let factor := swapped row column.castSucc
        fun index => swapped row index - factor * divided index

def eliminated (samples : List (Sample width)) (regularization : ℚ) (columns : Nat) : Augmented width :=
  ((List.finRange width).take columns).foldl eliminateColumn (normalMatrix samples regularization)

def ridgeFit : List (Sample width) → ℚ → List ℚ
  | [], _ => List.replicate 5 0
  | sample :: samples, regularization => List.ofFn fun row =>
      eliminated (sample :: samples) regularization width row (Fin.last width)

end

end ServerlessLLM.Layerweave
