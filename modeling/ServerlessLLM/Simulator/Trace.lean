import Mathlib.Data.Rat.Floor
import ServerlessLLM.Library.Dict
import ServerlessLLM.Library.PythonText

/-!
# Traces

`load_trace` of `simulator_io.py` and `load_trace_arrivals` of `layerweave_tensor_pipeline_sim.py`, which go over the lines of
one file with filters of their own. What `float` and the random numbers give is left open.
-/

namespace ServerlessLLM.Simulator.Trace

open PythonText

/-- A layout, as far as it bounds a request. -/
structure Layout where
  maxInputTokens : ℤ
  pageCount : ℤ
  maxInputTokens_pos : 1 ≤ maxInputTokens

structure Request where
  requestId : Nat
  modelId : ℤ
  inputTokens : ℤ
  outputTokens : ℤ
  traceOutputTokens : ℤ
deriving DecidableEq

/-- The exceptions. -/
inductive TraceError where
  | indexError
  | valueError
  | keyError
  /-- `arrival/request filtering mismatch` -/
  | filteringMismatch (arrivals requests : Nat)
  /-- `trace-scaled arrivals require a positive source trace span` -/
  | nonPositiveSpan
deriving DecidableEq

/-- `trace_mode`. -/
inductive Mode where
  | all
  | modelSwitches
deriving DecidableEq

/-- The options of `load_trace`. -/
structure Options where
  maxRequests : ℤ
  inputScale : ℚ
  outputTokens : ℤ
  poolPages : ℤ
  kvBlockTokens : ℤ
  traceMode : Mode
  kvBlockTokens_pos : 0 < kvBlockTokens

/-- `str.split`, of a text and the word before it. -/
def splitFrom (word : List Char) : List Char → List (List Char)
  | [] => if word = [] then [] else [word]
  | c :: text =>
    if isSpace c then if word = [] then splitFrom [] text else word :: splitFrom [] text
    else splitFrom (word ++ [c]) text

def split (text : List Char) : List (List Char) := splitFrom [] text

section

-- the value of a decimal digit of Unicode, and `float` of a text
variable (digit : Char → Option Nat) (float : List Char → Option ℚ)

/-- `fields[i]`. -/
def field (fields : List (List Char)) (i : Nat) : Except TraceError (List Char) :=
  match fields[i]? with
  | some text => .ok text
  | none => .error .indexError

/-- `int(fields[i])`. -/
def intField (fields : List (List Char)) (i : Nat) : Except TraceError ℤ := do
  let text ← field fields i
  match toInt? digit text with
  | some n => .ok n
  | none => .error .valueError

/-- `float(fields[i])`. -/
def floatField (fields : List (List Char)) (i : Nat) : Except TraceError ℚ := do
  let text ← field fields i
  match float text with
  | some x => .ok x
  | none => .error .valueError

/-- `layouts[model_id]`. -/
def layoutOf (layouts : Dict ℤ Layout) (modelId : ℤ) : Except TraceError Layout :=
  match layouts.get? modelId with
  | some layout => .ok layout
  | none => .error .keyError

/-! ## `load_trace` -/

/-- `scaled`, before the model and the pool bound it. -/
def scaledTokens (inputTokens : ℤ) (inputScale : ℚ) : ℤ := max 1 ⌊inputTokens * inputScale + 1 / 2⌋

def clampTokens (o : Options) (layout : Layout) (inputTokens : ℤ) : ℤ :=
  let scaled := min (scaledTokens inputTokens o.inputScale) layout.maxInputTokens
  min scaled (max 1 ((o.poolPages - layout.pageCount) * o.kvBlockTokens - max 1 o.outputTokens))

def outputTokens (o : Options) (traceOutputTokens : ℤ) : ℤ := if 0 < o.outputTokens then o.outputTokens else traceOutputTokens

/-- The request of a line that is kept. -/
def toRequest (o : Options) (layouts : Dict ℤ Layout) (requestId : Nat) (modelId : ℤ) (fields : List (List Char)) :
    Except TraceError Request := do
  let inputTokens ← intField digit fields 2
  let traceOutputTokens ← intField digit fields 3
  let layout ← layoutOf layouts modelId
  .ok ⟨requestId, modelId, clampTokens o layout inputTokens, outputTokens o traceOutputTokens, traceOutputTokens⟩

/-- The loop of `load_trace`, with the fields of a line beside its request. -/
def loadTraceFrom (o : Options) (layouts : Dict ℤ Layout) (sourceRequests : Nat) (previous : Option ℤ) (requestId : Nat) :
    List (List Char) → Except TraceError (List (List (List Char) × Request))
  | [] => .ok []
  | line :: lines => do
    let line := strip line
    if line = [] ∨ line.head? = some '#' then loadTraceFrom o layouts sourceRequests previous requestId lines
    else
      let fields := split line
      let modelId ← intField digit fields 1
      let sourceRequests := sourceRequests + 1
      let keep := ¬(o.traceMode = .modelSwitches ∧ previous = some modelId)
      if keep then
        let request ← toRequest digit o layouts requestId modelId fields
        if 0 < o.maxRequests ∧ o.maxRequests ≤ sourceRequests then .ok [(fields, request)]
        else
          let rest ← loadTraceFrom o layouts sourceRequests (some modelId) (requestId + 1) lines
          .ok ((fields, request) :: rest)
      else if 0 < o.maxRequests ∧ o.maxRequests ≤ sourceRequests then .ok []
      else loadTraceFrom o layouts sourceRequests (some modelId) requestId lines

/-- `load_trace`, with the fields of the lines beside the requests. -/
def loadTrace (o : Options) (layouts : Dict ℤ Layout) (text : List Char) :
    Except TraceError (List (List (List Char) × Request)) :=
  loadTraceFrom digit o layouts 0 none 0 (fileLines (universalNewlines text))

/-! ## `load_trace_arrivals` -/

/-- The loop of `load_trace_arrivals`, with the fields of a line beside its arrival. -/
def rawArrivalsFrom (maxRequests : ℤ) (traceMode : Mode) (sourceRequests : Nat) (previous : Option ℤ) :
    List (List Char) → Except TraceError (List (List (List Char) × ℚ))
  | [] => .ok []
  | line :: lines => do
    let line := strip line
    if line = [] ∨ line.head? = some '#' then rawArrivalsFrom maxRequests traceMode sourceRequests previous lines
    else
      let fields := split line
      let modelId ← intField digit fields 1
      let sourceRequests := sourceRequests + 1
      let keep := ¬(traceMode = .modelSwitches ∧ previous = some modelId)
      let arrivals ← if keep then (floatField float fields 0).map fun arrival => [(fields, arrival)] else .ok []
      if 0 < maxRequests ∧ maxRequests ≤ sourceRequests then .ok arrivals
      else
        let rest ← rawArrivalsFrom maxRequests traceMode sourceRequests (some modelId) lines
        .ok (arrivals ++ rest)

def rawArrivals (maxRequests : ℤ) (traceMode : Mode) (text : List Char) : Except TraceError (List (List (List Char) × ℚ)) :=
  rawArrivalsFrom digit float maxRequests traceMode 0 none (fileLines (universalNewlines text))

/-- Poisson arrivals, with the gaps that the random numbers give, or the arrivals of the trace. -/
inductive ArrivalMode where
  | poisson (expovariate : Nat → ℚ)
  | traceScaled

/-- The arrivals that start at zero and have the gaps. -/
def poissonArrivals (expovariate : Nat → ℚ) (requestCount : Nat) : List ℚ :=
  (List.range requestCount).map fun i => ((List.range i).map expovariate).sum

/-- What `load_trace_arrivals` makes of the arrivals of the lines. -/
def normalizeArrivals (arrivalMode : ArrivalMode) (requestRateRps : ℚ) (requestCount : Nat) (raw : List ℚ) :
    Except TraceError (List ℚ) :=
  if raw.length ≠ requestCount then .error (.filteringMismatch raw.length requestCount)
  else
    match raw with
    | [] => .ok []
    | first :: _ =>
      match arrivalMode with
      | .poisson expovariate => .ok (poissonArrivals expovariate requestCount)
      | .traceScaled =>
        let normalized := raw.map (· - first)
        let span := normalized.getLast?.getD 0
        if requestCount ≤ 1 then .ok [0]
        else if span ≤ 0 then .error .nonPositiveSpan
        else .ok (normalized.map (· * ((requestCount - 1) / span / requestRateRps)))

def loadTraceArrivals (maxRequests : ℤ) (traceMode : Mode) (requestCount : Nat) (arrivalMode : ArrivalMode) (requestRateRps : ℚ)
    (text : List Char) : Except TraceError (List ℚ) := do
  let raw ← rawArrivals digit float maxRequests traceMode text
  normalizeArrivals arrivalMode requestRateRps requestCount (raw.map Prod.snd)

end

/-! ## Feasibility -/

/-- `ceil_div`, on integers. -/
def ceilDiv (value divisor : ℤ) : ℤ := (value + divisor - 1) / divisor

/-- The weights of a model and the KV blocks of a request fit the pool. -/
def Fits (o : Options) (layout : Layout) (inputTokens outputTokens : ℤ) : Prop :=
  layout.pageCount + ceilDiv (inputTokens + outputTokens) o.kvBlockTokens ≤ o.poolPages

instance (o : Options) (layout : Layout) (inputTokens outputTokens : ℤ) : Decidable (Fits o layout inputTokens outputTokens) :=
  inferInstanceAs (Decidable (_ ≤ _))

end ServerlessLLM.Simulator.Trace
