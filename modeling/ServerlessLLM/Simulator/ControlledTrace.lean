import Mathlib.Data.List.Sort
import Mathlib.Data.Rat.Floor
import ServerlessLLM.Library.Dict

/-!
# Controlled traces

`generate_target_trace.py`: a sequence of models with given counts and no two equal neighbours, which swaps bring towards a
reuse distance. `Rng` holds the numbers that the generator draws; times and losses are exact, and `exp` and `log2` are left
open.
-/

namespace ServerlessLLM.Simulator.ControlledTrace

/-- The exceptions. -/
inductive SequenceError where
  /-- `model counts cannot be arranged without consecutive repeats` -/
  | noArrangement
  /-- `low-distance tail cannot avoid a consecutive repeat` -/
  | repeatedTail
  /-- `max` or `rng.choice` of nothing -/
  | emptySequence
  /-- `empty range for randrange` -/
  | emptyRange
deriving DecidableEq

/-- What `random.Random` draws, from the next number on. -/
abbrev Rng := ℕ → ℕ

/-- The numbers behind the next one. -/
def Rng.next (rng : Rng) : Rng := fun i => rng (i + 1)

def choice (l : List ℤ) (rng : Rng) : Except SequenceError (ℤ × Rng) :=
  match l[rng 0 % l.length]? with
  | some m => .ok (m, rng.next)
  | none => .error .emptySequence

def randrange (start stop : ℕ) (rng : Rng) : Except SequenceError (ℕ × Rng) :=
  if start < stop then .ok (start + rng 0 % (stop - start), rng.next) else .error .emptyRange

def random (rng : Rng) : ℚ × Rng := ((rng 0 % 2 ^ 53 : ℕ) / 2 ^ 53, rng.next)

/-- A `Counter`: its keys in order, and zero for the others. -/
structure Counter where
  models : List ℤ
  value : ℤ → ℤ

namespace Counter

/-- `Counter(counts)`. -/
def ofCounts (counts : Dict ℤ ℕ) : Counter := ⟨counts.keys, fun m => ((counts.get? m).getD 0 : ℕ)⟩

/-- `remaining[model_id] -= 1`. -/
def subtract (c : Counter) (m : ℤ) : Counter :=
  ⟨if m ∈ c.models then c.models else c.models ++ [m], Function.update c.value m (c.value m - 1)⟩

/-- `sum(remaining.values())`. -/
def sum (c : Counter) : ℤ := (c.models.map c.value).sum

/-- The models of the list with the most requests that remain. -/
def most (c : Counter) (l : List ℤ) : List ℤ := l.filter fun m => some (c.value m) = (l.map c.value).max?

end Counter

structure Tail where
  sequence : List ℤ
  remaining : Counter

namespace Tail

def append (t : Tail) (m : ℤ) : Tail := ⟨t.sequence ++ [m], t.remaining.subtract m⟩

def available (t : Tail) : List ℤ := t.remaining.models.filter fun m => 0 < t.remaining.value m

/-- Those that are not the last one. -/
def candidates (t : Tail) : List ℤ := t.available.filter fun m => t.sequence.getLast? ≠ some m

/-- `last_seen.get(model_id, -1)`: where the model is last in the sequence. -/
def lastSeen (t : Tail) (m : ℤ) : ℤ :=
  match t.sequence.reverse.idxOf? m with
  | some i => t.sequence.length - 1 - i
  | none => -1

/-- The loop of `balanced_count_sequence`. -/
def balancedStep (t : Tail) (rng : Rng) : Except SequenceError (Tail × Rng) :=
  if t.candidates = [] then .error .noArrangement
  else (choice (t.remaining.most t.candidates) rng).map fun c => (t.append c.1, c.2)

/-- The loop of `max_distance_tail`. -/
def oldestStep (t : Tail) (rng : Rng) : Except SequenceError (Tail × Rng) :=
  if t.candidates = [] then .error .noArrangement
  else
    let oldest := t.candidates.filter fun m => some (t.lastSeen m) = (t.candidates.map t.lastSeen).min?
    (choice (t.remaining.most oldest) rng).map fun c => (t.append c.1, c.2)

/-- The variables of the inner loops of `min_distance_tail`. -/
structure Pair where
  first : ℤ
  second : ℤ
  tail : Tail

/-- A model of the pair is appended, or the other one behind itself. -/
def Pair.add (p : Pair) (m : ℤ) : Pair :=
  if p.tail.sequence.getLast? = some m then ⟨p.second, p.first, p.tail.append p.second⟩ else
    ⟨p.first, p.second, p.tail.append m⟩

/-- `for model_id in (first, second)`. -/
def Pair.round (p : Pair) : Pair := [p.first, p.second].foldl Pair.add p

/-- The loop of `min_distance_tail`. -/
def pairStep (t : Tail) (rng : Rng) : Except SequenceError (Tail × Rng) :=
  match t.available with
  | [m] => if t.sequence.getLast? = some m then .error .repeatedTail else .ok (t.append m, rng)
  | available => do
    let firstChoices := (t.remaining.most available).filter fun m => t.sequence.getLast? ≠ some m
    let (first, rng) ← choice (if firstChoices = [] then t.candidates else firstChoices) rng
    let (second, rng) ← choice (t.remaining.most (available.filter fun m => m ≠ first)) rng
    let pairCount := min (t.remaining.value first) (t.remaining.value second)
    .ok ((Pair.round^[pairCount.toNat] ⟨first, second, t⟩).tail, rng)

/-- `while sum(remaining.values())`. -/
def fill (step : Tail → Rng → Except SequenceError (Tail × Rng)) : ℕ → Tail → Rng → Except SequenceError (List ℤ × Rng)
  | 0, t, rng => if t.remaining.sum = 0 then .ok (t.sequence, rng) else .error .noArrangement
  | fuel + 1, t, rng =>
    if t.remaining.sum = 0 then .ok (t.sequence, rng)
    else do
      let (t, rng) ← step t rng
      fill step fuel t rng

/-- The loop from here on. A round appends a model that remains, so that there are no more rounds than requests. -/
def run (step : Tail → Rng → Except SequenceError (Tail × Rng)) (t : Tail) (rng : Rng) : Except SequenceError (List ℤ × Rng) :=
  fill step (t.remaining.models.map fun m => (t.remaining.value m).toNat).sum t rng

def ofFrozen (frozen : List ℤ) (counts : Dict ℤ ℕ) : Tail := ⟨frozen, frozen.foldl Counter.subtract (Counter.ofCounts counts)⟩

end Tail

def balancedCountSequence (counts : Dict ℤ ℕ) : Rng → Except SequenceError (List ℤ × Rng) :=
  Tail.run Tail.balancedStep ⟨[], Counter.ofCounts counts⟩

def maxDistanceTail (frozen : List ℤ) (counts : Dict ℤ ℕ) : Rng → Except SequenceError (List ℤ × Rng) :=
  Tail.run Tail.oldestStep (Tail.ofFrozen frozen counts)

def minDistanceTail (frozen : List ℤ) (counts : Dict ℤ ℕ) : Rng → Except SequenceError (List ℤ × Rng) :=
  Tail.run Tail.pairStep (Tail.ofFrozen frozen counts)

/-! ## Metrics -/

/-- `round`, to the even number between two. -/
def roundEven (x : ℚ) : ℤ :=
  if Int.fract x < 1 / 2 then ⌊x⌋ else if 1 / 2 < Int.fract x then ⌊x⌋ + 1 else if 2 ∣ ⌊x⌋ then ⌊x⌋ else ⌊x⌋ + 1

def percentile (values : List ℕ) (fraction : ℚ) : ℕ :=
  (values.insertionSort (· ≤ ·)).getD (roundEven (fraction * (values.length - 1 : ℤ))).toNat 0

/-- `statistics.fmean`, zero of nothing. -/
def mean (values : List ℕ) : ℚ := (values.sum : ℚ) / values.length

/-- The mean and the percentiles of a kind of distance. -/
structure Summary where
  mean : ℚ
  p50 : ℕ
  p90 : ℕ
  p95 : ℕ
  p99 : ℕ

def Summary.of (l : List ℕ) : Summary :=
  ⟨ControlledTrace.mean l, percentile l (1 / 2), percentile l (9 / 10), percentile l (19 / 20), percentile l (99 / 100)⟩

/-- What `sequence_metrics` returns. -/
structure Metrics where
  requests : ℕ
  counts : List (ℤ × ℕ)
  modelShares : List (ℤ × ℚ)
  modelSwitchRate : ℚ
  distinct : Summary
  distinctHistogram : List (ℕ × ℕ)
  requestGap : Summary
  requestGapWithinKFraction : ℚ
  byModelDistinctMean : List (ℤ × ℚ)
  byModelRequestGapMean : List (ℤ × ℚ)
  transitionEntropyBits : ℚ

/-- The loop of `sequence_metrics`: each request for a model seen before, with its distance and its gap. -/
def reuses (last : Dict ℤ ℕ) (index : ℕ) : List ℤ → List (ℤ × ℕ × ℕ)
  | [] => []
  | m :: rest =>
    let behind := reuses (last.set m index) (index + 1) rest
    match last.get? m with
    | none => behind
    | some previous => (m, last.entries.countP fun e => e.1 ≠ m ∧ previous < e.2, index - previous) :: behind

/-- The values in order, each with the number of its occurrences. -/
def histogram {α : Type} [LinearOrder α] (l : List α) : List (α × ℕ) :=
  (l.dedup.insertionSort (· ≤ ·)).map fun a => (a, l.count a)

def byModel (l : List (ℤ × ℕ)) : List (ℤ × ℚ) :=
  ((l.map Prod.fst).dedup.insertionSort (· ≤ ·)).map fun m => (m, mean ((l.filter fun e => e.1 = m).map Prod.snd))

def sequenceMetrics (log2 : ℚ → ℚ) (lookaheadK : ℤ) (sequence : List ℤ) : Metrics :=
  let found := reuses .empty 0 sequence
  let distinct := found.map fun e => e.2.1
  let gaps := found.map fun e => e.2.2
  let transitions := sequence.zip sequence.tail
  let total : ℚ := (max 1 (sequence.length - 1) : ℕ)
  { requests := sequence.length
    counts := histogram sequence
    modelShares := (histogram sequence).map fun e => (e.1, e.2 / sequence.length)
    modelSwitchRate := transitions.countP (fun e => e.1 ≠ e.2) / total
    distinct := .of distinct
    distinctHistogram := histogram distinct
    requestGap := .of gaps
    requestGapWithinKFraction := gaps.countP (fun gap => (gap : ℤ) ≤ lookaheadK) / gaps.length
    byModelDistinctMean := byModel (found.map fun e => (e.1, e.2.1))
    byModelRequestGapMean := byModel (found.map fun e => (e.1, e.2.2))
    transitionEntropyBits := -(transitions.dedup.map fun e => transitions.count e / total *
      log2 (transitions.count e / total)).sum }

/-- `objective`, with `target` where it counts. -/
inductive Objective where
  | min
  | max
  | target (value : ℚ)

/-- `controlled_loss`. The constraint is that of `reference`. -/
def controlledLoss (objective : Objective) (constrained : Bool) (reference metrics : Metrics) : ℚ :=
  let withinKDelta := |metrics.requestGapWithinKFraction - reference.requestGapWithinKFraction|
  let gapP50Delta := |(metrics.requestGap.p50 - reference.requestGap.p50 : ℚ)|
  let gapP90Delta := |(metrics.requestGap.p90 - reference.requestGap.p90 : ℚ)|
  let constraintPenalty := if constrained then 12 * Max.max 0 (withinKDelta - 1 / 50) + 2 / 25 * Max.max 0 (gapP50Delta - 1) +
    1 / 25 * Max.max 0 (gapP90Delta - 1) else 0
  let primary := match objective with
    | .min => metrics.distinct.mean
    | .max => -metrics.distinct.mean
    | .target value => |metrics.distinct.mean - value|
  primary + constraintPenalty

/-! ## Swaps -/

/-- What is at an index after the swap. -/
def swappedAt (sequence : List ℤ) (first second index : ℕ) : Option ℤ :=
  if index = first then sequence[second]? else if index = second then sequence[first]? else sequence[index]?

/-- The indices beside an index. -/
def neighbors (index length : ℕ) : List ℕ := ((if 0 < index then [index - 1] else []) ++ [index + 1]).filter (· < length)

def ValidSwap (sequence : List ℤ) (first second frozenPrefix : ℕ) : Prop :=
  frozenPrefix ≤ first ∧ frozenPrefix ≤ second ∧ first ≠ second ∧ sequence[first]? ≠ sequence[second]? ∧
    ∀ index ∈ [first, second], ∀ neighbor ∈ neighbors index sequence.length,
      swappedAt sequence first second index ≠ swappedAt sequence first second neighbor

instance (sequence : List ℤ) (first second frozenPrefix : ℕ) : Decidable (ValidSwap sequence first second frozenPrefix) :=
  inferInstanceAs (Decidable (_ ∧ _ ∧ _ ∧ _ ∧ _))

/-- `current[first], current[second] = current[second], current[first]`. -/
def swap (sequence : List ℤ) (first second : ℕ) : List ℤ :=
  match sequence[first]?, sequence[second]? with
  | some a, some b => (sequence.set first b).set second a
  | _, _ => sequence

structure Search where
  current : List ℤ
  currentLoss : ℚ
  best : List ℤ
  bestMetrics : Metrics
  bestLoss : ℚ
  rng : Rng

section

variable (exp : ℚ → ℚ) (metricsOf : List ℤ → Metrics) (lossOf : Metrics → ℚ) (frozenPrefix iterations : ℕ)

def Search.step (s : Search) (iteration : ℕ) : Except SequenceError Search := do
  let (first, rng) ← randrange frozenPrefix s.current.length s.rng
  let (second, rng) ← randrange frozenPrefix s.current.length rng
  if ¬ValidSwap s.current first second frozenPrefix then .ok { s with rng := rng }
  else
    let current := swap s.current first second
    let candidateMetrics := metricsOf current
    let candidateLoss := lossOf candidateMetrics
    let progress : ℚ := iteration / (Max.max 1 (iterations - 1) : ℕ)
    let temperature := 1 / 10 * (1 - progress) + 1 / 1000
    let (draw, next) := random rng
    let rng := if candidateLoss ≤ s.currentLoss then rng else next
    if candidateLoss ≤ s.currentLoss ∨ draw < exp ((s.currentLoss - candidateLoss) / temperature) then
      if candidateLoss < s.bestLoss then .ok ⟨current, candidateLoss, current, candidateMetrics, candidateLoss, rng⟩
      else .ok { s with current := current, currentLoss := candidateLoss, rng := rng }
    else .ok { s with current := swap current first second, rng := rng }

end

inductive Initialization where
  | balanced
  | maxDistance
  | minDistance

/-- The sequence that the search starts from. -/
def initialSequence (initialization : Initialization) (frozenPrefix : ℕ) (counts : Dict ℤ ℕ) (balanced : List ℤ) (rng : Rng) :
    Except SequenceError (List ℤ × Rng) :=
  match initialization with
  | .maxDistance => maxDistanceTail (balanced.take frozenPrefix) counts rng
  | .minDistance => minDistanceTail (balanced.take frozenPrefix) counts rng
  | .balanced => .ok (balanced, rng)

def controlledDistinctSequence (exp log2 : ℚ → ℚ) (counts : Dict ℤ ℕ) (rng : Rng) (frozenPrefix iterations : ℕ)
    (objective : Objective)
    (lookaheadK : ℤ) (constrained : Bool) (initialization : Initialization) :
      Except SequenceError (List ℤ × Metrics × Metrics) := do
  let (balanced, rng) ← balancedCountSequence counts rng
  let (sequence, rng) ← initialSequence initialization frozenPrefix counts balanced rng
  let reference := sequenceMetrics log2 lookaheadK sequence
  let loss := controlledLoss objective constrained reference
  let start : Search := ⟨sequence, loss reference, sequence, reference, loss reference, rng⟩
  let found ← (List.range iterations).foldlM
    (Search.step exp (sequenceMetrics log2 lookaheadK) loss frozenPrefix iterations) start
  .ok (found.best, reference, found.bestMetrics)

end ServerlessLLM.Simulator.ControlledTrace
