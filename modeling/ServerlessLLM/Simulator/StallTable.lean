import ServerlessLLM.Simulator.Mckp

/-!
# How a stall table is made

From the samples of a model, `group_boundaries` of `profile_layerweave_group_boundaries.py` and the medians over the samples;
from these the rows that `build_layerweave_offline_stall_table.py` writes; and `_simulate_component_stall` of
`tensor_sim_mckp.py`, which replays a row, with `exposed_loading_components` and `curve`. Times are in milliseconds, and exact.
-/

namespace ServerlessLLM.Simulator

namespace StallTable

/-- A group of a model, as the profile has it. -/
structure Group where
  stages : List String
  logicalBytes : Nat
  observed : Bool

/-- A sample: the times at which the stages began, and the end of the pass. -/
structure Sample where
  stageTimes : Dict String ℚ
  forwardEndMs : ℚ

structure TokenProfile where
  inputTokens : Nat
  samples : List Sample
  samples_ne_nil : samples ≠ []
  eventGpuOverheadMs : Option ℚ
  medianBaselineWallMs : Option ℚ

structure ModelProfile where
  modelId : Nat
  groups : List Group
  profiles : List TokenProfile
  profiles_ne_nil : profiles ≠ []
  nodup : (profiles.map TokenProfile.inputTokens).Nodup

structure Costs where
  h2dBytesPerMs : ℚ
  bytesPerMs_pos : 0 < h2dBytesPerMs
  allocationMs : ℚ
  allocationMs_nonneg : 0 ≤ allocationMs

/-- A row of the table, with the boundaries that it was made from. -/
structure TableRow extends StallRow where
  groupBoundaryMs : List ℚ

/-! ## The profiler -/

/-- `group_boundaries`, from a boundary on. -/
def groupBoundariesFrom (stageTimes : Dict String ℚ) (forwardEndMs previous : ℚ) : List Group → List ℚ
  | [] => []
  | group :: groups =>
    let observed := group.stages.filterMap stageTimes.get?
    let boundary := max previous (observed.min?.getD forwardEndMs)
    boundary :: groupBoundariesFrom stageTimes forwardEndMs boundary groups

def groupBoundaries (groups : List Group) (stageTimes : Dict String ℚ) (forwardEndMs : ℚ) : List ℚ :=
  groupBoundariesFrom stageTimes forwardEndMs 0 groups

def median (data : List ℚ) : ℚ :=
  let data := data.insertionSort (· ≤ ·)
  if data.length % 2 = 1 then data.getD (data.length / 2) 0
  else (data.getD (data.length / 2 - 1) 0 + data.getD (data.length / 2) 0) / 2

def TokenProfile.medianGroupBoundaryMs (profile : TokenProfile) (groups : List Group) : List ℚ :=
  (List.range groups.length).map fun index => median
    (profile.samples.map fun sample => (groupBoundaries groups sample.stageTimes sample.forwardEndMs).getD index 0)

/-! ## The builder -/

/-- The loop of `correct_event_overhead`. -/
def correctFrom (overheadMs : ℚ) (observedTotal observedRank : Nat) (previous : ℚ) : List (ℚ × Group) → List ℚ
  | [] => []
  | (boundary, group) :: rest =>
    let observedRank := if group.observed then observedRank + 1 else observedRank
    let value := boundary - overheadMs * observedRank / observedTotal
    let value := max (max previous value) 0
    value :: correctFrom overheadMs observedTotal observedRank value rest

def correctEventOverhead (boundaries : List ℚ) (groups : List Group) (overheadMs : Option ℚ) : List ℚ :=
  let overheadMs := max 0 (overheadMs.getD 0)
  let observedTotal := groups.countP Group.observed
  if boundaries = [] ∨ observedTotal = 0 ∨ overheadMs = 0 then boundaries
  else correctFrom overheadMs observedTotal 0 0 (boundaries.zip groups)

/-- What the replay of a profile carries from one boundary to the next: its actual and its measured time, and the end of the
copies. -/
structure Clock where
  previous : Option (ℚ × ℚ)
  copyEnd : ℚ

/-- A boundary in the replay, with the time to load the group if it is missing. -/
def Clock.boundary (clock : Clock) (baseline : ℚ) (loadMs : Option ℚ) : Clock :=
  let computeReady := match clock.previous with
    | none => baseline
    | some (actualPrevious, baselinePrevious) => actualPrevious + max 0 (baseline - baselinePrevious)
  match loadMs with
  | none => ⟨some (computeReady, baseline), clock.copyEnd⟩
  | some loadMs =>
    let loadStart := match clock.previous with
      | none => clock.copyEnd
      | some (actualPrevious, _) => max clock.copyEnd actualPrevious
    let copyEnd := loadStart + loadMs
    ⟨some (max computeReady copyEnd, baseline), copyEnd⟩

def replayFrom (resident : Nat → Bool) (loadMs : Group → ℚ) (clock : Clock) (index : Nat) : List (ℚ × Group) → Clock
  | [] => clock
  | (baseline, group) :: rest =>
    let missing := !resident index && group.observed
    replayFrom resident loadMs (clock.boundary baseline (if missing then some (loadMs group) else none)) (index + 1) rest

/-- The stall of a replay: how much later it ends than the measured pass. -/
def replayStall (boundaries : List ℚ) (groups : List Group) (resident : Nat → Bool) (loadMs : Group → ℚ) : ℚ :=
  match (replayFrom resident loadMs ⟨none, 0⟩ 0 (boundaries.zip groups)).previous with
  | none => 0
  | some (actualPrevious, _) => max 0 (actualPrevious - boundaries.getLast?.getD 0)

def simulateResidencyStall (boundaries : List ℚ) (groups : List Group) (resident : Nat → Bool)
    (h2dBytesPerMs allocationMs : ℚ) : ℚ :=
  replayStall boundaries groups resident fun group => group.logicalBytes / h2dBytesPerMs + allocationMs

def simulateComponentStall (boundaries : List ℚ) (groups : List Group) (resident : Nat → Bool) (h2dBytesPerMs : Option ℚ)
    (allocationMs : ℚ) : ℚ :=
  replayStall boundaries groups resident fun group =>
    (match h2dBytesPerMs with
      | some h2dBytesPerMs => group.logicalBytes / h2dBytesPerMs
      | none => 0) + allocationMs

def simulatePrefixStall (boundaries : List ℚ) (groups : List Group) (prefixCount : Nat) (h2dBytesPerMs allocationMs : ℚ) : ℚ :=
  simulateResidencyStall boundaries groups (fun index => index < prefixCount) h2dBytesPerMs allocationMs

def simulateSuffixStall (boundaries : List ℚ) (groups : List Group) (suffixStart : Nat) (h2dBytesPerMs allocationMs : ℚ) : ℚ :=
  simulateResidencyStall boundaries groups (fun index => suffixStart ≤ index) h2dBytesPerMs allocationMs

/-- Each value is raised to that after it, from the last one on. -/
def raiseBackward : List ℚ → List ℚ
  | [] => []
  | value :: values =>
    match raiseBackward values with
    | [] => [value]
    | next :: rest => max value next :: next :: rest

def monotoneEnvelope (values : List ℚ) : List ℚ := raiseBackward ((values.map (max 0)).set (values.length - 1) 0)

/-- Each value is raised to that before it. -/
def raiseForward (previous : ℚ) : List ℚ → List ℚ
  | [] => []
  | value :: values => max value previous :: raiseForward (max value previous) values

def increasingMonotoneEnvelope (values : List ℚ) : List ℚ :=
  match (values.map (max 0)).set 0 0 with
  | [] => []
  | value :: values => value :: raiseForward value values

variable (costs : Costs)

def prefixStalls (groups : List Group) (boundaries : List ℚ) : List ℚ :=
  (List.range (groups.length + 1)).map fun prefixCount =>
    simulatePrefixStall boundaries groups prefixCount costs.h2dBytesPerMs costs.allocationMs

def suffixStalls (groups : List Group) (boundaries : List ℚ) : List ℚ :=
  (List.range (groups.length + 1)).map fun suffixStart =>
    simulateSuffixStall boundaries groups suffixStart costs.h2dBytesPerMs costs.allocationMs

def tableRow (groups : List Group) (profile : TokenProfile) : TableRow :=
  let boundaries := profile.medianGroupBoundaryMs groups
  let correctedBoundaries := correctEventOverhead boundaries groups profile.eventGpuOverheadMs
  { inputTokens := profile.inputTokens
    prefixStallMs := monotoneEnvelope (prefixStalls costs groups correctedBoundaries)
    suffixStallMs := some (increasingMonotoneEnvelope (suffixStalls costs groups correctedBoundaries))
    medianBaselineWallMs := profile.medianBaselineWallMs
    groupBoundaryMs := correctedBoundaries }

def tableRows (profile : ModelProfile) : List TableRow :=
  (profile.profiles.insertionSort fun a b => a.inputTokens ≤ b.inputTokens).map (tableRow costs profile.groups)

def tableModel (profile : ModelProfile) : StallModel where
  groupCount := profile.groups.length
  prefixBytes := (profile.groups.map Group.logicalBytes).scanl (· + ·) 0
  rows := (tableRows costs profile).map TableRow.toStallRow

def document (profiles : List ModelProfile) : List (Nat × StallModel) :=
  profiles.map fun profile => (profile.modelId, tableModel costs profile)

end StallTable

namespace PrefixStallTable

open StallTable

variable (table : PrefixStallTable)

def curve (model inputTokens : Nat) : Except TableError (List ℚ) :=
  match table.models.get? model with
  | none => .error .keyError
  | some item => do
    let values ← (List.range (item.groupCount + 1)).mapM (table.lookup model inputTokens)
    .ok (raiseBackward (values.set (values.length - 1) 0))

/-- What a document has beyond the stalls: the groups of the models, the `group_boundary_ms` of their rows (by model and input
length), and the metadata. -/
structure LoadingProfile where
  groups : Nat → List Group
  groupBoundaryMs : Nat → Nat → Option (List ℚ)
  h2dGbps : Option ℚ
  segmentAllocationMs : Option ℚ

/-- The kind of residency that a state counts: the groups of a prefix, or those from which a suffix is resident. -/
inductive ResidencyKind where
  | prefixGroups
  | suffixGroups
deriving DecidableEq

def ResidencyKind.resident (kind : ResidencyKind) (stateCount index : Nat) : Bool :=
  match kind with
  | .prefixGroups => index < stateCount
  | .suffixGroups => stateCount ≤ index

/-- The stall that is attributed. -/
def target (kind : ResidencyKind) (model inputTokens stateCount : Nat) : Except TableError ℚ :=
  match kind with
  | .prefixGroups => table.lookup model inputTokens stateCount
  | .suffixGroups => table.lookupSuffix model inputTokens stateCount

/-- The stall of a row with some of the costs. -/
def LoadingProfile.replay (profile : LoadingProfile) (h2dGbps segmentAllocationMs : ℚ) (model : Nat) (kind : ResidencyKind)
    (stateCount : Nat) (useH2d useAllocation : Bool) (row : StallRow) : ℚ :=
  simulateComponentStall ((profile.groupBoundaryMs model row.inputTokens).getD []) (profile.groups model)
    (kind.resident stateCount)
    (if useH2d then some (h2dGbps * 1000000) else none) (if useAllocation then segmentAllocationMs else 0)

/-- The shares of the transfers and of the allocations in a stall (a Shapley attribution). -/
def shapley (target h2dOnly allocationOnly both : ℚ) : ℚ × ℚ :=
  let h2d := (h2dOnly + both - allocationOnly) / 2
  let allocation := (allocationOnly + both - h2dOnly) / 2
  let attributed := h2d + allocation
  if target ≤ 0 ∨ attributed ≤ 0 then (max 0 target, 0)
  else
    let scale := target / attributed
    (max 0 (h2d * scale), max 0 (allocation * scale))

/-- How a stall is attributed: all of it to the transfers, unless the profile has what it takes to replay the rows.
`_interpolate_scalar` goes between the rows as `_lookup_field` does. -/
def attribution (profile : LoadingProfile) (model : Nat) (item : StallModel) (inputTokens stateCount : Nat)
    (kind : ResidencyKind)
    (exposed : ℚ) : ℚ × ℚ :=
  match profile.h2dGbps, profile.segmentAllocationMs with
  | some h2dGbps, some segmentAllocationMs =>
    if profile.groups model = [] ∨ ∃ row ∈ item.rows, profile.groupBoundaryMs model row.inputTokens = none then (exposed, 0)
    else
      let interpolate (useH2d useAllocation : Bool) : ℚ :=
        lookupRows table.inputExtrapolation inputTokens (item.rows.map fun row =>
        (row.inputTokens, profile.replay h2dGbps segmentAllocationMs model kind stateCount useH2d useAllocation row))
      shapley exposed (interpolate true false) (interpolate false true) (interpolate true true)
  | _, _ => (exposed, 0)

def exposedLoadingComponents (profile : LoadingProfile) (model inputTokens stateCount : Nat) (kind : ResidencyKind) :
    Except TableError (ℚ × ℚ) :=
  match table.models.get? model with
  | none => .error .keyError
  | some item => (table.target kind model inputTokens stateCount).map
      (table.attribution profile model item inputTokens stateCount kind)

end PrefixStallTable

end ServerlessLLM.Simulator
