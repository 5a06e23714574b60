import ServerlessLLM.Layerweave.Estimator
import ServerlessLLM.Library.Runs
import ServerlessLLM.Simulator.Theorems.Pipeline

/-!
# The estimator and the simulator agree

`_simulate_gpu` with prefetch runs the recurrence of `Library.Pipeline` over the stages of a batch, as `execute_request` does
over the tensors of a model; without prefetch the stages come one after another.
-/

namespace ServerlessLLM

open Prod Outcome

open Pipeline (Clock)

/-! ## The timeline of a request -/

namespace Simulator.MemoryBackend

variable {σ : Type} {b : MemoryBackend σ} {s s' : σ} {durations : Dict Nat ℚ}

def timelineStages (timeline : List StageTimes) : List (ℚ × ℚ) := timeline.map fun t => (t.loadMs, t.computeMs)

theorem executeTensors_timeline {model : Nat} {tensors : List TensorSpec} {total total' : LoadCost}
    {clock clock' : PipelineClock}
    {index : Nat} {timeline : List StageTimes}
    (h : b.executeTensors durations true model s total clock index tensors = .ok (timeline, total', clock', s')) :
    clock'.computeEnd = ((clock.toClock index).run (timelineStages timeline)).computeEnd := by
  induction tensors generalizing s total clock index timeline with
  | nil =>
    cases h
    rfl
  | cons tensor tensors ih =>
    unfold executeTensors at h
    obtain ⟨⟨load, s₁⟩, -, h⟩ := bind_eq_ok.1 h
    obtain ⟨computeMs, -, h⟩ := bind_eq_ok.1 h
    obtain ⟨⟨timeline, rest⟩, hrs, h⟩ := bind_eq_ok.1 h
    cases h
    have hend : clock'.computeEnd =
        (((clock.stage index load.readyMs computeMs).2.toClock (index + 1)).run (timelineStages timeline)).computeEnd := ih hrs
    rw [PipelineClock.toClock_stage] at hend
    exact hend

theorem executeRequest_timeline {request : Request} {m : TensorModel} {args : Args} {total plan : LoadCost} {s₁ s₂ : σ}
    {row : RequestRow}
    (hbegin : b.beginRequest s (kvBytes request args) request.modelId = .ok (total, s₁))
    (hpl : b.planRequest s₁ request.modelId m.tensors = .ok (plan, s₂)) (hsetup : (total.add plan).readyMs = 0)
    (h : b.executeRequest durations true s request m args = .ok (row, s')) :
    row.criticalPathMs = ((Clock.init 0).run (timelineStages row.timeline)).computeEnd := by
  unfold executeRequest at h
  obtain ⟨p, hp, h⟩ := bind_eq_ok.1 h
  obtain rfl := Except.ok.inj (hbegin.symm.trans hp)
  obtain ⟨p, hp, h⟩ := bind_eq_ok.1 h
  obtain rfl := Except.ok.inj (hpl.symm.trans hp)
  obtain ⟨⟨timeline, total', clock, s₃⟩, hrun, h⟩ := bind_eq_ok.1 h
  obtain ⟨s₄, -, h⟩ := bind_eq_ok.1 h
  cases h
  have hend := executeTensors_timeline hrun
  rw [hsetup] at hend
  exact hend

end Simulator.MemoryBackend

/-! ## The stages of a batch -/

namespace Layerweave.Profile

variable {profile : Profile} {batch : Batch}

/-- The loads of stages, with the computes of the layers from `layer` on. -/
def layerTimes (profile : Profile) (batch : Batch) (layer : Nat) (stages : List Stage) : List (ℚ × ℚ) :=
  (stages.map profile.loadMs).zip ((List.range' layer stages.length).map (profile.computeMs batch))

variable (layer : Nat) (stages : List Stage)

theorem layerTimes_cons (stage : Stage) (stages : List Stage) : profile.layerTimes batch layer (stage :: stages) =
    (profile.loadMs stage, profile.computeMs batch layer) :: profile.layerTimes batch (layer + 1) stages := by
  unfold layerTimes
  rw [List.length_cons, List.range'_succ]
  rfl

theorem map_fst_layerTimes :
    (profile.layerTimes batch layer stages).map fst = stages.map profile.loadMs := List.map_fst_zip (by simp)

theorem map_snd_layerTimes :
    (profile.layerTimes batch layer stages).map snd = (List.range' layer stages.length).map (profile.computeMs batch) :=
  List.map_snd_zip (by simp)

theorem loadMs_eq (stage : Stage) : profile.loadMs stage = profile.fixedStageMs + stage.toLoadBytes / profile.bytesPerMs := by
  unfold loadMs
  split
  · rename_i h
    rw [h, Nat.cast_zero, zero_div, add_zero]
  · rfl

theorem loadMs_nonneg (h : 0 ≤ profile.fixedStageMs) (stage : Stage) : 0 ≤ profile.loadMs stage := by
  rw [loadMs_eq]
  exact add_nonneg h (div_nonneg (Nat.cast_nonneg _) profile.bytesPerMs_pos.le)

theorem loadMs_mono {stage stage' : Stage} (h : stage.toLoadBytes ≤ stage'.toLoadBytes) :
    profile.loadMs stage ≤ profile.loadMs stage' := by
  rw [loadMs_eq, loadMs_eq]
  exact add_le_add_right (div_le_div_of_nonneg_right (Nat.cast_le.2 h) profile.bytesPerMs_pos.le) _

theorem computeMs_nonneg : 0 ≤ profile.computeMs batch layer := by
  unfold computeMs
  split
  · exact le_max_left _ _
  · exact le_max_left _ _

theorem layerTimes_nonneg (h : 0 ≤ profile.fixedStageMs) (layer : Nat) (stages : List Stage) :
    ∀ s ∈ profile.layerTimes batch layer stages, 0 ≤ s.1 ∧ 0 ≤ s.2 := by
  intro s hs
  obtain ⟨hld, hcom⟩ := List.of_mem_zip hs
  obtain ⟨stage, -, hld⟩ := List.mem_map.1 hld
  obtain ⟨k, -, hcom⟩ := List.mem_map.1 hcom
  exact ⟨hld ▸ loadMs_nonneg h stage, hcom ▸ computeMs_nonneg k⟩

/-! ## `_simulate_gpu` -/

theorem simulateFrom_prefetch (h : batch.prefetch = true) (layer : Nat) (c : Clock ℚ) (stall : ℚ) (stages : List Stage) :
    profile.simulateFrom batch layer c.copyEnd c.previousStart c.computeEnd stall stages =
      ⟨stall + (c.stalls (profile.layerTimes batch layer stages)).sum,
        (c.run (profile.layerTimes batch layer stages)).computeEnd⟩ := by
  induction stages generalizing layer c stall with
  | nil => simp [simulateFrom, layerTimes, Clock.stalls, Clock.run]
  | cons stage stages ih =>
    rw [simulateFrom, layerTimes_cons, Clock.run_cons, Clock.stalls_cons, List.sum_cons, ← add_assoc, ← ih, if_pos h]
    rfl

theorem simulateFrom_noPrefetch (h : batch.prefetch = false) (hfixed : 0 ≤ profile.fixedStageMs) (layer : Nat)
    (copyEnd previous computeEnd stall : ℚ) (stages : List Stage) :
    profile.simulateFrom batch layer copyEnd previous computeEnd stall stages =
      ⟨stall + (stages.map profile.loadMs).sum,
        computeEnd + (stages.map profile.loadMs).sum + ((profile.layerTimes batch layer stages).map snd).sum⟩ := by
  induction stages generalizing layer copyEnd previous computeEnd stall with
  | nil => simp [simulateFrom, layerTimes]
  | cons stage stages ih =>
    have hld := loadMs_nonneg hfixed stage
    have hsll : max 0 (computeEnd + profile.loadMs stage - computeEnd) = profile.loadMs stage := by
      rw [add_sub_cancel_left, max_eq_right hld]
    have hstart : max computeEnd (computeEnd + profile.loadMs stage) = computeEnd + profile.loadMs stage :=
      max_eq_right (le_add_of_nonneg_right hld)
    rw [simulateFrom, if_neg (by simp [h]), layerTimes_cons]
    simp only [hsll, hstart]
    rw [ih, List.map_cons, List.map_cons, List.sum_cons, List.sum_cons]
    congr 1
    · ring
    · ring

def stageTimes (profile : Profile) (batch : Batch) : List (ℚ × ℚ) := profile.layerTimes batch 0 (batch.initial :: batch.layers)

theorem simulateGpu_prefetch (h : batch.prefetch = true) (hfixed : 0 ≤ profile.fixedStageMs) : profile.simulateGpu batch =
    ⟨((Clock.init 0).stalls (profile.stageTimes batch)).sum, ((Clock.init 0).run (profile.stageTimes batch)).computeEnd⟩ := by
  have hld := loadMs_nonneg hfixed batch.initial
  have hclock : (Clock.init 0).advance (profile.loadMs batch.initial, profile.computeMs batch 0) =
      ⟨profile.loadMs batch.initial, profile.loadMs batch.initial + profile.computeMs batch 0,
        profile.loadMs batch.initial⟩ := by
    simp [Clock.advance, Clock.init, Clock.loadEnd, hld]
  have hsll : (Clock.init 0).stall (profile.loadMs batch.initial) = profile.loadMs batch.initial := by
    simp [Clock.stall, Clock.init, Clock.loadEnd, hld]
  rw [stageTimes, layerTimes_cons, Clock.run_cons, Clock.stalls_cons, List.sum_cons, hsll, hclock]
  exact simulateFrom_prefetch h 1 ⟨_, _, _⟩ _ _

theorem simulateGpu_noPrefetch (h : batch.prefetch = false) (hfixed : 0 ≤ profile.fixedStageMs) : profile.simulateGpu batch =
    ⟨((profile.stageTimes batch).map fst).sum,
      ((profile.stageTimes batch).map fst).sum + ((profile.stageTimes batch).map snd).sum⟩ := by
  unfold simulateGpu
  simp only []
  rw [simulateFrom_noPrefetch h hfixed, stageTimes, layerTimes_cons, List.map_cons, List.map_cons, List.sum_cons, List.sum_cons,
    map_fst_layerTimes]
  congr 1
  ring

/-! ## The laws -/

theorem layerTimes_le {batch' : Batch} (hcom : profile.computeMs batch' = profile.computeMs batch) (layer : Nat)
    {stages stages' : List Stage}
    (h : List.Forall₂ (fun s s' => s.toLoadBytes ≤ s'.toLoadBytes) stages stages') :
    List.Forall₂ (fun s s' : ℚ × ℚ => s.1 ≤ s'.1 ∧ s.2 ≤ s'.2) (profile.layerTimes batch layer stages)
      (profile.layerTimes batch' layer stages') := by
  induction h generalizing layer with
  | nil => exact .nil
  | cons hbyt _ ih =>
    rw [layerTimes_cons, layerTimes_cons]
    exact .cons ⟨loadMs_mono hbyt, (congrFun hcom layer).ge⟩ (ih (layer + 1))

theorem map_snd_stageTimes :
    (profile.stageTimes batch).map snd = (List.range (batch.layers.length + 1)).map (profile.computeMs batch) := by
  rw [stageTimes, map_snd_layerTimes, List.range_eq_range']
  rfl

/-- The critical path is the stall and the computes. With prefetch it is no longer than without and no shorter than the loads,
it does not fall when a stage has more bytes, and it is that of a pipelined request with these loads and computes and no setup.
-/
theorem simulateGpu_laws (profile : Profile) (batch : Batch) (hfixed : 0 ≤ profile.fixedStageMs) :
    (profile.simulateGpu batch).predictedGpuCriticalPathMs = (profile.simulateGpu batch).predictedGpuReadyStallMs +
      ((List.range (batch.layers.length + 1)).map (profile.computeMs batch)).sum ∧
    (batch.prefetch = true →
      (profile.simulateGpu batch).predictedGpuCriticalPathMs ≤
        (profile.simulateGpu { batch with prefetch := false }).predictedGpuCriticalPathMs ∧
      ((batch.initial :: batch.layers).map profile.loadMs).sum ≤ (profile.simulateGpu batch).predictedGpuCriticalPathMs ∧
      (∀ initial layers, batch.initial.toLoadBytes ≤ initial.toLoadBytes →
        List.Forall₂ (fun s s' => s.toLoadBytes ≤ s'.toLoadBytes) batch.layers layers →
        (profile.simulateGpu batch).predictedGpuCriticalPathMs ≤
          (profile.simulateGpu { batch with initial := initial, layers := layers }).predictedGpuCriticalPathMs) ∧
      ∀ (σ : Type) (b : Simulator.MemoryBackend σ) (s s₁ s₂ s' : σ) (request : Simulator.Request) (m : Simulator.TensorModel)
        (args : Simulator.Args) (durations : Dict Nat ℚ) (total plan : Simulator.LoadCost) (row : Simulator.RequestRow),
        b.beginRequest s (Simulator.kvBytes request args) request.modelId = .ok (total, s₁) →
        b.planRequest s₁ request.modelId m.tensors = .ok (plan, s₂) → (total.add plan).readyMs = 0 →
        b.executeRequest durations true s request m args = .ok (row, s') →
        row.timeline.map Simulator.StageTimes.loadMs = (batch.initial :: batch.layers).map profile.loadMs →
        row.timeline.map Simulator.StageTimes.computeMs = (List.range (batch.layers.length + 1)).map (profile.computeMs batch) →
        row.criticalPathMs = (profile.simulateGpu batch).predictedGpuCriticalPathMs) := by
  have hnn : ∀ s ∈ profile.stageTimes batch, 0 ≤ s.1 ∧ 0 ≤ s.2 := layerTimes_nonneg hfixed 0 _
  refine ⟨?_, fun hpft => ⟨?_, ?_, fun initial layers hini hlys => ?_, ?_⟩⟩
  · cases hpft : batch.prefetch with
    | true =>
      rw [simulateGpu_prefetch hpft hfixed, ← map_snd_stageTimes, Clock.run_computeEnd]
      simp [Clock.init]
    | false => rw [simulateGpu_noPrefetch hpft hfixed, ← map_snd_stageTimes]
  · have hstages : profile.stageTimes { batch with prefetch := false } = profile.stageTimes batch := rfl
    have hle := (Clock.ordered_init 0).run_le hnn
    rw [simulateGpu_prefetch hpft hfixed, simulateGpu_noPrefetch rfl hfixed, hstages]
    simpa [Clock.init] using hle
  · have hle : 0 + ((profile.stageTimes batch).map fst).sum ≤ ((Clock.init 0).run (profile.stageTimes batch)).computeEnd :=
      Clock.sum_loads_le (fun s hs => (hnn s hs).2) le_rfl
    rw [zero_add, stageTimes, map_fst_layerTimes] at hle
    rw [simulateGpu_prefetch hpft hfixed]
    exact hle
  · rw [simulateGpu_prefetch hpft hfixed, simulateGpu_prefetch (by exact hpft) hfixed]
    exact (Clock.Le.run (Clock.Le.refl _) (layerTimes_le rfl 0 (.cons hini hlys))).computeEnd
  · intro σ b s s₁ s₂ s' request m args durations total plan row hbegin hpl hsetup hrun hlds hcps
    rw [Simulator.MemoryBackend.executeRequest_timeline hbegin hpl hsetup hrun, simulateGpu_prefetch hpft hfixed]
    have hstages : Simulator.MemoryBackend.timelineStages row.timeline = profile.stageTimes batch := by
      rw [stageTimes, layerTimes, ← hlds, List.length_cons, ← List.range_eq_range', ← hcps, List.zip_map']
      rfl
    rw [hstages]

/-- A byte a millisecond, and a millisecond for each of two layers. -/
def byteProfile : Profile := ⟨1, unit_pos, 0, ⟨[(0, .polynomial 1 0 0), (1, .polynomial 1 0 0)], by decide⟩, .empty, .empty⟩

def twoLayers : Batch := ⟨0, 1, 4, 4, 16, true, "steady", 2, ⟨2, 1⟩, [⟨3, 1⟩]⟩

theorem simulateGpu_laws_twoLayers : ∃ row, Simulator.byteBackend.executeRequest ⟨[(0, 1), (1, 1)], by decide⟩ true () ⟨0, 4, 1⟩
      Simulator.twoTensors (.ofTests .lru .never) = .ok (row, ()) ∧
    row.criticalPathMs = (byteProfile.simulateGpu twoLayers).predictedGpuCriticalPathMs := by
  have hcov : Simulator.Covers ⟨[(0, 1), (1, 1)], by decide⟩ Simulator.twoTensors.tensors := ⟨by decide, by decide⟩
  have hsvs : Simulator.byteBackend.Serves () ⟨0, 4, 1⟩ Simulator.twoTensors (.ofTests .lru .never)
    (Simulator.LoadCost.add {} {})
      [{ h2dMs := 2 }, { h2dMs := 3 }] () := ⟨{}, (), {}, (), (), rfl, rfl, rfl, rfl, rfl⟩
  obtain ⟨row, hrun, hrow⟩ := hsvs.pipelined hcov
  have hlaws := (simulateGpu_laws byteProfile twoLayers (by decide)).2 rfl
  exact ⟨row, hrun, hlaws.2.2.2 Unit Simulator.byteBackend () () () () _ _ _ _ {} {} row rfl rfl (by decide +kernel) hrun
    (hrow.loads.trans (by decide +kernel)) (hrow.computes.trans (by decide +kernel))⟩

end Layerweave.Profile

end ServerlessLLM
