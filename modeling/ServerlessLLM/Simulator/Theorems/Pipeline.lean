import Mathlib.Algebra.BigOperators.Ring.Finset
import Mathlib.Tactic.Positivity
import Mathlib.Tactic.Ring
import ServerlessLLM.Library.Pipeline
import ServerlessLLM.Simulator.Lemmas.ModelOps
import ServerlessLLM.Simulator.Pipeline

/-!
# Overlapped requests

`execute_request` and `_pipeline_group_stalls` run the recurrence of `Library.Pipeline`: the first over the costs that the
backend charges, the second over the loads of the groups.
-/

namespace ServerlessLLM.Simulator

open Option Dict Prod LoadCost StageTimes

open Pipeline (Clock)
open TensorSpec (tensorId)
open List (mem_map mem_map_of_mem mem_flatMap mem_filter)

variable {durations : Dict Nat ℚ} {tensors : List TensorSpec} {m : TensorModel}

/-! ## Costs and compute times -/

theorem LoadCost.readyMs_add (a b : LoadCost) : (a.add b).readyMs = a.readyMs + b.readyMs := by
  unfold readyMs add
  ring

theorem LoadCost.readyMs_foldl_add (total : LoadCost) (loads : List LoadCost) :
    (loads.foldl add total).readyMs = total.readyMs + (loads.map readyMs).sum := by
  induction loads generalizing total with
  | nil => simp
  | cons load loads ih => rw [List.foldl_cons, ih, readyMs_add, List.map_cons, List.sum_cons, add_assoc]

def computeMs (durations : Dict Nat ℚ) (tensor : TensorSpec) : ℚ := (durations.get? tensor.tensorId).getD 0

/-- Every tensor has a compute time, none is negative, and there are no others. -/
structure Covers (durations : Dict Nat ℚ) (tensors : List TensorSpec) : Prop where
  keys : durations.keys.Perm (tensors.map tensorId)
  nonneg : ∀ e ∈ durations.entries, 0 ≤ e.2

theorem fetch_computeMs {tensor : TensorSpec} (h : tensor.tensorId ∈ durations.keys) :
    fetch durations tensor.tensorId = .ok (computeMs durations tensor) := by
  obtain ⟨v, hv⟩ := mem_keys_iff.1 h
  simp [fetch, computeMs, hv]

theorem Covers.mem_keys (h : Covers durations tensors) : ∀ tensor ∈ tensors, tensor.tensorId ∈ durations.keys :=
  fun _ ht => h.keys.mem_iff.2 (mem_map_of_mem ht)

theorem Covers.computeMs_nonneg (h : Covers durations tensors) (tensor : TensorSpec) : 0 ≤ computeMs durations tensor := by
  unfold computeMs
  cases hv : durations.get? tensor.tensorId with
  | none => exact le_rfl
  | some v => exact h.nonneg _ (mem_entries_iff.2 hv)

theorem Covers.sum_values (h : Covers durations tensors) :
    (durations.entries.map snd).sum = (tensors.map (computeMs durations)).sum := by
  have hvalues : durations.entries.map snd = durations.keys.map fun k => (durations.get? k).getD 0 := by
    unfold Dict.keys
    rw [List.map_map]
    refine List.map_congr_left ?_
    intro e he
    rw [Function.comp_apply, mem_entries_iff.1 (show (e.1, e.2) ∈ durations.entries from he), getD_some]
  have hpm := (h.keys.map fun k => (durations.get? k).getD 0).sum_eq
  rw [hvalues, hpm, List.map_map]
  rfl

theorem ComputeProfile.shareMs_nonneg (profile : ComputeProfile) (inputTokens : Nat) (tensors : List TensorSpec)
    (tensor : TensorSpec)
    (layer : Option Nat) : 0 ≤ profile.shareMs inputTokens tensors tensor layer := by
  cases layer with
  | none => exact le_rfl
  | some layer =>
    have hlayer : 0 ≤ profile.layerMs inputTokens layer := by
      unfold layerMs
      split
      · exact le_max_left _ _
      · exact le_rfl
    rw [shareMs]
    split
    · exact le_rfl
    · positivity

theorem covers_computeDurations (profile : ComputeProfile) (inputTokens : Nat) (hnd : (tensors.map tensorId).Nodup) :
    Covers (profile.computeDurations inputTokens tensors) tensors where
  keys := by
    refine (List.perm_ext_iff_of_nodup (nodup _) hnd).2 ?_
    intro id
    unfold ComputeProfile.computeDurations ComputeProfile.layerDurations
    rw [← keys, mem_keys_foldl_set, mem_keys_foldl_set]
    constructor
    · rintro (h | h | h)
      · obtain ⟨e, he, rfl⟩ := mem_map.1 h
        obtain ⟨tensor, ht, hso⟩ := List.mem_filterMap.1 he
        obtain ⟨c, -, rfl⟩ := map_eq_some_iff.1 hso
        exact mem_map_of_mem ht
      · obtain ⟨e, he, rfl⟩ := mem_map.1 h
        obtain ⟨layer, -, hlayer⟩ := mem_flatMap.1 he
        obtain ⟨tensor, ht, rfl⟩ := mem_map.1 hlayer
        exact mem_map_of_mem (List.mem_of_mem_filter ht)
      · simp [keys] at h
    · intro h
      obtain ⟨tensor, ht, rfl⟩ := mem_map.1 h
      refine .inr (.inl (mem_map.2 ⟨_, mem_flatMap.2 ⟨profile.layerId tensor.tensorId, ?_, mem_map.2
        ⟨tensor, mem_filter.2 ⟨ht, by simp⟩, rfl⟩⟩, rfl⟩))
      exact List.mem_eraseDups.2 (mem_map.2 ⟨tensor, ht, rfl⟩)
  nonneg := by
    refine forall_mem_foldl_set (P := (0 ≤ ·)) ?_ (forall_mem_foldl_set (P := (0 ≤ ·)) ?_ (by simp))
    · intro e he
      obtain ⟨tensor, -, hso⟩ := List.mem_filterMap.1 he
      obtain ⟨c, -, rfl⟩ := map_eq_some_iff.1 hso
      exact le_max_left _ _
    · intro e he
      obtain ⟨layer, -, hlayer⟩ := mem_flatMap.1 he
      obtain ⟨tensor, -, rfl⟩ := mem_map.1 hlayer
      exact profile.shareMs_nonneg inputTokens _ tensor layer

theorem nodup_eraseDups {α : Type} [BEq α] [LawfulBEq α] (l : List α) : l.eraseDups.Nodup := by
  induction hn : l.length using Nat.strong_induction_on generalizing l with
  | _ n ih =>
    cases l with
    | nil => exact List.nodup_nil
    | cons x l =>
      rw [List.eraseDups_cons]
      refine List.nodup_cons.2 ⟨fun h => ?_, ih _ ?_ _ rfl⟩
      · simpa using (mem_filter.1 (List.mem_eraseDups.1 h)).2
      · exact hn ▸ Nat.lt_succ_of_le (List.length_filter_le _ _)

theorem ComputeProfile.nodup_layerDurations (profile : ComputeProfile) {layers : List (Option Nat)} (hlayers : layers.Nodup)
    (hnd : (tensors.map tensorId).Nodup) :
    (layers.flatMap fun layer => (profile.layerTensors tensors layer).map tensorId).Nodup := by
  refine List.nodup_flatMap.2 ⟨fun layer _ => hnd.sublist (List.filter_sublist.map _), hlayers.imp ?_⟩
  intro layer layer' hne id hid hid'
  obtain ⟨tensor, ht, rfl⟩ := mem_map.1 hid
  obtain ⟨tensor', ht', heq⟩ := mem_map.1 hid'
  have h1 := of_decide_eq_true (mem_filter.1 ht).2
  have h2 := of_decide_eq_true (mem_filter.1 ht').2
  exact hne (h1.symm.trans (heq ▸ h2))

theorem ComputeProfile.computeMs_eq_shareMs (profile : ComputeProfile) (inputTokens : Nat)
    (hnd : (tensors.map tensorId).Nodup)
    {layer : Option Nat} {tensor : TensorSpec} (ht : tensor ∈ profile.layerTensors tensors layer)
    (hmeasured : profile.tensorCompute tensor.tensorId = none) :
    computeMs (profile.computeDurations inputTokens tensors) tensor =
      profile.shareMs inputTokens (profile.layerTensors tensors layer) tensor layer := by
  obtain ⟨hmem, hlayer⟩ := mem_filter.1 ht
  unfold computeMs computeDurations
  have hshared : (profile.layerDurations inputTokens tensors).get? tensor.tensorId =
      some (profile.shareMs inputTokens (profile.layerTensors tensors layer) tensor layer) := by
    refine get?_foldl_set ?_ ?_ _
    · rw [List.map_flatMap]
      simp only [List.map_map]
      exact profile.nodup_layerDurations (nodup_eraseDups _) hnd
    · exact mem_flatMap.2 ⟨layer, List.mem_eraseDups.2 (mem_map.2 ⟨tensor, hmem, of_decide_eq_true hlayer⟩),
        mem_map_of_mem ht⟩
  rw [get?_foldl_set_of_not_mem, hshared, getD_some]
  · intro hkey
    obtain ⟨e, he, heq⟩ := mem_map.1 hkey
    obtain ⟨tensor', -, hso⟩ := List.mem_filterMap.1 he
    obtain ⟨c, hc, rfl⟩ := map_eq_some_iff.1 hso
    rw [show tensor'.tensorId = tensor.tensorId from heq, hmeasured] at hc
    cases hc

/-- No time is lost or counted twice: what the tensors of a layer get is the time of the layer, in whatever order they come. -/
theorem ComputeProfile.computeDurations_split (profile : ComputeProfile) (inputTokens : Nat)
    (hnd : (tensors.map tensorId).Nodup) :
    Covers (profile.computeDurations inputTokens tensors) tensors ∧
      ∀ layer, (∀ tensor ∈ profile.layerTensors tensors (some layer), profile.tensorCompute tensor.tensorId = none) →
        ((profile.layerTensors tensors (some layer)).map TensorSpec.logicalBytes).sum ≠ 0 →
        ((profile.layerTensors tensors (some layer)).map (computeMs (profile.computeDurations inputTokens tensors))).sum =
          profile.layerMs inputTokens layer := by
  refine ⟨covers_computeDurations profile inputTokens hnd, ?_⟩
  intro layer hmeasured hbytes
  have hshare : ∀ tensor ∈ profile.layerTensors tensors (some layer),
    computeMs (profile.computeDurations inputTokens tensors) tensor =
      profile.layerMs inputTokens layer / ((profile.layerTensors tensors (some layer)).map TensorSpec.logicalBytes).sum *
        (tensor.logicalBytes : ℚ) := by
    intro tensor ht
    rw [profile.computeMs_eq_shareMs inputTokens hnd ht (hmeasured tensor ht), shareMs, if_neg hbytes]
    ring
  have hcast : ((profile.layerTensors tensors (some layer)).map fun tensor => (tensor.logicalBytes : ℚ)).sum =
      ((profile.layerTensors tensors (some layer)).map TensorSpec.logicalBytes).sum := by
    rw [Nat.cast_list_sum, List.map_map]
    rfl
  rw [List.map_congr_left hshare, List.sum_map_mul_left, hcast, div_mul_cancel₀ _ (Nat.cast_ne_zero.2 hbytes)]

/-- Two layers whose tensors alternate, and a tensor of no layer. -/
def twoLayers : ComputeProfile :=
  ⟨fun id => if id = 4 then none else some (id % 2), fun layer => some [3 + layer, 0, 1000, 0, 0], fun _ => none⟩

theorem computeDurations_split_twoLayers :
    (twoLayers.layerTensors [⟨0, 5, 0⟩, ⟨1, 2, 5⟩, ⟨2, 10, 7⟩, ⟨4, 1, 17⟩] (some 0)).map tensorId = [0, 2] ∧
      computeMs (twoLayers.computeDurations 6 [⟨0, 5, 0⟩, ⟨1, 2, 5⟩, ⟨2, 10, 7⟩, ⟨4, 1, 17⟩]) ⟨0, 5, 0⟩ = 3 ∧
      ((twoLayers.layerTensors [⟨0, 5, 0⟩, ⟨1, 2, 5⟩, ⟨2, 10, 7⟩, ⟨4, 1, 17⟩] (some 0)).map
        (computeMs (twoLayers.computeDurations 6 [⟨0, 5, 0⟩, ⟨1, 2, 5⟩, ⟨2, 10, 7⟩, ⟨4, 1, 17⟩]))).sum = 9 := by
  have h := (@ComputeProfile.computeDurations_split [⟨0, 5, 0⟩, ⟨1, 2, 5⟩, ⟨2, 10, 7⟩, ⟨4, 1, 17⟩] twoLayers 6 (by decide)).2 0
    (fun _ _ => rfl) (by decide)
  refine ⟨by decide, by decide +kernel, h.trans (by decide +kernel)⟩

/-! ## The recurrence -/

/-- The clock of the recurrence, before the tensor with an index: the first tensor does not wait for one before it. -/
def PipelineClock.toClock (c : PipelineClock) (index : Nat) : Clock ℚ :=
  ⟨c.copyEnd, c.computeEnd, if index = 0 then c.copyEnd else c.previousComputeStart⟩

theorem PipelineClock.loadEnd_eq (c : PipelineClock) (index : Nat) (loadMs computeMs : ℚ) :
    (c.stage index loadMs computeMs).1.loadEndMs = (c.toClock index).loadEnd loadMs := by
  unfold stage toClock Clock.loadEnd
  by_cases h : index = 0
  · simp [h]
  · simp [h]

theorem PipelineClock.toClock_stage (c : PipelineClock) (index : Nat) (loadMs computeMs : ℚ) :
    (c.stage index loadMs computeMs).2.toClock (index + 1) = (c.toClock index).advance (loadMs, computeMs) := by
  have hld := c.loadEnd_eq index loadMs computeMs
  unfold toClock Clock.advance
  rw [if_neg (Nat.succ_ne_zero index), ← toClock, ← hld]
  rfl

theorem PipelineClock.readyStallMs_stage (c : PipelineClock) (index : Nat) (loadMs computeMs : ℚ) :
    (c.stage index loadMs computeMs).1.readyStallMs = (c.toClock index).stall loadMs := by
  have hld := c.loadEnd_eq index loadMs computeMs
  unfold Clock.stall
  rw [← hld]
  rfl

def stages (durations : Dict Nat ℚ) (tensors : List TensorSpec) (loads : List ℚ) : List (ℚ × ℚ) :=
  loads.zip (tensors.map (computeMs durations))

@[simp] theorem stages_cons (tensor : TensorSpec) (load : ℚ) (loads : List ℚ) :
    stages durations (tensor :: tensors) (load :: loads) = (load, computeMs durations tensor) ::
      stages durations tensors loads := rfl

theorem stages_nonneg (h : Covers durations tensors) {loads : List ℚ} (hlds : ∀ x ∈ loads, 0 ≤ x) :
    ∀ s ∈ stages durations tensors loads, 0 ≤ s.1 ∧ 0 ≤ s.2 := by
  intro s hs
  obtain ⟨hld, hcom⟩ := List.of_mem_zip hs
  obtain ⟨tensor, -, heq⟩ := mem_map.1 hcom
  exact ⟨hlds _ hld, heq ▸ h.computeMs_nonneg tensor⟩

theorem sum_stages_fst (durations : Dict Nat ℚ) {loads : List LoadCost} (h : loads.length = tensors.length) :
    ((stages durations tensors (loads.map readyMs)).map fst).sum = (loads.map readyMs).sum := by
  rw [stages, List.map_fst_zip (by simp [h])]

theorem sum_stages_snd (durations : Dict Nat ℚ) {loads : List LoadCost} (h : loads.length = tensors.length) :
    ((stages durations tensors (loads.map readyMs)).map snd).sum = (tensors.map (computeMs durations)).sum := by
  rw [stages, List.map_snd_zip (by simp [h])]

/-! ## `execute_request` -/

namespace MemoryBackend

variable {σ : Type} {b : MemoryBackend σ} {s s' : σ} {args : Args} {request : Request} {setup : LoadCost}
  {loads : List LoadCost}

/-- Tensors one after another: what the backend charges for each. -/
def prepareTensors (b : MemoryBackend σ) (model : Nat) (s : σ) : List TensorSpec → Except Fault (List LoadCost × σ)
  | [] => .ok ([], s)
  | tensor :: tensors => do
    let (load, s) ← b.prepareTensor s model tensor
    let (loads, s) ← prepareTensors b model s tensors
    .ok (load :: loads, s)

def Serves (b : MemoryBackend σ) (s : σ) (request : Request) (m : TensorModel) (args : Args) (setup : LoadCost)
    (loads : List LoadCost)
    (s' : σ) : Prop :=
  ∃ start s₀ plan s₁ s₂, b.beginRequest s (kvBytes request args) request.modelId = .ok (start, s₀) ∧
    b.planRequest s₀ request.modelId m.tensors = .ok (plan, s₁) ∧ setup = start.add plan ∧
    b.prepareTensors request.modelId s₁ m.tensors = .ok (loads, s₂) ∧ b.finishRequest s₂ request.modelId = .ok s'

theorem prepareTensors_cons {model : Nat} {tensor : TensorSpec}
    (h : b.prepareTensors model s (tensor :: tensors) = .ok (loads, s')) :
    ∃ load rest s₁, b.prepareTensor s model tensor = .ok (load, s₁) ∧ b.prepareTensors model s₁ tensors = .ok (rest, s') ∧
      loads = load :: rest := by
  rw [prepareTensors] at h
  cases hld : b.prepareTensor s model tensor with
  | error e => simp [hld, bind, Except.bind] at h
  | ok p =>
    obtain ⟨load, s₁⟩ := p
    cases hrs : b.prepareTensors model s₁ tensors with
    | error e => simp [hld, hrs, bind, Except.bind] at h
    | ok q =>
      obtain ⟨rest, s₂⟩ := q
      simp only [hld, hrs, bind, Except.bind, Except.ok.injEq, Prod.mk.injEq] at h
      obtain ⟨rfl, rfl⟩ := h
      exact ⟨load, rest, s₁, rfl, hrs, rfl⟩

theorem length_prepareTensors {model : Nat} (h : b.prepareTensors model s tensors = .ok (loads, s')) :
    loads.length = tensors.length := by
  induction tensors generalizing s loads with
  | nil =>
    rw [prepareTensors] at h
    obtain ⟨rfl, rfl⟩ := Prod.mk.inj (Except.ok.inj h)
    rfl
  | cons tensor tensors ih =>
    obtain ⟨load, rest, s₁, -, hrs, rfl⟩ := prepareTensors_cons h
    simp [ih hrs]

theorem executeTensors_pipelined {model : Nat} (h : b.prepareTensors model s tensors = .ok (loads, s'))
    (hcov : ∀ tensor ∈ tensors, tensor.tensorId ∈ durations.keys) (total : LoadCost) (clock : PipelineClock) (index : Nat) :
    ∃ timeline clock', b.executeTensors durations true model s total clock index tensors =
        .ok (timeline, loads.foldl add total, clock', s') ∧
      clock'.computeEnd = ((clock.toClock index).run (stages durations tensors (loads.map readyMs))).computeEnd ∧
      timeline.map StageTimes.readyStallMs = (clock.toClock index).stalls (stages durations tensors (loads.map readyMs)) ∧
      timeline.map StageTimes.loadMs = loads.map readyMs ∧
      timeline.map StageTimes.computeMs = tensors.map (computeMs durations) := by
  induction tensors generalizing s loads total clock index with
  | nil =>
    rw [prepareTensors] at h
    obtain ⟨rfl, rfl⟩ := Prod.mk.inj (Except.ok.inj h)
    exact ⟨[], clock, rfl, rfl, rfl, rfl, rfl⟩
  | cons tensor tensors ih =>
    obtain ⟨load, rest, s₁, hld, hrs, rfl⟩ := prepareTensors_cons h
    have hcom := fetch_computeMs (hcov tensor List.mem_cons_self)
    obtain ⟨timeline, clock', hrun, hend, hstl, hlds, hcps⟩ := ih hrs
      (fun tensor ht => hcov tensor (List.mem_cons_of_mem _ ht)) (total.add load)
      (clock.stage index load.readyMs (computeMs durations tensor)).2 (index + 1)
    rw [PipelineClock.toClock_stage] at hend hstl
    refine ⟨(clock.stage index load.readyMs (computeMs durations tensor)).1 :: timeline, clock', ?_, hend, ?_, ?_, ?_⟩
    · simp [executeTensors, hld, hcom, hrun, bind, Except.bind]
    · rw [List.map_cons, hstl, PipelineClock.readyStallMs_stage]
      rfl
    · rw [List.map_cons, hlds]
      rfl
    · rw [List.map_cons, hcps]
      rfl

theorem executeTensors_serialized {model : Nat} (h : b.prepareTensors model s tensors = .ok (loads, s'))
    (hcov : ∀ tensor ∈ tensors, tensor.tensorId ∈ durations.keys) (total : LoadCost) (clock : PipelineClock) (index : Nat) :
    ∃ timeline, b.executeTensors durations false model s total clock index tensors =
      .ok (timeline, loads.foldl add total, clock, s') := by
  induction tensors generalizing s loads total index with
  | nil =>
    rw [prepareTensors] at h
    obtain ⟨rfl, rfl⟩ := Prod.mk.inj (Except.ok.inj h)
    exact ⟨[], rfl⟩
  | cons tensor tensors ih =>
    obtain ⟨load, rest, s₁, hld, hrs, rfl⟩ := prepareTensors_cons h
    have hcom := fetch_computeMs (hcov tensor List.mem_cons_self)
    obtain ⟨timeline, hrun⟩ := ih hrs (fun tensor ht => hcov tensor (List.mem_cons_of_mem _ ht)) (total.add load) (index + 1)
    exact ⟨_, by simp [executeTensors, hld, hcom, hrun, bind, Except.bind]; rfl⟩

structure PipelinedRow (durations : Dict Nat ℚ) (m : TensorModel) (setup : LoadCost) (loads : List LoadCost)
    (row : RequestRow) :
    Prop where
  criticalPath : row.criticalPathMs =
    ((Clock.init setup.readyMs).run (stages durations m.tensors (loads.map readyMs))).computeEnd
  stalls : row.timeline.map readyStallMs =
    (Clock.init setup.readyMs).stalls (stages durations m.tensors (loads.map readyMs))
  loads : row.timeline.map loadMs = loads.map readyMs
  computes : row.timeline.map StageTimes.computeMs = m.tensors.map (computeMs durations)
  hotCompute : row.hotComputeMs = (m.tensors.map (computeMs durations)).sum
  exposed : row.exposedLoadMs = max 0 (row.criticalPathMs - row.hotComputeMs)

theorem Serves.pipelined (h : b.Serves s request m args setup loads s') (hcov : Covers durations m.tensors) :
    ∃ row, b.executeRequest durations true s request m args = .ok (row, s') ∧ PipelinedRow durations m setup loads row := by
  obtain ⟨start, s₀, plan, s₁, s₂, hbegin, hpl, rfl, hprp, hfin⟩ := h
  obtain ⟨timeline, clock, hrun, hend, hstl, hlds, hcps⟩ := executeTensors_pipelined hprp hcov.mem_keys
    (start.add plan) ⟨(start.add plan).readyMs, (start.add plan).readyMs, 0⟩ 0
  let hotCompute := (durations.entries.map Prod.snd).sum
  refine ⟨⟨request, clock.computeEnd, hotCompute, max 0 (clock.computeEnd - hotCompute), loads.foldl add (start.add plan),
    timeline⟩, ?_, ⟨hend, hstl, hlds, hcps, hcov.sum_values, rfl⟩⟩
  simp [executeRequest, hbegin, hpl, hrun, hfin, hotCompute, bind, Except.bind]

theorem Serves.serialized (h : b.Serves s request m args setup loads s') (hcov : Covers durations m.tensors) :
    ∃ row, b.executeRequest durations false s request m args = .ok (row, s') ∧ row.criticalPathMs =
      setup.readyMs + (loads.map readyMs).sum + (m.tensors.map (computeMs durations)).sum := by
  obtain ⟨start, s₀, plan, s₁, s₂, hbegin, hpl, rfl, hprp, hfin⟩ := h
  obtain ⟨timeline, hrun⟩ := executeTensors_serialized hprp hcov.mem_keys (start.add plan) ⟨(start.add plan).readyMs, 0, 0⟩ 0
  rw [← readyMs_foldl_add, ← hcov.sum_values]
  exact ⟨_, by simp [executeRequest, hbegin, hpl, hrun, hfin, bind, Except.bind]; rfl, rfl⟩

theorem Serves.length_eq (h : b.Serves s request m args setup loads s') : loads.length = m.tensors.length := by
  obtain ⟨start, s₀, plan, s₁, s₂, -, -, -, hprp, -⟩ := h
  exact length_prepareTensors hprp

end MemoryBackend

/-! ## `_pipeline_group_stalls` -/

/-- The load of each tensor when the first tensor of a group brings the group, and the groups in `loaded` are there. -/
def tensorLoads (m : TensorModel) (groupLoadMs : Dict Nat ℚ) (loaded : List Nat) : List TensorSpec → List ℚ
  | [] => []
  | tensor :: tensors =>
    let groupId := (m.tensorToGroup.get? tensor.tensorId).getD 0
    (if groupId ∈ loaded then 0 else (groupLoadMs.get? groupId).getD 0) ::
      tensorLoads m groupLoadMs (loaded.insert groupId) tensors

def Grouped (m : TensorModel) (groupLoadMs stalls : Dict Nat ℚ) (tensors : List TensorSpec) : Prop :=
  ∀ tensor ∈ tensors, ∃ groupId, m.tensorToGroup.get? tensor.tensorId = some groupId ∧ groupId ∈ groupLoadMs.keys ∧
    groupId ∈ stalls.keys

theorem sum_values_set {d : Dict Nat ℚ} {k : Nat} (h : d.get? k = some 0) (v : ℚ) :
    ((d.set k v).entries.map snd).sum = (d.entries.map snd).sum + v := by
  rw [((entries_set_perm h v).map snd).sum_eq, ((entries_perm_erase h).map snd).sum_eq]
  simp [add_comm]

theorem groupStallsFrom_eq {groupLoadMs : Dict Nat ℚ} (hcov : ∀ tensor ∈ tensors, tensor.tensorId ∈ durations.keys)
    (hnn : ∀ tensor, 0 ≤ computeMs durations tensor) {p : GroupPass} (index : Nat) (hordered : (p.clock.toClock index).Ordered)
    (hgrouped : Grouped m groupLoadMs p.stalls tensors)
    (hzero : ∀ groupId ∈ p.stalls.keys, groupId ∉ p.loaded → p.stalls.get? groupId = some 0) :
    ∃ stalls, groupStallsFrom m durations groupLoadMs p index tensors = .ok stalls ∧
      (stalls.entries.map Prod.snd).sum = (p.stalls.entries.map Prod.snd).sum +
        ((p.clock.toClock index).stalls (stages durations tensors (tensorLoads m groupLoadMs p.loaded tensors))).sum := by
  induction tensors generalizing p index with
  | nil => exact ⟨p.stalls, rfl, by simp [tensorLoads, stages, Clock.stalls]⟩
  | cons tensor tensors ih =>
    obtain ⟨groupId, hgrp, hld, hkey⟩ := hgrouped tensor List.mem_cons_self
    have hcom := fetch_computeMs (hcov tensor List.mem_cons_self)
    obtain ⟨groupLoad, hgroupLoad⟩ := Dict.mem_keys_iff.1 hld
    obtain ⟨loadMs, hloadMs⟩ : ∃ loadMs, loadMs = if groupId ∈ p.loaded then 0 else groupLoad := ⟨_, rfl⟩
    have hfetch : loadOnce groupLoadMs p.loaded groupId = .ok loadMs := by
      rw [hloadMs, loadOnce]
      split
      · rfl
      · simp [fetch, hgroupLoad]
    obtain ⟨stage, clock, hstg⟩ : ∃ stage clock, p.clock.stage index loadMs (computeMs durations tensor) = (stage, clock) :=
      ⟨_, _, rfl⟩
    have hclock := p.clock.toClock_stage index loadMs (computeMs durations tensor)
    have hsll := p.clock.readyStallMs_stage index loadMs (computeMs durations tensor)
    rw [hstg] at hclock hsll
    -- the stalls after this tensor, and what they sum up to
    obtain ⟨stalls, hstl⟩ : ∃ stalls, stalls = if loadMs =
      0 then p.stalls else p.stalls.set groupId stage.readyStallMs := ⟨_, rfl⟩
    have hks : stalls.keys = p.stalls.keys := by
      rw [hstl]
      split
      · rfl
      · rw [Dict.keys_set, if_pos hkey]
    have hsum : (stalls.entries.map Prod.snd).sum = (p.stalls.entries.map Prod.snd).sum +
      (p.clock.toClock index).stall loadMs := by
      rw [hstl]
      by_cases hzeroLoad : loadMs = 0
      · rw [if_pos hzeroLoad, hzeroLoad, hordered.stall_zero, add_zero]
      · have hnew : groupId ∉ p.loaded := fun hmem => hzeroLoad (by rw [hloadMs, if_pos hmem])
        rw [if_neg hzeroLoad, sum_values_set (hzero groupId hkey hnew), hsll]
    obtain ⟨result, hrun, hrs⟩ := ih (fun tensor ht => hcov tensor (List.mem_cons_of_mem _ ht))
      (p := ⟨clock, p.loaded.insert groupId, stalls⟩) (index + 1) (hclock ▸ Clock.Ordered.advance (hnn tensor))
      (fun tensor ht => by
        rw [hks]
        exact hgrouped tensor (List.mem_cons_of_mem _ ht))
      (fun g hg hnew => by
        obtain ⟨hne, hold⟩ := not_or.1 (mt List.mem_insert_iff.2 hnew)
        have hbef := hzero g (hks ▸ hg) hold
        rw [hstl]
        split
        · exact hbef
        · rw [Dict.get?_set_of_ne _ _ hne]
          exact hbef)
    refine ⟨result, ?_, ?_⟩
    · have hfetchGroup : fetch m.tensorToGroup tensor.tensorId = .ok groupId := by simp [fetch, hgrp]
      simp only [groupStallsFrom, hfetchGroup, hfetch, hcom, hstg, bind, Except.bind, ← hstl]
      exact hrun
    · rw [hrs, hsum, hclock, tensorLoads]
      simp only [hgrp, hgroupLoad, Option.getD_some, ← hloadMs]
      rw [stages_cons, Clock.stalls_cons, List.sum_cons, add_assoc]

theorem initialStalls (hm : m.WellGrouped) {stalls : Dict Nat ℚ}
    (h : stalls = (m.groups.map fun group => (group.groupId, (0 : ℚ))).foldl (fun d e => d.set e.1 e.2) .empty) :
    (∀ group ∈ m.groups, group.groupId ∈ stalls.keys) ∧ (∀ groupId ∈ stalls.keys, stalls.get? groupId = some 0) ∧
      (stalls.entries.map snd).sum = 0 := by
  have hids : (m.groups.map fun group => (group.groupId, (0 : ℚ))).map fst = List.range m.groups.length := by
    rw [List.map_map]
    exact hm.groupIds
  have hks : ∀ groupId, groupId ∈ stalls.keys ↔ groupId ∈ m.groups.map TensorGroup.groupId := by
    intro groupId
    rw [h, mem_keys_foldl_set, hids, hm.groupIds]
    simp [keys]
  have hzero : ∀ groupId ∈ stalls.keys, stalls.get? groupId = some 0 := by
    intro groupId hg
    obtain ⟨group, hmem, rfl⟩ := mem_map.1 ((hks groupId).1 hg)
    have hnd : ((m.groups.map fun group => (group.groupId, (0 : ℚ))).map fst).Nodup := hids ▸ List.nodup_range
    rw [h]
    exact get?_foldl_set hnd (mem_map.2 ⟨group, hmem, rfl⟩) _
  refine ⟨fun group hg => (hks _).2 (mem_map_of_mem hg), hzero, List.sum_eq_zero ?_⟩
  intro v hv
  obtain ⟨e, he, rfl⟩ := mem_map.1 hv
  have hget := mem_entries_iff.1 (show (e.1, e.2) ∈ stalls.entries from he)
  exact some.inj (hget.symm.trans (hzero _ (mem_keys_iff.2 ⟨_, hget⟩)))

theorem pipelineGroupStalls_eq (hm : m.WellGrouped) (hcov : Covers durations m.tensors) {groupLoadMs : Dict Nat ℚ}
    (hlds : ∀ group ∈ m.groups, group.groupId ∈ groupLoadMs.keys) :
    ∃ stalls, pipelineGroupStalls m durations groupLoadMs = .ok stalls ∧ (stalls.entries.map snd).sum =
      ((Clock.init 0).stalls (stages durations m.tensors (tensorLoads m groupLoadMs [] m.tensors))).sum := by
  obtain ⟨hks, hzero, hsum⟩ := initialStalls hm rfl
  have hgrouped : Grouped m groupLoadMs
      ((m.groups.map fun group => (group.groupId, (0 : ℚ))).foldl (fun d e => d.set e.1 e.2) .empty) m.tensors := by
    intro tensor ht
    have hid : tensor.tensorId ∈ m.groups.flatMap TensorGroup.tensorIds := hm.tensors ▸ mem_map_of_mem ht
    obtain ⟨group, hg, hmem⟩ := mem_flatMap.1 hid
    exact ⟨group.groupId, hm.lookup group hg _ hmem, hlds group hg, hks group hg⟩
  obtain ⟨stalls, hrun, hstl⟩ := groupStallsFrom_eq (m := m) hcov.mem_keys hcov.computeMs_nonneg
    (p := ⟨⟨0, 0, 0⟩, [], _⟩) 0 (Clock.ordered_init 0) hgrouped fun g hg _ => hzero g hg
  exact ⟨stalls, hrun, hstl.trans (by rw [hsum, zero_add]; rfl)⟩

/-! ## The laws -/

section

variable {σ τ : Type} {b : MemoryBackend σ} {b' : MemoryBackend τ} {s s' : σ} {t t' : τ} {args : Args} {request : Request}
  {setup setup' : LoadCost} {loads loads' : List LoadCost} {row row' : RequestRow}

theorem stages_le (hlen : loads.length = tensors.length)
    (hlds : List.Forall₂ (fun c' c => c'.readyMs ≤ c.readyMs) loads' loads) :
    List.Forall₂ (fun s s' : ℚ × ℚ => s.1 ≤ s'.1 ∧ s.2 ≤ s'.2) (stages durations tensors (loads'.map readyMs))
      (stages durations tensors (loads.map readyMs)) := by
  induction hlds generalizing tensors with
  | nil => exact .nil
  | cons hld _ ih =>
    cases tensors with
    | nil => simp at hlen
    | cons tensor tensors => exact .cons ⟨hld, le_rfl⟩ (ih (Nat.succ.inj hlen))

theorem criticalPath_le (hrow : MemoryBackend.PipelinedRow durations m setup loads row)
    (hrow' : MemoryBackend.PipelinedRow durations m setup' loads' row') (hlen : loads.length = m.tensors.length)
    (hsetup : setup'.readyMs ≤ setup.readyMs) (hlds : List.Forall₂ (fun c' c => c'.readyMs ≤ c.readyMs) loads' loads) :
    row'.criticalPathMs ≤ row.criticalPathMs := by
  rw [hrow.criticalPath, hrow'.criticalPath]
  exact (Clock.Le.run ⟨hsetup, hsetup, hsetup⟩ (stages_le hlen hlds)).computeEnd

theorem exposedLoad_eq (hrow : MemoryBackend.PipelinedRow durations m setup loads row) (hlen : loads.length = m.tensors.length)
    (hsetup : setup.readyMs = 0) : row.exposedLoadMs = (row.timeline.map StageTimes.readyStallMs).sum := by
  have hstl : 0 ≤ (row.timeline.map StageTimes.readyStallMs).sum := by
    rw [hrow.stalls]
    exact List.sum_nonneg (Clock.stalls_nonneg _ _)
  have hpa : row.criticalPathMs - row.hotComputeMs = (row.timeline.map StageTimes.readyStallMs).sum := by
    rw [hrow.criticalPath, Clock.run_computeEnd, hrow.stalls, hrow.hotCompute, sum_stages_snd durations hlen]
    simp [Clock.init, hsetup]
  rw [hrow.exposed, hpa, max_eq_right hstl]

/-- A pipelined request takes its setup, its stalls and its computes: no longer than without overlap, no less than the setup
with the loads or with the computes, and no longer when loads are lower. Without a setup it shows what `_pipeline_group_stalls`
reports. -/
theorem executeRequest_laws (hm : m.WellGrouped) (hcov : Covers durations m.tensors)
    (hserves : b.Serves s request m args setup loads s')
    (hloads : ∀ c ∈ loads, 0 ≤ c.readyMs) :
    ∃ row serialized, b.executeRequest durations true s request m args = .ok (row, s') ∧
      b.executeRequest durations false s request m args = .ok (serialized, s') ∧
      row.timeline.map StageTimes.loadMs = loads.map readyMs ∧
      row.timeline.map StageTimes.computeMs = m.tensors.map (computeMs durations) ∧
      row.criticalPathMs = setup.readyMs + (row.timeline.map StageTimes.readyStallMs).sum +
        (row.timeline.map StageTimes.computeMs).sum ∧
      row.criticalPathMs ≤ serialized.criticalPathMs ∧
      setup.readyMs + (row.timeline.map StageTimes.loadMs).sum ≤ row.criticalPathMs ∧
      setup.readyMs + (row.timeline.map StageTimes.computeMs).sum ≤ row.criticalPathMs ∧
      (∀ (τ : Type) (b' : MemoryBackend τ) (t t' : τ) (setup' : LoadCost) (loads' : List LoadCost),
        b'.Serves t request m args setup' loads' t' → setup'.readyMs ≤ setup.readyMs →
        List.Forall₂ (fun c' c => c'.readyMs ≤ c.readyMs) loads' loads →
        ∃ row', b'.executeRequest durations true t request m args = .ok (row', t') ∧ row'.criticalPathMs ≤ row.criticalPathMs) ∧
      (setup.readyMs = 0 → ∀ groupLoadMs : Dict Nat ℚ, (∀ group ∈ m.groups, group.groupId ∈ groupLoadMs.keys) →
        loads.map readyMs = tensorLoads m groupLoadMs [] m.tensors →
        ∃ stalls, pipelineGroupStalls m durations groupLoadMs = .ok stalls ∧
          row.exposedLoadMs = (stalls.entries.map snd).sum) := by
  obtain ⟨row, hrun, hrow⟩ := hserves.pipelined hcov
  obtain ⟨serialized, hser, hpa⟩ := hserves.serialized hcov
  have hlen := hserves.length_eq
  have hrdy : ∀ x ∈ loads.map readyMs, 0 ≤ x := by simpa using hloads
  have hnn := stages_nonneg hcov hrdy
  have hordered : (Clock.init setup.readyMs).Ordered := Clock.ordered_init setup.readyMs
  have hfst := sum_stages_fst durations hlen
  have hsnd := sum_stages_snd durations hlen
  refine ⟨row, serialized, hrun, hser, hrow.loads, hrow.computes, ?_, ?_, ?_, ?_, ?_, ?_⟩
  · rw [hrow.criticalPath, Clock.run_computeEnd, hrow.stalls, hrow.computes, hsnd]
    rfl
  · rw [hpa, hrow.criticalPath, ← hfst, ← hsnd]
    exact hordered.run_le hnn
  · rw [hrow.loads, hrow.criticalPath, ← hfst]
    exact Clock.sum_loads_le (c := Clock.init setup.readyMs) (fun s hs => (hnn s hs).2) hordered.compute
  · rw [hrow.computes, hrow.criticalPath, ← hsnd]
    exact Clock.sum_computes_le (Clock.init setup.readyMs) _
  · intro τ b' t t' setup' loads' hserves' hsetup' hloads'
    obtain ⟨row', hrun', hrow'⟩ := hserves'.pipelined hcov
    exact ⟨row', hrun', criticalPath_le hrow hrow' hlen hsetup' hloads'⟩
  · intro hzero groupLoadMs hgps hsa
    obtain ⟨stalls, hstl, hsum⟩ := pipelineGroupStalls_eq hm hcov hgps
    refine ⟨stalls, hstl, ?_⟩
    rw [exposedLoad_eq hrow hlen hzero, hrow.stalls, hsum, hsa, hzero]

/-- A backend that charges a millisecond for each byte of a tensor. -/
def byteBackend : MemoryBackend Unit where
  expect s _ := s
  beginRequest s _ _ := .ok ({}, s)
  planRequest s _ _ := .ok ({}, s)
  prepareTensor s _ tensor := .ok ({ h2dMs := tensor.logicalBytes }, s)
  finishRequest s _ := .ok s

/-- Two tensors of two and three bytes, in groups of their own. -/
def twoTensors : TensorModel := modelFromPrefixBytes [0, 2, 5]

theorem executeRequest_laws_twoTensors :
    ∃ row serialized, byteBackend.executeRequest ⟨[(0, 1), (1, 1)], by decide⟩ true () ⟨0, 4, 1⟩ twoTensors
        (.ofTests .lru .never) = .ok (row, ()) ∧
      byteBackend.executeRequest ⟨[(0, 1), (1, 1)], by decide⟩ false () ⟨0, 4, 1⟩ twoTensors (.ofTests .lru .never) =
        .ok (serialized, ()) ∧ row.criticalPathMs ≤ serialized.criticalPathMs := by
  have hcov : Covers ⟨[(0, 1), (1, 1)], by decide⟩ twoTensors.tensors := ⟨by decide, by decide⟩
  have hsvs : byteBackend.Serves () ⟨0, 4, 1⟩ twoTensors (.ofTests .lru .never) (add {} {})
      [{ h2dMs := 2 }, { h2dMs := 3 }] () :=
    ⟨{}, (), {}, (), (), rfl, rfl, rfl, rfl, rfl⟩
  obtain ⟨row, serialized, hrun, hser, -, -, -, hle, -⟩ :=
    executeRequest_laws (wellGrouped_modelFromPrefixBytes (by decide)) hcov hsvs (by simp [readyMs])
  exact ⟨row, serialized, hrun, hser, hle⟩

end

end ServerlessLLM.Simulator
