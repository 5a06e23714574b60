import ServerlessLLM.Library.Runs
import ServerlessLLM.Serving.Controller

/-!
# The registry of the controller

The two maps of the controller always have the same keys, and of each registered name one router is started.
-/

namespace ServerlessLLM.Serving.Controller

open Runs Dict State

namespace State

variable {s s' : State} {c : Step}

/-- The maps have the same keys, and the routers that are started are the registered ones. -/
structure Consistent (s : State) : Prop where
  keys : s.registeredModels.keys = s.requestRouters.keys
  started : s.started.Perm s.requestRouters.entries

theorem consistent_init : Consistent .init := ⟨rfl, .refl _⟩

theorem Consistent.finishRegister (h : Consistent s) (config : ModelConfig) (stored : Bool) :
    Consistent (s.finishRegister config stored).2 := by
  unfold State.finishRegister
  split
  · exact h
  · split
    · exact h
    · simp only
      split
      · exact ⟨h.keys, h.started⟩
      · rename_i hnew
        constructor
        case keys =>
          simp only [keys_set]
          rw [if_neg hnew, if_neg (h.keys ▸ hnew), h.keys]
        case started =>
          simp only
          rw [entries_set_of_not_mem hnew]
          exact h.started.append (.refl _)

theorem Consistent.delete (h : Consistent s) (modelName : String) : Consistent (s.delete modelName).2 := by
  unfold State.delete
  split
  · exact h
  · rename_i router hrouter
    have hmem : modelName ∈ s.registeredModels.keys := h.keys ▸ mem_keys_iff.2 ⟨router, hrouter⟩
    obtain ⟨config, hcfg⟩ := mem_keys_iff.1 hmem
    simp only [hcfg]
    constructor
    case keys => rw [keys_erase, keys_erase, h.keys]
    case started =>
      refine (h.started.erase (modelName, router)).trans ?_
      exact (entries_erase_perm ((List.perm_cons_erase (mem_entries_iff.2 hrouter)))).symm

theorem Consistent.update (h : Consistent s) (modelName : String) (autoScalingConfig : Option Nat) :
    Consistent (s.update modelName autoScalingConfig).2 := by
  unfold State.update
  split
  · exact h
  · split
    · exact h
    · split
      · exact h
      · rename_i config hcfg
        have hks := keys_set_of_get? hcfg
        simp only
        split
        · exact ⟨(hks _).trans h.keys, h.started⟩
        · exact ⟨(hks _).trans h.keys, h.started⟩

theorem Consistent.step (h : Consistent s) (hst : s.step c = some s') : Consistent s' := by
  obtain ⟨r, hprf, rfl⟩ := Option.map_eq_some_iff.1 hst
  cases c with
  | register config =>
    obtain rfl := Option.some.inj hprf
    unfold register
    split
    · exact h
    · split
      · exact h
      · split
        · exact h
        · exact ⟨h.keys, h.started⟩
  | resume index stored =>
    cases hcfg : s.registering[index]? with
    | none =>
      simp only [perform, hcfg] at hprf
      cases hprf
    | some config =>
      simp only [perform, hcfg] at hprf
      obtain rfl := Option.some.inj hprf
      exact Consistent.finishRegister (s := { s with registering := s.registering.eraseIdx index })
        ⟨h.keys, h.started⟩ config stored
  | update modelName autoScalingConfig =>
    obtain rfl := Option.some.inj hprf
    exact h.update modelName autoScalingConfig
  | delete modelName =>
    obtain rfl := Option.some.inj hprf
    exact h.delete modelName
  | shutdown =>
    obtain rfl := Option.some.inj hprf
    unfold shutdown
    split
    · exact h
    · simp only
      split
      · exact ⟨h.keys, h.started⟩
      · exact ⟨h.keys, h.started⟩
  | actorEnds name =>
    obtain rfl := Option.some.inj hprf
    exact ⟨h.keys, h.started⟩

/-- What a step should do: a registration that comes second returns and leaves what is registered; `update` raises nothing but
`ValueError`, for a model that is not registered; and `shutdown` returns with both maps empty. -/
def Right (s : State) : Step → Prop
  | .register config => config.model ∈ s.registeredModels.keys → s.perform (.register config) = some (.returned, s)
  | .resume index stored => ∀ config, s.registering[index]? = some config → stored = true →
      config.model ∈ s.registeredModels.keys →
    ∃ s', s.perform (.resume index stored) = some (.returned, s') ∧ s'.registeredModels = s.registeredModels ∧
      s'.requestRouters = s.requestRouters ∧ s'.started = s.started
  | .update modelName autoScalingConfig => (s.update modelName autoScalingConfig).1 = .returned ∨
    (s.update modelName autoScalingConfig).1 = .suspended ∨
    (s.update modelName autoScalingConfig).1 = .notRegistered ∧ modelName ∉ s.registeredModels.keys
  | .shutdown => s.running = true → ∃ s', s.perform .shutdown = some (.returned, s') ∧ s'.registeredModels.keys = [] ∧
    s'.requestRouters.keys = []
  | _ => True

/-- A registration that comes second finds the router gone, and `shutdown` finds no model. -/
def Uncontested (s : State) : Step → Prop
  | .resume index stored => ∀ config, s.registering[index]? = some config → stored = true →
      config.model ∈ s.registeredModels.keys →
    config.model ∉ s.actors.keys
  | .shutdown => s.running = true → s.registeredModels.keys = []
  | _ => True

theorem right_resume_iff (h : Consistent s) (index : Nat) (stored : Bool) :
    s.Right (.resume index stored) ↔ s.Uncontested (.resume index stored) := by
  refine forall_congr' fun config => forall_congr' fun hcfg => forall_congr' fun hstd => forall_congr' fun hreg => ?_
  have hrouter : config.model ∈ s.requestRouters.keys := h.keys ▸ hreg
  have hprf : s.perform (.resume index stored) =
      some ({ s with registering := s.registering.eraseIdx index }.finishRegister config true) := by
    unfold perform
    simp only [hcfg, hstd]
  rw [hprf]
  unfold finishRegister
  by_cases hnm : config.model ∈ s.actors.keys
  · simp [hnm]
  · simp [hnm, hrouter]

theorem right_update (h : Consistent s) (modelName : String) (autoScalingConfig : Option Nat) :
    s.Right (.update modelName autoScalingConfig) := by
  have hks : ∀ name, name ∈ s.registeredModels.keys ↔ name ∈ s.requestRouters.keys := fun name => by rw [h.keys]
  simp only [Right, update]
  by_cases hkn : modelName ∈ s.registeredModels.keys
  · obtain ⟨config, hcfg⟩ := mem_keys_iff.1 hkn
    obtain ⟨router, hrouter⟩ := mem_keys_iff.1 ((hks modelName).1 hkn)
    rw [if_neg (by rw [← hks, or_self, not_not]; exact hkn)]
    cases autoScalingConfig with
    | none => exact .inl rfl
    | some autoScalingConfig =>
      simp only [hcfg, hrouter]
      exact .inr (.inl trivial)
  · rw [if_pos (.inl hkn)]
    exact .inr (.inr ⟨rfl, hkn⟩)

theorem right_shutdown_iff (h : Consistent s) : s.Right .shutdown ↔ s.Uncontested .shutdown := by
  refine forall_congr' fun hrun => ?_
  unfold perform shutdown
  rw [if_neg (by rw [hrun]; exact nofun), h.keys]
  cases hks : s.requestRouters.keys with
  | nil => simp [h.keys, hks]
  | cons name names => simp [hks]

theorem right_iff (h : Consistent s) (c : Step) : s.Right c ↔ s.Uncontested c := by
  cases c with
  | register config =>
    refine iff_of_true (fun hreg => ?_) trivial
    simp only [perform, register, if_pos hreg, ite_self]
  | resume index stored => exact right_resume_iff h index stored
  | update modelName autoScalingConfig => exact iff_of_true (right_update h modelName autoScalingConfig) trivial
  | delete modelName => exact Iff.rfl
  | shutdown => exact right_shutdown_iff h
  | actorEnds name => exact Iff.rfl

/-- In every run the maps agree and of each registered name one router is started; and the steps all do what they should just
when no registration comes second while the router lives, and `shutdown` is not called while a model is registered. -/
theorem registry_consistent (steps : List Step) : Throughout State.step Consistent .init steps ∧
    (EachStep step Right .init steps ↔ EachStep step Uncontested .init steps) :=
  ⟨throughout_of_eachStep (P := fun _ _ => True) (fun _ _ _ h _ => h.step) consistent_init
    (eachStep_of_forall fun _ _ => trivial),
    eachStep_congr (I := Consistent) (fun _ _ _ h => h.step) (fun _ c h => right_iff h c) consistent_init⟩

def someModel : ModelConfig := ⟨"m", some "vllm", none⟩

/-- The second of two registrations raises, and so does `shutdown`. -/
theorem second_registration_raises : ∃ s₁ s₂ s₃,
    [Step.register someModel, .register someModel, .resume 0 true].foldlM State.step .init = some s₁ ∧
    s₁.registering = [someModel] ∧ s₁.perform (.resume 0 true) = some (.nameInUse, s₂) ∧
    s₂.perform .shutdown = some (.attributeError, s₃) ∧ s₃.registeredModels.keys = ["m"] :=
  ⟨_, _, _, rfl, rfl, rfl, rfl, rfl⟩

end State

end ServerlessLLM.Serving.Controller
