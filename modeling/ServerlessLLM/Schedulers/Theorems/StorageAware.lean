import ServerlessLLM.Schedulers.StorageAware

/-!
# The queue discipline of the storage-aware scheduler

A pass pops the requests that it serves by the positions that it collected.
-/

namespace ServerlessLLM.Schedulers.StorageAware

open List Option Prod State Queues

def servedAfter (s : State) (served : List String) : Step → List String
  | .allocateResource _ _ _ => served
  | .collect => []
  | .turn none => served
  | .turn (some _) => (s.loadingRequests.head?.map Collected.modelName).toList ++ served

def Step.serves : Step → Bool
  | .turn (some _) => true
  | _ => false

/-- A pass serves at most one request of each model. -/
def OncePerModel : State → List String → List Step → Prop
  | _, _, [] => True
  | s, served, step :: steps =>
    (step.serves = true → ∀ c ∈ s.loadingRequests.head?, c.modelName ∉ served) ∧
      ∀ s' ∈ s.step step, OncePerModel s' (servedAfter s served step) steps

instance decidableOncePerModel : ∀ s served steps, Decidable (OncePerModel s served steps)
  | _, _, [] => inferInstanceAs (Decidable True)
  | s, served, step :: steps =>
    have := fun s' => decidableOncePerModel s' (servedAfter s served step) steps
    inferInstanceAs (Decidable ((step.serves = true → ∀ c ∈ s.loadingRequests.head?, c.modelName ∉ served) ∧
      ∀ s' ∈ s.step step, OncePerModel s' (servedAfter s served step) steps))

/-- No exception ended the loop, and every future that was created is that of exactly one request in a queue, or was resolved
once. -/
structure Disciplined (s : State) : Prop where
  error : s.error = none
  futures : (s.queues.requests.map LoadingRequest.allocationResult ++ s.resolved.map fst).Perm (range s.created)

/-- With what a pass knows of the requests of the models it did not serve yet. -/
structure InPass (s : State) (served : List String) : Prop extends Disciplined s where
  inPlace : ∀ c ∈ s.loadingRequests, c.modelName ∉ served → (s.queues.queue c.modelName)[c.idx]? = some c.request

variable {s s' : State} {served : List String}

theorem InPass.allocateResource (h : InPass s served) (modelName : String) (requestTime : ℚ) (numGpus : Int) :
    InPass (s.allocateResource modelName requestTime numGpus) served := by
  refine ⟨⟨h.error, ?_⟩, ?_⟩
  · dsimp only [State.allocateResource]
    rw [range_succ]
    have happ := (requests_append s.queues modelName ⟨requestTime, numGpus, s.created⟩).map
      LoadingRequest.allocationResult
    refine (happ.append_right _).trans ?_
    exact (h.futures.cons s.created).trans (perm_append_singleton _ _).symm
  · intro c hc hserved
    have hplace := h.inPlace c hc hserved
    dsimp only [State.allocateResource]
    rw [queue_append]
    split
    · rename_i hmod
      rw [hmod] at hplace
      have hlt := (List.getElem?_eq_some_iff.1 hplace).1
      rw [getElem?_append_left hlt]
      exact hplace
    · exact hplace

theorem InPass.collect (h : InPass s served) : InPass s.collect [] := by
  refine ⟨⟨h.error, h.futures⟩, ?_⟩
  intro c hc _
  exact mem_collect.1 ((mem_insertionSort _).1 hc)

theorem InPass.serve (h : InPass s served) {c : Collected} {loadingRequests : List Collected} (nodeId : String)
    (hnx : s.loadingRequests = c :: loadingRequests) (hserved : c.modelName ∉ served) :
    InPass (({ s with loadingRequests := loadingRequests } : State).serve c nodeId) (c.modelName :: served) := by
  have hplace := h.inPlace c (by rw [hnx]; exact mem_cons_self) hserved
  have hrqs := (requests_pop hplace).map LoadingRequest.allocationResult
  -- its future was not resolved before
  have hnew : c.request.allocationResult ∉ s.resolved.map fst := by
    intro hmem
    have hnd := h.futures.nodup_iff.2 nodup_range
    rw [nodup_append] at hnd
    exact hnd.2.2 _ (hrqs.mem_iff.2 mem_cons_self) _ hmem rfl
  unfold State.serve
  dsimp only
  rw [pop_eq hplace]
  dsimp only
  rw [if_neg hnew]
  refine ⟨⟨h.error, ?_⟩, ?_⟩
  · dsimp only
    rw [map_append, map_singleton]
    refine List.Perm.trans ?_ h.futures
    refine List.Perm.trans ?_ (hrqs.append_right _).symm
    rw [← append_assoc]
    exact perm_append_singleton _ _
  · intro d hd hd'
    rw [mem_cons, not_or] at hd'
    dsimp only
    rw [queue_set, if_neg hd'.1]
    exact h.inPlace d (by rw [hnx]; exact mem_cons_of_mem _ hd) hd'.2

theorem InPass.step (h : InPass s served) {step : Step}
    (honce : step.serves = true → ∀ c ∈ s.loadingRequests.head?, c.modelName ∉ served) (hst : s.step step = some s') :
    InPass s' (servedAfter s served step) := by
  unfold State.step at hst
  cases step with
  | allocateResource modelName requestTime numGpus =>
    cases hst
    exact h.allocateResource modelName requestTime numGpus
  | collect =>
    dsimp only at hst
    split at hst
    · cases hst
      exact h.collect
    · cases hst
  | turn plan =>
    dsimp only at hst
    split at hst
    · rename_i c loadingRequests _ hnx
      cases plan with
      | none =>
        cases hst
        refine ⟨⟨h.error, h.futures⟩, ?_⟩
        intro d hd
        exact h.inPlace d (by rw [hnx]; exact mem_cons_of_mem _ hd)
      | some nodeId =>
        cases hst
        unfold servedAfter
        rw [hnx]
        exact h.serve nodeId hnx (honce rfl c (by rw [hnx]; rfl))
    · cases hst

theorem InPass.run (h : InPass s served) {steps : List Step} (honce : OncePerModel s served steps)
    (hrun : s.run steps = some s') : Disciplined s' := by
  induction steps generalizing s served with
  | nil =>
    cases hrun
    exact h.toDisciplined
  | cons step steps ih =>
    unfold run at hrun
    rw [foldlM_cons, bind_eq_bind, bind_eq_some_iff] at hrun
    obtain ⟨s₁, hst, hrs⟩ := hrun
    exact ih (h.step honce.1 hst) (honce.2 s₁ hst) hrs

theorem init_inPass : InPass .init [] := by
  refine ⟨⟨rfl, List.Perm.refl _⟩, ?_⟩
  intro c hc
  cases hc

/-- Every run whose passes serve at most one request of each model. -/
theorem run_disciplined {steps : List Step} (honce : OncePerModel .init [] steps) (hrun : State.run .init steps = some s) :
    Disciplined s := init_inPass.run honce hrun

/-- A request that is served, and one that comes while the pass is under way. -/
theorem run_disciplined_oneRequest :
    ∃ s, run .init [.allocateResource "m" 0 1, .collect, .allocateResource "m" 1 1, .turn (some "n")] = some s ∧
      Disciplined s := by
  have hso : (run .init [.allocateResource "m" 0 1, .collect, .allocateResource "m" 1 1, .turn (some "n")]).isSome = true := by
    decide +kernel
  obtain ⟨s, hrun⟩ := isSome_iff_exists.1 hso
  exact ⟨s, hrun, run_disciplined (by decide +kernel) hrun⟩

/-- Two requests of one model are served in one pass. The second one is not found at its position. -/
theorem run_indexError :
    ∃ s, run .init [.allocateResource "m" 0 1, .allocateResource "m" 1 1, .collect, .turn (some "n"), .turn (some "n")] =
      some s ∧ s.error = some .indexError := by
  have hso : (run .init [.allocateResource "m" 0 1, .allocateResource "m" 1 1, .collect, .turn (some "n"),
      .turn (some "n")]).map error = some (some .indexError) := by decide +kernel
  obtain ⟨s, hrun, herr⟩ := map_eq_some_iff.1 hso
  exact ⟨s, hrun, herr⟩

-- with a third request the loop goes on, and the third one is lost while the second one waits in its queue
example : (run .init [.allocateResource "m" 0 1, .allocateResource "m" 1 1, .allocateResource "m" 2 1, .collect,
    .turn (some "n"), .turn (some "n")]).map
      (fun s => (s.queues.requests.map LoadingRequest.allocationResult, s.resolved.map fst)) =
    some ([1], [0, 1]) := by decide +kernel

end ServerlessLLM.Schedulers.StorageAware
