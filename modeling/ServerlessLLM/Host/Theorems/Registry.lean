import ServerlessLLM.Host.Theorems.Copies

/-!
# Evictions look up registered models

As long as no model was loaded before a `ClearMem`, the models with an access time are registered.
-/

namespace ServerlessLLM

open List Option Dict Model

/-- The models that an eviction has still to try. -/
def Pc.VictimsIn (keys : List String) : Pc → Prop
  | .evict order _ => ∀ victim ∈ order, victim ∈ keys
  | _ => True

namespace Store

/-- The invariant behind `Registered`. -/
structure RegistryInv (s : Store) : Prop where
  times : ∀ modelPath ∈ s.modelLastAccessTime.keys, modelPath ∈ s.modelMap.keys
  tasks : ∀ (k : Nat) (task : Task), s.tasks[k]? = some task → task.pc.VictimsIn s.modelMap.keys

variable {s s' : Store}

theorem RegistryInv.registered (h : s.RegistryInv) : s.Registered :=
  ⟨h.times, fun k _ victim _ _ htk => h.tasks k _ htk victim mem_cons_self⟩

theorem victimsIn_of_pending_none {pc : Pc} {keys : List String} (h : pending pc = none) : pc.VictimsIn keys := by
  cases pc with
  | evict order n => cases h
  | _ => trivial

theorem RegistryInv.goto (hinv : s.RegistryInv) (modelPath : String) {k : Nat} {task : Task} {times : Dict String Nat}
    {models : Dict String Model} {pool : PinnedMemoryPool} {lockedBy : Option Nat} (hks : models.keys = s.modelMap.keys)
    (htimes : s.Touches modelPath times) (htk : task.pc.VictimsIn s.modelMap.keys) :
    RegistryInv { s with
      memoryPool := pool, modelMap := models, modelLastAccessTime := times, lockedBy := lockedBy, tasks :=
        s.tasks.set k task } := by
  refine ⟨?_, forall_tasks_set ?_ ?_⟩
  · intro path hpa
    dsimp only at hpa ⊢
    rw [hks]
    rcases htimes with rfl | ⟨hmem, now, rfl⟩
    · exact hinv.times path hpa
    · rcases mem_keys_set.1 hpa with rfl | hold
      · exact hmem
      · exact hinv.times path hold
  · intro k' task' _ htk'
    dsimp only
    rw [hks]
    exact hinv.tasks k' task' htk'
  · dsimp only
    rw [hks]
    exact htk

variable {k : Nat} {modelPath : String} {order : List String}

theorem RegistryInv.allocate (hinv : s.RegistryInv) {now : Nat}
    (h : s.allocate k modelPath order now = some s') : s'.RegistryInv := by
  obtain ⟨-, hord, m, hm, pc, lockedBy, times, htimes, rfl, hcases⟩ := allocate_cases h
  refine hinv.goto modelPath (keys_set_of_get? hm _) htimes ?_
  rcases hcases with ⟨-, rfl, -⟩ | ⟨-, rfl | rfl⟩
  · intro victim hvic
    unfold evictionOrder at hord
    rw [Bool.and_eq_true] at hord
    exact hinv.times victim ((isPerm_iff.1 hord.1).mem_iff.1 hvic)
  · trivial
  · trivial

theorem RegistryInv.evict (hinv : s.RegistryInv) {memChunksNeeded : Int}
    (htk : s.tasks[k]? = some ⟨modelPath, .evict order memChunksNeeded⟩)
    (h : s.evict k modelPath order memChunksNeeded = some s') : s'.RegistryInv := by
  have hord : ∀ victim ∈ order, victim ∈ s.modelMap.keys := hinv.tasks k _ htk
  rcases evict_cases h with rfl | ⟨-, -, rfl⟩ | ⟨-, -, rfl⟩ | ⟨victim, rest, m, freed, m', pool, rfl, hm, -, pc, rfl, hpc⟩
  · exact ⟨hinv.times, hinv.tasks⟩
  · exact hinv.goto modelPath rfl (.inl rfl) trivial
  · exact hinv.goto modelPath rfl (.inl rfl) trivial
  · refine hinv.goto modelPath (keys_set_of_get? hm _) (.inl rfl) ?_
    rcases hpc with ⟨-, -, rfl⟩ | ⟨-, rfl⟩ | ⟨-, rfl⟩
    · trivial
    · exact fun v hv => hord v (mem_cons_of_mem _ hv)
    · exact fun v hv => hord v (mem_cons_of_mem _ hv)

theorem RegistryInv.step (hinv : s.RegistryInv) {a : Action} (h : s.step a = some s') : s'.RegistryInv := by
  rcases step_cases h with ⟨task, -, hca, rfl⟩ | ⟨freeList, -, hpm, rfl⟩ | ⟨k, choice, ⟨modelPath, pc⟩, -, htk, hst⟩
  · refine ⟨hinv.times, ?_⟩
    intro k task' htk'
    rw [List.getElem?_append] at htk'
    split at htk'
    · exact hinv.tasks k task' htk'
    · obtain rfl : task' = task := by simpa using mem_of_getElem? htk'
      exact victimsIn_of_pending_none (pending_of_isCall hca)
  · exact ⟨hinv.times, hinv.tasks⟩
  · rcases taskStep_cases hst with ⟨-, pc', times, hstd, htimes, rfl⟩ | ⟨-, order, now, hala⟩ |
      ⟨order, n, hpc, hevict⟩ | ⟨hpc, now, hala⟩ | hsec
    · refine hinv.goto modelPath rfl htimes ?_
      cases hstd <;> trivial
    · exact hinv.allocate hala
    · dsimp only at hpc
      subst hpc
      exact hinv.evict htk hevict
    · obtain ⟨m, hm, pc', times, htimes, rfl, hpc'⟩ := allocateAgain_cases hala
      refine hinv.goto modelPath (keys_set_of_get? hm _) htimes ?_
      rcases hpc' with rfl | rfl
      · trivial
      · trivial
    · obtain ⟨m, hm, ⟨-, rfl⟩ | ⟨pc', m', pool, hmod, rfl⟩⟩ := inModel_cases hsec
      · exact ⟨hinv.times, hinv.tasks⟩
      · exact hinv.goto modelPath (keys_set_of_get? hm _) (.inl rfl)
          (victimsIn_of_pending_none (pending_modelSection hmod))

theorem RegistryInv.registerModelInfo (hinv : s.RegistryInv) {modelPath : String} {modelSize : Nat}
    (h : s.registerModelInfo modelPath modelSize = some s') : s'.RegistryInv := by
  unfold Store.registerModelInfo at h
  split at h
  · cases h
  · split at h
    · cases h
      exact hinv
    · split at h
      · cases h
        refine ⟨fun path hpa => mem_keys_set.2 (.inr (hinv.times path hpa)), ?_⟩
        intro k task htk
        have hold := hinv.tasks k task htk
        cases hpc : task.pc with
        | evict order n =>
          rw [hpc] at hold
          exact fun victim hvic => mem_keys_set.2 (.inr (hold victim hvic))
        | _ => trivial
      · cases h
        exact hinv

theorem clearMem_cases (h : s.clearMem = some s') : s' = { s with crashed := true } ∨
    (s'.modelMap = .empty ∧ s'.modelLastAccessTime = s.modelLastAccessTime ∧ s'.crashed = false ∧ s'.tasks = s.tasks ∧
      ∀ task ∈ s.tasks, task.pc.isReturned = true) := by
  unfold clearMem at h
  split at h
  · cases h
  · rename_i hguard
    simp only [not_or, not_not] at hguard
    split at h
    · cases h
      exact .inr ⟨rfl, rfl, eq_false_of_ne_true hguard.1, rfl, all_eq_true.1 hguard.2.2⟩
    · cases h
      exact .inl rfl
    · cases h

theorem RegistryInv.clearMem (hinv : s.RegistryInv) (htimes : s'.crashed = false → s.modelLastAccessTime.keys = [])
    (h : s.clearMem = some s') : s'.RegistryInv := by
  rcases clearMem_cases h with rfl | ⟨hmds, htimes', hcra, htasks, hret⟩
  · exact ⟨hinv.times, hinv.tasks⟩
  · refine ⟨?_, ?_⟩
    · intro path hpa
      rw [htimes', htimes hcra] at hpa
      cases hpa
    · intro k task htk
      rw [htasks] at htk
      have hpc := hret task (mem_of_getElem? htk)
      cases hcase : task.pc with
      | evict order n =>
        rw [hcase] at hpc
        cases hpc
      | _ => trivial

theorem serveAll_cons (s : Store) (r : Request) (requests : List Request) :
    s.serveAll (r :: requests) = (s.serve r).bind fun s' => s'.serveAll requests := by
  unfold serveAll
  rw [foldlM_cons]
  rfl

theorem RegistryInv.serveAll (hinv : s.RegistryInv) {requests : List Request} (hclears : s.ClearsUnused requests)
    (h : s.serveAll requests = some s') : s'.RegistryInv := by
  induction requests generalizing s with
  | nil =>
    cases h
    exact hinv
  | cons r requests ih =>
    rw [serveAll_cons, bind_eq_some_iff] at h
    obtain ⟨s₁, hserve, hrs⟩ := h
    refine ih ?_ ?_ hrs
    · cases r with
      | act action => exact hinv.step hserve
      | registerModelInfo modelPath modelSize => exact hinv.registerModelInfo hserve
      | clearMem => exact hinv.clearMem (fun hcra => hclears [] requests s s₁ rfl rfl hserve hcra) hserve
    · intro pre post s₂ s₃ hspl hrun
      refine hclears (r :: pre) post s₂ s₃ (by rw [hspl, cons_append]) ?_
      rw [serveAll_cons, hserve]
      exact hrun

/-- Every model with an access time is registered in every state of a sequence of requests, and an eviction looks up registered
models only, exactly when each `ClearMem` finds no access time. -/
theorem registered_iff {s : Store} (hinit : s.Initial) (htimes : s.modelLastAccessTime = .empty) (requests : List Request) :
    (∀ pre post s₁, requests = pre ++ post → s.serveAll pre = some s₁ → s₁.Registered) ↔ s.ClearsUnused requests := by
  constructor
  · intro hreg pre post s₁ s₂ hspl hrun hclear hcra
    have hrun' : s.serveAll (pre ++ [.clearMem]) = some s₂ := by
      unfold serveAll at hrun ⊢
      rw [foldlM_append, hrun]
      simpa [serve] using hclear
    obtain ⟨hks, -⟩ := hreg (pre ++ [.clearMem]) post s₂ (by rw [hspl]; simp) hrun'
    rcases clearMem_cases hclear with rfl | ⟨hmds, htimes', -⟩
    · cases hcra
    · rw [eq_nil_iff_forall_not_mem]
      intro path hpa
      rw [← htimes'] at hpa
      have hmem := hks path hpa
      rw [hmds] at hmem
      cases hmem
  · intro hclears pre post s₁ hspl hrun
    have hinv : s.RegistryInv := by
      refine ⟨?_, ?_⟩
      · intro path hpa
        rw [htimes] at hpa
        cases hpa
      · intro k task htk
        rw [hinit.tasks] at htk
        cases htk
    refine (hinv.serveAll ?_ hrun).registered
    intro pre' post' s₂ s₃ hspl'
    exact hclears pre' (post' ++ post) s₂ s₃ (by rw [hspl, hspl']; simp)

/-- A `ClearMem` before any model is loaded. -/
theorem registered_clearMem : (twoModels.serveAll [.clearMem, .registerModelInfo "c" 1]).isSome = true ∧
    ∀ pre post s₁, [.clearMem, .registerModelInfo "c" 1] = pre ++ post → twoModels.serveAll pre = some s₁ → s₁.Registered := by
  refine ⟨by decide +kernel, (registered_iff twoModels_initial rfl _).2 ?_⟩
  intro pre post s₁ s₂ hspl hrun _ _
  cases pre with
  | nil =>
    cases hrun
    rfl
  | cons r pre =>
    rw [cons_append, List.cons.injEq] at hspl
    rcases append_eq_singleton_iff.1 hspl.2.symm with ⟨-, h⟩ | ⟨-, h⟩
    · cases h
    · cases h

/-- A model is loaded, the memory is cleared, and two new models are loaded that do not fit together. -/
def clearing : List Request :=
  [.act (.call ⟨"a", .lookupDisk⟩), .act (.step 0 (.go 1)), .act (.step 0 (.models [] 1)), .act (.step 0 (.opens true)),
    .act (.step 0 (.read 1 true)), .act (.step 0 (.read 0 true)), .act (.step 0 (.finish [])), .clearMem,
    .registerModelInfo "c" 1, .registerModelInfo "d" 2, .act (.call ⟨"c", .lookupDisk⟩), .act (.step 1 (.go 2)),
    .act (.step 1 (.models ["a"] 2)), .act (.call ⟨"d", .lookupDisk⟩), .act (.step 2 (.go 3)),
    .act (.step 2 (.models ["a", "c"] 3))]

/-- The first model that the eviction looks up is not registered, and the next step dereferences a null model. -/
theorem clearing_unregistered : ∃ s s', twoModels.serveAll clearing = some s ∧ ¬s.Registered ∧
    s.serve (.act (.step 2 (.go 4))) = some s' ∧ s'.crashed = true := by
  have hso : (twoModels.serveAll clearing).bind (fun s => (s.serve (.act (.step 2 (.go 4)))).map fun s' =>
      (s.tasks[2]?, decide ("a" ∈ s.modelMap.keys), s'.crashed)) =
      some (some ⟨"d", .evict ["a", "c"] 1⟩, false, true) := by decide +kernel
  obtain ⟨s, hrun, hso⟩ := bind_eq_some_iff.1 hso
  obtain ⟨s', hserve, heq⟩ := map_eq_some_iff.1 hso
  rw [Prod.mk.injEq, Prod.mk.injEq] at heq
  refine ⟨s, s', hrun, ?_, hserve, heq.2.2⟩
  intro h
  exact of_decide_eq_false heq.2.1 (h.2 2 "d" "a" ["c"] 1 heq.1)

end Store

end ServerlessLLM
