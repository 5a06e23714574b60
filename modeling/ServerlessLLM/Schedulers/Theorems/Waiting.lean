import ServerlessLLM.Schedulers.Theorems.Fairness

/-!
# No request is lost

The queues hold the futures that have no result, and no others: a request leaves its queue in the turn that resolves its
future.
-/

namespace ServerlessLLM.Schedulers

open List Option Dict Accounts Queues

/-- The requests before a removal are those after it, and the one that was removed. -/
theorem Queues.requests_remove {q q' : Queues} {modelName : String} {r : LoadingRequest} (h : q.remove modelName r = some q') :
    q.requests.Perm (r :: q'.requests) := by
  unfold remove at h
  split at h
  · rename_i hmem
    obtain ⟨i, hi⟩ := List.getElem?_of_mem hmem
    obtain ⟨others, hpm, hset⟩ := requests_set (get?_of_getElem? hi)
    rw [← some.inj h]
    exact hpm.trans (((perm_cons_erase hmem).append_right others).trans ((hset _).symm.cons r))
  · cases h

namespace Fcfs

variable {s s' : State}

theorem Queued.remove {q q' : Queues} (hq : Queued q) {modelName : String} {r : LoadingRequest}
    (h : q.remove modelName r = some q') : Queued q' := by
  refine ⟨?_, fun d hd => hq.gpus d (mem_requests_of_remove h hd)⟩
  have hpm : (q.requests.map _).Perm _ := (requests_remove h).map LoadingRequest.allocationResult
  exact (nodup_cons.1 (hpm.nodup_iff.1 hq.futures)).2

def futures (q : Queues) : List Nat := q.requests.map LoadingRequest.allocationResult

/-- The futures in the queues are those that were created and have no result, each one once. -/
structure NoneLost (s : State) : Prop where
  queued : Queued s.queues
  waiting : ∀ f, f ∈ futures s.queues ↔ f < s.accounts.created ∧ s.accounts.results.get? f = none

theorem noneLost_init : NoneLost .init where
  queued := ⟨nodup_nil, by rintro r ⟨⟩⟩
  waiting := fun _ => iff_of_false nofun nofun

/-- In a turn a request leaves its queue and its future gets the result, or nothing happens. -/
theorem NoneLost.serve (h : NoneLost s) (r : Nat) (c : Collected) : NoneLost (s.serve r c) := by
  unfold State.serve
  split
  · exact h
  · split
    · exact h
    · split
      · exact h
      · rename_i nodeId _ _ _ queues hrmv
        refine ⟨h.queued.remove hrmv, ?_⟩
        have hpm : (futures s.queues).Perm (c.request.allocationResult :: futures queues) := (requests_remove hrmv).map _
        have hnd := nodup_cons.1 (hpm.nodup_iff.1 h.queued.futures)
        intro f
        have hold := h.waiting f
        rw [hpm.mem_iff, mem_cons] at hold
        have hget : (s.accounts.results.set c.request.allocationResult nodeId).get? f =
            if f = c.request.allocationResult then some nodeId else s.accounts.results.get? f := get?_set _ _ _ _
        by_cases hf : f = c.request.allocationResult
        · rw [if_pos hf] at hget
          exact iff_of_false (hf ▸ hnd.1) fun hno => some_ne_none _ (hget.symm.trans hno.2)
        · rw [if_neg hf] at hget
          rw [or_iff_right hf, ← hget] at hold
          exact hold

theorem NoneLost.serveAll (h : NoneLost s) (r : Nat) (l : List Collected) : NoneLost (s.serveAll r l) := by
  induction l generalizing s with
  | nil => exact h
  | cons c l ih => exact ih (h.serve r c)

/-- All turns of a pass, in the table that it starts with. -/
def State.served (s : State) (workerNodes : Nodes) : State :=
  State.serveAll { s with accounts := s.accounts.getWorkerNodes workerNodes }
    (s.accounts.getWorkerNodes workerNodes).tables.workerNodes (order s.queues)

theorem State.pass_cases (s : State) (rayNodes : List RayNode) :
    (s.queues.collect = [] ∧ s.pass rayNodes = s) ∨ s.pass rayNodes = { s with running := false } ∨
      ∃ workerNodes, Schedulers.getWorkerNodes rayNodes = some workerNodes ∧ s.pass rayNodes = { s.served workerNodes with
        accounts := (s.served workerNodes).accounts.updateWorkerNodes
          (s.accounts.getWorkerNodes workerNodes).tables.workerNodes } := by
  unfold State.pass
  split
  · rename_i hnil
    exact .inl ⟨hnil, rfl⟩
  · split
    · exact .inr (.inl rfl)
    · rename_i workerNodes hnds
      exact .inr (.inr ⟨workerNodes, hnds, rfl⟩)

theorem NoneLost.served (h : NoneLost s) (workerNodes : Nodes) : NoneLost (s.served workerNodes) :=
  NoneLost.serveAll (s := { s with accounts := s.accounts.getWorkerNodes workerNodes }) ⟨h.queued, h.waiting⟩ _ _

theorem NoneLost.pass (h : NoneLost s) (rayNodes : List RayNode) : NoneLost (s.pass rayNodes) := by
  obtain ⟨-, heq⟩ | heq | ⟨workerNodes, -, heq⟩ := s.pass_cases rayNodes
  · rwa [heq]
  · rw [heq]
    exact ⟨h.queued, h.waiting⟩
  · rw [heq]
    have hall := h.served workerNodes
    exact ⟨hall.queued, hall.waiting⟩

theorem NoneLost.step (h : NoneLost s) (hc : Conserved s) {step : Step} (hst : s.step step = some s') : NoneLost s' := by
  cases step with
  | allocateResource modelName instanceId requestTime numGpus =>
    simp only [State.step] at hst
    split at hst
    · cases hst
    · cases hst
      have hpm := requests_append s.queues modelName ⟨requestTime, numGpus, s.accounts.created⟩
      have hold := h.waiting s.accounts.created
      refine ⟨⟨(hpm.map _).nodup_iff.2 (nodup_cons.2 ⟨?_, h.queued.futures⟩), ?_⟩, ?_⟩
      · exact fun hmem => absurd (hold.1 hmem).1 (Nat.lt_irrefl _)
      · intro d hd
        rcases mem_cons.1 (hpm.mem_iff.1 hd) with rfl | hd
        · exact Int.natCast_nonneg _
        · exact h.queued.gpus d hd
      · intro f
        have hfs : (futures (s.allocateResource modelName instanceId requestTime numGpus).queues).Perm
            (s.accounts.created :: futures s.queues) := hpm.map _
        have hnew : f < (s.allocateResource modelName instanceId requestTime numGpus).accounts.created ↔
            f < s.accounts.created + 1 := Iff.rfl
        rw [hfs.mem_iff, mem_cons, h.waiting f, hnew]
        by_cases hf : f = s.accounts.created
        · subst hf
          exact iff_of_true (.inl rfl) ⟨Nat.lt_succ_self _, hc.sound.pending s.accounts.created le_rfl⟩
        · rw [or_iff_right hf, show f < s.accounts.created + 1 ↔ f < s.accounts.created by omega]
          rfl
  | resume i =>
    obtain ⟨accounts, hacc, rfl⟩ := map_eq_some_iff.1 hst
    obtain ⟨-, -, nodeId, -, rfl⟩ := resume_eq hacc
    exact ⟨h.queued, h.waiting⟩
  | deallocateResource i =>
    obtain ⟨accounts, hacc, rfl⟩ := map_eq_some_iff.1 hst
    obtain ⟨-, -, nodeId, d, -, -, rfl⟩ := deallocate_eq hc.sound hacc
    exact ⟨h.queued, h.waiting⟩
  | pass rayNodes =>
    simp only [State.step] at hst
    split at hst
    · cases hst
      exact h.pass rayNodes
    · cases hst

theorem noneLost_of_run {steps : List Step} (hrun : State.init.run steps = some s) : Conserved s ∧ NoneLost s :=
  Runs.run_invariant (I := fun s => Conserved s ∧ NoneLost s) (fun _ _ _ h hst => ⟨h.1.step hst, h.2.step h.1 hst⟩)
    ⟨init_conserved, noneLost_init⟩ hrun

/-- Every run. The futures that wait in the queues and those that have their nodes are together all that were created, each one
in one place and once. -/
theorem no_request_lost {steps : List Step} (hrun : State.init.run steps = some s) :
    ((s.queues.requests.map LoadingRequest.allocationResult) ++ s.accounts.results.keys).Perm (range s.accounts.created) := by
  obtain ⟨hc, h⟩ := noneLost_of_run hrun
  refine (perm_ext_iff_of_nodup ?_ nodup_range).2 fun f => ?_
  · rw [nodup_append]
    refine ⟨h.queued.futures, s.accounts.results.nodup, ?_⟩
    rintro f hf g hg rfl
    exact get?_eq_none_iff.1 ((h.waiting f).1 hf).2 hg
  · have hwt := h.waiting f
    have hpnd := hc.sound.pending f
    unfold futures at hwt
    rw [mem_append, hwt, mem_range, get?_eq_none_iff]
    rw [get?_eq_none_iff] at hpnd
    by_cases hf : f < s.accounts.created
    · simp [hf, em']
    · simp [hf, hpnd (by omega)]

theorem no_request_lost_stepsOfTwo : ∃ s, State.init.run stepsOfTwo = some s ∧
    ((s.queues.requests.map LoadingRequest.allocationResult) ++ s.accounts.results.keys).Perm (range s.accounts.created) := by
  have hso : (State.init.run stepsOfTwo).isSome = true := by decide +kernel
  obtain ⟨s, hs⟩ := isSome_iff_exists.1 hso
  exact ⟨s, hs, no_request_lost hs⟩

/-! ## What a pass leaves waiting -/

theorem mem_requests_serveAll {r : Nat} {l : List Collected} {q : LoadingRequest} (h : q ∈ (s.serveAll r l).queues.requests) :
    q ∈ s.queues.requests := by
  induction l generalizing s with
  | nil => exact h
  | cons c l ih =>
    have hq : q ∈ (s.serve r c).queues.requests := ih h
    unfold State.serve at hq
    split at hq
    · exact hq
    · split at hq
      · exact hq
      · split at hq
        · exact hq
        · rename_i queues hrmv
          exact mem_requests_of_remove hrmv hq

/-- A request that is left after all turns did not fit at its own one, and nodes have fewer free GPUs since then. -/
theorem Serving.noFit_of_left {q : Queues} {r : Nat} (hs : Serving q r s) (hqd : Queued q) (hqs : s.queues = q)
    (hlost : NoneLost (s.serveAll r (order q))) {request : LoadingRequest}
    (hreq : request ∈ (s.serveAll r (order q)).queues.requests) :
    firstFit ((s.serveAll r (order q)).accounts.tables.table r) request.numGpus = none := by
  have hmem : ∀ d ∈ order q, d ∈ q.collect := fun d hd => mem_order.1 hd
  have hold : request ∈ q.requests := hqs ▸ mem_requests_serveAll hreq
  rw [← map_request_collect] at hold
  obtain ⟨c, hc, rfl⟩ := mem_map.1 hold
  have hend : ¬(s.serveAll r (order q)).Resolved c := not_resolved_iff.2 ((hlost.waiting _).1 (mem_map_of_mem hreq)).2
  have hres : ¬s.Resolved c := fun h => hend (hs.resolved_serveAll hqd hmem hc h)
  obtain ⟨a, b, hord⟩ := append_of_mem (mem_order.2 hc)
  have hnd := nodup_order q
  rw [hord] at hmem hnd hend ⊢
  have hno := not_not.1 ((hs.resolved_iff hqd hmem hnd hres).not.1 hend)
  have ha : ∀ d ∈ a, d ∈ q.collect := fun d hd => hmem d (mem_append_left _ hd)
  rw [serveAll_append]
  exact (hs.serveAll hqd ha).noFit_serveAll hqd (fun d hd => hmem d (mem_append_right _ hd)) hno

theorem InPass.get?_updateWorkerNodes {r : Nat} (h : InPass s r []) (nodeId : String) :
    (s.accounts.updateWorkerNodes r).tables.current.get? nodeId = (s.accounts.tables.table r).get? nodeId := by
  unfold Accounts.updateWorkerNodes Tables.updateWorkerNodes
  rw [Tables.current_replace, ← h.own]
  exact Nodes.get?_overwrite_self _ nodeId

/-- In every run: after a pass that did not end the control loop, no node has as many free GPUs as a request that still waits
asks for. -/
theorem work_conserving {steps : List Step} {rayNodes : List RayNode}
    (hrun : State.init.run (steps ++ [.pass rayNodes]) = some s)
    (hrunning : s.running = true) {request : LoadingRequest} (hreq : request ∈ s.queues.requests)
      {nodeId : String} {info : NodeInfo}
    (hin : s.accounts.tables.current.get? nodeId = some info) : info.freeGpu < request.numGpus := by
  unfold State.run at hrun
  rw [foldlM_append] at hrun
  obtain ⟨s₀, hrun₀, hst⟩ := bind_eq_some_iff.1 hrun
  obtain ⟨hc, h⟩ := noneLost_of_run hrun₀
  obtain ⟨s₁, hpass, heq⟩ := Runs.foldlM_cons_eq_some.1 hst
  cases heq
  simp only [State.step] at hpass
  split at hpass
  · obtain rfl := some.inj hpass
    obtain ⟨hnil, heq⟩ | heq | ⟨workerNodes, hnds, heq⟩ := s₀.pass_cases rayNodes
    · rw [heq, ← map_request_collect, hnil] at hreq
      cases hreq
    · rw [heq] at hrunning
      cases hrunning
    · rw [heq] at hreq hin
      have hinp : InPass (s₀.served workerNodes) (s₀.accounts.getWorkerNodes workerNodes).tables.workerNodes [] := by
        refine InPass.foldl_serve ⟨hc.getWorkerNodes hnds, rfl, ?_⟩
        intro c hmem
        exact hc.requested _ (request_mem_of_mem_collect (mem_order.1 hmem))
      have hleft := (serving_opened s₀ workerNodes).noFit_of_left h.queued rfl (h.served workerNodes) hreq
      rw [firstFit_eq_none] at hleft
      refine hleft nodeId info ?_
      -- the table of the pass is the scheduler's own one, so that nothing is lost when it is written back
      have hget := hinp.get?_updateWorkerNodes nodeId
      exact hget.symm.trans hin
  · cases hpass

/-- Two requests, and a node that has room for the first one. -/
def stepsOfLeft : List Step := [.allocateResource "m" "m_0" 0 2, .allocateResource "n" "n_0" 1 4]

theorem work_conserving_stepsOfLeft : ∃ s, State.init.run (stepsOfLeft ++ [.pass nodeOfTwo]) = some s ∧
    ∃ request ∈ s.queues.requests, ∃ info, s.accounts.tables.current.get? "0" = some info ∧ info.freeGpu < request.numGpus := by
  have hso : (State.init.run (stepsOfLeft ++ [.pass nodeOfTwo])).map (fun s =>
      (s.running, s.queues.requests, s.accounts.tables.current.get? "0")) = some (true, [⟨1, 4, 1⟩], some ⟨0, 2⟩) := by
    decide +kernel
  obtain ⟨s, hs, heq⟩ := map_eq_some_iff.1 hso
  rw [Prod.mk.injEq, Prod.mk.injEq] at heq
  have hreq : ⟨1, 4, 1⟩ ∈ s.queues.requests := by
    rw [heq.2.1]
    exact mem_cons_self
  exact ⟨s, hs, _, hreq, _, heq.2.2, work_conserving hs heq.1 hreq heq.2.2⟩

end Fcfs

end ServerlessLLM.Schedulers
