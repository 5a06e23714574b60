import ServerlessLLM.Library.Runs
import ServerlessLLM.Schedulers.Fcfs
import ServerlessLLM.Schedulers.Lemmas.AccountOps

/-!
# Who is served first

A pass of `_control_loop` sorts the requests by their positions in the queues of their models.
-/

namespace ServerlessLLM.Schedulers

open List Dict Accounts Nodes Queues

namespace Queues

theorem mem_requests_of_remove {q q' : Queues} {modelName : String} {r r' : LoadingRequest} (h : q.remove modelName r = some q')
    (hr' : r' ∈ q'.requests) : r' ∈ q.requests := by
  unfold remove at h
  split at h
  · rename_i hmem
    cases h
    cases hget : q.get? modelName with
    | none =>
      unfold queue at hmem
      rw [hget] at hmem
      cases hmem
    | some l =>
      obtain ⟨others, hq, hset⟩ := requests_set hget
      rw [queue_of_get? hget] at hr'
      rcases mem_append.1 ((hset _).mem_iff.1 hr') with hl | hoth
      · exact hq.mem_iff.2 (mem_append_left _ (mem_of_mem_erase hl))
      · exact hq.mem_iff.2 (mem_append_right _ hoth)
  · cases h

end Queues

namespace Fcfs

variable {s s' : State} {r : Nat} {c : Collected}

/-- Every node has GPUs that are free and those of instances, and a request that waits is the one of an instance. -/
structure Conserved (s : State) : Prop where
  sound : s.accounts.Sound
  balanced : s.accounts.Balanced
  free : ∀ nodeId info, s.accounts.tables.current.get? nodeId = some info → 0 ≤ info.freeGpu
  amounts : ∀ i ∈ s.accounts.instances, 0 ≤ i.numGpus
  requested : ∀ q ∈ s.queues.requests, s.accounts.Requested q

theorem Conserved.allocateResource (h : Conserved s) {modelName instanceId : String}
    (hnew : ¬s.accounts.Known modelName instanceId)
    (requestTime : ℚ) (numGpus : Nat) : Conserved (s.allocateResource modelName instanceId requestTime numGpus) where
  sound := sound_request h.sound hnew numGpus
  balanced := h.balanced.of_placed fun _ => placed_request h.sound _ _ _
  free := h.free
  amounts := by
    intro i hi
    rcases mem_append.1 hi with hi | hi
    · exact h.amounts i hi
    · rw [mem_singleton.1 hi]
      exact Int.natCast_nonneg _
  requested := by
    intro q hq
    rcases mem_cons.1 ((Queues.requests_append _ _ _).mem_iff.1 hq) with rfl | hq
    · exact requested_request_self _ _
    · exact requested_request (h.requested q hq)

theorem Conserved.resume (h : Conserved s) {i : Instance} {accounts : Accounts} (hrsm : s.accounts.resume i = some accounts) :
    Conserved { s with accounts := accounts } := by
  obtain ⟨hi, -, nodeId, -, rfl⟩ := resume_eq hrsm
  refine ⟨sound_resume h.sound hrsm, h.balanced.of_placed fun _ => placed_resume hrsm, h.free, ?_, ?_⟩
  · intro j hj
    rcases mem_resumed hj with ⟨-, rfl⟩ | ⟨hj, -⟩
    · exact h.amounts i hi
    · exact h.amounts j hj
  · exact fun q hq => requested_resume (h.requested q hq) hrsm

theorem Conserved.deallocate (h : Conserved s) {i : Instance} {accounts : Accounts}
    (hdea : s.accounts.deallocate i = some accounts) : Conserved { s with accounts := accounts } := by
  obtain ⟨hi, -, nodeId, d, hnod, -, heq⟩ := deallocate_eq h.sound hdea
  have hcur : accounts.tables.current = s.accounts.tables.current.charge nodeId (-i.numGpus) := by
    subst heq
    exact Tables.table_modify_self h.sound.own
  have hamt := h.amounts i hi
  refine ⟨sound_deallocate h.sound hdea, balanced_deallocate h.sound h.balanced hdea, ?_, ?_, ?_⟩
  · intro k info hin
    rw [hcur, Nodes.get?_charge] at hin
    split at hin
    · obtain ⟨info', hin', rfl⟩ := Option.map_eq_some_iff.1 hin
      have hfe := h.free nodeId info' hin'
      simp only
      omega
    · exact h.free k info hin
  · intro j hj
    subst heq
    exact h.amounts j (mem_of_mem_erase hj)
  · exact fun q hq => requested_deallocate h.sound (h.requested q hq) hdea

/-! ## A pass -/

structure InPass (s : State) (r : Nat) (loadingRequests : List Collected) : Prop extends Conserved s where
  own : s.accounts.tables.workerNodes = r
  waiting : ∀ c ∈ loadingRequests, s.accounts.Requested c.request

theorem firstFit_eq_some {nodes : Nodes} {numGpus : Int} {nodeId : String} (h : firstFit nodes numGpus = some nodeId) :
    ∃ info, nodes.get? nodeId = some info ∧ numGpus ≤ info.freeGpu := by
  obtain ⟨e, he, rfl⟩ := Option.map_eq_some_iff.1 h
  refine ⟨e.2, mem_entries_iff.1 (mem_of_find?_eq_some he), ?_⟩
  simpa using find?_some he

theorem InPass.serve {loadingRequests : List Collected} (h : InPass s r (c :: loadingRequests)) :
    InPass (s.serve r c) r loadingRequests := by
  have hrs : InPass s r loadingRequests := ⟨h.toConserved, h.own, fun c hc => h.waiting c (mem_cons_of_mem _ hc)⟩
  unfold State.serve
  split
  · exact hrs
  · rename_i nodeId hfit
    split
    · exact hrs
    · rename_i hno
      split
      · exact hrs
      · rename_i queues hrmv
        rw [Option.isSome_iff_ne_none, not_not] at hno
        obtain ⟨i, hi, hfut, hgpus⟩ := h.waiting c mem_cons_self hno
        rw [← hfut] at hno ⊢
        rw [← hgpus] at hfit ⊢
        obtain ⟨info, hin, hfe⟩ := firstFit_eq_some hfit
        rw [← h.own] at hin
        -- the node is charged in the table that the scheduler has
        have hsnd := sound_setResult h.sound hi hno (mem_keys_iff.2 ⟨info, hin⟩)
        have hcur := (current_charge hsnd r nodeId i.numGpus).trans (if_pos h.own)
        refine ⟨⟨sound_charge hsnd _ _ _, ?_, ?_, h.amounts, ?_⟩, h.own, ?_⟩
        · unfold Accounts.Balanced
          rw [hcur]
          exact h.balanced.charge fun k => placed_setResult h.sound hi hno nodeId k
        · intro k info' hin'
          rw [hcur, Nodes.get?_charge] at hin'
          split at hin'
          · obtain ⟨info₀, hin₀, rfl⟩ := Option.map_eq_some_iff.1 hin'
            cases hin.symm.trans hin₀
            simp only
            omega
          · exact h.free k info' hin'
        · intro q hq
          exact requested_setResult (h.requested q (Queues.mem_requests_of_remove hrmv hq))
        · exact fun c hc => requested_setResult (h.waiting c (mem_cons_of_mem _ hc))

theorem InPass.foldl_serve {loadingRequests : List Collected} (h : InPass s r loadingRequests) :
    InPass (loadingRequests.foldl (fun s c => s.serve r c) s) r [] := by
  induction loadingRequests generalizing s with
  | nil => exact h
  | cons c loadingRequests ih => exact ih h.serve

theorem Conserved.getWorkerNodes (h : Conserved s) {rayNodes : List RayNode} {workerNodes : Nodes}
    (hnds : Schedulers.getWorkerNodes rayNodes = some workerNodes) :
    Conserved { s with accounts := s.accounts.getWorkerNodes workerNodes } := by
  refine ⟨sound_getWorkerNodes h.sound workerNodes, balanced_getWorkerNodes h.sound h.balanced hnds, ?_,
    h.amounts, h.requested⟩
  · intro k info hin
    rw [current_getWorkerNodes, Nodes.get?_addUnknown] at hin
    rcases Option.or_eq_some_iff.1 hin with hin | ⟨-, hin⟩
    · exact h.free k info hin
    · exact (free_getWorkerNodes hnds hin).2

theorem InPass.updateWorkerNodes (h : InPass s r []) : Conserved { s with accounts := s.accounts.updateWorkerNodes r } := by
  have hget : ∀ k, (s.accounts.updateWorkerNodes r).tables.current.get? k = s.accounts.tables.current.get? k := by
    intro k
    unfold Accounts.updateWorkerNodes Tables.updateWorkerNodes
    rw [Tables.current_replace, ← h.own]
    exact Nodes.get?_overwrite_self _ k
  refine ⟨sound_updateWorkerNodes h.sound r, h.balanced.of_get? hget, ?_, h.amounts, h.requested⟩
  intro k info hin
  exact h.free k info ((hget k).symm.trans hin)

theorem Conserved.pass (h : Conserved s) (rayNodes : List RayNode) : Conserved (s.pass rayNodes) := by
  unfold State.pass
  split
  · exact h
  · split
    · exact ⟨h.sound, h.balanced, h.free, h.amounts, h.requested⟩
    · rename_i workerNodes hnds
      refine InPass.updateWorkerNodes (InPass.foldl_serve ⟨h.getWorkerNodes hnds, rfl, ?_⟩)
      intro c hc
      exact h.requested _ (request_mem_of_mem_collect ((mem_insertionSort _).1 hc))

/-! ## Runs -/

theorem Conserved.step (h : Conserved s) {step : Step} (hst : s.step step = some s') : Conserved s' := by
  cases step with
  | allocateResource modelName instanceId requestTime numGpus =>
    simp only [State.step] at hst
    split at hst
    · cases hst
    · rename_i hnew
      cases hst
      exact h.allocateResource hnew requestTime numGpus
  | resume i =>
    obtain ⟨accounts, hacc, rfl⟩ := Option.map_eq_some_iff.1 hst
    exact h.resume hacc
  | deallocateResource i =>
    obtain ⟨accounts, hacc, rfl⟩ := Option.map_eq_some_iff.1 hst
    exact h.deallocate hacc
  | pass rayNodes =>
    simp only [State.step] at hst
    split at hst
    · cases hst
      exact h.pass rayNodes
    · cases hst

theorem init_conserved : Conserved .init where
  sound := sound_init
  balanced := by rintro nodeId info ⟨⟩
  free := by rintro nodeId info ⟨⟩
  amounts := by rintro i ⟨⟩
  requested := by rintro q ⟨⟩

/-- Every run. Each node that the scheduler knows has a number of free GPUs that is not negative, and these and the GPUs of the
instances that are placed on it are all that it came with; an instance is only placed on such a node. -/
theorem gpus_of_run {steps : List Step} (hrun : State.init.run steps = some s) :
    (∀ nodeId info, s.accounts.tables.current.get? nodeId = some info →
      0 ≤ info.freeGpu ∧ info.freeGpu + s.accounts.placed nodeId = info.totalGpu) ∧
    ∀ i ∈ s.accounts.instances, ∀ nodeId, s.accounts.results.get? i.allocationResult = some nodeId →
      nodeId ∈ s.accounts.tables.current.keys := by
  have h := Runs.run_invariant (I := Conserved) (fun _ _ _ h => h.step) init_conserved hrun
  exact ⟨fun nodeId info hin => ⟨h.free nodeId info hin, h.balanced nodeId info hin⟩, h.sound.located⟩

/-- An instance of two GPUs is placed and deallocated while another one waits for a node that comes later. -/
def stepsOfTwo : List Step :=
  let node (id key : String) (gpus : Nat) : RayNode := ⟨some id, (Dict.empty.set "GPU" gpus).set key 1, some "10.0.0.1"⟩
  [.allocateResource "m" "m_0" 0 2, .allocateResource "n" "n_0" 1 4, .pass [node "a" "worker_id_0" 2],
    .resume ⟨"m", "m_0", 2, 0, false⟩, .pass [node "a" "worker_id_0" 2, node "b" "worker_id_1" 4],
    .deallocateResource ⟨"m", "m_0", 2, 0, true⟩]

theorem gpus_of_run_stepsOfTwo : ∃ s, State.init.run stepsOfTwo = some s ∧
    (∀ nodeId info, s.accounts.tables.current.get? nodeId = some info →
      0 ≤ info.freeGpu ∧ info.freeGpu + s.accounts.placed nodeId = info.totalGpu) ∧
    ∀ i ∈ s.accounts.instances, ∀ nodeId, s.accounts.results.get? i.allocationResult = some nodeId →
      nodeId ∈ s.accounts.tables.current.keys := by
  have hso : (State.init.run stepsOfTwo).isSome = true := by decide +kernel
  obtain ⟨s, hs⟩ := Option.isSome_iff_exists.1 hso
  exact ⟨s, hs, gpus_of_run hs⟩

example : (State.init.run stepsOfTwo).map (fun s => s.accounts.tables.current.entries) =
    some [("0", ⟨2, 2⟩), ("1", ⟨0, 4⟩)] := by decide +kernel

end Fcfs

theorem Queues.map_request_collect (q : Queues) : q.collect.map Collected.request = q.requests := by
  unfold collect requests
  rw [map_flatMap]
  congr 1
  funext e
  simp [Function.comp_def]

theorem Nodes.free_charge_le {nodes : Nodes} {nodeId : String} {numGpus : Int} (h : 0 ≤ numGpus) {k : String} {info : NodeInfo}
    (hget : (nodes.charge nodeId numGpus).get? k = some info) : ∃ info', nodes.get? k = some info' ∧
      info.freeGpu ≤ info'.freeGpu := by
  rw [get?_charge] at hget
  split at hget
  · rename_i hk
    obtain ⟨info', hin', rfl⟩ := Option.map_eq_some_iff.1 hget
    exact ⟨info', hk ▸ hin', by simp [h]⟩
  · exact ⟨info, hget, le_rfl⟩

namespace Fcfs

theorem firstFit_eq_none {nodes : Nodes} {numGpus : Int} :
    firstFit nodes numGpus = none ↔ ∀ k info, nodes.get? k = some info → info.freeGpu < numGpus := by
  simp only [firstFit, Option.map_eq_none_iff, find?_eq_none, decide_eq_true_eq, not_le, ge_iff_le]
  exact ⟨fun h k info hin => h (k, info) (mem_entries_iff.2 hin), fun h e he => h e.1 e.2 (mem_entries_iff.1 he)⟩

/-- The content of the queues: each request has a future of its own, and does not ask for a negative number of GPUs. -/
structure Queued (q : Queues) : Prop where
  futures : (q.requests.map LoadingRequest.allocationResult).Nodup
  gpus : ∀ r ∈ q.requests, 0 ≤ r.numGpus

/-! ## The order of a pass -/

/-- The order in which a pass serves the requests. -/
def order (q : Queues) : List Collected := q.collect.insertionSort fun c d => c.idx ≤ d.idx

theorem mem_order {q : Queues} {c : Collected} : c ∈ order q ↔ c ∈ q.collect := mem_insertionSort _

theorem nodup_order (q : Queues) : (order q).Nodup := (perm_insertionSort _ _).nodup_iff.2 q.nodup_collect

namespace State

def Resolved (s : State) (c : Collected) : Prop := (s.accounts.results.get? c.request.allocationResult).isSome

instance (s : State) (c : Collected) : Decidable (s.Resolved c) := inferInstanceAs (Decidable (_ = true))

/-- The requests have their turns, in the table `r`. -/
def serveAll (s : State) (r : Nat) (l : List Collected) : State := l.foldl (fun s c => s.serve r c) s

/-- A pass after `k` requests had their turn. -/
def afterTurns (s : State) (rayNodes : List RayNode) (k : Nat) : State :=
  match Schedulers.getWorkerNodes rayNodes with
  | none => s
  | some workerNodes =>
    let s' : State := { s with accounts := s.accounts.getWorkerNodes workerNodes }
    s'.serveAll s'.accounts.tables.workerNodes ((order s.queues).take k)

def Allocates (s : State) (rayNodes : List RayNode) (c : Collected) : Prop := ¬s.Resolved c ∧ (s.pass rayNodes).Resolved c

/-- First come, first served: when a request is allocated, an older one that is not larger and was not resolved has been
allocated before. -/
def FairPass (s : State) (rayNodes : List RayNode) : Prop :=
  ∀ c ∈ s.queues.collect, s.Allocates rayNodes c →
    ∀ c' ∈ s.queues.collect, ¬s.Resolved c' → c'.request.requestTime < c.request.requestTime →
      c'.request.numGpus ≤ c.request.numGpus →
      ∃ k ≤ s.queues.collect.length, (s.afterTurns rayNodes k).Resolved c' ∧ ¬(s.afterTurns rayNodes k).Resolved c

theorem resolved_pass (s : State) (rayNodes : List RayNode) (c : Collected) :
    (s.pass rayNodes).Resolved c ↔ (s.afterTurns rayNodes s.queues.collect.length).Resolved c := by
  have hlen : (order s.queues).take s.queues.collect.length = order s.queues := take_of_length_le (length_insertionSort _ _).le
  unfold pass afterTurns
  rw [hlen]
  split
  · rename_i hnil
    have hord : order s.queues = [] := by simp [order, hnil]
    rw [hord]
    cases Schedulers.getWorkerNodes rayNodes <;> rfl
  · cases Schedulers.getWorkerNodes rayNodes <;> rfl

end State

/-! ## A turn -/

/-- In a pass over the queues `q`: the requests without a result are in their queues, and the table is there. -/
structure Serving (q : Queues) (r : Nat) (s : State) : Prop where
  table : r < s.accounts.tables.made.length
  waits : ∀ c ∈ q.collect, ¬s.Resolved c → c.request ∈ s.queues.queue c.modelName

section Turn

variable {q : Queues} {r : Nat} {s : State} {c d : Collected}

theorem Queued.eq_of_future (hq : Queued q) (hc : c ∈ q.collect) (hd : d ∈ q.collect)
    (h : c.request.allocationResult = d.request.allocationResult) : c = d := by
  have hnd : (q.collect.map fun c => c.request.allocationResult).Nodup := by
    have := hq.futures
    rwa [← Queues.map_request_collect, map_map] at this
  exact inj_on_of_nodup_map hnd hc hd h

theorem Serving.serve_cases (hs : Serving q r s) (hc : c ∈ q.collect) :
    (s.serve r c = s ∧ (s.Resolved c ∨ firstFit (s.accounts.tables.table r) c.request.numGpus = none)) ∨
    (¬s.Resolved c ∧ ∃ nodeId, firstFit (s.accounts.tables.table r) c.request.numGpus = some nodeId ∧
      (s.serve r c).accounts.results = s.accounts.results.set c.request.allocationResult nodeId ∧
      (s.serve r c).accounts.tables = s.accounts.tables.modify r (fun nodes => nodes.charge nodeId c.request.numGpus) ∧
      (s.serve r c).queues = s.queues.set c.modelName ((s.queues.queue c.modelName).erase c.request)) := by
  unfold State.serve
  cases hfit : firstFit (s.accounts.tables.table r) c.request.numGpus with
  | none => exact .inl ⟨rfl, .inr rfl⟩
  | some nodeId =>
    by_cases hres : s.Resolved c
    · exact .inl ⟨if_pos hres, .inl hres⟩
    · have hrmv : s.queues.remove c.modelName c.request =
          some (s.queues.set c.modelName ((s.queues.queue c.modelName).erase c.request)) := if_pos (hs.waits c hc hres)
      refine .inr ⟨hres, nodeId, rfl, ?_⟩
      unfold State.Resolved at hres
      simp only [hres, Bool.false_eq_true, if_false, hrmv]
      exact ⟨rfl, rfl, trivial⟩

theorem Serving.resolved_of_ne (hs : Serving q r s) (hq : Queued q) (hc : c ∈ q.collect) (hd : d ∈ q.collect) (hne : d ≠ c) :
    (s.serve r c).Resolved d ↔ s.Resolved d := by
  rcases hs.serve_cases hc with ⟨heq, -⟩ | ⟨-, nodeId, -, hrss, -⟩
  · rw [heq]
  · unfold State.Resolved
    rw [hrss, get?_set_of_ne _ _ fun h => hne (hq.eq_of_future hd hc h)]

theorem Serving.resolved_self (hs : Serving q r s) (hc : c ∈ q.collect) (hres : ¬s.Resolved c) :
    (s.serve r c).Resolved c ↔ firstFit (s.accounts.tables.table r) c.request.numGpus ≠ none := by
  rcases hs.serve_cases hc with ⟨heq, hno⟩ | ⟨-, nodeId, hfit, hrss, -⟩
  · rw [heq]
    simp [hno.resolve_left hres, hres]
  · simp [State.Resolved, hrss, hfit]

theorem Serving.resolved_mono (hs : Serving q r s) (hq : Queued q) (hc : c ∈ q.collect) (hd : d ∈ q.collect)
    (hres : s.Resolved d) :
    (s.serve r c).Resolved d := by
  by_cases hne : d = c
  · subst hne
    rcases hs.serve_cases hc with ⟨heq, -⟩ | ⟨hno, -⟩
    · rwa [heq]
    · exact absurd hres hno
  · exact (hs.resolved_of_ne hq hc hd hne).2 hres

theorem Serving.serve (hs : Serving q r s) (hq : Queued q) (hc : c ∈ q.collect) : Serving q r (s.serve r c) := by
  rcases hs.serve_cases hc with ⟨heq, -⟩ | ⟨-, nodeId, -, hrss, htab, hqs⟩
  · rwa [heq]
  · refine ⟨?_, ?_⟩
    · rw [htab, Tables.length_modify]
      exact hs.table
    · intro d hd hres
      have hne : d ≠ c := by
        rintro rfl
        simp [State.Resolved, hrss] at hres
      have hwaits := hs.waits d hd fun h => hres ((hs.resolved_of_ne hq hc hd hne).2 h)
      have hreq : d.request ≠ c.request := fun h => hne (hq.eq_of_future hd hc (congrArg _ h))
      rw [hqs, Queues.queue_set]
      split
      · rename_i hmod
        rw [← hmod]
        exact (mem_erase_of_ne hreq).2 hwaits
      · exact hwaits

theorem Serving.noFit (hs : Serving q r s) (hq : Queued q) (hc : c ∈ q.collect) {numGpus : Int}
    (h : firstFit (s.accounts.tables.table r) numGpus = none) :
    firstFit ((s.serve r c).accounts.tables.table r) numGpus = none := by
  rcases hs.serve_cases hc with ⟨heq, -⟩ | ⟨-, nodeId, -, -, htab, -⟩
  · rwa [heq]
  · rw [htab, Tables.table_modify_self hs.table, firstFit_eq_none]
    intro k info hin
    obtain ⟨info', hin', hle⟩ := free_charge_le (hq.gpus _ (request_mem_of_mem_collect hc)) hin
    exact lt_of_le_of_lt hle (firstFit_eq_none.1 h k info' hin')

/-! ## All turns -/

variable {l : List Collected}

theorem Serving.serveAll (hs : Serving q r s) (hq : Queued q) (hl : ∀ c ∈ l, c ∈ q.collect) : Serving q r (s.serveAll r l) := by
  induction l generalizing s with
  | nil => exact hs
  | cons c l ih => exact ih (hs.serve hq (hl c mem_cons_self)) fun d hd => hl d (mem_cons_of_mem _ hd)

theorem Serving.resolved_serveAll_of_not_mem (hs : Serving q r s) (hq : Queued q) (hl : ∀ c ∈ l, c ∈ q.collect)
    (hd : d ∈ q.collect) (hnot : d ∉ l) : (s.serveAll r l).Resolved d ↔ s.Resolved d := by
  induction l generalizing s with
  | nil => rfl
  | cons c l ih =>
    have hc := hl c mem_cons_self
    rw [mem_cons, not_or] at hnot
    exact (ih (hs.serve hq hc) (fun d hd => hl d (mem_cons_of_mem _ hd)) hnot.2).trans (hs.resolved_of_ne hq hc hd hnot.1)

theorem Serving.resolved_serveAll (hs : Serving q r s) (hq : Queued q) (hl : ∀ c ∈ l, c ∈ q.collect)
    (hd : d ∈ q.collect) (hres : s.Resolved d) : (s.serveAll r l).Resolved d := by
  induction l generalizing s with
  | nil => exact hres
  | cons c l ih =>
    have hc := hl c mem_cons_self
    exact ih (hs.serve hq hc) (fun d hd => hl d (mem_cons_of_mem _ hd)) (hs.resolved_mono hq hc hd hres)

theorem Serving.noFit_serveAll (hs : Serving q r s) (hq : Queued q) (hl : ∀ c ∈ l, c ∈ q.collect) {numGpus : Int}
    (h : firstFit (s.accounts.tables.table r) numGpus = none) :
    firstFit ((s.serveAll r l).accounts.tables.table r) numGpus = none := by
  induction l generalizing s with
  | nil => exact h
  | cons c l ih =>
    have hc := hl c mem_cons_self
    exact ih (hs.serve hq hc) (fun d hd => hl d (mem_cons_of_mem _ hd)) (hs.noFit hq hc h)

theorem serveAll_append (s : State) (r : Nat) (l l' : List Collected) : s.serveAll r (l ++ l') =
    (s.serveAll r l).serveAll r l' :=
  foldl_append

theorem Serving.resolved_iff (hs : Serving q r s) (hq : Queued q) {a b : List Collected} (hl : ∀ d ∈ a ++ c :: b, d ∈ q.collect)
    (hnd : (a ++ c :: b).Nodup) (hres : ¬s.Resolved c) : (s.serveAll r (a ++ c :: b)).Resolved c ↔
      firstFit ((s.serveAll r a).accounts.tables.table r) c.request.numGpus ≠ none := by
  have ha : ∀ d ∈ a, d ∈ q.collect := fun d hd => hl d (mem_append_left _ hd)
  have hc : c ∈ q.collect := hl c (by simp)
  have hb : ∀ d ∈ b, d ∈ q.collect := fun d hd => hl d (by simp [hd])
  rw [nodup_append] at hnd
  have hca : c ∉ a := fun h => hnd.2.2 c h c mem_cons_self rfl
  have hcb : c ∉ b := (nodup_cons.1 hnd.2.1).1
  have hturn := hs.serveAll hq ha
  have hres' : ¬(s.serveAll r a).Resolved c := fun h => hres ((hs.resolved_serveAll_of_not_mem hq ha hc hca).1 h)
  rw [serveAll_append]
  change (((s.serveAll r a).serve r c).serveAll r b).Resolved c ↔ _
  rw [(hturn.serve hq hc).resolved_serveAll_of_not_mem hq hb hc hcb, hturn.resolved_self hc hres']

end Turn

theorem Serving.first_before {q : Queues} {r : Nat} {s : State} {c c' : Collected} (hs : Serving q r s) (hq : Queued q)
    {a b back : List Collected} (hl : ∀ d ∈ a ++ c' :: (b ++ c :: back), d ∈ q.collect)
    (hnd : (a ++ c' :: (b ++ c :: back)).Nodup) (hres : ¬s.Resolved c) (hres' : ¬s.Resolved c')
    (hgpus : c'.request.numGpus ≤ c.request.numGpus) (hend : (s.serveAll r (a ++ c' :: (b ++ c :: back))).Resolved c) :
    (s.serveAll r (a ++ [c'])).Resolved c' ∧ ¬(s.serveAll r (a ++ [c'])).Resolved c := by
  have hassoc : a ++ c' :: (b ++ c :: back) = (a ++ [c']) ++ (b ++ c :: back) := by simp
  have hc : c ∈ q.collect := hl c (by simp)
  have hac' : ∀ d ∈ a ++ [c'], d ∈ q.collect := fun d hd => hl d (by rw [hassoc]; exact mem_append_left _ hd)
  have hnd' := nodup_append.1 (hassoc ▸ hnd)
  have hca : c ∉ a ++ [c'] := fun h => hnd'.2.2 c h c (by simp) rfl
  refine ⟨(hs.resolved_iff hq hac' hnd'.1 hres').2 ?_, ?_⟩
  · intro hno
    -- what does not fit here does not fit when the second one has its turn
    have hfst := (hs.resolved_iff hq hac' hnd'.1 hres').not.2 (not_not.2 hno)
    have ha : ∀ d ∈ a, d ∈ q.collect := fun d hd => hac' d (mem_append_left _ hd)
    have hmid : ∀ d ∈ c' :: b, d ∈ q.collect := fun d hd => hl d (by
      rw [show a ++ c' :: (b ++ c :: back) = a ++ ((c' :: b) ++ c :: back) by simp]
      exact mem_append_right _ (mem_append_left _ hd))
    have hassoc' : a ++ c' :: (b ++ c :: back) = (a ++ c' :: b) ++ c :: back := by simp
    rw [hassoc'] at hend hl hnd
    have hfit := (hs.resolved_iff hq hl hnd hres).1 hend
    rw [serveAll_append] at hfit
    have hlrg : firstFit ((s.serveAll r a).accounts.tables.table r) c.request.numGpus = none := by
      rw [firstFit_eq_none] at hno ⊢
      intro k info hin
      exact lt_of_lt_of_le (hno k info hin) hgpus
    exact hfit ((hs.serveAll hq ha).noFit_serveAll hq hmid hlrg)
  · exact fun h => hres ((hs.resolved_serveAll_of_not_mem hq hac' hc hca).1 h)

/-! ## A pass -/

/-- In the order of the service, no request without a result comes before an older one that is not larger. -/
def ServesOldestFirst (q : Queues) (results : Dict Nat String) : Prop :=
  (order q).Pairwise fun c c' =>
    results.get? c.request.allocationResult = none → results.get? c'.request.allocationResult = none →
      c'.request.requestTime < c.request.requestTime → c.request.numGpus < c'.request.numGpus

theorem waits_of_collect {q : Queues} {c : Collected} (hc : c ∈ q.collect) : c.request ∈ q.queue c.modelName :=
  mem_of_getElem? (Queues.mem_collect.1 hc)

theorem serving_opened (s : State) (workerNodes : Nodes) :
    Serving s.queues (s.accounts.getWorkerNodes workerNodes).tables.workerNodes
      { s with accounts := s.accounts.getWorkerNodes workerNodes } :=
  ⟨own_replace _ _, fun _ hc _ => waits_of_collect hc⟩

theorem not_resolved_iff {s : State} {c : Collected} : ¬s.Resolved c ↔
    s.accounts.results.get? c.request.allocationResult = none := by
  simp [State.Resolved]

theorem fairPass_of_oldestFirst {s : State} (hq : Queued s.queues) (hord : ServesOldestFirst s.queues s.accounts.results)
    (rayNodes : List RayNode) : s.FairPass rayNodes := by
  intro c hc halloc c' hc' hres' htime hgpus
  obtain ⟨hres, hpass⟩ := halloc
  have hlen : (order s.queues).length = s.queues.collect.length := length_insertionSort _ _
  rw [State.resolved_pass, State.afterTurns] at hpass
  cases hnds : Schedulers.getWorkerNodes rayNodes with
  | none =>
    rw [hnds] at hpass
    exact absurd hpass hres
  | some workerNodes =>
    simp only [hnds] at hpass
    rw [← hlen, take_length] at hpass
    have hs := serving_opened s workerNodes
    have hmem : ∀ d ∈ order s.queues, d ∈ s.queues.collect := fun d hd => mem_order.1 hd
    have hnd := nodup_order s.queues
    unfold State.afterTurns
    simp only [hnds]
    unfold ServesOldestFirst at hord
    rw [← hlen]
    obtain ⟨front, back, hspl⟩ := append_of_mem (mem_order.2 hc)
    have hmem' := mem_order.2 hc'
    rw [hspl] at hpass hmem hnd hord hmem' ⊢
    -- the older request is not behind
    have hfrt : c' ∈ front := by
      rcases mem_append.1 hmem' with h | h
      · exact h
      · rcases mem_cons.1 h with rfl | h
        · exact absurd htime (lt_irrefl _)
        · have hpair := (pairwise_cons.1 (pairwise_append.1 hord).2.1).1 c' h
          have := hpair (not_resolved_iff.1 hres) (not_resolved_iff.1 hres') htime
          omega
    obtain ⟨a, b, rfl⟩ := append_of_mem hfrt
    have hassoc : a ++ c' :: b ++ c :: back = a ++ c' :: (b ++ c :: back) := by simp
    have htake : (a ++ c' :: (b ++ c :: back)).take (a.length + 1) = a ++ [c'] := by simp [take_append]
    rw [hassoc] at hpass hmem hnd ⊢
    refine ⟨a.length + 1, by simp, ?_⟩
    rw [htake]
    exact hs.first_before hq hmem hnd hres hres' hgpus hpass

/-! ## A node that has room for all -/

/-- A node of the table has this number of free GPUs, or more. -/
def HasFree (s : State) (r : Nat) (numGpus : Int) : Prop := ∃ info, (s.accounts.tables.table r).get? "0" = some info ∧
    numGpus ≤ info.freeGpu

def sumGpus (l : List Collected) : Int := (l.map fun c => c.request.numGpus).sum

section Room

variable {q : Queues} {r : Nat} {s : State} {c : Collected}

theorem HasFree.mono {numGpus numGpus' : Int} (h : HasFree s r numGpus) (hle : numGpus' ≤ numGpus) : HasFree s r numGpus' := by
  obtain ⟨info, hin, hfe⟩ := h
  exact ⟨info, hin, hle.trans hfe⟩

theorem Queued.sumGpus_nonneg (hq : Queued q) {l : List Collected} (hl : ∀ c ∈ l, c ∈ q.collect) : 0 ≤ sumGpus l := by
  refine sum_nonneg fun x hx => ?_
  obtain ⟨d, hd, rfl⟩ := mem_map.1 hx
  exact hq.gpus _ (Queues.request_mem_of_mem_collect (hl d hd))

theorem sumGpus_append (l l' : List Collected) : sumGpus (l ++ l') = sumGpus l + sumGpus l' := by simp [sumGpus]

theorem sumGpus_take_le (hq : Queued q) {l : List Collected} (hl : ∀ c ∈ l, c ∈ q.collect) (k : Nat) :
    sumGpus (l.take k) ≤ sumGpus l := by
  have hdrop := hq.sumGpus_nonneg (l := l.drop k) fun c hc => hl c (mem_of_mem_drop hc)
  have hsum := sumGpus_append (l.take k) (l.drop k)
  rw [take_append_drop] at hsum
  omega

theorem HasFree.serve (hs : Serving q r s) (hq : Queued q) (hc : c ∈ q.collect) {numGpus : Int} (h : HasFree s r numGpus) :
    HasFree (s.serve r c) r (numGpus - c.request.numGpus) := by
  have hpos := hq.gpus _ (Queues.request_mem_of_mem_collect hc)
  obtain ⟨info, hin, hle⟩ := h
  rcases hs.serve_cases hc with ⟨heq, -⟩ | ⟨-, nodeId, -, -, htab, -⟩
  · rw [heq]
    exact ⟨info, hin, by omega⟩
  · unfold HasFree
    rw [htab, Tables.table_modify_self hs.table, Nodes.get?_charge]
    split
    · rename_i hk
      rw [← hk, hin]
      exact ⟨_, rfl, by simp only; omega⟩
    · exact ⟨info, hin, by omega⟩

theorem HasFree.serveAll (hs : Serving q r s) (hq : Queued q) {l : List Collected} (hl : ∀ c ∈ l, c ∈ q.collect) {numGpus : Int}
    (h : HasFree s r numGpus) : HasFree (s.serveAll r l) r (numGpus - sumGpus l) := by
  induction l generalizing s numGpus with
  | nil => simpa [State.serveAll, sumGpus] using h
  | cons c l ih =>
    have hc := hl c mem_cons_self
    have := ih (hs.serve hq hc) (fun d hd => hl d (mem_cons_of_mem _ hd)) (h.serve hs hq hc)
    rw [sub_sub] at this
    simpa [State.serveAll, sumGpus] using this

theorem HasFree.resolved (hs : Serving q r s) (hq : Queued q) {l : List Collected} (hl : ∀ d ∈ l, d ∈ q.collect) (hnd : l.Nodup)
    (h : HasFree s r (sumGpus l)) (hc : c ∈ l) : (s.serveAll r l).Resolved c := by
  by_cases hres : s.Resolved c
  · exact hs.resolved_serveAll hq hl (hl c hc) hres
  · obtain ⟨a, b, rfl⟩ := append_of_mem hc
    refine (hs.resolved_iff hq hl hnd hres).2 fun hno => ?_
    obtain ⟨info, hin, hle⟩ := h.serveAll hs hq (l := a) fun d hd => hl d (mem_append_left _ hd)
    have hlt := firstFit_eq_none.1 hno _ _ hin
    have hb : 0 ≤ sumGpus b := hq.sumGpus_nonneg fun d hd => hl d (by simp [hd])
    simp only [sumGpus, map_append, map_cons, sum_append, sum_cons] at *
    omega

end Room

/-- A scheduler with these queues and results, and one node with this number of free GPUs. -/
def withNode (q : Queues) (results : Dict Nat String) (gpus : Int) : State where
  queues := q
  accounts := { init with results := results, tables := ⟨[Dict.empty.set "0" ⟨gpus, gpus⟩], 0⟩ }
  running := true

/-- For every content of the queues, with any results: every pass, with whatever node table and nodes, is fair exactly when the
positions in the queues put no request before an older one that is not larger. -/
theorem pass_fair_iff (q : Queues) (hq : Queued q) (results : Dict Nat String) :
    (∀ s : State, s.queues = q → s.accounts.results = results → ∀ rayNodes, s.FairPass rayNodes) ↔
      ServesOldestFirst q results := by
  constructor
  · intro hfair
    -- one node has room for all, so that every request gets its node at its turn
    have h := hfair (withNode q results (sumGpus (order q))) rfl rfl []
    generalize hs₀ : withNode q results (sumGpus (order q)) = s at h
    have hqs : s.queues = q := by rw [← hs₀]; rfl
    have hrss : s.accounts.results = results := by rw [← hs₀]; rfl
    have hs := serving_opened s .empty
    have hfe : HasFree { s with accounts := s.accounts.getWorkerNodes .empty }
        (s.accounts.getWorkerNodes .empty).tables.workerNodes (sumGpus (order q)) := by
      rw [← hs₀]
      exact ⟨⟨sumGpus (order q), sumGpus (order q)⟩, rfl, le_rfl⟩
    have haft : ∀ k, s.afterTurns [] k = State.serveAll { s with accounts := s.accounts.getWorkerNodes .empty }
        (s.accounts.getWorkerNodes .empty).tables.workerNodes ((order s.queues).take k) := fun _ => rfl
    rw [hqs] at hs haft
    generalize (s.accounts.getWorkerNodes .empty).tables.workerNodes = r at hs hfe haft
    have hmem : ∀ d ∈ order q, d ∈ q.collect := fun d hd => mem_order.1 hd
    have hnd := nodup_order q
    refine pairwise_iff_getElem.2 ?_
    intro i j hi hj hij hres hres' htime
    by_contra hgpus
    rw [not_lt] at hgpus
    rw [← hrss] at hres hres'
    have hall : ∀ k, ∀ d ∈ (order q).take k, (s.afterTurns [] k).Resolved d := by
      intro k d hd
      rw [haft]
      have hl : ∀ c ∈ (order q).take k, c ∈ q.collect := fun c hc => hmem c (mem_of_mem_take hc)
      refine HasFree.resolved hs hq hl (hnd.sublist (take_sublist _ _)) (hfe.mono ?_) hd
      exact sumGpus_take_le hq hmem k
    have hlen : (order q).length = q.collect.length := length_insertionSort _ _
    have halloc : s.Allocates [] (order q)[i] := by
      refine ⟨not_resolved_iff.2 hres, (State.resolved_pass _ _ _).2 ?_⟩
      rw [hqs, ← hlen]
      exact hall _ _ (by rw [take_length]; exact getElem_mem hi)
    obtain ⟨k, -, hfst, hnot⟩ := h _ (hqs ▸ hmem _ (getElem_mem hi)) halloc _ (hqs ▸ hmem _ (getElem_mem hj))
      (not_resolved_iff.2 hres') htime hgpus
    by_cases hk : i < k
    · exact hnot (hall k _ (mem_take_iff_getElem.2 ⟨i, by omega, rfl⟩))
    · refine not_resolved_iff.2 hres' ?_
      rw [haft] at hfst
      refine (hs.resolved_serveAll_of_not_mem hq (fun c hc => hmem c (mem_of_mem_take hc)) (hmem _ (getElem_mem hj)) ?_).1 hfst
      intro hmem'
      obtain ⟨m, hm, heq⟩ := mem_take_iff_getElem.1 hmem'
      have := (hnd.getElem_inj_iff).1 heq
      omega
  · rintro hord s rfl rfl rayNodes
    exact fairPass_of_oldestFirst hq hord rayNodes

/-- Three requests for a GPU: two for the model `A`, then one for `B`. -/
def stepsOfThree : List Step :=
  [.allocateResource "A" "A_0" 1 1, .allocateResource "A" "A_1" 2 1, .allocateResource "B" "B_0" 3 1]

def nodeOfTwo : List RayNode := [⟨some "a", (Dict.empty.set "GPU" 2).set "worker_id_0" 1, some "10.0.0.1"⟩]

/-- The queues when `B` comes with a request that is older than the second one of `A`. -/
def agedQueues : Queues := ((Queues.append .empty "A" ⟨1, 1, 0⟩).append "B" ⟨2, 1, 1⟩).append "A" ⟨3, 1, 2⟩

theorem pass_fair_agedQueues :
    Queued agedQueues ∧
      ∀ s : State, s.queues = agedQueues → s.accounts.results = .empty → ∀ rayNodes, s.FairPass rayNodes := by
  have hq : Queued agedQueues := ⟨by decide, by decide⟩
  refine ⟨hq, (pass_fair_iff agedQueues hq .empty).2 ?_⟩
  unfold ServesOldestFirst
  decide +kernel

/-- The third request gets a GPU, and the second one, which is older, is left waiting. -/
theorem pass_overtakes :
    ∃ s, State.init.run stepsOfThree = some s ∧ s.running = true ∧ Queued s.queues ∧ ¬s.FairPass nodeOfTwo ∧
      s.Allocates nodeOfTwo ⟨"B", 0, ⟨3, 1, 2⟩⟩ ∧ ¬(s.pass nodeOfTwo).Resolved ⟨"A", 1, ⟨2, 1, 1⟩⟩ := by
  refine ⟨_, rfl, rfl, ⟨by decide +kernel, by decide +kernel⟩, ?_, ?_, ?_⟩
  · unfold State.FairPass State.Allocates
    decide +kernel
  · unfold State.Allocates
    decide +kernel
  · decide +kernel

end Fcfs

end ServerlessLLM.Schedulers
