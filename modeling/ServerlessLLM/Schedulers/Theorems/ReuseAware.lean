import ServerlessLLM.Library.Runs
import ServerlessLLM.Schedulers.Lemmas.ReuseOps

/-!
# The queue discipline of the reuse-aware scheduler

A pass resolves the futures of the requests that it serves, and pops these requests at its end, from the last position on.
-/

namespace ServerlessLLM.Schedulers.ReuseAware

open List Option Dict Prod State Queues

def State.isResolved (s : State) (r : LoadingRequest) : Bool := r.allocationResult ∈ s.resolved.map Prod.fst

/-- There is at least one worker node in the cluster. -/
def Step.HasNodes : Step → Prop
  | .prepare clusterNodes _ => clusterNodes.entries ≠ []
  | _ => True

def StepLaw (round : ℚ → ℚ) (s s' : State) : Step → Prop
  | .allocateResource modelName requestTime numGpus => s'.resolved = s.resolved ∧
      ∀ m, s'.queues.queue m =
        if m = modelName then s.queues.queue m ++ [⟨requestTime, numGpus, s.created⟩] else s.queues.queue m
  | .collect => s'.resolved = s.resolved ∧ s'.queues = s.queues ∧
      ∀ p ∈ s'.pass, p.loadingRequests.Perm s.queues.collect ∧
        p.loadingRequests.Pairwise fun c d => c.request.requestTime ≤ d.request.requestTime
  | .prepare _ _ => s'.resolved = s.resolved ∧ s'.queues = s.queues ∧
      s'.pass.map Pass.loadingRequests = s.pass.map Pass.loadingRequests
  | .turn toLoadSize => s'.queues = s.queues ∧
      ∃ p a c loadingRequests, s.pass = some p ∧ p.answers = some a ∧ p.loadingRequests = c :: loadingRequests ∧
        (∀ d ∈ loadingRequests, c.request.requestTime ≤ d.request.requestTime) ∧
        s'.pass.map Pass.loadingRequests = some loadingRequests ∧ s.isResolved c.request = false ∧
        ((∃ nodeId, s'.resolved = s.resolved ++ [(c.request.allocationResult, nodeId)] ∧
            Eligible a c toLoadSize s.workerNodes nodeId ∧
            ∀ nodeId', Eligible a c toLoadSize s.workerNodes nodeId' →
              latency round a toLoadSize nodeId ≤ latency round a toLoadSize nodeId') ∨
          (s'.resolved = s.resolved ∧ ∀ nodeId, ¬Eligible a c toLoadSize s.workerNodes nodeId))
  | .finish => s'.resolved = s.resolved ∧ s'.pass = none ∧
      ∀ m, s'.queues.queue m = (s.queues.queue m).filter fun r => !s.isResolved r

/-! ## The invariant -/

/-- The futures: each one is that of at most one request. -/
structure Futures (s : State) : Prop where
  nodup : ∀ m, ((s.queues.queue m).map LoadingRequest.allocationResult).Nodup
  disjoint : ∀ m m', m ≠ m' → ∀ r ∈ s.queues.queue m, ∀ r' ∈ s.queues.queue m', r.allocationResult ≠ r'.allocationResult
  lt : ∀ m, ∀ r ∈ s.queues.queue m, r.allocationResult < s.created
  resolved_lt : ∀ f ∈ s.resolved.map fst, f < s.created
  resolved_nodup : (s.resolved.map fst).Nodup

/-- A pass: the requests that are left wait at their positions, and `to_remove` has the positions of the resolved ones. -/
structure InPass (s : State) (p : Pass) : Prop where
  inPlace : ∀ c ∈ p.loadingRequests, (s.queues.queue c.modelName)[c.idx]? = some c.request
  waiting : ∀ c ∈ p.loadingRequests, s.isResolved c.request = false
  nodup : p.loadingRequests.Nodup
  sorted : p.loadingRequests.Pairwise fun c d => c.request.requestTime ≤ d.request.requestTime
  remove_nodup : ∀ m l, p.toRemove.get? m = some l → l.Nodup
  remove : ∀ m j, j ∈ (p.toRemove.get? m).getD [] ↔ ∃ r, (s.queues.queue m)[j]? = some r ∧ s.isResolved r = true
  nodes : p.answers ≠ none → s.workerNodes.entries ≠ []

/-- The scheduler between two steps. -/
structure Disciplined (s : State) : Prop where
  error : s.error = none
  futures : Futures s
  idle : s.pass = none → ∀ m, ∀ r ∈ s.queues.queue m, s.isResolved r = false
  inPass : ∀ p ∈ s.pass, InPass s p

variable {round : ℚ → ℚ} {s s' : State}

theorem Futures.congr (h : Futures s) (hqs : s'.queues = s.queues) (hcrt : s'.created = s.created)
    (hrsv : s'.resolved = s.resolved) : Futures s' := by
  obtain ⟨h1, h2, h3, h4, h5⟩ := h
  rw [← hqs, ← hcrt] at h3
  rw [← hqs] at h1 h2
  rw [← hrsv, ← hcrt] at h4
  rw [← hrsv] at h5
  exact ⟨h1, h2, h3, h4, h5⟩

theorem Futures.position (h : Futures s) {m m' : String} {j j' : Nat} {r r' : LoadingRequest}
    (hr : (s.queues.queue m)[j]? = some r) (hr' : (s.queues.queue m')[j']? = some r')
    (heq : r.allocationResult = r'.allocationResult) : m = m' ∧ j = j' := by
  by_cases hm : m = m'
  · subst hm
    refine ⟨rfl, ?_⟩
    have hj := (List.getElem?_eq_some_iff.1 hr).1
    refine (getElem?_inj (by simpa using hj) (h.nodup m)).1 ?_
    rw [getElem?_map, getElem?_map, hr, hr']
    exact congrArg some heq
  · exact absurd heq (h.disjoint m m' hm r (mem_of_getElem? hr) r' (mem_of_getElem? hr'))

theorem Futures.allocateResource (h : Futures s) (modelName : String) (requestTime : ℚ) (numGpus : Int) :
    Futures (s.allocateResource modelName requestTime numGpus) := by
  have hmem : ∀ m, ∀ r ∈ (s.allocateResource modelName requestTime numGpus).queues.queue m,
      r ∈ s.queues.queue m ∨ (m = modelName ∧ r.allocationResult = s.created) := by
    intro m r hr
    dsimp only [State.allocateResource] at hr
    rw [queue_append] at hr
    split at hr
    · rename_i hm
      rcases mem_append.1 hr with hr | hr
      · exact .inl (hm ▸ hr)
      · exact .inr ⟨hm, by rw [mem_singleton.1 hr]⟩
    · exact .inl hr
  refine ⟨?_, ?_, ?_, ?_, h.resolved_nodup⟩
  · intro m
    dsimp only [State.allocateResource]
    rw [queue_append]
    split
    · rw [map_append, map_singleton]
      refine nodup_append.2 ⟨h.nodup modelName, nodup_singleton _, ?_⟩
      intro f hf g hg
      obtain ⟨r, hr, rfl⟩ := mem_map.1 hf
      rw [mem_singleton.1 hg]
      exact Nat.ne_of_lt (h.lt modelName r hr)
    · exact h.nodup m
  · intro m m' hne r hr r' hr'
    rcases hmem m r hr with hold | ⟨hm, hnew⟩
    · rcases hmem m' r' hr' with hold' | ⟨hm', hnew'⟩
      · exact h.disjoint m m' hne r hold r' hold'
      · rw [hnew']
        exact Nat.ne_of_lt (h.lt m r hold)
    · rcases hmem m' r' hr' with hold' | ⟨hm', hnew'⟩
      · rw [hnew]
        exact Nat.ne_of_gt (h.lt m' r' hold')
      · exact absurd (hm.trans hm'.symm) hne
  · intro m r hr
    rcases hmem m r hr with hold | ⟨-, hnew⟩
    · exact Nat.lt_succ_of_lt (h.lt m r hold)
    · rw [hnew]
      exact Nat.lt_succ_self _
  · intro f hf
    exact Nat.lt_succ_of_lt (h.resolved_lt f hf)

theorem Futures.filter (h : Futures s) {queues : Queues} {pass : Option Pass} (p : LoadingRequest → Bool)
    (hqs : ∀ m, queues.queue m = (s.queues.queue m).filter p) : Futures { s with queues := queues, pass := pass } := by
  have hmem : ∀ m, ∀ r ∈ queues.queue m, r ∈ s.queues.queue m := by
    intro m r hr
    rw [hqs] at hr
    exact mem_of_mem_filter hr
  refine ⟨?_, ?_, ?_, h.resolved_lt, h.resolved_nodup⟩
  · intro m
    dsimp only
    rw [hqs]
    exact (h.nodup m).sublist (filter_sublist.map _)
  · intro m m' hne r hr r' hr'
    exact h.disjoint m m' hne r (hmem m r hr) r' (hmem m' r' hr')
  · intro m r hr
    exact h.lt m r (hmem m r hr)

theorem Futures.isResolved_created (h : Futures s) (requestTime : ℚ) (numGpus : Int) :
    s.isResolved ⟨requestTime, numGpus, s.created⟩ = false := by
  refine decide_eq_false ?_
  intro hmem
  exact Nat.lt_irrefl _ (h.resolved_lt _ hmem)

theorem Disciplined.allocateResource (h : Disciplined s) (modelName : String) (requestTime : ℚ) (numGpus : Int) :
    Disciplined (s.allocateResource modelName requestTime numGpus) := by
  have hque := queue_append s.queues modelName
  refine ⟨h.error, h.futures.allocateResource modelName requestTime numGpus, ?_, ?_⟩
  · intro hidle m r hr
    dsimp only [State.allocateResource] at hr
    rw [hque] at hr
    split at hr
    · rcases mem_append.1 hr with hr | hr
      · exact h.idle hidle modelName r hr
      · rw [mem_singleton.1 hr]
        exact h.futures.isResolved_created requestTime numGpus
    · exact h.idle hidle m r hr
  · intro p hp
    have hpass := h.inPass p hp
    -- a position of a queue that grew
    have hat : ∀ (m : String) (j : Nat) (r : LoadingRequest),
      ((s.allocateResource modelName requestTime numGpus).queues.queue m)[j]? = some r →
        (s.queues.queue m)[j]? = some r ∨ r = (⟨requestTime, numGpus, s.created⟩ : LoadingRequest) := by
      intro m j r hr
      dsimp only [State.allocateResource] at hr
      rw [hque] at hr
      split at hr
      · rename_i hm
        rw [hm]
        by_cases hj : j < (s.queues.queue modelName).length
        · rw [getElem?_append_left hj] at hr
          exact .inl hr
        · rw [getElem?_append_right (Nat.le_of_not_lt hj)] at hr
          exact .inr (mem_singleton.1 (mem_of_getElem? hr))
      · exact .inl hr
    have hold : ∀ (m : String) (j : Nat) (r : LoadingRequest), (s.queues.queue m)[j]? = some r →
        ((s.allocateResource modelName requestTime numGpus).queues.queue m)[j]? = some r := by
      intro m j r hr
      dsimp only [State.allocateResource]
      rw [hque]
      split
      · rename_i hm
        rw [← hm, List.getElem?_append_left (List.getElem?_eq_some_iff.1 hr).1]
        exact hr
      · exact hr
    refine ⟨fun c hc => hold _ _ _ (hpass.inPlace c hc), hpass.waiting, hpass.nodup, hpass.sorted, hpass.remove_nodup, ?_,
      hpass.nodes⟩
    intro m j
    rw [hpass.remove m j]
    constructor
    · rintro ⟨r, hr, hrsv⟩
      exact ⟨r, hold m j r hr, hrsv⟩
    · rintro ⟨r, hr, hrsv⟩
      rcases hat m j r hr with hr | rfl
      · exact ⟨r, hr, hrsv⟩
      · have hfal := h.futures.isResolved_created requestTime numGpus
        cases hfal.symm.trans hrsv

theorem Disciplined.collect (h : Disciplined s) (hidle : s.pass = none) : Disciplined s.collect := by
  unfold State.collect
  split
  · exact h
  · have hwt := h.idle hidle
    have hpm : (s.queues.collect.insertionSort fun c d => c.request.requestTime ≤
      d.request.requestTime).Perm s.queues.collect :=
      perm_insertionSort _ _
    have hplace : ∀ c ∈ s.queues.collect.insertionSort fun c d => c.request.requestTime ≤ d.request.requestTime,
        (s.queues.queue c.modelName)[c.idx]? = some c.request := by
      intro c hc
      exact mem_collect.1 (hpm.mem_iff.1 hc)
    refine ⟨h.error, h.futures.congr rfl rfl rfl, nofun, ?_⟩
    intro p hp
    cases hp
    refine ⟨hplace, ?_, hpm.nodup_iff.2 (nodup_collect s.queues), ?_, nofun, ?_, fun hne => absurd rfl hne⟩
    · intro c hc
      exact hwt c.modelName c.request (mem_of_getElem? (hplace c hc))
    · exact pairwise_insertionSort (fun c d : Collected => c.request.requestTime ≤ d.request.requestTime) _
    · intro m j
      constructor
      · intro hj
        cases hj
      · rintro ⟨r, hr, hrsv⟩
        cases (hwt m r (mem_of_getElem? hr)).symm.trans hrsv

variable {clusterNodes : Dict String Int} {p : Pass} {c : Collected} {loadingRequests : List Collected}

theorem getWorkerNodes_ne_nil (s : State) (h : clusterNodes.entries ≠ []) : (s.getWorkerNodes clusterNodes).entries ≠ [] := by
  have hkeep : ∀ (es : List (String × Int)) (d : Dict String Int), d.entries ≠ [] →
      (es.foldl (fun d e => if (d.get? e.1).isSome then d else d.set e.1 e.2) d).entries ≠ [] := by
    intro es
    induction es with
    | nil => exact fun d hd => hd
    | cons e es ih =>
      intro d hd
      refine ih _ ?_
      dsimp only
      split
      · exact hd
      · intro hnil
        have hget := get?_set_self d e.1 e.2
        rw [get?, hnil] at hget
        cases hget
  unfold State.getWorkerNodes
  cases hent : clusterNodes.entries with
  | nil => exact absurd hent h
  | cons e es =>
    refine hkeep es _ ?_
    intro hnil
    dsimp only at hnil
    split at hnil
    · rename_i hso
      rw [get?, hnil] at hso
      cases hso
    · have hget := get?_set_self s.workerNodes e.1 e.2
      rw [get?, hnil] at hget
      cases hget

section

variable (h : Disciplined s)

include h

theorem Disciplined.prepare (hp : s.pass = some p) (hnds : clusterNodes.entries ≠ []) (answers : StoreAnswers) :
    Disciplined { s with
      workerNodes := s.getWorkerNodes clusterNodes, pass := some ⟨p.loadingRequests, some answers, p.toRemove⟩ } := by
  have hpass := h.inPass p hp
  refine ⟨h.error, h.futures.congr rfl rfl rfl, nofun, ?_⟩
  intro p' hp'
  cases hp'
  exact ⟨hpass.inPlace, hpass.waiting, hpass.nodup, hpass.sorted, hpass.remove_nodup, hpass.remove,
    fun _ => getWorkerNodes_ne_nil s hnds⟩

theorem Disciplined.skip (hp : s.pass = some p) (hnx : p.loadingRequests = c :: loadingRequests) :
    Disciplined { s with pass := some { p with loadingRequests := loadingRequests } } := by
  obtain ⟨hplace, hwt, hnd, hsrt, hremoveNodup, hrmv, hnds⟩ := h.inPass p hp
  rw [hnx] at hplace hwt hnd hsrt
  refine ⟨h.error, h.futures.congr rfl rfl rfl, nofun, ?_⟩
  intro p' hp'
  cases hp'
  exact ⟨fun d hd => hplace d (mem_cons_of_mem _ hd), fun d hd => hwt d (mem_cons_of_mem _ hd),
    (nodup_cons.1 hnd).2, (pairwise_cons.1 hsrt).2, hremoveNodup, hrmv, hnds⟩

theorem Disciplined.resolve (hp : s.pass = some p)
    (hnx : p.loadingRequests = c :: loadingRequests) (nodeId : String) (freeGpu : Int) :
    Disciplined { s with
      resolved := s.resolved ++ [(c.request.allocationResult, nodeId)]
      workerNodes := s.workerNodes.set nodeId freeGpu
      pass := some { p with
        loadingRequests := loadingRequests
        toRemove := p.toRemove.set c.modelName ((p.toRemove.get? c.modelName).getD [] ++ [c.idx]) } } := by
  obtain ⟨hplace, hwt, hnd, hsrt, hremoveNodup, hrmv, hnds⟩ := h.inPass p hp
  rw [hnx] at hplace hwt hnd hsrt
  rw [nodup_cons] at hnd
  have hc := hplace c mem_cons_self
  have hnew : c.request.allocationResult ∉ s.resolved.map Prod.fst := of_decide_eq_false (hwt c mem_cons_self)
  -- what is resolved now
  have hrsv : ∀ r : LoadingRequest, decide
    (r.allocationResult ∈ (s.resolved ++ [(c.request.allocationResult, nodeId)]).map Prod.fst) =
      (s.isResolved r || r.allocationResult = c.request.allocationResult) := by
    intro r
    unfold isResolved
    rw [Bool.eq_iff_iff, Bool.or_eq_true, decide_eq_true_eq, decide_eq_true_eq, decide_eq_true_eq, map_append, mem_append]
    exact or_congr_right mem_singleton
  have hnot : c.idx ∉ (p.toRemove.get? c.modelName).getD [] := by
    intro hidx
    obtain ⟨r, hr, hr'⟩ := (hrmv c.modelName c.idx).1 hidx
    rw [hc] at hr
    cases hr
    cases (hwt c mem_cons_self).symm.trans hr'
  refine ⟨h.error, ⟨h.futures.nodup, h.futures.disjoint, h.futures.lt, ?_, ?_⟩, nofun, ?_⟩
  · intro f hf
    rw [map_append, mem_append] at hf
    rcases hf with hf | hf
    · exact h.futures.resolved_lt f hf
    · rw [mem_singleton.1 hf]
      exact h.futures.lt c.modelName c.request (mem_of_getElem? hc)
  · rw [map_append, nodup_append]
    refine ⟨h.futures.resolved_nodup, nodup_singleton _, ?_⟩
    intro f hf g hg
    rw [mem_singleton.1 hg]
    rintro rfl
    exact hnew hf
  · intro p' hp'
    cases hp'
    refine ⟨fun d hd => hplace d (mem_cons_of_mem _ hd), ?_, hnd.2, (pairwise_cons.1 hsrt).2, ?_, ?_, ?_⟩
    · intro d hd
      refine (hrsv d.request).trans ?_
      rw [hwt d (mem_cons_of_mem _ hd), Bool.false_or]
      refine decide_eq_false ?_
      intro heq
      -- another request of the pass is at another position
      obtain ⟨hm, hj⟩ := h.futures.position (hplace d (mem_cons_of_mem _ hd)) hc heq
      have hd' := hplace d (mem_cons_of_mem _ hd)
      rw [hm, hj, hc] at hd'
      have hdc : d = c := Collected.eq_of_fields hm hj (Option.some.inj hd').symm
      exact hnd.1 (hdc ▸ hd)
    · intro m l hl
      dsimp only at hl
      rw [Dict.get?_set] at hl
      split at hl
      · cases hl
        refine nodup_append.2 ⟨?_, nodup_singleton _, ?_⟩
        · cases hget : p.toRemove.get? c.modelName with
          | none => exact nodup_nil
          | some l => exact hremoveNodup c.modelName l hget
        · intro i hi j hj
          rw [mem_singleton.1 hj]
          rintro rfl
          exact hnot hi
      · exact hremoveNodup m l hl
    · intro m j
      dsimp only
      rw [Dict.get?_set]
      have hiff : (∃ r, (s.queues.queue m)[j]? = some r ∧ s.isResolved r = true ∨ m = c.modelName ∧ j = c.idx ∧ r = c.request ∧
          (s.queues.queue m)[j]? = some r) ↔ ∃ r, (s.queues.queue m)[j]? = some r ∧
          decide (r.allocationResult ∈ (s.resolved ++ [(c.request.allocationResult, nodeId)]).map Prod.fst) = true := by
        refine exists_congr ?_
        intro r
        rw [hrsv, Bool.or_eq_true, decide_eq_true_eq]
        constructor
        · rintro (⟨hr, hr'⟩ | ⟨-, -, rfl, hr⟩)
          · exact ⟨hr, .inl hr'⟩
          · exact ⟨hr, .inr rfl⟩
        · rintro ⟨hr, hr' | heq⟩
          · exact .inl ⟨hr, hr'⟩
          · obtain ⟨hm, hj⟩ := h.futures.position hr hc heq
            refine .inr ⟨hm, hj, ?_, hr⟩
            rw [hm, hj, hc] at hr
            exact (Option.some.inj hr).symm
      refine Iff.trans ?_ hiff
      by_cases hm : m = c.modelName
      · rw [if_pos hm, hm]
        simp only [getD_some, mem_append, mem_singleton, hrmv c.modelName j, true_and]
        constructor
        · rintro (⟨r, hr⟩ | rfl)
          · exact ⟨r, .inl hr⟩
          · exact ⟨c.request, .inr ⟨rfl, rfl, hc⟩⟩
        · rintro ⟨r, hr | ⟨hj, -⟩⟩
          · exact .inl ⟨r, hr⟩
          · exact .inr hj
      · rw [if_neg hm, hrmv m j]
        refine exists_congr fun r => ⟨.inl, fun hr => hr.resolve_right ?_⟩
        exact fun hr' => hm hr'.1
    · intro _ hnil
      have hget := Dict.get?_set_self s.workerNodes nodeId freeGpu
      rw [Dict.get?, hnil] at hget
      cases hget

theorem Disciplined.turn {p : Pass} {a : StoreAnswers} {c : Collected} {loadingRequests : List Collected}
    (hp : s.pass = some p) (ha : p.answers = some a) (hnx : p.loadingRequests = c :: loadingRequests)
      (toLoadSize : String → Int) :
    Disciplined (s.turn round p a c loadingRequests toLoadSize) ∧
      StepLaw round s (s.turn round p a c loadingRequests toLoadSize) (.turn toLoadSize) := by
  have hpass := h.inPass p hp
  have hwt := hpass.waiting c (by rw [hnx]; exact mem_cons_self)
  have hsrt := hpass.sorted
  rw [hnx, pairwise_cons] at hsrt
  unfold State.turn
  split
  · rename_i hno
    rw [if_neg (hpass.nodes (by rw [ha]; exact nofun))]
    refine ⟨h.skip hp hnx, rfl, p, a, c, loadingRequests, hp, ha, hnx, hsrt.1, rfl, hwt, .inr ⟨rfl, ?_⟩⟩
    intro nodeId hnod
    have hmem : (nodeId, latency round a toLoadSize nodeId) ∈ schedulingOptions round a c toLoadSize s.workerNodes :=
      mem_schedulingOptions.2 ⟨hnod, rfl⟩
    rw [hno] at hmem
    cases hmem
  · rename_i nodeId time others hopt
    obtain ⟨hmem, hleast⟩ := schedulingOptions_head hopt
    obtain ⟨hnod, htime⟩ := mem_schedulingOptions.1 hmem
    rw [if_neg (of_decide_eq_false hwt)]
    refine ⟨h.resolve hp hnx nodeId _, rfl, p, a, c, loadingRequests, hp, ha, hnx, hsrt.1, rfl, hwt,
      .inl ⟨nodeId, rfl, hnod, ?_⟩⟩
    intro nodeId' hnod'
    have hle := hleast (nodeId', latency round a toLoadSize nodeId') (mem_schedulingOptions.2 ⟨hnod', rfl⟩)
    exact htime ▸ hle

theorem Disciplined.finish {p : Pass} (hp : s.pass = some p) :
    Disciplined (s.finish p) ∧ StepLaw round s (s.finish p) .finish := by
  have hpass := h.inPass p hp
  obtain ⟨queues, hpop, hqs⟩ := popAll_eq hpass.remove_nodup hpass.remove
  unfold State.finish
  rw [hpop]
  refine ⟨⟨h.error, h.futures.filter _ hqs, ?_, nofun⟩, rfl, rfl, hqs⟩
  intro _ m r hr
  dsimp only at hr
  rw [hqs, mem_filter, Bool.not_eq_true'] at hr
  exact hr.2

theorem Disciplined.step {x : Step} (hnds : x.HasNodes) (hst : s.step round x = some s') :
    Disciplined s' ∧ StepLaw round s s' x := by
  unfold State.step at hst
  split at hst
  · rename_i modelName requestTime numGpus
    cases hst
    refine ⟨h.allocateResource modelName requestTime numGpus, rfl, ?_⟩
    intro m
    refine (queue_append s.queues modelName m _).trans ?_
    split
    · rename_i hm
      rw [hm]
    · rfl
  · rename_i hidle
    cases hst
    refine ⟨h.collect hidle, ?_⟩
    unfold State.collect
    split
    · refine ⟨rfl, rfl, ?_⟩
      intro p hp
      rw [hidle] at hp
      cases hp
    · refine ⟨rfl, rfl, ?_⟩
      intro p hp
      cases hp
      exact ⟨perm_insertionSort _ _,
        pairwise_insertionSort (fun c d : Collected => c.request.requestTime ≤ d.request.requestTime) _⟩
  · rename_i clusterNodes answers loadingRequests toRemove _ hp
    cases hst
    refine ⟨h.prepare hp hnds answers, rfl, rfl, ?_⟩
    rw [hp]
    rfl
  · rename_i toLoadSize c loadingRequests a toRemove _ hp
    cases hst
    exact h.turn hp rfl rfl toLoadSize
  · rename_i a toRemove _ hp
    cases hst
    exact h.finish hp
  · cases hst

theorem Disciplined.run {steps : List Step} (hnds : ∀ x ∈ steps, x.HasNodes)
    (hrun : s.run round steps = some s') : Disciplined s' :=
  Runs.run_invariant_of_mem (fun x hx _ _ h hst => (h.step (hnds x hx) hst).1) h hrun

end

/-- A step of a pass: neither its beginning nor its end. -/
def Step.Within : Step → Prop
  | .collect => False
  | .finish => False
  | _ => True

/-- Since a pass began with `created` futures: what was appended is newer, and what is resolved or has its turn yet is older. -/
structure Since (created : Nat) (queues : Queues) (s : State) : Prop where
  appended : ∀ m, ∃ new, s.queues.queue m = queues.queue m ++ new ∧ ∀ r ∈ new, created ≤ r.allocationResult
  collected : ∀ p ∈ s.pass, ∀ c ∈ p.loadingRequests, c.request.allocationResult < created
  resolved : ∀ f ∈ s.resolved.map fst, f < created
  created_le : created ≤ s.created

variable {created : Nat} {queues : Queues}

theorem Since.step (h : Since created queues s) {x : Step} (hwth : x.Within) (hlaw : StepLaw round s s' x)
    (hcrt : s.created ≤ s'.created) (hst : s.step round x = some s') : Since created queues s' := by
  cases x with
  | allocateResource modelName requestTime numGpus =>
    obtain rfl : s.allocateResource modelName requestTime numGpus = s' := some.inj hst
    refine ⟨?_, h.collected, h.resolved, Nat.le_succ_of_le h.created_le⟩
    intro m
    obtain ⟨new, hnew, hle⟩ := h.appended m
    rw [hlaw.2 m, hnew]
    split
    · refine ⟨new ++ [⟨requestTime, numGpus, s.created⟩], append_assoc _ _ _, ?_⟩
      intro r hr
      rcases mem_append.1 hr with hr | hr
      · exact hle r hr
      · rw [mem_singleton.1 hr]
        exact h.created_le
    · exact ⟨new, rfl, hle⟩
  | collect => exact hwth.elim
  | finish => exact hwth.elim
  | prepare clusterNodes answers =>
    obtain ⟨hrsv, hqs, hpass⟩ := hlaw
    refine ⟨?_, ?_, ?_, h.created_le.trans hcrt⟩
    · intro m
      rw [hqs]
      exact h.appended m
    · intro p hp c hc
      rw [hp] at hpass
      obtain ⟨p₀, hp₀, heq⟩ := map_eq_some_iff.1 hpass.symm
      exact h.collected p₀ hp₀ c (heq ▸ hc)
    · intro f hf
      rw [hrsv] at hf
      exact h.resolved f hf
  | turn toLoadSize =>
    obtain ⟨hqs, p₀, a, c₀, rest, hp₀, -, hnx, -, hpass, -, hans⟩ := hlaw
    have hold := h.collected p₀ hp₀
    rw [hnx] at hold
    refine ⟨?_, ?_, ?_, h.created_le.trans hcrt⟩
    · intro m
      rw [hqs]
      exact h.appended m
    · intro p hp c hc
      rw [hp] at hpass
      have heq : p.loadingRequests = rest := some.inj hpass
      exact hold c (mem_cons_of_mem _ (heq ▸ hc))
    · intro f hf
      rcases hans with ⟨nodeId, hrsv, -⟩ | ⟨hrsv, -⟩
      · rw [hrsv, map_append, mem_append] at hf
        rcases hf with hf | hf
        · exact h.resolved f hf
        · rw [mem_singleton.1 hf]
          exact hold c₀ mem_cons_self
      · rw [hrsv] at hf
        exact h.resolved f hf

theorem created_le_of_step {x : Step} (hst : s.step round x = some s') : s.created ≤ s'.created := by
  unfold step at hst
  split at hst
  · cases hst
    exact Nat.le_succ _
  · cases hst
    unfold State.collect
    split
    · exact Nat.le_refl _
    · exact Nat.le_refl _
  · cases hst
    exact Nat.le_refl _
  · cases hst
    unfold turn
    split
    · split
      · exact Nat.le_refl _
      · exact Nat.le_refl _
    · split
      · exact Nat.le_refl _
      · exact Nat.le_refl _
  · cases hst
    unfold finish
    split
    · exact Nat.le_refl _
    · exact Nat.le_refl _
  · cases hst

theorem Since.run (h : Since created queues s) (hs : Disciplined s) {steps : List Step}
    (hsteps : ∀ x ∈ steps, x.HasNodes ∧ x.Within) (hrun : s.run round steps = some s') : Since created queues s' := by
  have hboth : Since created queues s' ∧ Disciplined s' := by
    refine Runs.run_invariant_of_mem (I := fun s => Since created queues s ∧ Disciplined s) ?_ ⟨h, hs⟩ hrun
    rintro x hx s s₁ ⟨h, hs⟩ hst
    obtain ⟨hnds, hwth⟩ := hsteps x hx
    obtain ⟨hs₁, hlaw⟩ := hs.step hnds hst
    exact ⟨h.step hwth hlaw (created_le_of_step hst) hst, hs₁⟩
  exact hboth.1

end ServerlessLLM.Schedulers.ReuseAware
