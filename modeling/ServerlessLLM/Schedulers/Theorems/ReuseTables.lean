import ServerlessLLM.Library.Runs
import ServerlessLLM.Schedulers.Lemmas.AccountOps
import ServerlessLLM.Schedulers.Lemmas.ReuseOps
import ServerlessLLM.Schedulers.ReuseTables

/-!
# The GPUs of the reuse-aware scheduler

A pass that holds the scheduler's table keeps the balance of every node.
-/

namespace ServerlessLLM.Schedulers

open Option Dict Accounts Nodes Queues

/-- A pass holds a table whose nodes the scheduler's table has as well, with the same GPUs in total. -/
structure Tables.Holds (t : Tables) (r : Nat) : Prop where
  made : r < t.made.length
  total : ∀ k gpus, (t.table r).total? k = some gpus → t.current.total? k = some gpus

/-- The nodes of a table have as many free GPUs in the scheduler's table. -/
def Tables.Agree (t : Tables) (r : Nat) : Prop := ∀ k ∈ (t.table r).keys, (t.table r).free.get? k = t.current.free.get? k

namespace Tables.Holds

variable {t : Tables} {r : Nat} {nodeId : String} {numGpus : Int}

theorem refl (h : t.workerNodes < t.made.length) : t.Holds t.workerNodes := ⟨h, fun _ _ hk => hk⟩

theorem mem_keys (h : t.Holds r) {k : String} (hk : k ∈ (t.table r).keys) : k ∈ t.current.keys := by
  obtain ⟨info, hin⟩ := mem_keys_iff.1 hk
  have htot := h.total k info.totalGpu (by rw [total?, hin]; rfl)
  obtain ⟨info', hin', -⟩ := map_eq_some_iff.1 htot
  exact mem_keys_iff.2 ⟨info', hin'⟩

theorem charge (h : t.Holds r) (hown : t.workerNodes < t.made.length) (r' : Nat) (nodeId : String) (numGpus : Int) :
    (t.modify r' fun nodes => nodes.charge nodeId numGpus).Holds r := by
  have htot : ∀ r'' k, r'' < t.made.length →
      ((t.modify r' fun nodes => nodes.charge nodeId numGpus).table r'').total? k = (t.table r'').total? k := by
    intro r'' k hlt
    by_cases hr : r'' = r'
    · subst hr
      rw [table_modify_self hlt]
      exact total?_charge _ _ _ _
    · rw [table_modify_of_ne hr]
  refine ⟨(length_modify _ _ _).symm ▸ h.made, ?_⟩
  intro k gpus hk
  rw [htot r k h.made] at hk
  unfold current
  rw [workerNodes_modify, htot _ k hown]
  exact h.total k gpus hk

theorem getWorkerNodes (h : t.Holds r) (workerNodes : Nodes) : (t.getWorkerNodes workerNodes).Holds r := by
  refine ⟨?_, ?_⟩
  · unfold Tables.getWorkerNodes Tables.replace
    rw [List.length_append]
    exact Nat.lt_add_right _ h.made
  · intro k gpus hk
    unfold Tables.getWorkerNodes at hk ⊢
    rw [table_replace h.made] at hk
    rw [current_replace]
    obtain ⟨info, hin, hgpus⟩ := map_eq_some_iff.1 (h.total k gpus hk)
    unfold total?
    rw [get?_addUnknown, hin]
    exact congrArg some hgpus

theorem updateWorkerNodes {r' : Nat} (h : t.Holds r') (hr : t.Holds r) : (t.updateWorkerNodes r).Holds r' := by
  refine ⟨?_, ?_⟩
  · unfold Tables.updateWorkerNodes Tables.replace
    rw [List.length_append]
    exact Nat.lt_add_right _ h.made
  · intro k gpus hk
    unfold Tables.updateWorkerNodes at hk ⊢
    rw [table_replace h.made] at hk
    rw [current_replace]
    obtain ⟨info, hin, hgpus⟩ := map_eq_some_iff.1 (h.total k gpus hk)
    unfold total?
    rw [get?_overwrite, hin, map_some, map_some, ← hgpus]
    cases hget : (t.table r).get? k with
    | none => rfl
    | some info' =>
      have htot := hr.total k info'.totalGpu (by rw [total?, hget]; rfl)
      rw [total?, hin, map_some] at htot
      exact htot.symm

end Tables.Holds

namespace Queues

theorem mem_requests_of_popAll {q q' : Queues} {toRemove : Dict String (List Nat)} {r : LoadingRequest}
    (h : ReuseAware.popAll q toRemove = some q') (hr : r ∈ q'.requests) : r ∈ q.requests := by
  refine Runs.run_invariant (I := fun q' : Queues => ∀ r ∈ q'.requests, r ∈ q.requests) ?_ (fun _ hr => hr) h r hr
  intro q₁ e q₂ hq₁ hindices
  refine Runs.run_invariant (I := fun q' : Queues => ∀ r ∈ q'.requests, r ∈ q.requests) ?_ hq₁ hindices
  exact fun q₃ idx q₄ hq₃ hpop r hr => hq₃ r (mem_requests_of_pop hpop hr)

end Queues

namespace Accounts

variable {a : Accounts} {r : Nat}

theorem balancedIn_overwrite_iff (h : a.Balanced) (hr : a.tables.Holds r) :
    a.BalancedIn (a.tables.current.overwrite (a.tables.table r)) ↔ a.tables.Agree r := by
  constructor
  · intro hb k hk
    obtain ⟨info, hin⟩ := mem_keys_iff.1 hk
    obtain ⟨info', hin'⟩ := mem_keys_iff.1 (hr.mem_keys hk)
    have htot := hr.total k info.totalGpu (by rw [total?, hin]; rfl)
    rw [total?, hin', map_some, some.injEq] at htot
    have hold := h k info' hin'
    have hnew := hb k info (by rw [get?_overwrite, hin', hin]; rfl)
    unfold free
    rw [get?_mapValues, get?_mapValues, hin, hin', map_some, map_some, some.injEq]
    omega
  · intro hagr k info hin
    rw [get?_overwrite] at hin
    obtain ⟨info', hin', hgetD⟩ := map_eq_some_iff.1 hin
    have hold := h k info' hin'
    cases hget : (a.tables.table r).get? k with
    | none =>
      rw [hget] at hgetD
      rw [← hgetD]
      exact hold
    | some info₀ =>
      rw [hget, getD_some] at hgetD
      subst hgetD
      have htot := hr.total k info₀.totalGpu (by rw [total?, hget]; rfl)
      have hfe := hagr k (mem_keys_iff.2 ⟨info₀, hget⟩)
      unfold free at hfe
      rw [total?, hin', map_some, some.injEq] at htot
      rw [get?_mapValues, get?_mapValues, hget, hin', map_some, map_some, some.injEq] at hfe
      omega

end Accounts

namespace ReuseTables

open ReuseAware (StoreAnswers LoopError schedulingOptions popAll)

variable (round : ℚ → ℚ)

/-- The condition on a turn. A request for some GPUs that is served when others are to follow finds the pass with the
scheduler's own table; when the pass ends and writes a table back, the nodes of this table have as many free GPUs in the
scheduler's one. -/
def MeetsTurn (s : State) (p : Pass) (a : StoreAnswers) (c : Collected) (loadingRequests : List Collected)
    (toLoadSize : String → Int) : Prop :=
  let options := schedulingOptions round a c toLoadSize (s.accounts.tables.table p.workerNodes).free
  (options ≠ [] → s.accounts.results.get? c.request.allocationResult = none) →
    if loadingRequests = [] then options ≠ [] ∨ p.updateWorkerNode = true → s.accounts.tables.Agree p.workerNodes
    else options ≠ [] → p.workerNodes = s.accounts.tables.workerNodes ∨ c.request.numGpus = 0

def Meets (s : State) : Step → Prop
  | .turn toLoadSize =>
    match s.failure, s.pass with
    | none, some p =>
      match p.answers, p.loadingRequests with
      | some a, c :: loadingRequests => MeetsTurn round s p a c loadingRequests toLoadSize
      | _, _ => True
    | _, _ => True
  | _ => True

/-- What every step keeps, whether the balance holds or not. -/
structure Sound (s : State) : Prop where
  accounts : s.accounts.Sound
  requested : ∀ q ∈ s.queues.requests, s.accounts.Requested q
  waiting : ∀ p ∈ s.pass, ∀ c ∈ p.loadingRequests, s.accounts.Requested c.request
  holds : ∀ p ∈ s.pass, s.accounts.tables.Holds p.workerNodes

variable {round} {s s' : State} {p : Pass} {a : StoreAnswers} {c : Collected} {loadingRequests : List Collected}
  {toLoadSize : String → Int}

/-! ## What every step keeps -/

variable {accounts : Accounts} {i : Instance} {nodeId : String}

section

variable (h : Sound s)

include h

theorem Sound.accounts_of (hsnd : accounts.Sound) (hreq : ∀ q, s.accounts.Requested q → accounts.Requested q)
    (hhld : ∀ r, s.accounts.tables.Holds r → accounts.tables.Holds r) : Sound { s with accounts := accounts } where
  accounts := hsnd
  requested := fun q hq => hreq q (h.requested q hq)
  waiting := fun p hp c hc => hreq _ (h.waiting p hp c hc)
  holds := fun p hp => hhld _ (h.holds p hp)

theorem Sound.allocateResource {modelName instanceId : String} (hnew : ¬s.accounts.Known modelName instanceId)
    (requestTime : ℚ) (numGpus : Int) : Sound (s.allocateResource modelName instanceId requestTime numGpus) where
  accounts := sound_request h.accounts hnew numGpus
  requested := by
    intro q hq
    rcases List.mem_cons.1 ((requests_append _ _ _).mem_iff.1 hq) with rfl | hq
    · exact requested_request_self _ _
    · exact requested_request (h.requested q hq)
  waiting := fun p hp c hc => requested_request (h.waiting p hp c hc)
  holds := h.holds

theorem Sound.resume (hrsm : s.accounts.resume i = some accounts) : Sound { s with accounts := accounts } := by
  refine h.accounts_of (sound_resume h.accounts hrsm) (fun q hq => requested_resume hq hrsm) ?_
  obtain ⟨-, -, nodeId, -, rfl⟩ := resume_eq hrsm
  exact fun r hr => hr

theorem Sound.deallocate (hdea : s.accounts.deallocate i = some accounts) : Sound { s with accounts := accounts } := by
  refine h.accounts_of (sound_deallocate h.accounts hdea)
    (fun q hq => requested_deallocate h.accounts hq hdea) ?_
  obtain ⟨-, -, nodeId, d, -, -, rfl⟩ := deallocate_eq h.accounts hdea
  exact fun r hr => hr.charge h.accounts.own _ _ _

theorem Sound.getWorkerNodes (workerNodes : Nodes) : Sound { s with accounts := s.accounts.getWorkerNodes workerNodes } :=
  h.accounts_of (sound_getWorkerNodes h.accounts workerNodes) (fun _ hq => hq) fun _ hr => hr.getWorkerNodes workerNodes

theorem Sound.getWorkerNodeStatus (rayNodes : List RayNode) : Sound (s.getWorkerNodeStatus rayNodes) := by
  unfold State.getWorkerNodeStatus
  split
  · exact h
  · exact h.getWorkerNodes _

theorem Sound.collect (rayNodes : List RayNode) : Sound (s.collect rayNodes) := by
  unfold State.collect
  split
  · exact h
  · split
    · exact ⟨h.accounts, h.requested, h.waiting, h.holds⟩
    · rename_i workerNodes hnds
      have hnew := h.getWorkerNodes workerNodes
      refine ⟨hnew.accounts, hnew.requested, ?_, ?_⟩
      · rintro p ⟨⟩ c hc
        exact h.requested _ (request_mem_of_mem_collect ((List.mem_insertionSort _).1 hc))
      · rintro p ⟨⟩
        exact Tables.Holds.refl hnew.accounts.own

theorem Sound.writeBack (hhld : s.accounts.tables.Holds p.workerNodes) : Sound (s.writeBack p) := by
  unfold State.writeBack
  split
  · exact h.accounts_of (sound_updateWorkerNodes h.accounts _) (fun _ hq => hq) fun r hr => hr.updateWorkerNodes hhld
  · exact h

theorem Sound.popServed : Sound (s.popServed p) := by
  unfold State.popServed
  split
  · exact ⟨h.accounts, h.requested, h.waiting, h.holds⟩
  · rename_i queues hpop
    refine ⟨h.accounts, fun q hq => h.requested q (mem_requests_of_popAll hpop hq), ?_, ?_⟩
    · rintro p ⟨⟩
    · rintro p ⟨⟩

theorem Sound.next (hwt : ∀ c ∈ p.loadingRequests, s.accounts.Requested c.request)
    (hhld : s.accounts.tables.Holds p.workerNodes) : Sound (s.next p) := by
  unfold State.next
  split
  · exact (h.writeBack hhld).popServed
  · refine ⟨h.accounts, h.requested, ?_, ?_⟩
    · rintro p' ⟨⟩
      exact hwt
    · rintro p' ⟨⟩
      exact hhld

end

theorem mem_keys_of_option {nodes : Nodes} {time : ℚ} {rest : List (String × ℚ)}
    (h : schedulingOptions round a c toLoadSize nodes.free = (nodeId, time) :: rest) : nodeId ∈ nodes.keys := by
  have hmem := (ReuseAware.schedulingOptions_head h).1
  obtain ⟨freeGpu, -, hget, -⟩ := (ReuseAware.mem_schedulingOptions.1 hmem).1
  unfold free at hget
  rw [get?_mapValues] at hget
  obtain ⟨info, hin, -⟩ := map_eq_some_iff.1 hget
  exact mem_keys_iff.2 ⟨info, hin⟩

theorem Sound.serve (h : Sound s) (hp : p ∈ s.pass) (hc : c ∈ p.loadingRequests)
    (hno : s.accounts.results.get? c.request.allocationResult = none)
    (hnod : nodeId ∈ (s.accounts.tables.table p.workerNodes).keys) :
    Sound { s with
      accounts := (s.accounts.setResult c.request.allocationResult nodeId).charge p.workerNodes nodeId c.request.numGpus } := by
  obtain ⟨i, hi, hfut, -⟩ := h.waiting p hp c hc hno
  rw [← hfut] at hno ⊢
  have hsnd := sound_setResult h.accounts hi hno ((h.holds p hp).mem_keys hnod)
  exact h.accounts_of (sound_charge hsnd _ _ _) (fun q hq => requested_setResult hq)
    fun r hr => hr.charge h.accounts.own _ _ _

theorem Sound.turn (h : Sound s) (hp : p ∈ s.pass) (hrqs : p.loadingRequests = c :: loadingRequests) :
    Sound (s.turn round p a c loadingRequests toLoadSize) := by
  have hc : c ∈ p.loadingRequests := hrqs ▸ List.mem_cons_self
  have hrs : ∀ d ∈ loadingRequests, d ∈ p.loadingRequests := fun d hd => hrqs ▸ List.mem_cons_of_mem _ hd
  unfold State.turn
  split
  · split
    · exact ⟨h.accounts, h.requested, h.waiting, h.holds⟩
    · exact h.next (fun d hd => h.waiting p hp d (hrs d hd)) (h.holds p hp)
  · rename_i nodeId time rest hopt
    split
    · exact ⟨h.accounts, h.requested, h.waiting, h.holds⟩
    · rename_i hno
      rw [isSome_iff_ne_none, not_not] at hno
      have hserve := h.serve hp hc hno (mem_keys_of_option hopt)
      exact hserve.next (fun d hd => hserve.waiting p hp d (hrs d hd)) (hserve.holds p hp)

theorem Sound.step (h : Sound s) {step : Step} (hst : s.step round step = some s') : Sound s' := by
  cases step with
  | allocateResource modelName instanceId requestTime numGpus =>
    simp only [State.step] at hst
    split at hst
    · cases hst
    · rename_i hnew
      cases hst
      exact h.allocateResource hnew requestTime numGpus
  | resume i =>
    obtain ⟨accounts, hacc, rfl⟩ := map_eq_some_iff.1 hst
    exact h.resume hacc
  | deallocateResource i =>
    obtain ⟨accounts, hacc, rfl⟩ := map_eq_some_iff.1 hst
    exact h.deallocate hacc
  | getWorkerNodeStatus rayNodes =>
    cases hst
    exact h.getWorkerNodeStatus rayNodes
  | collect rayNodes =>
    simp only [State.step] at hst
    split at hst
    · cases hst
      exact h.collect rayNodes
    · cases hst
  | prepare answers =>
    simp only [State.step] at hst
    split at hst
    · rename_i p _ hp
      split at hst
      · cases hst
        refine ⟨h.accounts, h.requested, ?_, ?_⟩
        · rintro p' ⟨⟩
          exact h.waiting p hp
        · rintro p' ⟨⟩
          exact h.holds p hp
      · cases hst
    · cases hst
  | turn toLoadSize =>
    simp only [State.step] at hst
    split at hst
    · rename_i p _ hp
      split at hst
      · rename_i a c loadingRequests _ hrqs
        cases hst
        exact h.turn hp hrqs
      · cases hst
    · cases hst

/-! ## When the balance is kept -/

theorem accounts_popServed (s : State) (p : Pass) : (s.popServed p).accounts = s.accounts := by
  unfold State.popServed
  split
  · rfl
  · rfl

theorem balanced_next_iff : (s.next p).accounts.Balanced ↔
    if p.loadingRequests = [] ∧ p.updateWorkerNode = true then
      s.accounts.BalancedIn (s.accounts.tables.current.overwrite (s.accounts.tables.table p.workerNodes))
    else s.accounts.Balanced := by
  unfold State.next
  split
  · rename_i hla
    unfold State.finish
    rw [accounts_popServed]
    unfold State.writeBack
    split
    · rename_i hupdate
      rw [if_pos ⟨hla, hupdate⟩]
      unfold Accounts.Balanced updateWorkerNodes Tables.updateWorkerNodes
      rw [Tables.current_replace]
      rfl
    · rename_i hupdate
      rw [if_neg fun h => hupdate h.2]
  · rename_i hla
    rw [if_neg fun h => hla h.1]

theorem balanced_next_iff_of_skip (h : Sound s) (hb : s.accounts.Balanced) (hp : p ∈ s.pass) :
    (s.next { p with loadingRequests := loadingRequests }).accounts.Balanced ↔
      (loadingRequests = [] → p.updateWorkerNode = true → s.accounts.tables.Agree p.workerNodes) := by
  rw [balanced_next_iff]
  split
  · rename_i hla
    rw [balancedIn_overwrite_iff hb (h.holds p hp)]
    exact ⟨fun hagr _ _ => hagr, fun hagr => hagr hla.1 hla.2⟩
  · rename_i hla
    exact ⟨fun _ h₁ h₂ => absurd ⟨h₁, h₂⟩ hla, fun _ => hb⟩

theorem balanced_serve_iff (h : Sound s) (hb : s.accounts.Balanced) (hp : p ∈ s.pass)
    (hi : i ∈ s.accounts.instances) (hno : s.accounts.results.get? i.allocationResult = none)
    (hnod : nodeId ∈ (s.accounts.tables.table p.workerNodes).keys) :
    ((s.accounts.setResult i.allocationResult nodeId).charge p.workerNodes nodeId i.numGpus).Balanced ↔
      p.workerNodes = s.accounts.tables.workerNodes ∨ i.numGpus = 0 := by
  have hpla := placed_setResult h.accounts hi hno nodeId
  have hsnd := sound_setResult h.accounts hi hno ((h.holds p hp).mem_keys hnod)
  unfold Accounts.Balanced
  rw [current_charge hsnd]
  split
  · rename_i hown
    exact ⟨fun _ => .inl hown.symm, fun _ => hb.charge hpla⟩
  · rename_i hown
    obtain ⟨info, hin⟩ := mem_keys_iff.1 ((h.holds p hp).mem_keys hnod)
    have hbef := hb nodeId info hin
    constructor
    · intro haft
      have hnow := haft nodeId info hin
      have hgpus := hpla nodeId
      rw [if_pos rfl] at hgpus
      refine .inr ?_
      have hcharge : ((s.accounts.setResult i.allocationResult nodeId).charge p.workerNodes nodeId i.numGpus).placed nodeId =
          (s.accounts.setResult i.allocationResult nodeId).placed nodeId := rfl
      omega
    · rintro (heq | hzero)
      · exact absurd heq.symm hown
      · refine BalancedIn.of_placed hb ?_
        intro k
        refine (hpla k).trans ?_
        rw [hzero, ite_self, add_zero]

theorem balanced_serve_last_iff (h : Sound s) (hb : s.accounts.Balanced) (hp : p ∈ s.pass)
    (hi : i ∈ s.accounts.instances) (hno : s.accounts.results.get? i.allocationResult = none)
    (hnod : nodeId ∈ (s.accounts.tables.table p.workerNodes).keys)
    (hacc : accounts = (s.accounts.setResult i.allocationResult nodeId).charge p.workerNodes nodeId i.numGpus) :
    accounts.BalancedIn (accounts.tables.current.overwrite (accounts.tables.table p.workerNodes)) ↔
      s.accounts.tables.Agree p.workerNodes := by
  have hhld := h.holds p hp
  have hsnd := sound_setResult h.accounts hi hno (hhld.mem_keys hnod)
  have hpla : ∀ k, accounts.placed k = s.accounts.placed k + if k = nodeId then i.numGpus else 0 := by
    subst hacc
    exact placed_setResult h.accounts hi hno nodeId
  have htable : accounts.tables.table p.workerNodes = (s.accounts.tables.table p.workerNodes).charge nodeId i.numGpus := by
    subst hacc
    exact Tables.table_modify_self hhld.made
  have hcur : accounts.tables.current = if s.accounts.tables.workerNodes = p.workerNodes then
      s.accounts.tables.current.charge nodeId i.numGpus else s.accounts.tables.current := by
    subst hacc
    exact current_charge hsnd _ _ _
  -- the table of the pass is written over what the scheduler has, as if it were charged afterwards
  have hget : ∀ k, (accounts.tables.current.overwrite (accounts.tables.table p.workerNodes)).get? k =
      ((s.accounts.tables.current.overwrite (s.accounts.tables.table p.workerNodes)).charge nodeId i.numGpus).get? k := by
    intro k
    rw [htable, get?_overwrite, get?_charge, get?_charge, get?_overwrite, get?_overwrite]
    obtain ⟨info, hin⟩ := mem_keys_iff.1 hnod
    obtain ⟨info', hin'⟩ := mem_keys_iff.1 (hhld.mem_keys hnod)
    by_cases hk : k = nodeId
    · subst hk
      rw [if_pos rfl, if_pos rfl, hin, hin', hcur]
      split
      · rw [get?_charge, if_pos rfl, hin']
        rfl
      · rw [hin']
        rfl
    · rw [if_neg hk, if_neg hk, hcur]
      split
      · rw [get?_charge, if_neg hk]
      · rfl
  rw [← balancedIn_overwrite_iff hb hhld, ← balancedIn_charge_iff hpla]
  exact ⟨fun hbal => hbal.of_get? fun k => (hget k).symm, fun hbal => hbal.of_get? hget⟩

theorem balanced_turn_iff (h : Sound s) (hb : s.accounts.Balanced) (hp : p ∈ s.pass)
    (hrqs : p.loadingRequests = c :: loadingRequests) :
    (s.turn round p a c loadingRequests toLoadSize).accounts.Balanced ↔ MeetsTurn round s p a c loadingRequests toLoadSize := by
  unfold State.turn MeetsTurn
  split
  · rename_i hopt
    simp only [hopt, ne_eq, not_true_eq_false, false_implies, false_or, true_implies]
    split
    · rename_i hemp
      -- there is no node on which the tables could differ
      have hagr : s.accounts.tables.Agree p.workerNodes := by
        intro k hk
        unfold keys at hk
        rw [hemp] at hk
        cases hk
      refine iff_of_true hb ?_
      split
      · exact fun _ => hagr
      · trivial
    · rw [balanced_next_iff_of_skip h hb hp]
      split
      · rename_i hla
        exact ⟨fun hagr => hagr hla, fun hagr _ => hagr⟩
      · rename_i hla
        exact iff_of_true (fun heq => absurd heq hla) trivial
  · rename_i nodeId time rest hopt
    have hnod := mem_keys_of_option hopt
    simp only [hopt, ne_eq, reduceCtorEq, not_false_eq_true, true_implies, true_or]
    split
    · rename_i hso
      rw [isSome_iff_ne_none] at hso
      exact iff_of_true hb fun hno => absurd hno hso
    · rename_i hno
      rw [isSome_iff_ne_none, not_not] at hno
      obtain ⟨i, hi, hfut, hgpus⟩ := h.waiting p hp c (hrqs ▸ List.mem_cons_self) hno
      rw [← hfut] at hno ⊢
      rw [← hgpus, balanced_next_iff]
      simp only [hno, true_implies, and_true]
      split
      · exact balanced_serve_last_iff h hb hp hi hno hnod rfl
      · exact balanced_serve_iff h hb hp hi hno hnod

theorem balanced_step_iff (h : Sound s) (hb : s.accounts.Balanced) {step : Step} (hst : s.step round step = some s') :
    s'.accounts.Balanced ↔ Meets round s step := by
  cases step with
  | allocateResource modelName instanceId requestTime numGpus =>
    simp only [State.step] at hst
    split at hst
    · cases hst
    · cases hst
      exact iff_of_true (hb.of_placed fun k => placed_request h.accounts _ _ _) trivial
  | resume i =>
    obtain ⟨accounts, hacc, rfl⟩ := map_eq_some_iff.1 hst
    refine iff_of_true ?_ trivial
    have hpla := fun k => placed_resume (k := k) hacc
    obtain ⟨-, -, nodeId, -, rfl⟩ := resume_eq hacc
    exact hb.of_placed hpla
  | deallocateResource i =>
    obtain ⟨accounts, hacc, rfl⟩ := map_eq_some_iff.1 hst
    exact iff_of_true (balanced_deallocate h.accounts hb hacc) trivial
  | getWorkerNodeStatus rayNodes =>
    cases hst
    refine iff_of_true ?_ trivial
    unfold State.getWorkerNodeStatus
    split
    · exact hb
    · rename_i workerNodes hnds
      exact balanced_getWorkerNodes h.accounts hb hnds
  | collect rayNodes =>
    refine iff_of_true ?_ trivial
    simp only [State.step] at hst
    split at hst
    · cases hst
      unfold State.collect
      split
      · exact hb
      · split
        · exact hb
        · rename_i workerNodes hnds
          exact balanced_getWorkerNodes h.accounts hb hnds
    · cases hst
  | prepare answers =>
    refine iff_of_true ?_ trivial
    simp only [State.step] at hst
    split at hst
    · split at hst
      · cases hst
        exact hb
      · cases hst
    · cases hst
  | turn toLoadSize =>
    simp only [State.step] at hst
    split at hst
    · rename_i p hfai hp
      split at hst
      · rename_i a c loadingRequests hans hrqs
        cases hst
        simp only [Meets, hfai, hp, hans, hrqs]
        exact balanced_turn_iff h hb hp hrqs
      · cases hst
    · cases hst

theorem meets_of_step_eq_none {step : Step} (h : s.step round step = none) : Meets round s step := by
  cases step with
  | turn toLoadSize =>
    simp only [State.step] at h
    split at h
    · rename_i p hfai hp
      split at h
      · cases h
      · rename_i hother
        cases hans : p.answers with
        | none => simp only [Meets, hfai, hp, hans]
        | some a =>
          cases hrqs : p.loadingRequests with
          | nil => simp only [Meets, hfai, hp, hans, hrqs]
          | cons c loadingRequests => exact absurd hrqs (hother a c loadingRequests hans)
    · rename_i hother
      cases hfai : s.failure with
      | some failure => simp only [Meets, hfai]
      | none =>
        cases hp : s.pass with
        | none => simp only [Meets, hfai, hp]
        | some p => exact absurd hp (hother p hfai)
  | _ => trivial

theorem init_sound : Sound .init where
  accounts := sound_init
  requested := by rintro q ⟨⟩
  waiting := by rintro p ⟨⟩
  holds := by rintro p ⟨⟩

/-- Every run. The free GPUs of every node and the GPUs of the instances that are placed on it are all that it came with, in
every state that the run comes to, exactly when the turns meet the condition. -/
theorem gpus_throughout_iff (steps : List Step) :
    Runs.Throughout (State.step round) (fun s => s.accounts.Balanced) .init steps ↔
      Runs.EachStep (State.step round) (Meets round) .init steps := by
  refine Runs.throughout_iff_eachStep (I := Sound) ?_ ?_ ?_ init_sound ?_
  · exact fun _ _ _ h hst => h.step hst
  · exact fun _ _ _ h hb hst => balanced_step_iff h hb hst
  · exact fun _ _ hst => meets_of_step_eq_none hst
  · rintro nodeId info ⟨⟩

/-- An instance is deallocated while a pass waits for the store, after the status was asked for. -/
def lostSteps : List Step :=
  let rayNodes : List RayNode := [⟨some "a", (Dict.empty.set "GPU" 4).set "worker_id_0" 1, some "10.0.0.1"⟩]
  let answers : StoreAnswers := ⟨Dict.empty.set "0" ["m"], fun _ => ⟨1, one_pos⟩⟩
  [.allocateResource "m" "m_0" 0 1, .collect rayNodes, .prepare answers, .turn fun _ => 0, .resume ⟨"m", "m_0", 1, 0, false⟩,
    .allocateResource "m" "m_1" 1 1, .collect rayNodes, .getWorkerNodeStatus rayNodes,
    .deallocateResource ⟨"m", "m_0", 1, 0, true⟩, .prepare answers, .turn fun _ => 0]

/-- The GPU that was given back is lost: two of the four are free, and one is placed. -/
theorem not_balanced_lostSteps : ∃ s, State.run id .init lostSteps = some s ∧ ¬s.accounts.Balanced := by
  have hrun : (State.run id .init lostSteps).map (fun s => (s.accounts.tables.current.get? "0", s.accounts.placed "0")) =
      some (some ⟨2, 4⟩, 1) := by decide +kernel
  obtain ⟨s, hs, hnds⟩ := map_eq_some_iff.1 hrun
  refine ⟨s, hs, ?_⟩
  intro hb
  have hnod := hb "0" ⟨2, 4⟩ (congrArg Prod.fst hnds)
  have hpla : s.accounts.placed "0" = 1 := congrArg Prod.snd hnds
  exact absurd (hpla ▸ hnod : (2 : Int) + 1 = 4) (by decide)

end ReuseTables

end ServerlessLLM.Schedulers
