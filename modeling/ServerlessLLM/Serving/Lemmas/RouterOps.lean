import ServerlessLLM.Serving.Router

/-!
# Calls and queues of a router

What a change of one call's stage does to the numbers of calls, and the queue: the calls that wait for their futures are those
of the queue and the one that the load balancer has taken.
-/

namespace ServerlessLLM.Serving.Router

open List Option

theorem countP_modify {α : Type} (p : α → Bool) (f : α → α) {l : List α} {i : Nat} {a : α} (h : l[i]? = some a) :
    (l.modify i f).countP p + (if p a then 1 else 0) = l.countP p + if p (f a) then 1 else 0 := by
  induction l generalizing i with
  | nil => cases h
  | cons b l ih =>
    cases i with
    | zero =>
      cases h
      rw [modify_zero_cons, countP_cons, countP_cons]
      omega
    | succ i =>
      have hrs := ih (i := i) (by simpa using h)
      rw [modify_succ_cons, countP_cons, countP_cons]
      omega

namespace State

variable {s s' : State} {kind : Kind} {call : Nat} {c : Call} {stage : Stage}

def pending (s : State) : Nat := s.calls.countP Call.isPending

def allocatedTo (s : State) (instanceId : String) : Nat := s.calls.countP fun c => c.instance? = some instanceId

theorem pending_setStage (h : s.calls[call]? = some c) (stage : Stage) : (s.setStage call stage).pending +
    (if c.isPending then 1 else 0) =
    s.pending + if ({ c with stage := stage } : Call).isPending then 1 else 0 :=
  countP_modify Call.isPending (fun c => { c with stage := stage }) h

theorem allocatedTo_setStage (h : s.calls[call]? = some c) (stage : Stage) (instanceId : String) :
    (s.setStage call stage).allocatedTo instanceId + (if c.instance? = some instanceId then 1 else 0) =
      s.allocatedTo instanceId + if ({ c with stage := stage } : Call).instance? = some instanceId then 1 else 0 := by
  have hcnt := countP_modify (fun c => Decidable.decide (c.instance? = some instanceId)) (fun c => { c with stage := stage }) h
  simp only [decide_eq_true_eq] at hcnt
  exact hcnt

theorem mem_setStage {c' : Call} (h : c' ∈ (s.setStage call stage).calls) :
    c' ∈ s.calls ∨ ∃ c, s.calls[call]? = some c ∧ c' = { c with stage := stage } := by
  obtain ⟨i, hi⟩ := getElem?_of_mem h
  unfold setStage at hi
  simp only [getElem?_modify, Option.map_eq_map, map_eq_some_iff] at hi
  obtain ⟨c, hc, rfl⟩ := hi
  by_cases hca : call = i
  · subst hca
    exact .inr ⟨c, hc, if_pos rfl⟩
  · rw [if_neg hca]
    exact .inl (mem_of_getElem? hc)

theorem stage?_setStage (i : Nat) :
    (s.setStage call stage).stage? i = if i = call then (s.stage? call).map fun _ => stage else s.stage? i := by
  unfold stage? setStage
  simp only [getElem?_modify]
  by_cases hi : i = call
  · subst hi
    cases s.calls[i]? with
    | none => simp
    | some c => simp
  · cases s.calls[i]? with
    | none => simp [hi]
    | some c => simp [hi, Ne.symm hi]

theorem calls_addRequests (s : State) (instanceId : String) (n : Int) : (s.addRequests instanceId n).calls = s.calls := by
  unfold addRequests
  split
  · rfl
  · rfl

/-! ## The queue -/

/-- The calls that wait are those of the queue and of the load balancer, each once. -/
structure Queued (s : State) : Prop where
  nodup : (s.loadBalancer.held ++ s.requestQueue).Nodup
  waiting : ∀ i, s.stage? i = some .waiting ↔ i ∈ s.loadBalancer.held ++ s.requestQueue

theorem queued_init : init.Queued := by
  refine ⟨nodup_nil, ?_⟩
  intro i
  simp [init, stage?, LoadBalancer.held]

theorem Queued.of_same (h : s.Queued) (hhe : s'.loadBalancer.held = s.loadBalancer.held)
    (hque : s'.requestQueue = s.requestQueue) (hwt : ∀ i, s'.stage? i = some .waiting ↔ s.stage? i = some .waiting) :
    s'.Queued := by
  refine ⟨?_, ?_⟩
  · rw [hhe, hque]
    exact h.nodup
  · intro i
    rw [hhe, hque, hwt]
    exact h.waiting i

theorem waiting_setStage (hold : s.stage? call ≠ some .waiting) (hstg : stage ≠ .waiting) (i : Nat) :
    (s.setStage call stage).stage? i = some .waiting ↔ s.stage? i = some .waiting := by
  rw [stage?_setStage]
  split
  · rename_i hi
    subst hi
    refine iff_of_false ?_ hold
    intro h
    obtain ⟨-, -, heq⟩ := map_eq_some_iff.1 h
    exact hstg heq
  · rfl

theorem queued_inference (h : s.Queued) (action : Action) : (s.inference kind action).Queued := by
  unfold inference
  split
  · refine h.of_same rfl rfl ?_
    intro i
    unfold stage?
    simp only [getElem?_append]
    split
    · rfl
    · rename_i hi
      rw [getElem?_eq_none (Nat.le_of_not_lt hi), getElem?_singleton]
      split
      · exact iff_of_false nofun nofun
      · rfl
  · have hlt : ∀ i ∈ s.loadBalancer.held ++ s.requestQueue, i < s.calls.length := by
      intro i hi
      obtain ⟨c, hc, -⟩ := map_eq_some_iff.1 ((h.waiting i).2 hi)
      exact (List.getElem?_eq_some_iff.1 hc).1
    refine ⟨?_, ?_⟩
    · simp only
      rw [← append_assoc, nodup_append]
      refine ⟨h.nodup, nodup_singleton _, ?_⟩
      intro i hi j hj heq
      have hbd := hlt i hi
      rw [mem_singleton] at hj
      omega
    · intro i
      simp only
      rw [← append_assoc, mem_append, ← h.waiting i, mem_singleton]
      unfold stage?
      simp only [getElem?_append]
      split
      · rename_i hi
        exact ⟨.inl, fun hor => hor.resolve_right (Nat.ne_of_lt hi)⟩
      · rename_i hi
        rw [getElem?_eq_none (Nat.le_of_not_lt hi), getElem?_singleton]
        by_cases heq : i = s.calls.length
        · subst heq
          simp
        · rw [if_neg (by omega)]
          simp [heq]

theorem queued_conclude (h : s.Queued) (hold : s.stage? call ≠ some .waiting) (instanceId : String) (answer : Answer) :
    (s.conclude call instanceId answer).Queued := by
  have hcls := calls_addRequests s instanceId (-1)
  have hsa : (s.addRequests instanceId (-1)).loadBalancer = s.loadBalancer ∧
      (s.addRequests instanceId (-1)).requestQueue = s.requestQueue := by
    unfold addRequests
    split
    · exact ⟨rfl, rfl⟩
    · exact ⟨rfl, rfl⟩
  have hstg : ∀ i, (s.addRequests instanceId (-1)).stage? i = s.stage? i := by
    intro i
    unfold stage?
    rw [hcls]
  refine h.of_same (congrArg LoadBalancer.held hsa.1) hsa.2 ?_
  intro i
  have hret : Stage.returned answer ≠ .waiting := nofun
  have hwt : ((s.addRequests instanceId (-1)).setStage call (.returned answer)).stage? i = some .waiting ↔
      (s.addRequests instanceId (-1)).stage? i = some .waiting := waiting_setStage (by rw [hstg]; exact hold) hret i
  rw [hstg] at hwt
  exact hwt

theorem Queued.allocate (h : s.Queued) {instanceOptions : List String} (hlb : s.loadBalancer = .sleeping call instanceOptions)
    (instanceId : String) (index : Nat) (handles : Dict String InstanceHandle) : ({ s.setStage call (.allocated instanceId) with
      roundRobinIndex := index, handles := handles, loadBalancer := .idle } : State).Queued := by
  have hhe : s.loadBalancer.held = [call] := by rw [hlb]; rfl
  have hnd := h.nodup
  rw [hhe, singleton_append, nodup_cons] at hnd
  refine ⟨hnd.2, ?_⟩
  intro i
  have hold := h.waiting i
  rw [hhe, singleton_append, mem_cons] at hold
  have hnew : (s.setStage call (.allocated instanceId)).stage? i = some .waiting ↔ i ∈ s.requestQueue := by
    rw [stage?_setStage]
    by_cases hi : i = call
    · subst hi
      rw [if_pos rfl]
      refine iff_of_false ?_ hnd.1
      intro hmap
      obtain ⟨-, -, heq⟩ := map_eq_some_iff.1 hmap
      cases heq
    · rw [if_neg hi, hold]
      exact or_iff_right hi
  exact hnew

theorem assign_cases (hs : s.assign = some s') : ∃ call instanceOptions, s.loadBalancer = .sleeping call instanceOptions ∧
    ((∃ index, s' = { s with roundRobinIndex := index, loadBalancer := .looking call }) ∨
      ∃ instanceId index h h', instanceId ∈ s.readyInstances ∧ s.handles.get? instanceId = some h ∧ h.addRequests 1 = some h' ∧
        s' = { s.setStage call (.allocated instanceId) with
          roundRobinIndex := index, handles := s.handles.set instanceId h', loadBalancer := .idle }) := by
  unfold assign at hs
  split at hs
  · rename_i call instanceOptions hlb
    refine ⟨call, instanceOptions, hlb, ?_⟩
    split at hs
    · cases hs
      exact .inl ⟨_, rfl⟩
    · rename_i instanceId hoption
      simp only at hs
      split at hs
      · cases hs
        exact .inl ⟨_, rfl⟩
      · rename_i hrdy
        split at hs
        · cases hs
          exact .inl ⟨_, rfl⟩
        · rename_i h hh
          split at hs
          · cases hs
            exact .inl ⟨_, rfl⟩
          · split at hs
            · cases hs
              exact .inl ⟨_, rfl⟩
            · rename_i h' hadd
              cases hs
              exact .inr ⟨instanceId, _, h, h', not_not.1 hrdy, hh, hadd, rfl⟩
  · cases hs

theorem lookup_cases (hs : s.lookup call = some s') : ∃ action instanceId,
    s.calls[call]? = some ⟨action, .allocated instanceId⟩ ∧
    ((instanceId ∉ s.readyInstances ∧ s' = s.setStage call (.returned .instanceNotFound)) ∨
      (instanceId ∈ s.readyInstances ∧ s' = s.conclude call instanceId .invalidAction) ∨
        instanceId ∈ s.readyInstances ∧ s' = s.setStage call (.onInstance instanceId)) := by
  unfold lookup at hs
  split at hs
  · rename_i action instanceId hca
    refine ⟨action, instanceId, hca, ?_⟩
    split at hs
    · rename_i hrdy
      cases hs
      exact .inl ⟨hrdy, rfl⟩
    · rename_i hrdy
      split at hs
      · cases hs
        exact .inr (.inl ⟨not_not.1 hrdy, rfl⟩)
      · cases hs
        exact .inr (.inr ⟨not_not.1 hrdy, rfl⟩)
  · cases hs

theorem finish_cases (hs : s.finish call = some s') : ∃ c instanceId, s.calls[call]? = some c ∧ c.instance? = some instanceId ∧
    s' = s.conclude call instanceId .result := by
  unfold finish at hs
  split at hs
  · rename_i instanceId hstg
    obtain ⟨c, hc, heq⟩ := map_eq_some_iff.1 hstg
    cases hs
    refine ⟨c, instanceId, hc, ?_, rfl⟩
    unfold Call.instance?
    rw [heq]
  · rename_i instanceId target hstg
    obtain ⟨c, hc, heq⟩ := map_eq_some_iff.1 hstg
    cases hs
    refine ⟨c, instanceId, hc, ?_, rfl⟩
    unfold Call.instance?
    rw [heq]
  · cases hs

theorem preempt_cases (hs : s.preempt call = some s') : ∃ instanceId,
    s.calls[call]? = some ⟨.generate, .onInstance instanceId⟩ ∧
    instanceId ∈ s.preempting ∧
    ((∃ answer, (∀ target ∈ s.migrationRecord.get? instanceId, target ∉ s.readyInstances) ∧
        s' = s.setStage call (.returned answer)) ∨
      ∃ target, s' = s.setStage call (.onTarget instanceId target)) := by
  unfold preempt at hs
  split at hs
  · rename_i instanceId hca
    refine ⟨instanceId, hca, ?_⟩
    split at hs
    · cases hs
    · rename_i hpre
      refine ⟨not_not.1 hpre, ?_⟩
      split at hs
      · rename_i hno
        cases hs
        exact .inl ⟨_, by rw [hno]; exact nofun, rfl⟩
      · rename_i target htgt
        split at hs
        · rename_i hrdy
          cases hs
          refine .inl ⟨_, ?_, rfl⟩
          rw [htgt]
          rintro _ ⟨⟩
          exact hrdy
        · cases hs
          exact .inr ⟨target, rfl⟩
  · cases hs

def Managing : Step → Prop
  | .scale _ | .adjust _ | .create _ _ | .started _ | .stop | .finishInstance _ | .beginMigration _ _ | .migrate _ => True
  | _ => False

theorem calls_of_managing {a : Step} (ha : Managing a) (hs : step kind s a = some s') : s'.calls = s.calls ∧
    s'.requestQueue = s.requestQueue ∧ s'.loadBalancer = s.loadBalancer ∧ s'.requestCount = s.requestCount := by
  cases a with
  | scale cfg =>
    have hscale : s.scale cfg = some s' := hs
    unfold scale at hscale
    split at hscale
    · split at hscale
      · cases hscale
        exact ⟨rfl, rfl, rfl, rfl⟩
      · cases hscale
        exact ⟨rfl, rfl, rfl, rfl⟩
    · cases hscale
  | adjust cfg =>
    have hadj : s.adjust cfg = some s' := hs
    unfold adjust at hadj
    split at hadj
    · simp only at hadj
      split at hadj
      · cases hadj
        exact ⟨rfl, rfl, rfl, rfl⟩
      · split at hadj
        · split at hadj
          · cases hadj
            exact ⟨rfl, rfl, rfl, rfl⟩
          · cases hadj
            exact ⟨rfl, rfl, rfl, rfl⟩
        · cases hadj
          exact ⟨rfl, rfl, rfl, rfl⟩
    · cases hadj
  | create cfg instanceId =>
    have hcre : s.create cfg instanceId = some s' := hs
    unfold create at hcre
    split at hcre
    · cases hcre
      exact ⟨rfl, rfl, rfl, rfl⟩
    · cases hcre
  | started instanceId =>
    have hstd : s.started instanceId = some s' := hs
    unfold started at hstd
    split at hstd
    · obtain ⟨h, -, rfl⟩ := map_eq_some_iff.1 hstd
      exact ⟨rfl, rfl, rfl, rfl⟩
    · cases hstd
  | stop =>
    have hstop : s.stop = some s' := hs
    unfold stop at hstop
    split at hstop
    · obtain ⟨instanceId, -, rfl⟩ := map_eq_some_iff.1 hstop
      exact ⟨rfl, rfl, rfl, rfl⟩
    · cases hstop
  | finishInstance instanceId =>
    have hfin : s.finishInstance instanceId = some s' := hs
    unfold finishInstance at hfin
    split at hfin
    · cases hfin
      exact ⟨rfl, rfl, rfl, rfl⟩
    · cases hfin
  | beginMigration sourceInstanceId instanceId =>
    have hbegin : s.beginMigration kind sourceInstanceId instanceId = some s' := hs
    unfold beginMigration at hbegin
    split at hbegin
    · cases hbegin
      exact ⟨rfl, rfl, rfl, rfl⟩
    · cases hbegin
  | migrate m =>
    have hmig : s.migrate m = some s' := hs
    unfold migrate at hmig
    split at hmig
    · cases hmig
    · split at hmig
      · obtain ⟨h, -, rfl⟩ := map_eq_some_iff.1 hmig
        exact ⟨rfl, rfl, rfl, rfl⟩
      · cases hmig
        exact ⟨rfl, rfl, rfl, rfl⟩
  | inference action => cases ha
  | take => cases ha
  | look => cases ha
  | assign => cases ha
  | lookup call => cases ha
  | finish call => cases ha
  | preempt call => cases ha

theorem queued_step {a : Step} (h : s.Queued) (hs : step kind s a = some s') : s'.Queued := by
  by_cases ha : Managing a
  · obtain ⟨hcls, hque, hlb, -⟩ := calls_of_managing ha hs
    refine h.of_same (congrArg LoadBalancer.held hlb) hque ?_
    intro i
    unfold stage?
    rw [hcls]
  cases a with
  | inference action =>
    cases hs
    exact queued_inference h action
  | take =>
    have htake : s.take = some s' := hs
    unfold take at htake
    split at htake
    · rename_i call rest hlb hque
      cases htake
      refine ⟨?_, ?_⟩
      · have hnd := h.nodup
        rw [hlb, hque] at hnd
        exact hnd
      · intro i
        have hwt := h.waiting i
        rw [hlb, hque] at hwt
        exact hwt
    · cases htake
  | look =>
    have hlook : s.look = some s' := hs
    unfold look at hlook
    split at hlook
    · rename_i call hlb
      cases hlook
      exact h.of_same (by rw [hlb]; rfl) rfl fun _ => Iff.rfl
    · cases hlook
  | assign =>
    obtain ⟨call, instanceOptions, hlb, ⟨index, rfl⟩ | ⟨instanceId, index, -, h', -, -, -, rfl⟩⟩ := assign_cases hs
    · exact h.of_same (by rw [hlb]; rfl) rfl fun _ => Iff.rfl
    · exact h.allocate hlb instanceId _ _
  | lookup call =>
    obtain ⟨action, instanceId, hca, hcases⟩ := lookup_cases hs
    have hold : s.stage? call ≠ some .waiting := by
      unfold stage?
      rw [hca]
      exact nofun
    rcases hcases with ⟨-, rfl⟩ | ⟨-, rfl⟩ | ⟨-, rfl⟩
    · exact h.of_same rfl rfl (waiting_setStage hold nofun)
    · exact queued_conclude h hold _ _
    · exact h.of_same rfl rfl (waiting_setStage hold nofun)
  | finish call =>
    obtain ⟨c, instanceId, hc, hins, rfl⟩ := finish_cases hs
    refine queued_conclude h ?_ _ _
    intro hwt
    unfold stage? at hwt
    rw [hc, map_some, some.injEq] at hwt
    unfold Call.instance? at hins
    rw [hwt] at hins
    cases hins
  | preempt call =>
    obtain ⟨instanceId, hca, -, hcases⟩ := preempt_cases hs
    have hold : s.stage? call ≠ some .waiting := by
      unfold stage?
      rw [hca]
      exact nofun
    rcases hcases with ⟨answer, -, rfl⟩ | ⟨target, rfl⟩
    · exact h.of_same rfl rfl (waiting_setStage hold nofun)
    · exact h.of_same rfl rfl (waiting_setStage hold nofun)
  | scale cfg => exact absurd trivial ha
  | adjust cfg => exact absurd trivial ha
  | create cfg instanceId => exact absurd trivial ha
  | started instanceId => exact absurd trivial ha
  | stop => exact absurd trivial ha
  | finishInstance instanceId => exact absurd trivial ha
  | beginMigration sourceInstanceId instanceId => exact absurd trivial ha
  | migrate m => exact absurd trivial ha

end State

end ServerlessLLM.Serving.Router
