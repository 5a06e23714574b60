import ServerlessLLM.Library.Runs
import ServerlessLLM.Serving.Lemmas.RouterOps

/-!
# The accounts of a router

The counters of a router follow its calls until a call finds its instance gone: such a call returns at once, and keeps its
place in both.
-/

namespace ServerlessLLM.Serving.Router

open Runs List Option Dict

/-- A call that has returned although it was given an instance that is not there. -/
def Call.isLost (c : Call) : Bool :=
  match c.stage with
  | .returned .instanceNotFound => true
  | .returned .noTargetInstanceFound => true
  | .returned .keyError => true
  | _ => false

/-- The instance that a call has still to look up: its own, or the target to which its own was migrated. -/
def Call.seeks (migrationRecord : Dict String String) (c : Call) : Option String :=
  match c.stage with
  | .allocated instanceId => some instanceId
  | .onInstance instanceId => migrationRecord.get? instanceId
  | _ => none

theorem Call.pending_of_instance {c : Call} {instanceId : String} (h : c.instance? = some instanceId) :
    c.isPending = true ∧ c.isLost = false := by
  obtain ⟨action, stage⟩ := c
  cases stage with
  | waiting => cases h
  | allocated i => exact ⟨rfl, rfl⟩
  | onInstance i => exact ⟨rfl, rfl⟩
  | onTarget i target => exact ⟨rfl, rfl⟩
  | returned answer => cases h

namespace State

variable {s s' : State} {kind : Kind} {call : Nat} {c : Call} {stage : Stage} {instanceId : String}

/-- The counters are those of the calls, and no call is lost. -/
def Accounted (s : State) : Prop :=
  s.requestCount = s.pending ∧
  (∀ e ∈ s.handles.entries, e.2.concurrency = s.allocatedTo e.1 ∧ e.2.concurrency ≤ e.2.maxQueueLength) ∧
  ∀ c ∈ s.calls, c.isLost = false

instance (s : State) : Decidable s.Accounted := inferInstanceAs (Decidable (_ ∧ _ ∧ _))

def Free (s : State) (instanceId : String) : Prop := ∀ c ∈ s.calls, c.seeks s.migrationRecord ≠ some instanceId

instance (s : State) (instanceId : String) : Decidable (s.Free instanceId) := inferInstanceAs (Decidable (∀ c ∈ s.calls, _))

/-- An instance is taken out of the ready ones only when no call has still to look it up. A new instance takes a number of calls
that is not negative. -/
def Fits (s : State) : Step → Prop
  | .create cfg _ => 0 ≤ cfg.maxRequestLength
  | .stop => ∀ instanceId ∈ s.readyInstances.getLast?, s.Free instanceId
  | .migrate m => m.sourceInstanceId ∈ s.readyInstances → s.Free m.sourceInstanceId
  | _ => True

instance : ∀ (s : State) (a : Step), Decidable (s.Fits a)
  | _, .create cfg _ => inferInstanceAs (Decidable (0 ≤ cfg.maxRequestLength))
  | s, .stop => inferInstanceAs (Decidable (∀ instanceId ∈ s.readyInstances.getLast?, s.Free instanceId))
  | s, .migrate m => inferInstanceAs (Decidable (m.sourceInstanceId ∈ s.readyInstances → s.Free m.sourceInstanceId))
  | _, .inference _ => inferInstanceAs (Decidable True)
  | _, .take => inferInstanceAs (Decidable True)
  | _, .look => inferInstanceAs (Decidable True)
  | _, .assign => inferInstanceAs (Decidable True)
  | _, .lookup _ => inferInstanceAs (Decidable True)
  | _, .finish _ => inferInstanceAs (Decidable True)
  | _, .preempt _ => inferInstanceAs (Decidable True)
  | _, .scale _ => inferInstanceAs (Decidable True)
  | _, .adjust _ => inferInstanceAs (Decidable True)
  | _, .started _ => inferInstanceAs (Decidable True)
  | _, .finishInstance _ => inferInstanceAs (Decidable True)
  | _, .beginMigration _ _ => inferInstanceAs (Decidable True)

/-! ## The invariant -/

structure Counted (s : State) : Prop where
  count : s.requestCount = s.pending
  handle : ∀ instanceId h, s.handles.get? instanceId = some h →
    h.concurrency = s.allocatedTo instanceId ∧ h.concurrency ≤ h.maxQueueLength
  kept : ∀ c ∈ s.calls, c.isLost = false
  placed : ∀ c ∈ s.calls, ∀ instanceId, c.instance? = some instanceId → ∃ h, s.handles.get? instanceId = some h ∧ h.ready = true

def present (s : State) : List String := s.startingInstances ++ s.readyInstances ++ s.migrations.map Migration.instanceId

/-- Where the instances are: each is in one place and does not come back, and a call finds the instance that it looks up. -/
structure Arranged (s : State) : Prop where
  nodup : s.present.Nodup
  known : ∀ instanceId, instanceId ∈ s.present ∨ instanceId ∈ s.preempting → instanceId ∈ s.handles.keys
  gone : ∀ instanceId ∈ s.preempting, instanceId ∉ s.present
  fresh : ∀ m ∈ s.migrations, ∀ c ∈ s.calls, c.instance? ≠ some m.instanceId
  allocated : ∀ c ∈ s.calls, ∀ instanceId, c.stage = .allocated instanceId → instanceId ∈ s.readyInstances
  migrated : ∀ c ∈ s.calls, ∀ instanceId, c.stage = .onInstance instanceId → instanceId ∈ s.preempting →
    ∃ target, s.migrationRecord.get? instanceId = some target ∧ target ∈ s.readyInstances

/-- The invariant. -/
structure Sound (s : State) : Prop where
  queued : s.Queued
  counted : s.Counted
  arranged : s.Arranged

theorem Counted.accounted (h : s.Counted) : s.Accounted :=
  ⟨h.count, fun _ he => h.handle _ _ (mem_entries_iff.1 he), h.kept⟩

theorem sound_init : init.Sound := by
  refine ⟨queued_init, ⟨rfl, nofun, nofun, nofun⟩, ⟨nodup_nil, ?_, nofun, nofun, nofun, nofun⟩⟩
  rintro instanceId (h | h)
  · cases h
  · cases h

/-! ## The calls -/

theorem Counted.goOn (h : s.Counted) (hc : s.calls[call]? = some c) (hplace : c.instance? = some instanceId)
    (hstg : ({ c with stage := stage } : Call).instance? = some instanceId) : (s.setStage call stage).Counted := by
  have hpendings := pending_setStage hc stage
  rw [(Call.pending_of_instance hplace).1, (Call.pending_of_instance hstg).1] at hpendings
  have halc : ∀ k, (s.setStage call stage).allocatedTo k = s.allocatedTo k := by
    intro k
    have hcnt := allocatedTo_setStage hc stage k
    rw [hplace, hstg] at hcnt
    omega
  refine ⟨?_, ?_, ?_, ?_⟩
  · have hcnt : s.requestCount = s.pending := h.count
    have hsa : (s.setStage call stage).pending = s.pending := by omega
    rw [hsa]
    exact hcnt
  · intro k handle hk
    rw [halc]
    exact h.handle k handle hk
  · intro c' hc'
    rcases mem_setStage hc' with hc' | ⟨c'', hc'', rfl⟩
    · exact h.kept c' hc'
    · rw [hc] at hc''
      cases hc''
      exact (Call.pending_of_instance hstg).2
  · intro c' hc' k hk
    rcases mem_setStage hc' with hc' | ⟨c'', hc'', rfl⟩
    · exact h.placed c' hc' k hk
    · rw [hc] at hc''
      cases hc''
      rw [hstg] at hk
      cases hk
      exact h.placed c (mem_of_getElem? hc) instanceId hplace

theorem Counted.conclude (h : s.Counted) (hc : s.calls[call]? = some c)
    (hplace : c.instance? = some instanceId) {answer : Answer}
    (hans : ({ c with stage := .returned answer } : Call).isLost = false) :
    ∃ handles, s.conclude call instanceId answer =
        { s.setStage call (.returned answer) with handles := handles, requestCount := s.requestCount - 1 } ∧
      (∀ k, k ∈ handles.keys ↔ k ∈ s.handles.keys) ∧ (s.conclude call instanceId answer).Counted := by
  obtain ⟨handle, hhdl, hrdy⟩ := h.placed c (mem_of_getElem? hc) instanceId hplace
  obtain ⟨hconcurrency, hmax⟩ := h.handle instanceId handle hhdl
  have hpendings := pending_setStage hc (.returned answer)
  rw [(Call.pending_of_instance hplace).1] at hpendings
  have halc : ∀ k, (s.setStage call (.returned answer)).allocatedTo k + (if some instanceId = some k then 1 else 0) =
      s.allocatedTo k := by
    intro k
    have hcnt := allocatedTo_setStage hc (.returned answer) k
    rw [hplace] at hcnt
    exact hcnt
  have hself := halc instanceId
  rw [if_pos rfl] at hself
  -- the call is one of those that the handle counts
  have hadd : handle.addRequests (-1) = some { handle with concurrency := handle.concurrency + -1 } := by
    unfold InstanceHandle.addRequests
    rw [hrdy, if_neg (by decide), if_neg (by omega)]
  have heq : s.conclude call instanceId answer = { s.setStage call (.returned answer) with
      handles := s.handles.set instanceId { handle with concurrency := handle.concurrency + -1 }
      requestCount := s.requestCount - 1 } := by
    unfold State.conclude addRequests
    rw [hhdl, bind_some, hadd]
    rfl
  refine ⟨_, heq, ?_, ?_⟩
  · intro k
    rw [keys_set_of_get? hhdl]
  · rw [heq]
    refine ⟨?_, ?_, ?_, ?_⟩
    · have hcnt : s.requestCount = s.pending := h.count
      have hsa : (s.setStage call (.returned answer)).pending + 1 = s.pending := hpendings
      show s.requestCount - 1 = ((s.setStage call (.returned answer)).pending : Int)
      omega
    · intro k handle' hk
      show handle'.concurrency = ((s.setStage call (.returned answer)).allocatedTo k : Int) ∧ _
      change (s.handles.set instanceId _).get? k = some handle' at hk
      rw [get?_set] at hk
      split at hk
      · rename_i hki
        subst hki
        cases hk
        exact ⟨by simp only; omega, by simp only; omega⟩
      · rename_i hne
        obtain ⟨hcon, hle⟩ := h.handle k handle' hk
        have hother := halc k
        rw [if_neg (by simpa using Ne.symm hne), Nat.add_zero] at hother
        rw [hother]
        exact ⟨hcon, hle⟩
    · intro c' hc'
      rcases mem_setStage hc' with hc' | ⟨c'', hc'', rfl⟩
      · exact h.kept c' hc'
      · rw [hc] at hc''
        cases hc''
        exact hans
    · intro c' hc' k hk
      rcases mem_setStage hc' with hc' | ⟨c'', hc'', rfl⟩
      · obtain ⟨handle', hhdl', hrdy'⟩ := h.placed c' hc' k hk
        by_cases hki : k = instanceId
        · subst hki
          rw [hhdl] at hhdl'
          cases hhdl'
          exact ⟨_, get?_set_self _ _ _, hrdy⟩
        · exact ⟨handle', (get?_set_of_ne _ _ hki).trans hhdl', hrdy'⟩
      · cases hk

variable {handle : InstanceHandle} {m : Migration}

theorem Counted.allocate (h : s.Counted) (hc : s.calls[call]? = some c) (hstg : c.stage = .waiting) {handle' : InstanceHandle}
    (hhdl : s.handles.get? instanceId = some handle) (hadd : handle.addRequests 1 = some handle') (index : Nat) :
    ({ s.setStage call (.allocated instanceId) with
      roundRobinIndex := index, handles := s.handles.set instanceId handle', loadBalancer := .idle } : State).Counted := by
  obtain ⟨hrdy, hmax, rfl⟩ : handle.ready = true ∧ handle.concurrency + 1 ≤ handle.maxQueueLength ∧
      handle' = { handle with concurrency := handle.concurrency + 1 } := by
    unfold InstanceHandle.addRequests at hadd
    split at hadd
    · cases hadd
    · rename_i hrdy
      split at hadd
      · cases hadd
      · cases hadd
        exact ⟨by simpa using hrdy, by omega, rfl⟩
  obtain ⟨hconcurrency, -⟩ := h.handle instanceId handle hhdl
  have hpendings := pending_setStage hc (.allocated instanceId)
  have halc : ∀ k, (s.setStage call (.allocated instanceId)).allocatedTo k =
      s.allocatedTo k + if some instanceId = some k then 1 else 0 := by
    intro k
    have hcnt := allocatedTo_setStage hc (.allocated instanceId) k
    have hno : c.instance? = none := by
      unfold Call.instance?
      rw [hstg]
    rw [hno] at hcnt
    exact hcnt
  refine ⟨?_, ?_, ?_, ?_⟩
  · have hcnt : s.requestCount = s.pending := h.count
    have hpen : c.isPending = true := by
      unfold Call.isPending
      rw [hstg]
    rw [hpen] at hpendings
    have hsa : (s.setStage call (.allocated instanceId)).pending = s.pending := Nat.add_right_cancel hpendings
    show s.requestCount = ((s.setStage call (.allocated instanceId)).pending : Int)
    omega
  · intro k handle' hk
    show handle'.concurrency = ((s.setStage call (.allocated instanceId)).allocatedTo k : Int) ∧ _
    change (s.handles.set instanceId _).get? k = some handle' at hk
    rw [get?_set] at hk
    rw [halc]
    split at hk
    · rename_i hki
      subst hki
      cases hk
      rw [if_pos rfl]
      exact ⟨by simp only; omega, hmax⟩
    · rename_i hne
      obtain ⟨hcon, hle⟩ := h.handle k handle' hk
      rw [if_neg (by simpa using Ne.symm hne)]
      exact ⟨hcon, hle⟩
  · intro c' hc'
    rcases mem_setStage hc' with hc' | ⟨c'', hc'', rfl⟩
    · exact h.kept c' hc'
    · rfl
  · intro c' hc' k hk
    have hself : ∃ h', (s.handles.set instanceId { handle with
      concurrency := handle.concurrency + 1 }).get? instanceId = some h' ∧
        h'.ready = true := ⟨_, get?_set_self _ _ _, hrdy⟩
    rcases mem_setStage hc' with hc' | ⟨c'', hc'', rfl⟩
    · obtain ⟨handle'', hhdl', hrdy'⟩ := h.placed c' hc' k hk
      by_cases hki : k = instanceId
      · subst hki
        exact hself
      · exact ⟨handle'', (get?_set_of_ne _ _ hki).trans hhdl', hrdy'⟩
    · cases hk
      exact hself

theorem Counted.inference (h : s.Counted) (action : Action) : (s.inference kind action).Counted := by
  have happ : ∀ (c : Call), c.instance? = none → ∀ k, (s.calls ++ [c]).countP (fun c => c.instance? = some k) =
    s.allocatedTo k := by
    intro c hc k
    rw [countP_append, countP_singleton, hc]
    rfl
  have hpla : ∀ (c : Call), c.instance? = none → ∀ c' ∈ s.calls ++ [c], ∀ k, c'.instance? = some k →
      ∃ h, s.handles.get? k = some h ∧ h.ready = true := by
    intro c hc c' hc' k hk
    rcases mem_append.1 hc' with hc' | hc'
    · exact h.placed c' hc' k hk
    · rw [mem_singleton.1 hc', hc] at hk
      cases hk
  have hkept : ∀ (c : Call), c.isLost = false → ∀ c' ∈ s.calls ++ [c], c'.isLost = false := by
    intro c hc c' hc'
    rcases mem_append.1 hc' with hc' | hc'
    · exact h.kept c' hc'
    · rw [mem_singleton.1 hc']
      exact hc
  have hcnt : s.requestCount = (s.calls.countP Call.isPending : Int) := h.count
  unfold State.inference
  split
  · refine ⟨?_, ?_, hkept _ rfl, hpla _ rfl⟩
    · show s.requestCount = ((s.calls ++ [_]).countP Call.isPending : Int)
      rw [countP_append, countP_singleton]
      exact hcnt
    · intro k handle hk
      show handle.concurrency = ((s.calls ++ [_]).countP _ : Int) ∧ _
      rw [happ _ rfl]
      exact h.handle k handle hk
  · refine ⟨?_, ?_, hkept _ rfl, hpla _ rfl⟩
    · show s.requestCount + 1 = ((s.calls ++ [_]).countP Call.isPending : Int)
      rw [countP_append, countP_singleton, hcnt]
      rfl
    · intro k handle hk
      show handle.concurrency = ((s.calls ++ [_]).countP _ : Int) ∧ _
      rw [happ _ rfl]
      exact h.handle k handle hk

/-! ## The instances -/

theorem mem_present_of_ready (h : instanceId ∈ s.readyInstances) : instanceId ∈ s.present :=
  mem_append_left _ (mem_append_right _ h)

theorem Arranged.ne_target (h : s.Arranged) (hrdy : instanceId ∈ s.readyInstances) (hm : m ∈ s.migrations) :
    instanceId ≠ m.instanceId := by
  have hdisjoint := (nodup_append.1 h.nodup).2.2
  exact hdisjoint instanceId (mem_append_right _ hrdy) m.instanceId (mem_map_of_mem hm)

theorem Arranged.of_calls (h : s.Arranged) (hcls : ∀ c ∈ s'.calls, c ∈ s.calls ∨
      (∀ k, c.instance? = some k → k ∈ s.readyInstances ∨ ∃ c' ∈ s.calls, c'.instance? = some k) ∧
      (∀ k, c.stage = .allocated k → k ∈ s.readyInstances) ∧
      ∀ k, c.stage = .onInstance k → k ∈ s.readyInstances)
    (hstg : s'.startingInstances = s.startingInstances) (hrdy : s'.readyInstances = s.readyInstances)
    (hmig : s'.migrations = s.migrations) (hrcd : s'.migrationRecord = s.migrationRecord)
    (hpreempting : s'.preempting = s.preempting) (hhs : ∀ k, k ∈ s.handles.keys → k ∈ s'.handles.keys) : s'.Arranged := by
  have hprs : s'.present = s.present := by
    unfold present
    rw [hstg, hrdy, hmig]
  constructor
  case nodup => exact hprs ▸ h.nodup
  case known =>
    intro k hk
    rw [hprs, hpreempting] at hk
    exact hhs k (h.known k hk)
  case gone =>
    rw [hprs, hpreempting]
    exact h.gone
  case fresh =>
    intro m hm c hc heq
    rw [hmig] at hm
    rcases hcls c hc with hc | ⟨hins, -, -⟩
    · exact h.fresh m hm c hc heq
    · rcases hins _ heq with hmem | ⟨c', hc', heq'⟩
      · exact h.ne_target hmem hm rfl
      · exact h.fresh m hm c' hc' heq'
  case allocated =>
    intro c hc k hk
    rw [hrdy]
    rcases hcls c hc with hc | ⟨-, halc, -⟩
    · exact h.allocated c hc k hk
    · exact halc k hk
  case migrated =>
    intro c hc k hk hpre
    rw [hrcd, hrdy]
    rw [hpreempting] at hpre
    rcases hcls c hc with hc | ⟨-, -, hon⟩
    · exact h.migrated c hc k hk hpre
    · exact absurd (mem_present_of_ready (hon k hk)) (h.gone k hpre)

theorem Arranged.of_instances (h : s.Arranged) (hcls : s'.calls = s.calls) (hnd : s'.present.Nodup)
    (hkn : ∀ k, k ∈ s'.present ∨ k ∈ s'.preempting → k ∈ s'.handles.keys) (hgone : ∀ k ∈ s'.preempting, k ∉ s'.present)
    (hmig : ∀ m ∈ s'.migrations, m ∈ s.migrations ∨ ∀ c ∈ s.calls, c.instance? ≠ some m.instanceId)
    (hrdy : ∀ k ∈ s.readyInstances, s.Free k ∨ k ∈ s'.readyInstances)
    (hpreempting : ∀ k ∈ s'.preempting, (∃ target ∈ s'.readyInstances, s'.migrationRecord.get? k = some target) ∨
      k ∈ s.preempting ∧ s'.migrationRecord.get? k = s.migrationRecord.get? k) : s'.Arranged := by
  refine ⟨hnd, hkn, hgone, ?_, ?_, ?_⟩
  · intro m hm c hc
    rw [hcls] at hc
    rcases hmig m hm with hm | hfr
    · exact h.fresh m hm c hc
    · exact hfr c hc
  · intro c hc k hk
    rw [hcls] at hc
    rcases hrdy k (h.allocated c hc k hk) with hfe | hmem
    · refine absurd ?_ (hfe c hc)
      unfold Call.seeks
      rw [hk]
    · exact hmem
  · intro c hc k hk hpre
    rw [hcls] at hc
    rcases hpreempting k hpre with ⟨target, hmem, htgt⟩ | ⟨hold, hsa⟩
    · exact ⟨target, htgt, hmem⟩
    · obtain ⟨target, htgt, hmem⟩ := h.migrated c hc k hk hold
      rcases hrdy target hmem with hfe | hmem
      · refine absurd ?_ (hfe c hc)
        unfold Call.seeks
        rw [hk]
        exact htgt
      · exact ⟨target, hsa.trans htgt, hmem⟩

theorem Counted.of_handles (h : s.Counted) (hcls : s'.calls = s.calls) (hcnt : s'.requestCount = s.requestCount)
    (hhdl : ∀ k h', s'.handles.get? k = some h' →
      (∃ h, s.handles.get? k = some h ∧ h'.concurrency = h.concurrency ∧ h'.maxQueueLength = h.maxQueueLength) ∨
        (∀ c ∈ s.calls, c.instance? ≠ some k) ∧ h'.concurrency = 0 ∧ 0 ≤ h'.maxQueueLength)
    (hrdy : ∀ k h, s.handles.get? k = some h → h.ready = true →
      (∃ h', s'.handles.get? k = some h' ∧ h'.ready = true) ∨ ∀ c ∈ s.calls, c.instance? ≠ some k) : s'.Counted := by
  refine ⟨?_, ?_, ?_, ?_⟩
  · unfold pending
    rw [hcnt, hcls]
    exact h.count
  · intro k h' hk
    unfold allocatedTo
    rw [hcls]
    rcases hhdl k h' hk with ⟨handle, hget, hcon, hmax⟩ | ⟨hno, hcon, hmax⟩
    · rw [hcon, hmax]
      exact h.handle k handle hget
    · have hzero : s.calls.countP (fun c => c.instance? = some k) = 0 := countP_eq_zero.2 fun c hc => by simpa using hno c hc
      rw [hzero, hcon]
      exact ⟨rfl, hmax⟩
  · rw [hcls]
    exact h.kept
  · intro c hc k hk
    rw [hcls] at hc
    obtain ⟨handle, hget, hr⟩ := h.placed c hc k hk
    rcases hrdy k handle hget hr with hnew | hno
    · exact hnew
    · exact absurd hk (hno c hc)

theorem Counted.newHandle (h : s.Counted) (hnew : instanceId ∉ s.handles.keys)
    (hcon : handle.concurrency = 0) (hmax : 0 ≤ handle.maxQueueLength) (hcls : s'.calls = s.calls)
    (hcnt : s'.requestCount = s.requestCount) (hhs : s'.handles = s.handles.set instanceId handle) : s'.Counted := by
  have hno : ∀ c ∈ s.calls, c.instance? ≠ some instanceId := by
    intro c hc heq
    obtain ⟨handle', hget, -⟩ := h.placed c hc instanceId heq
    exact hnew (mem_keys_iff.2 ⟨_, hget⟩)
  refine h.of_handles hcls hcnt ?_ ?_
  · intro k h' hk
    rw [hhs, get?_set] at hk
    split at hk
    · rename_i heq
      subst heq
      cases hk
      exact .inr ⟨hno, hcon, hmax⟩
    · exact .inl ⟨h', hk, rfl, rfl⟩
  · intro k handle' hk hr
    rw [hhs]
    by_cases heq : k = instanceId
    · subst heq
      exact .inr hno
    · exact .inl ⟨handle', (get?_set_of_ne _ _ heq).trans hk, hr⟩

theorem Counted.setReady (h : s.Counted) (hget : s.handles.get? instanceId = some handle) {ready : Bool}
    (hrdy : ready = true ∨ ∀ c ∈ s.calls, c.instance? ≠ some instanceId) (hcls : s'.calls = s.calls)
    (hcnt : s'.requestCount = s.requestCount) (hhs : s'.handles = s.handles.set instanceId { handle with ready := ready }) :
    s'.Counted := by
  refine h.of_handles hcls hcnt ?_ ?_
  · intro k h' hk
    rw [hhs, get?_set] at hk
    split at hk
    · rename_i heq
      subst heq
      cases hk
      exact .inl ⟨handle, hget, rfl, rfl⟩
    · exact .inl ⟨h', hk, rfl, rfl⟩
  · intro k handle' hk hr
    rw [hhs]
    by_cases heq : k = instanceId
    · subst heq
      rcases hrdy with hrdy | hno
      · exact .inl ⟨_, get?_set_self _ _ _, hrdy⟩
      · exact .inr hno
    · exact .inl ⟨handle', (get?_set_of_ne _ _ heq).trans hk, hr⟩

theorem Arranged.of_new (h : s.Arranged) (hnew : instanceId ∉ s.handles.keys) (hpm : s'.present.Perm (instanceId :: s.present))
    {handle : InstanceHandle} (hhs : s'.handles = s.handles.set instanceId handle) (hcls : s'.calls = s.calls)
    (hpre : s'.preempting = s.preempting) (hrdy : s'.readyInstances = s.readyInstances)
    (hrec : s'.migrationRecord = s.migrationRecord)
    (hmig : ∀ m ∈ s'.migrations, m ∈ s.migrations ∨ ∀ c ∈ s.calls, c.instance? ≠ some m.instanceId) : s'.Arranged := by
  have hnot : instanceId ∉ s.present := fun hmem => hnew (h.known _ (.inl hmem))
  refine h.of_instances hcls (hpm.nodup_iff.2 (nodup_cons.2 ⟨hnot, h.nodup⟩)) ?_ ?_ hmig (fun k hk => .inr (hrdy ▸ hk))
    fun k hk => .inr ⟨hpre ▸ hk, by rw [hrec]⟩
  · intro k hk
    rw [hhs, mem_keys_set]
    rw [hpre, hpm.mem_iff, mem_cons] at hk
    rcases hk with (rfl | hk) | hk
    · exact .inl rfl
    · exact .inr (h.known k (.inl hk))
    · exact .inr (h.known k (.inr hk))
  · intro k hk hmem
    rw [hpre] at hk
    rcases mem_cons.1 (hpm.mem_iff.1 hmem) with rfl | hmem
    · exact hnew (h.known _ (.inr hk))
    · exact h.gone k hk hmem

/-! ## The steps -/

theorem perm_create (s : State) (instanceId : String) :
    (s.startingInstances ++ [instanceId] ++ s.readyInstances ++ s.migrations.map Migration.instanceId).Perm
      (instanceId :: s.present) := by
  unfold present
  rw [append_assoc, append_assoc, append_assoc]
  exact perm_middle

theorem sound_create {cfg : AutoScalingConfig} (h : s.Sound) (hft : 0 ≤ cfg.maxRequestLength)
    (hs : s.create cfg instanceId = some s') : s'.Counted ∧ s'.Arranged := by
  unfold create at hs
  split at hs
  · rename_i hnew
    cases hs
    exact ⟨h.counted.newHandle hnew.2 rfl hft rfl rfl rfl,
      h.arranged.of_new hnew.2 (perm_create s instanceId) rfl rfl rfl rfl rfl fun m hm => .inl hm⟩
  · cases hs

theorem perm_started (h : instanceId ∈ s.startingInstances) :
    (s.startingInstances.erase instanceId ++ (s.readyInstances ++ [instanceId]) ++ s.migrations.map Migration.instanceId).Perm
      s.present := by
  refine perm_iff_count.2 ?_
  intro k
  have hcnt := (perm_cons_erase h).count_eq k
  unfold present
  simp only [count_append, count_cons, count_nil] at hcnt ⊢
  omega

theorem sound_started (h : s.Sound) (hs : s.started instanceId = some s') : s'.Counted ∧ s'.Arranged := by
  unfold started at hs
  split at hs
  · rename_i hstg
    obtain ⟨handle, hget, rfl⟩ := map_eq_some_iff.1 hs
    have hpm := perm_started hstg
    refine ⟨h.counted.setReady hget (.inl rfl) rfl rfl rfl, h.arranged.of_instances rfl ?_ ?_ ?_ (fun m hm => .inl hm)
      (fun k hk => .inr (mem_append_left _ hk)) fun k hk => .inr ⟨hk, rfl⟩⟩
    · exact hpm.nodup_iff.2 h.arranged.nodup
    · intro k hk
      rw [keys_set_of_get? hget]
      exact h.arranged.known k (hk.imp_left hpm.mem_iff.1)
    · intro k hk hmem
      exact h.arranged.gone k hk (hpm.mem_iff.1 hmem)
  · cases hs

theorem sound_stop (h : s.Sound) (hft : s.Fits .stop) (hs : s.stop = some s') : s'.Counted ∧ s'.Arranged := by
  unfold stop at hs
  split at hs
  · obtain ⟨k₀, hla, rfl⟩ := map_eq_some_iff.1 hs
    have hsub : (s.startingInstances ++ s.readyInstances.dropLast ++ s.migrations.map Migration.instanceId).Sublist s.present :=
      (((List.Sublist.refl _).append (dropLast_sublist _))).append (List.Sublist.refl _)
    refine ⟨h.counted.of_handles rfl rfl (fun k h' hk => .inl ⟨h', hk, rfl, rfl⟩) fun k handle hk hr => .inl ⟨handle, hk, hr⟩,
      h.arranged.of_instances rfl (h.arranged.nodup.sublist hsub) ?_ ?_ (fun m hm => .inl hm) ?_ fun k hk => .inr ⟨hk, rfl⟩⟩
    · intro k hk
      exact h.arranged.known k (hk.imp_left fun hk => hsub.subset hk)
    · intro k hk hmem
      exact h.arranged.gone k hk (hsub.subset hmem)
    · intro k hk
      rw [← dropLast_append_getLast? k₀ hla, mem_append, mem_singleton] at hk
      rcases hk with hk | rfl
      · exact .inr hk
      · exact .inl (hft k hla)
  · cases hs

theorem sound_beginMigration {sourceInstanceId : String} (h : s.Sound)
    (hs : s.beginMigration kind sourceInstanceId instanceId = some s') : s'.Counted ∧ s'.Arranged := by
  unfold beginMigration at hs
  split at hs
  · rename_i hnew
    cases hs
    set m₀ : Migration := ⟨sourceInstanceId, instanceId⟩
    have hprs : s.startingInstances ++ s.readyInstances ++ (s.migrations ++ [m₀]).map Migration.instanceId =
        s.present ++ [instanceId] := by
      unfold present
      rw [map_append, ← append_assoc]
      rfl
    have hpm : (s.startingInstances ++ s.readyInstances ++ (s.migrations ++ [m₀]).map Migration.instanceId).Perm
        (instanceId :: s.present) := by
      rw [hprs]
      exact perm_append_singleton instanceId s.present
    refine ⟨h.counted.newHandle hnew.2 rfl (by decide) rfl rfl rfl,
      h.arranged.of_new hnew.2 hpm rfl rfl rfl rfl rfl fun m hm => ?_⟩
    rcases mem_append.1 hm with hm | hm
    · exact .inl hm
    · rw [mem_singleton.1 hm]
      refine .inr ?_
      intro c hc heq
      obtain ⟨handle, hget, -⟩ := h.counted.placed c hc instanceId heq
      exact hnew.2 (mem_keys_iff.2 ⟨_, hget⟩)
  · cases hs

theorem perm_migrate (hm : m ∈ s.migrations) (h : m.sourceInstanceId ∈ s.readyInstances) :
    s.present.Perm (m.sourceInstanceId ::
      (s.startingInstances ++ (s.readyInstances.erase m.sourceInstanceId ++ [m.instanceId]) ++
      (s.migrations.erase m).map Migration.instanceId)) := by
  refine perm_iff_count.2 ?_
  intro k
  have hrdy := (perm_cons_erase h).count_eq k
  have htgt := ((perm_cons_erase hm).map Migration.instanceId).count_eq k
  unfold present
  simp only [map_cons, count_append, count_cons, count_nil] at hrdy htgt ⊢
  omega

theorem sound_migrate (h : s.Sound) (hft : s.Fits (.migrate m)) (hs : s.migrate m = some s') : s'.Counted ∧ s'.Arranged := by
  unfold migrate at hs
  split at hs
  · cases hs
  · rename_i hm
    rw [not_not] at hm
    split at hs
    · obtain ⟨handle, hget, rfl⟩ := map_eq_some_iff.1 hs
      have hsub : (s.startingInstances ++ s.readyInstances ++
        (s.migrations.erase m).map Migration.instanceId).Sublist s.present :=
        (List.Sublist.refl _).append (erase_sublist.map _)
      refine ⟨h.counted.setReady hget (.inr (h.arranged.fresh m hm)) rfl rfl rfl,
        h.arranged.of_instances rfl (h.arranged.nodup.sublist hsub) ?_ ?_ (fun m' hm' => .inl (mem_of_mem_erase hm'))
          (fun k hk => .inr hk) fun k hk => .inr ⟨hk, rfl⟩⟩
      · intro k hk
        rw [keys_set_of_get? hget]
        exact h.arranged.known k (hk.imp_left fun hk => hsub.subset hk)
      · intro k hk hmem
        exact h.arranged.gone k hk (hsub.subset hmem)
    · rename_i hrdy
      rw [not_not] at hrdy
      cases hs
      have hpm := perm_migrate hm hrdy
      have hnd := nodup_cons.1 (hpm.nodup_iff.1 h.arranged.nodup)
      refine ⟨h.counted.of_handles rfl rfl (fun k h' hk => .inl ⟨h', hk, rfl, rfl⟩) fun k handle hk hr => .inl ⟨handle, hk, hr⟩,
        h.arranged.of_instances rfl hnd.2 ?_ ?_ (fun m' hm' => .inl (mem_of_mem_erase hm')) ?_ ?_⟩
      · intro k hk
        rcases hk with hk | hk
        · exact h.arranged.known k (.inl (hpm.mem_iff.2 (mem_cons_of_mem _ hk)))
        · rcases mem_cons.1 hk with rfl | hk
          · exact h.arranged.known _ (.inl (mem_present_of_ready hrdy))
          · exact h.arranged.known k (.inr hk)
      · intro k hk hmem
        rcases mem_cons.1 hk with rfl | hk
        · exact hnd.1 hmem
        · exact h.arranged.gone k hk (hpm.mem_iff.2 (mem_cons_of_mem _ hmem))
      · intro k hk
        by_cases heq : k = m.sourceInstanceId
        · subst heq
          exact .inl (hft hrdy)
        · exact .inr (mem_append_left _ ((mem_erase_of_ne heq).2 hk))
      · intro k hk
        by_cases heq : k = m.sourceInstanceId
        · subst heq
          exact .inl ⟨m.instanceId, mem_append_right _ (mem_singleton_self _), get?_set_self _ _ _⟩
        · exact .inr ⟨(mem_cons.1 hk).resolve_left heq, get?_set_of_ne _ _ heq⟩

theorem sound_of_same (h : s.Sound) (hcls : s'.calls = s.calls) (hcnt : s'.requestCount = s.requestCount)
    (hhs : s'.handles = s.handles) (hstg : s'.startingInstances = s.startingInstances)
    (hrdy : s'.readyInstances = s.readyInstances) (hmig : s'.migrations = s.migrations)
    (hrcd : s'.migrationRecord = s.migrationRecord) (hpre : s'.preempting = s.preempting) :
    s'.Counted ∧ s'.Arranged := by
  refine ⟨h.counted.of_handles hcls hcnt ?_ ?_, h.arranged.of_calls ?_ hstg hrdy hmig hrcd hpre ?_⟩
  · intro k h' hk
    rw [hhs] at hk
    exact .inl ⟨h', hk, rfl, rfl⟩
  · intro k handle hk hr
    rw [hhs]
    exact .inl ⟨handle, hk, hr⟩
  · intro c hc
    rw [hcls] at hc
    exact .inl hc
  · intro k hk
    rw [hhs]
    exact hk

theorem sound_inference (h : s.Sound) (action : Action) : (s.inference kind action).Counted ∧
    (s.inference kind action).Arranged := by
  refine ⟨h.counted.inference action, ?_⟩
  have hmem : ∀ stage, (∀ k, ({ action := action, stage := stage } : Call).instance? = some k → False) →
      (∀ k, stage ≠ .allocated k) → (∀ k, stage ≠ .onInstance k) → ∀ c ∈ s.calls ++ [⟨action, stage⟩], c ∈ s.calls ∨
      (∀ k, c.instance? = some k → k ∈ s.readyInstances ∨ ∃ c' ∈ s.calls, c'.instance? = some k) ∧
      (∀ k, c.stage = .allocated k → k ∈ s.readyInstances) ∧ ∀ k, c.stage = .onInstance k → k ∈ s.readyInstances := by
    intro stage hno halc hon c hc
    rcases mem_append.1 hc with hc | hc
    · exact .inl hc
    · rw [mem_singleton.1 hc]
      exact .inr ⟨fun k hk => (hno k hk).elim, fun k hk => absurd hk (halc k), fun k hk => absurd hk (hon k)⟩
  unfold State.inference
  split
  · exact h.arranged.of_calls (hmem _ nofun nofun nofun) rfl rfl rfl rfl rfl fun _ hk => hk
  · exact h.arranged.of_calls (hmem _ nofun nofun nofun) rfl rfl rfl rfl rfl fun _ hk => hk

theorem Arranged.goOn (h : s.Arranged) (hc : s.calls[call]? = some c) (hcls : s'.calls = (s.setStage call stage).calls)
    (hplace : ∀ k, ({ c with stage := stage } : Call).instance? = some k → k ∈ s.readyInstances ∨ c.instance? = some k)
    (halc : ∀ k, stage = .allocated k → k ∈ s.readyInstances) (hon : ∀ k, stage = .onInstance k → k ∈ s.readyInstances)
    (hstg : s'.startingInstances = s.startingInstances) (hrdy : s'.readyInstances = s.readyInstances)
    (hmig : s'.migrations = s.migrations) (hrcd : s'.migrationRecord = s.migrationRecord)
    (hpre : s'.preempting = s.preempting) (hhs : ∀ k, k ∈ s.handles.keys → k ∈ s'.handles.keys) : s'.Arranged := by
  refine h.of_calls ?_ hstg hrdy hmig hrcd hpre hhs
  intro c' hc'
  rw [hcls] at hc'
  rcases mem_setStage hc' with hc' | ⟨c'', hc'', rfl⟩
  · exact .inl hc'
  · rw [hc] at hc''
    cases hc''
    exact .inr ⟨fun k hk => (hplace k hk).imp_right fun hk => ⟨c, mem_of_getElem? hc, hk⟩, halc, hon⟩

theorem sound_conclude (h : s.Sound) (hc : s.calls[call]? = some c) (hplace : c.instance? = some instanceId) {answer : Answer}
    (hans : ({ c with stage := .returned answer } : Call).isLost = false) :
    (s.conclude call instanceId answer).Counted ∧ (s.conclude call instanceId answer).Arranged := by
  obtain ⟨handles, heq, hks, hcounted⟩ := h.counted.conclude hc hplace hans
  refine ⟨hcounted, ?_⟩
  rw [heq]
  exact h.arranged.goOn hc rfl nofun nofun nofun rfl rfl rfl rfl rfl fun k hk => (hks k).2 hk

theorem sound_step {a : Step} (h : s.Sound) (hft : s.Fits a) (hs : step kind s a = some s') : s'.Sound := by
  have hqd : s'.Queued := queued_step h.queued hs
  suffices hrs : s'.Counted ∧ s'.Arranged from ⟨hqd, hrs.1, hrs.2⟩
  cases a with
  | inference action =>
    cases hs
    exact sound_inference h action
  | take =>
    have htake : s.take = some s' := hs
    unfold take at htake
    split at htake
    · cases htake
      exact sound_of_same h rfl rfl rfl rfl rfl rfl rfl rfl
    · cases htake
  | look =>
    have hlook : s.look = some s' := hs
    unfold look at hlook
    split at hlook
    · cases hlook
      exact sound_of_same h rfl rfl rfl rfl rfl rfl rfl rfl
    · cases hlook
  | assign =>
    obtain ⟨call, instanceOptions, hlb, ⟨index, rfl⟩ | ⟨instanceId, index, handle, handle', hrdy, hget, hadd, rfl⟩⟩ :=
      assign_cases hs
    · exact sound_of_same h rfl rfl rfl rfl rfl rfl rfl rfl
    · have hwt : s.stage? call = some .waiting := (h.queued.waiting call).2 (by rw [hlb]; exact mem_cons_self)
      obtain ⟨c, hc, hstg⟩ := map_eq_some_iff.1 hwt
      refine ⟨h.counted.allocate hc hstg hget hadd index, h.arranged.goOn hc rfl ?_ ?_ nofun rfl rfl rfl rfl rfl fun k hk => ?_⟩
      · rintro k ⟨⟩
        exact .inl hrdy
      · rintro k ⟨⟩
        exact hrdy
      · rw [mem_keys_set]
        exact .inr hk
  | lookup call =>
    obtain ⟨action, instanceId, hca, ⟨hrdy, -⟩ | ⟨-, rfl⟩ | ⟨hrdy, rfl⟩⟩ := lookup_cases hs
    · exact absurd (h.arranged.allocated _ (mem_of_getElem? hca) instanceId rfl) hrdy
    · exact sound_conclude h hca rfl rfl
    · refine ⟨h.counted.goOn hca rfl rfl, h.arranged.goOn hca rfl ?_ nofun ?_ rfl rfl rfl rfl rfl fun k hk => hk⟩
      · rintro k ⟨⟩
        exact .inl hrdy
      · rintro k ⟨⟩
        exact hrdy
  | finish call =>
    obtain ⟨c, instanceId, hc, hins, rfl⟩ := finish_cases hs
    exact sound_conclude h hc hins rfl
  | preempt call =>
    obtain ⟨instanceId, hca, hpre, ⟨answer, hno, -⟩ | ⟨target, rfl⟩⟩ := preempt_cases hs
    · obtain ⟨target, htgt, hmem⟩ := h.arranged.migrated _ (mem_of_getElem? hca) instanceId rfl hpre
      exact absurd hmem (hno target htgt)
    · refine ⟨h.counted.goOn hca rfl rfl, h.arranged.goOn hca rfl ?_ nofun nofun rfl rfl rfl rfl rfl fun k hk => hk⟩
      rintro k ⟨⟩
      exact .inr rfl
  | scale cfg =>
    have hscale : s.scale cfg = some s' := hs
    unfold scale at hscale
    split at hscale
    · split at hscale
      · cases hscale
        exact sound_of_same h rfl rfl rfl rfl rfl rfl rfl rfl
      · cases hscale
        exact sound_of_same h rfl rfl rfl rfl rfl rfl rfl rfl
    · cases hscale
  | adjust cfg =>
    have hadj : s.adjust cfg = some s' := hs
    unfold adjust at hadj
    split at hadj
    · simp only at hadj
      split at hadj
      · cases hadj
        exact sound_of_same h rfl rfl rfl rfl rfl rfl rfl rfl
      · split at hadj
        · split at hadj
          · cases hadj
            exact sound_of_same h rfl rfl rfl rfl rfl rfl rfl rfl
          · cases hadj
            exact sound_of_same h rfl rfl rfl rfl rfl rfl rfl rfl
        · cases hadj
          exact sound_of_same h rfl rfl rfl rfl rfl rfl rfl rfl
    · cases hadj
  | create cfg instanceId => exact sound_create h hft hs
  | started instanceId => exact sound_started h hs
  | stop => exact sound_stop h hft hs
  | finishInstance instanceId =>
    have hfin : s.finishInstance instanceId = some s' := hs
    unfold finishInstance at hfin
    split at hfin
    · cases hfin
      exact sound_of_same h rfl rfl rfl rfl rfl rfl rfl rfl
    · cases hfin
  | beginMigration sourceInstanceId instanceId => exact sound_beginMigration h hs
  | migrate m => exact sound_migrate h hft hs

/-- In every run that takes an instance out of the ready ones only when no call has still to look it up, the counters are those
of the calls, and every call is run on its instance or the target of its migration. -/
theorem accounted_throughout {as : List Step} (h : EachStep (step kind) Fits init as) :
    Throughout (step kind) Accounted init as :=
  (throughout_of_eachStep (fun _ _ _ h hft hs => sound_step h hft hs) sound_init h).mono fun _ h => h.counted.accounted

/-- One call an instance, and no time to keep an instance alive. -/
def oneCall : AutoScalingConfig := ⟨some "concurrency", none, none, some 1, none⟩

/-- A call that is migrated while its backend works on it, and an instance that is stopped after it. -/
def migratedRun : List Step :=
  [.inference .generate, .scale oneCall, .adjust oneCall, .create oneCall "i", .started "i", .take, .look, .assign, .lookup 0,
    .beginMigration "i" "j", .migrate ⟨"i", "j"⟩, .preempt 0, .finish 0, .scale oneCall, .adjust oneCall, .stop,
      .finishInstance "j"]

theorem accounted_throughout_migratedRun : EachStep (step .migration) Fits init migratedRun ∧
    Throughout (step .migration) Accounted init migratedRun :=
  have h : EachStep (step .migration) Fits init migratedRun := by decide +kernel
  ⟨h, accounted_throughout h⟩

/-- Two calls and two instances. When the first call has returned, the auto-scaler stops the instance to which the second one
has just been allocated. -/
def stoppedRun : List Step :=
  [.inference .generate, .scale oneCall, .adjust oneCall, .create oneCall "i", .inference .generate,
    .scale oneCall, .adjust oneCall,
    .create oneCall "j", .started "i", .started "j", .take, .look, .assign, .lookup 0, .take, .look, .finish 0, .assign,
    .scale oneCall, .adjust oneCall, .stop, .lookup 1]

/-- The second call returns that its instance is not found, and keeps its place in both counters. -/
theorem not_accounted_stoppedRun : ¬ Throughout (step .roundRobin) Accounted init stoppedRun := by
  decide +kernel

/-! ## `shutdown` -/

/-- `shutdown` completes, every call that waits for an instance has returned afterwards, and no instance is ready. -/
def ShutsDown (backend : Backend) (s : State) : Prop :=
  (∃ deletedInstanceId, (s.shutdown backend).1 = .returned deletedInstanceId) ∧
  (∀ call, s.stage? call = some .waiting → ∃ answer, (s.shutdown backend).2.stage? call = some (.returned answer)) ∧
  (s.shutdown backend).2.readyInstances = []

theorem stage?_shutdown (backend : Backend) (s : State) (call : Nat) : (s.shutdown backend).2.stage? call = s.stage? call := by
  unfold shutdown
  simp only
  split
  · rfl
  · split
    · rfl
    · rfl

/-- In every state that a run comes to, `shutdown` does what it should exactly when no call is in the queue or taken by the load
balancer, and with the `mock` backend no instance is ready. -/
theorem shutsDown_iff {as : List Step} (hrun : as.foldlM (step kind) init = some s) (backend : Backend) :
    s.ShutsDown backend ↔ s.requestQueue = [] ∧ s.loadBalancer.held = [] ∧ (backend = .mock → s.readyInstances = []) := by
  have hqd : s.Queued := run_invariant (fun _ _ _ h hs => queued_step h hs) queued_init hrun
  unfold ShutsDown
  simp only [stage?_shutdown]
  constructor
  · rintro ⟨⟨ids, hret⟩, hrsv, -⟩
    -- `shutdown` gives no future a result, so that no call waits
    have hno : ∀ call, call ∉ s.loadBalancer.held ++ s.requestQueue := by
      intro call hmem
      have hwt := (hqd.waiting call).2 hmem
      obtain ⟨answer, hans⟩ := hrsv call hwt
      cases hwt.symm.trans hans
    obtain ⟨hhe, hque⟩ := append_eq_nil_iff.1 (eq_nil_iff_forall_not_mem.2 hno)
    refine ⟨hque, hhe, ?_⟩
    intro hmock
    by_contra hrdy
    unfold shutdown at hret
    simp only [hque] at hret
    rw [if_pos ⟨hmock, hrdy⟩] at hret
    cases hret
  · rintro ⟨hque, hhe, hmock⟩
    have hshutdown : s.shutdown backend = (.returned s.readyInstances, { s with running := false, readyInstances := [] }) := by
      unfold shutdown
      simp only [hque]
      rw [if_neg fun h => h.2 (hmock h.1)]
    rw [hshutdown]
    refine ⟨⟨_, rfl⟩, ?_, rfl⟩
    intro call hwt
    have hmem := (hqd.waiting call).1 hwt
    rw [hhe, hque] at hmem
    cases hmem

/-- A call that has returned, with its instance ready. -/
def servedRun : List Step :=
  [.inference .generate, .scale oneCall, .adjust oneCall, .create oneCall "i", .started "i", .take, .look, .assign, .lookup 0,
    .finish 0]

theorem shutsDown_iff_servedRun : ∃ s, servedRun.foldlM (step .roundRobin) init = some s ∧
    (s.ShutsDown .other ↔ s.requestQueue = [] ∧ s.loadBalancer.held = [] ∧
      (Backend.other = .mock → s.readyInstances = [])) := by
  have hso : (servedRun.foldlM (step .roundRobin) init).isSome = true := by decide +kernel
  obtain ⟨s, hs⟩ := isSome_iff_exists.1 hso
  exact ⟨s, hs, shutsDown_iff hs .other⟩

/-- With a call in the queue `shutdown` raises; with a call that the load balancer has taken it leaves this call waiting. -/
theorem not_shutsDown_queued :
    (∃ s, [Step.inference .generate].foldlM (step .roundRobin) init = some s ∧ ¬ s.ShutsDown .other) ∧
    ∃ s, [Step.inference .generate, .take].foldlM (step .roundRobin) init = some s ∧ ¬ s.ShutsDown .other := by
  refine ⟨⟨_, rfl, ?_⟩, ⟨_, rfl, ?_⟩⟩
  · rintro ⟨⟨ids, h⟩, -⟩
    cases h
  · rintro ⟨-, h, -⟩
    obtain ⟨answer, h⟩ := h 0 rfl
    cases h

end State

end ServerlessLLM.Serving.Router
