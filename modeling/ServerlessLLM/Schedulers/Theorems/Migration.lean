import ServerlessLLM.Library.Runs
import ServerlessLLM.Schedulers.Lemmas.AccountOps
import ServerlessLLM.Schedulers.Migration

/-!
# The GPUs of the storage-aware scheduler

A migration takes the GPUs of the request from its target and gives those of the migrated model back to its source, it is
entered before it is known to succeed, and the request is placed whatever became of it.
-/

namespace ServerlessLLM.Schedulers

open List Option Dict Prod Holdings Nodes Queues

namespace ModelInstance

theorem node?_record (d : ModelInstance) (modelName instanceId nodeId m n : String) :
    (d.record modelName instanceId nodeId).node? m n = if m = modelName ∧ n = instanceId then some nodeId else d.node? m n :=
  get?_set_nested d modelName m instanceId n nodeId

theorem node?_remove (d : ModelInstance) (modelName instanceId m n : String) :
    (d.remove modelName instanceId).node? m n = if m = modelName ∧ n = instanceId then none else d.node? m n := by
  unfold remove
  split
  · rename_i hno
    split
    · rename_i hnm
      unfold node?
      rw [hnm.1, hno]
      rfl
    · rfl
  · rename_i nodes hnds
    exact get?_erase_nested d modelName m instanceId n hnds

end ModelInstance

namespace Migration

def Running.name (i : Running) : String × String := (i.modelName, i.instanceId)

def Waiting.name (w : Waiting) : String × String := (w.modelName, w.instanceId)

/-- The entries are those of the instances. -/
structure Entered (d : ModelInstance) (l : List Running) : Prop where
  names : (l.map Running.name).Nodup
  exact : ∀ m n nodeId, d.node? m n = some nodeId ↔ ∃ i ∈ l, i.name = (m, n) ∧ i.nodeId = nodeId

namespace Entered

variable {d : ModelInstance} {l l' : List Running} {i : Running}

theorem perm (h : Entered d l) (hpm : l.Perm l') : Entered d l' := by
  refine ⟨(hpm.map _).nodup_iff.1 h.names, fun m n nodeId => (h.exact m n nodeId).trans ?_⟩
  constructor
  · rintro ⟨i, hi, heq⟩
    exact ⟨i, hpm.mem_iff.1 hi, heq⟩
  · rintro ⟨i, hi, heq⟩
    exact ⟨i, hpm.mem_iff.2 hi, heq⟩

theorem node?_eq (h : Entered d l) (hi : i ∈ l) : d.node? i.modelName i.instanceId = some i.nodeId :=
  (h.exact _ _ _).2 ⟨i, hi, rfl, rfl⟩

theorem name_ne (h : Entered d l) {m n : String} (hno : d.node? m n = none) (hi : i ∈ l) : i.name ≠ (m, n) := by
  intro hnm
  have hentry := (h.exact m n i.nodeId).2 ⟨i, hi, hnm, rfl⟩
  cases hno.symm.trans hentry

theorem record (h : Entered d l) (hnew : ∀ j ∈ l, j.name ≠ i.name) :
    Entered (d.record i.modelName i.instanceId i.nodeId) (i :: l) := by
  refine ⟨nodup_cons.2 ⟨?_, h.names⟩, ?_⟩
  · intro hmem
    obtain ⟨j, hj, heq⟩ := mem_map.1 hmem
    exact hnew j hj heq
  · intro m n nodeId
    rw [ModelInstance.node?_record]
    split
    · rename_i hnm
      obtain ⟨rfl, rfl⟩ := hnm
      constructor
      · rintro ⟨⟩
        exact ⟨i, mem_cons_self, rfl, rfl⟩
      · rintro ⟨j, hj, hnm, rfl⟩
        rcases mem_cons.1 hj with rfl | hj
        · rfl
        · exact absurd hnm (hnew j hj)
    · rename_i hnm
      rw [h.exact]
      constructor
      · rintro ⟨j, hj, heq⟩
        exact ⟨j, mem_cons_of_mem _ hj, heq⟩
      · rintro ⟨j, hj, heq, hnod⟩
        rcases mem_cons.1 hj with rfl | hj
        · exact absurd ⟨(congrArg fst heq).symm, (congrArg snd heq).symm⟩ hnm
        · exact ⟨j, hj, heq, hnod⟩

theorem remove (h : Entered d l) (hi : i ∈ l) : Entered (d.remove i.modelName i.instanceId) (l.erase i) := by
  have hnd : l.Nodup := h.names.of_map
  refine ⟨h.names.sublist (erase_sublist.map _), ?_⟩
  intro m n nodeId
  rw [ModelInstance.node?_remove]
  split
  · rename_i hnm
    obtain ⟨rfl, rfl⟩ := hnm
    refine iff_of_false nofun ?_
    rintro ⟨j, hj, hnm, -⟩
    have heq := inj_on_of_nodup_map h.names (mem_of_mem_erase hj) hi hnm
    rw [heq] at hj
    exact hnd.not_mem_erase hj
  · rename_i hnm
    rw [h.exact]
    constructor
    · rintro ⟨j, hj, heq, hnod⟩
      refine ⟨j, (mem_erase_of_ne ?_).2 hj, heq, hnod⟩
      rintro rfl
      exact hnm ⟨(congrArg fst heq).symm, (congrArg snd heq).symm⟩
    · rintro ⟨j, hj, heq⟩
      exact ⟨j, mem_of_mem_erase hj, heq⟩

end Entered

/-! ## Node tables -/

def BalancedWith (nodes : Nodes) (amount : String → Int) : Prop :=
  ∀ k info, nodes.get? k = some info → 0 ≤ info.freeGpu ∧ info.freeGpu + amount k = info.totalGpu

namespace BalancedWith

variable {nodes : Nodes} {amount amount' : String → Int} {nodeId : String} {numGpus : Int}

theorem congr (h : BalancedWith nodes amount) (hamt : ∀ k, amount' k = amount k) : BalancedWith nodes amount' := by
  intro k info hin
  rw [hamt]
  exact h k info hin

theorem charge (h : BalancedWith nodes amount) (hfe : ∀ info ∈ nodes.get? nodeId, numGpus ≤ info.freeGpu)
    (hamt : ∀ k, amount' k = amount k + if k = nodeId then numGpus else 0) :
      BalancedWith (nodes.charge nodeId numGpus) amount' := by
  intro k info hin
  rw [hamt]
  rw [get?_charge] at hin
  split at hin
  · rename_i hk
    obtain ⟨info', hin', rfl⟩ := map_eq_some_iff.1 hin
    obtain ⟨-, htot⟩ := h nodeId info' hin'
    have hle := hfe info' hin'
    rw [hk, if_pos rfl]
    exact ⟨by simp only; omega, by simp only; omega⟩
  · rename_i hk
    rw [if_neg hk, add_zero]
    exact h k info hin

theorem addUnknown (h : BalancedWith nodes amount) {rayNodes : List RayNode} {workerNodes : Nodes}
    (hnds : getWorkerNodes rayNodes = some workerNodes) (hno : ∀ k, k ∉ nodes.keys → amount k = 0) :
    BalancedWith (nodes.addUnknown workerNodes) amount := by
  intro k info hin
  rw [get?_addUnknown] at hin
  rcases or_eq_some_iff.1 hin with hin | ⟨hnew, hin⟩
  · exact h k info hin
  · obtain ⟨htot, hfe⟩ := free_getWorkerNodes hnds hin
    rw [hno k (get?_eq_none_iff.1 hnew), add_zero]
    exact ⟨hfe, htot⟩

end BalancedWith

end Migration

namespace Migration

open Runs

namespace Phase

/-- No pass is in progress. -/
def isOver : Phase → Bool
  | idle => true
  | ended _ => true
  | _ => false

/-- A request was placed whose call may not have gone on. -/
def isLoading : Phase → Bool
  | loading _ => true
  | _ => false

/-- The new instance of a migration, once it is entered. -/
def marked : Phase → List Running
  | executing c _ plan (some instanceId) _ _ => [⟨plan.modelName, instanceId, c.request.numGpus, plan.targetNodeId⟩]
  | _ => []

/-- The GPUs that are taken for a migration. -/
def reserved (p : Phase) (k : String) : Int :=
  match p with
  | executing c _ plan _ _ _ => if k = plan.targetNodeId then c.request.numGpus else 0
  | _ => 0

/-- The node that the next migration goes to, and the GPUs that are taken from it. -/
def nextTarget : Phase → Option (String × Int)
  | planned c _ (plan :: _) _ => some (plan.targetNodeId, c.request.numGpus)
  | _ => none

/-- The node that the request is placed on, and the GPUs that are taken from it. -/
def placement : Phase → Option (String × Int)
  | planned c nodeId [] _ => some (nodeId, c.request.numGpus)
  | _ => none

def collected : Phase → List Collected
  | pass loadingRequests => loadingRequests
  | planned c _ _ loadingRequests => c :: loadingRequests
  | executing c _ _ _ _ loadingRequests => c :: loadingRequests
  | loading loadingRequests => loadingRequests
  | _ => []

def nodes : Phase → List String
  | planned _ nodeId plans _ => nodeId :: plans.map MigrationPlan.targetNodeId
  | executing _ nodeId plan _ plans _ => nodeId :: plan.targetNodeId :: plans.map MigrationPlan.targetNodeId
  | _ => []

end Phase

namespace State

variable {s s' : State} {i : Running} {w : Waiting} {k : String}

def held (s : State) (k : String) : Int := Holdings.heldAt (fun i => some i.nodeId) Running.numGpus s.running k

/-- Whenever no pass is in progress, the GPUs of each node are free or those of the instances that run on it, and
`model_instance` has these instances and no others. -/
def Kept (s : State) : Prop :=
  s.phase.isOver = true →
    (∀ k info, s.workerNodes.get? k = some info → 0 ≤ info.freeGpu ∧ info.freeGpu + s.held k = info.totalGpu) ∧
    ∀ m n k, s.modelInstance.node? m n = some k ↔ ∃ i ∈ s.running, i.name = (m, n) ∧ i.nodeId = k

def HasRoom (s : State) (p : String × Int) : Prop := ∀ info ∈ s.workerNodes.get? p.1, p.2 ≤ info.freeGpu

instance (s : State) (p : String × Int) : Decidable (s.HasRoom p) := inferInstanceAs (Decidable (∀ info ∈ _, _))

/-- There is room where GPUs are taken, a migrated model has as many GPUs as were taken for it, and no migration fails once its
instance is marked. -/
def Fits (s : State) : Step → Prop
  | .execute => ∀ p ∈ s.phase.nextTarget, s.HasRoom p
  | .succeed i => ∀ j ∈ s.phase.marked, i.numGpus = j.numGpus
  | .fail => s.phase.marked = []
  | .place => ∀ p ∈ s.phase.placement, s.HasRoom p
  | _ => True

instance (s : State) : ∀ a, Decidable (s.Fits a)
  | .execute => inferInstanceAs (Decidable (∀ p ∈ s.phase.nextTarget, s.HasRoom p))
  | .succeed i => inferInstanceAs (Decidable (∀ j ∈ s.phase.marked, i.numGpus = j.numGpus))
  | .fail => inferInstanceAs (Decidable (s.phase.marked = []))
  | .place => inferInstanceAs (Decidable (∀ p ∈ s.phase.placement, s.HasRoom p))
  | .allocateResource .. | .resume _ | .deallocateResource _ | .collect _ | .turn _ | .mark _ | .loaded | .finish =>
    inferInstanceAs (Decidable True)

/-! ## The invariant -/

/-- The GPUs of the requests that have a node and whose calls have not gone on. -/
def granted (s : State) (k : String) : Int :=
  heldAt (fun w => s.results.get? w.allocationResult) Waiting.numGpus s.waiting k

/-- The GPUs of a node that are not free. -/
def amount (s : State) (k : String) : Int := s.held k + s.granted k + s.phase.reserved k

def Requested (s : State) (r : LoadingRequest) : Prop :=
  0 ≤ r.numGpus ∧ (s.results.get? r.allocationResult = none →
    ∃ w ∈ s.waiting, w.allocationResult = r.allocationResult ∧ w.numGpus = r.numGpus)

structure Awaited (s : State) : Prop where
  futures : (s.waiting.map Waiting.allocationResult).Nodup
  created : ∀ w ∈ s.waiting, w.allocationResult < s.created
  pending : ∀ f, s.created ≤ f → s.results.get? f = none
  located : ∀ f k, s.results.get? f = some k → k ∈ s.workerNodes.keys
  queued : ∀ r ∈ s.queues.requests, s.Requested r
  collected : ∀ c ∈ s.phase.collected, s.Requested c.request
  settled : s.phase.isLoading = false → ∀ w ∈ s.waiting, s.results.get? w.allocationResult = none

/-- The instances and their nodes. -/
structure Placed (s : State) : Prop where
  entered : Entered s.modelInstance (s.running ++ s.phase.marked)
  names : (s.waiting.map Waiting.name).Nodup
  apart : ∀ w ∈ s.waiting, ∀ i ∈ s.running ++ s.phase.marked, i.name ≠ w.name
  located : ∀ i ∈ s.running ++ s.phase.marked, i.nodeId ∈ s.workerNodes.keys
  nodes : ∀ k ∈ s.phase.nodes, k ∈ s.workerNodes.keys

/-- The invariant. -/
structure Sound (s : State) : Prop where
  awaited : s.Awaited
  placed : s.Placed
  balanced : BalancedWith s.workerNodes s.amount
  running : ∀ i ∈ s.running, 0 ≤ i.numGpus
  waiting : ∀ w ∈ s.waiting, 0 ≤ w.numGpus

theorem sound_init : init.Sound := by
  refine ⟨⟨nodup_nil, nofun, fun _ _ => rfl, nofun, nofun, nofun, nofun⟩, ⟨⟨nodup_nil, ?_⟩, nodup_nil,
    nofun, nofun, nofun⟩, nofun, nofun, nofun⟩
  intro m n k
  exact iff_of_false nofun (by rintro ⟨i, ⟨⟩, -⟩)

theorem granted_eq_zero (h : ∀ w ∈ s.waiting, s.results.get? w.allocationResult = none) (k : String) : s.granted k = 0 :=
  heldAt_eq_zero fun w hw => by rw [h w hw]; exact nofun

theorem Awaited.goOn (h : s.Awaited) {queues : Queues} {modelInstance : ModelInstance} {running : List Running}
    {workerNodes : Nodes}
    {phase : Phase} (hqs : ∀ r ∈ queues.requests, r ∈ s.queues.requests)
    (hks : ∀ k, k ∈ s.workerNodes.keys → k ∈ workerNodes.keys) (hcol : ∀ c ∈ phase.collected, s.Requested c.request)
    (hset : phase.isLoading = false → ∀ w ∈ s.waiting, s.results.get? w.allocationResult = none) :
    ({ s with
      queues := queues, modelInstance := modelInstance, running := running, workerNodes := workerNodes, phase := phase } :
      State).Awaited :=
  ⟨h.futures, h.created, h.pending, fun f k hk => hks k (h.located f k hk), fun r hr => h.queued r (hqs r hr), hcol, hset⟩

theorem Placed.goOn (h : s.Placed) {queues : Queues} {results : Dict Nat String} {workerNodes : Nodes} {phase : Phase}
    (hks : ∀ k, k ∈ s.workerNodes.keys → k ∈ workerNodes.keys) (hmrk : phase.marked = s.phase.marked)
    (hnds : ∀ k ∈ phase.nodes, k ∈ s.workerNodes.keys) :
    ({ s with queues := queues, results := results, workerNodes := workerNodes, phase := phase } : State).Placed := by
  refine ⟨?_, h.names, ?_, ?_, fun k hk => hks k (hnds k hk)⟩
  · rw [hmrk]
    exact h.entered
  · rw [hmrk]
    exact h.apart
  · rw [hmrk]
    exact fun i hi => hks _ (h.located i hi)

theorem Sound.kept (h : s.Sound) : s.Kept := by
  intro hover
  have hph : s.phase.isLoading = false ∧ s.phase.marked = [] ∧ ∀ k, s.phase.reserved k = 0 := by
    cases hp : s.phase with
    | idle => exact ⟨rfl, rfl, fun _ => rfl⟩
    | ended e => exact ⟨rfl, rfl, fun _ => rfl⟩
    | pass l => rw [hp] at hover; cases hover
    | planned c n p l => rw [hp] at hover; cases hover
    | executing c n p m ps l => rw [hp] at hover; cases hover
    | loading l => rw [hp] at hover; cases hover
  obtain ⟨hlod, hmrk, hrsd⟩ := hph
  refine ⟨?_, ?_⟩
  · intro k info hin
    have hbal := h.balanced k info hin
    unfold amount at hbal
    rw [granted_eq_zero (h.awaited.settled hlod), hrsd, add_zero, add_zero] at hbal
    exact hbal
  · intro m n k
    have hex := h.placed.entered.exact m n k
    rw [hmrk, append_nil] at hex
    exact hex

/-! ## `allocate_resource` and `deallocate_resource` -/

theorem Sound.goOn (h : s.Sound) {queues : Queues} {phase : Phase} (hqs : ∀ r ∈ queues.requests, r ∈ s.queues.requests)
    (hmrk : phase.marked = s.phase.marked) (hrsd : ∀ k, phase.reserved k = s.phase.reserved k)
    (hcol : ∀ c ∈ phase.collected, c ∈ s.phase.collected) (hnds : ∀ k ∈ phase.nodes, k ∈ s.workerNodes.keys)
    (hset : phase.isLoading = false → ∀ w ∈ s.waiting, s.results.get? w.allocationResult = none) :
    ({ s with queues := queues, phase := phase } : State).Sound := by
  exact ⟨h.awaited.goOn hqs (fun _ hk => hk) (fun c hc => h.awaited.collected c (hcol c hc)) hset,
    h.placed.goOn (fun _ hk => hk) hmrk hnds,
    h.balanced.congr fun k => congrArg (s.held k + s.granted k + ·) (hrsd k), h.running, h.waiting⟩

theorem sound_allocateResource (h : s.Sound) {modelName instanceId : String} (hfr : s.Fresh modelName instanceId)
    (requestTime : ℚ) (numGpus : Nat) : (s.allocateResource modelName instanceId requestTime numGpus).Sound := by
  obtain ⟨hnod, hrun, hwt⟩ := hfr
  have hnew := h.awaited.pending s.created le_rfl
  have hreq : ∀ r, s.Requested r → (s.allocateResource modelName instanceId requestTime numGpus).Requested r := by
    rintro r ⟨hpos, hr⟩
    refine ⟨hpos, ?_⟩
    intro hno
    obtain ⟨w, hw, heq⟩ := hr hno
    exact ⟨w, mem_append_left _ hw, heq⟩
  refine ⟨⟨?_, ?_, fun f hf => h.awaited.pending f (Nat.le_of_succ_le hf), h.awaited.located, ?_,
    fun c hc => hreq _ (h.awaited.collected c hc), ?_⟩, ⟨h.placed.entered, ?_, ?_, h.placed.located, h.placed.nodes⟩, ?_,
    h.running, ?_⟩
  · show ((s.waiting ++ [_]).map Waiting.allocationResult).Nodup
    rw [map_append, nodup_append]
    refine ⟨h.awaited.futures, nodup_singleton _, ?_⟩
    intro f hf f' hf' heq
    obtain ⟨w, hw, rfl⟩ := mem_map.1 hf
    have hlt := h.awaited.created w hw
    rw [map_singleton, mem_singleton] at hf'
    exact absurd (heq.trans hf') (Nat.ne_of_lt hlt)
  · intro w hw
    rcases mem_append.1 hw with hw | hw
    · exact Nat.lt_succ_of_lt (h.awaited.created w hw)
    · rw [mem_singleton.1 hw]
      exact Nat.lt_succ_self _
  · intro r hr
    rcases mem_cons.1 ((requests_append _ _ _).mem_iff.1 hr) with rfl | hr
    · exact ⟨Int.natCast_nonneg _, fun _ => ⟨_, mem_append_right _ mem_cons_self, rfl, rfl⟩⟩
    · exact hreq r (h.awaited.queued r hr)
  · intro hlod w hw
    rcases mem_append.1 hw with hw | hw
    · exact h.awaited.settled hlod w hw
    · rw [mem_singleton.1 hw]
      exact hnew
  · show ((s.waiting ++ [_]).map Waiting.name).Nodup
    rw [map_append, nodup_append]
    refine ⟨h.placed.names, nodup_singleton _, ?_⟩
    intro x hx y hy heq
    obtain ⟨w, hw, rfl⟩ := mem_map.1 hx
    rw [map_singleton, mem_singleton] at hy
    exact hwt w hw (Prod.mk.injEq _ _ _ _ ▸ heq.trans hy)
  · intro w hw i hi heq
    rcases mem_append.1 hw with hw | hw
    · exact h.placed.apart w hw i hi heq
    · rw [mem_singleton.1 hw] at heq
      exact h.placed.entered.name_ne hnod hi heq
  · refine h.balanced.congr ?_
    intro k
    have hgra : (s.allocateResource modelName instanceId requestTime numGpus).granted k = s.granted k := by
      unfold granted allocateResource
      rw [heldAt_append, heldAt_cons, if_neg (by rw [hnew]; exact nofun), heldAt_nil]
      simp
    unfold amount
    rw [hgra]
    rfl
  · intro w hw
    rcases mem_append.1 hw with hw | hw
    · exact h.waiting w hw
    · rw [mem_singleton.1 hw]
      exact Int.natCast_nonneg _

theorem sound_resume (h : s.Sound) (hs : s.resume w = some s') : s'.Sound := by
  unfold resume at hs
  split at hs
  · rename_i hw
    obtain ⟨nodeId, hnod, rfl⟩ := map_eq_some_iff.1 hs
    set i : Running := ⟨w.modelName, w.instanceId, w.numGpus, nodeId⟩ with hi
    have hwaitings : s.waiting.Nodup := h.awaited.futures.of_map
    have hpm : (i :: (s.running ++ s.phase.marked)).Perm (s.running ++ [i] ++ s.phase.marked) := by
      rw [append_assoc, singleton_append]
      exact perm_middle.symm
    have hreq : ∀ r, s.Requested r → ({ s with
        modelInstance := s.modelInstance.record w.modelName w.instanceId nodeId
        waiting := s.waiting.erase w
        running := s.running ++ [i] } : State).Requested r := by
      rintro r ⟨hpos, hr⟩
      refine ⟨hpos, ?_⟩
      intro hno
      obtain ⟨w', hw', hfut, hgpus⟩ := hr hno
      refine ⟨w', (mem_erase_of_ne ?_).2 hw', hfut, hgpus⟩
      rintro rfl
      rw [hfut] at hnod
      cases hnod.symm.trans hno
    refine ⟨⟨h.awaited.futures.sublist (erase_sublist.map _), fun w' hw' => h.awaited.created w' (mem_of_mem_erase hw'),
      h.awaited.pending, h.awaited.located, fun r hr => hreq r (h.awaited.queued r hr),
      fun c hc => hreq _ (h.awaited.collected c hc), fun hl w' hw' => h.awaited.settled hl w' (mem_of_mem_erase hw')⟩,
      ⟨?_, h.placed.names.sublist (erase_sublist.map _), ?_, ?_, h.placed.nodes⟩, ?_, ?_,
      fun w' hw' => h.waiting w' (mem_of_mem_erase hw')⟩
    · have hrcd : Entered (s.modelInstance.record w.modelName w.instanceId nodeId) (i :: (s.running ++ s.phase.marked)) :=
        h.placed.entered.record (i := i) fun j hj => h.placed.apart w hw j hj
      exact hrcd.perm hpm
    · intro w' hw' j hj heq
      rcases mem_cons.1 (hpm.mem_iff.2 hj) with rfl | hj
      · have hsa := inj_on_of_nodup_map h.placed.names hw (mem_of_mem_erase hw') heq
        rw [← hsa] at hw'
        exact hwaitings.not_mem_erase hw'
      · exact h.placed.apart w' (mem_of_mem_erase hw') j hj heq
    · intro j hj
      rcases mem_cons.1 (hpm.mem_iff.2 hj) with rfl | hj
      · exact h.awaited.located _ nodeId hnod
      · exact h.placed.located j hj
    · refine h.balanced.congr ?_
      intro k
      have hhe : heldAt (fun i => some i.nodeId) Running.numGpus (s.running ++ [i]) k =
          s.held k + if some nodeId = some k then w.numGpus else 0 := by
        rw [heldAt_append, heldAt_cons, heldAt_nil, add_zero]
        rfl
      have hgra : heldAt (fun w => s.results.get? w.allocationResult) Waiting.numGpus (s.waiting.erase w) k +
          (if k = nodeId then w.numGpus else 0) = s.granted k := heldAt_erase hw hnod
      simp only [some.injEq, eq_comm (a := nodeId)] at hhe
      show heldAt (fun i => some i.nodeId) Running.numGpus (s.running ++ [i]) k +
        heldAt (fun w => s.results.get? w.allocationResult) Waiting.numGpus (s.waiting.erase w) k + s.phase.reserved k =
        s.held k + s.granted k + s.phase.reserved k
      omega
    · intro j hj
      rcases mem_append.1 hj with hj | hj
      · exact h.running j hj
      · rw [mem_singleton.1 hj]
        exact h.waiting w hw
  · cases hs

theorem Placed.deallocateResource_eq (h : s.Placed) (hi : i ∈ s.running) :
    s.deallocateResource i.modelName i.instanceId i.numGpus =
      { s with
        modelInstance := s.modelInstance.remove i.modelName i.instanceId
        workerNodes := s.workerNodes.charge i.nodeId (-i.numGpus) } := by
  have hmem := mem_append_left s.phase.marked hi
  unfold deallocateResource
  rw [h.entered.node?_eq hmem]
  exact if_neg (not_not.2 (h.located i hmem))

theorem Placed.entered_remove (h : s.Placed) (hi : i ∈ s.running) :
    Entered (s.modelInstance.remove i.modelName i.instanceId) (s.running.erase i ++ s.phase.marked) := by
  rw [← erase_append_left _ hi]
  exact h.entered.remove (mem_append_left _ hi)

theorem Sound.neg_le_free (h : s.Sound) {numGpus : Int} (hpos : 0 ≤ numGpus) :
    ∀ info ∈ s.workerNodes.get? k, -numGpus ≤ info.freeGpu := by
  intro info hin
  have hfe := (h.balanced k info hin).1
  omega

theorem sound_deallocate (h : s.Sound) (hs : s.deallocate i = some s') : s'.Sound := by
  unfold deallocate at hs
  split at hs
  · rename_i hi
    cases hs
    rw [h.placed.deallocateResource_eq hi]
    have hsub : ∀ j ∈ s.running.erase i ++ s.phase.marked, j ∈ s.running ++ s.phase.marked := by
      intro j hj
      rcases mem_append.1 hj with hj | hj
      · exact mem_append_left _ (mem_of_mem_erase hj)
      · exact mem_append_right _ hj
    refine ⟨h.awaited.goOn (fun _ hr => hr) (fun _ hk => mem_keys_charge.2 hk) h.awaited.collected h.awaited.settled,
      ⟨h.placed.entered_remove hi, h.placed.names, fun w hw j hj => h.placed.apart w hw j (hsub j hj),
        fun j hj => mem_keys_charge.2 (h.placed.located j (hsub j hj)),
        fun k hk => mem_keys_charge.2 (h.placed.nodes k hk)⟩,
      h.balanced.charge (h.neg_le_free (h.running i hi)) ?_, fun j hj => h.running j (mem_of_mem_erase hj), h.waiting⟩
    intro k
    have hhe : heldAt (fun i => some i.nodeId) Running.numGpus (s.running.erase i) k +
        (if k = i.nodeId then i.numGpus else 0) = s.held k := heldAt_erase hi rfl
    show heldAt (fun i => some i.nodeId) Running.numGpus (s.running.erase i) k + s.granted k + s.phase.reserved k =
      s.held k + s.granted k + s.phase.reserved k + if k = i.nodeId then -i.numGpus else 0
    split_ifs at hhe ⊢ <;> omega
  · cases hs

/-! ## A pass -/

theorem Sound.amount_eq_zero (h : s.Sound) (hrsd : s.phase.reserved k = 0) (hk : k ∉ s.workerNodes.keys) : s.amount k = 0 := by
  have hhe : s.held k = 0 := by
    refine heldAt_eq_zero fun i hi heq => hk ?_
    cases heq
    exact h.placed.located i (mem_append_left _ hi)
  have hgra : s.granted k = 0 := heldAt_eq_zero fun w _ heq => hk (h.awaited.located _ k heq)
  unfold amount
  rw [hhe, hgra, hrsd, add_zero, add_zero]

theorem sound_collect (h : s.Sound) (hph : s.phase = .idle) (rayNodes : List RayNode) : (s.collect rayNodes).Sound := by
  have hset := h.awaited.settled (by rw [hph]; rfl)
  unfold collect
  split
  · exact h
  · split
    · exact h.goOn (fun _ hr => hr) (by rw [hph]; rfl) (fun k => by rw [hph]; rfl) nofun nofun fun _ => hset
    · rename_i workerNodes hnds
      have hks : ∀ k, k ∈ s.workerNodes.keys → k ∈ (s.workerNodes.addUnknown workerNodes).keys := by
        intro k hk
        obtain ⟨info, hin⟩ := mem_keys_iff.1 hk
        exact mem_keys_iff.2 ⟨info, by rw [get?_addUnknown, hin, some_or]⟩
      have hmrk : s.phase.marked = [] := by rw [hph]; rfl
      have hrsd : ∀ k, s.phase.reserved k = 0 := fun k => by rw [hph]; rfl
      refine ⟨h.awaited.goOn (fun _ hr => hr) hks ?_ fun _ => hset, h.placed.goOn hks hmrk.symm nofun,
        (h.balanced.addUnknown hnds fun k => h.amount_eq_zero (hrsd k)).congr ?_, h.running, h.waiting⟩
      · intro c hc
        exact h.awaited.queued _ (request_mem_of_mem_collect ((mem_insertionSort _).1 hc))
      · intro k
        show s.held k + s.granted k + 0 = s.held k + s.granted k + s.phase.reserved k
        rw [hrsd]

theorem sound_turn (h : s.Sound) {plan : Option AllocationPlan} (hs : s.turn plan = some s') : s'.Sound := by
  unfold turn at hs
  split at hs
  · rename_i c loadingRequests hph
    have hset := h.awaited.settled (by rw [hph]; rfl)
    have hcol : s.phase.collected = c :: loadingRequests := by rw [hph]; rfl
    split at hs
    · cases hs
      exact h.goOn (fun _ hr => hr) (by rw [hph]; rfl) (fun k => by rw [hph]; rfl)
        (fun c' hc' => hcol ▸ mem_cons_of_mem c hc') nofun fun _ => hset
    · rename_i plan
      split at hs
      · rename_i hvld
        cases hs
        refine h.goOn (fun _ hr => hr) (by rw [hph]; rfl) (fun k => by rw [hph]; rfl) (fun c' hc' => hcol ▸ hc')
          (fun k hk => ?_) fun _ => hset
        rcases mem_cons.1 hk with rfl | hk
        · exact hvld.1
        · obtain ⟨p, hp, rfl⟩ := mem_map.1 hk
          exact hvld.2.1 p hp
      · cases hs
  · cases hs

/-! ## A migration -/

theorem sound_execute (h : s.Sound) (hft : s.Fits .execute) (hs : s.execute = some s') : s'.Sound := by
  unfold execute at hs
  split at hs
  · rename_i c nodeId plan plans loadingRequests hph
    cases hs
    have hmrk : s.phase.marked = [] := by rw [hph]; rfl
    have hro : s.HasRoom (plan.targetNodeId, c.request.numGpus) := hft _ (by rw [hph]; rfl)
    refine ⟨h.awaited.goOn (fun _ hr => hr) (fun _ hk => mem_keys_charge.2 hk) (fun c' hc' => ?_)
        fun _ => h.awaited.settled (by rw [hph]; rfl),
      h.placed.goOn (fun _ hk => mem_keys_charge.2 hk) hmrk.symm fun k hk => h.placed.nodes k (by rw [hph]; exact hk),
      h.balanced.charge hro fun k => ?_, h.running, h.waiting⟩
    · exact h.awaited.collected c' (by rw [hph]; exact hc')
    · have hrsd : s.phase.reserved k = 0 := by rw [hph]; rfl
      show s.held k + s.granted k + (if k = plan.targetNodeId then c.request.numGpus else 0) =
        s.held k + s.granted k + s.phase.reserved k + if k = plan.targetNodeId then c.request.numGpus else 0
      rw [hrsd, add_zero]
  · cases hs

theorem sound_mark (h : s.Sound) {instanceId : String} (hs : s.mark instanceId = some s') : s'.Sound := by
  unfold mark at hs
  split at hs
  · rename_i c nodeId plan plans loadingRequests hph
    split at hs
    · rename_i hfr
      obtain ⟨hnod, -, hwt⟩ := hfr
      cases hs
      set i : Running := ⟨plan.modelName, instanceId, c.request.numGpus, plan.targetNodeId⟩ with hi
      have hmrk : s.phase.marked = [] := by rw [hph]; rfl
      have hentered : Entered s.modelInstance s.running := by
        have hall := h.placed.entered
        rwa [hmrk, append_nil] at hall
      have hmem : ∀ j ∈ s.running, j ∈ s.running ++ s.phase.marked := fun j hj => mem_append_left _ hj
      have hrcd : Entered (s.modelInstance.record plan.modelName instanceId plan.targetNodeId) (i :: s.running) :=
        hentered.record (i := i) fun j hj => hentered.name_ne hnod hj
      refine ⟨h.awaited.goOn (fun _ hr => hr) (fun _ hk => hk) (fun c' hc' => ?_) fun _ => h.awaited.settled (by rw [hph]; rfl),
        ⟨hrcd.perm (perm_append_singleton i s.running).symm, h.placed.names, fun w hw j hj => ?_, fun j hj => ?_,
          fun k hk => h.placed.nodes k (by rw [hph]; exact hk)⟩,
        h.balanced.congr fun k => ?_, h.running, h.waiting⟩
      · exact h.awaited.collected c' (by rw [hph]; exact hc')
      · rcases mem_append.1 hj with hj | hj
        · exact h.placed.apart w hw j (hmem j hj)
        · rw [mem_singleton.1 hj]
          intro heq
          exact hwt w hw (Prod.mk.injEq _ _ _ _ ▸ heq.symm)
      · rcases mem_append.1 hj with hj | hj
        · exact h.placed.located j (hmem j hj)
        · rw [mem_singleton.1 hj]
          refine h.placed.nodes _ ?_
          rw [hph]
          exact mem_cons_of_mem _ mem_cons_self
      · show s.held k + s.granted k + (if k = plan.targetNodeId then c.request.numGpus else 0) =
          s.held k + s.granted k + s.phase.reserved k
        rw [hph]
        rfl
    · cases hs
  · cases hs

theorem sound_succeed (h : s.Sound) (hft : s.Fits (.succeed i)) (hs : s.succeed i = some s') : s'.Sound := by
  unfold succeed at hs
  split at hs
  · rename_i c nodeId plan instanceId plans loadingRequests hph
    split at hs
    · rename_i hi
      obtain ⟨hi, -, -⟩ := hi
      cases hs
      have hgpus : i.numGpus = c.request.numGpus :=
        hft ⟨plan.modelName, instanceId, c.request.numGpus, plan.targetNodeId⟩ (by rw [hph]; exact mem_cons_self)
      have hmrk : s.phase.marked = [⟨plan.modelName, instanceId, i.numGpus, plan.targetNodeId⟩] := by
        rw [hph, hgpus]
        rfl
      rw [h.placed.deallocateResource_eq hi, ← hmrk]
      have hsub : ∀ j ∈ s.running.erase i ++ s.phase.marked ++ [], j ∈ s.running ++ s.phase.marked := by
        intro j hj
        rw [append_nil] at hj
        rcases mem_append.1 hj with hj | hj
        · exact mem_append_left _ (mem_of_mem_erase hj)
        · exact mem_append_right _ hj
      have hentered : Entered (s.modelInstance.remove i.modelName i.instanceId)
        (s.running.erase i ++ s.phase.marked ++ []) := by
        rw [append_nil]
        exact h.placed.entered_remove hi
      refine ⟨h.awaited.goOn (fun _ hr => hr) (fun _ hk => mem_keys_charge.2 hk) (fun c' hc' => ?_)
          fun _ => h.awaited.settled (by rw [hph]; rfl),
        ⟨hentered, h.placed.names, fun w hw j hj => h.placed.apart w hw j (hsub j hj),
          fun j hj => mem_keys_charge.2 (h.placed.located j (hsub j hj)),
          fun k hk => mem_keys_charge.2 (h.placed.nodes k ?_)⟩,
        h.balanced.charge (h.neg_le_free (h.running i hi)) fun k => ?_, fun j hj => ?_, h.waiting⟩
      · exact h.awaited.collected c' (by rw [hph]; exact hc')
      · rw [hph]
        rcases mem_cons.1 hk with rfl | hk
        · exact mem_cons_self
        · exact mem_cons_of_mem _ (mem_cons_of_mem _ hk)
      · have hhe : heldAt (fun i => some i.nodeId) Running.numGpus (s.running.erase i) k +
            (if k = i.nodeId then i.numGpus else 0) = s.held k := heldAt_erase hi rfl
        have hnew : heldAt (fun i => some i.nodeId) Running.numGpus s.phase.marked k = s.phase.reserved k := by
          rw [hmrk, hph, heldAt_cons, heldAt_nil, add_zero, hgpus]
          simp only [Phase.reserved, some.injEq, eq_comm (a := k)]
        show heldAt (fun i => some i.nodeId) Running.numGpus (s.running.erase i ++ s.phase.marked) k + s.granted k + 0 =
          s.held k + s.granted k + s.phase.reserved k + if k = i.nodeId then -i.numGpus else 0
        rw [heldAt_append, hnew]
        split_ifs at hhe ⊢ <;> omega
      · rcases mem_append.1 hj with hj | hj
        · exact h.running j (mem_of_mem_erase hj)
        · rw [hmrk, mem_singleton] at hj
          rw [hj]
          exact h.running i hi
    · cases hs
  · cases hs

theorem sound_fail (h : s.Sound) (hft : s.Fits .fail) (hs : s.fail = some s') : s'.Sound := by
  unfold fail at hs
  split at hs
  · rename_i c nodeId plan marked plans loadingRequests hph
    cases hs
    have hmrk : s.phase.marked = [] := hft
    have hpos : 0 ≤ c.request.numGpus := (h.awaited.collected c (by rw [hph]; exact mem_cons_self)).1
    refine ⟨h.awaited.goOn (fun _ hr => hr) (fun _ hk => mem_keys_charge.2 hk) (fun c' hc' => ?_)
        fun _ => h.awaited.settled (by rw [hph]; rfl),
      h.placed.goOn (fun _ hk => mem_keys_charge.2 hk) hmrk.symm fun k hk => h.placed.nodes k ?_,
      h.balanced.charge (h.neg_le_free hpos) fun k => ?_, h.running, h.waiting⟩
    · exact h.awaited.collected c' (by rw [hph]; exact hc')
    · rw [hph]
      rcases mem_cons.1 hk with rfl | hk
      · exact mem_cons_self
      · exact mem_cons_of_mem _ (mem_cons_of_mem _ hk)
    · have hrsd : s.phase.reserved k = if k = plan.targetNodeId then c.request.numGpus else 0 := by rw [hph]; rfl
      show s.held k + s.granted k + 0 =
        s.held k + s.granted k + s.phase.reserved k + if k = plan.targetNodeId then -c.request.numGpus else 0
      rw [hrsd]
      split_ifs <;> omega
  · cases hs

/-! ## The end of a pass -/

theorem sound_place (h : s.Sound) (hft : s.Fits .place) (hs : s.place = some s') : s'.Sound := by
  unfold place at hs
  split at hs
  · rename_i c nodeId loadingRequests hph
    have hmrk : s.phase.marked = [] := by rw [hph]; rfl
    have hrsd : ∀ k, s.phase.reserved k = 0 := fun k => by rw [hph]; rfl
    have hset := h.awaited.settled (by rw [hph]; rfl)
    have hcol : ∀ c' ∈ c :: loadingRequests, s.Requested c'.request := fun c' hc' =>
      h.awaited.collected c' (by rw [hph]; exact hc')
    split at hs
    · cases hs
      exact h.goOn (fun _ hr => hr) hmrk.symm (fun k => (hrsd k).symm) nofun nofun fun _ => hset
    · rename_i queues hpop
      have hqs : ∀ r ∈ queues.requests, r ∈ s.queues.requests := fun r hr => mem_requests_of_pop hpop hr
      split at hs
      · cases hs
        exact h.goOn hqs hmrk.symm (fun k => (hrsd k).symm) nofun nofun fun _ => hset
      · rename_i hno
        cases hs
        rw [isSome_iff_ne_none, not_not] at hno
        obtain ⟨w, hw, hfut, hgpus⟩ := (hcol c mem_cons_self).2 hno
        rw [← hfut] at hno ⊢
        rw [← hgpus]
        have hro : s.HasRoom (nodeId, w.numGpus) := hft _ (by rw [hph, hgpus]; rfl)
        have hreq : ∀ r, s.Requested r → ({ s with
            queues := queues
            results := s.results.set w.allocationResult nodeId
            workerNodes := s.workerNodes.charge nodeId w.numGpus
            phase := .loading loadingRequests } : State).Requested r := by
          rintro r ⟨hpos, hr⟩
          refine ⟨hpos, ?_⟩
          intro hr'
          rw [get?_set] at hr'
          split at hr'
          · cases hr'
          · exact hr hr'
        refine ⟨⟨h.awaited.futures, h.awaited.created, ?_, ?_, fun r hr => hreq r (h.awaited.queued r (hqs r hr)),
            fun c' hc' => hreq _ (hcol c' (mem_cons_of_mem c hc')), nofun⟩,
          h.placed.goOn (fun _ hk => mem_keys_charge.2 hk) hmrk.symm nofun,
          h.balanced.charge hro ?_, h.running, h.waiting⟩
        · intro f hf
          rw [get?_set_of_ne _ _ (Nat.ne_of_gt ((h.awaited.created w hw).trans_le hf))]
          exact h.awaited.pending f hf
        · intro f k hk
          refine mem_keys_charge.2 ?_
          rw [get?_set] at hk
          split at hk
          · cases hk
            exact h.placed.nodes _ (by rw [hph]; exact mem_cons_self)
          · exact h.awaited.located f k hk
        · intro k
          have hgra : heldAt (fun w' => (s.results.set w.allocationResult nodeId).get? w'.allocationResult)
              Waiting.numGpus s.waiting k = s.granted k + if k = nodeId then w.numGpus else 0 := by
            refine heldAt_settle h.awaited.futures.of_map hw hno (get?_set_self _ _ _) fun w' hw' hne => ?_
            refine get?_set_of_ne _ _ fun heq => hne ?_
            exact inj_on_of_nodup_map h.awaited.futures hw' hw heq
          show s.held k + heldAt (fun w' => (s.results.set w.allocationResult nodeId).get? w'.allocationResult)
            Waiting.numGpus s.waiting k + 0 = s.held k + s.granted k + s.phase.reserved k + if k = nodeId then w.numGpus else 0
          rw [hgra, hrsd, add_zero, add_zero, add_assoc]
  · cases hs

theorem sound_loaded (h : s.Sound) (hs : s.loaded = some s') : s'.Sound := by
  unfold loaded at hs
  split at hs
  · rename_i loadingRequests hph
    split at hs
    · rename_i hset
      cases hs
      exact h.goOn (fun _ hr => hr) (by rw [hph]; rfl) (fun k => by rw [hph]; rfl)
        (fun c hc => by rw [hph]; exact hc) nofun fun _ => hset
    · cases hs
  · cases hs

theorem sound_finish (h : s.Sound) (hs : s.finish = some s') : s'.Sound := by
  unfold finish at hs
  split at hs
  · rename_i hph
    cases hs
    have hset := h.awaited.settled (by rw [hph]; rfl)
    refine ⟨h.awaited.goOn (fun _ hr => hr) (fun _ hk => mem_keys_overwrite.2 hk) nofun fun _ => hset,
      h.placed.goOn (fun _ hk => mem_keys_overwrite.2 hk) (by rw [hph]; rfl) nofun, fun k info hin => ?_, h.running,
      h.waiting⟩
    rw [get?_overwrite_self] at hin
    have hamt : s.amount k = s.held k + s.granted k + 0 := by
      unfold amount
      rw [hph]
      rfl
    have hbal := h.balanced k info hin
    rw [hamt] at hbal
    exact hbal
  · cases hs

/-! ## Runs -/

theorem Sound.step (h : s.Sound) {a : Step} (hft : s.Fits a) (hs : s.step a = some s') : s'.Sound := by
  cases a with
  | allocateResource modelName instanceId requestTime numGpus =>
    simp only [State.step] at hs
    split at hs
    · rename_i hfr
      cases hs
      exact sound_allocateResource h hfr requestTime numGpus
    · cases hs
  | resume w => exact sound_resume h hs
  | deallocateResource i => exact sound_deallocate h hs
  | collect rayNodes =>
    simp only [State.step] at hs
    split at hs
    · rename_i hph
      cases hs
      exact sound_collect h hph rayNodes
    · cases hs
  | turn plan => exact sound_turn h hs
  | execute => exact sound_execute h hft hs
  | mark instanceId => exact sound_mark h hs
  | succeed i => exact sound_succeed h hft hs
  | fail => exact sound_fail h hft hs
  | place => exact sound_place h hft hs
  | loaded => exact sound_loaded h hs
  | finish => exact sound_finish h hs

/-- Every run whose steps fit. -/
theorem accounts_kept_throughout {as : List Step} (h : EachStep State.step Fits init as) : Throughout State.step Kept init as :=
  (throughout_of_eachStep (fun _ _ _ hsnd hft hs => hsnd.step hft hs) sound_init h).mono fun _ hsnd => hsnd.kept

/-- An instance of `m` runs on node `0`, and a request for `n` is to take its place while it is migrated to node `1`; both nodes
have two GPUs. -/
def stepsOfMigration (numGpus : Nat) (migration : List Step) : List Step :=
  let node (id key : String) : RayNode := ⟨some id, (Dict.empty.set "GPU" 2).set key 1, some "10.0.0.1"⟩
  let rayNodes := [node "a" "worker_id_0", node "b" "worker_id_1"]
  [.allocateResource "m" "m_0" 0 numGpus, .collect rayNodes, .turn (some ⟨"0", none⟩), .place, .resume ⟨"m", "m_0", numGpus, 0⟩,
    .loaded, .finish, .allocateResource "n" "n_0" 1 2, .collect rayNodes,
      .turn (some ⟨"0", some [⟨"m", "m_0", "1"⟩]⟩), .execute] ++
  migration ++ [.place, .resume ⟨"n", "n_0", 2, 1⟩, .loaded, .finish]

theorem accounts_kept_throughout_stepsOfMigration :
    Throughout State.step Kept init (stepsOfMigration 2 [.mark "m_1", .succeed ⟨"m", "m_0", 2, "0"⟩]) :=
  accounts_kept_throughout (by decide +kernel)

theorem not_kept (h : s.phase.isOver = true ∧
    ∃ info ∈ s.workerNodes.get? k, ¬(0 ≤ info.freeGpu ∧ info.freeGpu + s.held k = info.totalGpu)) : ¬s.Kept := by
  obtain ⟨hover, info, hin, hnot⟩ := h
  exact fun hkept => hnot ((hkept hover).1 k info hin)

/-- A model with one GPU is migrated for a request of two, and a migration fails after its instance was marked. -/
theorem not_kept_of_stepsOfMigration :
    (∃ s, (stepsOfMigration 1 [.mark "m_1", .succeed ⟨"m", "m_0", 1, "0"⟩]).foldlM State.step init = some s ∧ ¬s.Kept) ∧
    ∃ s, (stepsOfMigration 2 [.mark "m_1", .fail]).foldlM State.step init = some s ∧ ¬s.Kept := by
  constructor
  · have hrun : ∃ s ∈ (stepsOfMigration 1 [.mark "m_1", .succeed ⟨"m", "m_0", 1, "0"⟩]).foldlM State.step init,
        s.phase.isOver = true ∧ ∃ info ∈ s.workerNodes.get? "1",
          ¬(0 ≤ info.freeGpu ∧ info.freeGpu + s.held "1" = info.totalGpu) := by
      decide +kernel
    obtain ⟨s, hs, hcond⟩ := hrun
    exact ⟨s, hs, not_kept hcond⟩
  · have hrun : ∃ s ∈ (stepsOfMigration 2 [.mark "m_1", .fail]).foldlM State.step init,
        s.phase.isOver = true ∧ ∃ info ∈ s.workerNodes.get? "0",
          ¬(0 ≤ info.freeGpu ∧ info.freeGpu + s.held "0" = info.totalGpu) := by
      decide +kernel
    obtain ⟨s, hs, hcond⟩ := hrun
    exact ⟨s, hs, not_kept hcond⟩

end State

end Migration

end ServerlessLLM.Schedulers
