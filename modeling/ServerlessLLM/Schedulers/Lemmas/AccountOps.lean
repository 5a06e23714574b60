import ServerlessLLM.Schedulers.Accounts

/-!
# Account operations

What each operation on the accounts leaves of the node tables, the futures and the instances.
-/

namespace ServerlessLLM.Schedulers

open List Dict Holdings Nodes Tables

/-! ## Node tables -/

theorem free_getWorkerNodes {rayNodes : List RayNode} {workerNodes : Nodes} (h : getWorkerNodes rayNodes = some workerNodes)
    {k : String} {info : NodeInfo} (hin : workerNodes.get? k = some info) :
    info.freeGpu = info.totalGpu ∧ 0 ≤ info.freeGpu := by
  unfold getWorkerNodes at h
  split at h
  · cases h
    refine forall_mem_foldl_set (P := fun info => info.freeGpu = info.totalGpu ∧ 0 ≤ info.freeGpu) (fun e he => ?_) (by simp)
      (k, info) (mem_entries_iff.2 hin)
    obtain ⟨n, -, hn⟩ := mem_flatMap.1 he
    unfold RayNode.workers at hn
    split at hn
    · cases hn
    · obtain ⟨x, -, hx⟩ := mem_filterMap.1 hn
      obtain ⟨nodeId, -, rfl⟩ := Option.map_eq_some_iff.1 hx
      exact ⟨rfl, Int.natCast_nonneg _⟩
  · cases h

namespace Nodes

variable {nodes nodes' workerNodes : Nodes} {nodeId k : String} {info : NodeInfo} {numGpus : Int}

theorem get?_charge (nodes : Nodes) (nodeId k : String) (numGpus : Int) : (nodes.charge nodeId numGpus).get? k =
    if k = nodeId then (nodes.get? nodeId).map fun info =>
      { info with freeGpu := info.freeGpu - numGpus } else nodes.get? k := by
  unfold charge
  split
  · rename_i hno
    split
    · rename_i hk
      rw [hk, hno]
      rfl
    · rfl
  · rename_i info hso
    rw [get?_set, hso]
    rfl

theorem mem_keys_charge : k ∈ (nodes.charge nodeId numGpus).keys ↔ k ∈ nodes.keys := by
  rw [mem_keys_iff, mem_keys_iff, get?_charge]
  split
  · rename_i hk
    subst hk
    cases nodes.get? k with
    | none => simp
    | some info => simp
  · rfl

theorem get?_foldl_addUnknown (l : List (String × NodeInfo)) (nodes : Nodes) (k : String) :
    (l.foldl (fun d e => if (d.get? e.1).isSome then d else d.set e.1 e.2) nodes).get? k = (nodes.get? k).or (l.lookup k) := by
  induction l generalizing nodes with
  | nil => simp
  | cons e l ih =>
    obtain ⟨k', info⟩ := e
    rw [foldl_cons, ih]
    by_cases hk : k = k'
    · subst hk
      rw [lookup_cons, beq_self_eq_true]
      cases hget : nodes.get? k with
      | none => simp
      | some info' => simp [hget]
    · rw [lookup_cons, beq_false_of_ne hk]
      split
      · rfl
      · rw [get?_set_of_ne _ _ hk]

theorem get?_addUnknown (nodes workerNodes : Nodes) (k : String) :
    (nodes.addUnknown workerNodes).get? k = (nodes.get? k).or (workerNodes.get? k) :=
  get?_foldl_addUnknown workerNodes.entries nodes k

theorem get?_foldl_overwrite {l : List (String × NodeInfo)} (hnd : (l.map Prod.fst).Nodup) (nodes : Nodes) (k : String) :
    (l.foldl (fun d e => if (d.get? e.1).isSome then d.set e.1 e.2 else d) nodes).get? k =
      (nodes.get? k).map fun info => (l.lookup k).getD info := by
  induction l generalizing nodes with
  | nil => simp
  | cons e l ih =>
    obtain ⟨k', info⟩ := e
    rw [map_cons, nodup_cons] at hnd
    rw [foldl_cons, ih hnd.2]
    by_cases hk : k = k'
    · subst hk
      rw [lookup_cons, beq_self_eq_true, lookup_eq_none_iff.2 hnd.1]
      cases hget : nodes.get? k with
      | none => simp [hget]
      | some info' => simp
    · rw [lookup_cons, beq_false_of_ne hk]
      split
      · rw [get?_set_of_ne _ _ hk]
      · rfl

theorem get?_overwrite (nodes workerNodes : Nodes) (k : String) :
    (nodes.overwrite workerNodes).get? k = (nodes.get? k).map fun info => (workerNodes.get? k).getD info :=
  get?_foldl_overwrite workerNodes.nodup nodes k

theorem mem_keys_overwrite : k ∈ (nodes.overwrite workerNodes).keys ↔ k ∈ nodes.keys := by
  rw [mem_keys_iff, mem_keys_iff, get?_overwrite]
  cases nodes.get? k with
  | none => simp
  | some info => simp

def total? (nodes : Nodes) (k : String) : Option Int := (nodes.get? k).map NodeInfo.totalGpu

theorem total?_charge (nodes : Nodes) (nodeId k : String) (numGpus : Int) :
    (nodes.charge nodeId numGpus).total? k = nodes.total? k := by
  unfold total?
  rw [get?_charge]
  split
  · rename_i hk
    rw [hk, Option.map_map]
    rfl
  · rfl

theorem get?_charge_neg (nodes : Nodes) (nodeId k : String) (numGpus : Int) :
    ((nodes.charge nodeId numGpus).charge nodeId (-numGpus)).get? k = nodes.get? k := by
  rw [get?_charge, get?_charge, get?_charge]
  split
  · rename_i hk
    rw [hk, if_pos rfl, Option.map_map]
    cases nodes.get? nodeId with
    | none => rfl
    | some info => simp
  · rfl

theorem get?_overwrite_self (nodes : Nodes) (k : String) : (nodes.overwrite nodes).get? k = nodes.get? k := by
  rw [get?_overwrite]
  cases nodes.get? k with
  | none => rfl
  | some info => rfl

end Nodes

namespace Tables

variable {t : Tables} {r r' : Nat} {nodes : Nodes} {f : Nodes → Nodes}

@[simp] theorem current_replace (t : Tables) (nodes : Nodes) : (t.replace nodes).current = nodes := by
  unfold current table replace
  simp

theorem table_replace (h : r < t.made.length) : (t.replace nodes).table r = t.table r := by
  unfold table replace
  rw [getD_eq_getElem?_getD, getElem?_append_left h, getD_eq_getElem?_getD]

theorem table_modify_self (h : r < t.made.length) : (t.modify r f).table r = f (t.table r) := by
  unfold table modify
  rw [getD_eq_getElem?_getD, getElem?_modify_eq, getD_eq_getElem?_getD, getElem?_eq_getElem h]
  rfl

theorem table_modify_of_ne (h : r' ≠ r) : (t.modify r f).table r' = t.table r' := by
  have hother : (t.made.modify r f)[r']? = t.made[r']? := getElem?_modify_ne f t.made h.symm
  unfold table
  rw [getD_eq_getElem?_getD, getD_eq_getElem?_getD]
  exact congrArg (fun o => o.getD Dict.empty) hother

@[simp] theorem workerNodes_modify (t : Tables) (r : Nat) (f : Nodes → Nodes) : (t.modify r f).workerNodes =
    t.workerNodes := rfl

@[simp] theorem length_modify (t : Tables) (r : Nat) (f : Nodes → Nodes) : (t.modify r f).made.length = t.made.length :=
  List.length_modify _ _ _

end Tables

/-! ## Instances -/

namespace Accounts

variable {a a' : Accounts} {i : Instance} {modelName instanceId nodeId k : String} {numGpus : Int} {r : Nat} {f : Nat}
  {workerNodes : Nodes}

/-- The node that `model_instance` has for an instance. -/
def node? (a : Accounts) (modelName instanceId : String) : Option String :=
  (a.modelInstance.get? modelName).bind fun d => d.get? instanceId

/-- What every operation keeps. -/
structure Sound (a : Accounts) : Prop where
  names : (a.instances.map fun i => (i.modelName, i.instanceId)).Nodup
  futures : (a.instances.map Instance.allocationResult).Nodup
  created : ∀ i ∈ a.instances, i.allocationResult < a.created
  pending : ∀ f, a.created ≤ f → a.results.get? f = none
  recorded : ∀ i ∈ a.instances, i.returned = true →
    ∃ nodeId, a.results.get? i.allocationResult = some nodeId ∧ a.node? i.modelName i.instanceId = some nodeId
  located : ∀ i ∈ a.instances, ∀ nodeId, a.results.get? i.allocationResult = some nodeId → nodeId ∈ a.tables.current.keys
  own : a.tables.workerNodes < a.tables.made.length

/-- A request that waits is the one of an instance. -/
def Requested (a : Accounts) (r : LoadingRequest) : Prop :=
  a.results.get? r.allocationResult = none →
    ∃ i ∈ a.instances, i.allocationResult = r.allocationResult ∧ i.numGpus = r.numGpus

theorem sound_init : Sound init where
  names := nodup_nil
  futures := nodup_nil
  created := by rintro i ⟨⟩
  pending := fun _ _ => rfl
  recorded := by rintro i ⟨⟩
  located := by rintro i ⟨⟩
  own := Nat.zero_lt_one

theorem Sound.instances_nodup (hs : a.Sound) : a.instances.Nodup := hs.futures.of_map

theorem Sound.eq_of_future {j : Instance} (hs : a.Sound) (hi : i ∈ a.instances) (hj : j ∈ a.instances)
    (h : i.allocationResult = j.allocationResult) : i = j :=
  inj_on_of_nodup_map hs.futures hi hj h

theorem Sound.eq_of_name {j : Instance} (hs : a.Sound) (hi : i ∈ a.instances) (hj : j ∈ a.instances)
    (hmod : i.modelName = j.modelName) (hid : i.instanceId = j.instanceId) : i = j :=
  inj_on_of_nodup_map hs.names hi hj (Prod.ext hmod hid)

/-! ### `allocate_resource` -/

theorem placed_request (hs : a.Sound) (modelName instanceId : String) (numGpus : Int) :
    (a.request modelName instanceId numGpus).placed k = a.placed k := by
  have hnew : a.results.get? a.created = none := hs.pending _ (Nat.le_refl _)
  unfold placed request
  rw [heldAt_append, heldAt_cons, if_neg (by simp [hnew]), heldAt_nil]
  simp

theorem sound_request (hs : a.Sound) (hnew : ¬a.Known modelName instanceId) (numGpus : Int) :
    (a.request modelName instanceId numGpus).Sound where
  names := by
    unfold request
    rw [map_append, nodup_append]
    refine ⟨hs.names, by simp, ?_⟩
    rintro x hx y hy rfl
    obtain ⟨i, hi, rfl⟩ := mem_map.1 hx
    rw [map_singleton, mem_singleton, Prod.mk.injEq] at hy
    exact hnew ⟨i, hi, hy⟩
  futures := by
    unfold request
    rw [map_append, nodup_append]
    refine ⟨hs.futures, by simp, ?_⟩
    rintro x hx y hy rfl
    obtain ⟨i, hi, rfl⟩ := mem_map.1 hx
    have hlt := hs.created i hi
    rw [map_singleton, mem_singleton] at hy
    exact absurd hy (Nat.ne_of_lt hlt)
  created := by
    intro i hi
    rcases mem_append.1 hi with hi | hi
    · exact Nat.lt_succ_of_lt (hs.created i hi)
    · rw [mem_singleton.1 hi]
      exact Nat.lt_succ_self _
  pending := fun f hf => hs.pending f (Nat.le_of_succ_le hf)
  recorded := by
    intro i hi hret
    rcases mem_append.1 hi with hi | hi
    · exact hs.recorded i hi hret
    · rw [mem_singleton.1 hi] at hret
      cases hret
  located := by
    intro i hi nodeId hnod
    rcases mem_append.1 hi with hi | hi
    · exact hs.located i hi nodeId hnod
    · rw [mem_singleton.1 hi] at hnod
      have hno := hs.pending a.created (Nat.le_refl _)
      exact absurd (hno.symm.trans hnod) (by simp)
  own := hs.own

theorem placed_setResult (hs : a.Sound) (hi : i ∈ a.instances) (hno : a.results.get? i.allocationResult = none)
    (nodeId k : String) :
    (a.setResult i.allocationResult nodeId).placed k = a.placed k + if k = nodeId then i.numGpus else 0 := by
  refine heldAt_settle hs.instances_nodup hi hno (get?_set_self _ _ _) fun j hj hne => ?_
  exact get?_set_of_ne _ _ fun h => hne (hs.eq_of_future hj hi h)

theorem sound_setResult (hs : a.Sound) (hi : i ∈ a.instances) (hno : a.results.get? i.allocationResult = none)
    (hnod : nodeId ∈ a.tables.current.keys) : (a.setResult i.allocationResult nodeId).Sound where
  names := hs.names
  futures := hs.futures
  created := hs.created
  pending := by
    intro f hf
    have hlt := hs.created i hi
    have hne : f ≠ i.allocationResult := fun h => absurd (h ▸ hf : a.created ≤ i.allocationResult) (Nat.not_le.2 hlt)
    exact (get?_set_of_ne _ _ hne).trans (hs.pending f hf)
  recorded := by
    intro j hj hret
    obtain ⟨n, hn, hnod'⟩ := hs.recorded j hj hret
    have hne : j.allocationResult ≠ i.allocationResult := fun h => absurd ((h ▸ hn).symm.trans hno) (by simp)
    exact ⟨n, (get?_set_of_ne _ _ hne).trans hn, hnod'⟩
  located := by
    intro j hj n hn
    have hget : (a.results.set i.allocationResult nodeId).get? j.allocationResult = some n := hn
    rw [get?_set] at hget
    split at hget
    · cases hget
      exact hnod
    · exact hs.located j hj n hget
  own := hs.own

theorem resume_eq (h : a.resume i = some a') : i ∈ a.instances ∧ i.returned = false ∧
    ∃ nodeId, a.results.get? i.allocationResult = some nodeId ∧ a' = { a with
      modelInstance := a.record i.modelName i.instanceId nodeId
      instances := a.instances.map fun j => if j = i then { i with returned := true } else j } := by
  unfold resume at h
  split at h
  · rename_i hi
    obtain ⟨nodeId, hnod, rfl⟩ := Option.map_eq_some_iff.1 h
    exact ⟨hi.1, hi.2, nodeId, hnod, rfl⟩
  · cases h

theorem node?_record (a : Accounts) (modelName instanceId nodeId m n : String) :
    ((a.record modelName instanceId nodeId).get? m).bind (fun d => d.get? n) =
      if m = modelName ∧ n = instanceId then some nodeId else a.node? m n :=
  get?_set_nested a.modelInstance modelName m instanceId n nodeId

theorem map_resumed {β : Type} (g : Instance → β) (hg : g { i with returned := true } = g i) (l : List Instance) :
    (l.map fun j => if j = i then { i with returned := true } else j).map g = l.map g := by
  rw [map_map]
  refine map_congr_left ?_
  intro j _
  rw [Function.comp_apply]
  split
  · rename_i hj
    rw [hj]
    exact hg
  · rfl

theorem mem_resumed {j : Instance} {l : List Instance}
    (h : j ∈ l.map fun j => if j = i then { i with returned := true } else j) :
    (i ∈ l ∧ j = { i with returned := true }) ∨ (j ∈ l ∧ j ≠ i) := by
  obtain ⟨j', hj', rfl⟩ := mem_map.1 h
  split
  · rename_i hj
    exact .inl ⟨hj ▸ hj', rfl⟩
  · rename_i hj
    exact .inr ⟨hj', hj⟩

theorem placed_resume (h : a.resume i = some a') : a'.placed k = a.placed k := by
  obtain ⟨-, -, nodeId, -, rfl⟩ := resume_eq h
  refine congrArg sum ?_
  exact map_resumed (fun j => if a.results.get? j.allocationResult = some k then j.numGpus else 0) rfl a.instances

theorem sound_resume (hs : a.Sound) (h : a.resume i = some a') : a'.Sound := by
  obtain ⟨hi, hret, nodeId, hnod, rfl⟩ := resume_eq h
  constructor
  case names => exact (map_resumed (fun j => (j.modelName, j.instanceId)) rfl a.instances).symm ▸ hs.names
  case futures => exact (map_resumed Instance.allocationResult rfl a.instances).symm ▸ hs.futures
  case created =>
    intro j hj
    rcases mem_resumed hj with ⟨-, rfl⟩ | ⟨hj, -⟩
    · exact hs.created i hi
    · exact hs.created j hj
  case pending => exact hs.pending
  case recorded =>
    intro j hj hret
    rcases mem_resumed hj with ⟨-, rfl⟩ | ⟨hj, hne⟩
    · exact ⟨nodeId, hnod, (node?_record a _ _ _ _ _).trans (if_pos ⟨rfl, rfl⟩)⟩
    · obtain ⟨n, hn, hnod'⟩ := hs.recorded j hj hret
      refine ⟨n, hn, (node?_record a _ _ _ _ _).trans ((if_neg ?_).trans hnod')⟩
      exact fun hnm => hne (hs.eq_of_name hj hi hnm.1 hnm.2)
  case located =>
    intro j hj n hn
    rcases mem_resumed hj with ⟨-, rfl⟩ | ⟨hj, -⟩
    · exact hs.located i hi n hn
    · exact hs.located j hj n hn
  case own => exact hs.own

/-! ### `deallocate_resource` -/

theorem deallocate_eq (hs : a.Sound) (h : a.deallocate i = some a') : i ∈ a.instances ∧ i.returned = true ∧
    ∃ nodeId d, a.results.get? i.allocationResult = some nodeId ∧ a.modelInstance.get? i.modelName = some d ∧
      a' = { a with
        modelInstance := a.modelInstance.set i.modelName (d.erase i.instanceId)
        instances := a.instances.erase i
        tables := a.tables.modify a.tables.workerNodes fun nodes => nodes.charge nodeId (-i.numGpus) } := by
  unfold deallocate at h
  split at h
  · rename_i hi
    obtain ⟨nodeId, hrs, hnod⟩ := hs.recorded i hi.1 hi.2
    obtain ⟨d, hd, hget⟩ := Option.bind_eq_some_iff.1 hnod
    obtain ⟨info, hin⟩ := mem_keys_iff.1 (hs.located i hi.1 nodeId hrs)
    refine ⟨hi.1, hi.2, nodeId, d, hrs, hd, ?_⟩
    rw [← Option.some.inj h]
    unfold deallocateResource
    simp only [hd, hget, hin, Option.isNone_some, Bool.false_eq_true, if_false]
    rfl
  · cases h

theorem placed_deallocate (hs : a.Sound) (h : a.deallocate i = some a')
    (hnod : a.results.get? i.allocationResult = some nodeId) :
    a'.placed k + (if k = nodeId then i.numGpus else 0) = a.placed k := by
  obtain ⟨hi, -, n, d, -, -, rfl⟩ := deallocate_eq hs h
  exact heldAt_erase hi hnod

theorem sound_deallocate (hs : a.Sound) (h : a.deallocate i = some a') : a'.Sound := by
  obtain ⟨hi, hret, nodeId, d, hnod, hd, rfl⟩ := deallocate_eq hs h
  have hmem : ∀ {j}, j ∈ a.instances.erase i → j ∈ a.instances := fun hj => mem_of_mem_erase hj
  constructor
  case names => exact hs.names.sublist (erase_sublist.map _)
  case futures => exact hs.futures.sublist (erase_sublist.map _)
  case created => exact fun j hj => hs.created j (hmem hj)
  case pending => exact hs.pending
  case recorded =>
    intro j hj hret
    obtain ⟨n, hn, hnod'⟩ := hs.recorded j (hmem hj) hret
    have hne : j ≠ i := by
      rintro rfl
      exact hs.instances_nodup.not_mem_erase hj
    have hnm : ¬(j.modelName = i.modelName ∧ j.instanceId = i.instanceId) :=
      fun hnm => hne (hs.eq_of_name (hmem hj) hi hnm.1 hnm.2)
    exact ⟨n, hn, (get?_erase_nested a.modelInstance _ _ _ _ hd).trans ((if_neg hnm).trans hnod')⟩
  case located =>
    intro j hj n hn
    unfold current
    rw [workerNodes_modify, table_modify_self hs.own, mem_keys_charge]
    exact hs.located j (hmem hj) n hn
  case own => exact (Tables.length_modify _ _ _).symm ▸ hs.own

/-! ### Node tables -/

theorem sound_tables (hs : a.Sound) {t : Tables} (hks : ∀ k ∈ a.tables.current.keys, k ∈ t.current.keys)
    (hown : t.workerNodes < t.made.length) : Sound { a with tables := t } where
  names := hs.names
  futures := hs.futures
  created := hs.created
  pending := hs.pending
  recorded := hs.recorded
  located := fun i hi nodeId hnod => hks _ (hs.located i hi nodeId hnod)
  own := hown

theorem current_charge (hs : a.Sound) (r : Nat) (nodeId : String) (numGpus : Int) : (a.charge r nodeId numGpus).tables.current =
    if a.tables.workerNodes = r then a.tables.current.charge nodeId numGpus else a.tables.current := by
  unfold charge current
  rw [workerNodes_modify]
  split
  · rename_i hr
    rw [← hr, table_modify_self hs.own]
  · rename_i hr
    rw [table_modify_of_ne hr]

theorem sound_charge (hs : a.Sound) (r : Nat) (nodeId : String) (numGpus : Int) : (a.charge r nodeId numGpus).Sound := by
  refine sound_tables hs ?_ ((Tables.length_modify _ _ _).symm ▸ hs.own)
  intro k hk
  have hcur := current_charge hs r nodeId numGpus
  unfold charge at hcur
  rw [hcur]
  split
  · exact mem_keys_charge.2 hk
  · exact hk

theorem mem_keys_getWorkerNodes (hk : k ∈ a.tables.current.keys) : k ∈ (a.getWorkerNodes workerNodes).tables.current.keys := by
  unfold getWorkerNodes Tables.getWorkerNodes
  rw [current_replace, mem_keys_iff, get?_addUnknown]
  obtain ⟨info, hin⟩ := mem_keys_iff.1 hk
  exact ⟨info, by rw [hin]; rfl⟩

theorem own_replace (t : Tables) (nodes : Nodes) : (t.replace nodes).workerNodes < (t.replace nodes).made.length := by
  unfold Tables.replace
  simp

theorem sound_getWorkerNodes (hs : a.Sound) (workerNodes : Nodes) : (a.getWorkerNodes workerNodes).Sound :=
  sound_tables hs (fun _ hk => mem_keys_getWorkerNodes hk) (own_replace _ _)

theorem sound_updateWorkerNodes (hs : a.Sound) (r : Nat) : (a.updateWorkerNodes r).Sound := by
  refine sound_tables hs ?_ (own_replace _ _)
  intro k hk
  unfold Tables.updateWorkerNodes
  rw [current_replace]
  exact mem_keys_overwrite.2 hk

/-! ### Requests -/

theorem requested_request {q : LoadingRequest} (h : a.Requested q) : (a.request modelName instanceId numGpus).Requested q := by
  intro hno
  obtain ⟨i, hi, hfld⟩ := h hno
  exact ⟨i, mem_append_left _ hi, hfld⟩

theorem requested_request_self (a : Accounts) (requestTime : ℚ) :
    (a.request modelName instanceId numGpus).Requested ⟨requestTime, numGpus, a.created⟩ := by
  intro _
  exact ⟨_, mem_append_right _ mem_cons_self, rfl, rfl⟩

theorem requested_setResult {q : LoadingRequest} (h : a.Requested q) : (a.setResult f nodeId).Requested q := by
  intro hno
  have hget : (a.results.set f nodeId).get? q.allocationResult = none := hno
  rw [get?_set] at hget
  split at hget
  · cases hget
  · exact h hget

theorem requested_resume {q : LoadingRequest} (h : a.Requested q) (hrsm : a.resume i = some a') : a'.Requested q := by
  obtain ⟨-, -, nodeId, -, rfl⟩ := resume_eq hrsm
  intro hno
  obtain ⟨j, hj, hfld⟩ := h hno
  refine ⟨_, mem_map_of_mem hj, ?_⟩
  split
  · rename_i heq
    exact heq ▸ hfld
  · exact hfld

theorem requested_deallocate {q : LoadingRequest} (hs : a.Sound) (h : a.Requested q) (hdea : a.deallocate i = some a') :
    a'.Requested q := by
  obtain ⟨hi, -, nodeId, d, hnod, -, rfl⟩ := deallocate_eq hs hdea
  intro hno
  obtain ⟨j, hj, hfld⟩ := h hno
  have hne : j ≠ i := by
    rintro rfl
    exact absurd ((hfld.1 ▸ hnod).symm.trans hno) (by simp)
  exact ⟨j, (mem_erase_of_ne hne).2 hj, hfld⟩

/-! ### Balance -/

theorem BalancedIn.of_get? {nodes nodes' : Nodes} (h : a.BalancedIn nodes) (hget : ∀ k, nodes'.get? k = nodes.get? k) :
    a.BalancedIn nodes' := fun k info hin => h k info ((hget k).symm.trans hin)

theorem BalancedIn.of_placed {nodes : Nodes} (h : a.BalancedIn nodes) (hpla : ∀ k, a'.placed k = a.placed k) :
    a'.BalancedIn nodes := by
  intro k info hin
  rw [hpla k]
  exact h k info hin

theorem BalancedIn.charge {nodes : Nodes} (h : a.BalancedIn nodes)
    (hpla : ∀ k, a'.placed k = a.placed k + if k = nodeId then numGpus else 0) :
      a'.BalancedIn (nodes.charge nodeId numGpus) := by
  intro k info hin
  rw [get?_charge] at hin
  rw [hpla k]
  split at hin
  · rename_i hk
    subst hk
    obtain ⟨info', hin', rfl⟩ := Option.map_eq_some_iff.1 hin
    have hbal := h k info' hin'
    rw [if_pos rfl]
    simp only
    omega
  · rename_i hk
    have hbal := h k info hin
    rw [if_neg hk]
    omega

theorem balancedIn_charge_iff {nodes : Nodes} (hpla : ∀ k, a'.placed k = a.placed k + if k = nodeId then numGpus else 0) :
    a'.BalancedIn (nodes.charge nodeId numGpus) ↔ a.BalancedIn nodes := by
  refine ⟨?_, fun h => h.charge hpla⟩
  intro h
  refine (BalancedIn.charge h fun k => ?_).of_get? fun k => (get?_charge_neg nodes nodeId k numGpus).symm
  rw [hpla k]
  split
  · omega
  · omega

theorem BalancedIn.addUnknown {nodes : Nodes} (h : a.BalancedIn nodes) (hnew : ∀ k, k ∉ nodes.keys → a.placed k = 0)
    (hfe : ∀ k info, workerNodes.get? k = some info → info.freeGpu = info.totalGpu) :
    a.BalancedIn (nodes.addUnknown workerNodes) := by
  intro k info hin
  rw [get?_addUnknown] at hin
  cases hget : nodes.get? k with
  | none =>
    rw [hget, Option.none_or] at hin
    rw [hnew k (get?_eq_none_iff.1 hget), hfe k info hin, add_zero]
  | some info' =>
    rw [hget, Option.some_or] at hin
    exact h k info (hget.trans hin)

theorem Sound.placed_eq_zero (hs : a.Sound) (hk : k ∉ a.tables.current.keys) : a.placed k = 0 :=
  heldAt_eq_zero fun i hi hnod => hk (hs.located i hi k hnod)

theorem balanced_deallocate (hs : a.Sound) (hb : a.Balanced) (h : a.deallocate i = some a') : a'.Balanced := by
  obtain ⟨-, -, nodeId, d, hnod, -, heq⟩ := deallocate_eq hs h
  have hcur : a'.tables.current = a.tables.current.charge nodeId (-i.numGpus) := by
    subst heq
    exact table_modify_self hs.own
  unfold Balanced
  rw [hcur]
  refine hb.charge ?_
  intro k
  have hpla := placed_deallocate (k := k) hs h hnod
  by_cases hk : k = nodeId
  · rw [if_pos hk] at hpla ⊢
    exact eq_add_neg_of_add_eq hpla
  · rw [if_neg hk, add_zero] at hpla ⊢
    exact hpla

theorem current_getWorkerNodes (a : Accounts) (workerNodes : Nodes) :
    (a.getWorkerNodes workerNodes).tables.current = a.tables.current.addUnknown workerNodes := current_replace _ _

theorem balanced_getWorkerNodes (hs : a.Sound) (hb : a.Balanced) {rayNodes : List RayNode}
    (h : Schedulers.getWorkerNodes rayNodes = some workerNodes) : (a.getWorkerNodes workerNodes).Balanced := by
  unfold Balanced
  rw [current_getWorkerNodes]
  exact BalancedIn.addUnknown hb (fun k hk => hs.placed_eq_zero hk) fun k info hin => (free_getWorkerNodes h hin).1

end Accounts

end ServerlessLLM.Schedulers
