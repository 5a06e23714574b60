import Mathlib.Data.List.GetD
import ServerlessLLM.Library.Runs
import ServerlessLLM.Schedulers.Planning

/-!
# When the planning finds a migration

A cell that no set of instances reaches has no stores, and asking such a cell for a target raises, which ends the planning.
-/

namespace ServerlessLLM.Schedulers.Planning

open List Option Except Prod
open Outcome (bind_eq_ok)

/-! ## What a plan has to do -/

def gpusTo (placed : List (InstanceStatus × String)) (nodeId : String) : Int :=
  ((placed.filter fun e => e.2 = nodeId).map fun e => e.1.numGpu).sum

/-- Instances with their targets: they have the GPUs that are missing, each is used once, and the targets, which are other
nodes, have the free GPUs for those that they get. -/
structure Relieves (instances : List InstanceStatus) (gpuShortage : Nat) (sourceNodeId : String) (workerNodes : Nodes)
    (placed : List (InstanceStatus × String)) : Prop where
  enough : (gpuShortage : Int) ≤ (placed.map fun e => e.1.numGpu).sum
  once : (placed.map fst).Sublist instances
  targets : ∀ e ∈ placed, e.2 ≠ sourceNodeId ∧ ∃ info, workerNodes.get? e.2 = some info ∧ gpusTo placed e.2 ≤ info.freeGpu

def MigrationPlans.placed (p : MigrationPlans) : List (InstanceStatus × String) :=
  p.plans.map fun plan => (plan.sourceInstance, plan.targetNodeId)

/-- A plan is found when there is one, and what is found is one. -/
structure PlansWell (instances : List InstanceStatus) (gpuShortage : Nat) (sourceNodeId : String) (workerNodes : Nodes)
    (result : Option MigrationPlans) : Prop where
  found : (∃ placed, Relieves instances gpuShortage sourceNodeId workerNodes placed) → ∃ plans, result = some plans
  sound : ∀ plans, result = some plans → (gpuShortage : Int) ≤ plans.evictedGPUs ∧
    Relieves instances gpuShortage sourceNodeId workerNodes plans.placed

/-! ## Which plans are found -/

section Tables

variable (sourceNodeId : String) (workerNodes : Nodes) (modelInfo : Dict String ℚ) (hardwareInfo : HardwareInfo)

def LoadKnown (modelName : Option String) (storeInfo : StoreInfo) (nodeId : String) : Prop :=
  ∃ name size hardware store bandwidth, modelName = some name ∧ modelInfo.get? name = some size ∧
    hardwareInfo.get? nodeId = some hardware ∧ storeInfo.get? nodeId = some store ∧
    hardware.get? (if name ∈ store.pinnedMemoryPool then "pcie_bandwidth" else "disk_bandwidth") =
      some bandwidth ∧ bandwidth ≠ 0

def HasRoom (numGpu : Int) (e : String × NodeInfo) : Prop := e.1 ≠ sourceNodeId ∧ e.2.freeGpu ≥ numGpu

/-- Some other node has enough free GPUs for an instance, and for all of them the loading time can be computed. -/
def TargetKnown (storeInfo : StoreInfo) (x : InstanceStatus) : Prop :=
  (∃ e ∈ workerNodes.entries, HasRoom sourceNodeId x.numGpu e) ∧
    ∀ e ∈ workerNodes.entries, HasRoom sourceNodeId x.numGpu e → LoadKnown modelInfo hardwareInfo x.modelName storeInfo e.1

/-- Some instance has exactly the GPUs that are missing; so has every one that does not have more, except for one without GPUs
behind one with the one GPU that is missing; and all of these have a target. -/
structure ExactInstances (storeInfo : StoreInfo) (gpuShortage : Nat) (instances : List InstanceStatus) : Prop where
  exact : ∃ x ∈ instances, x.numGpu = gpuShortage
  all : ∀ before x after, instances = before ++ x :: after → x.numGpu ≤ (gpuShortage : Int) →
    TargetKnown sourceNodeId workerNodes modelInfo hardwareInfo storeInfo x ∧
      (x.numGpu = gpuShortage ∨ gpuShortage = 1 ∧ x.numGpu = 0 ∧ ∃ y ∈ before, y.numGpu = 1)

variable {sourceNodeId workerNodes modelInfo hardwareInfo} {storeInfo storeInfo' : StoreInfo}

/-- Two tables of stores differ in the waiting times at most. -/
def SameStores (storeInfo storeInfo' : StoreInfo) : Prop :=
  ∀ nodeId, (storeInfo.get? nodeId).map NodeStore.pinnedMemoryPool = (storeInfo'.get? nodeId).map NodeStore.pinnedMemoryPool

theorem SameStores.refl (storeInfo : StoreInfo) : SameStores storeInfo storeInfo := fun _ => rfl

variable {nodeId : String} {modelName : Option String} {numGpu : Int} {l : List (String × NodeInfo)}
  {candidates : List (String × ℚ)} {x : InstanceStatus}

theorem SameStores.set (h : SameStores storeInfo storeInfo') {store : NodeStore}
    (hsr : storeInfo'.get? nodeId = some store) (waitingTime : ℚ) :
    SameStores storeInfo (storeInfo'.set nodeId { store with waitingTime := waitingTime }) := by
  intro n
  rw [h n, Dict.get?_set]
  split
  · rename_i hn
    rw [hn, hsr]
    rfl
  · rfl

theorem LoadKnown.of_same (h : SameStores storeInfo storeInfo')
    (hk : LoadKnown modelInfo hardwareInfo modelName storeInfo nodeId) :
      LoadKnown modelInfo hardwareInfo modelName storeInfo' nodeId := by
  obtain ⟨name, size, hardware, store, bandwidth, hnm, hsz, hhw, hsr, hbw, hne⟩ := hk
  have hsa := h nodeId
  rw [hsr, map_some, eq_comm, map_eq_some_iff] at hsa
  obtain ⟨store', hsr', hpo⟩ := hsa
  exact ⟨name, size, hardware, store', bandwidth, hnm, hsz, hhw, hsr', by rwa [hpo], hne⟩

theorem SameStores.symm (h : SameStores storeInfo storeInfo') : SameStores storeInfo' storeInfo := fun n => (h n).symm

theorem lookup_eq_ok {ν : Type} {d : Dict String ν} {k : String} {v : ν} : lookup d k = .ok v ↔ d.get? k = some v := by
  unfold lookup
  cases d.get? k <;> simp

theorem divide_eq_ok {a b q : ℚ} : divide a b = .ok q ↔ b ≠ 0 ∧ a / b = q := by
  unfold divide
  by_cases hb : b = 0
  · simp [hb]
  · simp [hb]

theorem loadingTime_ok_iff : (∃ time, loadingTime modelInfo hardwareInfo modelName (some storeInfo) nodeId = .ok time) ↔
      LoadKnown modelInfo hardwareInfo modelName storeInfo nodeId := by
  cases modelName with
  | none =>
    constructor
    · rintro ⟨_, h⟩
      cases h
    · rintro ⟨name, -, -, -, -, hnm, -⟩
      cases hnm
  | some name =>
    simp only [loadingTime, getModelLoadingTime, bind_eq_ok, lookup_eq_ok]
    constructor
    · rintro ⟨time, size, hsz, hardware, hhardware, store, hsr, htime⟩
      split at htime
      · rename_i hpo
        simp only [bind_eq_ok, lookup_eq_ok, divide_eq_ok] at htime
        obtain ⟨bandwidth, hbw, q, ⟨hne, -⟩, -⟩ := htime
        exact ⟨name, size, hardware, store, bandwidth, rfl, hsz, hhardware, hsr, by rwa [if_neg hpo], hne⟩
      · rename_i hpo
        simp only [bind_eq_ok, lookup_eq_ok, divide_eq_ok] at htime
        obtain ⟨bandwidth, hbw, hne, -⟩ := htime
        exact ⟨name, size, hardware, store, bandwidth, rfl, hsz, hhardware, hsr, by rwa [if_pos (not_not.1 hpo)], hne⟩
    · rintro ⟨name', size, hardware, store, bandwidth, ⟨⟩, hsz, hhardware, hsr, hbw, hne⟩
      by_cases hpo : name ∈ store.pinnedMemoryPool
      · rw [if_pos hpo] at hbw
        refine ⟨size / bandwidth, size, hsz, hardware, hhardware, store, hsr, ?_⟩
        rw [if_neg (not_not.2 hpo)]
        exact bind_eq_ok.2 ⟨bandwidth, lookup_eq_ok.2 hbw, divide_eq_ok.2 ⟨hne, rfl⟩⟩
      · rw [if_neg hpo] at hbw
        refine ⟨store.waitingTime + size / bandwidth, size, hsz, hardware, hhardware, store, hsr, ?_⟩
        rw [if_pos hpo]
        exact bind_eq_ok.2 ⟨bandwidth, lookup_eq_ok.2 hbw, bind_eq_ok.2 ⟨_, divide_eq_ok.2 ⟨hne, rfl⟩, rfl⟩⟩

theorem loadingTime_none {time : ℚ} : loadingTime modelInfo hardwareInfo modelName none nodeId ≠ .ok time := by
  intro h
  cases modelName with
  | none => cases h
  | some name =>
    simp only [loadingTime, bind_eq_ok] at h
    obtain ⟨size, -, hardware, -, h⟩ := h
    cases h

theorem candidatePlans_cons {stores : Option StoreInfo} {e : String × NodeInfo} :
    candidatePlans sourceNodeId modelInfo hardwareInfo modelName numGpu stores (e :: l) = .ok candidates ↔
      (HasRoom sourceNodeId numGpu e ∧ ∃ time rest, loadingTime modelInfo hardwareInfo modelName stores e.1 = .ok time ∧
        candidatePlans sourceNodeId modelInfo hardwareInfo modelName numGpu stores l = .ok rest ∧
          candidates = (e.1, time) :: rest) ∨
      (¬HasRoom sourceNodeId numGpu e ∧
        candidatePlans sourceNodeId modelInfo hardwareInfo modelName numGpu stores l = .ok candidates) := by
  rw [candidatePlans]
  by_cases hro : HasRoom sourceNodeId numGpu e
  · rw [if_pos (show e.1 ≠ sourceNodeId ∧ e.2.freeGpu ≥ numGpu from hro)]
    simp only [bind_eq_ok, hro, true_and, not_true_eq_false, false_and, or_false]
    constructor
    · rintro ⟨time, htime, rest, hrs, h⟩
      exact ⟨time, rest, htime, hrs, (ok.inj h).symm⟩
    · rintro ⟨time, rest, htime, hrs, rfl⟩
      exact ⟨time, htime, rest, hrs, rfl⟩
  · rw [if_neg (show ¬(e.1 ≠ sourceNodeId ∧ e.2.freeGpu ≥ numGpu) from hro)]
    simp [hro]

theorem candidatePlans_none
    (h : candidatePlans sourceNodeId modelInfo hardwareInfo modelName numGpu none l = .ok candidates) : candidates = [] := by
  induction l with
  | nil => exact (ok.inj h).symm
  | cons e l ih =>
    rcases candidatePlans_cons.1 h with ⟨-, time, rest, htime, -⟩ | ⟨-, hrs⟩
    · exact absurd htime loadingTime_none
    · exact ih hrs

theorem candidatePlans_ok_iff :
    (∃ candidates, candidatePlans sourceNodeId modelInfo hardwareInfo modelName numGpu (some storeInfo) l = .ok candidates) ↔
      ∀ e ∈ l, HasRoom sourceNodeId numGpu e → LoadKnown modelInfo hardwareInfo modelName storeInfo e.1 := by
  induction l with
  | nil => simp [candidatePlans]
  | cons e l ih =>
    rw [forall_mem_cons, ← ih]
    simp only [candidatePlans_cons, ← loadingTime_ok_iff]
    constructor
    · rintro ⟨candidates, ⟨-, time, rest, htime, hrs, -⟩ | ⟨hro, hrs⟩⟩
      · exact ⟨fun _ => ⟨time, htime⟩, rest, hrs⟩
      · exact ⟨fun h => absurd h hro, candidates, hrs⟩
    · rintro ⟨htime, rest, hrs⟩
      by_cases hro : HasRoom sourceNodeId numGpu e
      · obtain ⟨time, htime⟩ := htime hro
        exact ⟨_, .inl ⟨hro, time, rest, htime, hrs, rfl⟩⟩
      · exact ⟨rest, .inr ⟨hro, hrs⟩⟩

theorem mem_candidatePlans
    (h : candidatePlans sourceNodeId modelInfo hardwareInfo modelName numGpu (some storeInfo) l = .ok candidates)
      (nodeId : String) :
    nodeId ∈ candidates.map fst ↔ ∃ e ∈ l, HasRoom sourceNodeId numGpu e ∧ e.1 = nodeId := by
  induction l generalizing candidates with
  | nil =>
    obtain rfl : [] = candidates := ok.inj h
    simp
  | cons e l ih =>
    rcases candidatePlans_cons.1 h with ⟨hro, time, rest, -, hrs, rfl⟩ | ⟨hro, hrs⟩
    · simp [ih hrs, hro, eq_comm]
    · simp [ih hrs, hro]

theorem getMigrationTarget_some (h : TargetKnown sourceNodeId workerNodes modelInfo hardwareInfo storeInfo x) :
    ∃ e ∈ workerNodes.entries, ∃ time, HasRoom sourceNodeId x.numGpu e ∧
      LoadKnown modelInfo hardwareInfo x.modelName storeInfo e.1 ∧
      getMigrationTarget sourceNodeId modelInfo hardwareInfo x.modelName x.numGpu workerNodes (some storeInfo) =
        .ok (some (e.1, time)) := by
  obtain ⟨candidates, hcan⟩ := candidatePlans_ok_iff.2 h.2
  obtain ⟨e0, he0, hro0⟩ := h.1
  have hne : candidates ≠ [] := by
    rintro rfl
    simpa using (mem_candidatePlans hcan e0.1).2 ⟨e0, he0, hro0, rfl⟩
  obtain ⟨best, hb⟩ : ∃ best, (candidates.insertionSort fun a b => a.2 ≤ b.2).head? = some best := by
    refine ne_none_iff_exists'.1 fun hno => hne ?_
    have hpm := perm_insertionSort (fun a b : String × ℚ => a.2 ≤ b.2) candidates
    rw [head?_eq_none_iff.1 hno] at hpm
    exact nil_perm.1 hpm
  have hmem : best ∈ candidates := (perm_insertionSort (fun a b : String × ℚ => a.2 ≤ b.2) candidates).subset (mem_of_head? hb)
  obtain ⟨e, he, hro, hid⟩ := (mem_candidatePlans hcan best.1).1 (mem_map_of_mem hmem)
  refine ⟨e, he, best.2, hro, h.2 e he hro, ?_⟩
  rw [getMigrationTarget, bind_eq_ok]
  exact ⟨candidates, hcan, by rw [hb, hid]; rfl⟩

theorem getMigrationTarget_not
    (h : ¬TargetKnown sourceNodeId workerNodes modelInfo hardwareInfo storeInfo x) {target : Option (String × ℚ)}
    (htgt : getMigrationTarget sourceNodeId modelInfo hardwareInfo x.modelName x.numGpu workerNodes
      (some storeInfo) = .ok target) :
    target = none := by
  rw [getMigrationTarget, bind_eq_ok] at htgt
  obtain ⟨candidates, hcan, hhead⟩ := htgt
  have hall := candidatePlans_ok_iff.1 ⟨candidates, hcan⟩
  have hnil : candidates = [] := by
    rw [← map_eq_nil_iff (f := fst), eq_nil_iff_forall_not_mem]
    intro nodeId hmem
    obtain ⟨e, he, hro, -⟩ := (mem_candidatePlans hcan nodeId).1 hmem
    exact h ⟨⟨e, he, hro⟩, hall⟩
  subst hnil
  exact (ok.inj hhead).symm

theorem getMigrationTarget_none {target : Option (String × ℚ)}
    (htgt : getMigrationTarget sourceNodeId modelInfo hardwareInfo x.modelName x.numGpu workerNodes none = .ok target) :
    target = none := by
  rw [getMigrationTarget, bind_eq_ok] at htgt
  obtain ⟨candidates, hcan, hhead⟩ := htgt
  obtain rfl := candidatePlans_none hcan
  exact (ok.inj hhead).symm

/-! ## The cells -/

/-- A cell that holds plans for exactly `c` GPUs: at most one instance of them has GPUs at all. -/
structure Reached (sourceNodeId : String) (workerNodes : Nodes) (storeInfo : StoreInfo) (done : List InstanceStatus) (c : Nat)
    (cell : MigrationPlans) : Prop where
  latency : cell.totalLatency ≠ none
  stores : ∃ stores, cell.storeInfo = some stores ∧ SameStores storeInfo stores
  evicted : cell.evictedGPUs = c
  sources : (cell.placed.map fst).Sublist done
  targets : ∀ e ∈ cell.placed, e.2 ≠ sourceNodeId ∧ ∃ info, workerNodes.get? e.2 = some info ∧ e.1.numGpu ≤ info.freeGpu
  single : ((cell.placed.map fun e => e.1.numGpu).filter fun n => n ≠ 0) = if c = 0 then [] else [(c : Int)]

variable {done : List InstanceStatus} {c j gpuShortage : Nat} {cell before : MigrationPlans} {row : List MigrationPlans}
  {x : InstanceStatus} {filled : Bool}

theorem Reached.mono (h : Reached sourceNodeId workerNodes storeInfo done c cell) (x : InstanceStatus) :
    Reached sourceNodeId workerNodes storeInfo (done ++ [x]) c cell :=
  ⟨h.latency, h.stores, h.evicted, h.sources.trans (sublist_append_left _ _), h.targets, h.single⟩

theorem Reached.append (h : Reached sourceNodeId workerNodes storeInfo done c before) (hsum : (c : Int) + x.numGpu = j)
    (hone : x.numGpu = 0 ∨ c = 0) {e : String × NodeInfo} (he : e ∈ workerNodes.entries) (hro : HasRoom sourceNodeId x.numGpu e)
    (latency : ℚ) {stores : StoreInfo} (hstores : SameStores storeInfo stores) :
    Reached sourceNodeId workerNodes storeInfo (done ++ [x]) j
      { before.append ⟨e.1, x⟩ (some latency) with storeInfo := some stores } := by
  have hpla : MigrationPlans.placed { before.append ⟨e.1, x⟩ (some latency) with storeInfo := some stores } =
      before.placed ++ [(x, e.1)] := by
    simp [MigrationPlans.placed, MigrationPlans.append]
  refine ⟨by simp [MigrationPlans.append], ⟨stores, rfl, hstores⟩, ?_, ?_, ?_, ?_⟩
  · simp only [MigrationPlans.append, h.evicted]
    exact hsum
  · rw [hpla, map_append]
    exact h.sources.append (List.Sublist.refl _)
  · rw [hpla]
    intro d hd
    rcases mem_append.1 hd with hd | hd
    · exact h.targets d hd
    · rw [mem_singleton.1 hd]
      exact ⟨hro.1, e.2, Dict.mem_entries_iff.1 he, hro.2⟩
  · rw [hpla, map_append, filter_append, h.single]
    rcases hone with hzero | rfl
    · obtain rfl : c = j := by omega
      simp [hzero]
    · have hj : x.numGpu = j := by omega
      by_cases hj0 : j = 0
      · simp [hj, hj0]
      · simp [hj, hj0]

theorem planCell_unchanged (h : (j : Int) < x.numGpu) :
    planCell sourceNodeId modelInfo hardwareInfo workerNodes x row j = .ok (row.getD j .init) := by
  unfold planCell
  dsimp only
  rw [if_neg (not_le.2 h)]

theorem planCell_reached (hbef : row[(j - x.numGpu).toNat]? = some before)
    (hr : Reached sourceNodeId workerNodes storeInfo done c before) (hsum : (c : Int) + x.numGpu = j)
    (hone : x.numGpu = 0 ∨ c = 0)
    (hwo : row.getD j .init = .init ∨ Reached sourceNodeId workerNodes storeInfo done j (row.getD j .init))
    (hk : TargetKnown sourceNodeId workerNodes modelInfo hardwareInfo storeInfo x) :
    ∃ cell, planCell sourceNodeId modelInfo hardwareInfo workerNodes x row j = .ok cell ∧
      Reached sourceNodeId workerNodes storeInfo (done ++ [x]) j cell := by
  obtain ⟨stores, hstores, hsa⟩ := hr.stores
  have hk' : TargetKnown sourceNodeId workerNodes modelInfo hardwareInfo stores x :=
    ⟨hk.1, fun e he hro => (hk.2 e he hro).of_same hsa⟩
  obtain ⟨e, he, time, hro, ⟨-, -, -, store, -, -, -, -, hsr, -⟩, htgt⟩ := getMigrationTarget_some hk'
  obtain ⟨latency, hlatency⟩ := ne_none_iff_exists'.1 hr.latency
  unfold planCell
  dsimp only
  rw [if_pos (show (j : Int) ≥ x.numGpu by omega), hbef]
  simp only [hstores, htgt, hlatency, map_some, bind, Except.bind]
  by_cases hlt : latencyLt (some (x.resumingLatency.getD 0 + time + latency)) (row.getD j .init).totalLatency = true
  · rw [if_pos hlt, hsr]
    exact ⟨_, rfl, hr.append hsum hone he hro _ (hsa.set hsr _)⟩
  · rw [if_neg hlt]
    refine ⟨_, rfl, ?_⟩
    rcases hwo with hinit | hrch
    · rw [hinit] at hlt
      exact absurd rfl hlt
    · exact hrch.mono x

theorem planCell_outside (hj : x.numGpu ≤ j) (h : row[(j - x.numGpu).toNat]? = none) :
    ∃ e, planCell sourceNodeId modelInfo hardwareInfo workerNodes x row j = .error e := by
  unfold planCell
  dsimp only
  rw [if_pos hj, h]
  exact ⟨_, rfl⟩

theorem planCell_unreached (hj : x.numGpu ≤ j) (h : row[(j - x.numGpu).toNat]? = some .init) :
    ∃ e, planCell sourceNodeId modelInfo hardwareInfo workerNodes x row j = .error e := by
  unfold planCell
  dsimp only
  rw [if_pos hj, h]
  simp only [MigrationPlans.init, bind, bind]
  cases htgt : getMigrationTarget sourceNodeId modelInfo hardwareInfo x.modelName x.numGpu workerNodes none with
  | error e => exact ⟨e, rfl⟩
  | ok target =>
    rw [getMigrationTarget_none htgt]
    exact ⟨_, rfl⟩

theorem planCell_untargeted (hj : x.numGpu ≤ j) (hbef : row[(j - x.numGpu).toNat]? = some before)
    (hr : Reached sourceNodeId workerNodes storeInfo done c before)
    (hk : ¬TargetKnown sourceNodeId workerNodes modelInfo hardwareInfo storeInfo x) :
    ∃ e, planCell sourceNodeId modelInfo hardwareInfo workerNodes x row j = .error e := by
  obtain ⟨stores, hstores, hsa⟩ := hr.stores
  have hk' : ¬TargetKnown sourceNodeId workerNodes modelInfo hardwareInfo stores x :=
    fun h => hk ⟨h.1, fun e he hro => (h.2 e he hro).of_same hsa.symm⟩
  unfold planCell
  dsimp only
  rw [if_pos hj, hbef]
  simp only [hstores, bind, bind]
  cases htgt : getMigrationTarget sourceNodeId modelInfo hardwareInfo x.modelName x.numGpu workerNodes (some stores) with
  | error e => exact ⟨e, rfl⟩
  | ok target =>
    rw [getMigrationTarget_not hk' htgt]
    exact ⟨_, rfl⟩

/-! ## The rows -/

theorem planRow_ok {P : Nat → MigrationPlans → Prop} {js : List Nat}
    (h : ∀ j ∈ js, ∃ cell, planCell sourceNodeId modelInfo hardwareInfo workerNodes x row j = .ok cell ∧ P j cell) :
    ∃ cells, planRow sourceNodeId modelInfo hardwareInfo workerNodes x row js = .ok cells ∧ List.Forall₂ P js cells := by
  induction js with
  | nil => exact ⟨[], rfl, List.Forall₂.nil⟩
  | cons j js ih =>
    obtain ⟨cell, hcell, hP⟩ := h j (by simp)
    obtain ⟨cells, hcls, hall⟩ := ih fun j' hj' => h j' (by simp [hj'])
    exact ⟨cell :: cells, bind_eq_ok.2 ⟨cell, hcell, bind_eq_ok.2 ⟨cells, hcls, rfl⟩⟩,
      List.Forall₂.cons hP hall⟩

theorem planRow_error {js : List Nat} (hj : j ∈ js)
    (h : ∃ e, planCell sourceNodeId modelInfo hardwareInfo workerNodes x row j = .error e) :
    ∃ e, planRow sourceNodeId modelInfo hardwareInfo workerNodes x row js = .error e := by
  cases hrow : planRow sourceNodeId modelInfo hardwareInfo workerNodes x row js with
  | error e => exact ⟨e, rfl⟩
  | ok cells =>
    exfalso
    obtain ⟨e, he⟩ := h
    induction js generalizing cells with
    | nil => simp at hj
    | cons j' js ih =>
      rw [planRow, bind_eq_ok] at hrow
      obtain ⟨cell, hcell, hrow⟩ := hrow
      obtain ⟨rest, hrs, -⟩ := bind_eq_ok.1 hrow
      rcases mem_cons.1 hj with rfl | hj
      · rw [he] at hcell
        cases hcell
      · exact ih hj rest hrs

/-- A row of the table: the cell for no GPUs is reached, that for all GPUs once an instance has them, and no other. -/
structure RowOk (sourceNodeId : String) (workerNodes : Nodes) (storeInfo : StoreInfo) (gpuShortage : Nat) (filled : Bool)
    (done : List InstanceStatus) (row : List MigrationPlans) : Prop where
  length : row.length = gpuShortage + 1
  reached : ∀ c ≤ gpuShortage, c = 0 ∨ filled = true ∧ c = gpuShortage →
    Reached sourceNodeId workerNodes storeInfo done c (row.getD c .init)
  unreached : ∀ c ≤ gpuShortage, c ≠ 0 → ¬(filled = true ∧ c = gpuShortage) → row.getD c .init = .init

theorem RowOk.getElem? (h : RowOk sourceNodeId workerNodes storeInfo gpuShortage filled done row) (hc : c ≤ gpuShortage) :
    row[c]? = some (row.getD c .init) := by
  have hlt : c < row.length := by rw [h.length]; omega
  rw [getElem?_eq_getElem hlt, getD_eq_getElem _ _ hlt]

/-- An instance that the table comes past. -/
def Admissible (sourceNodeId : String) (workerNodes : Nodes) (modelInfo : Dict String ℚ) (hardwareInfo : HardwareInfo)
    (storeInfo : StoreInfo) (gpuShortage : Nat) (filled : Bool) (x : InstanceStatus) : Prop :=
  (gpuShortage : Int) < x.numGpu ∨ TargetKnown sourceNodeId workerNodes modelInfo hardwareInfo storeInfo x ∧
    (x.numGpu = gpuShortage ∨ gpuShortage = 1 ∧ x.numGpu = 0 ∧ filled = true)

theorem RowOk.of_cells {cells : List MigrationPlans}
    (h : List.Forall₂ (fun c cell => (c = 0 ∨ filled = true ∧ c = gpuShortage →
      Reached sourceNodeId workerNodes storeInfo done c cell) ∧
      (c ≠ 0 → ¬(filled = true ∧ c = gpuShortage) → cell = .init)) (range (gpuShortage + 1)) cells) :
    RowOk sourceNodeId workerNodes storeInfo gpuShortage filled done cells := by
  have hlen : cells.length = gpuShortage + 1 := by simpa using h.length_eq.symm
  have hcell : ∀ c ≤ gpuShortage, (c = 0 ∨ filled = true ∧ c = gpuShortage →
    Reached sourceNodeId workerNodes storeInfo done c (cells.getD c .init)) ∧
      (c ≠ 0 → ¬(filled = true ∧ c = gpuShortage) → cells.getD c .init = .init) := by
    intro c hc
    have hlt : c < cells.length := by omega
    have := h.get (i := c) (by simpa using by omega) hlt
    rw [getD_eq_getElem _ _ hlt]
    simpa using this
  exact ⟨hlen, fun c hc => (hcell c hc).1, fun c hc => (hcell c hc).2⟩

theorem planRow_step (hs : 1 ≤ gpuShortage) (hrow : RowOk sourceNodeId workerNodes storeInfo gpuShortage filled done row)
    (ha : Admissible sourceNodeId workerNodes modelInfo hardwareInfo storeInfo gpuShortage filled x) :
    ∃ row', planRow sourceNodeId modelInfo hardwareInfo workerNodes x row (range (gpuShortage + 1)) = .ok row' ∧
      RowOk sourceNodeId workerNodes storeInfo gpuShortage (filled || decide (x.numGpu = gpuShortage)) (done ++ [x]) row' := by
  have hzero := hrow.reached 0 (Nat.zero_le _) (.inl rfl)
  suffices hcls : ∀ c ∈ range (gpuShortage + 1), ∃ cell,
      planCell sourceNodeId modelInfo hardwareInfo workerNodes x row c = .ok cell ∧
        (c = 0 ∨ (filled || decide (x.numGpu = gpuShortage)) = true ∧ c = gpuShortage →
          Reached sourceNodeId workerNodes storeInfo (done ++ [x]) c cell) ∧
        (c ≠ 0 → ¬((filled || decide (x.numGpu = gpuShortage)) = true ∧ c = gpuShortage) → cell = .init) by
    obtain ⟨row', hrow', hall⟩ := planRow_ok hcls
    exact ⟨row', hrow', .of_cells hall⟩
  intro c hc
  have hc' : c ≤ gpuShortage := Nat.le_of_lt_succ (mem_range.1 hc)
  rcases ha with hlrg | ⟨hk, hex | ⟨rfl, hno, rfl⟩⟩
  · -- the row stays as it is
    have hfil : (filled || decide (x.numGpu = gpuShortage)) = filled := by
      rw [decide_eq_false (by omega), Bool.or_false]
    rw [hfil]
    exact ⟨_, planCell_unchanged (by omega), fun h => (hrow.reached c hc' h).mono x, hrow.unreached c hc'⟩
  · have hfil : (filled || decide (x.numGpu = gpuShortage)) = true := by simp [hex]
    rw [hfil]
    by_cases hla : c = gpuShortage
    · subst hla
      have hwo : row.getD c .init = .init ∨ Reached sourceNodeId workerNodes storeInfo done c (row.getD c .init) := by
        cases filled with
        | false => exact .inl (hrow.unreached c hc' (by omega) (by simp))
        | true => exact .inr (hrow.reached c hc' (.inr ⟨rfl, rfl⟩))
      have hbef : row[((c : Int) - x.numGpu).toNat]? = some (row.getD 0 .init) := by
        rw [hex, Int.sub_self]
        exact hrow.getElem? (Nat.zero_le _)
      obtain ⟨cell, hcell, hrch⟩ := planCell_reached hbef hzero (by omega) (.inr rfl) hwo hk
      exact ⟨cell, hcell, fun _ => hrch, fun _ h => absurd ⟨rfl, rfl⟩ h⟩
    · refine ⟨_, planCell_unchanged (by omega), fun h => ?_, fun h0 _ => hrow.unreached c hc' h0 fun h => hla h.2⟩
      exact (hrow.reached c hc' (.inl (h.resolve_right fun h => hla h.2))).mono x
  · -- one GPU is missing, and both cells are reached
    have hboth : c = 0 ∨ c = 1 := by omega
    have hr := hrow.reached c hc' (hboth.imp_right fun h => ⟨rfl, h⟩)
    have hbef : row[((c : Int) - x.numGpu).toNat]? = some (row.getD c .init) := by
      rw [hno, Int.sub_zero, Int.toNat_natCast]
      exact hrow.getElem? hc'
    obtain ⟨cell, hcell, hrch⟩ := planCell_reached hbef hr (by omega) (.inl hno) (.inr hr) hk
    refine ⟨cell, hcell, fun _ => hrch, fun h0 h => ?_⟩
    exact absurd ⟨by simp, hboth.resolve_left h0⟩ h

theorem planRow_step_error (hs : 1 ≤ gpuShortage) (hrow : RowOk sourceNodeId workerNodes storeInfo gpuShortage filled done row)
    (ha : ¬Admissible sourceNodeId workerNodes modelInfo hardwareInfo storeInfo gpuShortage filled x) :
    ∃ e, planRow sourceNodeId modelInfo hardwareInfo workerNodes x row (range (gpuShortage + 1)) = .error e := by
  rw [Admissible, not_or, not_lt] at ha
  obtain ⟨hle, hother⟩ := ha
  have hcell : ∀ {c j : Nat}, j ≤ gpuShortage → c ≤ gpuShortage → (c : Int) + x.numGpu = j → c ≠ 0 →
    ¬(filled = true ∧ c = gpuShortage) →
      ∃ e, planRow sourceNodeId modelInfo hardwareInfo workerNodes x row (range (gpuShortage + 1)) = .error e := by
    intro c j hj hc hsum h0 hfil
    refine planRow_error (j := j) (mem_range.2 (by omega)) (planCell_unreached (by omega) ?_)
    rw [show ((j : Int) - x.numGpu).toNat = c by omega, hrow.getElem? hc, hrow.unreached c hc h0 hfil]
  rcases lt_or_ge x.numGpu 0 with hneg | hpos
  · refine planRow_error (j := gpuShortage) (mem_range.2 (by omega)) (planCell_outside hle ?_)
    rw [getElem?_eq_none_iff, hrow.length]
    omega
  · obtain ⟨n, hn⟩ := Int.eq_ofNat_of_zero_le hpos
    by_cases hk : TargetKnown sourceNodeId workerNodes modelInfo hardwareInfo storeInfo x
    · have hnot : ¬(x.numGpu = gpuShortage ∨ gpuShortage = 1 ∧ x.numGpu = 0 ∧ filled = true) := fun h => hother ⟨hk, h⟩
      rw [not_or] at hnot
      obtain ⟨hne, hzero⟩ := hnot
      by_cases h0 : n = 0
      · -- the cell for one GPU
        refine hcell (c := 1) (j := 1) hs hs (by omega) Nat.one_ne_zero fun h => hzero ⟨h.2.symm, by omega, h.1⟩
      · refine hcell (c := gpuShortage - n) (j := gpuShortage) le_rfl (by omega) (by omega) (by omega) fun h => h0 (by omega)
    · -- the cell without GPUs is reached, but there is no target
      refine planRow_error (j := n) (mem_range.2 (by omega))
        (planCell_untargeted (by omega) ?_ (hrow.reached 0 (Nat.zero_le _) (.inl rfl)) hk)
      rw [show ((n : Int) - x.numGpu).toNat = 0 by omega, hrow.getElem? (Nat.zero_le _)]

/-! ## The table -/

/-- The instances that the table comes past, one after another. -/
def Admitted (sourceNodeId : String) (workerNodes : Nodes) (modelInfo : Dict String ℚ) (hardwareInfo : HardwareInfo)
    (storeInfo : StoreInfo) (gpuShortage : Nat) : Bool → List InstanceStatus → Prop
  | _, [] => True
  | filled, x :: l => Admissible sourceNodeId workerNodes modelInfo hardwareInfo storeInfo gpuShortage filled x ∧
    Admitted sourceNodeId workerNodes modelInfo hardwareInfo storeInfo gpuShortage (filled || decide (x.numGpu = gpuShortage)) l

variable {l : List InstanceStatus}

theorem planTable_ok (hs : 1 ≤ gpuShortage) (hrow : RowOk sourceNodeId workerNodes storeInfo gpuShortage filled done row)
    (ha : Admitted sourceNodeId workerNodes modelInfo hardwareInfo storeInfo gpuShortage filled l) :
    ∃ row', planTable sourceNodeId modelInfo hardwareInfo workerNodes gpuShortage l row = .ok row' ∧
      RowOk sourceNodeId workerNodes storeInfo gpuShortage (filled || l.any fun x => x.numGpu = gpuShortage)
        (done ++ l) row' := by
  induction l generalizing filled done row with
  | nil => exact ⟨row, rfl, by simpa using hrow⟩
  | cons x l ih =>
    obtain ⟨row1, hrow1, hok1⟩ := planRow_step hs hrow ha.1
    obtain ⟨row2, hrow2, hok2⟩ := ih hok1 ha.2
    refine ⟨row2, bind_eq_ok.2 ⟨row1, hrow1, hrow2⟩, ?_⟩
    simpa [Bool.or_assoc] using hok2

theorem planTable_error (hs : 1 ≤ gpuShortage) (hrow : RowOk sourceNodeId workerNodes storeInfo gpuShortage filled done row)
    (ha : ¬Admitted sourceNodeId workerNodes modelInfo hardwareInfo storeInfo gpuShortage filled l) :
    ∃ e, planTable sourceNodeId modelInfo hardwareInfo workerNodes gpuShortage l row = .error e := by
  induction l generalizing filled done row with
  | nil => exact absurd trivial ha
  | cons x l ih =>
    rw [planTable]
    by_cases hx : Admissible sourceNodeId workerNodes modelInfo hardwareInfo storeInfo gpuShortage filled x
    · obtain ⟨row1, hrow1, hok1⟩ := planRow_step hs hrow hx
      obtain ⟨e, he⟩ := ih hok1 fun h => ha ⟨hx, h⟩
      exact ⟨e, by rw [hrow1]; exact he⟩
    · obtain ⟨e, he⟩ := planRow_step_error hs hrow hx
      exact ⟨e, by rw [he]; rfl⟩

theorem firstRow_ok (sourceNodeId : String) (workerNodes : Nodes) (gpuShortage : Nat) (storeInfo : StoreInfo) :
    RowOk sourceNodeId workerNodes storeInfo gpuShortage false [] (firstRow gpuShortage storeInfo) := by
  refine ⟨by simp [firstRow], fun c hc h => ?_, fun c hc h0 _ => ?_⟩
  · obtain rfl : c = 0 := h.resolve_right (by simp)
    exact ⟨nofun, ⟨storeInfo, rfl, .refl _⟩, rfl, nil_sublist _, nofun, rfl⟩
  · obtain ⟨c, rfl⟩ := Nat.exists_eq_succ_of_ne_zero h0
    rw [firstRow, getD_cons_succ, getD_eq_getElem?_getD, getElem?_replicate]
    split <;> rfl

/-- A cell that the loop over the last row passes by. -/
def PassedBy (gpuShortage : Nat) (cell : MigrationPlans) : Prop := cell.totalLatency = none ∨ cell.evictedGPUs < gpuShortage

theorem foldl_passedBy {l : List MigrationPlans} (h : ∀ cell ∈ l, PassedBy gpuShortage cell) :
    l.foldl (fun (best : Option ℚ × Option MigrationPlans) plans =>
      if latencyLt plans.totalLatency best.1 ∧
        (gpuShortage : Int) ≤ plans.evictedGPUs then (plans.totalLatency, some plans) else best)
      (none, none) = (none, none) := by
  induction l with
  | nil => rfl
  | cons cell l ih =>
    rw [foldl_cons, if_neg, ih fun c hc => h c (by simp [hc])]
    rintro ⟨hlt, hle⟩
    rcases h cell (by simp) with hno | hfew
    · rw [hno] at hlt
      cases hlt
    · omega

theorem optimalPlans_eq (hs : 1 ≤ gpuShortage) (hrow : RowOk sourceNodeId workerNodes storeInfo gpuShortage filled done row) :
    optimalPlans gpuShortage row = if filled then some (row.getD gpuShortage .init) else none := by
  have hspl : row = row.take gpuShortage ++ [row.getD gpuShortage .init] := by
    have htake : row.take (gpuShortage + 1) = row := take_of_length_le hrow.length.le
    rw [take_add_one, hrow.getElem? le_rfl] at htake
    exact htake.symm
  -- the cells before it have too few GPUs, or are not reached
  have hfrt : ∀ cell ∈ row.take gpuShortage, PassedBy gpuShortage cell := by
    intro cell hcell
    obtain ⟨c, hc⟩ := getElem?_of_mem hcell
    rw [getElem?_take] at hc
    split at hc
    · rename_i hlt
      rw [hrow.getElem? hlt.le] at hc
      obtain rfl := some.inj hc
      by_cases h0 : c = 0
      · exact .inr (by rw [(hrow.reached c hlt.le (.inl h0)).evicted]; omega)
      · exact .inl (by rw [hrow.unreached c hlt.le h0 fun h => hlt.ne h.2]; rfl)
    · cases hc
  unfold optimalPlans
  conv_lhs => rw [hspl]
  rw [foldl_append, foldl_passedBy hfrt, foldl_cons, foldl_nil]
  cases filled with
  | false =>
    rw [hrow.unreached gpuShortage le_rfl (by omega) (by simp)]
    rfl
  | true =>
    have hr := hrow.reached gpuShortage le_rfl (.inr ⟨rfl, rfl⟩)
    obtain ⟨latency, hlatency⟩ := ne_none_iff_exists'.1 hr.latency
    rw [if_pos ⟨by rw [hlatency]; rfl, hr.evicted.ge⟩]
    rfl

/-! ## What is returned -/

theorem planMigrations_eq (hs : 1 ≤ gpuShortage) (instances : List InstanceStatus) (sourceNodeId : String) (workerNodes : Nodes)
    (modelInfo : Dict String ℚ) (storeInfo : StoreInfo) (hardwareInfo : HardwareInfo) :
    (Admitted sourceNodeId workerNodes modelInfo hardwareInfo storeInfo gpuShortage false instances ∧
        (instances.any fun x => x.numGpu = gpuShortage) = true ∧
        ∃ plans, planMigrations instances gpuShortage sourceNodeId workerNodes modelInfo storeInfo hardwareInfo = some plans ∧
          Reached sourceNodeId workerNodes storeInfo instances gpuShortage plans) ∨
      (¬(Admitted sourceNodeId workerNodes modelInfo hardwareInfo storeInfo gpuShortage false instances ∧
          (instances.any fun x => x.numGpu = gpuShortage) = true) ∧
        planMigrations instances gpuShortage sourceNodeId workerNodes modelInfo storeInfo hardwareInfo = none) := by
  have hfst := firstRow_ok sourceNodeId workerNodes gpuShortage storeInfo
  unfold planMigrations
  by_cases hnil : instances = []
  · subst hnil
    exact .inr ⟨by simp, rfl⟩
  rw [if_neg hnil]
  by_cases ha : Admitted sourceNodeId workerNodes modelInfo hardwareInfo storeInfo gpuShortage false instances
  · obtain ⟨row, hrow, hok⟩ := planTable_ok hs hfst ha
    rw [hrow]
    dsimp only
    simp only [Bool.false_or, nil_append] at hok
    rw [optimalPlans_eq hs hok]
    by_cases hany : (instances.any fun x => x.numGpu = gpuShortage) = true
    · rw [if_pos hany]
      exact .inl ⟨ha, hany, _, rfl, hok.reached _ le_rfl (.inr ⟨hany, rfl⟩)⟩
    · rw [if_neg hany]
      exact .inr ⟨fun h => hany h.2, rfl⟩
  · obtain ⟨e, he⟩ := planTable_error hs hfst ha
    rw [he]
    exact .inr ⟨fun h => ha h.1, rfl⟩

theorem sum_filter_ne_zero (l : List Int) : (l.filter fun n => n ≠ 0).sum = l.sum := by
  induction l with
  | nil => rfl
  | cons n l ih =>
    by_cases hn : n = 0
    · simp [hn, ← ih]
    · simp [hn, ← ih]

theorem Reached.relieves (h : Reached sourceNodeId workerNodes storeInfo done gpuShortage cell) :
    Relieves done gpuShortage sourceNodeId workerNodes cell.placed := by
  have hsum : (cell.placed.map fun e => e.1.numGpu).sum = gpuShortage := by
    rw [← sum_filter_ne_zero, h.single]
    split
    · simp [*]
    · simp
  refine ⟨hsum.ge, h.sources, fun e he => ?_⟩
  obtain ⟨hne, info, hin, hro⟩ := h.targets e he
  refine ⟨hne, info, hin, ?_⟩
  -- of the instances on this node at most one has GPUs
  have hto : (((cell.placed.filter fun d => d.2 = e.2).map fun d => d.1.numGpu).filter fun n => n ≠ 0).Sublist
      [(gpuShortage : Int)] := by
    have hsub := ((filter_sublist (p := fun d : InstanceStatus × String => d.2 = e.2) (l := cell.placed)).map
      fun d => d.1.numGpu).filter fun n => n ≠ 0
    rw [h.single] at hsub
    split at hsub
    · exact hsub.trans (nil_sublist _)
    · exact hsub
  rw [gpusTo, ← sum_filter_ne_zero]
  rcases sublist_singleton.1 hto with hnil | hone
  · rw [hnil, sum_nil]
    have hzero : e.1.numGpu = 0 := by
      by_contra hn
      have hmem : e.1.numGpu ∈ ((cell.placed.filter fun d => d.2 = e.2).map fun d => d.1.numGpu).filter fun n => n ≠ 0 :=
        mem_filter.2 ⟨mem_map.2 ⟨e, mem_filter.2 ⟨he, by simp⟩, rfl⟩, by simpa using hn⟩
      rw [hnil] at hmem
      simp at hmem
    omega
  · rw [hone, sum_singleton]
    have hmem : (gpuShortage : Int) ∈ ((cell.placed.filter fun d => d.2 = e.2).map fun d =>
      d.1.numGpu).filter fun n => n ≠ 0 := by
      rw [hone]
      exact mem_singleton.2 rfl
    obtain ⟨d, hd, hgpus⟩ := mem_map.1 (mem_of_mem_filter hmem)
    obtain ⟨hd, htgt⟩ := mem_filter.1 hd
    obtain ⟨-, info', hin', hro'⟩ := h.targets d hd
    rw [of_decide_eq_true htgt, hin] at hin'
    obtain rfl := some.inj hin'
    rwa [← hgpus]

theorem admitted_iff :
    Admitted sourceNodeId workerNodes modelInfo hardwareInfo storeInfo gpuShortage filled l ↔
      ∀ before x after, l = before ++ x :: after →
        Admissible sourceNodeId workerNodes modelInfo hardwareInfo storeInfo gpuShortage
        (filled || before.any fun y => y.numGpu = gpuShortage) x := by
  induction l generalizing filled with
  | nil => simp [Admitted]
  | cons y l ih =>
    rw [Admitted, ih]
    constructor
    · rintro ⟨hy, hl⟩ before x after hspl
      cases before with
      | nil =>
        obtain ⟨rfl, rfl⟩ := cons.inj hspl
        simpa using hy
      | cons z before =>
        obtain ⟨rfl, hrs⟩ := cons.inj (hspl.trans cons_append)
        simpa [Bool.or_assoc] using hl before x after hrs
    · intro hall
      refine ⟨by simpa using hall [] y l rfl, ?_⟩
      rintro before x after rfl
      simpa [Bool.or_assoc] using hall (y :: before) x after rfl

theorem exactInstances_iff {instances : List InstanceStatus} :
    ExactInstances sourceNodeId workerNodes modelInfo hardwareInfo storeInfo gpuShortage instances ↔
      Admitted sourceNodeId workerNodes modelInfo hardwareInfo storeInfo gpuShortage false instances ∧
        (instances.any fun x => x.numGpu = gpuShortage) = true := by
  rw [admitted_iff]
  constructor
  · intro h
    refine ⟨fun before x after hspl => ?_, ?_⟩
    · rcases lt_or_ge (gpuShortage : Int) x.numGpu with hlrg | hle
      · exact .inl hlrg
      · obtain ⟨hk, hex | ⟨h1, h0, y, hy, hy1⟩⟩ := h.all before x after hspl hle
        · exact .inr ⟨hk, .inl hex⟩
        · exact .inr ⟨hk, .inr ⟨h1, h0, by simpa using ⟨y, hy, by omega⟩⟩⟩
    · obtain ⟨x, hx, hex⟩ := h.exact
      exact any_eq_true.2 ⟨x, hx, by simpa using hex⟩
  · rintro ⟨hall, hany⟩
    obtain ⟨x, hx, hex⟩ := any_eq_true.1 hany
    refine ⟨⟨x, hx, by simpa using hex⟩, fun before x after hspl hle => ?_⟩
    rcases hall before x after hspl with hlrg | ⟨hk, hex | ⟨h1, h0, hfil⟩⟩
    · omega
    · exact ⟨hk, .inl hex⟩
    · obtain ⟨y, hy, hy1⟩ := any_eq_true.1 ((Bool.false_or _).symm.trans hfil)
      have hy1 := of_decide_eq_true hy1
      exact ⟨hk, .inr ⟨h1, h0, y, hy, by omega⟩⟩

end Tables

/-- For every list of instances, node table, tables of the stores and shortage: a plan is found whenever there is one, and what
is found is in order, exactly if there is none or the GPUs of the instances are exactly those that are missing. -/
theorem getMigrationPlans_plans_well_iff (modelName : String) (gpuShortage : Nat) (hs : 1 ≤ gpuShortage) (sourceNodeId : String)
    (modelInstance : ModelInstance) (getInstanceStatus : String → String → Option InstanceStatus)
    (modelSchedulerConfig : Dict String (Dict String ℚ)) (workerNodes : Nodes) (modelInfo : Dict String ℚ)
      (storeInfo : StoreInfo)
    (hardwareInfo : HardwareInfo) {instances : List InstanceStatus}
    (h : migratableInstances modelName sourceNodeId modelInstance getInstanceStatus modelSchedulerConfig = .ok instances) :
    (∃ result, getMigrationPlans modelName gpuShortage sourceNodeId modelInstance getInstanceStatus modelSchedulerConfig workerNodes
        modelInfo storeInfo hardwareInfo = .ok result ∧ PlansWell instances gpuShortage sourceNodeId workerNodes result) ↔
      (¬∃ placed, Relieves instances gpuShortage sourceNodeId workerNodes placed) ∨
        ExactInstances sourceNodeId workerNodes modelInfo hardwareInfo storeInfo gpuShortage instances := by
  have hget : ∀ result, getMigrationPlans modelName gpuShortage sourceNodeId modelInstance getInstanceStatus modelSchedulerConfig
      workerNodes modelInfo storeInfo hardwareInfo = .ok result ↔
        planMigrations instances gpuShortage sourceNodeId workerNodes modelInfo storeInfo hardwareInfo = result := by
    intro result
    rw [getMigrationPlans, h]
    exact ⟨ok.inj, congrArg _⟩
  simp only [hget, exists_eq_left', exactInstances_iff]
  rcases planMigrations_eq hs instances sourceNodeId workerNodes modelInfo storeInfo hardwareInfo with
    ⟨hadmitted, hany, plans, hpls, hrch⟩ | ⟨hno, hnone⟩
  · rw [hpls]
    refine ⟨fun _ => .inr ⟨hadmitted, hany⟩, fun _ => ⟨fun _ => ⟨plans, rfl⟩, ?_⟩⟩
    intro plans' hpls'
    obtain rfl := some.inj hpls'
    exact ⟨hrch.evicted.ge, hrch.relieves⟩
  · rw [hnone]
    constructor
    · intro hwell
      refine .inl fun hpla => ?_
      obtain ⟨plans, hpls⟩ := hwell.found hpla
      cases hpls
    · rintro (hpla | hadmitted)
      · exact ⟨fun h => absurd h hpla, nofun⟩
      · exact absurd hadmitted hno

/-! ## An example -/

/-- A running instance of each of two models on the node "n0". -/
def twoModels : ModelInstance :=
  ⟨[("A", ⟨[("a", "n0")], by decide⟩), ("B", ⟨[("b", "n0")], by decide⟩)], by decide⟩

def oneGpuEach (modelName instanceId : String) : Option InstanceStatus :=
    some ⟨instanceId, "n0", 1, some modelName, some 10, none⟩

def twoNodes : Nodes := ⟨[("n0", ⟨0, 4⟩), ("n1", ⟨2, 4⟩)], by decide⟩

def twoSizes : Dict String ℚ := ⟨[("A", 8), ("B", 8)], by decide⟩

def twoStores : StoreInfo := ⟨[("n0", ⟨["A", "B"], ["A", "B"], 0⟩), ("n1", ⟨["A", "B"], ["A"], 0⟩)], by decide⟩

def twoBandwidths : HardwareInfo :=
  ⟨[("n0", ⟨[("disk_bandwidth", 1), ("pcie_bandwidth", 4)], by decide⟩),
    ("n1", ⟨[("disk_bandwidth", 1), ("pcie_bandwidth", 4)], by decide⟩)], by decide⟩

theorem getMigrationPlans_plans_well_twoModels :
    ∃ instances, (∃ result, getMigrationPlans "M" 1 "n0" twoModels oneGpuEach .empty twoNodes twoSizes twoStores twoBandwidths =
        .ok result ∧ PlansWell instances 1 "n0" twoNodes result) ↔
      (¬∃ placed, Relieves instances 1 "n0" twoNodes placed) ∨
        ExactInstances "n0" twoNodes twoSizes twoBandwidths twoStores 1 instances := by
  refine ⟨[⟨"a", "n0", 1, some "A", some 10, some (1 / 5)⟩, ⟨"b", "n0", 1, some "B", some 10, some (1 / 5)⟩], ?_⟩
  exact getMigrationPlans_plans_well_iff "M" 1 le_rfl "n0" twoModels oneGpuEach .empty twoNodes twoSizes twoStores twoBandwidths
    (by decide +kernel)

/-- Two GPUs are missing, and the two instances with one GPU each could both move. -/
theorem getMigrationPlans_misses :
    ¬∀ (modelName : String) (gpuShortage : Nat) (sourceNodeId : String) (modelInstance : ModelInstance)
      (getInstanceStatus : String → String → Option InstanceStatus) (modelSchedulerConfig : Dict String (Dict String ℚ))
      (workerNodes : Nodes) (modelInfo : Dict String ℚ) (storeInfo : StoreInfo) (hardwareInfo : HardwareInfo)
      (instances : List InstanceStatus), 1 ≤ gpuShortage → (∀ e ∈ storeInfo.entries, 0 ≤ e.2.waitingTime) →
      migratableInstances modelName sourceNodeId modelInstance getInstanceStatus modelSchedulerConfig = .ok instances →
      ∃ result, getMigrationPlans modelName gpuShortage sourceNodeId modelInstance getInstanceStatus modelSchedulerConfig workerNodes
        modelInfo storeInfo hardwareInfo = .ok result ∧ PlansWell instances gpuShortage sourceNodeId workerNodes result := by
  intro hall
  obtain ⟨result, hrs, hwell⟩ := hall "M" 2 "n0" twoModels oneGpuEach .empty twoNodes twoSizes twoStores twoBandwidths
    [⟨"a", "n0", 1, some "A", some 10, some (1 / 5)⟩, ⟨"b", "n0", 1, some "B", some 10, some (1 / 5)⟩] (by decide)
      (by decide +kernel)
    (by decide +kernel)
  have hno : getMigrationPlans "M" 2 "n0" twoModels oneGpuEach .empty twoNodes twoSizes twoStores twoBandwidths = .ok none := by
    decide +kernel
  obtain rfl := ok.inj (hrs.symm.trans hno)
  have hpla : ∃ placed, Relieves [⟨"a", "n0", 1, some "A", some 10, some (1 / 5)⟩,
    ⟨"b", "n0", 1, some "B", some 10, some (1 / 5)⟩] 2
      "n0" twoNodes placed := by
    refine ⟨[(⟨"a", "n0", 1, some "A", some 10, some (1 / 5)⟩, "n1"), (⟨"b", "n0", 1, some "B", some 10, some (1 / 5)⟩, "n1")],
      by decide +kernel, by simp, fun e he => ?_⟩
    have htgt : e.2 = "n1" := by
      simp only [mem_cons, not_mem_nil, or_false] at he
      rcases he with rfl | rfl <;> rfl
    rw [htgt]
    exact ⟨by decide, ⟨2, 4⟩, by decide, by decide +kernel⟩
  obtain ⟨plans, hpls⟩ := hwell.found hpla
  cases hpls

end ServerlessLLM.Schedulers.Planning
