import ServerlessLLM.Vram.Manager

/-!
# Runs of a manager

A run is a sequence of registrations, `LoadModel` calls and `AllocateBlocks` calls, on any devices. `Reaches P C v w` says that
a run from `v`, each of whose steps meets the condition `C` in the state before it, ends in `w`. An invariant of the pools is
proved for one call on one pool, and `Good.step` carries it over to the steps of the manager.
-/

namespace ServerlessLLM

open Linked Function Option GPUTensorPool VRAMManager

/-- A request to the manager. -/
inductive Op where
  | registerModel (m : RegisteredModel)
  | loadModel (modelPath : String) (deviceId strategy : Int)
  | allocateBlocks (deviceId : Int) (blockSize : Nat) (useModel : String) (blockNumber : Int)

namespace VRAMManager

/-- Serve one request. -/
def step (P : Platform) (v : VRAMManager) : Op → VRAMManager
  | .registerModel m => v.registerModel m
  | .loadModel modelPath deviceId strategy => (v.loadModel P modelPath deviceId strategy).2
  | .allocateBlocks deviceId blockSize useModel blockNumber => (v.allocateBlocks P deviceId blockSize useModel blockNumber).2

/-- Serve a sequence of requests. -/
def run (P : Platform) (v : VRAMManager) (ops : List Op) : VRAMManager := ops.foldl (step P) v

/-- The strategy `LoadModel` uses. -/
def strategyOf (v : VRAMManager) (strategy : Int) : Int := if v.loadStrategy ≠ 4 then v.loadStrategy else strategy

/-- A manager as its constructor leaves it: no model is registered, each pool is one FREE region of a non-null address, and the
strategy is one of those that keep the pool. -/
structure Fresh (v : VRAMManager) : Prop where
  noModels : ∀ path, v.registeredModels path = none
  strategy : 1 ≤ v.loadStrategy ∧ v.loadStrategy ≤ 4
  pools : ∀ dev p, v.gpuTensorPools dev = some p →
    ∃ base total cpuBandwidth bytes, 0 < base ∧ 0 < total ∧ p = init base total cpuBandwidth bytes

end VRAMManager

/-- A request with a strategy from 1 to 4, or to register a model that satisfies `G`. -/
def Op.Allowed (G : RegisteredModel → Prop) : Op → Prop
  | .registerModel m => G m
  | .loadModel _ _ strategy => 1 ≤ strategy ∧ strategy ≤ 4
  | .allocateBlocks _ _ _ _ => True

/-- The states that runs from `v` reach, when every step meets the condition. -/
inductive Reaches (P : Platform) (C : VRAMManager → Op → Prop) (v : VRAMManager) : VRAMManager → Prop
  | refl : Reaches P C v v
  | step {w : VRAMManager} {op : Op} (h : Reaches P C v w) (hc : C w op) : Reaches P C v (w.step P op)

variable (P : Platform) {v : VRAMManager}

theorem VRAMManager.step_loadStrategy (v : VRAMManager) (op : Op) : (v.step P op).loadStrategy = v.loadStrategy := by
  cases op with
  | registerModel m =>
    show (v.registerModel m).loadStrategy = v.loadStrategy
    unfold registerModel
    split <;> rfl
  | loadModel path dev strategy =>
    show (v.loadModel P path dev strategy).2.loadStrategy = v.loadStrategy
    unfold loadModel
    split <;> rfl
  | allocateBlocks dev blockSize path n =>
    show (v.allocateBlocks P dev blockSize path n).2.loadStrategy = v.loadStrategy
    unfold allocateBlocks
    split <;> rfl

theorem reaches_run {C : VRAMManager → Op → Prop} {w : VRAMManager} {ops : List Op} (h : Reaches P C v w)
    (hops : ∀ op ∈ ops, ∀ u : VRAMManager, u.loadStrategy = w.loadStrategy → C u op) : Reaches P C v (w.run P ops) := by
  induction ops generalizing w with
  | nil => exact h
  | cons op ops ih =>
    refine ih (h.step (hops op (by simp) w rfl)) fun op' hop u hu => hops op' (by simp [hop]) u ?_
    rw [hu, step_loadStrategy]

theorem Reaches.mono {P : Platform} {C C' : VRAMManager → Op → Prop} {w : VRAMManager} (h : Reaches P C v w)
    (hC : ∀ u op, C u op → C' u op) : Reaches P C' v w := by
  induction h with
  | refl => exact .refl
  | step _ hc ih => exact ih.step (hC _ _ hc)

theorem Op.Allowed.mono {G G' : RegisteredModel → Prop} (hG : ∀ m, G m → G' m) {op : Op} (h : op.Allowed G) :
    op.Allowed G' := by
  cases op with
  | registerModel m => exact hG m h
  | loadModel path dev strategy => exact h
  | allocateBlocks dev blockSize path n => exact h

theorem VRAMManager.loadModel_eq {path : String} {dev : Int} {m : RegisteredModel}
    {p : GPUTensorPool} (strategy : Int) (hm : v.registeredModels path = some m) (hp : v.gpuTensorPools dev = some p) :
    v.loadModel P path dev strategy = ((p.loadModel P m (v.strategyOf strategy)).1,
      { v with
          gpuTensorPools := update v.gpuTensorPools dev (some (p.loadModel P m (v.strategyOf strategy)).2) }) := by
  simp only [loadModel, hm, hp]
  rfl

theorem VRAMManager.allocateBlocks_eq {dev : Int} {p : GPUTensorPool} (blockSize : Nat)
    (path : String) (n : Int) (hp : v.gpuTensorPools dev = some p) :
    v.allocateBlocks P dev blockSize path n = ((p.allocateBlocks P blockSize path n).1,
      { v with gpuTensorPools := update v.gpuTensorPools dev (some (p.allocateBlocks P blockSize path n).2) }) := by
  simp only [allocateBlocks, hp]

/-- What is carried along a run: every registered model satisfies `G`, and every pool satisfies `I`. -/
structure Good (G : RegisteredModel → Prop) (I : Int → GPUTensorPool → Prop) (v : VRAMManager) : Prop where
  models : ∀ path m, v.registeredModels path = some m → G m
  strategy : 1 ≤ v.loadStrategy ∧ v.loadStrategy ≤ 4
  pools : ∀ dev p, v.gpuTensorPools dev = some p → I dev p

section Good

variable {P : Platform} {G : RegisteredModel → Prop} {I : Int → GPUTensorPool → Prop} {v w : VRAMManager}

theorem Good.update {dev : Int} {p : GPUTensorPool} (h : Good G I v) (hp : I dev p) :
    Good G I { v with gpuTensorPools := update v.gpuTensorPools dev (some p) } := by
  refine ⟨h.models, h.strategy, ?_⟩
  intro dev' q hq
  by_cases hd : dev' = dev
  · subst hd
    simp only [update_self, some.injEq] at hq
    exact hq ▸ hp
  · simp only [update_of_ne hd] at hq
    exact h.pools dev' q hq

theorem Good.registerModel {m : RegisteredModel} (h : Good G I v) (hm : G m) : Good G I (v.registerModel m) := by
  unfold VRAMManager.registerModel
  split
  · exact h
  · refine ⟨?_, h.strategy, h.pools⟩
    intro path m' hm'
    by_cases hpa : path = m.modelPath
    · subst hpa
      simp only [update_self, some.injEq] at hm'
      exact hm' ▸ hm
    · simp only [update_of_ne hpa] at hm'
      exact h.models path m' hm'

theorem Good.strategyOf (h : Good G I v) {strategy : Int} (hs : 1 ≤ strategy ∧ strategy ≤ 4) :
    1 ≤ v.strategyOf strategy ∧ v.strategyOf strategy ≤ 4 := by
  unfold VRAMManager.strategyOf
  split
  · exact h.strategy
  · exact hs

theorem Good.step {op : Op} (h : Good G I v) (hop : op.Allowed G)
    (hld : ∀ path dev strategy m p, op = .loadModel path dev strategy → v.registeredModels path = some m →
      v.gpuTensorPools dev = some p → I dev (p.loadModel P m (v.strategyOf strategy)).2)
    (hbks : ∀ dev blockSize path n p, op = .allocateBlocks dev blockSize path n → v.gpuTensorPools dev = some p →
      I dev (p.allocateBlocks P blockSize path n).2) :
    Good G I (v.step P op) := by
  cases op with
  | registerModel m => exact h.registerModel hop
  | loadModel path dev strategy =>
    show Good G I (v.loadModel P path dev strategy).2
    cases hm : v.registeredModels path with
    | none =>
      simp only [VRAMManager.loadModel, hm]
      exact h
    | some m =>
      cases hp : v.gpuTensorPools dev with
      | none =>
        simp only [VRAMManager.loadModel, hm, hp]
        exact h
      | some p =>
        rw [loadModel_eq P strategy hm hp]
        exact h.update (hld path dev strategy m p rfl hm hp)
  | allocateBlocks dev blockSize path n =>
    show Good G I (v.allocateBlocks P dev blockSize path n).2
    cases hp : v.gpuTensorPools dev with
    | none =>
      simp only [VRAMManager.allocateBlocks, hp]
      exact h
    | some p =>
      rw [allocateBlocks_eq P blockSize path n hp]
      exact h.update (hbks dev blockSize path n p rfl hp)

theorem Reaches.good (h : Reaches P (fun _ op => op.Allowed G) v w) (h0 : Good G I v)
    (hld : ∀ dev m p strategy, G m → 1 ≤ strategy → strategy ≤ 4 → I dev p → I dev (p.loadModel P m strategy).2)
    (hbks : ∀ dev p blockSize path n, I dev p → I dev (p.allocateBlocks P blockSize path n).2) : Good G I w := by
  induction h with
  | refl => exact h0
  | step h hc ih =>
    refine ih.step hc ?_ ?_
    · intro path dev strategy m p hop hm hp
      subst hop
      have hs := ih.strategyOf hc
      exact hld dev m p _ (ih.models path m hm) hs.1 hs.2 (ih.pools dev p hp)
    · intro dev blockSize path n p _ hp
      exact hbks dev p blockSize path n (ih.pools dev p hp)

theorem VRAMManager.Fresh.good (h : v.Fresh) (hI : ∀ dev base total cpuBandwidth bytes, 0 < base → 0 < total →
      v.gpuTensorPools dev = some (init base total cpuBandwidth bytes) →
      I dev (init base total cpuBandwidth bytes)) : Good G I v := by
  refine ⟨?_, h.strategy, ?_⟩
  · intro path m hm
    rw [h.noModels] at hm
    exact absurd hm (by simp)
  · intro dev p hp
    obtain ⟨base, total, bw, bytes, hb, ht, rfl⟩ := h.pools dev p hp
    exact hI dev base total bw bytes hb ht hp

end Good

/-! ## A platform for examples -/

/-- A platform that makes no rounding errors, on which the given device-to-device and host-to-device calls fail. The matching
is empty, which is one of maximum weight since no edge has a positive weight. -/
def Platform.failing (moves loads : List Nat) : Platform where
  sortDesc := fun key l => l.insertionSort fun x y => key y ≤ key x
  sortDesc_perm := fun key l => List.perm_insertionSort _ l
  sortDesc_sorted := fun key l => by
    have : Std.Total fun x y => key y ≤ key x := ⟨fun x y => Nat.le_total _ _⟩
    have : IsTrans _ fun x y => key y ≤ key x := ⟨fun x y z h1 h2 => Nat.le_trans h2 h1⟩
    exact List.pairwise_insertionSort _ l
  roundDouble := id
  maximumWeightedMatching := fun _ _ _ => none
  mate_symm := by simp
  mate_edge := by simp
  deviceToDevice := fun k => { ok := k ∉ moves, junk := fun _ => 0 }
  hostToDevice := fun k => { ok := k ∉ loads, junk := fun _ => 0 }

/-- A platform on which every call succeeds. -/
def Platform.reliable : Platform := .failing [] []

theorem Platform.reliable_movesSucceed : Platform.reliable.MovesSucceed := fun _ => rfl

theorem Platform.reliable_loadsSucceed : Platform.reliable.LoadsSucceed := fun _ => rfl

/-- A model whose groups have these fingerprints and these bytes, all in host memory, with one tensor each. -/
def RegisteredModel.ofGroups (path : String) (groups : List (String × List UInt8)) : RegisteredModel where
  modelPath := path
  tensorGroupIndexes := groups.map fun g => ⟨0, g.2.length, g.1, [⟨g.1, 0, g.2.length⟩]⟩
  tensorGroupHostPtr := groups.map fun g => some g.2
  loadSensitive := 1

def GPUTensorPool.loadAll (P : Platform) (strategy : Int) (p : GPUTensorPool) (ms : List RegisteredModel) : GPUTensorPool :=
  ms.foldl (fun q m => (q.loadModel P m strategy).2) p

/-- A manager with one fresh pool, of `total` bytes at address `base`, on device 0. -/
def VRAMManager.single (base total : Nat) : VRAMManager where
  registeredModels := fun _ => none
  gpuTensorPools := fun dev => if dev = 0 then some (.init base total 1 fun _ => 0) else none
  loadStrategy := 4

theorem VRAMManager.single_fresh {base total : Nat} (hb : 0 < base) (ht : 0 < total) : (single base total).Fresh := by
  refine ⟨fun _ => rfl, ⟨show (1 : Int) ≤ 4 by decide, show (4 : Int) ≤ 4 by decide⟩, fun dev p hp => ?_⟩
  refine ⟨base, total, 1, fun _ => 0, hb, ht, ?_⟩
  unfold single at hp
  dsimp only at hp
  split at hp
  · exact (some.inj hp).symm
  · exact absurd hp (by simp)

/-- The requests that register and load models on device 0, one after another. -/
def loadOps (strategy : Int) (ms : List RegisteredModel) : List Op :=
  ms.flatMap fun m => [.registerModel m, .loadModel m.modelPath 0 strategy]

theorem loadOps_allowed {G : RegisteredModel → Prop} {strategy : Int} {ms : List RegisteredModel}
    (hs : 1 ≤ strategy ∧ strategy ≤ 4) (hG : ∀ m ∈ ms, G m) : ∀ op ∈ loadOps strategy ms, op.Allowed G := by
  intro op hop
  obtain ⟨m, hm, hop⟩ := List.mem_flatMap.1 hop
  simp only [List.mem_cons, List.not_mem_nil, or_false] at hop
  rcases hop with rfl | rfl
  · exact hG m hm
  · exact hs

end ServerlessLLM
