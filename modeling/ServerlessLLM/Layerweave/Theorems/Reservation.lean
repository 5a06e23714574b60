import ServerlessLLM.Layerweave.Theorems.Dispatch
import ServerlessLLM.Layerweave.TraceBench
import ServerlessLLM.Vmm.Theorems.Availability

/-!
# Reservations and the pool

`run` divides the bytes of all blocks of an engine by the page size, and the pool gives each block pages of its own.
-/

namespace ServerlessLLM.Layerweave

open List Dict State

/-! ## The two counts -/

open Vmm.VmmVRAMManager (create step registerPair ofPages)

variable {policy : Policy} {pageSize : Nat} {stats : List OdkvStats} {M : Vmm.VmmVRAMManager} {p : Vmm.Pool} {device : ℤ}
  {modelPath : Nat → String}

def blockPages (pageSize : Nat) (stats : List OdkvStats) : Nat :=
  (stats.map fun s => s.currentBlocks * ((s.blockSizeBytes + pageSize - 1) / pageSize)).sum

/-- Rounding all blocks at once comes to as many pages as rounding each. -/
def RoundsAlike (pageSize : Nat) (s : OdkvStats) : Prop :=
  s.currentBlocks * ((s.blockSizeBytes + pageSize - 1) % pageSize) < pageSize

theorem mul_div_eq (n a : Nat) (hg : 0 < pageSize) : n * a / pageSize = n * (a / pageSize) + n * (a % pageSize) / pageSize := by
  conv_lhs => rw [← Nat.div_add_mod a pageSize, Nat.mul_add, Nat.mul_left_comm, Nat.mul_add_div hg]

theorem currentKvPages_eq_iff (hg : 0 < pageSize) : currentKvPages pageSize stats = blockPages pageSize stats ↔
    ∀ s ∈ stats, RoundsAlike pageSize s := by
  have hle : ∀ stats, blockPages pageSize stats ≤ currentKvPages pageSize stats := by
    intro stats
    refine sum_le_sum ?_
    intro s _
    rw [mul_div_eq _ _ hg]
    exact Nat.le_add_right _ _
  induction stats with
  | nil => simp [currentKvPages, blockPages]
  | cons s stats ih =>
    have hone : s.currentBlocks * (s.blockSizeBytes + pageSize - 1) / pageSize =
        s.currentBlocks * ((s.blockSizeBytes + pageSize - 1) / pageSize) ↔ RoundsAlike pageSize s := by
      rw [mul_div_eq _ _ hg, Nat.add_eq_left, Nat.div_eq_zero_iff_lt hg]
      exact Iff.rfl
    have hge : s.currentBlocks * ((s.blockSizeBytes + pageSize - 1) / pageSize) ≤ s.currentBlocks *
      (s.blockSizeBytes + pageSize - 1) / pageSize := by
      rw [mul_div_eq _ _ hg]
      exact Nat.le_add_right _ _
    rw [forall_mem_cons]
    refine Iff.trans ?_ (and_congr hone ih)
    have htail := hle stats
    unfold currentKvPages blockPages at htail ⊢
    rw [map_cons, map_cons, sum_cons, sum_cons]
    omega

/-! ## The pages of the pool -/

/-- The KV blocks of the pool are those of the engines: so many of each size. -/
def Serves (p : Vmm.Pool) (stats : List OdkvStats) : Prop :=
  p.legacyKv = [] ∧ (p.kvBlocks.entries.map fun e => e.2.logicalBytes).Perm
    (stats.flatMap fun s => replicate s.currentBlocks s.blockSizeBytes)

def heldKvPages (p : Vmm.Pool) : Nat := (p.kvBlocks.entries.map fun e => e.2.mappings.length).sum

theorem heldKvPages_eq (hk : Vmm.Pool.KVArena p) (hsvs : Serves p stats) : heldKvPages p = blockPages p.granularity stats := by
  have hpgs : heldKvPages p = ((p.kvBlocks.entries.map fun e => e.2.logicalBytes).map p.pagesFor).sum := by
    unfold heldKvPages
    rw [map_map]
    refine congrArg sum (map_congr_left ?_)
    intro e he
    have hlen := Vmm.Pool.length_held (hk.blocks e he)
    unfold Vmm.Allocation.held at hlen
    rwa [length_map] at hlen
  rw [hpgs, (hsvs.2.map p.pagesFor).sum_eq, map_flatMap, flatMap_def, sum_flatten, map_map]
  unfold blockPages Vmm.Pool.pagesFor
  simp [Function.comp_def]

theorem freePages_eq (hr : Vmm.Pool.Reached p) (hwts : p.weights.entries = []) (hsvs : Serves p stats) :
    p.freePages = p.pageCapacity - ((p.stableWeights.entries.map fun e => e.2.physicalExtentIds.countP Option.isSome).sum +
      heldKvPages p) := by
  obtain ⟨⟨lost, hs⟩, -⟩ := hr
  have hkv : (p.kvBlocks.entries.flatMap fun e => e.2.held).length = heldKvPages p := by
    rw [length_flatMap]
    unfold heldKvPages Vmm.Allocation.held
    simp only [length_map]
  have hstb : p.stableHeld.length = (p.stableWeights.entries.map fun e => e.2.physicalExtentIds.countP Option.isSome).sum := by
    unfold Vmm.Pool.stableHeld
    rw [length_flatMap]
    exact congrArg sum (map_congr_left fun e _ => e.2.length_held)
  unfold Vmm.Pool.freePages
  rw [hs.used, append_nil]
  unfold Vmm.Pool.held Vmm.Pool.allocationHeld
  rw [hwts, hsvs.1]
  simp only [flatMap_nil, nil_append, append_nil, length_append, hkv, hstb]

theorem map_getD_range {α : Type} (l : List α) (d : α) : (range l.length).map (fun i => l.getD i d) = l :=
  ext_getElem (by simp) fun i _ hi => by simp [getElem?_eq_getElem hi]

theorem card_filter_range (l : List Bool) :
    (((range l.length).filter fun i => l.getD i false).toFinset).card = l.countP id := by
  rw [toFinset_card_of_nodup (nodup_range.filter _), ← countP_eq_length_filter]
  conv_rhs => rw [← map_getD_range l false, countP_map]
  rfl

theorem countP_residency (hp : M.pools.get? device = some p) {path : String} {model : Vmm.RegisteredModel}
    (hmod : M.models.get? path = some model)
    {arena : Vmm.StableWeightArena} (ha : p.stableWeights.get? path = some arena) :
    ((M.getLayerWeaveResidency path device).getD []).countP id = arena.physicalExtentIds.countP Option.isSome := by
  have hext : ∀ page, p.extentOf path page = arena.physicalExtentIds.getD page none := by
    intro page
    unfold Vmm.Pool.extentOf
    rw [ha]
    rfl
  have hlen : p.arenaPages path = arena.physicalExtentIds.length := by
    unfold Vmm.Pool.arenaPages
    rw [ha]
    rfl
  unfold Vmm.VmmVRAMManager.getLayerWeaveResidency
  rw [hmod, hp]
  simp only [Option.getD_some, hext, hlen]
  conv_rhs => rw [← map_getD_range arena.physicalExtentIds none, countP_map]
  rw [countP_map]
  rfl

theorem sum_card_residencies (hk : Vmm.VmmVRAMManager.Kept M) (hp : M.pools.get? device = some p)
    (hmds : (policy.controllers.keys.map modelPath).Perm M.models.keys) (activeModelId : Nat) (batch pending : List Request) :
    ((policy.residencies (dispatchArguments M device modelPath pageSize stats activeModelId batch pending)).entries.map fun e => e.2.card).sum =
      (p.stableWeights.entries.map fun e => e.2.physicalExtentIds.countP Option.isSome).sum := by
  have hks : M.models.keys.Perm p.stableWeights.keys := by
    refine (perm_ext_iff_of_nodup M.models.nodup p.stableWeights.nodup).2 fun path => ⟨?_, (hk.pools device p hp).2.2 path⟩
    intro h
    obtain ⟨model, hmod⟩ := mem_keys_iff.1 h
    obtain ⟨packedBytes, -, hars⟩ := hk.models path model hmod
    obtain ⟨arena, ha, -⟩ := hars device p hp
    exact mem_keys_iff.2 ⟨arena, ha⟩
  have har : ∀ e ∈ p.stableWeights.entries,
      ((M.getLayerWeaveResidency e.1 device).getD []).countP id = e.2.physicalExtentIds.countP Option.isSome := by
    intro e he
    obtain ⟨model, hmod⟩ := mem_keys_iff.1 (hks.mem_iff.2 (mem_map_of_mem (f := Prod.fst) he))
    exact countP_residency hp hmod (mem_entries_iff.1 he)
  calc ((policy.residencies (dispatchArguments M device modelPath pageSize stats activeModelId batch pending)).entries.map fun e => e.2.card).sum
      = ((policy.controllers.keys.map modelPath).map fun path =>
        ((M.getLayerWeaveResidency path device).getD []).countP id).sum := by
        unfold Policy.residencies dispatchArguments mapValues Dict.keys
        simp only [Option.getD_none, map_map]
        exact congrArg sum (map_congr_left fun e _ => card_filter_range _)
    _ = (p.stableWeights.keys.map fun path => ((M.getLayerWeaveResidency path device).getD []).countP id).sum :=
        ((hmds.trans hks).map _).sum_eq
    _ = (p.stableWeights.entries.map fun e => e.2.physicalExtentIds.countP Option.isSome).sum := by
        unfold Dict.keys
        rw [map_map]
        exact congrArg sum (map_congr_left har)

/-! ## What a dispatch evicts -/

namespace State

variable {s s' : State policy} {args : Arguments} {controller : Controller} {residencies : Dict Nat (Finset ℕ)}
  {marginal : List (Nat × Marginal)} {need : Reservation} {d : Decision} {report : Report}
    {kvBlockSizeTokens kvBlockSizeBytes : Nat}

theorem reclaim_evicts (hmds : residencies.keys.Perm policy.controllers.keys)
    (h : s.reclaim args controller residencies need marginal d = (.ok report, s')) :
    report.freePagesBefore = need.freePagesBefore ∧ report.evictedPages = need.evictionRequired ∧
      (policy.controllers.keys.map fun m => (report.residentAfter residencies m).card).sum + need.evictionRequired =
        (residencies.entries.map fun e => e.2.card).sum := by
  obtain ⟨hen, hfe, hev⟩ : need.evictionRequired ≤ ((s.protect (d.choices.set args.activeModelId d.active)).victims
      args.activeModelId marginal (d.choices.set args.activeModelId d.active) residencies).length ∧
        report.freePagesBefore = need.freePagesBefore ∧ report.evictedPages = need.evictionRequired := by
    unfold reclaim at h
    simp only at h
    split at h
    · cases h
    · split at h
      · cases h
      · rename_i hlen
        cases h
        rw [length_take, Nat.not_lt] at hlen
        refine ⟨hlen.trans (Nat.min_le_right _ _), rfl, ?_⟩
        exact length_take.trans (Nat.min_eq_left (hlen.trans (Nat.min_le_right _ _)))
  obtain ⟨report', selected, hrcl, -, -, -, -, hlen, hsub, hnd, haft⟩ := reclaim_ok hmds hen
  rw [h] at hrcl
  cases hrcl
  refine ⟨hfe, hev, ?_⟩
  have hsum := sum_retained hsub hnd
  rw [hlen, sum_pagesOf hmds] at hsum
  rw [← hsum]
  congr 2
  exact map_congr_left fun m hm => by rw [haft m hm]

theorem planDispatch_evicts (hact : policy.controllers.get? args.activeModelId = some controller)
    (hmds : (policy.residencies args).keys.Perm policy.controllers.keys)
    (h : s.planDispatch args kvBlockSizeTokens kvBlockSizeBytes = (.ok report, s')) :
    let need := reservation policy args controller (policy.residencies args) kvBlockSizeTokens kvBlockSizeBytes
    report.freePagesBefore = need.freePagesBefore ∧ report.evictedPages = need.evictionRequired ∧
      (policy.controllers.keys.map fun m => (report.residentAfter (policy.residencies args) m).card).sum +
        need.evictionRequired =
        ((policy.residencies args).entries.map fun e => e.2.card).sum := by
  unfold planDispatch at h
  simp only [hact] at h
  split at h
  · cases h
  · split at h
    · cases h
    · split at h
      · cases h
      · exact reclaim_evicts hmds h

end State

/-! ## The agreement -/

/-- The KV pages that a dispatch counts are those of the pool, and so are its free pages; and it evicts what is missing beyond
these. -/
structure ReservationAgrees (policy : Policy) (p : Vmm.Pool) (args : Arguments) (controller : Controller)
    (kvBlockSizeTokens kvBlockSizeBytes : Nat) : Prop where
  kvPages : args.currentKvPages = heldKvPages p
  freePages : (reservation policy args controller
    (policy.residencies args) kvBlockSizeTokens kvBlockSizeBytes).freePagesBefore =
    p.freePages
  evicts : ∀ (s : State policy) (report : Report) (s' : State policy),
    s.planDispatch args kvBlockSizeTokens kvBlockSizeBytes = (.ok report, s') →
      report.freePagesBefore = p.freePages ∧
      report.evictedPages = (controller.requiredPages \ pagesOf (policy.residencies args) args.activeModelId).card +
        kvBlocks args.batch kvBlockSizeTokens * kvPagesPerBlock policy kvBlockSizeBytes - p.freePages ∧
      (policy.controllers.keys.map fun m => (report.residentAfter (policy.residencies args) m).card).sum + report.evictedPages =
        ((policy.residencies args).entries.map fun e => e.2.card).sum

/-- After every run of the manager the reservation agrees with the pool just when, for every engine, rounding all of its blocks
at once is rounding each. -/
theorem reservation_agrees_iff {native : ℤ → Nat} {memory : ℤ → Vmm.Handle → Nat → UInt8}
    {poolSize requested : Nat} {gpuIds : List ℤ}
    {M₀ : Vmm.VmmVRAMManager} (hM : create native memory poolSize gpuIds requested = some M₀)
    {cs : List (Vmm.Outside × Vmm.VmmVRAMManager.Op)} (hrun : cs.foldlM step M₀ = some M)
    (hp : M.pools.get? device = some p) (hsize : policy.pageSize = p.granularity) (hpool : policy.poolPages = p.pageCapacity)
    (hmodels : (policy.controllers.keys.map modelPath).Perm M.models.keys) (hserves : Serves p stats) {activeModelId : Nat}
    {controller : Controller} (hactive : policy.controllers.get? activeModelId = some controller) (batch pending : List Request)
    (kvBlockSizeTokens kvBlockSizeBytes : Nat) :
    ReservationAgrees policy p (dispatchArguments M device modelPath policy.pageSize stats activeModelId batch pending) controller
      kvBlockSizeTokens kvBlockSizeBytes ↔ ∀ e ∈ stats, RoundsAlike p.granularity e := by
  have hkept : Vmm.VmmVRAMManager.Kept M :=
    Runs.run_invariant (fun M c M' h hst => (Vmm.VmmVRAMManager.step_kept h hst).kept)
      (Vmm.VmmVRAMManager.create_spec hM).1 hrun
  obtain ⟨hrch, hwts, -⟩ := hkept.pools device p hp
  have hpgs : currentKvPages p.granularity stats = heldKvPages p ↔ ∀ e ∈ stats, RoundsAlike p.granularity e := by
    rw [heldKvPages_eq hrch.2 hserves, currentKvPages_eq_iff (hsize ▸ policy.pageSize_pos)]
  rw [← hpgs, ← hsize]
  refine ⟨ReservationAgrees.kvPages, ?_⟩
  intro hkv
  have hfe : (reservation policy (dispatchArguments M device modelPath policy.pageSize stats activeModelId batch pending) controller
      (policy.residencies (dispatchArguments M device modelPath policy.pageSize stats activeModelId batch pending)) kvBlockSizeTokens
      kvBlockSizeBytes).freePagesBefore = p.freePages := by
    rw [freePages_eq hrch hwts hserves, ← sum_card_residencies hkept hp hmodels activeModelId batch pending, ← hkv, ← hpool,
      ← Nat.sub_sub]
    rfl
  refine ⟨hkv, hfe, ?_⟩
  intro s report s' hpl
  have hks : (policy.residencies (dispatchArguments M device modelPath policy.pageSize stats activeModelId batch pending)).keys.Perm
      policy.controllers.keys := by
    unfold Policy.residencies dispatchArguments
    rw [Option.getD_none, keys_mapValues]
  obtain ⟨hbef, hev, hsum⟩ := planDispatch_evicts hactive hks hpl
  refine ⟨hbef.trans hfe, ?_, hev ▸ hsum⟩
  rw [hev, ← hfe]
  rfl

def twoPages : Controller where
  requiredPages := {0, 1}
  initialPages := ∅
  layerPages := [{0}, {1}]
  layerPages_ne := nofun
  prefixCachePages := fun
    | .zero => ∅
    | _ => {0, 1}

def oneModel (pageSize : Nat) (hpos : 0 < pageSize) : Policy where
  controllers := Dict.empty.set 0 twoPages
  profiles := fun _ => ⟨1, unit_pos, 0, .empty, .empty, .empty⟩
  pageSize := pageSize
  pageSize_pos := hpos
  poolPages := 4
  decay := 1
  uncertaintyMs := 0
  policyMode := .demand

/-- The model is registered, one of its pages is prepared, and a KV block is allocated. -/
def preparedWithBlock : List (Vmm.Outside × Vmm.VmmVRAMManager.Op) :=
  [registerPair, (.reliable, .prepareLayerWeavePages "a" 0 [0]), (.reliable, .allocateKVBlocks "a" 1 0 [0])]

theorem reservation_agrees_iff_preparedWithBlock : ∃ M p, preparedWithBlock.foldlM step (ofPages 4) = some M ∧
    M.pools.get? 0 = some p ∧
    (ReservationAgrees (oneModel 1 Nat.one_pos) p
      (dispatchArguments M 0 (fun _ => "a") 1 [⟨1, 1⟩] 0 [⟨0, 1, 0⟩] []) twoPages 1 1 ↔
      ∀ e ∈ [(⟨1, 1⟩ : OdkvStats)], RoundsAlike p.granularity e) := by
  obtain ⟨M, hrun⟩ : ∃ M, preparedWithBlock.foldlM step (ofPages 4) = some M := ⟨_, rfl⟩
  obtain ⟨p, hp⟩ : ∃ p, M.pools.get? 0 = some p := by
    cases hrun
    exact ⟨_, rfl⟩
  refine ⟨M, p, hrun, hp, reservation_agrees_iff Vmm.VmmVRAMManager.create_ofPages_four hrun hp ?_ ?_ ?_ ?_ rfl _ _ _ _⟩
  · cases hrun
    cases hp
    rfl
  · cases hrun
    cases hp
    rfl
  · cases hrun
    decide +kernel
  · cases hrun
    cases hp
    exact ⟨rfl, by decide +kernel⟩

/-- A manager with pages of two bytes. -/
def ofLargerPages : Vmm.VmmVRAMManager :=
  (create (fun _ => 1) (fun _ _ _ => 0) 8 [0] 2).getD ⟨.empty, .empty, .empty, .empty, .empty, 0, 0, 0, .empty, .empty, .empty⟩

def twoBlocks : List (Vmm.Outside × Vmm.VmmVRAMManager.Op) :=
  [registerPair, (.reliable, .allocateKVBlocks "a" 2 0 [0, 1])]

/-- Two blocks of one page each are counted as three pages. -/
theorem third_page_counted : ∃ M p, twoBlocks.foldlM step ofLargerPages = some M ∧ M.pools.get? 0 = some p ∧
    Serves p [⟨2, 2⟩] ∧ heldKvPages p = 2 ∧ currentKvPages 2 [⟨2, 2⟩] = 3 ∧
    ¬ReservationAgrees (oneModel 2 Nat.two_pos) p
      (dispatchArguments M 0 (fun _ => "a") 2 [⟨2, 2⟩] 0 [⟨0, 1, 0⟩] []) twoPages 1 2 := by
  obtain ⟨M, hrun⟩ : ∃ M, twoBlocks.foldlM step ofLargerPages = some M := ⟨_, rfl⟩
  obtain ⟨p, hp⟩ : ∃ p, M.pools.get? 0 = some p := by
    cases hrun
    exact ⟨_, rfl⟩
  obtain ⟨hsvs, hhe⟩ : Serves p [⟨2, 2⟩] ∧ heldKvPages p = 2 := by
    cases hrun
    cases hp
    exact ⟨⟨rfl, by decide +kernel⟩, by decide +kernel⟩
  refine ⟨M, p, hrun, hp, hsvs, hhe, by decide, fun hagr => ?_⟩
  have hpgs : currentKvPages 2 [⟨2, 2⟩] = 2 := hagr.kvPages.trans hhe
  revert hpgs
  decide

end ServerlessLLM.Layerweave
