import ServerlessLLM.Vram.Lemmas.LoadOps
import ServerlessLLM.Vram.Runs

/-!
# Partitioned bin packing

When the requests fit the FREE bytes, the planner of strategy 4 finds a place for each of them on every list, and the loop that
merges and fills its groups places each of them there.
-/

namespace ServerlessLLM

open Linked List GPUTensorPool Region

/-- One operation on a pool, called as `LoadModel` and `AllocateBlocks` call it: sizes are positive, regions are regions of the
list, and a stretch that is merged ends with a FREE region. The two calls themselves are operations too. -/
inductive PoolStep (P : Platform) : GPUTensorPool → GPUTensorPool → Prop
  | freeRegion {p : GPUTensorPool} {i : NodeId} (hi : i ∈ p.regions) (hs : (p.region i).status = .ALLOCATED) :
      PoolStep P p (p.freeRegion i)
  | allocateRegionFromList {p : GPUTensorPool} {size : Nat} (fp : String) (h0 : 0 < size) :
      PoolStep P p (p.allocateRegionFromList size fp).2
  | allocateFreeRegion {p : GPUTensorPool} {i : NodeId} {size : Nat} (fp : String) (hi : i ∈ p.regions) (h0 : 0 < size) :
      PoolStep P p (p.allocateFreeRegion i size fp).2
  | allocateNewRegion {p : GPUTensorPool} {i : NodeId} {size : Nat} (fp : String) (hi : i ∈ p.regions) (h0 : 0 < size) :
      PoolStep P p (p.allocateNewRegion i size fp).2.2
  | setModelRef {p : GPUTensorPool} {i : NodeId} (m : RegisteredModel) (hi : i ∈ p.regions) : PoolStep P p (p.setModelRef i m)
  | mergeRegions {p : GPUTensorPool} {s e : NodeId} (hs : s ∈ p.regions) (he : e ∈ p.regionsUntil (some s) none)
      (hf : (p.region e).status = .FREE) : PoolStep P p (p.mergeRegions P (some s) (some e) true).2
  | greedyMerge {p : GPUTensorPool} {n : Nat} (h0 : 0 < n) : PoolStep P p (p.greedyMerge P n).2
  | greedyDrop {p : GPUTensorPool} (n : Nat) (skipModel : String) : PoolStep P p (p.greedyDrop P n skipModel).2
  | globalDeFrag {p : GPUTensorPool} : PoolStep P p (p.globalDeFrag P).2
  | greedyDropBlocks {p : GPUTensorPool} (blockSize : Nat) (path : String) (n : Int) :
      PoolStep P p (p.greedyDropBlocks P blockSize path n).2
  | useModel {p : GPUTensorPool} (path : String) : PoolStep P p (p.useModel path)
  | cleanBlocks {p : GPUTensorPool} : PoolStep P p p.cleanBlocks
  | allocateBlocks {p : GPUTensorPool} (blockSize : Nat) (path : String) (n : Int) :
      PoolStep P p (p.allocateBlocks P blockSize path n).2
  | loadModel {p : GPUTensorPool} {m : RegisteredModel} {strategy : Int} (h1 : 1 ≤ strategy) (h4 : strategy ≤ 4)
      (hpos : ∀ tg ∈ m.tensorGroupIndexes, 0 < tg.size) : PoolStep P p (p.loadModel P m strategy).2

section Steps

variable {P : Platform} {a b : Nat} {p q : GPUTensorPool}

/-- The list of the pool is in order again, and the pool is where it was. -/
structure Kept (a b : Nat) (p q : GPUTensorPool) : Prop where
  wellFormed : WellFormed a b q
  base : q.gpuBaseAddr = p.gpuBaseAddr

theorem WellFormed.kept (h : WellFormed a b p) : Kept a b p p := ⟨h, rfl⟩

theorem WellFormed.kept_cutRegion (h : WellFormed a b p) {A C : List Cell} {x : Cell} (hc : p.cells = A ++ x :: C)
    (hx : x.2.status = .FREE) {size : Nat} (fp : String) (h0 : 0 < size) (hs : size ≤ x.2.size) :
    Kept a b p (p.cutRegion x.1 size fp).1 := by
  obtain ⟨h1, -, -, h4⟩ := h.cutRegion hc hx fp h0 hs
  exact ⟨h1, h4.base⟩

theorem WellFormed.allocateFreeRegion (h : WellFormed a b p) {i : NodeId} {size : Nat} (fp : String) (hi : i ∈ p.regions)
    (h0 : 0 < size) : Kept a b p (p.allocateFreeRegion i size fp).2 := by
  obtain ⟨x, hx, rfl⟩ := h.mem_of_regions.1 hi
  obtain ⟨A, C, hc⟩ := append_of_mem hx
  unfold GPUTensorPool.allocateFreeRegion
  rw [h.region_eq hx]
  split
  · exact h.kept
  · rename_i hno
    push Not at hno
    exact h.kept_cutRegion hc hno.1 fp h0 hno.2

theorem WellFormed.allocateNewRegion (h : WellFormed a b p) {i : NodeId} {size : Nat} (fp : String) (hi : i ∈ p.regions)
    (h0 : 0 < size) : Kept a b p (p.allocateNewRegion i size fp).2.2 := by
  obtain ⟨x, hx, rfl⟩ := h.mem_of_regions.1 hi
  obtain ⟨A, C, hc⟩ := append_of_mem hx
  unfold GPUTensorPool.allocateNewRegion
  rw [h.region_eq hx]
  split
  · exact h.kept
  · rename_i hno
    push Not at hno
    exact h.kept_cutRegion hc hno.1 fp h0 hno.2

theorem WellFormed.allocateRegionFromList (h : WellFormed a b p) {size : Nat} (fp : String) (h0 : 0 < size) :
    Kept a b p (p.allocateRegionFromList size fp).2 := by
  unfold GPUTensorPool.allocateRegionFromList
  split
  · rename_i i hi
    obtain ⟨x, hx, rfl⟩ := h.mem_of_regions.1 (mem_of_find?_eq_some hi)
    obtain ⟨A, C, hc⟩ := append_of_mem hx
    have hfit := find?_some hi
    rw [h.region_eq hx, decide_eq_true_eq] at hfit
    exact h.kept_cutRegion hc hfit.1 fp h0 hfit.2
  · exact h.kept

theorem Layout.setRegion {A C : List Cell} {x : Cell} {r : Region} (h : Layout a b (A ++ x :: C)) (ha : r.addr = x.2.addr)
    (hs : r.size = x.2.size) (ht : r.status = x.2.status) : Layout a b (A ++ (x.1, r) :: C) := by
  obtain ⟨h1, h2, h3, h4⟩ := h
  refine ⟨?_, ?_, ?_, by simpa using h4⟩
  · exact Tiling.Tiles.of_map_eq h1 (by simp [ha, hs])
  · simp only [noLoading_append, noLoading_cons, ht] at h2 ⊢
    exact h2
  · simp only [noAdjacentFree_append, noAdjacentFree_cons, head?_cons, Option.mem_def, Option.some.injEq,
      forall_eq', ht] at h3 ⊢
    exact h3

theorem WellFormed.setModelRef (h : WellFormed a b p) {i : NodeId} (m : RegisteredModel) (hi : i ∈ p.regions) :
    Kept a b p (p.setModelRef i m) := by
  obtain ⟨x, hx, rfl⟩ := h.mem_of_regions.1 hi
  obtain ⟨A, C, hc⟩ := append_of_mem hx
  have hh : Holds p (A ++ x :: C) := hc ▸ h.holds
  unfold GPUTensorPool.setModelRef
  rw [h.region_eq hx]
  exact ⟨(hh.setRegion _).wellFormed ((hc ▸ h.layout).setRegion rfl rfl rfl), rfl⟩

theorem WellFormed.stretch (h : WellFormed a b p) {s e : NodeId} (hs : s ∈ p.regions)
    (he : e ∈ p.regionsUntil (some s) none) : ∃ A W C, p.cells = A ++ W ++ C ∧ first W = some s ∧ last W = some e := by
  obtain ⟨x, hx, rfl⟩ := h.mem_of_regions.1 hs
  obtain ⟨A, R, hc⟩ := append_of_mem hx
  have hrep : Rep p.store (A ++ (x :: R) ++ []) := by
    rw [append_nil]
    exact hc ▸ h.holds.rep
  have hwalk : p.regionsUntil (some x.1) none = ids (x :: R) := hrep.walkUntil (by simp)
  rw [hwalk] at he
  obtain ⟨y, hy, rfl⟩ := mem_ids.1 he
  obtain ⟨W, C, hWC⟩ := append_of_mem hy
  refine ⟨A, W ++ [y], C, by rw [hc, hWC]; simp, ?_, by simp⟩
  cases W with
  | nil =>
    obtain ⟨rfl, -⟩ : x = y ∧ R = C := by simpa using hWC
    rfl
  | cons z W =>
    obtain ⟨rfl, -⟩ : x = z ∧ R = W ++ y :: C := by simpa using hWC
    rfl

theorem WellFormed.mergeRegions (hP : P.MovesSucceed) (h : WellFormed a b p) (h0 : 0 < a) {s e : NodeId} (hs : s ∈ p.regions)
    (he : e ∈ p.regionsUntil (some s) none) (hf : (p.region e).status = .FREE) :
    Kept a b p (p.mergeRegions P (some s) (some e) true).2 := by
  obtain ⟨A, W, C, hc, hs', he'⟩ := h.stretch hs he
  have hl : NoLoading W := fun c hcW => h.layout.noLoading c (by rw [hc]; simp [hcW])
  obtain ⟨w, F, -, hm⟩ := h.wellLinked.mergeRegions (S := fun _ => True) hP h0 hc hs' he' hl hf fun _ _ => trivial
  exact ⟨hm.wellLinked.wellFormed (hm.compacted.layout a b h.layout), hm.frame.base⟩

theorem WellFormed.greedyMerge_snd (hP : P.MovesSucceed) (h : WellFormed a b p) (h0 : 0 < a) {n : Nat} (hn : 0 < n) :
    Kept a b p (p.greedyMerge P n).2 := by
  by_cases hle : n ≤ freeBytes p.cells
  · obtain ⟨F, q, he, hq, -, -, -, -, hf⟩ := h.greedyMerge (S := fun _ => True) hP h0 hn hle fun _ _ _ _ _ _ => trivial
    rw [he]
    exact ⟨hq, hf.base⟩
  · -- the free bytes do not reach `n`, and no window is merged
    have hlt : p.getFreeSize < n := by
      rw [h.holds.getFreeSize_eq]
      omega
    unfold GPUTensorPool.greedyMerge GPUTensorPool.mergeWindow
    simp only [hlt, or_true, if_true]
    split <;> exact h.kept

theorem WellFormed.cells_ne_nil (h : WellFormed a b p) (hab : a < b) : p.cells ≠ [] := by
  intro hc
  have := h.layout.tiling
  rw [hc, isTiling_nil] at this
  omega

theorem PoolStep.kept (hP : P.MovesSucceed) (h0 : 0 < a) (hab : a < b) (h : WellFormed a b p) (hba : p.gpuBaseAddr = a)
    (hs : PoolStep P p q) : Kept a b p q := by
  cases hs with
  | freeRegion hi hs =>
    obtain ⟨x, hx, rfl⟩ := h.mem_of_regions.1 hi
    obtain ⟨A, C, hc⟩ := append_of_mem hx
    rw [h.region_eq hx] at hs
    obtain ⟨h1, -, h3⟩ := h.freeRegion hc hs
    exact ⟨h1, h3.base⟩
  | allocateRegionFromList fp hn => exact h.allocateRegionFromList fp hn
  | allocateFreeRegion fp hi hn => exact h.allocateFreeRegion fp hi hn
  | allocateNewRegion fp hi hn => exact h.allocateNewRegion fp hi hn
  | setModelRef m hi => exact h.setModelRef m hi
  | mergeRegions hs he hf => exact h.mergeRegions hP h0 hs he hf
  | greedyMerge hn => exact h.greedyMerge_snd hP h0 hn
  | greedyDrop n skipModel =>
    have := (greedyDrop_spec (P := P) h n skipModel).1
    exact ⟨this.wellFormed, this.frame.base⟩
  | globalDeFrag =>
    obtain ⟨-, h2, -, -, h5⟩ := h.globalDeFrag (S := fun _ => True) hP h0 (h.cells_ne_nil hab) fun _ _ => trivial
    exact ⟨h2, h5.base⟩
  | greedyDropBlocks blockSize path n =>
    have := greedyDropBlocks_spec (P := P) h blockSize path n
    exact ⟨this.wellFormed, this.frame.base⟩
  | useModel path =>
    obtain ⟨u1, u2, -, -, u5⟩ := p.useModel_frame path
    exact ⟨(h.of_eq u1 u2).1, u5.base⟩
  | cleanBlocks =>
    obtain ⟨h1, h2, -, -⟩ := h.cleanBlocks
    exact ⟨h1, h2.base⟩
  | allocateBlocks blockSize path n =>
    obtain ⟨q, hq, hcrv⟩ := h.allocateBlocks (P := P) hba blockSize path n
    exact ⟨hcrv.wellFormed, hcrv.base.trans hq.frame.base⟩
  | loadModel h1 h4 hpos =>
    obtain ⟨hw, hf⟩ := (h.loadModel hP h0 h1 h4 hpos fun _ _ => windowsOk_true).wellFormed h
    exact ⟨hw, hf.base⟩

def PoolRun (P : Platform) : GPUTensorPool → GPUTensorPool → Prop := Relation.ReflTransGen (PoolStep P)

theorem PoolRun.kept (hP : P.MovesSucceed) (h0 : 0 < a) (hab : a < b) (h : WellFormed a b p) (hba : p.gpuBaseAddr = a)
    (hr : PoolRun P p q) : Kept a b p q := by
  induction hr with
  | refl => exact h.kept
  | tail _ hs ih =>
    have := hs.kept hP h0 hab ih.wellFormed (ih.base.trans hba)
    exact ⟨this.wellFormed, this.base.trans ih.base⟩

/-- The regions of a pool tile it after every run, when the device-to-device calls succeed: each region starts where the one
before it ends, no size is zero, `prev` and `next` agree, the head has no `prev`, and no two neighbours are FREE. -/
theorem pool_tiles {base total : Nat} {cpuBandwidth : ℚ} {bytes : Nat → UInt8} (hP : P.MovesSucceed) (h0 : 0 < base)
    (ht : 0 < total) (h : PoolRun P (init base total cpuBandwidth bytes) p) : WellFormed base (base + total) p :=
  (h.kept hP h0 (by omega) (wellFormed_init ht cpuBandwidth bytes) rfl).wellFormed

theorem poolRun_loadAll (P : Platform) {strategy : Int} (h1 : 1 ≤ strategy) (h4 : strategy ≤ 4) (p : GPUTensorPool)
    {ms : List RegisteredModel} (hpos : ∀ m ∈ ms, ∀ tg ∈ m.tensorGroupIndexes, 0 < tg.size) :
    PoolRun P p (p.loadAll P strategy ms) := by
  induction ms generalizing p with
  | nil => exact .refl
  | cons m ms ih =>
    exact .head (.loadModel h1 h4 (hpos m (by simp))) (ih _ fun m' hm => hpos m' (by simp [hm]))

end Steps

/-- Six models for a pool of twelve bytes: the last one needs the room of every other one before it, and the merge that makes
the room slides two regions. -/
def sixModels : List RegisteredModel :=
  [.ofGroups "A" [("a", [1, 1])], .ofGroups "B" [("b", [2, 2, 2])], .ofGroups "C" [("c", [3, 3])],
    .ofGroups "D" [("d", [4, 4, 4])], .ofGroups "E" [("e", [5, 5])], .ofGroups "F" [("f", [6, 6, 6, 6, 6, 6])]]

theorem sixModels_pos : ∀ m ∈ sixModels, ∀ tg ∈ m.tensorGroupIndexes, 0 < tg.size := by decide

theorem pool_tiles_sixModels :
    WellFormed 100 112 ((init 100 12 1 fun _ => 0).loadAll .reliable 4 sixModels) := by
  have hrun : PoolRun .reliable (.init 100 12 1 fun _ => 0)
      ((init 100 12 1 fun _ => 0).loadAll .reliable 4 sixModels) :=
    poolRun_loadAll .reliable (by decide) (by decide) _ sixModels_pos
  exact pool_tiles Platform.reliable_movesSucceed (by decide) (by decide) hrun

/-- When the second of the two slides fails, the region of the first one has its new address, and the list still has the FREE
region that was there. -/
theorem failed_merge_overlaps :
    PoolRun (.failing [4] []) (.init 100 12 1 fun _ => 0)
        ((init 100 12 1 fun _ => 0).loadAll (.failing [4] []) 4 sixModels) ∧
      ¬WellFormed 100 112 ((init 100 12 1 fun _ => 0).loadAll (.failing [4] []) 4 sixModels) := by
  refine ⟨poolRun_loadAll _ (by decide) (by decide) _ sixModels_pos, ?_⟩
  intro h
  have ht : Tiling.Tiles (fun c : Cell => c.2.addr) (fun c => c.2.size) 100 _ 112 := h.layout.tiling
  revert ht
  decide +kernel

section

variable {w w' : Nat} {W : List Cell}

section Compaction

variable {P : Platform} {a b : Nat} {p : GPUTensorPool}

end Compaction

/-- Five regions that fill a pool, of which the first and the third were freed. -/
def gappedPool : GPUTensorPool :=
  (((init 100 12 1 fun _ => 0).loadAll .reliable 4 (sixModels.take 5)).freeRegion 0).freeRegion 2

theorem gappedPool_wellFormed : WellFormed 100 112 gappedPool := by
  have hld : PoolRun .reliable (.init 100 12 1 fun _ => 0)
      ((init 100 12 1 fun _ => 0).loadAll .reliable 4 (sixModels.take 5)) :=
    poolRun_loadAll .reliable (by decide) (by decide) _ fun m hm => sixModels_pos m (mem_of_mem_take hm)
  have hrun := (hld.tail (.freeRegion (i := 0) (by decide +kernel) (by decide +kernel))).tail
    (.freeRegion (i := 2) (by decide +kernel) (by decide +kernel))
  exact (PoolRun.kept Platform.reliable_movesSucceed (by decide) (by decide) (wellFormed_init (by decide) 1 fun _ => 0) rfl
    hrun).wellFormed

end

/-- What a region is for, whatever its address. -/
def Region.label (r : Region) : String × Nat × Option RegisteredModel := (r.fingerprint, r.size, r.modelRef)

/-- Every request is placed: the ALLOCATED regions are those from before, some of them slid, and one for each request. -/
def PlacesAll (m : RegisteredModel) (tgs : List TGNeedAllocates) (p q : GPUTensorPool) : Prop :=
  ((allocatedOf q.cells).map fun c => c.2.label).Perm
    ((tgs.map fun tg => (tg.tgIndex.fingerprint, tg.size, some m)) ++ (allocatedOf p.cells).map fun c => c.2.label)

theorem Placing.placesAll {S : Region → Prop} {m : RegisteredModel} {a b : Nat} {p : GPUTensorPool} {addrs : List Nat}
    {tgs : List TGNeedAllocates} {r : Outcome × List Nat × GPUTensorPool} (h : Placing S m a b p addrs tgs r) :
    PlacesAll m tgs p r.2.2 := by
  obtain ⟨tgs', hpm, hld⟩ := h.loading
  refine (hld.perm label fun _ _ => rfl).trans (List.Perm.append_right _ ?_)
  exact hpm.map fun tg => (tg.tgIndex.fingerprint, tg.size, some m)

/-- For every list that tiles a stretch of device memory and every non-empty list of requests of positive sizes that fit the
FREE bytes: the planner ends with groups that cut the list from left to right into windows, with no FREE region between them
(`Groups`), each request is in one of them, and the requests of a group fit its FREE bytes. When no range of a group has a
LOADING region and the device-to-device calls succeed, the loop over the groups then ends with 0, and places every request. -/
theorem binPacking_places_all {P : Platform} {a b : Nat} {p : GPUTensorPool} (m : RegisteredModel) {tgs : List TGNeedAllocates}
    (addrs : List Nat) (h0 : 0 < a) (h : WellLinked a b p) (hne : tgs ≠ []) (hpos : ∀ tg ∈ tgs, 0 < tg.size)
    (hle : totalNeed tgs ≤ freeBytes p.cells) :
    (∃ gs, p.recursiveSplitAllocate P tgs = some gs ∧ Groups p.cells gs ∧ (requestsOf gs).Perm tgs) ∧
      (P.MovesSucceed → (∀ r, Planned P tgs p r → r.status ≠ .LOADING) →
        ∃ addrs' q, p.partitionedBinPacking P m tgs addrs = (.done, addrs', q) ∧ PlacesAll m tgs p q) := by
  refine ⟨h.holds.recursiveSplitAllocate hne hpos hle, ?_⟩
  intro hP hld
  have hpl : Placing (fun _ => True) m a b p addrs tgs (p.partitionedBinPacking P m tgs addrs) :=
    h.partitionedBinPacking hP h0 addrs hne hpos hle hld fun _ _ _ => trivial
  have hall := hpl.placesAll
  have hdone := hpl.done
  rcases hr : p.partitionedBinPacking P m tgs addrs with ⟨o, addrs', q⟩
  rw [hr] at hall hdone
  obtain rfl : o = .done := hdone
  exact ⟨addrs', q, rfl, hall⟩

/-- A model with one group of `n` bytes. -/
def oneGroup (n : Nat) : RegisteredModel := .ofGroups "F" [("f", replicate n 6)]

def oneRequest (n : Nat) : List TGNeedAllocates := [⟨0, ⟨0, n, "f", [⟨"f", 0, n⟩]⟩⟩]

def twoRequests : List TGNeedAllocates := [⟨0, ⟨0, 2, "f", [⟨"f", 0, 2⟩]⟩⟩, ⟨1, ⟨2, 1, "g", [⟨"g", 0, 1⟩]⟩⟩]

theorem binPacking_places_gappedPool :
    ∃ addrs' q, gappedPool.partitionedBinPacking .reliable (.ofGroups "F" [("f", [6, 6]), ("g", [7])]) twoRequests [0, 0] =
        (.done, addrs', q) ∧ PlacesAll (.ofGroups "F" [("f", [6, 6]), ("g", [7])]) twoRequests gappedPool q := by
  have hw := gappedPool_wellFormed
  have hpos : ∀ tg ∈ twoRequests, 0 < tg.size := by decide
  have hle : totalNeed twoRequests ≤ freeBytes gappedPool.cells := by decide +kernel
  refine (binPacking_places_all _ [0, 0] (by decide) hw.wellLinked (by simp [twoRequests]) hpos hle).2
    Platform.reliable_movesSucceed ?_
  intro r hr
  obtain ⟨c, hc, rfl⟩ := hr.mem hw.wellLinked (by simp [twoRequests]) hpos hle
  exact hw.layout.noLoading c hc

def threeRegions (status : RegionStatus) : GPUTensorPool :=
  { init 100 10 1 fun _ => 0 with
    store :=
      { node := fun i =>
          if i = 0 then ⟨mk' 100 4, none, some 1⟩
          else if i = 1 then ⟨(mk' 104 2).setStatus status, some 0, some 2⟩
          else ⟨mk' 106 4, some 1, none⟩
        fresh := 3 } }

theorem threeRegions_wellLinked (status : RegionStatus) : WellLinked 100 110 (threeRegions status) := by
  have hh : Holds (threeRegions status)
      [(0, mk' 100 4), (1, (mk' 104 2).setStatus status), (2, mk' 106 4)] :=
    ⟨⟨⟨rfl, rfl, rfl, trivial⟩, by simp, by simp [threeRegions]⟩, rfl⟩
  exact hh.wellLinked ⟨rfl, by decide, rfl, show 0 < 2 by decide, rfl, by decide, rfl⟩

/-- Six bytes do not fit between two FREE regions of four bytes each when the region between them is LOADING, or when the first
device-to-device call fails. -/
theorem binPacking_fails_with_room :
    (WellLinked 100 110 (threeRegions .LOADING) ∧ totalNeed (oneRequest 6) ≤ freeBytes (threeRegions .LOADING).cells ∧
      ((threeRegions .LOADING).partitionedBinPacking .reliable (oneGroup 6) (oneRequest 6) [0]).1 = .failed) ∧
    (WellLinked 100 110 (threeRegions .ALLOCATED) ∧ totalNeed (oneRequest 6) ≤ freeBytes (threeRegions .ALLOCATED).cells ∧
      ((threeRegions .ALLOCATED).partitionedBinPacking (.failing [0] []) (oneGroup 6) (oneRequest 6) [0]).1 = .failed) :=
  ⟨⟨threeRegions_wellLinked _, by decide +kernel, by decide +kernel⟩,
    ⟨threeRegions_wellLinked _, by decide +kernel, by decide +kernel⟩⟩

end ServerlessLLM
