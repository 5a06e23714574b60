import ServerlessLLM.Vram.Lemmas.Invariants

/-!
# Eviction and the model in use

`GreedyDrop` and `GreedyDropBlocks` skip the regions that the model in use placed itself.
-/

namespace ServerlessLLM

open Linked List Option GPUTensorPool Region VRAMManager

/-- The group at each position of the model has a live address: its base offset is that of an ALLOCATED region of the list with
its fingerprint and its size. -/
def HandsOutLive (m : RegisteredModel) (q : GPUTensorPool) (bases : List Nat) : Prop :=
  ∀ (i : Nat) (tg : TensorGroupIndex), m.tensorGroupIndexes[i]? = some tg → ∃ j ∈ q.regions, (q.region j).status = .ALLOCATED ∧
    (q.region j).fingerprint = tg.fingerprint ∧ (q.region j).size = tg.size ∧
    bases[i]? = some ((q.region j).addr - q.gpuBaseAddr)

/-- The response that belongs to the base offsets: the offset of every tensor. -/
def responseOf (m : RegisteredModel) (bases : List Nat) : List Nat :=
  (zipWith (fun b tg => tg.tensorIndexes.map fun t => b + t.offset) bases m.tensorGroupIndexes).flatten

def RegisteredModel.Sized (sizeOf : String → Nat) (m : RegisteredModel) : Prop :=
  ∀ tg ∈ m.tensorGroupIndexes, tg.size = sizeOf tg.fingerprint

/-- The sizes of the regions of tensor groups are those of their fingerprints. -/
def SizedView (sizeOf : String → Nat) (v : View) : Prop :=
  ∀ c ∈ allocatedOf v.cells, ¬IsKvRegion c.2 → c.2.size = sizeOf c.2.fingerprint

section Pool

variable {P : Platform} {m : RegisteredModel} {p : GPUTensorPool} {strategy : Int} {a b : Nat} {sizeOf : String → Nat}

theorem SizedView.evicted {E : Region → Prop} {v v' : View} (h : SizedView sizeOf v) (he : Evicted E v v') :
    SizedView sizeOf v' := fun c hc hk => h c (he.mem_of_mem hc) hk

theorem SizedView.loadModel (hP : P.MovesSucceed) (hm : m.Positive) (hs : m.Sized sizeOf) (h1 : 1 ≤ strategy)
    (h4 : strategy ≤ 4) (hp : PoolTiled p) (h : SizedView sizeOf p.view) :
    SizedView sizeOf (p.loadModel P m strategy).2.view := by
  obtain ⟨b, hw⟩ := hp.wellFormed
  obtain ⟨v, addrs, tgs, htgs, hprep, ⟨w, hdrop, hld⟩, hcls, -⟩ :=
    (hw.loadModel hP hp.base h1 h4 hm fun _ _ => windowsOk_true).view hw
  have hv : SizedView sizeOf v := by
    refine hld.all (Q := fun r => ¬IsKvRegion r → r.size = sizeOf r.fingerprint) (fun _ _ hr => hr) ?_
      ((h.evicted hprep).evicted hdrop)
    intro tg htg addr _
    rcases htgs with rfl | hpm
    · simp at htg
    · exact hs tg.tgIndex ((collected p m).mem tg (hpm.subset htg))
  intro c hc
  rw [hcls] at hc
  exact hv c hc

theorem SizedView.allocateBlocks (hp : PoolTiled p) (h : SizedView sizeOf p.view) (blockSize : Nat) (path : String) (n : Int) :
    SizedView sizeOf (p.allocateBlocks P blockSize path n).2.view := by
  obtain ⟨b, hw⟩ := hp.wellFormed
  obtain ⟨q, hq, hc⟩ := hw.allocateBlocks (P := P) rfl blockSize path n
  intro c hc' hk
  rcases hc.carved.mem_or hc' with hmem | hkv
  · exact h.evicted hq.evicted c hmem hk
  · exact absurd hkv hk

theorem live_reused (hw : WellFormed a b p) (hs : IndexSound p.view) (hz : SizedView sizeOf p.view) (hm : m.Sized sizeOf)
    {tg : TensorGroupIndex} {j : NodeId} (htg : tg ∈ m.tensorGroupIndexes)
    (hj : (p.prepared m).getTensor tg.fingerprint = some j) :
    Live (p.prepared m).view tg.fingerprint tg.size ((p.prepared m).region j).addr := by
  obtain ⟨h1, -, h3, h4⟩ := hw.prepared m
  obtain ⟨r, hr, hf⟩ := h3.indexSound hs tg.fingerprint j hj
  have hreg : (p.prepared m).region j = r := h1.region_eq (mem_allocatedOf.1 hr).1
  refine ⟨(j, r), hr, hf, ?_, by rw [hreg]⟩
  have hsz := (hz.evicted h3) (j, r) hr (h4 _ hr)
  rw [hsz, hm tg htg]
  exact congrArg sizeOf hf

variable {addrs : List Nat} {q : GPUTensorPool} {bases response : List Nat}

theorem live_copied (hw : WellFormed a b p) (hs : IndexSound p.view) (hz : SizedView sizeOf p.view) (hm : m.Sized sizeOf)
    (hspare : (p.prepared m).GreedyDropSpares P (totalNeed (p.requests m)) m.modelPath (BelongsTo m))
    (hp : Placing (fun r => ¬r.BelongsTo m) m a b (p.dropFor P m).2 (p.reused m) (p.requests m) (.done, addrs, q))
    {i : Nat} {tg : TensorGroupIndex} (hi : m.tensorGroupIndexes[i]? = some tg) :
    ∃ addr, addrs[i]? = some addr ∧ Live q.view tg.fingerprint tg.size addr := by
  have hcol := collected p m
  have htg : tg ∈ m.tensorGroupIndexes := mem_of_getElem? hi
  have hfp : tg.fingerprint ∈ m.fingerprints := mem_map.2 ⟨tg, htg, rfl⟩
  obtain ⟨tgs, hpm, hld⟩ := hp.loading
  have hS : ∀ r : Region, ¬r.BelongsTo m → r.fingerprint ≠ tg.fingerprint := by
    intro r hr he
    refine hr ?_
    rw [BelongsTo, he]
    exact hfp
  rcases hcol.cases i tg hi with hreq | ⟨j, hj, haddr⟩
  · -- a group that the call places
    rw [Nat.zero_add] at hreq
    exact hld.recorded ((hpm.map _).nodup_iff.2 hcol.nodup) (fun t ht => hcol.lt_length t (hpm.subset ht))
      (hpm.symm.subset hreq) hS
  · -- a group that was there, and is recorded at the address from before
    refine ⟨_, ?_, hld.live hS (((hw.dropFor P m).1.spared _ hspare).live (fun r hr => hS r hr.2)
      (live_reused hw hs hz hm htg hj))⟩
    rw [← haddr]
    exact hld.getElem?_other fun t ht => hcol.tgId_ne hi hj t (hpm.subset ht)

theorem Live.region {fp : String} {size addr : Nat} (h : Live q.view fp size addr) (hq : WellFormed a b q) :
    ∃ j ∈ q.regions, (q.region j).status = .ALLOCATED ∧ (q.region j).fingerprint = fp ∧ (q.region j).size = size ∧
      (q.region j).addr = addr := by
  obtain ⟨c, hc, hf, hs, ha⟩ := h
  obtain ⟨h1, h2⟩ := mem_allocatedOf.1 hc
  refine ⟨c.1, hq.mem_of_regions.2 ⟨c, h1, rfl⟩, ?_⟩
  rw [hq.region_eq h1]
  exact ⟨h2, hf, hs, ha⟩

theorem buildResponse_ok {base : Nat} (h : buildResponse base m addrs = .ok bases response) :
    bases = addrs.map (fun x => x - base) ∧ response = responseOf m bases := by
  unfold buildResponse at h
  obtain ⟨h1, h2⟩ := LoadResult.ok.inj h
  exact ⟨h1.symm, h2.symm.trans (by rw [h1]; rfl)⟩

theorem copyFor_ok (h : (p.copyFor P m addrs q).1 = .ok bases response) :
    bases = addrs.map (fun x => x - q.gpuBaseAddr) ∧ response = responseOf m bases := by
  unfold copyFor at h
  dsimp only at h
  split at h
  · exact buildResponse_ok h
  · exact absurd h (by simp)

theorem WellFormed.loadModel_live (hP : P.MovesSucceed) (hw : WellFormed a b p) (h0 : 0 < a) (hs : IndexSound p.view)
    (hz : SizedView sizeOf p.view) (hpos : m.Positive) (hm : m.Sized sizeOf) (h1 : 1 ≤ strategy) (h4 : strategy ≤ 4)
    (hspare : (p.prepared m).GreedyDropSpares P (totalNeed (p.requests m)) m.modelPath (BelongsTo m))
    (hwin : p.requests m ≠ [] → (p.dropFor P m).1 = 0 →
      WindowsOk P (fun r => ¬r.BelongsTo m) strategy m (p.requests m) (p.reused m) (p.dropFor P m).2)
    (hok : (p.loadModel P m strategy).1 = .ok bases response) :
    HandsOutLive m (p.loadModel P m strategy).2 bases ∧ response = responseOf m bases := by
  have hl := hw.loadModel hP h0 h1 h4 hpos hwin
  obtain ⟨hwf, -⟩ := hl.wellFormed hw
  generalize hr : p.loadModel P m strategy = r at hl hwf hok
  cases hl with
  | cached hnil =>
    obtain ⟨rfl, hresp⟩ := buildResponse_ok hok
    refine ⟨?_, hresp⟩
    intro i tg hi
    rcases (collected p m).cases i tg hi with hreq | ⟨j, hj, haddr⟩
    · rw [hnil] at hreq
      simp at hreq
    · obtain ⟨k, hk, e1, e2, e3, e4⟩ := (live_reused hw hs hz hm (mem_of_getElem? hi) hj).region hwf
      refine ⟨k, hk, e1, e2, e3, ?_⟩
      rw [getElem?_map, haddr, e4]
      rfl
  | refused hne => exact absurd hok (by simp)
  | stuck hp hzero => exact absurd hok (by simp)
  | @copied addrs q hp =>
    obtain ⟨rfl, hresp⟩ := copyFor_ok hok
    refine ⟨?_, hresp⟩
    intro i tg hi
    obtain ⟨addr, haddr, hlive⟩ := live_copied hw hs hz hm hspare hp hi
    have hlive' : Live (p.copyFor P m addrs q).2.view tg.fingerprint tg.size addr := hlive
    obtain ⟨k, hk, e1, e2, e3, e4⟩ := hlive'.region hwf
    refine ⟨k, hk, e1, e2, e3, ?_⟩
    rw [getElem?_map, haddr, e4]
    rfl

end Pool

/-- `LoadModel` hands out live addresses in every state of every run, for a call whose eviction spares the regions that carry
the model's fingerprints and whose merges slide none of them. Along the run, the fingerprints are not empty, groups of one
fingerprint have one size, and the device-to-device calls succeed. -/
theorem loadModel_hands_out_live {P : Platform} {v w w' : VRAMManager} {sizeOf : String → Nat} {path : String}
    {dev strategy : Int} {m : RegisteredModel} {p : GPUTensorPool} {bases response : List Nat} (hP : P.MovesSucceed)
    (hv : v.Fresh) (h : Reaches P (fun _ op => op.Allowed fun m => m.Positive ∧ m.Named ∧ m.Sized sizeOf) v w)
    (hm : w.registeredModels path = some m) (hp : w.gpuTensorPools dev = some p) (hs : 1 ≤ strategy ∧ strategy ≤ 4)
    (hspare : (p.prepared m).GreedyDropSpares P (totalNeed (p.requests m)) m.modelPath (BelongsTo m))
    (hwin : p.requests m ≠ [] → (p.dropFor P m).1 = 0 →
      WindowsOk P (fun r => ¬r.BelongsTo m) (w.strategyOf strategy) m (p.requests m) (p.reused m) (p.dropFor P m).2)
    (hok : w.loadModel P path dev strategy = (.ok bases response, w')) :
    ∃ q, w'.gpuTensorPools dev = some q ∧ HandsOutLive m q bases ∧ response = responseOf m bases := by
  have hgood : Good (fun m => m.Positive ∧ m.Named ∧ m.Sized sizeOf) (fun _ p => PoolSound p ∧ SizedView sizeOf p.view) w := by
    refine h.good (hv.good fun _ _ _ bw bytes hb ht _ => ⟨(poolComplete_init hb ht bw bytes).toPoolSound, ?_⟩) ?_ ?_
    · intro c hc
      rw [view_cells, (holds_init _ _ bw bytes).cells_eq] at hc
      exact absurd hc (by simp [allocatedOf, mk'])
    · intro _ m p s hm h1 h4 hp
      exact ⟨hp.1.loadModel hP hm.1 hm.2.1 h1 h4, hp.2.loadModel hP hm.1 hm.2.2 h1 h4 hp.1.toPoolTiled⟩
    · intro _ p bs path n hp
      exact ⟨hp.1.allocateBlocks bs path n, hp.2.allocateBlocks hp.1.toPoolTiled bs path n⟩
  obtain ⟨hsnd, hsized⟩ := hgood.pools dev p hp
  obtain ⟨hpos, -, hmsize⟩ := hgood.models path m hm
  obtain ⟨h1, h4⟩ := hgood.strategyOf hs
  obtain ⟨b, hw⟩ := hsnd.wellFormed
  rw [loadModel_eq P strategy hm hp] at hok
  obtain ⟨hres, rfl⟩ := Prod.mk.inj hok
  obtain ⟨e1, e2⟩ := hw.loadModel_live hP hsnd.base hsnd.sound hsized hpos hmsize h1 h4 hspare hwin hres
  exact ⟨_, by simp, e1, e2⟩

/-- The model that shares its first group with another one. -/
def sharer : RegisteredModel := .ofGroups "B" [("a", [1, 1]), ("d", [5, 5, 5, 5, 5])]

/-- The sizes of the groups of these examples. -/
def exampleSize (fp : String) : Nat := if fp = "a" then 2 else if fp = "c" then 3 else 5

/-- The group "a" was loaded with a model that is used often, so the eviction for the sharer takes "c" first. -/
def sparingRun : VRAMManager :=
  (single 100 8).run .reliable
    (loadOps 4 [.ofGroups "A" [("a", [1, 1])], .ofGroups "A" [("a", [1, 1])], .ofGroups "C" [("c", [3, 3, 3])]] ++
      [.registerModel sharer])

theorem sparingRun_reached :
    Reaches .reliable (fun _ op => op.Allowed fun m => m.Positive ∧ m.Named ∧ m.Sized exampleSize) (.single 100 8)
      sparingRun := by
  refine reaches_run .reliable .refl ?_
  intro op hop _ _
  rcases mem_append.1 hop with hop | hop
  · refine loadOps_allowed ⟨by decide, by decide⟩ ?_ op hop
    unfold RegisteredModel.Positive RegisteredModel.Named RegisteredModel.Sized
    decide
  · obtain rfl := mem_singleton.1 hop
    show sharer.Positive ∧ sharer.Named ∧ sharer.Sized exampleSize
    unfold RegisteredModel.Positive RegisteredModel.Named RegisteredModel.Sized
    decide

theorem sharer_gets_live_addresses :
    ∃ w' q, sparingRun.loadModel .reliable "B" 0 1 = (.ok [0, 2] [0, 2], w') ∧ w'.gpuTensorPools 0 = some q ∧
      HandsOutLive sharer q [0, 2] := by
  have hpo : (sparingRun.gpuTensorPools 0).any (fun p =>
      (p.prepared sharer).GreedyDropSpares .reliable (totalNeed (p.requests sharer)) "B" (BelongsTo sharer) ∧
        ∀ i ∈ (p.dropFor .reliable sharer).2.regions.dropWhile
            (fun i => ((p.dropFor .reliable sharer).2.region i).status ≠ .FREE),
          ((p.dropFor .reliable sharer).2.region i).status = .ALLOCATED →
            ¬((p.dropFor .reliable sharer).2.region i).BelongsTo sharer) = true := by
    decide +kernel
  obtain ⟨p, hp, hb⟩ := (any_eq_true _ _).1 hpo
  rw [decide_eq_true_eq] at hb
  have hres : (sparingRun.loadModel .reliable "B" 0 1).1 = .ok [0, 2] [0, 2] := by decide +kernel
  rcases hr : sparingRun.loadModel .reliable "B" 0 1 with ⟨r, w'⟩
  obtain rfl : r = .ok [0, 2] [0, 2] := by rw [← hres, hr]
  obtain ⟨q, hq, hlive, -⟩ := loadModel_hands_out_live Platform.reliable_movesSucceed
    (single_fresh (by decide) (by decide)) sparingRun_reached (m := sharer) rfl hp ⟨by decide, by decide⟩ hb.1
    (fun _ _ => ⟨fun _ => hb.2, fun h => absurd h (by decide), fun h => absurd h (by decide), fun h => absurd h (by decide)⟩) hr
  exact ⟨w', q, rfl, hq, hlive⟩

/-- A model that shares its first group with one that is used no more often. -/
def lateSharer : RegisteredModel := .ofGroups "B" [("a", [1, 1, 1, 1]), ("c", [3, 3, 3, 3, 3, 3, 3, 3])]

def evictingRun : VRAMManager :=
  (single 100 14).run .reliable
    (loadOps 4 [.ofGroups "A" [("a", [1, 1, 1, 1]), ("b", [2, 2, 2, 2, 2, 2])]] ++ [.registerModel lateSharer])

theorem evictingRun_reached :
    Reaches .reliable (fun _ op => op.Allowed fun m => m.Positive ∧ m.fingerprints.Nodup) (.single 100 14) evictingRun := by
  refine reaches_run .reliable .refl ?_
  intro op hop _ _
  rcases mem_append.1 hop with hop | hop
  · refine loadOps_allowed ⟨by decide, by decide⟩ ?_ op hop
    unfold RegisteredModel.Positive
    decide
  · obtain rfl := mem_singleton.1 hop
    unfold Op.Allowed RegisteredModel.Positive
    decide

/-- Loading the second model records the address of "a", evicts it, and places "c" there. The call succeeds and hands out one
offset for both groups. -/
theorem sharer_gets_dead_address :
    Reaches .reliable (fun _ op => op.Allowed fun m => m.Positive ∧ m.fingerprints.Nodup) (.single 100 14) evictingRun ∧
      evictingRun.registeredModels "B" = some lateSharer ∧
      ∃ w' q, evictingRun.loadModel .reliable "B" 0 4 = (.ok [6, 6] [6, 6], w') ∧ w'.gpuTensorPools 0 = some q ∧
        ¬HandsOutLive lateSharer q [6, 6] := by
  refine ⟨evictingRun_reached, rfl, ?_⟩
  have hres : (evictingRun.loadModel .reliable "B" 0 4).1 = .ok [6, 6] [6, 6] := by decide +kernel
  have hpo : ((evictingRun.loadModel .reliable "B" 0 4).2.gpuTensorPools 0).any (fun q =>
      ∀ i ∈ q.regions, (q.region i).status = .ALLOCATED → (q.region i).fingerprint ≠ "a") = true := by decide +kernel
  rcases hr : evictingRun.loadModel .reliable "B" 0 4 with ⟨r, w'⟩
  rw [hr] at hres hpo
  obtain rfl : r = .ok [6, 6] [6, 6] := hres
  obtain ⟨q, hq, hb⟩ := (any_eq_true _ _).1 hpo
  rw [decide_eq_true_eq] at hb
  refine ⟨w', q, rfl, hq, ?_⟩
  intro h
  obtain ⟨j, hj, h1, h2, -⟩ := h 0 _ rfl
  exact hb j hj h1 h2

/-- No region that carries a fingerprint of the model is freed: each is still in the list, as it was. -/
def SparesModel (m : RegisteredModel) (p q : GPUTensorPool) : Prop :=
  ∀ i ∈ p.regions, (p.region i).status = .ALLOCATED → (p.region i).BelongsTo m → i ∈ q.regions ∧ q.region i = p.region i

theorem sparesModel_iff {a b : Nat} {m : RegisteredModel} {p q : GPUTensorPool} (hp : WellFormed a b p)
    (hq : WellFormed a b q) :
    SparesModel m p q ↔ ∀ c ∈ allocatedOf p.cells, c.2.BelongsTo m → c ∈ allocatedOf q.cells := by
  constructor
  · intro h c hc hb
    obtain ⟨h1, h2⟩ := mem_allocatedOf.1 hc
    have hr := hp.region_eq h1
    obtain ⟨h3, h4⟩ := h c.1 (hp.mem_of_regions.2 ⟨c, h1, rfl⟩) (by rw [hr]; exact h2) (by rw [hr]; exact hb)
    obtain ⟨d, hd, hdc⟩ := hq.mem_of_regions.1 h3
    have hdr := hq.region_eq hd
    rw [hdc, h4, hr] at hdr
    obtain rfl : d = c := Prod.ext hdc hdr.symm
    exact mem_allocatedOf.2 ⟨hd, h2⟩
  · intro h i hi hs hb
    obtain ⟨c, hc, rfl⟩ := hp.mem_of_regions.1 hi
    have hr := hp.region_eq hc
    rw [hr] at hs hb ⊢
    have hmem := (mem_allocatedOf.1 (h c (mem_allocatedOf.2 ⟨hc, hs⟩) hb)).1
    exact ⟨hq.mem_of_regions.2 ⟨c, hmem, rfl⟩, hq.region_eq hmem⟩

/-- In every state that a run reaches, for every model: the `GreedyDrop` of its `LoadModel` frees no region that
carries one of its fingerprints exactly when the cheaper candidates are enough, and so does the `GreedyDropBlocks` of an
`AllocateBlocks` for it. -/
theorem eviction_spares_iff {P : Platform} {v w : VRAMManager} {dev : Int} {p : GPUTensorPool} (hP : P.MovesSucceed)
    (hv : v.Fresh) (h : Reaches P (fun _ op => op.Allowed RegisteredModel.Positive) v w) (hp : w.gpuTensorPools dev = some p)
    (m : RegisteredModel) :
    (∀ n, SparesModel m (p.prepared m) ((p.prepared m).greedyDrop P n m.modelPath).2 ↔
        (p.prepared m).GreedyDropSpares P n m.modelPath (BelongsTo m)) ∧
      ∀ blockSize n, SparesModel m p (p.greedyDropBlocks P blockSize m.modelPath n).2 ↔
        p.GreedyDropBlocksSpares P blockSize m.modelPath n (BelongsTo m) := by
  obtain ⟨b, hw⟩ := ((h.poolTiled hP hv fun _ hpos => hpos).pools dev p hp).wellFormed
  constructor
  · intro n
    have hprep := (hw.prepared m).1
    have hdrop := (greedyDrop_spec (P := P) hprep n m.modelPath).1
    rw [sparesModel_iff hprep hdrop.wellFormed]
    exact hdrop.mem_iff _
  · intro blockSize n
    have hdrop := greedyDropBlocks_spec (P := P) hw blockSize m.modelPath n
    rw [sparesModel_iff hw hdrop.wellFormed]
    exact hdrop.mem_iff _

theorem eviction_spares_sharer :
    ∃ p, sparingRun.gpuTensorPools 0 = some p ∧
      SparesModel sharer (p.prepared sharer) ((p.prepared sharer).greedyDrop .reliable 5 "B").2 ∧
      SparesModel sharer p (p.greedyDropBlocks .reliable 3 "B" 2).2 := by
  have hpo : (sparingRun.gpuTensorPools 0).any (fun p =>
      (p.prepared sharer).GreedyDropSpares .reliable 5 "B" (BelongsTo sharer) ∧
        p.GreedyDropBlocksSpares .reliable 3 "B" 2 (BelongsTo sharer)) = true := by
    decide +kernel
  obtain ⟨p, hp, hb⟩ := (any_eq_true _ _).1 hpo
  rw [decide_eq_true_eq] at hb
  obtain ⟨h1, h2⟩ := eviction_spares_iff Platform.reliable_movesSucceed (single_fresh (by decide) (by decide))
    (sparingRun_reached.mono fun _ _ hop => hop.mono fun _ hm => hm.1) hp sharer
  exact ⟨p, hp, (h1 5).2 hb.1, (h2 3 2).2 hb.2⟩

/-- Loading the second of two models that share the group "a" frees its region. -/
theorem eviction_hits_shared_region :
    Reaches .reliable (fun _ op => op.Allowed RegisteredModel.Positive) (.single 100 14) evictingRun ∧
      evictingRun.registeredModels "B" = some lateSharer ∧
      ∃ p, evictingRun.gpuTensorPools 0 = some p ∧ ¬SparesModel lateSharer (p.prepared lateSharer)
        ((p.prepared lateSharer).greedyDrop .reliable (totalNeed (p.requests lateSharer)) "B").2 := by
  refine ⟨evictingRun_reached.mono fun _ _ hop => hop.mono fun _ hm => hm.1, rfl, ?_⟩
  have hpo : (evictingRun.gpuTensorPools 0).any (fun p => ∃ i ∈ (p.prepared lateSharer).regions,
      (((p.prepared lateSharer).region i).status = .ALLOCATED ∧ ((p.prepared lateSharer).region i).BelongsTo lateSharer) ∧
        (((p.prepared lateSharer).greedyDrop .reliable (totalNeed (p.requests lateSharer)) "B").2.region i).status = .FREE) =
      true := by
    decide +kernel
  obtain ⟨p, hp, hb⟩ := (any_eq_true _ _).1 hpo
  rw [decide_eq_true_eq] at hb
  obtain ⟨i, hi, ⟨hs, hm⟩, hfe⟩ := hb
  refine ⟨p, hp, ?_⟩
  intro h
  rw [(h i hi hs hm).2, hs] at hfe
  exact absurd hfe (by decide)

end ServerlessLLM
