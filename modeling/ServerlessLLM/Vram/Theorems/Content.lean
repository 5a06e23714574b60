import ServerlessLLM.Vram.Lemmas.Invariants

/-!
# The contents of the cache

`LoadModel` enters the regions of the groups in the index before it copies the groups there.
-/

namespace ServerlessLLM

open Linked List GPUTensorPool VRAMManager TGNeedAllocates

/-! ## Writing a list of ranges -/

/-- Write some bytes at each of the addresses, one after another. -/
def writeAll (bytes : Nat → UInt8) (ws : List (Nat × List UInt8)) : Nat → UInt8 :=
  ws.foldl (fun m w => overwrite m (fun i => w.2.getD (i - w.1) 0) w.1 w.2.length) bytes

theorem writeAll_cons (bytes : Nat → UInt8) (w : Nat × List UInt8) (ws : List (Nat × List UInt8)) :
    writeAll bytes (w :: ws) = writeAll (overwrite bytes (fun i => w.2.getD (i - w.1) 0) w.1 w.2.length) ws := rfl

theorem writeAll_outside (bytes : Nat → UInt8) {ws : List (Nat × List UInt8)} {i : Nat}
    (h : ∀ w ∈ ws, ¬(w.1 ≤ i ∧ i < w.1 + w.2.length)) : writeAll bytes ws i = bytes i := by
  induction ws generalizing bytes with
  | nil => rfl
  | cons w ws ih =>
    rw [writeAll_cons, ih _ fun x hx => h x (by simp [hx]), overwrite_apply, if_neg (h w (by simp))]

theorem writeAll_inside (bytes : Nat → UInt8) {ws : List (Nat × List UInt8)}
    (hp : ws.Pairwise fun x y => Apart x.1 x.2.length y.1 y.2.length) {w : Nat × List UInt8} (hw : w ∈ ws) {k : Nat}
    (hk : k < w.2.length) : writeAll bytes ws (w.1 + k) = w.2.getD k 0 := by
  induction ws generalizing bytes with
  | nil => simp at hw
  | cons x ws ih =>
    obtain ⟨h1, h2⟩ := pairwise_cons.1 hp
    rw [writeAll_cons]
    rcases mem_cons.1 hw with rfl | hw
    · -- the writes behind this one are apart from it
      rw [writeAll_outside, overwrite_apply, if_pos ⟨by omega, by omega⟩, Nat.add_sub_cancel_left]
      intro y hy
      have := h1 y hy
      unfold Apart at this
      omega
    · exact ih _ h2 hw

/-! ## `LoadModelFromMem` -/

section Copy

variable {P : Platform} {m : RegisteredModel} {addrs : List Nat}

/-- What a request is written with: its address, and its host copy. -/
def writeOf (m : RegisteredModel) (addrs : List Nat) (id : Nat) : Nat × List UInt8 :=
  (addrs[id]?.getD 0, ((m.tensorGroupHostPtr[id]?).join).getD [])

/-- The group with this number can be copied: it is in host memory with all its bytes, and has an address. -/
structure Copyable (m : RegisteredModel) (addrs : List Nat) (id : Nat) : Prop where
  addr : ∃ a, addrs[id]? = some a
  host : ∃ tg host, m.tensorGroupIndexes[id]? = some tg ∧ m.tensorGroupHostPtr[id]? = some (some host) ∧
    host.length = tg.size

theorem loadGroups_spec (hP : P.LoadsSucceed) :
    ∀ (ids : List Nat) (d : Device), (∀ id ∈ ids, Copyable m addrs id) →
      (loadGroups P m addrs ids d).1 = true ∧
        (loadGroups P m addrs ids d).2.bytes = writeAll d.bytes (ids.map (writeOf m addrs)) := by
  intro ids
  induction ids with
  | nil => exact fun d _ => ⟨rfl, rfl⟩
  | cons id ids ih =>
    intro d h
    obtain ⟨⟨a, ha⟩, tg, host, htg, hhost, hlen⟩ := h id (by simp)
    have hok : (P.hostToDevice d.loads).ok = true := hP d.loads
    have heq : loadGroups P m addrs (id :: ids) d = loadGroups P m addrs ids (cudaMemcpyHostToDevice P d a host tg.size).2 := by
      simp only [loadGroups, hhost, htg, ha, Option.join_some, cudaMemcpyHostToDevice, hok, if_true]
    obtain ⟨h1, h2⟩ := ih (cudaMemcpyHostToDevice P d a host tg.size).2 fun id' hid => h id' (by simp [hid])
    rw [heq]
    refine ⟨h1, h2.trans ?_⟩
    have hbyt : (cudaMemcpyHostToDevice P d a host tg.size).2.bytes =
        overwrite d.bytes (fun i => host.getD (i - a) 0) a host.length := by
      simp only [cudaMemcpyHostToDevice, hok, if_true, hlen]
    have hw : writeOf m addrs id = (a, host) := by simp [writeOf, ha, hhost]
    rw [hbyt, map_cons, hw]
    rfl

theorem loadModelFromMem_spec (hP : P.LoadsSucceed) {ids : List Nat} (d : Device) (h : ∀ id ∈ ids, Copyable m addrs id) :
    (loadModelFromMem P m addrs ids d).1 = true ∧
      (loadModelFromMem P m addrs ids d).2.bytes = writeAll d.bytes (ids.map (writeOf m addrs)) := by
  have hok : (P.hostToDevice d.loads).ok = true := hP d.loads
  unfold loadModelFromMem
  simp only [hok, if_true]
  exact loadGroups_spec hP ids _ h

end Copy

/-- Every region that `GetTensor` finds holds the bytes that belong to the fingerprint. -/
def CacheClean (content : String → List UInt8) (p : GPUTensorPool) : Prop :=
  ∀ fp i, p.getTensor fp = some i → Filled p.device.bytes (p.region i) (content fp)

/-- Every group of the model is in host memory, with the bytes that belong to its fingerprint. -/
def RegisteredModel.Hosted (content : String → List UInt8) (m : RegisteredModel) : Prop :=
  ∀ (i : Nat) (tg : TensorGroupIndex), m.tensorGroupIndexes[i]? = some tg →
    m.tensorGroupHostPtr[i]? = some (some (content tg.fingerprint)) ∧ (content tg.fingerprint).length = tg.size

/-- The region is not one of those that the call places. -/
def NotRequested (p : GPUTensorPool) (m : RegisteredModel) (r : Region) : Prop :=
  r.fingerprint ∉ (p.requests m).map fun tg => tg.tgIndex.fingerprint

/-- With strategies 2 and 3, no merge of the call slides a region that the call has placed before. -/
structure SparesPlaced (P : Platform) (p : GPUTensorPool) (m : RegisteredModel) (strategy : Int) : Prop where
  greedyMerge : strategy = 2 →
    MergeLoopOk P (NotRequested p m) m (P.sortDesc size (p.requests m)) (p.reused m) (p.dropFor P m).2
  bipartiteMatch : strategy = 3 → MatchLoopOk P (NotRequested p m) m (p.requests m) (p.reused m) (p.dropFor P m).2

section Pool

variable {P : Platform} {m : RegisteredModel} {p q : GPUTensorPool} {strategy : Int} {a b : Nat}
  {content : String → List UInt8} {addrs : List Nat}

theorem PoolComplete.absent_requests (h : PoolComplete p) {tg : TGNeedAllocates} (htg : tg ∈ p.requests m) :
    Absent tg.tgIndex.fingerprint (p.dropFor P m).2.view := by
  obtain ⟨b, hw⟩ := h.wellFormed
  obtain ⟨-, -, hev, -⟩ := hw.prepared m
  have hcomp := hev.indexComplete hw.layout h.complete
  exact (hw.dropFor P m).1.evicted.absent (hcomp.absent ((collected p m).absent tg htg))

theorem PoolComplete.notRequested (h : PoolComplete p) {c : Cell} (hc : c ∈ allocatedOf (p.dropFor P m).2.cells) :
    NotRequested p m c.2 := by
  intro hmem
  obtain ⟨tg, htg, he⟩ := mem_map.1 hmem
  exact h.absent_requests htg c hc he.symm

theorem SparesPlaced.windowsOk (hs : SparesPlaced P p m strategy) (h : PoolComplete p) (hm : m.Positive)
    (hne : p.requests m ≠ []) (hret : (p.dropFor P m).1 = 0) :
    WindowsOk P (NotRequested p m) strategy m (p.requests m) (p.reused m) (p.dropFor P m).2 := by
  obtain ⟨b, hw⟩ := h.wellFormed
  obtain ⟨hdrop, hro⟩ := hw.dropFor P m
  refine ⟨?_, hs.greedyMerge, hs.bipartiteMatch, ?_⟩
  · intro _ i hi hst
    obtain ⟨c, hc, rfl⟩ := hdrop.wellFormed.mem_of_regions.1 (dropWhile_subset _ hi)
    rw [hdrop.wellFormed.region_eq hc] at hst ⊢
    exact h.notRequested (mem_allocatedOf.2 ⟨hc, hst⟩)
  · intro _ r hr hst
    obtain ⟨c, hc, rfl⟩ := hr.mem hdrop.wellFormed.wellLinked hne (requests_pos hm) (hro hret)
    exact h.notRequested (mem_allocatedOf.2 ⟨hc, hst⟩)

theorem Placing.recorded (hp : Placing (NotRequested p m) m a b (p.dropFor P m).2 (p.reused m) (p.requests m) (.done, addrs, q))
    {tg : TGNeedAllocates} (htg : tg ∈ p.requests m) :
    ∃ addr, addrs[tg.tgId]? = some addr ∧ Live q.view tg.tgIndex.fingerprint tg.size addr := by
  obtain ⟨tgs, hpm, hld⟩ := hp.loading
  have hcol := collected p m
  refine hld.recorded ((hpm.map _).nodup_iff.2 hcol.nodup) (fun t ht => hcol.lt_length t (hpm.subset ht))
    (hpm.symm.subset htg) fun r hr he => hr ?_
  rw [he]
  exact mem_map.2 ⟨tg, htg, rfl⟩

theorem Placing.addr_pos (hp : Placing (NotRequested p m) m a b (p.dropFor P m).2 (p.reused m) (p.requests m) (.done, addrs, q))
    (h0 : 0 < a) (hw : WellFormed a b p) (hs : IndexSound p.view) : 0 ∉ addrs := by
  intro hzero
  obtain ⟨i, hi⟩ := mem_iff_getElem?.1 hzero
  obtain ⟨tgs, hpm, hld⟩ := hp.loading
  have hcol := collected p m
  have hlen : i < m.tensorGroupIndexes.length := by
    rw [← hcol.length, ← hld.length_eq]
    exact (List.getElem?_eq_some_iff.1 hi).1
  have htg := getElem?_eq_getElem hlen
  rcases hcol.cases i _ htg with hreq | ⟨j, hj, haddr⟩
  · rw [Nat.zero_add] at hreq
    obtain ⟨addr, haddr, c, hc, -, -, hca⟩ := hp.recorded hreq
    have hca' := (hp.wellLinked.tiling.mem (mem_allocatedOf.1 hc).1).1
    have : addr = 0 := Option.some.inj (haddr.symm.trans hi)
    omega
  · obtain ⟨h1, -, h3, -⟩ := hw.prepared m
    obtain ⟨r, hr, -⟩ := h3.indexSound hs _ j hj
    have hmem := (mem_allocatedOf.1 hr).1
    have hge := (h1.layout.tiling.mem hmem).1
    have hother : addrs[i]? = (p.reused m)[i]? := hld.getElem?_other fun t ht => hcol.tgId_ne htg hj t (hpm.subset ht)
    rw [hi, haddr, h1.region_eq hmem] at hother
    have : r.addr = 0 := (Option.some.inj hother).symm
    dsimp only at hge
    omega

theorem IndexComplete.eq_of_fingerprint {v : View} (h : IndexComplete v) (hd : (ids v.cells).Nodup) {c d : Cell}
    (hc : c ∈ allocatedOf v.cells) (hd' : d ∈ allocatedOf v.cells) (he : c.2.fingerprint = d.2.fingerprint) : c = d := by
  refine eq_of_fst_eq hd (mem_allocatedOf.1 hc).1 (mem_allocatedOf.1 hd').1 ?_
  have h1 := h c hc
  rw [he, h d hd'] at h1
  exact (Option.some.inj h1).symm

theorem Placing.writeOf_eq (hp : Placing (NotRequested p m) m a b (p.dropFor P m).2 (p.reused m) (p.requests m)
    (.done, addrs, q))
    (hm : m.Hosted content) {tg : TGNeedAllocates} (htg : tg ∈ p.requests m) :
    Copyable m addrs tg.tgId ∧ ∃ c ∈ allocatedOf q.cells, c.2.fingerprint = tg.tgIndex.fingerprint ∧
      c.2.size = (content tg.tgIndex.fingerprint).length ∧
      writeOf m addrs tg.tgId = (c.2.addr, content tg.tgIndex.fingerprint) := by
  obtain ⟨addr, haddr, c, hc, hf, hs, hca⟩ := hp.recorded htg
  have hget := (collected p m).getElem?_eq htg
  obtain ⟨hhost, hlen⟩ := hm tg.tgId tg.tgIndex hget
  refine ⟨⟨⟨addr, haddr⟩, tg.tgIndex, _, hget, hhost, hlen⟩, c, hc, hf, hs.trans hlen.symm, ?_⟩
  simp [writeOf, haddr, hhost, hca]

theorem Placing.writes_apart
    (hp : Placing (NotRequested p m) m a b (p.dropFor P m).2 (p.reused m) (p.requests m) (.done, addrs, q))
    (hm : m.Hosted content) (hd : m.fingerprints.Nodup) :
    (((p.requests m).map tgId).map (writeOf m addrs)).Pairwise
      fun x y => Apart x.1 x.2.length y.1 y.2.length := by
  have hnd : (p.requests m).Pairwise fun t t' => t.tgIndex.fingerprint ≠ t'.tgIndex.fingerprint :=
    pairwise_map.1 ((collected p m).nodup_fingerprints hd)
  rw [map_map, pairwise_map]
  refine hnd.imp_of_mem fun {t t'} ht ht' hne => ?_
  obtain ⟨-, c, hc, hf, hs, hw⟩ := hp.writeOf_eq hm ht
  obtain ⟨-, c', hc', hf', hs', hw'⟩ := hp.writeOf_eq hm ht'
  have hcc : c ≠ c' := by
    rintro rfl
    exact hne (hf.symm.trans hf')
  have := hp.wellLinked.tiling.apart (mem_allocatedOf.1 hc).1 (mem_allocatedOf.1 hc').1 hcc
  simp only [Function.comp_apply, hw, hw']
  rwa [hs, hs'] at this

theorem Placing.content_copied (hL : P.LoadsSucceed)
    (hp : Placing (NotRequested p m) m a b (p.dropFor P m).2 (p.reused m) (p.requests m) (.done, addrs, q))
    (hm : m.Hosted content) (hd : m.fingerprints.Nodup) (hq : WellFormed a b q) (hi : IndexComplete q.view)
    (hc : Content content (fun fp => fp ∉ (p.requests m).map fun tg => tg.tgIndex.fingerprint) q.view) :
    Content content (fun _ => True) (p.copyFor P m addrs q).2.view := by
  have hcopyable : ∀ id ∈ (p.requests m).map tgId, Copyable m addrs id := by
    intro id hid
    obtain ⟨tg, htg, rfl⟩ := mem_map.1 hid
    exact (hp.writeOf_eq hm htg).1
  obtain ⟨-, hbyt⟩ := loadModelFromMem_spec hL q.device hcopyable
  intro c hc' _
  have hcq : c ∈ allocatedOf q.cells := hc'
  show Filled (loadModelFromMem P m addrs ((p.requests m).map tgId) q.device).2.bytes _ _
  rw [hbyt]
  by_cases hreq : c.2.fingerprint ∈ (p.requests m).map fun tg => tg.tgIndex.fingerprint
  · -- the region of a group that was copied
    obtain ⟨tg, htg, he⟩ := mem_map.1 hreq
    obtain ⟨-, d, hd', hf, hs, hw⟩ := hp.writeOf_eq hm htg
    obtain rfl : c = d := hi.eq_of_fingerprint hq.layout.nodup hcq hd' (he.symm.trans hf.symm)
    rw [← he]
    refine ⟨hs, ?_⟩
    intro k hk
    have hmem : (c.2.addr, content tg.tgIndex.fingerprint) ∈
        ((p.requests m).map tgId).map (writeOf m addrs) := by
      rw [← hw]
      exact mem_map.2 ⟨_, mem_map.2 ⟨tg, htg, rfl⟩, rfl⟩
    exact writeAll_inside q.device.bytes (hp.writes_apart hm hd) hmem hk
  · -- any other region is apart from every range that is written
    obtain ⟨h1, h2⟩ := hc c hcq hreq
    refine ⟨h1, fun k hk => (writeAll_outside _ ?_).trans (h2 k hk)⟩
    intro w hw
    obtain ⟨id, hid, rfl⟩ := mem_map.1 hw
    obtain ⟨tg, htg, rfl⟩ := mem_map.1 hid
    obtain ⟨-, d, hd', hf, hs, hwd⟩ := hp.writeOf_eq hm htg
    have hne : c ≠ d := by
      rintro rfl
      exact hreq (mem_map.2 ⟨tg, htg, hf.symm⟩)
    have hap := hq.layout.tiling.apart (mem_allocatedOf.1 hcq).1 (mem_allocatedOf.1 hd').1 hne
    unfold Apart at hap
    rw [hwd]
    dsimp only
    omega

theorem content_loadModel (hP : P.MovesSucceed) (hL : P.LoadsSucceed) (hpos : m.Positive) (hn : m.Named) (hd : m.Distinct)
    (hm : m.Hosted content) (h1 : 1 ≤ strategy) (h4 : strategy ≤ 4) (hs : SparesPlaced P p m strategy) (h : PoolComplete p)
    (hc : Content content (fun _ => True) p.view) :
    Content content (fun _ => True) (p.loadModel P m strategy).2.view := by
  obtain ⟨b, hw⟩ := h.wellFormed
  have hl := hw.loadModel hP h.base h1 h4 hpos (hs.windowsOk h hpos)
  have hcomp := (h.loadModel hP hpos hn hd h1 h4).complete
  have hprep := ((hw.prepared m).2.2.1).content hc
  have hdrop := ((hw.dropFor P m).1.evicted).content hprep
  generalize p.loadModel P m strategy = r at hl hcomp
  cases hl with
  | cached _ => exact hprep
  | refused _ => exact hdrop
  | stuck hp hzero => exact absurd hzero (hp.addr_pos h.base hw h.sound)
  | @copied addrs q hp =>
    obtain ⟨tgs, hpm, hld⟩ := hp.loading
    refine hp.content_copied hL hm hd.1 (hp.wellFormed (hw.dropFor P m).1.wellFormed) hcomp ?_
    refine hld.content (fun tg htg hK => hK ?_) fun c hc' _ => hdrop c hc' trivial
    exact mem_map.2 ⟨tg, hpm.subset htg, rfl⟩

theorem PoolSound.cacheClean (h : PoolSound p) (hc : Content content (fun _ => True) p.view) : CacheClean content p := by
  obtain ⟨b, hw⟩ := h.wellFormed
  intro fp i hi
  obtain ⟨r, hr, hf⟩ := h.sound fp i hi
  rw [hw.region_eq (mem_allocatedOf.1 hr).1, ← hf]
  exact hc (i, r) hr trivial

end Pool

/-- A request of a run of `LoadModel` calls: each model is registered with its groups in host memory, and the merges of each
call spare what the call has placed. -/
def LoadStep (P : Platform) (content : String → List UInt8) (w : VRAMManager) (op : Op) : Prop :=
  (op.Allowed fun m => m.Positive ∧ m.Named ∧ m.Distinct ∧ m.Hosted content) ∧
  match op with
  | .registerModel _ => True
  | .loadModel path dev strategy => ∀ m p, w.registeredModels path = some m → w.gpuTensorPools dev = some p →
      SparesPlaced P p m (w.strategyOf strategy)
  | .allocateBlocks _ _ _ _ => False

/-- In every state of a run of `LoadModel` calls, every fingerprint that `GetTensor` finds labels a region with the bytes of
its group, whether the calls succeed or are refused, when every copy that they make succeeds. -/
theorem loads_keep_cache_clean {P : Platform} {v w : VRAMManager} {content : String → List UInt8} {dev : Int}
    {p : GPUTensorPool} (hP : P.MovesSucceed) (hL : P.LoadsSucceed) (hv : v.Fresh) (h : Reaches P (LoadStep P content) v w)
    (hp : w.gpuTensorPools dev = some p) : CacheClean content p := by
  have hgood : Good (fun m => m.Positive ∧ m.Named ∧ m.Distinct ∧ m.Hosted content)
      (fun _ p => PoolComplete p ∧ Content content (fun _ => True) p.view) w := by
    clear hp
    induction h with
    | refl =>
      refine hv.good fun _ base total bw bytes hb ht _ => ⟨poolComplete_init hb ht bw bytes, fun c hc _ => ?_⟩
      rw [view_cells, (holds_init _ _ bw bytes).cells_eq] at hc
      exact absurd hc (by simp [allocatedOf, Region.mk'])
    | @step u op _ hc ih =>
      refine ih.step hc.1 ?_ ?_
      · intro path dev strategy m p hop hm hp
        subst hop
        obtain ⟨hs1, hs4⟩ := ih.strategyOf hc.1
        obtain ⟨hpos, hn, hd, hhost⟩ := ih.models path m hm
        obtain ⟨hcomp, hcont⟩ := ih.pools dev p hp
        exact ⟨hcomp.loadModel hP hpos hn hd hs1 hs4,
          content_loadModel hP hL hpos hn hd hhost hs1 hs4 (hc.2 m p hm hp) hcomp hcont⟩
      · intro dev blockSize path n p hop _
        subst hop
        exact hc.2.elim
  obtain ⟨hcomp, hcont⟩ := hgood.pools dev p hp
  exact hcomp.toPoolSound.cacheClean hcont

/-- The bytes of the groups of these examples. -/
def exampleContent (fp : String) : List UInt8 :=
  if fp = "a" then [1, 1] else if fp = "b" then [2, 2, 2] else [3, 3, 3, 3]

def hostedModel : RegisteredModel := .ofGroups "A" [("a", [1, 1]), ("b", [2, 2, 2])]

/-- The second model shares "a" with the first, and a pool of 8 bytes has no room for all three groups. -/
def hostedModels : List RegisteredModel := [hostedModel, .ofGroups "B" [("a", [1, 1]), ("c", [3, 3, 3, 3])]]

theorem hostedModels_allowed : ∀ m ∈ hostedModels, m.Positive ∧ m.Named ∧ m.Distinct ∧ m.Hosted exampleContent := by
  have hd : ∀ m ∈ hostedModels, m.fingerprints.Nodup ∧ ∀ fp ∈ m.fingerprints, isKv fp = false := by decide
  have hh : ∀ m ∈ hostedModels, ∀ i < m.tensorGroupIndexes.length, ∀ tg ∈ m.tensorGroupIndexes[i]?,
      m.tensorGroupHostPtr[i]? = some (some (exampleContent tg.fingerprint)) ∧
        (exampleContent tg.fingerprint).length = tg.size := by decide
  intro m hm
  refine ⟨?_, ?_, RegisteredModel.distinct_of_not_kv (hd m hm).1 (hd m hm).2, ?_⟩
  · revert m
    unfold RegisteredModel.Positive
    decide
  · revert m
    unfold RegisteredModel.Named
    decide
  · intro i tg hi
    exact hh m hm i (List.getElem?_eq_some_iff.1 hi).1 tg hi

theorem loads_keep_cache_clean_hostedModels :
    ∃ p, ((single 100 8).run .reliable (loadOps 4 hostedModels)).gpuTensorPools 0 = some p ∧
      p.getTensor "c" ≠ none ∧ CacheClean exampleContent p := by
  have hpo : (((single 100 8).run .reliable (loadOps 4 hostedModels)).gpuTensorPools 0).any
      (fun p => p.getTensor "c" ≠ none) = true := by decide +kernel
  obtain ⟨p, hp, hb⟩ := (Option.any_eq_true _ _).1 hpo
  rw [decide_eq_true_eq] at hb
  refine ⟨p, hp, hb, loads_keep_cache_clean Platform.reliable_movesSucceed Platform.reliable_loadsSucceed
    (single_fresh (by decide) (by decide)) (reaches_run .reliable .refl ?_) hp⟩
  intro op hop u hu
  refine ⟨loadOps_allowed ⟨by decide, by decide⟩ hostedModels_allowed op hop, ?_⟩
  obtain ⟨m, hm, hop⟩ := mem_flatMap.1 hop
  simp only [mem_cons, not_mem_nil, or_false] at hop
  rcases hop with rfl | rfl
  · trivial
  · -- with strategy 4 every merge is before the placing
    have hstrategy : u.strategyOf 4 = 4 := by simp [strategyOf, hu, single]
    intro m p _ _
    rw [hstrategy]
    exact ⟨fun h => absurd h (by decide), fun h => absurd h (by decide)⟩

/-- The platform on which the first `cudaMemcpy` to the device, after `cudaSetDevice`, fails. -/
def copyFails : Platform := .failing [] [1]

def registeredRun : VRAMManager := (single 100 8).registerModel hostedModel

/-- The call returns "ERROR", and "a" stays in the index with a region that holds none of its bytes. -/
theorem failed_copy_poisons_cache :
    Reaches copyFails (LoadStep copyFails exampleContent) (.single 100 8)
        (registeredRun.loadModel copyFails "A" 0 4).2 ∧
      (registeredRun.loadModel copyFails "A" 0 4).1 = .error ∧
      ∃ p, (registeredRun.loadModel copyFails "A" 0 4).2.gpuTensorPools 0 = some p ∧ ¬CacheClean exampleContent p := by
  have hreg : LoadStep copyFails exampleContent (.single 100 8) (.registerModel hostedModel) :=
    ⟨hostedModels_allowed hostedModel (by simp [hostedModels]), trivial⟩
  have hld : LoadStep copyFails exampleContent registeredRun (.loadModel "A" 0 4) := by
    refine ⟨⟨by decide, by decide⟩, fun m p _ _ => ?_⟩
    exact ⟨fun h => absurd h (by decide), fun h => absurd h (by decide)⟩
  refine ⟨(Reaches.refl.step hreg).step hld, by decide +kernel, ?_⟩
  · have hpo : ((registeredRun.loadModel copyFails "A" 0 4).2.gpuTensorPools 0).any (fun p =>
        ∃ i ∈ p.getTensor "a", p.device.bytes (p.region i).addr = 0) = true := by decide +kernel
    obtain ⟨p, hp, hb⟩ := (Option.any_eq_true _ _).1 hpo
    rw [decide_eq_true_eq] at hb
    obtain ⟨i, hi, hzero⟩ := hb
    refine ⟨p, hp, ?_⟩
    intro h
    have hbyte := (h "a" i hi).2 0 (by decide)
    rw [Nat.add_zero, hzero] at hbyte
    exact absurd hbyte (by decide)

end ServerlessLLM
