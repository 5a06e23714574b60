import ServerlessLLM.Vmm.Theorems.Contents

/-!
# Estimates of loads

`EstimateModelLoad` predicts what `LoadModel` accounts, and the copy loop of `LoadModel` writes every byte of a new page once.
-/

namespace ServerlessLLM.Vmm

open List Option Dict TensorGroupIndex VmmVRAMManager

section

variable {groups : List PlacedGroup} {pages : List Nat} {packedBytes pageSize page x : Nat}

/-- The addresses that some copies write, in their order. -/
def written (units : List CopyUnit) : List Nat := units.flatMap fun u => range' u.address u.bytes

def groupAddresses (groups : List PlacedGroup) : List Nat := groups.flatMap fun g => range' g.offset g.size

/-- The addresses of the resident pages of the groups, as `EstimateModelLoad` visits them. -/
def residentAddresses (pool : Pool) (path : String) (groups : List PlacedGroup) : List Nat :=
  groups.flatMap fun g =>
    let firstPage := g.offset / pool.granularity
    let lastPage := (g.offset + g.size - 1) / pool.granularity
    ((range' firstPage (lastPage + 1 - firstPage)).filter fun page => pool.extentOf path page ≠ none).flatMap fun page =>
      range' (max g.offset (page * pool.granularity))
        (min (g.offset + g.size) ((page + 1) * pool.granularity) - max g.offset (page * pool.granularity))

/-! ## Lengths -/

theorem length_written (units : List CopyUnit) : (written units).length = (units.map CopyUnit.bytes).sum := by
  simp [written, length_flatMap]

theorem length_groupAddresses (groups : List PlacedGroup) : (groupAddresses groups).length =
    (groups.map PlacedGroup.size).sum := by
  simp [groupAddresses, length_flatMap]

theorem length_residentAddresses (pool : Pool) (path : String) (groups : List PlacedGroup) :
    (residentAddresses pool path groups).length = (groups.map (residentBytes pool path)).sum := by
  unfold residentAddresses residentBytes
  simp [length_flatMap]

/-! ## Members -/

theorem mem_groupAddresses : x ∈ groupAddresses groups ↔ ∃ g ∈ groups, g.Has x := by
  simp [groupAddresses, PlacedGroup.Has]

theorem mem_range'_copyUnit {g : PlacedGroup} {u : CopyUnit} (hu : g.copyUnit pageSize packedBytes page = some u)
    (hps : 0 < pageSize) :
    x ∈ range' u.address u.bytes → x / pageSize = page ∧ g.Has x := by
  intro hx
  obtain ⟨k, hk, rfl⟩ := mem_range'.1 hx
  rw [Nat.one_mul]
  exact (copyUnit_spec hu hps hk).2.imp id And.left

theorem mem_written_copyUnits (hins : ∀ g ∈ groups, g.offset + g.size ≤ packedBytes) (hps : 0 < pageSize) :
    x ∈ written (copyUnits pageSize packedBytes groups pages) ↔ x / pageSize ∈ pages ∧ ∃ g ∈ groups, g.Has x := by
  unfold written
  rw [mem_flatMap]
  constructor
  · rintro ⟨u, hu, hx⟩
    obtain ⟨page, hp, g, hg, hunit⟩ := mem_copyUnits.1 hu
    obtain ⟨rfl, hhas⟩ := mem_range'_copyUnit hunit hps hx
    exact ⟨hp, g, hg, hhas⟩
  · rintro ⟨hp, g, hg, hhas⟩
    obtain ⟨u, k, hunit, hk, rfl⟩ := exists_copyUnit hhas (hins g hg) rfl hps
    exact ⟨u, mem_copyUnits.2 ⟨_, hp, g, hg, hunit⟩, mem_range'.2 ⟨k, hk, by rw [Nat.one_mul]⟩⟩

theorem mem_range'_overlap {b e : Nat} (hps : 0 < pageSize) :
    x ∈ range' (max b (page * pageSize)) (min e ((page + 1) * pageSize) - max b (page * pageSize)) ↔
      x / pageSize = page ∧ b ≤ x ∧ x < e := by
  rw [mem_range'_1, Nat.div_eq_iff hps, Nat.succ_mul]
  omega

theorem mem_residentAddresses {pool : Pool} {path : String} :
    x ∈ residentAddresses pool path groups ↔ (∃ g ∈ groups, g.Has x) ∧ pool.extentOf path (x / pool.granularity) ≠ none := by
  have hps := pool.granularity_pos
  unfold residentAddresses
  simp only [mem_flatMap, mem_filter, mem_range'_overlap hps, decide_eq_true_eq]
  constructor
  · rintro ⟨g, hg, page, ⟨-, hres⟩, rfl, hle, hlt⟩
    exact ⟨⟨g, hg, hle, hlt⟩, hres⟩
  · rintro ⟨⟨g, hg, hle, hlt⟩, hres⟩
    have hfst : g.offset / pool.granularity ≤ x / pool.granularity := Nat.div_le_div_right hle
    have hla : x / pool.granularity ≤ (g.offset + g.size - 1) / pool.granularity := Nat.div_le_div_right (by omega)
    exact ⟨g, hg, _, ⟨mem_range'_1.2 ⟨hfst, by omega⟩, hres⟩, rfl, hle, hlt⟩

/-! ## No repetitions -/

theorem Layout.not_both (h : Layout packedBytes groups) : groups.Pairwise fun g g' => ∀ x, g.Has x → ¬g'.Has x := by
  refine h.apart.imp fun {g g'} hle x hx hx' => ?_
  obtain ⟨-, hlt⟩ := hx
  obtain ⟨hle', -⟩ := hx'
  omega

theorem nodup_groupAddresses (h : Layout packedBytes groups) : (groupAddresses groups).Nodup := by
  refine nodup_flatMap.2 ⟨fun g _ => nodup_range', h.not_both.imp fun {g g'} hne x hx hx' => ?_⟩
  exact hne x (mem_range'_1.1 hx) (mem_range'_1.1 hx')

theorem nodup_written_copyUnits (h : Layout packedBytes groups) (hps : 0 < pageSize) (hpgs : pages.Nodup) :
    (written (copyUnits pageSize packedBytes groups pages)).Nodup := by
  unfold written copyUnits
  rw [flatMap_assoc]
  refine nodup_flatMap.2 ⟨fun page _ => nodup_flatMap.2 ⟨fun u _ => nodup_range', ?_⟩,
    hpgs.imp fun {page page'} hne x hx hx' => ?_⟩
  · refine pairwise_filterMap.2 (h.not_both.imp fun {g g'} hne u hu u' hu' x hx hx' => ?_)
    exact hne x (mem_range'_copyUnit hu hps hx).2 (mem_range'_copyUnit hu' hps hx').2
  · have hin : ∀ page, x ∈ (groups.filterMap (PlacedGroup.copyUnit pageSize packedBytes page)).flatMap
      (fun u => range' u.address u.bytes) →
        x / pageSize = page := by
      intro page hx
      obtain ⟨u, hu, hx⟩ := mem_flatMap.1 hx
      obtain ⟨g, -, hunit⟩ := mem_filterMap.1 hu
      exact (mem_range'_copyUnit hunit hps hx).1
    exact hne ((hin page hx).symm.trans (hin page' hx'))

theorem nodup_residentAddresses (h : Layout packedBytes groups) (pool : Pool) (path : String) :
    (residentAddresses pool path groups).Nodup := by
  have hps := pool.granularity_pos
  unfold residentAddresses
  refine nodup_flatMap.2 ⟨fun g _ => nodup_flatMap.2 ⟨fun page _ => nodup_range', ?_⟩,
    h.not_both.imp fun {g g'} hne x hx hx' => ?_⟩
  · refine (List.Nodup.filter _ nodup_range').imp fun {page page'} hne x hx hx' => ?_
    exact hne (((mem_range'_overlap hps).1 hx).1.symm.trans ((mem_range'_overlap hps).1 hx').1)
  · obtain ⟨page, -, hx⟩ := mem_flatMap.1 hx
    obtain ⟨page', -, hx'⟩ := mem_flatMap.1 hx'
    exact hne x ((mem_range'_overlap hps).1 hx).2 ((mem_range'_overlap hps).1 hx').2

/-! ## The parts of a load -/

theorem written_add_resident (h : Layout packedBytes groups) (pool : Pool) {path : String}
    (hnd : pages.Nodup) (hpgs : ∀ page, page ∈ pages ↔ page < pool.pagesFor packedBytes ∧ pool.extentOf path page = none) :
    ((copyUnits pool.granularity packedBytes groups pages).map CopyUnit.bytes).sum +
      (groups.map (residentBytes pool path)).sum = (groups.map PlacedGroup.size).sum := by
  have hps := pool.granularity_pos
  rw [← length_written, ← length_residentAddresses, ← length_groupAddresses, ← length_append]
  refine ((perm_ext_iff_of_nodup ?_ (nodup_groupAddresses h)).2 fun x => ?_).length_eq
  · refine (nodup_written_copyUnits h hps hnd).append (nodup_residentAddresses h pool path) fun x hx hx' => ?_
    exact (mem_residentAddresses.1 hx').2 ((hpgs _).1 ((mem_written_copyUnits h.inside hps).1 hx).1).2
  · rw [mem_append, mem_written_copyUnits h.inside hps, mem_residentAddresses, mem_groupAddresses, hpgs]
    constructor
    · rintro (⟨-, hx⟩ | ⟨hx, -⟩) <;> exact hx
    · rintro ⟨g, hg, hle, hlt⟩
      have hpg : x / pool.granularity < pool.pagesFor packedBytes := pool.lt_pagesFor (Nat.lt_of_lt_of_le hlt (h.inside g hg))
      by_cases hres : pool.extentOf path (x / pool.granularity) = none
      · exact .inl ⟨⟨hpg, hres⟩, g, hg, hle, hlt⟩
      · exact .inr ⟨⟨g, hg, hle, hlt⟩, hres⟩

theorem written_all (h : Layout packedBytes groups) (pool : Pool) (hnd : pages.Nodup) (hpgs : ∀ page, page ∈ pages ↔
    page < pool.pagesFor packedBytes) :
    ((copyUnits pool.granularity packedBytes groups pages).map CopyUnit.bytes).sum = (groups.map PlacedGroup.size).sum := by
  have hps := pool.granularity_pos
  rw [← length_written, ← length_groupAddresses]
  refine ((perm_ext_iff_of_nodup (nodup_written_copyUnits h hps hnd) (nodup_groupAddresses h)).2 fun x => ?_).length_eq
  rw [mem_written_copyUnits h.inside hps, mem_groupAddresses, hpgs, and_iff_right_iff_imp]
  rintro ⟨g, hg, -, hlt⟩
  exact pool.lt_pagesFor (Nat.lt_of_lt_of_le hlt (h.inside g hg))

end

namespace VmmVRAMManager

open Pool Runs

variable {M M' : VmmVRAMManager} {path : String} {device : ℤ} {model : RegisteredModel}

structure Accounted (M : VmmVRAMManager) (path : String) (cachedBytes toLoadBytes : Nat) (M' : VmmVRAMManager) : Prop where
  cached : M'.totalCachedWeightBytes = M.totalCachedWeightBytes + cachedBytes
  toLoad : M'.totalH2dWeightBytes = M.totalH2dWeightBytes + toLoadBytes
  total : M'.totalWeightBytes = M.totalWeightBytes + (cachedBytes + toLoadBytes)
  modelCached : M'.modelCachedWeightBytes.get? path = some ((M.modelCachedWeightBytes.get? path).getD 0 + cachedBytes)
  modelToLoad : M'.modelH2dWeightBytes.get? path = some ((M.modelH2dWeightBytes.get? path).getD 0 + toLoadBytes)
  modelTotal : M'.modelWeightBytes.get? path = some ((M.modelWeightBytes.get? path).getD 0 + (cachedBytes + toLoadBytes))

/-- The copy loop of a load, from the pool before the load to the pool after it. -/
structure Writes (S : Surroundings) (p : Pool) (path : String) (groups : List PlacedGroup) (units : List CopyUnit)
    (newly : List Nat)
    (p' : Pool) : Prop where
  loop : ∃ q, q.driver.memory = p.driver.memory ∧ Pool.copy S .memcpy (q.pageAddr path 0).range units q = (.done, p')
  once : (written units).Nodup
  addresses : ∀ x, x ∈ written units ↔ x / p.granularity ∈ newly ∧ ∃ g ∈ groups, g.Has x
  bytes : ∀ g ∈ groups, ∀ position < g.size, (g.offset + position) / p.granularity ∈ newly →
    ∃ host, g.host = some host ∧ p'.driver.byteAt p.granularity (p'.pageAddr path 0).range (g.offset + position) =
      some (host position)
  noOther : ∀ handle i, p'.driver.memory handle i ≠ p.driver.memory handle i → ∃ x ∈ written units,
    p'.driver.mapped.get? ⟨(p'.pageAddr path 0).range, x / p.granularity⟩ = some handle ∧ i = x % p.granularity

theorem writes_of_filled {S : Surroundings} {p p' : Pool} {arena : StableWeightArena} {groups : List PlacedGroup}
    {packedBytes : Nat}
    {newly : List Nat} (hlay : Layout packedBytes groups) (hfil : Filled p path groups packedBytes newly p') (hr : Reached p')
    (hg : p'.granularity = p.granularity) (ha : p'.stableWeights.get? path = some arena)
    (hloop : ∃ q, q.driver.memory = p.driver.memory ∧
      Pool.copy S .memcpy (q.pageAddr path 0).range (copyUnits p.granularity packedBytes groups newly) q = (.done, p')) :
    Writes S p path groups (copyUnits p.granularity packedBytes groups newly) newly p' := by
  have hps := p.granularity_pos
  obtain ⟨⟨lost, hs⟩, -⟩ := hr
  have hmpd : ∀ page id, p'.extentOf path page = some id → p'.driver.mapped.get? ⟨(p'.pageAddr path 0).range, page⟩ =
    some (.extent id) := by
    intro page id hid
    rw [pageAddr_eq ha]
    exact (hs.mapped_arena ha).2 (.inl ⟨id, hid, rfl⟩)
  refine ⟨hloop, nodup_written_copyUnits hlay hps hfil.nodup, fun x => mem_written_copyUnits hlay.inside hps,
    fun g hgm position hpos hpg => ?_, fun handle i hne => ?_⟩
  · have hhas : g.Has (g.offset + position) := ⟨Nat.le_add_right .., Nat.add_lt_add_left hpos _⟩
    obtain ⟨host, hhost⟩ := ne_none_iff_exists'.1 (hlay.hosts g hgm)
    obtain ⟨id, hid⟩ := ne_none_iff_exists'.1 (hfil.resident _ hpg)
    have hshow := hfil.shows _ hpg id hid (g.offset + position) (by rw [hg]) ⟨g, hgm, hhas⟩
    refine ⟨host, hhost, ?_⟩
    unfold Driver.byteAt
    rw [hmpd _ _ hid, map_some, ← hg, hshow, hlay.wanted_eq hgm hhas hhost, Nat.add_sub_cancel_left]
  · rcases hfil.memory handle i with hsa | ⟨u, hu, k, hk, id, rfl, hid, hi, -⟩
    · exact absurd hsa hne
    · refine ⟨u.address + k, mem_flatMap.2
        ⟨u, hu, mem_range'_1.2 ⟨Nat.le_add_right .., Nat.add_lt_add_left hk _⟩⟩, hmpd _ _ hid, hi⟩

/-- Every successful load accounts what was estimated, and writes the bytes of the new pages once each. -/
theorem load_as_estimated {native : ℤ → Nat} {memory : ℤ → Handle → Nat → UInt8} {poolSize requested : Nat} {gpuIds : List ℤ}
    {M₀ : VmmVRAMManager} (hM : create native memory poolSize gpuIds requested = some M₀) {cs : List (Outside × Op)}
    (hrun : cs.foldlM step M₀ = some M) (hmodel : M.models.get? path = some model)
    {S : Outside} {disableReuse : Bool} {cached toLoad : Nat}
    (hload : M.loadModel S path device disableReuse = (some (cached, toLoad), M')) :
    M.estimateModelLoad path device disableReuse = some (cached, toLoad, (model.tensorGroupIndexes.map size).sum) ∧
      cached + toLoad = (model.tensorGroupIndexes.map size).sum ∧ Accounted M path cached toLoad M' ∧
      ∃ p p' newly, M.pools.get? device = some p ∧ M'.pools.get? device = some p' ∧
        (∀ page, page ∈ newly ↔ page < p.arenaPages path ∧ (disableReuse = true ∨ p.extentOf path page = none)) ∧
        Writes (S.gpu device) p path (M.groupsOf path model)
          (copyUnits p.granularity ((M.modelPackedBytes.get? path).getD 0) (M.groupsOf path model) newly) newly p' := by
  have hkept : Kept M := run_invariant (fun M c M' h hst => (step_kept h hst).kept) (create_spec hM).1 hrun
  obtain ⟨p, hp⟩ : ∃ p, M.pools.get? device = some p := by
    unfold loadModel at hload
    simp only [hmodel] at hload
    split at hload
    · rename_i p _ hp
      exact ⟨p, hp⟩
    · cases hload
  obtain ⟨packedBytes, hreg, hars⟩ := hkept.models path model hmodel
  obtain ⟨hlay, -, hsum⟩ := hreg.layout
  obtain ⟨arena, ha, -, hpgs⟩ := hars device p hp
  obtain ⟨count, r, p', -, hinto, hfst, hM'⟩ := loadModel_eq S hmodel hp disableReuse
  rw [hreg.packed, getD_some] at hinto ⊢
  obtain ⟨r', q, hinto', hr, hmvs, -, hok⟩ :=
    loadIntoPool_spec (S.gpu device) disableReuse ((hkept.pools device p hp).1.setModelAccessCount path count).1 hlay ha
  obtain ⟨rfl, rfl⟩ := Prod.mk.inj (hinto.symm.trans hinto')
  rw [hload] at hfst hM'
  obtain ⟨n, hn, hbyt⟩ := map_eq_some_iff.1 hfst.symm
  obtain ⟨rfl, rfl⟩ := Prod.mk.inj hbyt
  subst hn
  obtain ⟨newly, hfil, hnewly, hcop, -, hloop⟩ := hok n rfl
  obtain ⟨arena', ha', -⟩ := get?_of_shapes hmvs.shapes ha
  have hin : p.arenaPages path = p.pagesFor packedBytes := by
    unfold arenaPages
    rw [ha, map_some, getD_some, hpgs]
  -- what is counted and what is copied are all bytes
  have hprs : n + (if disableReuse then 0 else ((M.groupsOf path model).map (residentBytes p path)).sum) =
      (model.tensorGroupIndexes.map size).sum := by
    rw [← hsum, hcop]
    cases disableReuse with
    | true => exact written_all hlay p hfil.nodup fun page => by simp [hnewly, ← hin]; rfl
    | false =>
      refine written_add_resident hlay p hfil.nodup fun page => ?_
      rw [hnewly, ← hin]
      simp
      rfl
  have htot : (model.tensorGroupIndexes.map size).sum - n + n = (model.tensorGroupIndexes.map size).sum :=
    Nat.sub_add_cancel (by omega)
  obtain ⟨hno, -⟩ | ⟨n', hn', rfl⟩ := hM'
  · cases hno
  obtain rfl := Option.some.inj hn'
  refine ⟨?_, htot, ⟨rfl, rfl, ?_, ?_, ?_, ?_⟩, p, p', newly, hp, ?_, hnewly,
    writes_of_filled hlay ?_ hr hmvs.granularity ha' hloop⟩
  · unfold estimateModelLoad
    have hcad : (if disableReuse then 0 else ((M.groupsOf path model).map (residentBytes p path)).sum) =
        (model.tensorGroupIndexes.map size).sum - n := by omega
    simp only [hmodel, hp]
    rw [hcad, Nat.sub_sub_self (by omega)]
  · rw [htot]
    rfl
  · exact get?_set_self ..
  · exact get?_set_self ..
  · rw [htot]
    exact get?_set_self ..
  · exact get?_set_self ..
  · exact hfil.of_fades ((hkept.pools device p hp).1.setModelAccessCount path count).2

def preparePair : List (Outside × Op) := [registerPair, (.reliable, .prepareLayerWeavePages "a" 0 [0])]

theorem load_as_estimated_preparePair : ∃ M M', preparePair.foldlM step (ofPages 4) = some M ∧
    M.loadModel .reliable "a" 0 false = (some (1, 1), M') ∧ M.estimateModelLoad "a" 0 false = some (1, 1, 2) ∧
      Accounted M "a" 1 1 M' := by
  obtain ⟨M, hrun⟩ : ∃ M, preparePair.foldlM step (ofPages 4) = some M := ⟨_, rfl⟩
  obtain ⟨model, hmod⟩ : ∃ model, M.models.get? "a" = some model := by
    cases hrun
    exact ⟨_, rfl⟩
  have hld : M.loadModel .reliable "a" 0 false = (some (1, 1), (M.loadModel .reliable "a" 0 false).2) := by
    cases hrun
    rfl
  have hall := load_as_estimated create_ofPages_four hrun hmod hld
  have htot : (model.tensorGroupIndexes.map size).sum = 2 := hall.2.1.symm
  rw [htot] at hall
  exact ⟨M, _, hrun, hld, hall.1, hall.2.2.1⟩

end VmmVRAMManager

end ServerlessLLM.Vmm
