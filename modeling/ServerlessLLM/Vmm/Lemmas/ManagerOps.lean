import ServerlessLLM.Vmm.Lemmas.LoadOps

/-!
# Runs of the manager

`Kept` is what holds of the pools and of the registered models in every state; `ShowsAll` says that every resident page of
every model shows its bytes, which only a failed `cudaMemcpyAsync` breaks.
-/

namespace ServerlessLLM.Vmm

open List Option Dict Prod TensorGroupIndex Bool VmmVRAMManager

section

variable {S : Surroundings} {p p' : Pool} {path : String} {packedBytes : Nat} {sensitivity : ℚ}

namespace Pool

/-- The pool differs from what it was only in the arena of one model, which has no resident page. -/
structure Beside (S : Surroundings) (path : String) (p p' : Pool) : Prop where
  goes : Goes S p p'
  granularity : p'.granularity = p.granularity
  weights : p'.weights = p.weights
  bindings : p'.bindingAliases = p.bindingAliases
  memory : p'.driver.memory = p.driver.memory
  others : ∀ m, m ≠ path → p'.stableWeights.get? m = p.stableWeights.get? m
  empty : ∀ page, p'.extentOf path page = none

theorem Beside.refl (S : Surroundings) (hpa : path ∉ p.stableWeights.keys) : Beside S path p p := by
  refine ⟨.refl p, rfl, rfl, rfl, rfl, fun _ _ => rfl, ?_⟩
  intro page
  unfold extentOf
  rw [get?_eq_none_iff.2 hpa]
  rfl

theorem Beside.reserve (packedBytes : Nat) (sensitivity : ℚ) (h : Beside S path p p') (hpa : path ∉ p'.stableWeights.keys) :
    Beside S path p (p'.reserveStableWeight S path packedBytes sensitivity).2 ∧
      ((p'.reserveStableWeight S path packedBytes sensitivity).1 = true →
        ∃ arena, (p'.reserveStableWeight S path packedBytes sensitivity).2.stableWeights.get? path = some arena ∧
          arena.logicalBytes = packedBytes ∧ arena.physicalExtentIds.length = p.pagesFor packedBytes) ∧
      ((p'.reserveStableWeight S path packedBytes sensitivity).1 = false →
        path ∉ (p'.reserveStableWeight S path packedBytes sensitivity).2.stableWeights.keys) := by
  have hr := h.goes.call (.reserveStableWeight path packedBytes sensitivity) rfl
  have hemp : ∀ page, (p'.reserveStableWeight S path packedBytes sensitivity).2.extentOf path page = none := by
    intro page
    rw [extentOf_reserveStableWeight, h.empty]
  revert hr hemp
  unfold reserveStableWeight Driver.cuMemAddressReserve
  rw [if_neg hpa]
  by_cases hok : S.succeeds .reserveArena p'.driver.calls = true
  · simp only [hok, if_true]
    intro hr hemp
    refine ⟨⟨hr, h.granularity, h.weights, h.bindings, h.memory, fun m hm => ?_, hemp⟩,
      fun _ => ⟨_, get?_set_self .., rfl, ?_⟩, by simp⟩
    · exact (get?_set_of_ne _ _ hm).trans (h.others m hm)
    · simp [pagesFor, h.granularity]
  · simp only [if_neg hok]
    intro hr hemp
    exact ⟨⟨hr, h.granularity, h.weights, h.bindings, h.memory, h.others, hemp⟩, by simp, fun _ => hpa⟩

theorem releaseStablePages_of_none {model : String} (hno : ∀ page, p.extentOf model page = none) (l : List Nat) :
    p.releaseStablePages model l = p := by
  unfold releaseStablePages
  induction l with
  | nil => rfl
  | cons page l ih => rw [foldl_cons, releaseStablePage_of_none (hno page), ih]

theorem Beside.drop (h : Beside S path p p') (hb : path ∉ p.bindingAliases.keys) :
    Beside S path p (p'.dropStableWeight path true) ∧ path ∉ (p'.dropStableWeight path true).stableWeights.keys := by
  have hnot : ¬(true = true ∧ path ∈ p'.bindingAliases.keys) := by
    rw [h.bindings]
    exact fun hand => hb hand.2
  have hr := h.goes.call (.dropStableWeight path true) (if_neg hnot)
  have heq : p'.dropStableWeight path true = p'.withoutArena path := by
    rw [dropStableWeight_eq, if_pos rfl, releaseStablePages_of_none h.empty]
  rw [heq] at hr ⊢
  have hno : (p'.withoutArena path).stableWeights.get? path = none := by
    unfold withoutArena
    rw [get?_erase, if_pos rfl]
  refine ⟨⟨hr, h.granularity, h.weights, h.bindings, h.memory, fun m hm => ?_, fun page => ?_⟩, get?_eq_none_iff.1 hno⟩
  · unfold withoutArena
    rw [get?_erase, if_neg hm, h.others m hm]
  · unfold extentOf
    rw [hno]
    rfl

end Pool

namespace VmmVRAMManager

open Pool

variable {S : Outside} {pools₀ pools : Dict ℤ Pool}

theorem undo_spec (pools : Dict ℤ Pool) (reserved rest : List ℤ) (hb : ∀ device p, pools₀.get? device = some p →
    path ∉ p.bindingAliases.keys)
    (h : ∀ device p', pools.get? device = some p' → ∃ p, pools₀.get? device = some p ∧ Beside (S.gpu device) path p p' ∧
      (path ∈ p'.stableWeights.keys → device ∈ reserved ++ rest)) :
    let pools' := reserved.foldl (fun pools device => pools.modify device fun pool => pool.dropStableWeight path true) pools
    pools'.keys = pools.keys ∧ ∀ device p', pools'.get? device = some p' → ∃ p, pools₀.get? device = some p ∧
      Beside (S.gpu device) path p p' ∧
      (path ∈ p'.stableWeights.keys → device ∈ rest) := by
  induction reserved generalizing pools with
  | nil => exact ⟨rfl, h⟩
  | cons d reserved ih =>
    simp only [foldl_cons]
    have hnx := ih (pools.modify d fun pool => pool.dropStableWeight path true) fun device p' hp' => by
      rw [get?_modify] at hp'
      split at hp'
      · rename_i heq
        subst heq
        obtain ⟨q, hq, rfl⟩ := map_eq_some_iff.1 hp'
        obtain ⟨p, hp, hbes, -⟩ := h device q hq
        obtain ⟨hdrp, hpa⟩ := hbes.drop (hb device p hp)
        exact ⟨p, hp, hdrp, fun hin => absurd hin hpa⟩
      · rename_i hne
        obtain ⟨p, hp, hbes, hin⟩ := h device p' hp'
        refine ⟨p, hp, hbes, ?_⟩
        intro hpa
        rcases mem_cons.1 (hin hpa) with rfl | hrs
        · exact absurd rfl hne
        · exact hrs
    exact ⟨hnx.1.trans (keys_modify ..), hnx.2⟩

theorem reserveInPools_spec (pools₀ pools : Dict ℤ Pool) (packedBytes : Nat) (sensitivity : ℚ) (l : List (ℤ × Pool))
    (reserved : List ℤ)
    (hb : ∀ device p, pools₀.get? device = some p → path ∉ p.bindingAliases.keys)
    (h : ∀ device p', pools.get? device = some p' → ∃ p, pools₀.get? device = some p ∧ Beside (S.gpu device) path p p' ∧
      (path ∈ p'.stableWeights.keys → device ∈ reserved) ∧
        (device ∉ l.map fst → ∃ arena, p'.stableWeights.get? path = some arena ∧
        arena.logicalBytes = packedBytes ∧ arena.physicalExtentIds.length = p.pagesFor packedBytes))
    (hl : ∀ e ∈ l, pools.get? e.1 = some e.2 ∧ e.1 ∉ reserved) (hnd : (l.map fst).Nodup) :
    ∃ b pools', reserveInPools S path packedBytes sensitivity l reserved pools = (b, pools') ∧ pools'.keys = pools.keys ∧
      ∀ device p', pools'.get? device = some p' → ∃ p, pools₀.get? device = some p ∧ Beside (S.gpu device) path p p' ∧
        (b = false → path ∉ p'.stableWeights.keys) ∧ (b = true → ∃ arena, p'.stableWeights.get? path = some arena ∧
          arena.logicalBytes = packedBytes ∧ arena.physicalExtentIds.length = p.pagesFor packedBytes) := by
  induction l generalizing reserved pools with
  | nil =>
    refine ⟨true, pools, rfl, rfl, ?_⟩
    intro device p' hp'
    obtain ⟨p, hp, hbes, -, har⟩ := h device p' hp'
    exact ⟨p, hp, hbes, nofun, fun _ => har (by simp)⟩
  | cons e l ih =>
    obtain ⟨d, q⟩ := e
    obtain ⟨hget, hnotin⟩ := hl (d, q) mem_cons_self
    rw [map_cons, nodup_cons] at hnd
    obtain ⟨p, hp, hbes, hin, -⟩ := h d q hget
    have hpa : path ∉ q.stableWeights.keys := fun hpa => hnotin (hin hpa)
    obtain ⟨hreserve, hok, hfail⟩ := hbes.reserve packedBytes sensitivity hpa
    have hks : (pools.set d (q.reserveStableWeight (S.gpu d) path packedBytes sensitivity).2).keys = pools.keys :=
      keys_set_of_get? hget _
    unfold reserveInPools
    by_cases hb' : (q.reserveStableWeight (S.gpu d) path packedBytes sensitivity).1 = true
    · simp only [hb', if_true]
      have hnx := ih (pools.set d (q.reserveStableWeight (S.gpu d) path packedBytes sensitivity).2) (reserved ++ [d])
        (fun device p' hp' => ?_) (fun e he => ?_) hnd.2
      · rwa [hks] at hnx
      · rw [get?_set] at hp'
        split at hp'
        · rename_i heq
          subst heq
          cases hp'
          exact ⟨p, hp, hreserve, fun _ => by simp, fun _ => hok hb'⟩
        · rename_i hne
          obtain ⟨p, hp, hbes, hin, har⟩ := h device p' hp'
          exact ⟨p, hp, hbes, fun hpa => mem_append_left _ (hin hpa), fun hnot => har (by simp [hne, hnot])⟩
      · have hne : e.1 ≠ d := fun heq => hnd.1 (mem_map.2 ⟨e, he, heq⟩)
        obtain ⟨hget', hnot'⟩ := hl e (mem_cons_of_mem _ he)
        exact ⟨by rw [get?_set_of_ne _ _ hne, hget'], by simp [hne, hnot']⟩
    · rw [not_eq_true] at hb'
      simp only [hb', false_eq_true, if_false]
      obtain ⟨hks', hundone⟩ := undo_spec (pools.set d (q.reserveStableWeight (S.gpu d) path packedBytes sensitivity).2)
        reserved [] hb fun device p' hp' => by
          rw [get?_set] at hp'
          split at hp'
          · rename_i heq
            subst heq
            cases hp'
            exact ⟨p, hp, hreserve, fun hin => absurd hin (hfail hb')⟩
          · obtain ⟨p, hp, hbes, hin, -⟩ := h device p' hp'
            exact ⟨p, hp, hbes, fun hpa => by simpa using hin hpa⟩
      refine ⟨false, _, rfl, hks'.trans hks, ?_⟩
      intro device p' hp'
      obtain ⟨p, hp, hbes, hin⟩ := hundone device p' hp'
      exact ⟨p, hp, hbes, fun _ hpa => absurd (hin hpa) not_mem_nil, nofun⟩

end VmmVRAMManager

end

section

variable {S : Outside} {path : String} {device : ℤ} {packedBytes : Nat}

theorem RegisteredModel.loadModelFromDisk_spec {S : Surroundings} {m m' : RegisteredModel}
    (h : m.loadModelFromDisk S = some m') :
    ∃ hosts, m' = { m with tensorGroupHostPtr := hosts.map some } ∧
      List.Forall₂ (fun e host => m.readGroup S e.2 e.1 = some host) m.tensorGroupIndexes.zipIdx hosts := by
  unfold RegisteredModel.loadModelFromDisk at h
  simp only [ite_none_left_eq_some, map_eq_some_iff] at h
  obtain ⟨-, hosts, hhosts, rfl⟩ := h
  exact ⟨hosts, rfl, Runs.forall₂_of_mapM hhosts⟩

theorem packGroups_spec (packedBytes : Nat) (groups : List TensorGroupIndex) (hosts : List (Nat → UInt8))
    (hlen : hosts.length = groups.length) :
    let r := packGroups packedBytes groups
    let placed := (groups.zip (r.1.zip (hosts.map some))).map fun e => (⟨e.2.1, e.1.size, e.2.2⟩ : PlacedGroup)
    packedBytes ≤ r.2 ∧ r.1.length = groups.length ∧
      (∀ g ∈ placed, packedBytes ≤ g.offset ∧ 256 ∣ g.offset ∧ g.offset + g.size ≤ r.2 ∧ g.host ≠ none) ∧
      (placed.Pairwise fun g g' => g.offset + g.size ≤ g'.offset) ∧ placed.map PlacedGroup.size = groups.map size := by
  induction groups generalizing packedBytes hosts with
  | nil => simp [packGroups]
  | cons group groups ih =>
    cases hosts with
    | nil => cases hlen
    | cons host hosts =>
      have hlen' : hosts.length = groups.length := by simpa using hlen
      obtain ⟨hle, hlength, hmem, hap, hsizes⟩ := ih ((packedBytes + 255) / 256 * 256 + group.size) hosts hlen'
      have hoff : packedBytes ≤ (packedBytes + 255) / 256 * 256 := by omega
      simp only [packGroups, map_cons, zip_cons_cons, mem_cons, pairwise_cons]
      refine ⟨by omega, by simp [hlength], ?_, ⟨fun g' hg' => (hmem g' hg').1, hap⟩, by rw [hsizes]⟩
      rintro g (rfl | hg)
      · exact ⟨hoff, ⟨_, Nat.mul_comm ..⟩, hle, by simp⟩
      · obtain ⟨h₁, h₂, h₃⟩ := hmem g hg
        exact ⟨by omega, h₂, h₃⟩

namespace VmmVRAMManager

open Pool

variable {M M' : VmmVRAMManager} {p p' : Pool} {model : RegisteredModel}

/-- What a registered model has: host copies, the offsets of its groups and the size of its arena. -/
structure IsRegistered (M : VmmVRAMManager) (path : String) (model : RegisteredModel) (packedBytes : Nat) : Prop where
  loaded : ∃ S m, RegisteredModel.loadModelFromDisk m S = some model
  offsets : M.modelGroupOffsets.get? path = some (packGroups 0 model.tensorGroupIndexes).1
  packed : M.modelPackedBytes.get? path = some packedBytes
  packed_eq : packedBytes = (packGroups 0 model.tensorGroupIndexes).2

/-- The invariant of the manager. -/
structure Kept (M : VmmVRAMManager) : Prop where
  pools : ∀ device p, M.pools.get? device = some p → Reached p ∧ p.weights.entries = [] ∧
    ∀ path ∈ p.stableWeights.keys, path ∈ M.models.keys
  models : ∀ path model, M.models.get? path = some model → ∃ packedBytes, IsRegistered M path model packedBytes ∧
    ∀ device p, M.pools.get? device = some p → ∃ arena, p.stableWeights.get? path = some arena ∧
      arena.logicalBytes = packedBytes ∧
      arena.physicalExtentIds.length = p.pagesFor packedBytes

/-- Every resident page of every model shows its bytes. -/
def ShowsAll (M : VmmVRAMManager) : Prop :=
  ∀ device p path model, M.pools.get? device = some p → M.models.get? path = some model → p.Shows path (M.groupsOf path model)

theorem IsRegistered.layout (h : IsRegistered M path model packedBytes) :
    Layout packedBytes (M.groupsOf path model) ∧ (∀ g ∈ M.groupsOf path model, 256 ∣ g.offset) ∧
      (M.groupsOf path model).map PlacedGroup.size = model.tensorGroupIndexes.map size := by
  obtain ⟨S, m, hldd⟩ := h.loaded
  obtain ⟨hosts, rfl, hrd⟩ := RegisteredModel.loadModelFromDisk_spec hldd
  have hlen : hosts.length = m.tensorGroupIndexes.length := by
    rw [← hrd.length_eq, length_zipIdx]
  obtain ⟨-, -, hmem, hap, hsizes⟩ := packGroups_spec 0 m.tensorGroupIndexes hosts hlen
  unfold groupsOf RegisteredModel.placedGroups
  rw [h.offsets, getD_some, h.packed_eq]
  exact ⟨⟨hap, fun g hg => (hmem g hg).2.2.1, fun g hg => (hmem g hg).2.2.2⟩, fun g hg => (hmem g hg).2.1, hsizes⟩

theorem create_spec {native : ℤ → Nat} {memory : ℤ → Handle → Nat → UInt8} {poolSize requested : Nat} {gpuIds : List ℤ}
    (h : create native memory poolSize gpuIds requested = some M) :
    Kept M ∧ ShowsAll M ∧ M.models = .empty ∧ ∀ device p, M.pools.get? device = some p → Sound p [] [] ∧ KVArena p := by
  unfold create at h
  simp only [map_eq_some_iff] at h
  obtain ⟨pools, hpools, rfl⟩ := h
  have hnew : ∀ (ids : List ℤ) (pools₀ : Dict ℤ Pool), (∀ device p, pools₀.get? device = some p →
      Sound p [] [] ∧ KVArena p ∧ p.weights.entries = [] ∧ p.stableWeights = .empty) → ∀ pools, ids.foldlM
        (fun pools id => (Pool.create (native id) requested poolSize (memory id)).map fun p =>
          if id ∈ pools.keys then pools else pools.set id p)
        pools₀ = some pools → ∀ device p, pools.get? device = some p →
      Sound p [] [] ∧ KVArena p ∧ p.weights.entries = [] ∧ p.stableWeights = .empty := by
    intro ids
    induction ids with
    | nil =>
      intro pools₀ h₀ pools hrun
      cases hrun
      exact h₀
    | cons id ids ih =>
      intro pools₀ h₀ pools hrun
      obtain ⟨pools₁, hst, hrs⟩ := Runs.foldlM_cons_eq_some.1 hrun
      obtain ⟨q, hq, rfl⟩ := map_eq_some_iff.1 hst
      obtain ⟨hs, hk, -, hstb, hwts, -⟩ := Pool.create_spec hq
      refine ih _ ?_ pools hrs
      intro device p hp
      split at hp
      · exact h₀ device p hp
      · rw [get?_set] at hp
        split at hp
        · cases hp
          exact ⟨hs, hk, by rw [hwts]; rfl, hstb⟩
        · exact h₀ device p hp
  have hall := hnew gpuIds .empty (by simp) pools hpools
  refine ⟨⟨fun device p hp => ?_, fun path model hmod => by simp at hmod⟩, fun device p path model _ hmod =>
    by simp at hmod, rfl,
    fun device p hp => ⟨(hall device p hp).1, (hall device p hp).2.1⟩⟩
  obtain ⟨hs, hk, hwts, hstb⟩ := hall device p hp
  refine ⟨⟨⟨[], hs⟩, hk⟩, hwts, ?_⟩
  intro path hpa
  rw [hstb] at hpa
  cases hpa

/-! ## One pool changes -/

theorem Kept.withPool (h : Kept M) (hp : M.pools.get? device = some p) (hr : Reached p') (hm : Moves p p') :
    Kept (M.withPool device p') := by
  obtain ⟨-, hemp, hstb⟩ := h.pools device p hp
  refine ⟨?_, ?_⟩
  · intro d q hq
    unfold VmmVRAMManager.withPool at hq ⊢
    rw [get?_set] at hq
    split at hq
    · cases hq
      refine ⟨hr, eq_nil_iff_forall_not_mem.2 ?_, fun path hpa => hstb path ?_⟩
      · intro e he
        have hin := hm.weights e he
        rw [hemp] at hin
        cases hin
      · rwa [keys_congr (arenas_congr hm.shapes)] at hpa
    · exact h.pools d q hq
  · intro path model hmod
    obtain ⟨packedBytes, hreg, hars⟩ := h.models path model hmod
    refine ⟨packedBytes, ⟨hreg.loaded, hreg.offsets, hreg.packed, hreg.packed_eq⟩, ?_⟩
    intro d q hq
    unfold VmmVRAMManager.withPool at hq
    rw [get?_set] at hq
    split at hq
    · cases hq
      obtain ⟨arena, ha, hbyt, hlen⟩ := hars device p hp
      obtain ⟨arena', ha', -, hbyt', hlen'⟩ := get?_of_shapes hm.shapes ha
      refine ⟨arena', ha', hbyt'.trans hbyt, ?_⟩
      rw [hlen', hlen]
      simp [pagesFor, hm.granularity]
    · exact hars d q hq

theorem ShowsAll.withPool (h : ShowsAll M) (hshw : ∀ path model, M.models.get? path = some model →
    p'.Shows path (M.groupsOf path model)) : ShowsAll (M.withPool device p') := by
  intro d q path model hq hmod
  unfold VmmVRAMManager.withPool at hq
  rw [get?_set] at hq
  split at hq
  · cases hq
    exact hshw path model hmod
  · exact h d q path model hq hmod

/-! ## The calls -/

theorem Kept.countAccesses (h : Kept M) (path : String) (n : Nat) : Kept (M.countAccesses path n) := by
  refine ⟨?_, ?_⟩
  · intro d q hq
    unfold VmmVRAMManager.countAccesses at hq
    simp only [get?_mapValues, map_eq_some_iff] at hq
    obtain ⟨p, hp, rfl⟩ := hq
    obtain ⟨hr, hemp, hstb⟩ := h.pools d p hp
    exact ⟨(hr.setModelAccessCount path _).1, hemp, hstb⟩
  · intro path' model hmod
    obtain ⟨packedBytes, hreg, hars⟩ := h.models path' model hmod
    refine ⟨packedBytes, ⟨hreg.loaded, hreg.offsets, hreg.packed, hreg.packed_eq⟩, ?_⟩
    intro d q hq
    unfold VmmVRAMManager.countAccesses at hq
    simp only [get?_mapValues, map_eq_some_iff] at hq
    obtain ⟨p, hp, rfl⟩ := hq
    exact hars d p hp

theorem ShowsAll.countAccesses (h : ShowsAll M) (path : String) (n : Nat) : ShowsAll (M.countAccesses path n) := by
  intro d q path' model hq hmod
  unfold VmmVRAMManager.countAccesses at hq
  simp only [get?_mapValues, map_eq_some_iff] at hq
  obtain ⟨p, hp, rfl⟩ := hq
  exact h d p path' model hp hmod

theorem Kept.accountLoad (h : Kept M) (path : String) (totalBytes toLoadBytes : Nat) :
    Kept (M.accountLoad path totalBytes toLoadBytes) :=
  ⟨h.pools, fun path' model hmod => by
    obtain ⟨packedBytes, hreg, hars⟩ := h.models path' model hmod
    exact ⟨packedBytes, ⟨hreg.loaded, hreg.offsets, hreg.packed, hreg.packed_eq⟩, hars⟩⟩

theorem loadModel_eq (S : Outside) (hmod : M.models.get? path = some model) (hp : M.pools.get? device = some p)
    (disableReuse : Bool) :
    ∃ count r p', (M.countAccesses path 1).pools.get? device = some (p.setModelAccessCount path count) ∧
      loadIntoPool (S.gpu device) path (M.groupsOf path model) ((M.modelPackedBytes.get? path).getD 0) disableReuse
        (p.setModelAccessCount path count) = (r, p') ∧
      (M.loadModel S path device disableReuse).1 = r.map (fun n => ((model.tensorGroupIndexes.map size).sum - n, n)) ∧
      (r = none ∧ (M.loadModel S path device disableReuse).2 = (M.countAccesses path 1).withPool device p' ∨
        ∃ n, r = some n ∧ (M.loadModel S path device disableReuse).2 =
          ((M.countAccesses path 1).withPool device p').accountLoad path (model.tensorGroupIndexes.map size).sum n) := by
  have hcnt : (((M.countAccesses path 1).modelAccessCounts.get? path).getD 0) = (M.modelAccessCounts.get? path).getD 0 + 1 := by
    unfold countAccesses
    simp
  have hpo : (M.countAccesses path 1).pools.get? device =
    some (p.setModelAccessCount path ((M.modelAccessCounts.get? path).getD 0 + 1)) := by
    unfold countAccesses
    simp [get?_mapValues, hp]
  obtain ⟨r, p', hr⟩ : ∃ r p', loadIntoPool (S.gpu device) path (M.groupsOf path model)
    ((M.modelPackedBytes.get? path).getD 0) disableReuse
      (p.setModelAccessCount path ((M.modelAccessCounts.get? path).getD 0 + 1)) = (r, p') := ⟨_, _, rfl⟩
  refine ⟨_, r, p', hpo, hr, ?_⟩
  have hr' : loadIntoPool (S.gpu device) path ((M.countAccesses path 1).groupsOf path model)
      (((M.countAccesses path 1).modelPackedBytes.get? path).getD 0) disableReuse
      (p.setModelAccessCount path ((M.modelAccessCounts.get? path).getD 0 + 1)) = (r, p') := hr
  unfold loadModel
  simp only [hmod, hp, hcnt, hr']
  cases r with
  | none => exact ⟨rfl, .inl ⟨rfl, rfl⟩⟩
  | some n => exact ⟨rfl, .inr ⟨n, rfl, rfl⟩⟩

theorem Kept.register (h : Kept M) {S₀ : Surroundings} {m : RegisteredModel} (hpa : path ∉ M.models.keys)
    (hldd : m.loadModelFromDisk S₀ = some model) (sensitivity : ℚ) :
    let packed := packGroups 0 model.tensorGroupIndexes
    ∃ b pools, reserveInPools S path packed.2 sensitivity (S.visit M.pools.entries) [] M.pools = (b, pools) ∧
      (∀ device p', pools.get? device = some p' → ∃ p, M.pools.get? device = some p ∧ Beside (S.gpu device) path p p') ∧
      (b = false → Kept { M with pools := pools }) ∧
      (b = true → Kept { M with
        pools := pools
        models := M.models.set path model
        modelGroupOffsets := M.modelGroupOffsets.set path packed.1
        modelPackedBytes := M.modelPackedBytes.set path packed.2 }) := by
  intro packed
  have hfe : ∀ device p, M.pools.get? device = some p → path ∉ p.stableWeights.keys := fun device p hp hin =>
    hpa ((h.pools device p hp).2.2 path hin)
  have hent : ∀ e ∈ S.visit M.pools.entries, M.pools.get? e.1 = some e.2 := fun e he =>
    mem_entries_iff.1 ((S.visit_perm _).mem_iff.1 he)
  have hall : ∀ device p, M.pools.get? device = some p → device ∈ (S.visit M.pools.entries).map fst := fun device p hp =>
    mem_map.2 ⟨(device, p), (S.visit_perm _).mem_iff.2 (mem_entries_iff.2 hp), rfl⟩
  obtain ⟨b, pools, heq, -, hpools⟩ := reserveInPools_spec (S := S) M.pools M.pools packed.2 sensitivity
    (S.visit M.pools.entries) []
    (fun device p hp hb => by
      obtain ⟨⟨⟨lost, hs⟩, -⟩, -, -⟩ := h.pools device p hp
      exact hfe device p hp (hs.bound path hb))
    (fun device p' hp' => ⟨p', hp', .refl _ (hfe device p' hp'), fun hin => absurd hin (hfe device p' hp'),
      fun hnot => absurd (hall device p' hp') hnot⟩)
    (fun e he => ⟨hent e he, not_mem_nil⟩) (((S.visit_perm _).map fst).nodup_iff.2 M.pools.nodup)
  -- the other models
  have hoth : ∀ path' model', M.models.get? path' = some model' → path' ≠ path ∧ ∃ packedBytes,
    IsRegistered M path' model' packedBytes ∧
      ∀ device p', pools.get? device = some p' → ∃ arena, p'.stableWeights.get? path' = some arena ∧
        arena.logicalBytes = packedBytes ∧
        arena.physicalExtentIds.length = p'.pagesFor packedBytes := by
    intro path' model' hmod'
    have hne : path' ≠ path := by
      rintro rfl
      exact hpa (mem_keys_iff.2 ⟨model', hmod'⟩)
    obtain ⟨packedBytes, hreg, hars⟩ := h.models path' model' hmod'
    refine ⟨hne, packedBytes, hreg, ?_⟩
    intro device p' hp'
    obtain ⟨p, hp, hbes, -⟩ := hpools device p' hp'
    obtain ⟨arena, ha, hbyt, hlen⟩ := hars device p hp
    exact ⟨arena, (hbes.others path' hne).trans ha, hbyt, by rw [hlen]; simp [pagesFor, hbes.granularity]⟩
  have hpo : ∀ device p', pools.get? device = some p' → Reached p' ∧ p'.weights.entries = [] ∧
      ∀ path' ∈ p'.stableWeights.keys, path' ≠ path → path' ∈ M.models.keys := by
    intro device p' hp'
    obtain ⟨p, hp, hbes, -⟩ := hpools device p' hp'
    obtain ⟨hr, hemp, hstb⟩ := h.pools device p hp
    refine ⟨hbes.goes.reached hr, by rw [hbes.weights, hemp], fun path' hin hne => hstb path' ?_⟩
    obtain ⟨arena, ha⟩ := mem_keys_iff.1 hin
    exact mem_keys_iff.2 ⟨arena, (hbes.others path' hne).symm.trans ha⟩
  refine ⟨b, pools, heq, ?_, fun hb => ⟨?_, ?_⟩, fun hb => ⟨?_, ?_⟩⟩
  · intro device p' hp'
    obtain ⟨p, hp, hbes, -⟩ := hpools device p' hp'
    exact ⟨p, hp, hbes⟩
  · intro device p' hp'
    obtain ⟨hr, hemp, hstb⟩ := hpo device p' hp'
    obtain ⟨p, hp, -, hfail, -⟩ := hpools device p' hp'
    refine ⟨hr, hemp, fun path' hin => hstb path' hin ?_⟩
    rintro rfl
    exact hfail hb hin
  · intro path' model' hmod'
    obtain ⟨-, packedBytes, hreg, hars⟩ := hoth path' model' hmod'
    exact ⟨packedBytes, ⟨hreg.loaded, hreg.offsets, hreg.packed, hreg.packed_eq⟩, hars⟩
  · intro device p' hp'
    obtain ⟨hr, hemp, hstb⟩ := hpo device p' hp'
    refine ⟨hr, hemp, fun path' hin => mem_keys_set.2 ?_⟩
    by_cases hne : path' = path
    · exact .inl hne
    · exact .inr (hstb path' hin hne)
  · intro path' model' hmod'
    simp only at hmod'
    rw [get?_set] at hmod'
    split at hmod'
    · rename_i heq'
      subst heq'
      cases hmod'
      refine ⟨packed.2, ⟨⟨S₀, m, hldd⟩, get?_set_self .., get?_set_self .., rfl⟩, fun device p' hp' => ?_⟩
      obtain ⟨p, hp, hbes, -, hok⟩ := hpools device p' hp'
      obtain ⟨arena, ha, hbyt, hlen⟩ := hok hb
      exact ⟨arena, ha, hbyt, by rw [hlen]; simp [pagesFor, hbes.granularity]⟩
    · obtain ⟨hne, packedBytes, hreg, hars⟩ := hoth path' model' hmod'
      refine ⟨packedBytes, ⟨hreg.loaded, ?_, ?_, hreg.packed_eq⟩, hars⟩
      · exact (get?_set_of_ne _ _ hne).trans hreg.offsets
      · exact (get?_set_of_ne _ _ hne).trans hreg.packed

theorem shows_of_beside {S : Surroundings} {gs : List PlacedGroup} {m : String} (h : Beside S path p p')
    (hs : m = path ∨ p.Shows m gs) :
    p'.Shows m gs := by
  intro page id hid x hx hg
  by_cases hm : m = path
  · rw [hm, h.empty] at hid
    cases hid
  · rw [h.granularity] at hx ⊢
    rw [h.memory]
    refine hs.resolve_left hm page id ?_ x hx hg
    unfold extentOf at hid ⊢
    rwa [h.others m hm] at hid

/-! ## Steps -/

/-- What a call of the manager keeps. -/
structure StepKept (S : Outside) (M M' : VmmVRAMManager) : Prop where
  kept : Kept M'
  shows : S.CopiesAsync → ShowsAll M → ShowsAll M'
  goes : ∀ device p', M'.pools.get? device = some p' → ∃ p, M.pools.get? device = some p ∧ Goes (S.gpu device) p p'
  models : ∀ path model, M.models.get? path = some model → M'.models.get? path = some model ∧
    M'.groupsOf path model = M.groupsOf path model

theorem StepKept.refl (S : Outside) (h : Kept M) : StepKept S M M :=
  ⟨h, fun _ hs => hs, fun _ p' hp' => ⟨p', hp', .refl p'⟩, fun _ _ hmod => ⟨hmod, rfl⟩⟩

theorem stepKept_withPool (h : Kept M) (hp : M.pools.get? device = some p) (hgoes : Goes (S.gpu device) p p') (hm : Moves p p')
    (hshw : S.CopiesAsync → ∀ path model, M.models.get? path = some model → p.Shows path (M.groupsOf path model) →
      p'.Shows path (M.groupsOf path model)) : StepKept S M (M.withPool device p') := by
  refine ⟨h.withPool hp (hgoes.reached (h.pools device p hp).1) hm, fun hS hs => hs.withPool fun path model hmod =>
    hshw hS path model hmod (hs device p path model hp hmod), ?_, fun _ _ hmod => ⟨hmod, rfl⟩⟩
  intro d q hq
  unfold withPool at hq
  rw [get?_set] at hq
  split at hq
  · rename_i heq
    subst heq
    cases hq
    exact ⟨p, hp, hgoes⟩
  · exact ⟨q, hq, .refl q⟩

theorem stepKept_of_fades (h : Kept M) (hp : M.pools.get? device = some p) (op : Vmm.Op)
    (hst : p.step (S.gpu device, op) = some p')
    (hf : Fades p p') : StepKept S M (M.withPool device p') :=
  stepKept_withPool h hp ((Goes.refl p).call op hst) hf.toMoves fun _ _ _ _ hs => hf.shows hs

theorem goes_trans {S : Surroundings} {q : Pool} (h : Goes S p p') (h' : Goes S p' q) : Goes S p q := by
  induction h' with
  | refl => exact h
  | call op _ hst ih => exact ih.call op hst
  | write d _ hmpd hrgs ih => exact ih.write d hmpd hrgs

theorem StepKept.trans {M₁ : VmmVRAMManager} (h : StepKept S M M₁) (h' : StepKept S M₁ M') : StepKept S M M' := by
  refine ⟨h'.kept, fun hS hs => h'.shows hS (h.shows hS hs), ?_, ?_⟩
  · intro device p' hp'
    obtain ⟨p₁, hp₁, hgoes'⟩ := h'.goes device p' hp'
    obtain ⟨p, hp, hgoes⟩ := h.goes device p₁ hp₁
    exact ⟨p, hp, goes_trans hgoes hgoes'⟩
  · intro path model hmod
    obtain ⟨hmod₁, hgps₁⟩ := h.models path model hmod
    obtain ⟨hmod', hgps'⟩ := h'.models path model hmod₁
    exact ⟨hmod', hgps'.trans hgps₁⟩

theorem stepKept_countAccesses (S : Outside) (h : Kept M) (path : String) (n : Nat) :
    StepKept S M (M.countAccesses path n) := by
  refine ⟨h.countAccesses path n, fun _ hs => hs.countAccesses path n, ?_, fun _ _ hmod => ⟨hmod, rfl⟩⟩
  intro d q hq
  unfold countAccesses at hq
  simp only [get?_mapValues, map_eq_some_iff] at hq
  obtain ⟨p, hp, rfl⟩ := hq
  exact ⟨p, hp, (Goes.refl p).call (.setModelAccessCount path _) rfl⟩

theorem stepKept_warmup (S : Outside) (h : Kept M) (counts : List (String × Nat)) :
    StepKept S M (M.warmupModelAccess counts) := by
  unfold warmupModelAccess
  induction counts generalizing M with
  | nil => exact .refl S h
  | cons e counts ih => exact (stepKept_countAccesses S h e.1 e.2).trans (ih (h.countAccesses e.1 e.2))

theorem stepKept_loadModel (S : Outside) (h : Kept M) (path : String) (device : ℤ) (disableReuse : Bool) :
    StepKept S M (M.loadModel S path device disableReuse).2 := by
  cases hmod : M.models.get? path with
  | none =>
    unfold loadModel
    simp only [hmod]
    exact .refl S h
  | some model =>
    cases hp : M.pools.get? device with
    | none =>
      unfold loadModel
      simp only [hmod, hp]
      exact .refl S h
    | some p =>
      obtain ⟨count, r, p', hp₁, hld, -, hM⟩ := loadModel_eq S hmod hp disableReuse
      obtain ⟨packedBytes, hreg, hars⟩ := h.models path model hmod
      obtain ⟨arena, ha, -⟩ := hars device p hp
      obtain ⟨hr, hfad⟩ := (h.pools device p hp).1.setModelAccessCount path count
      obtain ⟨r', q, hld', -, hmvs, hshw, -⟩ := loadIntoPool_spec (S.gpu device) disableReuse hr hreg.layout.1 ha
      rw [hreg.packed, getD_some] at hld
      have hgoes := goes_loadIntoPool (S.gpu device) path (M.groupsOf path model) packedBytes disableReuse
        (p.setModelAccessCount path count)
      obtain ⟨rfl, rfl⟩ := Prod.mk.inj (hld.symm.trans hld')
      rw [hld] at hgoes
      have hpo : StepKept S M ((M.countAccesses path 1).withPool device p') := by
        refine (stepKept_countAccesses S h path 1).trans (stepKept_withPool (h.countAccesses path 1) hp₁ hgoes hmvs ?_)
        intro _ path' model' hmod' hs
        refine hshw path' _ ?_ hs
        intro heq
        subst heq
        obtain rfl := some.inj (hmod.symm.trans hmod')
        rfl
      rcases hM with ⟨-, hM⟩ | ⟨n, -, hM⟩
      · rwa [hM]
      · rw [hM]
        exact ⟨hpo.kept.accountLoad path _ n, hpo.shows, hpo.goes, hpo.models⟩

theorem stepKept_register (S : Outside) (h : Kept M) (path : String) (sensitivity : ℚ) (mergeTargetCount : ℤ)
    (groups : List TensorGroupIndex) (partitions : List Partition) :
    StepKept S M (M.registerModelWithMergeTarget S path sensitivity false mergeTargetCount groups partitions).2 := by
  unfold registerModelWithMergeTarget
  simp only [false_eq_true, if_false]
  cases hmod : M.models.get? path with
  | some model => exact .refl S h
  | none =>
    simp only
    split
    · exact .refl S h
    · rename_i model hldd
      obtain ⟨b, pools, heq, hpools, hfail, hok⟩ := h.register (S := S) (get?_eq_none_iff.1 hmod) hldd sensitivity
      rw [heq]
      have hgoes : ∀ device p', pools.get? device = some p' → ∃ p, M.pools.get? device = some p ∧ Goes (S.gpu device) p p' := by
        intro device p' hp'
        obtain ⟨p, hp, hbes⟩ := hpools device p' hp'
        exact ⟨p, hp, hbes.goes⟩
      have hne : ∀ path' model', M.models.get? path' = some model' → path' ≠ path := by
        rintro path' model' hmod' rfl
        rw [hmod] at hmod'
        cases hmod'
      cases b with
      | false =>
        refine ⟨hfail rfl, ?_, hgoes, fun _ _ hmod' => ⟨hmod', rfl⟩⟩
        intro _ hs device p' path' model' hp' hmod'
        obtain ⟨p, hp, hbes⟩ := hpools device p' hp'
        exact shows_of_beside hbes (.inr (hs device p path' model' hp hmod'))
      | true =>
        refine ⟨hok rfl, ?_, hgoes, fun path' model' hmod' => ⟨?_, ?_⟩⟩
        · intro _ hs device p' path' model' hp' hmod'
          obtain ⟨p, hp, hbes⟩ := hpools device p' hp'
          refine shows_of_beside hbes ?_
          by_cases heq' : path' = path
          · exact .inl heq'
          · simp only at hmod'
            rw [get?_set_of_ne _ _ heq'] at hmod'
            have hgps := hs device p path' model' hp hmod'
            unfold groupsOf at hgps ⊢
            simp only
            rw [get?_set_of_ne _ _ heq']
            exact .inr hgps
        · exact (get?_set_of_ne _ _ (hne path' model' hmod')).trans hmod'
        · unfold groupsOf
          simp only
          rw [get?_set_of_ne _ _ (hne path' model' hmod')]

theorem step_kept {c : Outside × Op} (h : Kept M) (hst : M.step c = some M') : StepKept c.1 M M' := by
  obtain ⟨S, op⟩ := c
  cases op with
  | registerModel path sensitivity mergeTargetCount groups partitions =>
    cases hst
    exact stepKept_register S h path sensitivity mergeTargetCount groups partitions
  | warmupModelAccess counts =>
    cases hst
    exact stepKept_warmup S h counts
  | loadModel path device disableReuse =>
    cases hst
    exact stepKept_loadModel S h path device disableReuse
  | prepareLayerWeavePages path device requestedPages =>
    cases hst
    unfold prepareLayerWeavePages
    split
    · rename_i model p hmod hp
      obtain ⟨packedBytes, hreg, hars⟩ := h.models path model hmod
      obtain ⟨arena, ha, -⟩ := hars device p hp
      obtain ⟨r, p', heq, -, hmvs, hshw⟩ :=
        prepareInPool_spec (S.gpu device) requestedPages (h.pools device p hp).1 hreg.layout.1 ha
      have hgoes := goes_prepareInPool (S.gpu device) path (M.groupsOf path model) packedBytes requestedPages p
      rw [heq] at hgoes
      simp only
      rw [hreg.packed, getD_some, heq]
      refine stepKept_withPool h hp hgoes hmvs ?_
      intro hS path' model' hmod' hs
      refine hshw (hS device) path' _ ?_ hs
      intro heq
      subst heq
      obtain rfl := some.inj (hmod.symm.trans hmod')
      rfl
    · exact .refl S h
  | configureLayerWeaveCache path device retainedPages =>
    cases hst
    unfold configureLayerWeaveCache
    split
    · rename_i model p hmod hp
      split
      · exact .refl S h
      · have hretain := (h.pools device p hp).1.retainStablePages (S.gpu device) path retainedPages
        exact stepKept_of_fades h hp (.retainStablePages path retainedPages) rfl hretain.2
    · exact .refl S h
  | beginLayerWeaveBinding path device =>
    cases hst
    unfold beginLayerWeaveBinding
    split
    · rename_i model p hmod hp
      exact stepKept_of_fades h hp (.beginStableBinding path) rfl
        ((h.pools device p hp).1.beginStableBinding (S.gpu device) path).2
    · exact .refl S h
  | endLayerWeaveBinding path device =>
    cases hst
    unfold endLayerWeaveBinding
    split
    · rename_i model p hmod hp
      exact stepKept_of_fades h hp (.endStableBinding path) rfl ((h.pools device p hp).1.endStableBinding path).2
    · exact .refl S h
  | allocateBlocks device block model count =>
    cases hst
    unfold allocateBlocks
    split
    · exact .refl S h
    · rename_i p hp
      exact stepKept_of_fades h hp (.mapKV block count _) rfl ((h.pools device p hp).1.mapKV (S.gpu device) block count _).2
  | allocateKVBlocks model blockSize device logicalIds =>
    cases hst
    unfold allocateKVBlocks
    split
    · exact .refl S h
    · rename_i p hp
      split
      · exact .refl S h
      · exact stepKept_of_fades h hp (.allocateKVBlocks blockSize logicalIds _) rfl
          ((h.pools device p hp).1.allocateKVBlocks (S.gpu device) blockSize logicalIds _).2
  | allocateKVBlocksUnprotected blockSize device logicalIds =>
    cases hst
    unfold allocateKVBlocksUnprotected
    split
    · exact .refl S h
    · rename_i p hp
      exact stepKept_of_fades h hp (.allocateKVBlocks blockSize logicalIds _) rfl
        ((h.pools device p hp).1.allocateKVBlocks (S.gpu device) blockSize logicalIds _).2
  | releaseKVBlocks device logicalIds =>
    cases hst
    unfold releaseKVBlocks
    split
    · exact .refl S h
    · rename_i p hp
      exact stepKept_of_fades h hp (.releaseKVBlocks logicalIds) rfl ((h.pools device p hp).1.releaseKVBlocks logicalIds).2
  | clearKV device =>
    cases hst
    unfold clearKV
    split
    · exact .refl S h
    · rename_i p hp
      exact stepKept_of_fades h hp .cleanKV rfl ((h.pools device p hp).1.cleanKV (S.gpu device)).2

theorem throughout_shows (hk : Kept M) (hs : ShowsAll M) {cs : List (Outside × Op)}
    (hcs : Runs.EachStep step (fun _ c => c.1.CopiesAsync) M cs) :
    Runs.Throughout step (fun M' => Kept M' ∧ ShowsAll M' ∧ ∀ path model, M.models.get? path = some model →
      M'.models.get? path = some model)
      M cs := by
  refine Runs.throughout_of_eachStep ?_ ⟨hk, hs, fun _ _ hmod => hmod⟩ hcs
  rintro M₁ c M₂ ⟨hk, hs, hmds⟩ hasync hst
  have hnx := step_kept hk hst
  exact ⟨hnx.kept, hnx.shows hasync hs, fun path model hmod => (hnx.models path model (hmds path model hmod)).1⟩

end VmmVRAMManager

end

end ServerlessLLM.Vmm
