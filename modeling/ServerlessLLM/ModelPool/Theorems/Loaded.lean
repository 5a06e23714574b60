import ServerlessLLM.ModelPool.Lemmas.LoadOps

/-!
# The responses point at loaded data

A load registers the regions it allocates before their bytes are there. When it gives up later, for lack of memory, they stay
registered, and the next load takes them for loaded.
-/

namespace ServerlessLLM.ModelPool

open Linked List Option Prod TensorGroupIndex Pool

structure Described (content : String → List UInt8) (m : RegisteredModel) : Prop where
  groupBytes : m.groupBytes = m.tensorGroupIndexes.map fun g => content g.fingerprint
  sizes : ∀ g ∈ m.tensorGroupIndexes, g.size = (content g.fingerprint).length

/-- The tensor groups are placed without evicting one that the load placed before, and if there is no memory for one, then none
was allocated before. -/
def PlacesCleanly (addressOf : Nat → Nat) (modelPath : String) :
    List TensorGroupIndex → List TensorGroupIndex → List Nat → GPUTensorPool → Prop
  | [], _, _, _ => True
  | g :: gs, placed, regionToLoad, p =>
    match p.allocatedTensor g.fingerprint with
    | some _ => PlacesCleanly addressOf modelPath gs (placed ++ [g]) regionToLoad p
    | none =>
      (∀ fp ∈ p.evictions addressOf g.size g.fingerprint modelPath, fp ∉ placed.map fingerprint) ∧
      match p.bestFitAllocation addressOf g.size g.fingerprint modelPath with
      | none => True
      | some (none, _) => regionToLoad = []
      | some (some _, p) => PlacesCleanly addressOf modelPath gs (placed ++ [g]) (regionToLoad ++ [placed.length]) p

instance decidablePlacesCleanly (addressOf : Nat → Nat) (modelPath : String) :
    ∀ gs placed regionToLoad p, Decidable (PlacesCleanly addressOf modelPath gs placed regionToLoad p)
  | [], _, _, _ => inferInstanceAs (Decidable True)
  | g :: gs, placed, regionToLoad, p =>
    have := fun placed regionToLoad p => decidablePlacesCleanly addressOf modelPath gs placed regionToLoad p
    match h : p.allocatedTensor g.fingerprint with
    | some _ => decidable_of_iff (PlacesCleanly addressOf modelPath gs (placed ++ [g]) regionToLoad p)
        (by rw [PlacesCleanly, h])
    | none =>
      match h' : p.bestFitAllocation addressOf g.size g.fingerprint modelPath with
      | none =>
        decidable_of_iff
          (∀ fp ∈ p.evictions addressOf g.size g.fingerprint modelPath, fp ∉ placed.map fingerprint)
          (by rw [PlacesCleanly, h, h']; simp)
      | some (none, _) =>
        decidable_of_iff
          ((∀ fp ∈ p.evictions addressOf g.size g.fingerprint modelPath, fp ∉ placed.map fingerprint) ∧
            regionToLoad = [])
          (by rw [PlacesCleanly, h, h'])
      | some (some _, q) =>
        decidable_of_iff
          ((∀ fp ∈ p.evictions addressOf g.size g.fingerprint modelPath, fp ∉ placed.map fingerprint) ∧
            PlacesCleanly addressOf modelPath gs (placed ++ [g]) (regionToLoad ++ [placed.length]) q)
          (by rw [PlacesCleanly, h, h'])

def LoadsCleanly (addressOf : Nat → Nat) (s : Pool) : Request → Prop
  | .registerModel _ _ => True
  | .loadModelAsync modelPath copies =>
    copies = .succeed ∧ ∀ m ∈ s.registeredModels.get? modelPath,
      PlacesCleanly addressOf modelPath m.tensorGroupIndexes [] [] (s.gpu.useModel modelPath m.fingerprints)
  | .allocateBlocks _ _ _ => False

instance (addressOf : Nat → Nat) (s : Pool) : ∀ r, Decidable (LoadsCleanly addressOf s r)
  | .registerModel _ _ => inferInstanceAs (Decidable True)
  | .loadModelAsync modelPath copies =>
    inferInstanceAs (Decidable (copies = .succeed ∧ ∀ m ∈ s.registeredModels.get? modelPath,
      PlacesCleanly addressOf modelPath m.tensorGroupIndexes [] [] (s.gpu.useModel modelPath m.fingerprints)))
  | .allocateBlocks _ _ _ => inferInstanceAs (Decidable False)

def PointsAtData (m : RegisteredModel) (s : Pool) (allocatedRegion : List Nat) : Prop :=
  allocatedRegion.length = m.tensorGroupIndexes.length ∧
    ∀ (k : Nat) (g : TensorGroupIndex) (a : Nat), m.tensorGroupIndexes[k]? = some g → allocatedRegion[k]? = some a →
      ∃ i ∈ s.gpu.regions, (s.gpu.region i).isAllocated = true ∧ (s.gpu.region i).fingerprint = g.fingerprint ∧
        (s.gpu.region i).addr = a ∧ (s.gpu.region i).size = g.size ∧ m.groupBytes[k]? = some (Bytes.read s.bytes a g.size)

theorem Described.getD_groupBytes {content : String → List UInt8} {m : RegisteredModel} (h : Described content m) (k : Nat)
    (g : TensorGroupIndex) (hg : m.tensorGroupIndexes[k]? = some g) : m.groupBytes.getD k [] = content g.fingerprint := by
  rw [h.groupBytes, getD_eq_getElem?_getD, getElem?_map, hg]
  rfl

section Load

variable {content : String → List UInt8} {bytes : Nat → UInt8} {addressOf : Nat → Nat} {modelPath : String} {p : GPUTensorPool}

theorem Placed.placeGroups {l : List Cell} {gs placed : List TensorGroupIndex} {allocatedRegion regionToLoad : List Nat}
    (h : Placed content bytes p l placed allocatedRegion regionToLoad)
      (hsizes : ∀ g ∈ gs, g.size = (content g.fingerprint).length)
    (hcln : PlacesCleanly addressOf modelPath gs placed regionToLoad p) :
    ∃ ret p' l', p.placeGroups addressOf modelPath gs allocatedRegion regionToLoad = some (ret, p') ∧ match ret with
      | none => Placed content bytes p' l' [] [] []
      | some (allocatedRegion', regionToLoad') => Placed content bytes p' l' (placed ++ gs) allocatedRegion' regionToLoad' := by
  induction gs generalizing p l placed allocatedRegion regionToLoad with
  | nil => exact ⟨_, p, l, rfl, by simpa using h⟩
  | cons g gs ih =>
    rw [GPUTensorPool.placeGroups]
    rw [PlacesCleanly] at hcln
    have hrs : ∀ g ∈ gs, g.size = (content g.fingerprint).length := by
      intro g' hg'
      exact hsizes g' (mem_cons_of_mem _ hg')
    rw [append_cons placed g gs]
    cases hten : p.allocatedTensor g.fingerprint with
    | some i =>
      rw [hten] at hcln
      exact ih (h.hit hten) hrs hcln
    | none =>
      rw [hten] at hcln
      have hnew : p.getTensor g.fingerprint = none := by
        rw [← GPUTensorPool.allocatedTensor_eq h.holds]
        exact hten
      obtain ⟨ret, p', l', hca, hfit⟩ := GPUTensorPool.bestFitAllocation_spec addressOf g.size g.fingerprint modelPath h.holds
      obtain ⟨hvs, hcln⟩ := hcln
      dsimp only
      rw [hca] at hcln ⊢
      cases ret with
      | none =>
        subst hcln
        exact ⟨none, p', l', rfl, h.gaveUp hfit hnew⟩
      | some i =>
        rw [h.addrs.length_eq] at hcln
        exact ih (h.allocated (hsizes g mem_cons_self) hfit hnew hvs) hrs hcln

end Load

/-- The registered models are described, and every allocated region has its bytes. -/
structure Loaded (content : String → List UInt8) (s : Pool) : Prop where
  described : ∀ modelPath m, s.registeredModels.get? modelPath = some m → Described content m
  placed : ∃ l, Placed content s.bytes s.gpu l [] [] []

theorem Loaded.useModel {content : String → List UInt8} {bytes : Nat → UInt8} {p : GPUTensorPool} {l : List Cell}
    (h : Placed content bytes p l [] [] []) (modelPath : String) (fingerprints : List String) :
    Placed content bytes (p.useModel modelPath fingerprints) l [] [] [] :=
  ⟨GPUTensorPool.Holds.withModels h.holds _, h.mapped, h.sized, h.addrs, h.toLoad, h.filled⟩

theorem Loaded.loadModelAsync {content : String → List UInt8} {addressOf : Nat → Nat} {s : Pool} {modelPath : String}
    (h : Loaded content s) (hcln : LoadsCleanly addressOf s (.loadModelAsync modelPath .succeed)) :
    ∃ answer s', s.loadModelAsync addressOf modelPath .succeed = some (answer, s') ∧ Loaded content s' ∧
      ∀ allocatedRegion offsets, answer = .offsets allocatedRegion offsets →
        ∃ m, s.registeredModels.get? modelPath = some m ∧ PointsAtData m s' allocatedRegion := by
  unfold Pool.loadModelAsync
  cases hget : s.registeredModels.get? modelPath with
  | none =>
    refine ⟨.error, s, rfl, h, ?_⟩
    intro allocatedRegion offsets hans
    cases hans
  | some m =>
    have hdes := h.described modelPath m hget
    obtain ⟨l, hpla⟩ := h.placed
    obtain ⟨ret, p', l', hloop, hend⟩ := (Loaded.useModel hpla modelPath m.fingerprints).placeGroups hdes.sizes (hcln.2 m hget)
    dsimp only
    rw [hloop]
    cases ret with
    | none =>
      refine ⟨.error, _, rfl, ⟨h.described, l', hend⟩, ?_⟩
      intro allocatedRegion offsets hans
      cases hans
    | some r =>
      obtain ⟨allocatedRegion, regionToLoad⟩ := r
      rw [nil_append] at hend
      have hcop := Placed.copiedAll hend hdes.getD_groupBytes
      refine ⟨_, _, rfl, ⟨h.described, l', hcop.forget⟩, ?_⟩
      intro allocatedRegion' offsets hans
      cases hans
      refine ⟨m, rfl, hcop.addrs.length_eq.symm, ?_⟩
      intro k g a hg ha
      -- the region of the group, and its bytes
      have hk := (List.getElem?_eq_some_iff.1 hg).1
      have hk' := (List.getElem?_eq_some_iff.1 ha).1
      obtain ⟨c, hc, hc', hfp, haddr⟩ := (forall₂_iff_get.1 hcop.addrs).2 k hk hk'
      have hgk : m.tensorGroupIndexes.get ⟨k, hk⟩ = g := (List.getElem?_eq_some_iff.1 hg).2
      have hak : allocatedRegion.get ⟨k, hk'⟩ = a := (List.getElem?_eq_some_iff.1 ha).2
      rw [hgk] at hfp
      rw [hak] at haddr
      have hrgn := GPUTensorPool.region_eq hcop.holds.rep hc
      have hsz : c.2.size = g.size := by
        rw [hcop.sized c hc hc', hfp]
        exact (hdes.sizes g (mem_of_getElem? hg)).symm
      refine ⟨c.1, ?_, ?_⟩
      · dsimp only
        rw [GPUTensorPool.regions_eq hcop.holds]
        exact mem_ids_of_mem hc
      · dsimp only
        rw [hrgn]
        refine ⟨hc', hfp, haddr, hsz, ?_⟩
        rcases hcop.filled c hc hc' with hbyt | ⟨j, hj, -⟩
        · unfold HasBytes at hbyt
          rw [haddr, hsz, hfp] at hbyt
          rw [hbyt, hdes.groupBytes, List.getElem?_map, hg]
          rfl
        · cases hj

theorem Loaded.serve {content : String → List UInt8} {addressOf : Nat → Nat} {s : Pool} {r : Request} (h : Loaded content s)
    (hdes : ∀ modelPath m, r = .registerModel modelPath m → Described content m) (hcln : LoadsCleanly addressOf s r) :
    ∃ s', s.serve addressOf r = some s' ∧ Loaded content s' := by
  cases r with
  | registerModel modelPath m =>
    refine ⟨_, rfl, ?_⟩
    unfold registerModel
    split
    · exact h
    · refine ⟨?_, h.placed⟩
      intro modelPath' m' hget
      dsimp only at hget
      rw [Dict.get?_set] at hget
      split at hget
      · cases hget
        exact hdes modelPath m rfl
      · exact h.described modelPath' m' hget
  | loadModelAsync modelPath copies =>
    obtain rfl := hcln.1
    obtain ⟨answer, s', hld, hldd, -⟩ := h.loadModelAsync hcln
    refine ⟨s', ?_, hldd⟩
    rw [Pool.serve, hld]
    rfl
  | allocateBlocks blockSize modelPath blockNumber => exact hcln.elim

theorem Loaded.serveAll {content : String → List UInt8} {addressOf : Nat → Nat} {s : Pool} {requests : List Request}
    (h : Loaded content s) (hdes : ∀ modelPath m, .registerModel modelPath m ∈ requests → Described content m)
    (hcln : Meets addressOf (LoadsCleanly addressOf) s requests) :
    ∃ s', s.serveAll addressOf requests = some s' ∧ Loaded content s' := by
  refine Runs.run_of_eachStep ?_ h (meets_iff_eachStep.1 hcln)
  intro r hr _ h hcln
  exact h.serve (fun modelPath m heq => hdes modelPath m (heq ▸ hr)) hcln

theorem init_loaded (content : String → List UInt8) (base totalSize : Nat) (bytes : Nat → UInt8) :
    Loaded content (.init base totalSize bytes) := by
  refine ⟨?_, _, init_holds base totalSize, ?_, ?_, .nil, ?_, ?_⟩
  · intro modelPath m hget
    cases hget
  · intro c hc halc
    cases mem_singleton.1 hc
    cases halc
  · intro c hc halc
    cases mem_singleton.1 hc
    cases halc
  · intro k hk
    cases hk
  · intro c hc halc
    cases mem_singleton.1 hc
    cases halc

/-- Every load of such a run. -/
theorem loadModelAsync_pointsAtData (content : String → List UInt8) {addressOf : Nat → Nat} {base totalSize : Nat}
    {bytes : Nat → UInt8} {requests : List Request} {modelPath : String}
    (hdescribed : ∀ modelPath m, .registerModel modelPath m ∈ requests → Described content m)
    (hclean : Meets addressOf (LoadsCleanly addressOf) (.init base totalSize bytes)
      (requests ++ [.loadModelAsync modelPath .succeed])) :
    ∃ s answer s', (init base totalSize bytes).serveAll addressOf requests = some s ∧
      s.loadModelAsync addressOf modelPath .succeed = some (answer, s') ∧
      ∀ allocatedRegion offsets, answer = .offsets allocatedRegion offsets →
        ∃ m, s.registeredModels.get? modelPath = some m ∧ PointsAtData m s' allocatedRegion := by
  obtain ⟨hfst, hla⟩ := meets_append.1 hclean
  obtain ⟨s, hrun, hldd⟩ := (init_loaded content base totalSize bytes).serveAll hdescribed hfst
  obtain ⟨answer, s', hld, -, hdata⟩ := hldd.loadModelAsync (hla s hrun).1
  exact ⟨s, answer, s', hrun, hld, hdata⟩

/-- The second model shares its first group with the one that was loaded before. -/
def sharingRequests : List Request :=
  [.registerModel "m" ⟨2, [⟨0, 2, "a", []⟩], [[1, 1]]⟩,
    .registerModel "n" ⟨4, [⟨0, 2, "a", []⟩, ⟨2, 2, "b", []⟩], [[1, 1], [2, 2]]⟩,
    .loadModelAsync "m" .succeed]

theorem loadModelAsync_sharingRequests :
    ∃ s s' m, (init 0 6 fun _ => 0).serveAll id sharingRequests = some s ∧
      s.loadModelAsync id "n" .succeed = some (.offsets [0, 2] [], s') ∧ s.registeredModels.get? "n" = some m ∧
        PointsAtData m s' [0, 2] := by
  have hclean : Meets id (LoadsCleanly id) (.init 0 6 fun _ => 0) (sharingRequests ++ [.loadModelAsync "n" .succeed]) := by
    decide +kernel
  have hdescribed : ∀ modelPath m, .registerModel modelPath m ∈ sharingRequests →
      Described (fun fp => if fp = "a" then [1, 1] else [2, 2]) m := by
    intro modelPath m hm
    simp only [sharingRequests, mem_cons, Request.registerModel.injEq, reduceCtorEq, not_mem_nil, or_false] at hm
    rcases hm with ⟨-, rfl⟩ | ⟨-, rfl⟩ <;> exact ⟨rfl, by simp⟩
  obtain ⟨s, answer, s', hrun, hload, hdata⟩ := loadModelAsync_pointsAtData _ hdescribed hclean
  have hanswer : ((init 0 6 fun _ => 0).serveAll id sharingRequests).bind
    (fun s => (s.loadModelAsync id "n" .succeed).map fst) =
      some (.offsets [0, 2] []) := by decide +kernel
  rw [hrun, bind_some, hload] at hanswer
  obtain rfl := some.inj hanswer
  obtain ⟨m, hget, hpoints⟩ := hdata _ _ rfl
  exact ⟨s, s', m, hrun, hload, hget, hpoints⟩

/-- The first load gives up after it allocated a region for `a`. The second one takes it for loaded. -/
theorem loadModelAsync_notLoaded :
    ∃ m s s', (init 0 3 fun _ => 0).serveAll id [
        .registerModel "m" ⟨4, [⟨0, 2, "a", []⟩, ⟨2, 2, "b", []⟩], [[1, 1], [2, 2]]⟩,
        .registerModel "n" ⟨2, [⟨0, 2, "a", []⟩], [[1, 1]]⟩, .loadModelAsync "m" .succeed] = some s ∧
      s.registeredModels.get? "n" = some m ∧
      s.loadModelAsync id "n" .succeed = some (.offsets [0] [], s') ∧ ¬PointsAtData m s' [0] := by
  have hso : ((init 0 3 fun _ => 0).serveAll id [
        .registerModel "m" ⟨4, [⟨0, 2, "a", []⟩, ⟨2, 2, "b", []⟩], [[1, 1], [2, 2]]⟩,
        .registerModel "n" ⟨2, [⟨0, 2, "a", []⟩], [[1, 1]]⟩, .loadModelAsync "m" .succeed]).bind (fun s =>
      (s.registeredModels.get? "n").bind fun m => (s.loadModelAsync id "n" .succeed).map fun r =>
        (r.1, m.tensorGroupIndexes.map (fun g => g.size), m.groupBytes, r.2.bytes 0)) =
      some (.offsets [0] [], [2], [[1, 1]], 0) := by decide +kernel
  obtain ⟨s, hrun, hso⟩ := Option.bind_eq_some_iff.1 hso
  obtain ⟨m, hget, hso⟩ := Option.bind_eq_some_iff.1 hso
  obtain ⟨⟨answer, s'⟩, hld, heq⟩ := Option.map_eq_some_iff.1 hso
  simp only [Prod.mk.injEq] at heq
  obtain ⟨rfl, hsizes, hbyt, hzero⟩ := heq
  refine ⟨m, s, s', hrun, hget, hld, ?_⟩
  intro hdata
  obtain ⟨g, hg, hsz⟩ := map_eq_singleton_iff.1 hsizes
  obtain ⟨i, -, -, -, -, -, hrd⟩ := hdata.2 0 g 0 (by rw [hg]; rfl) rfl
  rw [hbyt, hsz] at hrd
  have hone : (1 : UInt8) = s'.bytes 0 := (cons.inj (Option.some.inj hrd)).1
  rw [hzero] at hone
  exact absurd hone (by decide)

-- the load of `n` evicts the group `a` that it found in the pool, and answers with one address for both groups
example : ((init 0 3 fun _ => 0).serveAll id [
      .registerModel "m" ⟨2, [⟨0, 2, "a", []⟩], [[1, 1]]⟩,
      .registerModel "n" ⟨4, [⟨0, 2, "a", []⟩, ⟨2, 2, "b", []⟩], [[1, 1], [2, 2]]⟩,
        .loadModelAsync "m" .succeed]).bind (fun s =>
    (s.loadModelAsync id "n" .succeed).map fst) = some (.offsets [0, 0] []) := by decide +kernel

end ServerlessLLM.ModelPool
