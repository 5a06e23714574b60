import ServerlessLLM.ModelPool.Lemmas.LoadOps

/-!
# The index of the allocated regions

All blocks of the KV cache are allocated under one fingerprint. The second block takes the place of the first one in
`allocated_regions`, and the first one is not found any more.
-/

namespace ServerlessLLM.ModelPool

open Linked Option Pool

/-- What `CheckConsistency` tests of the allocated regions: there are as many as the index has, and each one is found. -/
def IndexesAllocated (p : GPUTensorPool) : Prop :=
  p.actualAllocatedRegions.length = p.allocatedRegions.entries.length ∧
    ∀ i ∈ p.actualAllocatedRegions, p.getTensor (p.region i).fingerprint = some i

/-- Each block is allocated when there is no block. -/
def BlocksUnmapped (addressOf : Nat → Nat) (blockSize : Nat) (modelPath : String) : Nat → GPUTensorPool → Prop
  | 0, _ => True
  | n + 1, p => p.getTensor "kvcache" = none ∧ ∀ i p', p.bestFitAllocation addressOf blockSize "kvcache" modelPath =
      some (some i, p') →
    BlocksUnmapped addressOf blockSize modelPath n p'

/-- No block takes the place of another one in the index. -/
def KeepsBlocks (addressOf : Nat → Nat) (s : Pool) : Request → Prop
  | .allocateBlocks blockSize modelPath blockNumber => BlocksUnmapped addressOf blockSize modelPath blockNumber.toNat s.gpu
  | _ => True

def Indexed (p : GPUTensorPool) : Prop := ∃ l, Holds p l ∧ Mapped p l

theorem Indexed.indexesAllocated {p : GPUTensorPool} (h : Indexed p) : IndexesAllocated p := by
  obtain ⟨l, hhld, hmpd⟩ := h
  have halc := GPUTensorPool.actualAllocatedRegions_eq hhld
  constructor
  · have hlen := (GPUTensorPool.Mapped.perm hhld hmpd).length_eq
    rw [halc, List.length_map]
    simpa [Dict.keys] using hlen
  · intro i hi
    rw [halc] at hi
    obtain ⟨c, hc, rfl⟩ := List.mem_map.1 hi
    rw [List.mem_filter] at hc
    rw [GPUTensorPool.region_eq hhld.rep hc.1]
    exact hmpd c hc.1 hc.2

theorem Indexed.useModel {p : GPUTensorPool} (h : Indexed p) (modelPath : String) (fingerprints : List String) :
    Indexed (p.useModel modelPath fingerprints) := by
  obtain ⟨l, hhld, hmpd⟩ := h
  exact ⟨l, GPUTensorPool.Holds.withModels hhld _, hmpd⟩

theorem Indexed.bestFitAllocation {p : GPUTensorPool} (h : Indexed p) (addressOf : Nat → Nat) (requestedSize : Nat)
    {fingerprint : String} (modelPath : String) (hnew : p.getTensor fingerprint = none) :
    ∃ ret p', p.bestFitAllocation addressOf requestedSize fingerprint modelPath = some (ret, p') ∧ Indexed p' := by
  obtain ⟨l, hhld, hmpd⟩ := h
  obtain ⟨ret, p', l', hca, hend⟩ := GPUTensorPool.bestFitAllocation_spec addressOf requestedSize fingerprint modelPath hhld
  exact ⟨ret, p', hca, l', hend.holds hhld, hend.mapped hmpd hnew⟩

theorem Indexed.placeGroups {p : GPUTensorPool} (h : Indexed p) (addressOf : Nat → Nat) (modelPath : String)
    (gs : List TensorGroupIndex) (allocatedRegion regionToLoad : List Nat) :
    ∃ ret p', p.placeGroups addressOf modelPath gs allocatedRegion regionToLoad = some (ret, p') ∧ Indexed p' := by
  induction gs generalizing p allocatedRegion regionToLoad with
  | nil => exact ⟨_, p, rfl, h⟩
  | cons g gs ih =>
    rw [GPUTensorPool.placeGroups]
    cases hten : p.allocatedTensor g.fingerprint with
    | some i => exact ih h _ _
    | none =>
      have hnew : p.getTensor g.fingerprint = none := by
        obtain ⟨l, hhld, -⟩ := h
        rw [← GPUTensorPool.allocatedTensor_eq hhld]
        exact hten
      obtain ⟨ret, p', hca, hidx⟩ := h.bestFitAllocation addressOf g.size modelPath hnew
      dsimp only
      rw [hca]
      cases ret with
      | none => exact ⟨none, p', rfl, hidx⟩
      | some i => exact ih hidx _ _

theorem Indexed.placeBlocks {p : GPUTensorPool} (h : Indexed p) {addressOf : Nat → Nat} {blockSize : Nat} {modelPath : String}
    {n : Nat} (hunm : BlocksUnmapped addressOf blockSize modelPath n p) (offsets : List Nat) :
    ∃ ret p', p.placeBlocks addressOf blockSize modelPath n offsets = some (ret, p') ∧ Indexed p' := by
  induction n generalizing p offsets with
  | zero => exact ⟨offsets, p, rfl, h⟩
  | succ n ih =>
    obtain ⟨ret, p', hca, hidx⟩ := h.bestFitAllocation addressOf blockSize modelPath hunm.1
    rw [GPUTensorPool.placeBlocks, hca]
    cases ret with
    | none => exact ⟨[], p', rfl, hidx⟩
    | some i => exact ih hidx (hunm.2 i p' hca) _

theorem Indexed.serve {s : Pool} (h : Indexed s.gpu) {addressOf : Nat → Nat} {r : Request} (hkps : KeepsBlocks addressOf s r) :
    ∃ s', s.serve addressOf r = some s' ∧ Indexed s'.gpu := by
  cases r with
  | registerModel modelPath m =>
    refine ⟨_, rfl, ?_⟩
    unfold registerModel
    split
    · exact h
    · exact h
  | loadModelAsync modelPath copies =>
    unfold Pool.serve Pool.loadModelAsync
    dsimp only
    cases s.registeredModels.get? modelPath with
    | none => exact ⟨s, rfl, h⟩
    | some m =>
      obtain ⟨ret, p', hplace, hidx⟩ := (h.useModel modelPath m.fingerprints).placeGroups addressOf modelPath
        m.tensorGroupIndexes [] []
      dsimp only
      rw [hplace]
      cases ret with
      | none => exact ⟨_, rfl, hidx⟩
      | some r => exact ⟨_, rfl, hidx⟩
  | allocateBlocks blockSize modelPath blockNumber =>
    obtain ⟨ret, p', hplace, hidx⟩ := h.placeBlocks hkps []
    refine ⟨{ s with gpu := p' }, ?_, hidx⟩
    unfold Pool.serve Pool.allocateBlocks
    dsimp only
    rw [hplace]
    rfl

theorem Indexed.serveAll {s : Pool} (h : Indexed s.gpu) {addressOf : Nat → Nat} {requests : List Request}
    (hkps : Meets addressOf (KeepsBlocks addressOf) s requests) :
    ∃ s', s.serveAll addressOf requests = some s' ∧ Indexed s'.gpu :=
  Runs.run_of_eachStep (I := fun s : Pool => Indexed s.gpu) (fun _ _ _ h hkps => h.serve hkps) h
    (meets_iff_eachStep.1 hkps)

theorem init_indexed (base totalSize : Nat) : Indexed (.init base totalSize) := by
  refine ⟨_, init_holds base totalSize, ?_⟩
  intro c hc halc
  rw [List.mem_singleton] at hc
  rw [hc] at halc
  cases halc

/-- Every run in which a block is allocated only when there is none. -/
theorem serveAll_indexesAllocated {addressOf : Nat → Nat} {base totalSize : Nat} {bytes : Nat → UInt8} {requests : List Request}
    (hkeeps : Meets addressOf (KeepsBlocks addressOf) (.init base totalSize bytes) requests) :
    ∃ s, (init base totalSize bytes).serveAll addressOf requests = some s ∧ IndexesAllocated s.gpu := by
  obtain ⟨s, hrun, hidx⟩ := Indexed.serveAll (s := .init base totalSize bytes) (init_indexed base totalSize) hkeeps
  exact ⟨s, hrun, hidx.indexesAllocated⟩

/-- The load of `n` evicts the group of `m`, and a block takes the last byte. -/
def evictingRequests : List Request :=
  [.registerModel "m" ⟨4, [⟨0, 4, "a", []⟩], [[1, 1, 1, 1]]⟩, .loadModelAsync "m" .succeed,
    .registerModel "n" ⟨4, [⟨0, 4, "b", []⟩], [[2, 2, 2, 2]]⟩, .loadModelAsync "n" .succeed, .allocateBlocks 1 "n" 1]

theorem serveAll_evictingRequests : ∃ s, (init 0 5 fun _ => 0).serveAll id evictingRequests = some s ∧
    IndexesAllocated s.gpu := by
  refine serveAll_indexesAllocated ⟨trivial, fun s₁ h₁ => ⟨trivial, fun s₂ h₂ => ⟨trivial, fun s₃ h₃ => ⟨trivial, fun s₄ h₄ =>
    ⟨⟨?_, fun _ _ _ => trivial⟩, fun _ _ => trivial⟩⟩⟩⟩⟩
  have hrun : (init 0 5 fun _ => 0).serveAll id (evictingRequests.take 4) = some s₄ := by
    rw [mem_def] at h₁ h₂ h₃ h₄
    simp [evictingRequests, serveAll, h₁, h₂, h₃, h₄]
  have hnone : ((init 0 5 fun _ => 0).serveAll id (evictingRequests.take 4)).map
      (fun s => s.gpu.getTensor "kvcache") = some none := by decide +kernel
  rw [hrun] at hnone
  exact some.inj hnone

/-- Two blocks, of which the index has one. -/
theorem serveAll_twoBlocks :
    ∃ s, (init 0 100 fun _ => 0).serveAll id [.allocateBlocks 10 "m" 2] = some s ∧ ¬IndexesAllocated s.gpu := by
  have hso : ((init 0 100 fun _ => 0).serveAll id [.allocateBlocks 10 "m" 2]).map (fun s =>
      (s.gpu.actualAllocatedRegions.length, s.gpu.allocatedRegions.entries.length)) = some (2, 1) := by decide +kernel
  obtain ⟨s, hrun, heq⟩ := map_eq_some_iff.1 hso
  obtain ⟨hnds, hent⟩ := Prod.mk.inj heq
  refine ⟨s, hrun, ?_⟩
  intro hlaw
  have hcnt := hlaw.1
  rw [hnds, hent] at hcnt
  exact absurd hcnt (by decide)

end ServerlessLLM.ModelPool
