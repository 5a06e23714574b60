import ServerlessLLM.Vram.Lemmas.Invariants

/-!
# The index and the list

`CheckAllocatedConsistency` tests that the index and the list agree. They do, in every state of every run, when each model has
different fingerprints.
-/

namespace ServerlessLLM

open Linked Option VRAMManager

/-- The index and the list agree: the fingerprints of the ALLOCATED regions are the keys of the index, and every entry points
to an ALLOCATED region of the list with that fingerprint. -/
structure IndexAgrees (p : GPUTensorPool) : Prop where
  keys : ∀ fp, (∃ i ∈ p.regions, (p.region i).status = .ALLOCATED ∧ (p.region i).fingerprint = fp) ↔
    (p.allocatedRegions fp).isSome = true
  entries : ∀ fp i, p.allocatedRegions fp = some i →
    i ∈ p.regions ∧ (p.region i).status = .ALLOCATED ∧ (p.region i).fingerprint = fp

theorem PoolComplete.indexAgrees {p : GPUTensorPool} (h : PoolComplete p) : IndexAgrees p := by
  obtain ⟨b, hw⟩ := h.wellFormed
  have hent : ∀ fp i, p.allocatedRegions fp = some i →
      i ∈ p.regions ∧ (p.region i).status = .ALLOCATED ∧ (p.region i).fingerprint = fp := by
    intro fp i hi
    obtain ⟨r, hr, hf⟩ := h.sound fp i hi
    obtain ⟨hmem, hs⟩ := mem_allocatedOf.1 hr
    have hreg : p.region i = r := hw.region_eq hmem
    exact ⟨hw.mem_of_regions.2 ⟨_, hmem, rfl⟩, by rw [hreg]; exact hs, by rw [hreg]; exact hf⟩
  refine ⟨fun fp => ⟨?_, ?_⟩, hent⟩
  · rintro ⟨i, hi, hs, rfl⟩
    obtain ⟨c, hc, rfl⟩ := hw.mem_of_regions.1 hi
    have hreg := hw.region_eq hc
    rw [hreg] at hs ⊢
    have : p.allocatedRegions c.2.fingerprint = some c.1 := h.complete c (mem_allocatedOf.2 ⟨hc, hs⟩)
    rw [this]
    rfl
  · intro hs
    obtain ⟨i, hi⟩ := isSome_iff_exists.1 hs
    exact ⟨i, hent fp i hi⟩

/-- The index and the list agree in every state that a run reaches, when the groups of each model have different and non-empty
fingerprints, none of them that of a KV region, and the device-to-device calls succeed. -/
theorem index_agrees {P : Platform} {v w : VRAMManager} {dev : Int} {p : GPUTensorPool} (hP : P.MovesSucceed) (hv : v.Fresh)
    (h : Reaches P (fun _ op => op.Allowed fun m => m.Positive ∧ m.Named ∧ m.Distinct) v w)
    (hp : w.gpuTensorPools dev = some p) : IndexAgrees p := by
  have hgood := h.poolComplete hP hv fun _ hm => hm
  exact (hgood.pools dev p hp).indexAgrees

/-- Two models that share a group, and a third one that needs their room. -/
def sharingModels : List RegisteredModel :=
  [.ofGroups "A" [("a", [1, 1]), ("b", [2, 2, 2])], .ofGroups "B" [("b", [2, 2, 2]), ("c", [3, 3])],
    .ofGroups "C" [("d", [4, 4, 4, 4])]]

theorem sharingModels_allowed : ∀ m ∈ sharingModels, m.Positive ∧ m.Named ∧ m.Distinct := by
  have hd : ∀ m ∈ sharingModels, m.fingerprints.Nodup ∧ ∀ fp ∈ m.fingerprints, GPUTensorPool.isKv fp = false := by decide
  intro m hm
  refine ⟨?_, ?_, RegisteredModel.distinct_of_not_kv (hd m hm).1 (hd m hm).2⟩
  · revert m
    unfold RegisteredModel.Positive
    decide
  · revert m
    unfold RegisteredModel.Named
    decide

theorem index_agrees_sharingModels :
    ∃ p, ((single 100 8).run .reliable (loadOps 4 sharingModels)).gpuTensorPools 0 = some p ∧ IndexAgrees p := by
  have hso : (((single 100 8).run .reliable (loadOps 4 sharingModels)).gpuTensorPools 0).isSome = true := by
    decide +kernel
  obtain ⟨p, hp⟩ := isSome_iff_exists.1 hso
  refine ⟨p, hp, index_agrees Platform.reliable_movesSucceed (single_fresh (by decide) (by decide))
    (reaches_run .reliable .refl ?_) hp⟩
  intro op hop _ _
  exact loadOps_allowed ⟨by decide, by decide⟩ sharingModels_allowed op hop

/-- A model with two groups of the fingerprint "a", and a model that needs the room of one of them. -/
def twinModels : List RegisteredModel :=
  [.ofGroups "M" [("a", [1, 1]), ("a", [1, 1])], .ofGroups "N" [("b", [2, 2, 2])]]

/-- The manager that has loaded them. -/
def twinRun : VRAMManager := (single 100 6).run .reliable (loadOps 4 twinModels)

/-- The second model evicts one of the two regions. The other one is still ALLOCATED, and the index does not have it. -/
theorem twin_fingerprints_break_index :
    Reaches .reliable (fun _ op => op.Allowed RegisteredModel.Positive) (.single 100 6) twinRun ∧
      ∃ p, twinRun.gpuTensorPools 0 = some p ∧ ¬IndexAgrees p := by
  constructor
  · refine reaches_run .reliable .refl fun op hop _ _ => loadOps_allowed ⟨by decide, by decide⟩ ?_ op hop
    unfold RegisteredModel.Positive
    decide
  · have hpo : (twinRun.gpuTensorPools 0).any (fun p => p.allocatedRegions "a" = none ∧
        ∃ i ∈ p.regions, (p.region i).status = .ALLOCATED ∧ (p.region i).fingerprint = "a") = true := by
      decide +kernel
    obtain ⟨p, hp, hb⟩ := (any_eq_true _ _).1 hpo
    rw [decide_eq_true_eq] at hb
    refine ⟨p, hp, ?_⟩
    intro h
    have hkey := (h.keys "a").1 hb.2
    rw [hb.1] at hkey
    exact absurd hkey (by decide)

end ServerlessLLM
