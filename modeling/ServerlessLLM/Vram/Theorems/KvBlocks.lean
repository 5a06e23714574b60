import ServerlessLLM.Vram.Lemmas.Invariants

/-!
# The ownership of KV blocks

A region that `AllocateBlocks` takes over keeps the `model_ref` of whoever was there before, and with it a KV region can be a
candidate of a later `GreedyDropBlocks`.
-/

namespace ServerlessLLM

open Linked GPUTensorPool VRAMManager

instance : DecidablePred IsKvRegion := fun r => inferInstanceAs (Decidable (isKv r.fingerprint = true))

/-- A call of `AllocateBlocks` on a pool. -/
structure BlockCall where
  blockSize : Nat
  useModel : String
  blockNumber : Int

namespace GPUTensorPool

/-- Serve a call of `AllocateBlocks`. -/
def serve (P : Platform) (p : GPUTensorPool) (call : BlockCall) : List Nat × GPUTensorPool :=
  p.allocateBlocks P call.blockSize call.useModel call.blockNumber

def serveAll (P : Platform) (p : GPUTensorPool) (calls : List BlockCall) : GPUTensorPool :=
  calls.foldl (fun q call => (q.serve P call).2) p

def blockRanges (P : Platform) : GPUTensorPool → List BlockCall → List (Nat × Nat)
  | _, [] => []
  | p, call :: calls =>
    ((p.serve P call).1.map fun off => (off, call.blockSize)) ++ blockRanges P (p.serve P call).2 calls

/-- Each of the calls spares the KV regions that are there before it. -/
def SparesBlocks (P : Platform) : GPUTensorPool → List BlockCall → Prop
  | _, [] => True
  | p, call :: calls =>
    p.GreedyDropBlocksSpares P call.blockSize call.useModel call.blockNumber IsKvRegion ∧
      SparesBlocks P (p.serve P call).2 calls

instance decidableSparesBlocks (P : Platform) : ∀ p calls, Decidable (SparesBlocks P p calls)
  | _, [] => isTrue trivial
  | p, call :: calls =>
    have := decidableSparesBlocks P (p.serve P call).2 calls
    inferInstanceAs (Decidable (_ ∧ _))

end GPUTensorPool

/-- The range of a block is owned: it lies in an ALLOCATED KV region of the list, and every other region is apart from it. -/
def OwnsBlock (q : GPUTensorPool) (off blockSize : Nat) : Prop :=
  ∃ i ∈ q.regions, (q.region i).status = .ALLOCATED ∧ IsKvRegion (q.region i) ∧
    Covers (q.region i) (q.gpuBaseAddr + off) blockSize ∧
    ∀ j ∈ q.regions, j ≠ i → Apart (q.region j).addr (q.region j).size (q.gpuBaseAddr + off) blockSize

theorem Covers.apart {r r' : Region} {x n y k : Nat} (h : Covers r x n) (h' : Covers r' y k)
    (ha : Apart r.addr r.size r'.addr r'.size) : Apart x n y k := by
  unfold Covers at h h'
  unfold Apart at *
  omega

section Calls

variable {P : Platform} {a b : Nat} {p : GPUTensorPool}

theorem WellFormed.serve (h : WellFormed a b p) (hba : p.gpuBaseAddr = a) (call : BlockCall)
    (hs : p.GreedyDropBlocksSpares P call.blockSize call.useModel call.blockNumber IsKvRegion) {c : Cell}
    (hc : c ∈ allocatedOf p.cells) (hk : IsKvRegion c.2) {x n : Nat} (hcov : Covers c.2 x n) :
    c ∈ allocatedOf (p.serve P call).2.cells ∧ ∀ off ∈ (p.serve P call).1, Apart x n (p.gpuBaseAddr + off) call.blockSize := by
  obtain ⟨q, hq, hcrv⟩ := h.allocateBlocks (P := P) hba call.blockSize call.useModel call.blockNumber
  have hcq : c ∈ allocatedOf q.cells := (hq.spared _ hs).mem_of_not hc fun hE => hE.2 hk
  have hcr : c ∈ allocatedOf (p.serve P call).2.cells := hcrv.carved.mem_of_mem hcq
  refine ⟨hcr, ?_⟩
  intro off hoff
  obtain ⟨d, hd, hnew, -, hdcov⟩ := hcrv.fresh off hoff
  -- the region of the new block is not the one that was there
  have hne : c ≠ d := by
    rintro rfl
    exact hnew hcq
  rw [hcrv.base, hq.frame.base] at hdcov
  exact hcov.apart hdcov (hcrv.wellFormed.layout.tiling.apart (mem_allocatedOf.1 hcr).1 (mem_allocatedOf.1 hd).1 hne)

theorem WellFormed.serveAll {calls : List BlockCall} :
    ∀ {p : GPUTensorPool}, WellFormed a b p → p.gpuBaseAddr = a → p.SparesBlocks P calls → ∀ {c : Cell},
      c ∈ allocatedOf p.cells → IsKvRegion c.2 → ∀ {x n : Nat}, Covers c.2 x n →
      c ∈ allocatedOf (p.serveAll P calls).cells ∧ WellFormed a b (p.serveAll P calls) ∧
        (p.serveAll P calls).gpuBaseAddr = a ∧ ∀ r ∈ p.blockRanges P calls, Apart x n (a + r.1) r.2 := by
  induction calls with
  | nil =>
    intro p h hba _ c hc _ x n _
    exact ⟨hc, h, hba, by simp [blockRanges]⟩
  | cons call calls ih =>
    intro p h hba hs c hc hk x n hcov
    obtain ⟨h1, h2⟩ := h.serve hba call hs.1 hc hk hcov
    obtain ⟨q, hq, hcrv⟩ := h.allocateBlocks (P := P) hba call.blockSize call.useModel call.blockNumber
    have hba' : (p.serve P call).2.gpuBaseAddr = a := hcrv.base.trans (hq.frame.base.trans hba)
    obtain ⟨e1, e2, e3, e4⟩ := ih hcrv.wellFormed hba' hs.2 h1 hk hcov
    refine ⟨e1, e2, e3, ?_⟩
    intro r hr
    unfold blockRanges at hr
    rcases List.mem_append.1 hr with hr | hr
    · obtain ⟨off, hoff, rfl⟩ := List.mem_map.1 hr
      rw [← hba]
      exact h2 off hoff
    · exact e4 r hr

theorem WellFormed.ownsBlock (h : WellFormed a b p) {c : Cell} (hc : c ∈ allocatedOf p.cells) (hk : IsKvRegion c.2)
    {off blockSize : Nat} (hcov : Covers c.2 (p.gpuBaseAddr + off) blockSize) : OwnsBlock p off blockSize := by
  obtain ⟨h1, h2⟩ := mem_allocatedOf.1 hc
  have hr := h.region_eq h1
  refine ⟨c.1, h.mem_of_regions.2 ⟨c, h1, rfl⟩, by rw [hr]; exact h2, by rw [hr]; exact hk, by rw [hr]; exact hcov, ?_⟩
  intro j hj hne
  obtain ⟨d, hd, rfl⟩ := h.mem_of_regions.1 hj
  rw [h.region_eq hd]
  have hdc : d ≠ c := by
    rintro rfl
    exact hne rfl
  have hself : Covers d.2 d.2.addr d.2.size := ⟨Nat.le_refl _, Nat.le_refl _⟩
  exact hself.apart hcov (h.layout.tiling.apart hd h1 hdc)

end Calls

/-- The blocks of a call stay owned while later calls of `AllocateBlocks`, for any models and block sizes, spare the KV
regions: every range is in an ALLOCATED KV region of the list, apart from every other region, and apart from every range that
one of the later calls hands out. -/
theorem blocks_stay_owned {P : Platform} {v w : VRAMManager} {dev : Int} {p : GPUTensorPool} (hP : P.MovesSucceed)
    (hv : v.Fresh) (h : Reaches P (fun _ op => op.Allowed RegisteredModel.Positive) v w) (hp : w.gpuTensorPools dev = some p)
    (call : BlockCall) (later : List BlockCall) (hs : (p.serve P call).2.SparesBlocks P later) :
    ∀ off ∈ (p.serve P call).1,
      OwnsBlock ((p.serve P call).2.serveAll P later) off call.blockSize ∧
        ∀ r ∈ (p.serve P call).2.blockRanges P later, Apart off call.blockSize r.1 r.2 := by
  obtain ⟨b, hw⟩ := ((h.poolTiled hP hv fun _ hpos => hpos).pools dev p hp).wellFormed
  intro off hoff
  obtain ⟨q, hq, hcrv⟩ := hw.allocateBlocks (P := P) rfl call.blockSize call.useModel call.blockNumber
  have hba : (p.serve P call).2.gpuBaseAddr = p.gpuBaseAddr := hcrv.base.trans hq.frame.base
  obtain ⟨c, hc, -, hk, hcov⟩ := hcrv.fresh off hoff
  have hcov' : Covers c.2 (p.gpuBaseAddr + off) call.blockSize := by
    rw [← hba]
    exact hcov
  obtain ⟨e1, e2, e3, e4⟩ := hcrv.wellFormed.serveAll hba hs hc hk hcov'
  refine ⟨e2.ownsBlock e1 hk (by rw [e3]; exact hcov'), fun r hr => ?_⟩
  have := e4 r hr
  unfold Apart at *
  omega

def oneGroupRun (total : Nat) : VRAMManager :=
  (single 100 total).run .reliable (loadOps 4 [.ofGroups "A" [("a", [1, 1, 1, 1])]])

theorem oneGroupRun_reached (total : Nat) :
    Reaches .reliable (fun _ op => op.Allowed RegisteredModel.Positive) (.single 100 total) (oneGroupRun total) := by
  refine reaches_run .reliable .refl fun op hop _ _ => loadOps_allowed ⟨by decide, by decide⟩ ?_ op hop
  unfold RegisteredModel.Positive
  decide

theorem blocks_stay_owned_oneGroup :
    ∃ p, (oneGroupRun 16).gpuTensorPools 0 = some p ∧ (p.serve .reliable ⟨4, "B", 2⟩).1 = [4, 8] ∧
      OwnsBlock ((p.serve .reliable ⟨4, "B", 2⟩).2.serveAll .reliable [⟨2, "C", 2⟩]) 8 4 := by
  have hpo : ((oneGroupRun 16).gpuTensorPools 0).any (fun p => (p.serve .reliable ⟨4, "B", 2⟩).1 = [4, 8] ∧
      (p.serve .reliable ⟨4, "B", 2⟩).2.SparesBlocks .reliable [⟨2, "C", 2⟩]) = true := by
    decide +kernel
  obtain ⟨p, hp, hb⟩ := (Option.any_eq_true _ _).1 hpo
  rw [decide_eq_true_eq] at hb
  have howned := blocks_stay_owned Platform.reliable_movesSucceed (single_fresh (by decide) (by decide))
    (oneGroupRun_reached 16) hp ⟨4, "B", 2⟩ [⟨2, "C", 2⟩] hb.2 8 (by rw [hb.1]; decide)
  exact ⟨p, hp, hb.1, howned.1⟩

/-- The blocks of the model "B" take over the region of "A", and its `model_ref`. A call for the model "C" then drops them as a
region of "A", and hands out their first block again. -/
theorem blocks_handed_out_twice :
    Reaches .reliable (fun _ op => op.Allowed RegisteredModel.Positive) (.single 100 8) (oneGroupRun 8) ∧
      ∃ p, (oneGroupRun 8).gpuTensorPools 0 = some p ∧ (p.serve .reliable ⟨4, "B", 2⟩).1 = [0, 4] ∧
        ¬∀ off ∈ (p.serve .reliable ⟨4, "B", 2⟩).1,
          ∀ r ∈ (p.serve .reliable ⟨4, "B", 2⟩).2.blockRanges .reliable [⟨4, "C", 1⟩], Apart off 4 r.1 r.2 := by
  refine ⟨oneGroupRun_reached 8, ?_⟩
  have hpo : ((oneGroupRun 8).gpuTensorPools 0).any (fun p => (p.serve .reliable ⟨4, "B", 2⟩).1 = [0, 4] ∧
      (p.serve .reliable ⟨4, "B", 2⟩).2.blockRanges .reliable [⟨4, "C", 1⟩] = [(0, 4)]) = true := by
    decide +kernel
  obtain ⟨p, hp, hb⟩ := (Option.any_eq_true _ _).1 hpo
  rw [decide_eq_true_eq] at hb
  refine ⟨p, hp, hb.1, ?_⟩
  intro h
  rw [hb.1, hb.2] at h
  revert h
  unfold Apart
  decide

end ServerlessLLM
