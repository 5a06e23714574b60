import ServerlessLLM.Library.Runs
import ServerlessLLM.ModelPool.Lemmas.PoolOps

/-!
# The regions of a pool and its free set

In every run of `BestFitAllocation` the regions tile the memory of the pool, no two neighbours are free, and `free_regions` has
the free regions with their sizes.
-/

namespace ServerlessLLM.ModelPool

open Linked List Option Dict GPUTensorPool

namespace GPUTensorPool

variable {addressOf : Nat → Nat} {es : List (Nat × Nat)}

theorem lowerBound_eq_none {requestedSize : Nat}
    (h : lowerBound addressOf requestedSize es = none) : ∀ e ∈ es, ¬requestedSize ≤ e.1 := by
  induction es with
  | nil => simp
  | cons d es ih =>
    rw [lowerBound] at h
    split at h
    · rename_i hes
      split at h
      · cases h
      · rename_i hd
        intro e he
        rcases mem_cons.1 he with rfl | he
        · exact hd
        · exact ih hes e he
    · split at h
      · cases h
      · cases h

theorem lowerBound_eq_some {requestedSize : Nat} {e : Nat × Nat} (h : lowerBound addressOf requestedSize es = some e) :
    e ∈ es ∧ requestedSize ≤ e.1 ∧ ∀ e' ∈ es, requestedSize ≤ e'.1 → e.1 ≤ e'.1 := by
  induction es generalizing e with
  | nil => cases h
  | cons d es ih =>
    rw [lowerBound] at h
    cases hrest : lowerBound addressOf requestedSize es with
    | none =>
      rw [hrest] at h
      dsimp only at h
      split at h
      · rename_i hd
        cases h
        refine ⟨mem_cons_self, hd, ?_⟩
        intro e' he' hsz
        rcases mem_cons.1 he' with rfl | he'
        · exact Nat.le_refl _
        · exact absurd hsz (lowerBound_eq_none hrest e' he')
      · cases h
    | some d' =>
      obtain ⟨hmem, hsz, hmin⟩ := ih hrest
      rw [hrest] at h
      dsimp only at h
      split at h
      · rename_i hd
        cases h
        have hle : d.1 ≤ d'.1 := by
          have := hd.2
          simp only [regionLt, Bool.or_eq_true, Bool.and_eq_true, decide_eq_true_eq] at this
          omega
        refine ⟨mem_cons_self, hd.1, ?_⟩
        intro e' he' hsz'
        rcases mem_cons.1 he' with rfl | he'
        · exact Nat.le_refl _
        · exact Nat.le_trans hle (hmin e' he' hsz')
      · rename_i hd
        cases h
        refine ⟨mem_cons_of_mem _ hmem, hsz, ?_⟩
        intro e' he' hsz'
        rcases mem_cons.1 he' with rfl | he'
        · simp only [regionLt, Bool.or_eq_true, Bool.and_eq_true, decide_eq_true_eq, not_and, not_or] at hd
          have := (hd hsz').1
          omega
        · exact hmin e' he' hsz'

theorem findVictim_region {p : GPUTensorPool} {modelPath : String} {models : List (String × List String)}
    {c c' : LRUCache (List String)} {i : Nat} (h : p.findVictim modelPath models c = (.region i, c')) :
    ∃ fingerprint, p.allocatedRegions.get? fingerprint = some i := by
  induction models generalizing c with
  | nil => cases h
  | cons m models ih =>
    obtain ⟨path, fingerprints⟩ := m
    rw [findVictim] at h
    split at h
    · cases h
    · split at h
      · rename_i i' hfind
        cases h
        obtain ⟨fp, -, hfp⟩ := List.exists_of_findSome?_eq_some hfind
        exact ⟨fp, hfp⟩
      · exact ih h

/-- Evictions: allocated regions are freed, and models are removed from the list. -/
inductive Evicts : GPUTensorPool → GPUTensorPool → Prop
  | refl (p : GPUTensorPool) : Evicts p p
  | step {p q : GPUTensorPool} {fingerprint : String} {i : Nat} (c : LRUCache (List String))
      (hi : p.allocatedRegions.get? fingerprint = some i) (h : Evicts (freeRegion { p with lruModels := c } i) q) : Evicts p q

/-- Evictions, with the fingerprints and the regions of the pool before and after them. -/
inductive Evicted : List String → GPUTensorPool → List Cell → GPUTensorPool → List Cell → Prop
  | refl {p : GPUTensorPool} {l : List Cell} (h : Holds p l) : Evicted [] p l p l
  | step {p q : GPUTensorPool} {A C l : List Cell} {x : Cell} {victims : List String} (c : LRUCache (List String))
      (h : Holds p (A ++ x :: C)) (hx : x.2.isAllocated = true) (hi : p.allocatedRegions.get? x.2.fingerprint = some x.1)
      (hrest : Evicted victims (freeRegion { p with lruModels := c } x.1) (freedCells A x C) q l) :
      Evicted (x.2.fingerprint :: victims) p (A ++ x :: C) q l

theorem Holds.withModels {p : GPUTensorPool} {l : List Cell} (h : Holds p l) (c : LRUCache (List String)) :
    Holds { p with lruModels := c } l :=
  ⟨h.rep, h.view, h.adjoins, h.coalesced, h.free, h.index, h.errors⟩

theorem freeRegion_allocatedRegions {p : GPUTensorPool} {A C : List Cell} {x : Cell} (c : LRUCache (List String))
    (h : Holds p (A ++ x :: C)) (hx : x.2.isAllocated = true) :
    (freeRegion { p with lruModels := c } x.1).allocatedRegions = p.allocatedRegions.erase x.2.fingerprint := by
  obtain ⟨s, fr, heq, -⟩ := freeRegion_eq (Holds.withModels h c) hx
  rw [heq]

section Evicted

variable {p q : GPUTensorPool} {l l' : List Cell} {victims : List String}

section

variable (h : Evicted victims p l q l')

include h

theorem Evicted.evicts : Evicts p q := by
  induction h with
  | refl => exact .refl _
  | step c h hx hi _ ih => exact .step c hi ih

theorem Evicted.holds : Holds q l' := by
  induction h with
  | refl h => exact h
  | step c h hx hi _ ih => exact ih

theorem Evicted.positive (hpos : Positive l) : Positive l' := by
  induction h with
  | refl h => exact hpos
  | step c h hx hi _ ih => exact ih (positive_freedCells hpos)

theorem Evicted.get? (fingerprint : String) :
    q.allocatedRegions.get? fingerprint = if fingerprint ∈ victims then none else p.allocatedRegions.get? fingerprint := by
  induction h with
  | refl h => simp
  | @step p q A C l x victims c h hx hi _ ih =>
    rw [ih, freeRegion_allocatedRegions c h hx, get?_erase]
    by_cases hfp : fingerprint = x.2.fingerprint
    · simp [hfp]
    · simp [hfp]

theorem Evicted.mem {c : Cell} (hc : c ∈ l) (halc : c.2.isAllocated = true)
    (hi : p.allocatedRegions.get? c.2.fingerprint = some c.1) (hnot : c.2.fingerprint ∉ victims) : c ∈ l' := by
  induction h with
  | refl h => exact hc
  | @step p q A C l x victims d h hx hxi _ ih =>
    rw [mem_cons, not_or] at hnot
    have hmem : c ∈ A ∨ c ∈ C := by
      rw [mem_append, mem_cons] at hc
      rcases hc with hc | rfl | hc
      · exact .inl hc
      · exact absurd rfl hnot.1
      · exact .inr hc
    refine ih (mem_freedCells hmem halc) ?_ hnot.2
    rw [freeRegion_allocatedRegions d h hx, Dict.get?_erase, if_neg hnot.1]
    exact hi

end

end Evicted

/-- The smallest free region that is large enough. -/
def Smallest (l : List Cell) (requestedSize : Nat) (x : Cell) : Prop :=
  x ∈ l ∧ x.2.isAllocated = false ∧ requestedSize ≤ x.2.size ∧
    ∀ c ∈ l, c.2.isAllocated = false → requestedSize ≤ c.2.size → x.2.size ≤ c.2.size

/-- How a call ends. -/
inductive BestFit (requestedSize : Nat) (fingerprint : String) (victims : List String) (p : GPUTensorPool) (l : List Cell) :
    Option Nat → GPUTensorPool → List Cell → Prop
  /-- The tensor group is there. -/
  | hit (i : Nat) (hfp : fingerprint ≠ "kvcache") (hi : p.getTensor fingerprint = some i) :
      BestFit requestedSize fingerprint victims p l (some i) p l
  /-- It is allocated, after evictions. -/
  | allocated (hnew : fingerprint = "kvcache" ∨ p.getTensor fingerprint = none) (p₁ : GPUTensorPool)
      (A C : List Cell) (x : Cell)
      (hevicted : Evicted victims p l p₁ (A ++ x :: C)) (hx : Smallest (A ++ x :: C) requestedSize x) :
      BestFit requestedSize fingerprint victims p l (some x.1) (p₁.allocate (x.2.size, x.1) requestedSize fingerprint)
        (A ++ cutCells x p₁.store.fresh requestedSize fingerprint ++ C)
  /-- There is no memory for it. -/
  | failed (p₁ : GPUTensorPool) (l₁ : List Cell) (c : LRUCache (List String)) (hevicted : Evicted victims p l p₁ l₁) :
      BestFit requestedSize fingerprint victims p l none { p₁ with lruModels := c } l₁

theorem bestFit_spec (addressOf : Nat → Nat) (requestedSize : Nat) (fingerprint modelPath : String) {fuel : Nat}
    {p : GPUTensorPool} {l : List Cell} (h : Holds p l) (hfuel : p.allocatedRegions.entries.length < fuel) :
    ∃ ret p' l', bestFit addressOf requestedSize fingerprint modelPath fuel p = some (ret, p') ∧
      BestFit requestedSize fingerprint (victims addressOf requestedSize fingerprint modelPath fuel p) p l ret p' l' := by
  induction fuel generalizing p l with
  | zero => omega
  | succ fuel ih =>
    rw [bestFit, victims]
    cases hten : if fingerprint = "kvcache" then none else p.getTensor fingerprint with
    | some i =>
      refine ⟨some i, p, l, rfl, ?_⟩
      split at hten
      · cases hten
      · rename_i hfp
        exact .hit i hfp hten
    | none =>
      have hnew : fingerprint = "kvcache" ∨ p.getTensor fingerprint = none := by
        split at hten
        · rename_i hfp
          exact .inl hfp
        · exact .inr hten
      dsimp only
      cases hbd : lowerBound addressOf requestedSize p.freeRegions with
      | some e =>
        obtain ⟨hmem, hsz, hmin⟩ := lowerBound_eq_some hbd
        obtain ⟨x, hx, hfe, rfl⟩ := mem_freePairs.1 (h.free.mem_iff.1 hmem)
        obtain ⟨A, C, rfl⟩ := append_of_mem hx
        refine ⟨_, _, _, rfl, .allocated hnew p A C x (.refl h) ⟨hx, hfe, hsz, ?_⟩⟩
        intro c hc hcfree hcsize
        exact hmin _ (h.free.mem_iff.2 (mem_freePairs.2 ⟨c, hc, hcfree, rfl⟩)) hcsize
      | none =>
        dsimp only
        rcases hvic : p.findVictim modelPath p.lruModels.lruList.reverse p.lruModels with ⟨victim, c⟩
        cases victim with
        | request => exact ⟨_, _, _, rfl, .failed p l c (.refl h)⟩
        | none => exact ⟨_, _, _, rfl, .failed p l c (.refl h)⟩
        | region i =>
          obtain ⟨fp, hfp⟩ := findVictim_region hvic
          obtain ⟨r, hr, halc, rfl⟩ := h.index fp i hfp
          obtain ⟨A, C, rfl⟩ := append_of_mem hr
          have hrgn : p.region i = r := region_eq h.rep hr
          have hregions : (freeRegion { p with lruModels := c } i).allocatedRegions = p.allocatedRegions.erase r.fingerprint :=
            freeRegion_allocatedRegions c h halc
          have hlt := length_erase_lt hfp
          obtain ⟨ret, p', l', hrun, hend⟩ := ih (freeRegion_holds (Holds.withModels h c) halc) (by rw [hregions]; omega)
          refine ⟨ret, p', l', hrun, ?_⟩
          dsimp only
          rw [hrgn]
          cases hend with
          | hit j hkv hj =>
            -- a victim is no hit of the next round
            exfalso
            rcases hnew with hkv' | hno
            · exact hkv hkv'
            · unfold getTensor at hj hno
              rw [hregions, get?_erase, hno] at hj
              split at hj
              · cases hj
              · cases hj
          | allocated _ p₁ A₁ C₁ x hevicted hx => exact .allocated hnew p₁ A₁ C₁ x (.step c h halc hfp hevicted) hx
          | failed p₁ l₁ c' hevicted => exact .failed p₁ l' c' (.step c h halc hfp hevicted)

section BestFit

variable {requestedSize : Nat} {fingerprint : String} {victims : List String} {p p' : GPUTensorPool} {ret : Option Nat}
  {l l' : List Cell}

theorem BestFit.holds (h : BestFit requestedSize fingerprint victims p l ret p' l') (hhld : Holds p l) : Holds p' l' := by
  cases h with
  | hit i hfp hi => exact hhld
  | allocated hnew p₁ A C x hevicted hx => exact allocate_holds fingerprint hevicted.holds hx.2.1 hx.2.2.1
  | failed p₁ l₁ c hevicted => exact Holds.withModels hevicted.holds c

theorem BestFit.positive (h : BestFit requestedSize fingerprint victims p l ret p' l') (hpos : Positive l)
    (hsz : 0 < requestedSize) : Positive l' := by
  cases h with
  | hit i hfp hi => exact hpos
  | allocated hnew p₁ A C x hevicted hx => exact positive_cutCells (hevicted.positive hpos) hsz
  | failed p₁ l₁ c hevicted => exact hevicted.positive hpos

end BestFit

end GPUTensorPool

/-- The regions tile the bytes from `a` to `b`. -/
def IsTiling (a : Nat) (l : List Cell) (b : Nat) : Prop := Tiling.Tiles (fun c : Cell => c.2.addr) (fun c => c.2.size) a l b

structure Consistent (p : GPUTensorPool) (l : List Cell) : Prop where
  linked : Rep p.store l
  view : first l = some p.memoryRegionView
  tiling : IsTiling p.base l (p.base + p.totalSize)
  coalesced : Coalesced l
  mem_freeRegions_iff : ∀ e, e ∈ p.freeRegions ↔ ∃ c ∈ l, c.2.isAllocated = false ∧ e = (c.2.size, c.1)
  nodup : p.freeRegions.Nodup
  errors : p.errors = []

theorem Holds.consistent {p : GPUTensorPool} {l : List Cell} (h : Holds p l) (hpos : Positive l) : Consistent p l :=
  ⟨h.rep, h.view, Tiling.tiles_iff_adjoins.2 ⟨h.adjoins, hpos⟩, h.coalesced, fun _ => h.free.mem_iff.trans mem_freePairs,
    h.free.nodup_iff.2 (nodup_freePairs h.rep.nodup), h.errors⟩

theorem init_holds (base totalSize : Nat) : Holds (.init base totalSize) [(0, ⟨false, base, totalSize, ""⟩)] := by
  refine ⟨?_, rfl, ⟨rfl, rfl⟩, isChain_singleton _, List.Perm.refl _, ?_, rfl⟩
  · exact (Rep.nil (⟨fun _ => ⟨⟨false, 0, 0, ""⟩, none, none⟩, 0⟩ : Linked.Store GPUMemoryRegion)).snoc
      ⟨false, base, totalSize, ""⟩
  · intro fp i hi
    cases hi

theorem perform_holds {addressOf : Nat → Nat} {p p' : GPUTensorPool} {call : Call} (h : ∃ l, Holds p l ∧ Positive l)
    (hca : perform addressOf p call = some p') : ∃ l', Holds p' l' ∧ Positive l' := by
  obtain ⟨l, h, hpos⟩ := h
  cases call with
  | useModel modelPath fingerprints =>
    cases hca
    exact ⟨l, Holds.withModels h _, hpos⟩
  | bestFitAllocation requestedSize fingerprint modelPath =>
    rw [perform] at hca
    split at hca
    · rename_i hsz
      obtain ⟨⟨ret, p₂⟩, hb, rfl⟩ := map_eq_some_iff.1 hca
      obtain ⟨ret', p₃, l', hb', hend⟩ := bestFit_spec addressOf requestedSize fingerprint modelPath h
        (Nat.lt_succ_self _)
      cases hb.symm.trans hb'
      exact ⟨l', hend.holds h, hend.positive hpos hsz⟩
    · cases hca

theorem run_holds {addressOf : Nat → Nat} {p p' : GPUTensorPool} {l : List Cell} {calls : List Call} (h : Holds p l)
    (hpos : Positive l) (hrun : run addressOf p calls = some p') : ∃ l', Holds p' l' ∧ Positive l' :=
  Runs.run_invariant (I := fun p => ∃ l, Holds p l ∧ Positive l) (fun _ _ _ h hca => perform_holds h hca) ⟨l, h, hpos⟩ hrun

/-- In every run of calls the pool is consistent and no error was logged. The next call returns; it returns the region of its
tensor group if that is in the pool, and else a region of the size that is requested, cut from the smallest free region that is
large enough after the evictions of the call. -/
theorem bestFitAllocation_run {addressOf : Nat → Nat} {base totalSize : Nat} {calls : List Call} {p : GPUTensorPool}
    (hpos : 0 < totalSize) (hrun : run addressOf (.init base totalSize) calls = some p) :
    (∃ l, Consistent p l) ∧
    ∀ requestedSize fingerprint modelPath, 0 < requestedSize →
      ∃ ret p', p.bestFitAllocation addressOf requestedSize fingerprint modelPath = some (ret, p') ∧ (∃ l, Consistent p' l) ∧
        ∀ i, ret = some i →
          (fingerprint ≠ "kvcache" ∧ p.getTensor fingerprint = some i ∧ p' = p) ∨
          ((fingerprint = "kvcache" ∨ p.getTensor fingerprint = none) ∧
            ∃ p₁ l₁ r, Evicts p p₁ ∧ Consistent p₁ l₁ ∧ Smallest l₁ requestedSize (i, r) ∧
              p' = p₁.allocate (r.size, i) requestedSize fingerprint ∧
              p'.region i = { r with size := requestedSize, isAllocated := true, fingerprint := fingerprint }) := by
  obtain ⟨l, hl, hlpos⟩ := run_holds (init_holds base totalSize) (by simpa [Positive] using hpos) hrun
  refine ⟨⟨l, hl.consistent hlpos⟩, ?_⟩
  intro requestedSize fingerprint modelPath hsz
  obtain ⟨ret, p', l', hca, hend⟩ := bestFit_spec addressOf requestedSize fingerprint modelPath hl
    (Nat.lt_succ_self _)
  have hl' := hend.holds hl
  refine ⟨ret, p', hca, ⟨l', hl'.consistent (hend.positive hlpos hsz)⟩, ?_⟩
  intro i hi
  cases hend with
  | hit j hfp hj =>
    cases hi
    exact .inl ⟨hfp, hj, rfl⟩
  | allocated hnew p₁ A C x hevicted hx =>
    cases hi
    refine .inr ⟨hnew, p₁, A ++ x :: C, x.2, hevicted.evicts, hevicted.holds.consistent (hevicted.positive hlpos), hx, rfl, ?_⟩
    exact region_eq hl'.rep (c := (x.1, taken x.2 requestedSize fingerprint))
      (mem_append_left _ (mem_append_right _ (mem_cutCells hx.2.2.1)))
  | failed p₁ l₁ c hevicted => cases hi

/-- A region of 20 bytes after one of 10, from a pool of 100. -/
theorem bestFitAllocation_twoRegions :
    ∃ p, run id (.init 0 100) [.bestFitAllocation 10 "a" "m"] = some p ∧ (∃ l, Consistent p l) ∧
      ∃ p', p.bestFitAllocation id 20 "b" "m" = some (some 1, p') ∧ (p'.region 1).size = 20 := by
  have hso : ((run id (.init 0 100) [.bestFitAllocation 10 "a" "m"]).bind fun p =>
      (p.bestFitAllocation id 20 "b" "m").map fun q => (q.1, (q.2.region 1).size)) = some (some 1, 20) := by decide +kernel
  obtain ⟨p, hrun, hso⟩ := bind_eq_some_iff.1 hso
  obtain ⟨⟨ret, p'⟩, hca, heq⟩ := map_eq_some_iff.1 hso
  obtain ⟨rfl, hsz⟩ := Prod.mk.inj heq
  exact ⟨p, hrun, (bestFitAllocation_run (by decide) hrun).1, p', hca, hsz⟩

/-- The second call returns the region of the first one, which is smaller than what is requested. -/
theorem bestFitAllocation_smaller :
    ∃ p p', run id (.init 0 100) [.bestFitAllocation 10 "a" "m"] = some p ∧
      p.bestFitAllocation id 20 "a" "m" = some (some 0, p') ∧ (p'.region 0).size ≠ 20 := by
  have hso : ((run id (.init 0 100) [.bestFitAllocation 10 "a" "m"]).bind fun p =>
      (p.bestFitAllocation id 20 "a" "m").map fun q => (q.1, (q.2.region 0).size)) = some (some 0, 10) := by decide +kernel
  obtain ⟨p, hrun, hso⟩ := bind_eq_some_iff.1 hso
  obtain ⟨⟨ret, p'⟩, hca, heq⟩ := map_eq_some_iff.1 hso
  obtain ⟨rfl, hsz⟩ := Prod.mk.inj heq
  refine ⟨p, p', hrun, hca, ?_⟩
  dsimp only at hsz
  rw [hsz]
  decide

end ServerlessLLM.ModelPool
