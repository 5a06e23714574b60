import ServerlessLLM.ModelPool.Pool
import ServerlessLLM.ModelPool.Theorems.BestFit

/-!
# What a load makes of the allocated regions

A load keeps the addresses of the tensor groups that it placed.
-/

namespace ServerlessLLM.ModelPool

open Linked List Dict Pool Bytes

def Mapped (p : GPUTensorPool) (l : List Cell) : Prop :=
  ∀ c ∈ l, c.2.isAllocated = true → p.allocatedRegions.get? c.2.fingerprint = some c.1

namespace GPUTensorPool

variable {p p' : GPUTensorPool} {A C l l' : List Cell} {x : Cell} {victims : List String} {ret : Option Nat}

theorem mem_of_mem_freedCells {c : Cell} (hc : c ∈ freedCells A x C) (halc : c.2.isAllocated = true) : c ∈ A ∨ c ∈ C := by
  unfold freedCells at hc
  rw [mem_append, mem_cons] at hc
  rcases hc with hc | rfl | hc
  · left
    rcases takePrev_cases A (takeNext x C).1 with ⟨heq, -⟩ | ⟨q, A', rfl, -, heq⟩
    · rw [heq] at hc
      exact hc
    · rw [heq] at hc
      exact mem_append_left _ hc
  · cases halc
  · right
    rcases takeNext_cases x C with ⟨heq, -⟩ | ⟨n, C', rfl, -, heq⟩
    · rw [heq] at hc
      exact hc
    · rw [heq] at hc
      exact mem_cons_of_mem _ hc

theorem mem_of_mem_cutCells {c : Cell} {fresh requestedSize : Nat} {fingerprint : String} (hle : requestedSize ≤ x.2.size)
    (hc : c ∈ A ++ cutCells x fresh requestedSize fingerprint ++ C) (halc : c.2.isAllocated = true) :
    c = (x.1, taken x.2 requestedSize fingerprint) ∨ c ∈ A ∨ c ∈ C := by
  rw [append_assoc, mem_append, mem_append] at hc
  rcases hc with hc | hc | hc
  · exact .inr (.inl hc)
  · left
    unfold cutCells at hc
    split at hc
    · rw [mem_pair] at hc
      rcases hc with rfl | rfl
      · rfl
      · cases halc
    · have heq : x.2.size = requestedSize := by omega
      rw [mem_singleton] at hc
      rw [hc, ← heq]
      rfl
  · exact .inr (.inr hc)

theorem Mapped.freed (h : Holds p (A ++ x :: C)) (hm : Mapped p (A ++ x :: C)) (hx : x.2.isAllocated = true)
    (c : LRUCache (List String)) : Mapped (freeRegion { p with lruModels := c } x.1) (freedCells A x C) := by
  intro d hd halc
  have hmem : d ∈ A ++ x :: C := by
    rcases mem_of_mem_freedCells hd halc with hd | hd
    · simp [hd]
    · simp [hd]
  have hnd := h.rep.nodup
  rw [ids_append, ids_cons, nodup_middle, nodup_cons, mem_append] at hnd
  have hne : d.2.fingerprint ≠ x.2.fingerprint := by
    -- two regions of one fingerprint are one region
    intro hfp
    have hdx := hm d hmem halc
    rw [hfp, hm x (by simp) hx] at hdx
    have hid : x.1 = d.1 := Option.some.inj hdx
    rcases mem_of_mem_freedCells hd halc with hd | hd
    · exact hnd.1 (.inl (hid ▸ mem_ids_of_mem hd))
    · exact hnd.1 (.inr (hid ▸ mem_ids_of_mem hd))
  rw [freeRegion_allocatedRegions c h hx, get?_erase, if_neg hne]
  exact hm d hmem halc

theorem Evicted.mapped (h : Evicted victims p l p' l') (hm : Mapped p l) : Mapped p' l' := by
  induction h with
  | refl h => exact hm
  | step c h hx hi _ ih => exact ih (Mapped.freed h hm hx c)

theorem Mapped.allocated {requestedSize : Nat} {fingerprint : String} (h : Holds p (A ++ x :: C)) (hm : Mapped p (A ++ x :: C))
    (hx : x.2.isAllocated = false) (hle : requestedSize ≤ x.2.size) (hnew : p.getTensor fingerprint = none) :
    Mapped (p.allocate (x.2.size, x.1) requestedSize fingerprint)
      (A ++ cutCells x p.store.fresh requestedSize fingerprint ++ C) := by
  obtain ⟨s, fr, heq, -⟩ := allocate_eq requestedSize fingerprint h hx
  intro c hc halc
  rw [heq]
  dsimp only
  rw [get?_set]
  rcases mem_of_mem_cutCells hle hc halc with rfl | hmem
  · exact if_pos rfl
  · have hfnd := hm c (by rcases hmem with h | h <;> simp [h]) halc
    have hne : c.2.fingerprint ≠ fingerprint := by
      intro hfp
      rw [hfp] at hfnd
      cases hnew.symm.trans hfnd
    rw [if_neg hne]
    exact hfnd

theorem BestFit.mapped {requestedSize : Nat} {fingerprint : String}
    (h : BestFit requestedSize fingerprint victims p l ret p' l') (hm : Mapped p l) (hnew : p.getTensor fingerprint = none) :
    Mapped p' l' := by
  cases h with
  | hit i hfp hi => exact hm
  | allocated _ p₁ A C x hev hx =>
    refine Mapped.allocated hev.holds (hev.mapped hm) hx.2.1 hx.2.2.1 ?_
    unfold getTensor at *
    rw [hev.get?, hnew]
    exact ite_self _
  | failed p₁ l₁ c hev => exact hev.mapped hm

/-! ## Counting -/

theorem regions_eq (h : Holds p l) : p.regions = ids l := by
  unfold regions
  rw [← h.view, h.rep.walk]

theorem actualAllocatedRegions_eq (h : Holds p l) :
    p.actualAllocatedRegions = (l.filter fun c => c.2.isAllocated).map Prod.fst := by
  unfold actualAllocatedRegions
  rw [regions_eq h]
  unfold ids
  rw [filter_map]
  congr 1
  refine filter_congr ?_
  intro c hc
  exact congrArg GPUMemoryRegion.isAllocated (region_eq h.rep hc)

theorem Mapped.perm (h : Holds p l) (hm : Mapped p l) :
    ((l.filter fun c => c.2.isAllocated).map fun c => c.2.fingerprint).Perm p.allocatedRegions.keys := by
  have hnd : ((l.filter fun c => c.2.isAllocated).map fun c => c.2.fingerprint).Nodup := by
    refine List.Nodup.map_on ?_ (h.rep.nodup.of_map.filter _)
    intro c hc d hd hfp
    rw [mem_filter] at hc hd
    have hcd := hm c hc.1 hc.2
    rw [hfp, hm d hd.1 hd.2] at hcd
    exact eq_of_fst_eq h.rep.nodup hc.1 hd.1 (Option.some.inj hcd).symm
  refine (perm_ext_iff_of_nodup hnd p.allocatedRegions.nodup).2 ?_
  intro fp
  constructor
  · intro hfp
    obtain ⟨c, hc, rfl⟩ := mem_map.1 hfp
    rw [mem_filter] at hc
    exact mem_keys_iff.2 ⟨c.1, hm c hc.1 hc.2⟩
  · intro hfp
    obtain ⟨i, hi⟩ := mem_keys_iff.1 hfp
    obtain ⟨r, hr, halc, rfl⟩ := h.index fp i hi
    exact mem_map.2 ⟨(i, r), mem_filter.2 ⟨hr, halc⟩, rfl⟩

/-! ## One call -/

theorem allocatedTensor_eq (h : Holds p l) (fingerprint : String) : p.allocatedTensor fingerprint =
    p.getTensor fingerprint := by
  unfold allocatedTensor
  cases hi : p.getTensor fingerprint with
  | none => rfl
  | some i =>
    obtain ⟨r, hr, halc, -⟩ := h.index fingerprint i hi
    have hrgn : p.region i = r := region_eq h.rep hr
    rw [Option.filter_some_pos (by rw [hrgn]; exact halc)]

theorem bestFitAllocation_spec (addressOf : Nat → Nat) (requestedSize : Nat) (fingerprint modelPath : String) (h : Holds p l) :
    ∃ ret p' l', p.bestFitAllocation addressOf requestedSize fingerprint modelPath = some (ret, p') ∧
      BestFit requestedSize fingerprint (p.evictions addressOf requestedSize fingerprint modelPath) p l ret p' l' :=
  bestFit_spec addressOf requestedSize fingerprint modelPath h (Nat.lt_succ_self _)

end GPUTensorPool

/-! ## Runs -/

theorem Pool.meets_iff_eachStep {addressOf : Nat → Nat} {cond : Pool → Request → Prop} {s : Pool} {requests : List Request} :
    Meets addressOf cond s requests ↔ Runs.EachStep (serve addressOf) cond s requests := by
  induction requests generalizing s with
  | nil => exact Iff.rfl
  | cons r requests ih => exact and_congr_right fun _ => forall₂_congr fun s' _ => ih

namespace GPUTensorPool

variable {p p' : GPUTensorPool} {l l' : List Cell} {victims : List String} {ret : Option Nat} {requestedSize : Nat}
  {fingerprint : String}

theorem Evicted.mem_of_mem (h : Evicted victims p l p' l') {c : Cell} (hc : c ∈ l') (halc : c.2.isAllocated = true) :
    c ∈ l := by
  induction h with
  | refl h => exact hc
  | step d h hx hi _ ih =>
    rcases mem_of_mem_freedCells (ih hc) halc with hmem | hmem
    · simp [hmem]
    · simp [hmem]

theorem BestFit.mem (h : BestFit requestedSize fingerprint victims p l ret p' l') (hm : Mapped p l) {c : Cell} (hc : c ∈ l)
    (halc : c.2.isAllocated = true) (hnot : c.2.fingerprint ∉ victims) : c ∈ l' := by
  cases h with
  | hit i hfp hi => exact hc
  | allocated hnew p₁ A C x hev hx =>
    have hmem := hev.mem hc halc (hm c hc halc) hnot
    rw [mem_append, mem_cons] at hmem
    rcases hmem with hmem | rfl | hmem
    · simp [hmem]
    · rw [hx.2.1] at halc
      cases halc
    · simp [hmem]
  | failed p₁ l₁ c' hev => exact hev.mem hc halc (hm c hc halc) hnot

theorem BestFit.mem_of_none (h : BestFit requestedSize fingerprint victims p l none p' l') {c : Cell} (hc : c ∈ l')
    (halc : c.2.isAllocated = true) : c ∈ l := by
  cases h with
  | failed p₁ l₁ c' hev => exact hev.mem_of_mem hc halc

theorem BestFit.mem_of_some {i : Nat} (h : BestFit requestedSize fingerprint victims p l (some i) p' l')
    (hnew : p.getTensor fingerprint = none) :
    ∃ r, (i, r) ∈ l' ∧ r.isAllocated = true ∧ r.size = requestedSize ∧ r.fingerprint = fingerprint ∧
      ∀ c ∈ l', c.2.isAllocated = true → c = (i, r) ∨ c ∈ l := by
  cases h with
  | hit i hfp hi => cases hnew.symm.trans hi
  | allocated _ p₁ A C x hev hx =>
    refine ⟨taken x.2 requestedSize fingerprint, ?_, rfl, rfl, rfl, ?_⟩
    · exact mem_append_left _ (mem_append_right _ (mem_cutCells hx.2.2.1))
    · intro c hc halc
      rcases mem_of_mem_cutCells hx.2.2.1 hc halc with rfl | hmem
      · exact .inl rfl
      · exact .inr (hev.mem_of_mem (by rcases hmem with h | h <;> simp [h]) halc)

end GPUTensorPool

/-! ## The bytes of a region -/

/-- The region has the bytes of its tensor group. -/
def HasBytes (content : String → List UInt8) (bytes : Nat → UInt8) (c : Cell) : Prop :=
  read bytes c.2.addr c.2.size = content c.2.fingerprint

theorem Holds.apart {p : GPUTensorPool} {l : List Cell} (h : Holds p l) {c d : Cell} (hc : c ∈ l) (hd : d ∈ l) (hne : c ≠ d) :
    c.2.addr + c.2.size ≤ d.2.addr ∨ d.2.addr + d.2.size ≤ c.2.addr := by
  have hpair : l.Pairwise fun c d : Cell => c.2.addr + c.2.size ≤ d.2.addr ∨ d.2.addr + d.2.size ≤ c.2.addr :=
    (Tiling.Adjoins.pairwise h.adjoins).1.imp Or.inl
  have : Std.Symm fun c d : Cell => c.2.addr + c.2.size ≤ d.2.addr ∨ d.2.addr + d.2.size ≤ c.2.addr := ⟨fun _ _ => Or.symm⟩
  exact hpair.forall hc hd hne

/-- What a load knows when it placed the tensor groups `placed`: where they are, and that every region has its bytes or is one
that is still to be loaded. -/
structure Placed (content : String → List UInt8) (bytes : Nat → UInt8) (p : GPUTensorPool) (l : List Cell)
    (placed : List TensorGroupIndex) (allocatedRegion regionToLoad : List Nat) : Prop where
  holds : Holds p l
  mapped : Mapped p l
  sized : ∀ c ∈ l, c.2.isAllocated = true → c.2.size = (content c.2.fingerprint).length
  addrs : List.Forall₂ (fun g a => ∃ c ∈ l, c.2.isAllocated = true ∧ c.2.fingerprint = g.fingerprint ∧ c.2.addr = a) placed
    allocatedRegion
  toLoad : ∀ k ∈ regionToLoad, k < placed.length
  filled : ∀ c ∈ l, c.2.isAllocated = true →
    HasBytes content bytes c ∨ ∃ k ∈ regionToLoad, ∃ g, placed[k]? = some g ∧ g.fingerprint = c.2.fingerprint

theorem Pool.meets_append {addressOf : Nat → Nat} {cond : Pool → Request → Prop} {s : Pool}
    {requests requests' : List Request} :
    Meets addressOf cond s (requests ++ requests') ↔ Meets addressOf cond s requests ∧
      ∀ s', s.serveAll addressOf requests = some s' → Meets addressOf cond s' requests' := by
  induction requests generalizing s with
  | nil =>
    refine ⟨fun h => ⟨trivial, ?_⟩, fun h => h.2 s rfl⟩
    intro s' hrun
    cases hrun
    exact h
  | cons r requests ih =>
    simp only [cons_append, Meets, ih, serveAll, foldlM_cons, Option.bind_eq_bind, Option.bind_eq_some_iff]
    constructor
    · rintro ⟨hcond, hrs⟩
      refine ⟨⟨hcond, fun s₁ hs₁ => (hrs s₁ hs₁).1⟩, ?_⟩
      rintro s' ⟨s₁, hs₁, hs'⟩
      exact (hrs s₁ hs₁).2 s' hs'
    · rintro ⟨⟨hcond, hrs⟩, hla⟩
      exact ⟨hcond, fun s₁ hs₁ => ⟨hrs s₁ hs₁, fun s' hs' => hla s' ⟨s₁, hs₁, hs'⟩⟩⟩

namespace Placed

variable {content : String → List UInt8} {bytes : Nat → UInt8} {p p' : GPUTensorPool} {l l' : List Cell}
  {placed : List TensorGroupIndex} {allocatedRegion regionToLoad : List Nat} {g : TensorGroupIndex}

theorem hit (h : Placed content bytes p l placed allocatedRegion regionToLoad) {i : Nat}
    (hi : p.allocatedTensor g.fingerprint = some i) :
    Placed content bytes p l (placed ++ [g]) (allocatedRegion ++ [(p.region i).addr]) regionToLoad := by
  rw [GPUTensorPool.allocatedTensor_eq h.holds] at hi
  obtain ⟨r, hr, halc, hfp⟩ := h.holds.index g.fingerprint i hi
  have hrgn : p.region i = r := GPUTensorPool.region_eq h.holds.rep hr
  refine ⟨h.holds, h.mapped, h.sized, ?_, ?_, ?_⟩
  · refine rel_append h.addrs (.cons ⟨(i, r), hr, halc, hfp, by rw [hrgn]⟩ .nil)
  · intro k hk
    have := h.toLoad k hk
    simp only [length_append, length_singleton]
    omega
  · intro c hc hc'
    rcases h.filled c hc hc' with hbyt | ⟨k, hk, g', hg', hfp'⟩
    · exact .inl hbyt
    · exact .inr ⟨k, hk, g', by rw [getElem?_append_left (h.toLoad k hk)]; exact hg', hfp'⟩

theorem allocated (h : Placed content bytes p l placed allocatedRegion regionToLoad)
    (hsz : g.size = (content g.fingerprint).length)
    {victims : List String} {i : Nat}
    (hfit : GPUTensorPool.BestFit g.size g.fingerprint victims p l (some i) p' l') (hnew : p.getTensor g.fingerprint = none)
    (hvs : ∀ fp ∈ victims, fp ∉ placed.map TensorGroupIndex.fingerprint) :
    Placed content bytes p' l' (placed ++ [g]) (allocatedRegion ++ [(p'.region i).addr])
      (regionToLoad ++ [allocatedRegion.length]) := by
  have hlen := h.addrs.length_eq
  have hhld := hfit.holds h.holds
  obtain ⟨r, hr, halc, hrsize, hfp, hoth⟩ := hfit.mem_of_some hnew
  have hrgn : p'.region i = r := GPUTensorPool.region_eq hhld.rep hr
  refine ⟨hhld, hfit.mapped h.mapped hnew, ?_, ?_, ?_, ?_⟩
  · intro c hc hc'
    rcases hoth c hc hc' with rfl | hold
    · dsimp only
      rw [hrsize, hfp, hsz]
    · exact h.sized c hold hc'
  · refine rel_append ?_ (.cons ⟨(i, r), hr, halc, hfp, by rw [hrgn]⟩ .nil)
    rw [forall₂_iff_zip]
    refine ⟨hlen, fun {g' a} hzip => ?_⟩
    obtain ⟨c, hc, hc', hfp', haddr⟩ := (forall₂_iff_zip.1 h.addrs).2 hzip
    refine ⟨c, hfit.mem h.mapped hc hc' ?_, hc', hfp', haddr⟩
    intro hvic
    exact hvs _ hvic (hfp' ▸ mem_map_of_mem (of_mem_zip hzip).1)
  · intro k hk
    rw [length_append, length_singleton]
    rcases mem_append.1 hk with hk | hk
    · have := h.toLoad k hk
      omega
    · rw [mem_singleton] at hk
      omega
  · intro c hc hc'
    rcases hoth c hc hc' with rfl | hold
    · refine .inr ⟨allocatedRegion.length, by simp, g, ?_, hfp.symm⟩
      rw [← hlen]
      simp
    · rcases h.filled c hold hc' with hbyt | ⟨k, hk, g', hg', hfp'⟩
      · exact .inl hbyt
      · exact .inr ⟨k, by simp [hk], g', by rw [getElem?_append_left (h.toLoad k hk)]; exact hg', hfp'⟩

theorem copied {m : RegisteredModel} {k : Nat} (h : Placed content bytes p l placed allocatedRegion (k :: regionToLoad))
    (hbyt : ∀ k g, placed[k]? = some g → m.groupBytes.getD k [] = content g.fingerprint) :
    Placed content (copyGroup m allocatedRegion bytes k) p l placed allocatedRegion regionToLoad := by
  have hk : k < placed.length := h.toLoad k mem_cons_self
  have hk' : k < allocatedRegion.length := h.addrs.length_eq ▸ hk
  -- the region of the group
  obtain ⟨d, hd, hd', hfp, haddr⟩ := (forall₂_iff_get.1 h.addrs).2 k hk hk'
  have hcopy : copyGroup m allocatedRegion bytes k = copyIn bytes d.2.addr (content d.2.fingerprint) := by
    unfold copyGroup
    rw [hbyt k _ (getElem?_eq_getElem hk), hfp, haddr, getD_eq_getElem?_getD, getElem?_eq_getElem hk']
    rfl
  rw [hcopy]
  refine ⟨h.holds, h.mapped, h.sized, h.addrs, fun j hj => h.toLoad j (mem_cons_of_mem _ hj), ?_⟩
  intro c hc hc'
  by_cases hcd : c = d
  · left
    unfold HasBytes
    rw [hcd, h.sized d hd hd']
    exact read_copyIn_self _ _ _
  · rcases h.filled c hc hc' with hrd | ⟨j, hj, g, hg, hgc⟩
    · left
      unfold HasBytes at *
      rw [read_copyIn_apart bytes, hrd]
      rw [← h.sized d hd hd']
      exact h.holds.apart hc hd hcd
    · right
      refine ⟨j, ?_, g, hg, hgc⟩
      rcases mem_cons.1 hj with rfl | hj
      · -- two regions of one fingerprint are one region
        exfalso
        rw [getElem?_eq_getElem hk] at hg
        have hfps : c.2.fingerprint = d.2.fingerprint := by rw [← hgc, hfp, ← Option.some.inj hg]; rfl
        have hid := h.mapped c hc hc'
        rw [hfps, h.mapped d hd hd'] at hid
        exact hcd (eq_of_fst_eq h.holds.rep.nodup hc hd (Option.some.inj hid).symm)
      · exact hj

theorem copiedAll {m : RegisteredModel} (h : Placed content bytes p l placed allocatedRegion regionToLoad)
    (hbyt : ∀ k g, placed[k]? = some g → m.groupBytes.getD k [] = content g.fingerprint) :
    Placed content (loadModelFromMem m allocatedRegion regionToLoad .succeed bytes) p l placed allocatedRegion [] := by
  unfold loadModelFromMem
  dsimp only
  induction regionToLoad generalizing bytes with
  | nil => exact h
  | cons k regionToLoad ih => exact ih (h.copied hbyt)

theorem gaveUp (h : Placed content bytes p l placed allocatedRegion []) {victims : List String} {requestedSize : Nat}
    {fingerprint : String} (hfit : GPUTensorPool.BestFit requestedSize fingerprint victims p l none p' l')
    (hnew : p.getTensor fingerprint = none) : Placed content bytes p' l' [] [] [] := by
  refine ⟨hfit.holds h.holds, hfit.mapped h.mapped hnew, fun c hc hc' => h.sized c (hfit.mem_of_none hc hc') hc', .nil, ?_, ?_⟩
  · intro k hk
    cases hk
  · intro c hc hc'
    rcases h.filled c (hfit.mem_of_none hc hc') hc' with hbyt | ⟨k, hk, -⟩
    · exact .inl hbyt
    · cases hk

theorem forget (h : Placed content bytes p l placed allocatedRegion []) : Placed content bytes p l [] [] [] := by
  refine ⟨h.holds, h.mapped, h.sized, .nil, ?_, ?_⟩
  · intro k hk
    cases hk
  · intro c hc hc'
    rcases h.filled c hc hc' with hbyt | ⟨k, hk, -⟩
    · exact .inl hbyt
    · cases hk

end Placed

end ServerlessLLM.ModelPool
