import Mathlib.Data.List.TakeWhile
import ServerlessLLM.Vram.Lemmas.CompactOps
import ServerlessLLM.Vram.Views

/-!
# The pool operations are steps of views

`WellFormed a b p` says that the linked list of the pool `p` is consistent and that its regions are laid out over `[a, b)`.
-/

namespace ServerlessLLM

open Linked List Function GPUTensorPool Tiling Region

/-- The regions of a pool with their numbers, in list order. -/
def GPUTensorPool.cells (p : GPUTensorPool) : List Cell := p.regions.map fun i => (i, p.region i)

def GPUTensorPool.view (p : GPUTensorPool) : View := ⟨p.cells, p.allocatedRegions, p.device.bytes⟩

@[simp] theorem GPUTensorPool.view_cells (p : GPUTensorPool) : p.view.cells = p.cells := rfl
@[simp] theorem GPUTensorPool.view_index (p : GPUTensorPool) : p.view.index = p.allocatedRegions := rfl

@[simp] theorem GPUTensorPool.view_bytes (p : GPUTensorPool) : p.view.bytes = p.device.bytes := rfl

variable {p : GPUTensorPool} {l : List Cell} {a b w : Nat} {W : List Cell}

theorem Holds.cells_eq (h : Holds p l) : p.cells = l := by
  rw [cells, h.regions_eq, ids, map_map]
  exact (map_congr_left fun c hc => by simp [h.region_eq hc]).trans (map_id l)

theorem Holds.view_eq (h : Holds p l) : p.view = ⟨l, p.allocatedRegions, p.device.bytes⟩ := by
  rw [view, h.cells_eq]

/-- The list of the pool is consistently linked, and its regions tile `[a, b)`. -/
structure WellLinked (a b : Nat) (p : GPUTensorPool) : Prop where
  holds : Holds p p.cells
  tiling : IsTiling a p.cells b

/-- The list of the pool is consistently linked, and its regions are laid out over `[a, b)`. -/
structure WellFormed (a b : Nat) (p : GPUTensorPool) : Prop where
  holds : Holds p p.cells
  layout : Layout a b p.cells

theorem Holds.wellFormed (h : Holds p l) (hl : Layout a b l) : WellFormed a b p := by
  have he := h.cells_eq
  exact ⟨he ▸ h, he ▸ hl⟩

theorem Holds.wellLinked (h : Holds p l) (ht : IsTiling a l b) : WellLinked a b p := by
  have he := h.cells_eq
  exact ⟨he ▸ h, he ▸ ht⟩

theorem WellFormed.wellLinked (h : WellFormed a b p) : WellLinked a b p := ⟨h.holds, h.layout.tiling⟩

/-! ## The cells of a compacted stretch -/

theorem slideCells_status {d : Cell} (h : d ∈ slideCells a l) : ∃ c ∈ l, ∃ b, d = c.put b := by
  obtain ⟨c, hc, b, -, hd⟩ := mem_slide h
  exact ⟨c, hc, b, hd⟩

theorem allocatedOf_eq_self (h : ∀ c ∈ l, c.2.status = .ALLOCATED) : allocatedOf l = l := by
  rw [allocatedOf, filter_eq_self]
  exact fun c hc => by simpa using h c hc

theorem status_of_slideCells {d : Cell} (h : d ∈ slideCells a (allocatedOf l)) : d.2.status = .ALLOCATED := by
  obtain ⟨c, hc, b, rfl⟩ := slideCells_status h
  exact (mem_allocatedOf.1 hc).2

theorem allocatedOf_slideCells (a : Nat) (l : List Cell) :
    allocatedOf (slideCells a (allocatedOf l)) = slideCells a (allocatedOf l) :=
  allocatedOf_eq_self fun _ hd => status_of_slideCells hd

theorem freeBytes_of_allocated (h : ∀ c ∈ l, c.2.status = .ALLOCATED) : freeBytes l = 0 := by
  induction l with
  | nil => rfl
  | cons c l ih => rw [freeBytes_cons, if_neg (by simp [h c]), ih fun d hd => h d (by simp [hd])]

theorem noAdjacentFree_of_allocated (h : ∀ c ∈ l, c.2.status = .ALLOCATED) : NoAdjacentFree l := by
  induction l with
  | nil => exact isChain_nil
  | cons c l ih => exact noAdjacentFree_cons.2 ⟨fun d _ hb => by simp [h c] at hb, ih fun d hd => h d (by simp [hd])⟩

theorem totalSize_eq (h : NoLoading l) : totalSize l = totalSize (allocatedOf l) + freeBytes l := by
  induction l with
  | nil => rfl
  | cons c l ih =>
    obtain ⟨h1, h2⟩ := noLoading_cons.1 h
    have := ih h2
    rw [totalSize_cons, freeBytes_cons, allocatedOf_cons]
    cases hc : c.2.status with
    | FREE => simp; omega
    | LOADING => exact absurd hc h1
    | ALLOCATED => simp [totalSize_cons]; omega

theorem isTiling_slideCells (ht : IsTiling w W b) (hl : ∀ c ∈ l, c ∈ W) : IsTiling a (slideCells a l) (a + totalSize l) :=
  tiles_slide Cell.put (fun _ _ => rfl) (fun _ _ => rfl) fun c hc => (ht.mem (hl c hc)).2.1

theorem IsTiling.end_eq {a b : Nat} {l : List Cell} (h : IsTiling a l b) : b = a + totalSize l := Tiling.Tiles.end_eq h

theorem isTiling_merged {w' : Nat} {F : Cell} (ht : IsTiling w W w') (hl : NoLoading W)
    (hf : 0 < freeBytes W) (ha : F.2.addr = w + totalSize (allocatedOf W)) (hs : F.2.size = freeBytes W) :
    IsTiling w (slideCells w (allocatedOf W) ++ [F]) w' := by
  refine isTiling_append.2 ⟨_, isTiling_slideCells ht fun c hc => (mem_allocatedOf.1 hc).1, ?_⟩
  refine isTiling_cons.2 ⟨ha, hs ▸ hf, isTiling_nil.2 ?_⟩
  rw [hs, ht.end_eq, totalSize_eq hl, Nat.add_assoc]

theorem single_of_allocatedOf_nil (h : allocatedOf W = []) (hl : NoLoading W) (hn : NoAdjacentFree W)
    (hne : W ≠ []) : ∃ x, W = [x] ∧ x.2.status = .FREE := by
  have hfe : ∀ c ∈ W, c.2.status = .FREE := by
    intro c hc
    cases hs : c.2.status with
    | FREE => rfl
    | LOADING => exact absurd hs (hl c hc)
    | ALLOCATED =>
      have : c ∈ allocatedOf W := mem_allocatedOf.2 ⟨hc, hs⟩
      simp [h] at this
  cases W with
  | nil => exact absurd rfl hne
  | cons x W =>
    cases W with
    | nil => exact ⟨x, rfl, hfe x (by simp)⟩
    | cons y W => exact absurd ⟨hfe x (by simp), hfe y (by simp)⟩ ((noAdjacentFree_cons.1 hn).1 y (by simp))

theorem noAdjacentFree_merged {A C : List Cell} {F : Cell} (h : NoAdjacentFree (A ++ W ++ C))
    (hl : NoLoading W) (hla : ∃ W' x, W = W' ++ [x] ∧ x.2.status = .FREE) :
    NoAdjacentFree (A ++ (slideCells w (allocatedOf W) ++ [F]) ++ C) := by
  obtain ⟨hAW, hC, hWC⟩ := noAdjacentFree_append.1 h
  obtain ⟨hA, hW, hAW'⟩ := noAdjacentFree_append.1 hAW
  obtain ⟨W', x, hW', hx⟩ := hla
  have hhead : ∀ d ∈ C.head?, d.2.status ≠ .FREE := fun d hd hf => hWC x (by simp [hW']) d hd ⟨hx, hf⟩
  have hT : ∀ c ∈ slideCells w (allocatedOf W), c.2.status = .ALLOCATED := fun c hc => status_of_slideCells hc
  refine noAdjacentFree_append.2 ⟨noAdjacentFree_append.2 ⟨hA, noAdjacentFree_append.2
    ⟨noAdjacentFree_of_allocated hT, isChain_singleton F, ?_⟩, ?_⟩, hC, ?_⟩
  · intro c hc d _ hb
    simp [hT c (mem_of_getLast? hc)] at hb
  · intro c hc d hd hb
    cases hs : slideCells w (allocatedOf W) with
    | nil =>
      -- the stretch was one FREE region, and so its neighbour on the left is not FREE
      have ha : allocatedOf W = [] := by
        have := congrArg List.length hs
        have hlen : (ids (slideCells w (allocatedOf W))).length = (ids (allocatedOf W)).length := by rw [ids_slideCells]
        simp only [ids, length_map] at hlen
        exact length_eq_zero_iff.1 (hlen ▸ this)
      obtain ⟨y, rfl, hy⟩ := single_of_allocatedOf_nil ha hl hW (by rw [hW']; simp)
      exact hAW' c hc y (by simp) ⟨hb.1, hy⟩
    | cons e T =>
      rw [hs] at hd
      obtain rfl : e = d := by simpa using hd
      simp [hT e (by simp [hs])] at hb
  · intro c _ d hd hb
    exact hhead d hd hb.2

/-! ## Compactions of views -/

section Compact

variable {S : Region → Prop} {A W C : List Cell} {w w' : Nat} {index : String → Option NodeId} {bytes : Nat → UInt8}

variable {v v' : View} {T : List Cell} {a b : Nat} {l : List Cell} (n addr size : Nat)

theorem moved_refl {r : Region} (h : ∀ k < r.size, v'.bytes (r.addr + k) = v.bytes (r.addr + k)) :
    Moved S v v' r r := ⟨rfl, .inl rfl, h⟩

theorem slideCells_moved (hb : v'.bytes = slideCellBytes v.bytes w T) (ho : Ordered T)
    (ha : ∀ c ∈ T, w ≤ c.2.addr) (hS : ∀ c ∈ T, S c.2) :
    List.Forall₂ (fun c d => Moved S v v' c.2 d.2 ∧ d.1 = c.1) T (slideCells w T) := by
  have h1 : List.Forall₂ (fun c d : Cell => (∃ b, b ≤ c.2.addr ∧ d = c.put b) ∧ ∀ k < c.2.size,
      slideCellBytes v.bytes w T (d.2.addr + k) = v.bytes (c.2.addr + k)) T (slideCells w T) :=
    slideBytes_eq Cell.put (fun _ _ => rfl) v.bytes ho ha
  refine List.Forall₂.imp ?_ ((forall₂_and_left _ _).2 ⟨hS, h1⟩)
  rintro c d ⟨hSc, ⟨b, -, rfl⟩, hbyt⟩
  exact ⟨⟨rfl, .inr hSc, fun k hk => by rw [hb]; exact hbyt k hk⟩, rfl⟩

theorem slideCellBytes_outside (bytes : Nat → UInt8) {i : Nat} (h : i < w ∨ w + totalSize T ≤ i) :
    slideCellBytes bytes w T i = bytes i :=
  slideBytes_outside bytes h

theorem isTiling_around (h : IsTiling a (A ++ W ++ C) b) (hW : IsTiling w W w') (hne : W ≠ []) :
    IsTiling a A w ∧ IsTiling w' C b := by
  obtain ⟨n, h1, hC⟩ := isTiling_append.1 h
  obtain ⟨m, hA, h2⟩ := isTiling_append.1 h1
  obtain rfl : m = w := by
    cases W with
    | nil => exact absurd rfl hne
    | cons c W => rw [← (isTiling_cons.1 h2).1, (isTiling_cons.1 hW).1]
  obtain rfl : n = w' := h2.end_eq.trans hW.end_eq.symm
  exact ⟨hA, hC⟩

theorem merged_compacted {F : Cell} (ht : IsTiling a (A ++ W ++ C) b) (hW : IsTiling w W w')
    (hld : NoLoading W) (hla : ∃ W' x, W = W' ++ [x] ∧ x.2.status = .FREE) (hF : F.2.status = .FREE)
    (haddr : F.2.addr = w + totalSize (allocatedOf W)) (hsz : F.2.size = freeBytes W)
    (hd : (ids (A ++ (slideCells w (allocatedOf W) ++ [F]) ++ C)).Nodup) (hS : ∀ c ∈ allocatedOf W, S c.2) :
    Compacted S ⟨A ++ W ++ C, index, bytes⟩
      ⟨A ++ (slideCells w (allocatedOf W) ++ [F]) ++ C, index, slideCellBytes bytes w (allocatedOf W)⟩ := by
  have hne : W ≠ [] := by
    obtain ⟨W', x, rfl, -⟩ := hla
    simp
  have hfe : 0 < freeBytes W := by
    obtain ⟨W', x, rfl, hx⟩ := hla
    have := (hW.mem (c := x) (by simp)).2.1
    simp only [freeBytes_append, freeBytes_cons, hx, if_true]
    omega
  have hFa : allocatedOf [F] = [] := by simp [allocatedOf_cons, hF]
  obtain ⟨hA, hC⟩ := isTiling_around ht hW hne
  -- region by region: those outside the stretch stay, those inside slide
  have hmoved : List.Forall₂ (fun c d => Moved S ⟨A ++ W ++ C, index, bytes⟩
      ⟨A ++ (slideCells w (allocatedOf W) ++ [F]) ++ C, index, slideCellBytes bytes w (allocatedOf W)⟩ c.2 d.2 ∧ d.1 = c.1)
      (allocatedOf (A ++ W ++ C)) (allocatedOf (A ++ (slideCells w (allocatedOf W) ++ [F]) ++ C)) := by
    simp only [allocatedOf_append, hFa, append_nil, allocatedOf_slideCells]
    refine rel_append (rel_append (forall₂_same.2 ?_) ?_) (forall₂_same.2 ?_)
    · intro c hc
      have := hA.mem (mem_allocatedOf.1 hc).1
      exact ⟨moved_refl fun k hk => slideCellBytes_outside bytes (by omega), rfl⟩
    · exact slideCells_moved rfl hW.ordered.allocatedOf (fun c hc => (hW.mem (mem_allocatedOf.1 hc).1).1) hS
    · intro c hc
      have h1 := hC.mem (mem_allocatedOf.1 hc).1
      have h2 := hW.end_eq
      have h3 := totalSize_eq hld
      exact ⟨moved_refl fun k hk => slideCellBytes_outside bytes (by omega), rfl⟩
  have htiling : ∀ a' b', IsTiling a' (A ++ W ++ C) b' → IsTiling a' (A ++ (slideCells w (allocatedOf W) ++ [F]) ++ C) b' := by
    intro a' b' ht'
    obtain ⟨hA', hC'⟩ := isTiling_around ht' hW hne
    exact isTiling_append.2 ⟨w', isTiling_append.2 ⟨w, hA', isTiling_merged hW hld hfe haddr hsz⟩, hC'⟩
  refine ⟨htiling, ?_, ?_, hmoved.imp fun _ _ h => h.1, ?_, ?_⟩
  · intro a' b' hl'
    refine ⟨htiling a' b' hl'.tiling, ?_, noAdjacentFree_merged hl'.noAdjacentFree hld hla, hd⟩
    have hnl := hl'.noLoading
    simp only [noLoading_append, noLoading_cons] at hnl ⊢
    refine ⟨⟨hnl.1.1, fun c hc => ?_, by simp [hF], by simp [NoLoading]⟩, hnl.2⟩
    simp [status_of_slideCells hc]
  · simp only [freeBytes_append, freeBytes_of_allocated fun c hc => status_of_slideCells hc, freeBytes_cons, hF, if_true,
      hsz, freeBytes_nil, Nat.zero_add, Nat.add_zero]
  · intro _ hs fp i hi
    obtain ⟨r, hr, hf⟩ := hs fp i hi
    obtain ⟨d, hd', hm, hid⟩ := forall₂_left hmoved hr
    refine ⟨d.2, ?_, ?_⟩
    · rwa [show (i, d.2) = d from Prod.ext hid.symm rfl]
    · rw [hm.region]
      exact hf
  · intro _ hc d hd'
    obtain ⟨c, hc', hm, hid⟩ := forall₂_right hmoved hd'
    rw [hm.region, hid]
    exact hc c hc'

theorem slideCells_append (a : Nat) (l l' : List Cell) :
    slideCells a (l ++ l') = slideCells a l ++ slideCells (a + totalSize l) l' := by
  induction l generalizing a with
  | nil => rfl
  | cons c l ih =>
    rw [cons_append, slideCells_cons, slideCells_cons, ih, totalSize_cons, ← Nat.add_assoc]
    rfl

theorem slideCells_of_tiling {m : Nat} (h : IsTiling a l m) : slideCells a l = l := by
  induction l generalizing a with
  | nil => rfl
  | cons c l ih =>
    obtain ⟨h1, -, h2⟩ := isTiling_cons.1 h
    have hc : c.put a = c := by
      rw [← h1]
      rfl
    rw [slideCells_cons, hc, ih h2]

theorem slideCellBytes_of_tiling {m : Nat} (h : IsTiling a l m) :
    slideCellBytes bytes a (l ++ T) = slideCellBytes bytes m T := by
  induction l generalizing a with
  | nil => rw [isTiling_nil.1 h, nil_append]
  | cons c l ih =>
    obtain ⟨h1, -, h2⟩ := isTiling_cons.1 h
    rw [cons_append, slideCellBytes_cons, h1, copy_self, ih h2]

/-! ### New numbers -/

theorem mem_renumber {n : Nat} {d : Cell} (h : d ∈ renumber n l) : ∃ c ∈ l, d.2 = c.2 := by
  induction l generalizing n with
  | nil => simp [renumber] at h
  | cons c l ih =>
    rcases mem_cons.1 h with rfl | h
    · exact ⟨c, by simp, rfl⟩
    · obtain ⟨e, he, hd⟩ := ih h
      exact ⟨e, by simp [he], hd⟩

theorem map_renumber {β : Type} (f : Region → β) (n : Nat) (l : List Cell) :
    ((renumber n l).map fun c => f c.2) = l.map fun c => f c.2 := by
  induction l generalizing n with
  | nil => rfl
  | cons c l ih => simp [renumber, ih]

theorem forall₂_renumber {R : Region → Region → Prop} {l' : List Cell} (h : List.Forall₂ (fun c d => R c.2 d.2) l l')
    (n : Nat) : List.Forall₂ (fun c d => R c.2 d.2) l (renumber n l') := by
  induction h generalizing n with
  | nil => exact List.Forall₂.nil
  | cons h _ ih => exact List.Forall₂.cons h (ih (n + 1))

/-! ### The index of `GlobalDeFrag` -/

theorem defragIndex_some {fp : String} {i : NodeId} (hn : ∀ c ∈ l, c.2.fingerprint ≠ "") :
    defragIndex index l fp = some i →
      (∃ c ∈ l, c.1 = i ∧ c.2.fingerprint = fp) ∨ (index fp = some i ∧ ∀ c ∈ l, c.2.fingerprint ≠ fp) := by
  induction l generalizing index with
  | nil => exact fun h => .inr ⟨h, by simp⟩
  | cons c l ih =>
    intro h
    rw [defragIndex, if_pos (hn c (by simp))] at h
    rcases ih (fun d hd => hn d (by simp [hd])) h with ⟨d, hd, h1, h2⟩ | ⟨h1, h2⟩
    · exact .inl ⟨d, by simp [hd], h1, h2⟩
    · by_cases hfp : fp = c.2.fingerprint
      · refine .inl ⟨c, by simp, ?_, hfp.symm⟩
        simpa [hfp] using h1
      · rw [update_of_ne hfp] at h1
        refine .inr ⟨h1, ?_⟩
        intro d hd
        rcases mem_cons.1 hd with rfl | hd
        · exact fun he => hfp he.symm
        · exact h2 d hd

theorem defragIndex_of_not_mem {fp : String} (h : ∀ c ∈ l, c.2.fingerprint ≠ fp) : defragIndex index l fp = index fp := by
  induction l generalizing index with
  | nil => rfl
  | cons c l ih =>
    rw [defragIndex, ih fun d hd => h d (by simp [hd])]
    split
    · exact update_of_ne (h c (by simp)).symm _ _
    · rfl

theorem defragIndex_mem (hn : ∀ c ∈ l, c.2.fingerprint ≠ "")
    (hd : (l.map fun c => c.2.fingerprint).Nodup) {c : Cell} (hc : c ∈ l) :
    defragIndex index l c.2.fingerprint = some c.1 := by
  induction l generalizing index with
  | nil => simp at hc
  | cons d l ih =>
    rw [map_cons, nodup_cons] at hd
    rw [defragIndex, if_pos (hn d (by simp))]
    rcases mem_cons.1 hc with rfl | hc
    · rw [defragIndex_of_not_mem, update_self]
      exact fun e he hfe => hd.1 (mem_map.2 ⟨e, he, hfe⟩)
    · exact ih (fun e he => hn e (by simp [he])) hd.2 hc

theorem IndexComplete.nodup (h : IndexComplete v) (hd : (ids v.cells).Nodup) :
    ((allocatedOf v.cells).map fun c => c.2.fingerprint).Nodup := by
  have hsub : (ids (allocatedOf v.cells)).Nodup := hd.sublist (List.Sublist.map _ filter_sublist)
  have hpw : (allocatedOf v.cells).Pairwise fun c d => c.1 ≠ d.1 := pairwise_map.1 hsub
  refine pairwise_map.2 (hpw.imp_of_mem fun {c d} hc hd' hne hfp => hne ?_)
  have : some c.1 = some d.1 := by rw [← h c hc, ← h d hd', hfp]
  simpa using this

theorem restCells_free : ∀ c ∈ restCells n addr size, c.2.status = .FREE := by
  intro c hc
  unfold restCells at hc
  split at hc
  · obtain rfl := mem_singleton.1 hc
    rfl
  · simp at hc

theorem freeBytes_restCells : freeBytes (restCells n addr size) = size := by
  unfold restCells
  split
  · simp [freeBytes_cons, mk']
  · simp
    omega

theorem allocatedOf_restCells : allocatedOf (restCells n addr size) = [] := by
  rw [allocatedOf, filter_eq_nil_iff]
  intro c hc
  simp [restCells_free n addr size c hc]

theorem allocatedOf_defragCells (fresh a : Nat) (l : List Cell) :
    allocatedOf (defragCells fresh a l) = renumber fresh (slideCells a (allocatedOf l)) := by
  rw [defragCells, allocatedOf_append, allocatedOf_restCells, append_nil]
  refine allocatedOf_eq_self ?_
  intro d hd
  obtain ⟨c, hc, hdc⟩ := mem_renumber hd
  rw [hdc]
  exact status_of_slideCells hc

theorem layout_defragCells {fresh : NodeId} (hl : Layout a b l)
    (hd : (ids (defragCells fresh a l)).Nodup) : Layout a b (defragCells fresh a l) := by
  have hsts : ∀ d ∈ renumber fresh (slideCells a (allocatedOf l)), d.2.status = .ALLOCATED := by
    intro d hd
    obtain ⟨c, hc, hdc⟩ := mem_renumber hd
    rw [hdc]
    exact status_of_slideCells hc
  refine ⟨?_, noLoading_append.2 ⟨fun d hd => by simp [hsts d hd], fun c hc => by simp [restCells_free _ _ _ c hc]⟩, ?_, hd⟩
  · have h1 : IsTiling a (renumber fresh (slideCells a (allocatedOf l))) (a + totalSize (allocatedOf l)) :=
      Tiles.of_map_eq (isTiling_slideCells hl.tiling fun c hc => (mem_allocatedOf.1 hc).1)
        (map_renumber (fun r => (r.addr, r.size)) _ _).symm
    have hend := hl.tiling.end_eq
    have hsum := totalSize_eq hl.noLoading
    refine isTiling_append.2 ⟨_, h1, ?_⟩
    unfold restCells
    split
    · exact isTiling_cons.2 ⟨rfl, by assumption, isTiling_nil.2 (by simp only [mk']; omega)⟩
    · exact isTiling_nil.2 (by omega)
  · refine noAdjacentFree_append.2 ⟨noAdjacentFree_of_allocated hsts, ?_, ?_⟩
    · unfold restCells
      split
      · exact isChain_singleton _
      · exact isChain_nil
    · intro c hc d _ hb
      simp [hsts c (mem_of_getLast? hc)] at hb

theorem defrag_moved (hl : Layout a b l) (hb : v'.bytes = slideCellBytes v.bytes a (allocatedOf l))
    (hS : ∀ c ∈ allocatedOf (l.dropWhile fun c => c.2.status ≠ .FREE), S c.2) :
    List.Forall₂ (fun c d => Moved S v v' c.2 d.2) (allocatedOf l) (slideCells a (allocatedOf l)) := by
  have hspl := takeWhile_append_dropWhile (p := fun c : Cell => decide (c.2.status ≠ .FREE)) (l := l)
  have hpre : ∀ c ∈ l.takeWhile fun c => decide (c.2.status ≠ .FREE), c.2.status = .ALLOCATED := by
    intro c hc
    have h1 := mem_takeWhile_imp hc
    have h2 := hl.noLoading c (hspl ▸ mem_append_left _ hc)
    cases hs : c.2.status with
    | FREE => simp [hs] at h1
    | LOADING => exact absurd hs h2
    | ALLOCATED => rfl
  generalize l.takeWhile (fun c => decide (c.2.status ≠ .FREE)) = A at hspl hpre
  generalize l.dropWhile (fun c => decide (c.2.status ≠ .FREE)) = B at hspl hS
  subst hspl
  obtain ⟨m, hA, hB⟩ := isTiling_append.1 hl.tiling
  rw [allocatedOf_append, allocatedOf_eq_self hpre] at hb ⊢
  rw [slideCells_append, slideCells_of_tiling hA, ← hA.end_eq]
  rw [slideCellBytes_of_tiling hA] at hb
  refine rel_append (forall₂_same.2 ?_) ?_
  · intro c hc
    have := hA.mem hc
    refine moved_refl ?_
    intro k hk
    rw [hb, slideCellBytes_outside v.bytes (by omega)]
  · exact (slideCells_moved hb hB.ordered.allocatedOf (fun c hc => (hB.mem (mem_allocatedOf.1 hc).1).1) hS).imp fun _ _ h => h.1

theorem defrag_compacted {fresh : NodeId} (hl : Layout a b l) (hne : l ≠ []) (hd : (ids (defragCells fresh a l)).Nodup)
    (hS : ∀ c ∈ allocatedOf (l.dropWhile fun c => c.2.status ≠ .FREE), S c.2) :
    Compacted S ⟨l, index, bytes⟩ ⟨defragCells fresh a l,
      defragIndex index (renumber fresh (slideCells a (allocatedOf l))), slideCellBytes bytes a (allocatedOf l)⟩ := by
  generalize hv : (⟨l, index, bytes⟩ : View) = v
  generalize hv' : (⟨defragCells fresh a l, defragIndex index (renumber fresh (slideCells a (allocatedOf l))),
    slideCellBytes bytes a (allocatedOf l)⟩ : View) = v'
  have hcls : allocatedOf v'.cells = renumber fresh (slideCells a (allocatedOf l)) := by
    rw [← hv', allocatedOf_defragCells]
  have hmoved : List.Forall₂ (fun c d => Moved S v v' c.2 d.2) (allocatedOf v.cells) (allocatedOf v'.cells) := by
    have h1 : List.Forall₂ (fun c d => Moved S v v' c.2 d.2) (allocatedOf l) (slideCells a (allocatedOf l)) :=
      defrag_moved hl (by rw [← hv, ← hv']) hS
    rw [hcls, ← hv]
    rw [← hv] at h1
    exact forall₂_renumber h1 fresh
  have hnamed : Named v → ∀ d ∈ allocatedOf v'.cells, d.2.fingerprint ≠ "" := by
    intro hn d hd'
    obtain ⟨c, hc, hm⟩ := forall₂_right hmoved hd'
    rw [hm.region]
    exact hn c hc
  have hindex : v'.index = defragIndex v.index (allocatedOf v'.cells) := by
    rw [hcls, ← hv, ← hv']
  have hunique : ∀ a' b', IsTiling a' v.cells b' → a' = a ∧ b' = b := by
    intro a' b' ht'
    rw [← hv] at ht'
    have ha : a' = a := by
      cases l with
      | nil => exact absurd rfl hne
      | cons c l => rw [← (isTiling_cons.1 ht').1, (isTiling_cons.1 hl.tiling).1]
    exact ⟨ha, by rw [hl.tiling.end_eq, ht'.end_eq, ha]⟩
  refine ⟨?_, ?_, ?_, hmoved, ?_, ?_⟩
  · intro a' b' ht'
    obtain ⟨rfl, rfl⟩ := hunique a' b' ht'
    rw [← hv']
    exact (layout_defragCells hl hd).tiling
  · intro a' b' hl'
    obtain ⟨rfl, rfl⟩ := hunique a' b' hl'.tiling
    rw [← hv']
    exact layout_defragCells hl hd
  · rw [← hv, ← hv']
    simp only [defragCells, freeBytes_append, freeBytes_restCells]
    rw [freeBytes_of_allocated, Nat.zero_add]
    intro c hc
    obtain ⟨d, hd', he⟩ := mem_renumber hc
    rw [he]
    exact status_of_slideCells hd'
  · intro hn hs fp i hi
    rw [hindex] at hi
    rcases defragIndex_some (hnamed hn) hi with ⟨d, hd', rfl, hf⟩ | ⟨h1, h2⟩
    · exact ⟨d.2, hd', hf⟩
    · obtain ⟨r, hr, hf⟩ := hs fp i h1
      obtain ⟨d, hd', hm⟩ := forall₂_left hmoved hr
      refine absurd ?_ (h2 d hd')
      rw [hm.region]
      exact hf
  · intro hn hc d hd'
    rw [hindex]
    refine defragIndex_mem (hnamed hn) ?_ hd'
    have hnd := hc.nodup (v := v) (by rw [← hv]; exact hl.nodup)
    have hmap : (allocatedOf v'.cells).map (fun c => c.2.fingerprint) = (allocatedOf v.cells).map fun c => c.2.fingerprint := by
      rw [hcls, map_renumber, ← hv]
      exact map_slide (fun c : Cell => c.2.fingerprint) Cell.put (fun _ _ => rfl) a (allocatedOf l)
    rw [hmap]
    exact hnd

end Compact

/-! ## The operations on well-linked pools -/

namespace WellLinked

variable {a b : Nat} {p : GPUTensorPool} {A C W : List Cell} {x : Cell}

theorem region_eq (h : WellLinked a b p) {c : Cell} (hc : c ∈ p.cells) : p.region c.1 = c.2 := h.holds.region_eq hc

theorem mem_of_regions (h : WellLinked a b p) {i : NodeId} : i ∈ p.regions ↔ ∃ c ∈ p.cells, c.1 = i := by
  rw [h.holds.regions_eq, mem_ids]

theorem nodup (h : WellLinked a b p) : (ids p.cells).Nodup := h.holds.rep.nodup

theorem of_eq (h : WellLinked a b p) {q : GPUTensorPool} (hs : q.store = p.store)
    (hm : q.memoryRegions = p.memoryRegions) : WellLinked a b q ∧ q.cells = p.cells := by
  have hq := h.holds.of_eq hs hm
  exact ⟨hq.wellLinked h.tiling, hq.cells_eq⟩

theorem freeRegion (h : WellLinked a b p) (hc : p.cells = A ++ x :: C) (hx : x.2.status = .ALLOCATED) :
    WellLinked a b (p.freeRegion x.1) ∧ (p.freeRegion x.1).cells = freeCells A x C := by
  have ht : IsTiling a (A ++ x :: C) b := hc ▸ h.tiling
  have hq : Holds (p.freeRegion x.1) (freeCells A x C) := Holds.freeRegion (hc ▸ h.holds) ht hx
  exact ⟨hq.wellLinked (isTiling_freeCells ht), hq.cells_eq⟩

theorem cutRegion_setModelRef (h : WellLinked a b p) (hc : p.cells = A ++ x :: C) (hx : x.2.status = .FREE) {size : Nat}
    (fp : String) (m : RegisteredModel) (h0 : 0 < size) (hs : size ≤ x.2.size) :
    WellLinked a b ((p.cutRegion x.1 size fp).1.setModelRef x.1 m) ∧
      ((p.cutRegion x.1 size fp).1.setModelRef x.1 m).cells = A ++ cutCells x p.store.fresh size fp (some m) ++ C ∧
      Placed size fp (some m) p.view ((p.cutRegion x.1 size fp).1.setModelRef x.1 m).view x.2.addr ∧
      Frame p ((p.cutRegion x.1 size fp).1.setModelRef x.1 m) := by
  have hh : Holds p (A ++ x :: C) := hc ▸ h.holds
  have hq := (hh.cutRegion size fp hs).setModelRef m
  obtain ⟨s, he⟩ := p.cutRegion_eq x.1 size fp
  have hfr : p.store.fresh ∉ ids (A ++ x :: C) := fun hm => Nat.lt_irrefl _ (hh.rep.lt_fresh _ hm)
  have hpl : Placed size fp (some m) p.view ((p.cutRegion x.1 size fp).1.setModelRef x.1 m).view x.2.addr := by
    rw [hq.view_eq, hh.view_eq, he]
    exact .cut hx h0 hs hfr
  refine ⟨hq.wellLinked ?_, hq.cells_eq, hpl, ?_⟩
  · exact isTiling_cutCells (hc ▸ h.tiling) h0 hs
  · rw [he]
    exact ⟨rfl, rfl⟩

structure Merging (S : Region → Prop) (a b : Nat) (p q : GPUTensorPool) (A W C : List Cell) (w : Nat) (F : Cell) : Prop where
  wellLinked : WellLinked a b q
  compacted : Compacted S p.view q.view
  cells : q.cells = A ++ (slideCells w (allocatedOf W) ++ [F]) ++ C
  status : F.2.status = .FREE
  size : F.2.size = freeBytes W
  frame : Frame p q

theorem mergeRegions {P : Platform} {S : Region → Prop} {s e : NodeId} (hP : P.MovesSucceed) (h : WellLinked a b p)
    (h0 : 0 < a) (hc : p.cells = A ++ W ++ C) (hs : first W = some s) (he : last W = some e) (hld : NoLoading W)
    (hfe : (p.region e).status = .FREE) (hS : ∀ c ∈ allocatedOf W, S c.2) :
    ∃ w F, (p.mergeRegions P (some s) (some e) true).1 = some F.1 ∧
      Merging S a b p (p.mergeRegions P (some s) (some e) true).2 A W C w F := by
  have hh : Holds p (A ++ W ++ C) := hc ▸ h.holds
  have ht : IsTiling a (A ++ W ++ C) b := hc ▸ h.tiling
  have hla : ∃ W' x, W = W' ++ [x] ∧ x.2.status = .FREE := by
    rcases eq_nil_or_concat W with rfl | ⟨W', x, rfl⟩
    · simp at he
    · obtain rfl : x.1 = e := by simpa using he
      refine ⟨W', x, concat_eq_append, ?_⟩
      rwa [hh.region_eq (by simp)] at hfe
  obtain ⟨n, h1, -⟩ := isTiling_append.1 ht
  obtain ⟨w, hA, hW⟩ := isTiling_append.1 h1
  have hw : 0 < w := by
    have := hA.end_eq
    omega
  have hpos : 0 < freeBytes W := by
    obtain ⟨W', x, rfl, hx⟩ := hla
    have := (hW.mem (c := x) (by simp)).2.1
    simp only [freeBytes_append, freeBytes_cons, hx, if_true]
    omega
  obtain ⟨f, hf⟩ := hh.mergeRegions_succeeds hP hW hw hs he hld hpos
  obtain ⟨r, hm⟩ := hh.mergeRegions hW hs he hld hpos hf
  have hcomp : Compacted S ⟨A ++ W ++ C, p.allocatedRegions, p.device.bytes⟩ _ :=
    merged_compacted ht hW hld hla hm.status hm.addr hm.size hm.holds.rep.nodup hS
  refine ⟨w, (f, r), hf, hm.holds.wellLinked (hcomp.tiling a b ht), ?_, hm.holds.cells_eq, hm.status, hm.size, hm.frame⟩
  rw [hh.view_eq, hm.holds.view_eq, hm.index, hm.bytes]
  exact hcomp

theorem wellFormed {q : GPUTensorPool} (h : WellLinked a b q) (hl : Layout a b q.view.cells) : WellFormed a b q := ⟨h.holds, hl⟩

end WellLinked

/-! ## The operations on well-formed pools -/

namespace WellFormed

variable {a b : Nat} {p : GPUTensorPool} {A C W : List Cell} {x : Cell}

theorem mem_of_regions (h : WellFormed a b p) {i : NodeId} : i ∈ p.regions ↔ ∃ c ∈ p.cells, c.1 = i := by
  rw [h.holds.regions_eq, mem_ids]

theorem region_eq (h : WellFormed a b p) {c : Cell} (hc : c ∈ p.cells) : p.region c.1 = c.2 := h.holds.region_eq hc

theorem of_eq (h : WellFormed a b p) {q : GPUTensorPool} (hs : q.store = p.store)
    (hm : q.memoryRegions = p.memoryRegions) : WellFormed a b q ∧ q.cells = p.cells := by
  have hq := h.holds.of_eq hs hm
  exact ⟨hq.wellFormed h.layout, hq.cells_eq⟩

theorem freeRegion (h : WellFormed a b p) (hc : p.cells = A ++ x :: C) (hx : x.2.status = .ALLOCATED) :
    WellFormed a b (p.freeRegion x.1) ∧
      (p.freeRegion x.1).view = ⟨freeCells A x C, update p.allocatedRegions x.2.fingerprint none, p.device.bytes⟩ ∧
      Frame p (p.freeRegion x.1) := by
  have hh : Holds p (A ++ x :: C) := hc ▸ h.holds
  have hl : Layout a b (A ++ x :: C) := hc ▸ h.layout
  have hq := hh.freeRegion hl.tiling hx
  have hr : p.region x.1 = x.2 := hh.region_mid
  obtain ⟨s, hs⟩ := freeRegion_eq (p := p) (i := x.1) (by rw [hr, hx])
  refine ⟨hq.wellFormed hl.freeCells, ?_, ?_⟩
  · rw [hq.view_eq, hs, hr]
  · rw [hs]
    exact ⟨rfl, rfl⟩

theorem freeRegion_evicted {E : Region → Prop} (h : WellFormed a b p) (hc : p.cells = A ++ x :: C)
    (hx : x.2.status = .ALLOCATED) (hE : E x.2) : Evicted E p.view (p.freeRegion x.1).view := by
  have hv : p.view = ⟨A ++ x :: C, p.allocatedRegions, p.device.bytes⟩ := by rw [view, hc]
  rw [hv, (h.freeRegion hc hx).2.1]
  exact .free hx hE (.refl _)

theorem cutRegion (h : WellFormed a b p) (hc : p.cells = A ++ x :: C) (hx : x.2.status = .FREE) {size : Nat} (fp : String)
    (h0 : 0 < size) (hs : size ≤ x.2.size) :
    WellFormed a b (p.cutRegion x.1 size fp).1 ∧
      (p.cutRegion x.1 size fp).1.cells = A ++ cutCells x p.store.fresh size fp x.2.modelRef ++ C ∧
      Placed size fp x.2.modelRef p.view (p.cutRegion x.1 size fp).1.view x.2.addr ∧
      Frame p (p.cutRegion x.1 size fp).1 := by
  have hh : Holds p (A ++ x :: C) := hc ▸ h.holds
  have hl : Layout a b (A ++ x :: C) := hc ▸ h.layout
  have hq := hh.cutRegion size fp hs
  obtain ⟨s, he⟩ := p.cutRegion_eq x.1 size fp
  have hfr : p.store.fresh ∉ ids (A ++ x :: C) := fun hm => Nat.lt_irrefl _ (hh.rep.lt_fresh _ hm)
  have hpl : Placed size fp x.2.modelRef p.view (p.cutRegion x.1 size fp).1.view x.2.addr := by
    rw [hq.view_eq, hh.view_eq, he]
    exact .cut hx h0 hs hfr
  refine ⟨hq.wellFormed ?_, hq.cells_eq, hpl, ?_⟩
  · have := hpl.layout (a := a) (b := b) (by rw [view_cells, hc]; exact hl)
    rwa [view_cells, hq.cells_eq] at this
  · rw [he]
    exact ⟨rfl, rfl⟩

theorem globalDeFrag {P : Platform} {S : Region → Prop} (hP : P.MovesSucceed) (h : WellFormed a b p) (h0 : 0 < a)
    (hne : p.cells ≠ []) (hS : ∀ c ∈ allocatedOf (p.cells.dropWhile fun c => c.2.status ≠ .FREE), S c.2) :
    (p.globalDeFrag P).1 = 0 ∧ WellFormed a b (p.globalDeFrag P).2 ∧ Compacted S p.view (p.globalDeFrag P).2.view ∧
      (p.globalDeFrag P).2.cells = defragCells p.store.fresh a p.cells ∧ Frame p (p.globalDeFrag P).2 := by
  have hr := h.holds.globalDeFrag_succeeds hP h.layout.tiling h.layout.noLoading h0 hne
  obtain ⟨h1, h2, h3, h4⟩ := h.holds.globalDeFrag h.layout.tiling h.layout.noLoading hne hr
  have hcomp : Compacted S ⟨p.cells, p.allocatedRegions, p.device.bytes⟩ _ := defrag_compacted h.layout hne h1.rep.nodup hS
  refine ⟨hr, h1.wellFormed (hcomp.layout a b h.layout), ?_, h1.cells_eq, h4⟩
  rw [h1.view_eq, h2, h3]
  exact hcomp

end WellFormed

theorem holds_init (base total : Nat) (cpuBandwidth : ℚ) (bytes : Nat → UInt8) :
    Holds (init base total cpuBandwidth bytes) [(0, mk' base total)] :=
  ⟨⟨⟨rfl, trivial⟩, by simp, by simp [init]⟩, rfl⟩

theorem wellFormed_init {base total : Nat} (ht : 0 < total) (cpuBandwidth : ℚ) (bytes : Nat → UInt8) :
    WellFormed base (base + total) (init base total cpuBandwidth bytes) := by
  refine (holds_init base total cpuBandwidth bytes).wellFormed ⟨⟨rfl, ht, rfl⟩, ?_, isChain_singleton _, by simp⟩
  intro c hc
  obtain rfl := mem_singleton.1 hc
  exact nofun

end ServerlessLLM
