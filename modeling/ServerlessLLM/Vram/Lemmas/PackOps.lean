import ServerlessLLM.Vram.Lemmas.StrategyOps

/-!
# Strategy 4: placing the groups of the plan

The groups of a plan are windows of the list from left to right, so merging one and filling its FREE region leaves the windows
of the other groups as they are.
-/

namespace ServerlessLLM

open Linked List Option Prod GPUTensorPool TGNeedAllocates

/-! ## The pairs of a matching -/

section Pairs

variable {P : Platform} {p : GPUTensorPool}

theorem mem_npmWeightFunc4 {reqs : List Nat} {frees : List NodeId} {i : Nat} {row : List BipartEdge} {e : BipartEdge}
    (hrow : (npmWeightFunc4 p reqs frees)[i]? = some row) (he : e ∈ row) :
    ∃ req r, reqs[i]? = some req ∧ frees[e.rightIdx]? = some r ∧ req ≤ (p.region r).size ∧
      e.weight = -((p.region r).size - req : Nat) := by
  unfold npmWeightFunc4 at hrow
  rw [getElem?_map] at hrow
  obtain ⟨req, hreq, rfl⟩ := map_eq_some_iff.1 hrow
  obtain ⟨⟨r, k⟩, hk, hek⟩ := mem_filterMap.1 he
  rw [mem_zipIdx_iff_getElem?] at hk
  dsimp only at hek hk
  split at hek
  · rename_i hle
    obtain rfl := some.inj hek
    exact ⟨req, r, hreq, hk, hle, rfl⟩
  · simp at hek

def matchingEdges (rows : List (List BipartEdge)) : List (Nat × Nat × Int) :=
  rows.zipIdx.flatMap fun e => e.1.map fun b => (e.2, rows.length + b.rightIdx, b.weight)

variable {rows : List (List BipartEdge)}

theorem mem_matchingEdges {u v : Nat} {w : Int} (h : (u, v, w) ∈ matchingEdges rows) :
    ∃ row e, rows[u]? = some row ∧ e ∈ row ∧ rows.length + e.rightIdx = v ∧ u < rows.length ∧ e.weight = w := by
  obtain ⟨⟨row, k⟩, hk, hin⟩ := mem_flatMap.1 h
  obtain ⟨e, he, heq⟩ := mem_map.1 hin
  obtain ⟨rfl, rfl, rfl⟩ : k = u ∧ rows.length + e.rightIdx = v ∧ e.weight = w := by simpa using heq
  have hget := mem_zipIdx_iff_getElem?.1 hk
  exact ⟨row, e, hget, he, rfl, (List.getElem?_eq_some_iff.1 hget).1, rfl⟩

theorem mate_spec {n u v : Nat} (h : P.maximumWeightedMatching n (matchingEdges rows) u = some v) (hlt : u < v) :
    ∃ row e, rows[u]? = some row ∧ e ∈ row ∧ rows.length + e.rightIdx = v := by
  obtain ⟨w, hw | hw⟩ := P.mate_edge _ _ _ _ h
  · obtain ⟨row, e, h1, h2, h3, -⟩ := mem_matchingEdges hw
    exact ⟨row, e, h1, h2, h3⟩
  · obtain ⟨row, e, -, -, h3, h4⟩ := mem_matchingEdges hw
    omega

theorem matching_eq (rows : List (List BipartEdge)) : ∃ n, maxWeightBMatchingWithBoost P rows =
    (range n).filterMap fun i => match P.maximumWeightedMatching n (matchingEdges rows) i with
      | some v => if i < v then some (i, v - rows.length) else none
      | none => none :=
  ⟨_, rfl⟩

theorem pair_spec {n i : Nat} {x : Nat × Nat} (h : (match P.maximumWeightedMatching n (matchingEdges rows) i with
      | some v => if i < v then some (i, v - rows.length) else none
      | none => none) = some x) :
    ∃ v, P.maximumWeightedMatching n (matchingEdges rows) i = some v ∧ i < v ∧ x = (i, v - rows.length) := by
  split at h
  · rename_i v hv
    split at h
    · rename_i hlt
      exact ⟨v, hv, hlt, (some.inj h).symm⟩
    · simp at h
  · simp at h

theorem mem_matching {x : Nat × Nat} (h : x ∈ maxWeightBMatchingWithBoost P rows) :
    ∃ row e, rows[x.1]? = some row ∧ e ∈ row ∧ e.rightIdx = x.2 := by
  obtain ⟨n, hn⟩ := matching_eq (P := P) rows
  rw [hn] at h
  obtain ⟨u, -, hu⟩ := mem_filterMap.1 h
  obtain ⟨v, hv, hlt, rfl⟩ := pair_spec hu
  obtain ⟨row, e, h1, h2, h3⟩ := mate_spec hv hlt
  exact ⟨row, e, h1, h2, by dsimp only; omega⟩

theorem matching_pairwise (rows : List (List BipartEdge)) :
    (maxWeightBMatchingWithBoost P rows).Pairwise fun x y => x.1 ≠ y.1 ∧ x.2 ≠ y.2 := by
  obtain ⟨n, hn⟩ := matching_eq (P := P) rows
  rw [hn]
  refine pairwise_filterMap.2 (pairwise_lt_range.imp fun {i j} hij x hx y hy => ?_)
  obtain ⟨v, hv, hlt, rfl⟩ := pair_spec hx
  obtain ⟨v', hv', hlt', rfl⟩ := pair_spec hy
  refine ⟨Nat.ne_of_lt hij, ?_⟩
  intro he
  obtain ⟨_, e, _, _, h3⟩ := mate_spec hv hlt
  obtain ⟨_, e', _, _, h3'⟩ := mate_spec hv' hlt'
  -- a region in both pairs would have two mates
  obtain rfl : v = v' := by
    dsimp only at he
    omega
  have h4 := P.mate_symm _ _ _ _ hv
  rw [P.mate_symm _ _ _ _ hv'] at h4
  have := some.inj h4
  omega

theorem weightedBipartiteAllocate_spec {a b : Nat} (h : WellLinked a b p) (reqs : List Nat) :
    (∀ e ∈ p.weightedBipartiteAllocate P reqs, ∃ req, reqs[e.1]? = some req ∧
        ∃ x ∈ p.cells, x.1 = e.2 ∧ x.2.status = .FREE ∧ req ≤ x.2.size) ∧
      (p.weightedBipartiteAllocate P reqs).Pairwise fun e f => e.1 ≠ f.1 ∧ e.2 ≠ f.2 := by
  have hfrees : (p.regions.filter fun i => (p.region i).status = .FREE) = ids (freeOf p.cells) :=
    h.holds.filter_regions fun r => decide (r.status = .FREE)
  have hnd : (ids (freeOf p.cells)).Nodup := h.holds.rep.nodup.sublist (List.Sublist.map _ filter_sublist)
  unfold weightedBipartiteAllocate
  rw [hfrees]
  dsimp only
  have hpair : ∀ x ∈ maxWeightBMatchingWithBoost P (npmWeightFunc4 p reqs (ids (freeOf p.cells))),
      ∃ req r, reqs[x.1]? = some req ∧ (ids (freeOf p.cells))[x.2]? = some r ∧ req ≤ (p.region r).size := by
    intro x hx
    obtain ⟨row, e, h1, h2, h3⟩ := mem_matching hx
    obtain ⟨req, r, hreq, hr, hle, -⟩ := mem_npmWeightFunc4 h1 h2
    exact ⟨req, r, hreq, h3 ▸ hr, hle⟩
  constructor
  · intro e he
    obtain ⟨x, hx, rfl⟩ := mem_map.1 he
    obtain ⟨req, r, h1, h2, h3⟩ := hpair x hx
    obtain ⟨c, hc, rfl⟩ := mem_ids.1 (mem_of_getElem? h2)
    obtain ⟨hc1, hc2⟩ := mem_freeOf.1 hc
    refine ⟨req, h1, c, hc1, ?_, hc2, ?_⟩
    · dsimp only
      rw [getD_eq_getElem?_getD, h2, getD_some]
    · rwa [h.region_eq hc1] at h3
  · rw [pairwise_map]
    refine (matching_pairwise _).imp_of_mem fun {x y} hx hy hxy => ⟨hxy.1, fun he => hxy.2 ?_⟩
    obtain ⟨-, r, -, h2, -⟩ := hpair x hx
    obtain ⟨-, r', -, h2', -⟩ := hpair y hy
    dsimp only at he
    rw [getD_eq_getElem?_getD, getD_eq_getElem?_getD, h2, h2', getD_some, getD_some] at he
    obtain ⟨hlt, e1⟩ := List.getElem?_eq_some_iff.1 h2
    obtain ⟨hlt', e2⟩ := List.getElem?_eq_some_iff.1 h2'
    exact (List.Nodup.getElem_inj_iff hnd).1 (by rw [e1, e2, he])

end Pairs

/-! ## Erasing the placed requests -/

section Erase

variable {α : Type}

theorem erase_perm {is : List Nat} {l : List α} (hd : is.Pairwise fun i j => j < i) (hlt : ∀ i ∈ is, i < l.length) :
    ((is.filterMap fun i => l[i]?) ++ is.foldl eraseIdx l).Perm l := by
  induction is generalizing l with
  | nil => simp
  | cons i is ih =>
    obtain ⟨h1, h2⟩ := pairwise_cons.1 hd
    have hi : i < l.length := hlt i (by simp)
    have hsa : (is.filterMap fun j => l[j]?) = is.filterMap fun j => (l.eraseIdx i)[j]? :=
      filterMap_congr fun j hj => (getElem?_eraseIdx_of_lt (h1 j hj)).symm
    have hrec := ih (l := l.eraseIdx i) h2 fun j hj => by
      have := h1 j hj
      rw [length_eraseIdx_of_lt hi]
      omega
    rw [filterMap_cons, getElem?_eq_getElem hi, foldl_cons]
    dsimp only
    rw [hsa, cons_append]
    exact (hrec.cons _).trans (getElem_cons_eraseIdx_perm hi)

theorem erase_sorted_perm (P : Platform) {is : List Nat} {l : List α} (hd : is.Nodup) (hlt : ∀ i ∈ is, i < l.length) :
    ((is.filterMap fun i => l[i]?) ++ (P.sortDesc id is).foldl eraseIdx l).Perm l := by
  have hpm := P.sortDesc_perm id is
  have hsort : (P.sortDesc id is).Pairwise fun i j => j < i := by
    have hne := nodup_iff_pairwise_ne.1 (hpm.nodup_iff.2 hd)
    exact ((P.sortDesc_sorted id is).and hne).imp fun h => lt_of_le_of_ne h.1 h.2.symm
  refine List.Perm.trans (List.Perm.append_right _ (hpm.symm.filterMap _)) ?_
  exact erase_perm hsort fun i hi => hlt i (hpm.subset hi)

end Erase

/-! ## Placing the matched requests -/

section Place

variable {P : Platform} {S : Region → Prop} {m : RegisteredModel} {a b : Nat}

theorem placeMatches_spec {remaining : List TGNeedAllocates} (hpos : ∀ tg ∈ remaining, 0 < tg.size) :
    ∀ (pairs : List (Nat × NodeId)) (addrs removed : List Nat) (p : GPUTensorPool), WellLinked a b p →
      (pairs.Pairwise fun e f => e.1 ≠ f.1 ∧ e.2 ≠ f.2) →
      (∀ e ∈ pairs, ∃ tg, remaining[e.1]? = some tg ∧ ∃ x ∈ p.cells, x.1 = e.2 ∧ x.2.status = .FREE ∧ tg.size ≤ x.2.size) →
      ∃ addrs' q, p.placeMatches m remaining pairs addrs removed = (true, addrs', removed ++ pairs.map fst, q) ∧
        WellLinked a b q ∧ Frame p q ∧
        Loading S m p.view addrs (pairs.filterMap fun e => remaining[e.1]?) q.view addrs' := by
  intro pairs
  induction pairs with
  | nil => exact fun addrs removed p h _ _ => ⟨addrs, p, by simp [placeMatches], h, Frame.refl p, .nil _ _⟩
  | cons e pairs ih =>
    intro addrs removed p h hpw hfit
    obtain ⟨h1, h2⟩ := pairwise_cons.1 hpw
    obtain ⟨tg, htg, x, hx, hxe, hxs, hxn⟩ := hfit e (by simp)
    obtain ⟨A, C, hc⟩ := append_of_mem hx
    have hpl := h.place (S := S) (m := m) tg hc hxs (hpos tg (mem_of_getElem? htg)) hxn
    have halloc := h.allocateFreeRegion hx hxs tg.tgIndex.fingerprint hxn
    -- the regions of the other pairs stand left or right of this one
    have hfit' : ∀ f ∈ pairs, ∃ t, remaining[f.1]? = some t ∧
        ∃ y ∈ ((p.cutRegion x.1 tg.size tg.tgIndex.fingerprint).1.setModelRef x.1 m).cells,
          y.1 = f.2 ∧ y.2.status = .FREE ∧ t.size ≤ y.2.size := by
      intro f hf
      obtain ⟨t, ht, y, hy, hyf, hys⟩ := hfit f (by simp [hf])
      refine ⟨t, ht, y, ?_, hyf, hys⟩
      have hne : y ≠ x := by
        rintro rfl
        exact (h1 f hf).2 (hxe.symm.trans hyf)
      rw [hc, mem_append, mem_cons] at hy
      rw [hpl.cells, mem_append, mem_append]
      rcases hy with hy | rfl | hy
      · exact .inl (.inl hy)
      · exact absurd rfl hne
      · exact .inr hy
    obtain ⟨addrs', q, e1, e2, e3, e4⟩ := ih (addrs.set tg.tgId x.2.addr) (removed ++ [e.1]) _ hpl.wellLinked h2 hfit'
    refine ⟨addrs', q, ?_, e2, hpl.frame.trans e3, ?_⟩
    · obtain ⟨idx, region⟩ := e
      dsimp only at hxe htg
      subst hxe
      simp only [placeMatches, htg, halloc, hpl.addr]
      rw [e1]
      simp
    · simp only [filterMap_cons, htg]
      exact (hpl.loading addrs).trans e4

theorem matchLoop_spec :
    ∀ (fuel : Nat) (remaining : List TGNeedAllocates) (addrs : List Nat) (p : GPUTensorPool), WellLinked a b p →
      (∀ tg ∈ remaining, 0 < tg.size) →
      ∃ placed left addrs' q, p.matchLoop P m fuel remaining addrs = (true, left, addrs', q) ∧
        (placed ++ left).Perm remaining ∧ WellLinked a b q ∧ Frame p q ∧ Loading S m p.view addrs placed q.view addrs' := by
  intro fuel
  induction fuel with
  | zero => exact fun remaining addrs p h _ => ⟨[], remaining, addrs, p, rfl, by simp, h, Frame.refl p, .nil _ _⟩
  | succ fuel ih =>
    intro remaining addrs p h hpos
    unfold matchLoop
    split
    · exact ⟨[], remaining, addrs, p, rfl, by simp, h, Frame.refl p, .nil _ _⟩
    dsimp only
    split
    · exact ⟨[], remaining, addrs, p, rfl, by simp, h, Frame.refl p, .nil _ _⟩
    obtain ⟨hfit, hpw⟩ := weightedBipartiteAllocate_spec (P := P) h (remaining.map size)
    generalize p.weightedBipartiteAllocate P (remaining.map size) = pairs at hfit hpw
    have hfit' : ∀ e ∈ pairs, ∃ tg, remaining[e.1]? = some tg ∧
        ∃ x ∈ p.cells, x.1 = e.2 ∧ x.2.status = .FREE ∧ tg.size ≤ x.2.size := by
      intro e he
      obtain ⟨req, hreq, hx⟩ := hfit e he
      rw [getElem?_map] at hreq
      obtain ⟨tg, htg, rfl⟩ := map_eq_some_iff.1 hreq
      exact ⟨tg, htg, hx⟩
    obtain ⟨addrs₁, q₁, e1, e2, e3, e4⟩ := placeMatches_spec (S := S) (m := m) hpos pairs addrs [] p h hpw hfit'
    rw [e1]
    dsimp only
    rw [nil_append]
    -- the indices of the pairs are distinct and in range
    have hnd : (pairs.map fst).Nodup := pairwise_map.2 (hpw.imp fun he => he.1)
    have hlt : ∀ i ∈ pairs.map fst, i < remaining.length := by
      intro i hi
      obtain ⟨e, he, rfl⟩ := mem_map.1 hi
      obtain ⟨tg, htg, -⟩ := hfit' e he
      exact (List.getElem?_eq_some_iff.1 htg).1
    have hers := erase_sorted_perm P hnd hlt
    rw [filterMap_map] at hers
    obtain ⟨placed, left, addrs₂, q₂, f1, f2, f3, f4, f5⟩ := ih _ addrs₁ q₁ e2 fun tg htg =>
      hpos tg (hers.subset (mem_append_right _ htg))
    refine ⟨_, left, addrs₂, q₂, f1, ?_, f3, e3.trans f4, e4.trans f5⟩
    rw [append_assoc]
    exact (f2.append_left _).trans hers

end Place

/-! ## Strategy 3 -/

section Strategy

variable {P : Platform} {S : Region → Prop} {m : RegisteredModel} {a b : Nat} {p : GPUTensorPool}

/-- The windows of the merge loop that follows the matching. -/
def MatchLoopOk (P : Platform) (S : Region → Prop) (m : RegisteredModel) (tgs : List TGNeedAllocates) (addrs : List Nat)
    (p : GPUTensorPool) : Prop :=
  let r := p.matchLoop P m tgs.length tgs addrs
  MergeLoopOk P S m (P.sortDesc size r.2.1) r.2.2.1 r.2.2.2

theorem WellFormed.weightedBipartiteMatchGreedyMerge (hP : P.MovesSucceed) (h : WellFormed a b p) (h0 : 0 < a)
    {tgs : List TGNeedAllocates} (addrs : List Nat) (hpos : ∀ tg ∈ tgs, 0 < tg.size)
    (hle : totalNeed tgs ≤ freeBytes p.cells) (hS : MatchLoopOk P S m tgs addrs p) :
    Placing S m a b p addrs tgs (p.weightedBipartiteMatchGreedyMerge P m tgs addrs) := by
  obtain ⟨placed, left, addrs', q, e1, e2, e3, e4, e5⟩ :=
    matchLoop_spec (P := P) (S := S) (m := m) tgs.length tgs addrs p h.wellLinked hpos
  unfold MatchLoopOk at hS
  unfold GPUTensorPool.weightedBipartiteMatchGreedyMerge
  rw [e1] at hS ⊢
  dsimp only at hS ⊢
  have hfe := e5.free
  have hsum := totalNeed_perm e2
  simp only [view_cells, totalNeed_append] at hfe hsum
  have hsort := P.sortDesc_perm size left
  have hrec := greedyMergeLoop_spec hP h0 _ addrs' q (e3.wellFormed (e5.layout h.layout))
    (fun tg ht => hpos tg (e2.subset (mem_append_right _ (hsort.subset ht))))
    (by rw [totalNeed_perm hsort]; omega) hS
  obtain ⟨tgs', hpm, hld⟩ := hrec.loading
  exact ⟨hrec.done, hrec.wellLinked, e4.trans hrec.frame, placed ++ tgs',
    ((hpm.trans hsort).append_left placed).trans e2, e5.trans hld⟩

end Strategy

section Pack

variable {P : Platform} {S : Region → Prop} {m : RegisteredModel} {a b : Nat}

theorem GPUTensorPool.cutRegion_rest (p : GPUTensorPool) (i : NodeId) (size : Nat) (fp : String) :
    (p.cutRegion i size fp).2 = if size < (p.region i).size then some p.store.fresh else none := by
  unfold cutRegion splitOff
  dsimp only
  split <;> rfl

theorem WellLinked.allocateNewRegion {p : GPUTensorPool} {x : Cell} (h : WellLinked a b p) (hx : x ∈ p.cells)
    (hf : x.2.status = .FREE) {size : Nat} (fp : String) (hs : size ≤ x.2.size) :
    p.allocateNewRegion x.1 size fp =
      (some x.1, if size < x.2.size then some p.store.fresh else none, (p.cutRegion x.1 size fp).1) := by
  have hr := h.region_eq hx
  unfold GPUTensorPool.allocateNewRegion
  rw [if_neg, ← hr, ← p.cutRegion_rest x.1 size fp]
  rw [hr, hf]
  simp only [ne_eq, not_true_eq_false, false_or]
  omega

theorem totalNeed_eq_zero {tgs : List TGNeedAllocates} (hpos : ∀ tg ∈ tgs, 0 < tg.size) (h : totalNeed tgs = 0) : tgs = [] := by
  cases tgs with
  | nil => rfl
  | cons tg tgs =>
    have := hpos tg (by simp)
    rw [totalNeed_cons] at h
    omega

theorem packGroup_spec {R : List Cell} :
    ∀ (tgs : List TGNeedAllocates) (F : Cell) (D : List Cell) (addrs : List Nat) (p : GPUTensorPool), WellLinked a b p →
      p.cells = D ++ F :: R → F.2.status = .FREE → (∀ tg ∈ tgs, 0 < tg.size) → totalNeed tgs ≤ F.2.size →
      ∃ D' addrs' q, p.packGroup m tgs (some F.1) addrs = (.done, addrs', q) ∧ WellLinked a b q ∧ Frame p q ∧
        q.cells = D' ++ R ∧ Loading S m p.view addrs tgs q.view addrs' := by
  intro tgs
  induction tgs with
  | nil =>
    intro F D addrs p h hc _ _ _
    exact ⟨D ++ [F], addrs, p, rfl, h, Frame.refl p, by simp [hc], .nil _ _⟩
  | cons tg tgs ih =>
    intro F D addrs p h hc hF hpos hle
    rw [totalNeed_cons] at hle
    have hpos' : ∀ t ∈ tgs, 0 < t.size := fun t ht => hpos t (by simp [ht])
    have hpl := h.place (S := S) (m := m) tg hc hF (hpos tg (by simp)) (by omega)
    have halloc := h.allocateNewRegion (x := F) (by simp [hc]) hF tg.tgIndex.fingerprint (show tg.size ≤ F.2.size by omega)
    have heq : p.packGroup m (tg :: tgs) (some F.1) addrs =
        ((p.cutRegion F.1 tg.size tg.tgIndex.fingerprint).1.setModelRef F.1 m).packGroup m tgs
          (if tg.size < F.2.size then some p.store.fresh else none) (addrs.set tg.tgId F.2.addr) := by
      simp only [packGroup, halloc, hpl.addr]
    rw [heq]
    have hcls := hpl.cells
    rw [cutCells] at hcls
    by_cases hlt : tg.size < F.2.size
    · -- there is a rest, and the other requests go there
      simp only [hlt, if_true, append_assoc, cons_append, nil_append] at hcls ⊢
      obtain ⟨D', addrs', q, e1, e2, e3, e4, e5⟩ := ih (p.store.fresh, Region.mk' (F.2.addr + tg.size) (F.2.size - tg.size))
        (D ++ [_]) (addrs.set tg.tgId F.2.addr) _ hpl.wellLinked (hcls.trans (append_cons _ _ _)) rfl hpos'
        (by simp only [Region.mk']; omega)
      exact ⟨D', addrs', q, e1, e2, hpl.frame.trans e3, e4, (hpl.loading addrs).trans e5⟩
    · -- the region is full, and no request is left
      obtain rfl : tgs = [] := totalNeed_eq_zero hpos' (by omega)
      simp only [hlt, if_false, append_assoc, cons_append, nil_append] at hcls ⊢
      exact ⟨_, _, _, rfl, hpl.wellLinked, hpl.frame, by rw [hcls, append_cons], hpl.loading addrs⟩

/-- The stretch of a list that a group stands for may be merged. -/
def GroupOk (S : Region → Prop) (l : List Cell) (g : RegionAllocateGroup) : Prop :=
  ∀ A W C, l = A ++ W ++ C → g.start = first W → g.stop = last W → NoLoading W ∧ ∀ c ∈ allocatedOf W, S c.2

variable {l : List Cell} {g : RegionAllocateGroup} {gs : List RegionAllocateGroup}

theorem GroupOk.tail {l' : List Cell} (h : GroupOk S (l ++ l') g) : GroupOk S l' g := by
  intro A W C hc hs he
  exact h (l ++ A) W C (by rw [hc]; simp) hs he

theorem Groups.mem (h : Groups l gs) (hg : g ∈ gs) : ∃ A W C, l = A ++ W ++ C ∧ g.start = first W ∧ g.stop = last W := by
  induction h with
  | nil hG => simp at hg
  | @cons G W R g' gs hG hW hs he hn h ih =>
    rcases mem_cons.1 hg with rfl | hg
    · exact ⟨G, W, R, rfl, hs, he⟩
    · obtain ⟨A, W', C, rfl, h1, h2⟩ := ih hg
      exact ⟨G ++ W ++ A, W', C, by simp, h1, h2⟩

theorem packGroups_spec (hP : P.MovesSucceed) (h0 : 0 < a) (hg : Groups l gs) :
    ∀ (D : List Cell) (addrs : List Nat) (p : GPUTensorPool), WellLinked a b p → p.cells = D ++ l →
      (∀ tg ∈ requestsOf gs, 0 < tg.size) → (∀ g ∈ gs, GroupOk S l g) →
      Placing S m a b p addrs (requestsOf gs) (p.packGroups P m gs addrs) := by
  induction hg with
  | nil hG => exact fun D addrs p h _ _ _ => .nil h
  | @cons G W R g gs hG hW hs he hn hg ih =>
    intro D addrs p h hc hpos hok
    obtain ⟨s, hs'⟩ := hW.first_eq
    obtain ⟨e, he'⟩ := hW.last_eq
    obtain ⟨hld, hSW⟩ := hok g (by simp) G W R rfl hs he
    have hc' : p.cells = (D ++ G) ++ W ++ R := by rw [hc]; simp
    have hfe : (p.region e).status = .FREE := by
      obtain ⟨c, hcl, hcs⟩ := hW.lastFree
      obtain rfl : c.1 = e := by simpa [last, hcl] using he'
      rw [h.region_eq (by rw [hc']; simp [mem_of_getLast? hcl]), hcs]
    obtain ⟨w, F, e1, e2⟩ := h.mergeRegions hP h0 hc' hs' he' hld hfe hSW
    obtain ⟨D', addrs', q, f1, f2, f3, f4, f5⟩ := packGroup_spec (S := S) (m := m) (R := R) g.tgToLoads F
      (D ++ G ++ slideCells w (allocatedOf W)) addrs _ e2.wellLinked (by rw [e2.cells]; simp) e2.status
      (fun tg htg => hpos tg (by simp [htg])) (by rw [e2.size]; exact hn)
    have hrec := ih D' addrs' q f2 f4 (fun tg htg => hpos tg (by simp [htg])) fun g' hg' => (hok g' (by simp [hg'])).tail
    have heq : p.packGroups P m (g :: gs) addrs = q.packGroups P m gs addrs' := by
      rcases hr : p.mergeRegions P (some s) (some e) true with ⟨merged, p'⟩
      rw [hr] at e1 f1
      obtain rfl : merged = some F.1 := e1
      simp only [packGroups, hs, he, hs', he', hr]
      rw [f1]
    rw [heq, requestsOf_cons]
    obtain ⟨tgs', hpm, hloadq⟩ := hrec.loading
    exact ⟨hrec.done, hrec.wellLinked, (e2.frame.trans f3).trans hrec.frame, g.tgToLoads ++ tgs', hpm.append_left _,
      .compact e2.compacted (f5.trans hloadq)⟩

/-- A region in the range of a group that the planner makes for the requests. -/
def Planned (P : Platform) (tgs : List TGNeedAllocates) (p : GPUTensorPool) (r : Region) : Prop :=
  ∃ gs, p.recursiveSplitAllocate P tgs = some gs ∧ ∃ g ∈ gs, ∃ s e, g.start = some s ∧ g.stop = some e ∧
    ∃ i ∈ p.regionsUntil (some s) (p.next e), p.region i = r

theorem groupOk_of_planned {p : GPUTensorPool} {tgs : List TGNeedAllocates}
    (hw : WellLinked a b p) (hgs : p.recursiveSplitAllocate P tgs = some gs)
    (hl : ∀ r, Planned P tgs p r → r.status ≠ .LOADING) (hS : ∀ r, Planned P tgs p r → r.status = .ALLOCATED → S r)
    (hg : g ∈ gs) : GroupOk S p.cells g := by
  intro A W C hc hs he
  cases W with
  | nil => exact ⟨by simp [NoLoading], by simp⟩
  | cons x W =>
    obtain ⟨e, he'⟩ : ∃ e, last (x :: W) = some e := by
      rw [last_cons]
      cases last W <;> simp
    have hh : Holds p (A ++ (x :: W) ++ C) := hc ▸ hw.holds
    obtain ⟨-, h2, h3⟩ := hh.window rfl he'
    have hpl : ∀ c ∈ x :: W, Planned P tgs p c.2 := by
      intro c hcW
      have hr : p.region c.1 = c.2 := hh.region_eq (by simp only [mem_append]; exact .inl (.inr hcW))
      exact ⟨gs, hgs, g, hg, x.1, e, hs, he.trans he', c.1, by rw [h2, h3]; exact mem_ids_of_mem hcW, hr⟩
    refine ⟨fun c hcW => hl _ (hpl c hcW), ?_⟩
    intro c hcW
    obtain ⟨h4, h5⟩ := mem_allocatedOf.1 hcW
    exact hS _ (hpl c h4) h5

theorem WellLinked.partitionedBinPacking {p : GPUTensorPool} (hP : P.MovesSucceed) (h : WellLinked a b p) (h0 : 0 < a)
    {tgs : List TGNeedAllocates} (addrs : List Nat) (hne : tgs ≠ []) (hpos : ∀ tg ∈ tgs, 0 < tg.size)
    (hle : totalNeed tgs ≤ freeBytes p.cells) (hl : ∀ r, Planned P tgs p r → r.status ≠ .LOADING)
    (hS : ∀ r, Planned P tgs p r → r.status = .ALLOCATED → S r) :
    Placing S m a b p addrs tgs (p.partitionedBinPacking P m tgs addrs) := by
  obtain ⟨gs, hgs, hg, hpm⟩ := h.holds.recursiveSplitAllocate (P := P) hne hpos hle
  have hpack := packGroups_spec (S := S) (m := m) hP h0 hg [] addrs p h rfl (fun tg htg => hpos tg (hpm.subset htg))
    fun g hg' => groupOk_of_planned h hgs hl hS hg'
  unfold GPUTensorPool.partitionedBinPacking
  rw [hgs]
  obtain ⟨tgs', hp, hld⟩ := hpack.loading
  exact ⟨hpack.done, hpack.wellLinked, hpack.frame, tgs', hp.trans hpm, hld⟩

theorem Planned.mem {p : GPUTensorPool} {tgs : List TGNeedAllocates} {r : Region} (hw : WellLinked a b p) (hne : tgs ≠ [])
    (hpos : ∀ tg ∈ tgs, 0 < tg.size) (hle : totalNeed tgs ≤ freeBytes p.cells) (h : Planned P tgs p r) :
    ∃ c ∈ p.cells, c.2 = r := by
  obtain ⟨gs, hgs, g, hg, s, e, hs, he, i, hi, rfl⟩ := h
  obtain ⟨gs', hgs', hgr, -⟩ := hw.holds.recursiveSplitAllocate (P := P) hne hpos hle
  obtain rfl : gs' = gs := some.inj (hgs'.symm.trans hgs)
  obtain ⟨A, W, C, hc, hfs, hls⟩ := hgr.mem hg
  have hh : Holds p (A ++ W ++ C) := hc ▸ hw.holds
  obtain ⟨-, h2, h3⟩ := hh.window (hfs ▸ hs) (hls ▸ he)
  rw [h2, h3] at hi
  obtain ⟨c, hcW, rfl⟩ := mem_ids.1 hi
  have hmem : c ∈ p.cells := by
    rw [hc]
    simp [hcW]
  exact ⟨c, hmem, (hw.region_eq hmem).symm⟩

end Pack

end ServerlessLLM
