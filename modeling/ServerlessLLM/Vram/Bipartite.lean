import ServerlessLLM.Library.Matching
import ServerlessLLM.Library.Sorting
import ServerlessLLM.Vram.Pool

/-!
# The bipartite allocation

`BipartiteAllocate` of `GPUTensorPool_v1`: requests are matched with the FREE regions they fit in. The recursion `dfs` of the
source is the search of `Library.Matching`, with the array `match` as the owners; it never goes deeper than there are FREE
regions.
-/

namespace ServerlessLLM

open List

namespace GPUTensorPool

def freeRegions (p : GPUTensorPool) : List NodeId := p.regions.filter fun i => (p.region i).status = .FREE

/-- `adj[u]`: the positions of the FREE regions that request `u` fits in. -/
def adjacent (p : GPUTensorPool) (toAllocates : List Nat) (u : Nat) : List Nat :=
  match toAllocates[u]? with
  | none => []
  | some req => (p.freeRegions.zipIdx.filter fun e => req ≤ (p.region e.1).size).map Prod.snd

/-- The pairs of a request and its region, in the order of the regions. -/
def bipartiteAllocate (p : GPUTensorPool) (toAllocates : List Nat) : List (Nat × NodeId) :=
  let owner := Matching.searchAll (p.adjacent toAllocates) (p.freeRegions.length + 1) (range toAllocates.length) fun _ => none
  p.freeRegions.zipIdx.filterMap fun e => (owner e.2).map fun u => (u, e.1)

end GPUTensorPool

/-! ## The result is a maximum matching -/

/-- Requests with FREE regions they fit in, each request and each region at most once. -/
structure Assigns (p : GPUTensorPool) (toAllocates : List Nat) (pairs : List (Nat × NodeId)) : Prop where
  requests : (pairs.map Prod.fst).Nodup
  regions : (pairs.map Prod.snd).Nodup
  fits : ∀ e ∈ pairs, ∃ req, toAllocates[e.1]? = some req ∧ e.2 ∈ p.regions ∧ (p.region e.2).status = .FREE ∧
    req ≤ (p.region e.2).size

namespace GPUTensorPool

variable {p : GPUTensorPool} {toAllocates : List Nat}

theorem mem_freeRegions {i : NodeId} : i ∈ p.freeRegions ↔ i ∈ p.regions ∧ (p.region i).status = .FREE := by simp [freeRegions]

theorem mem_adjacent {u j : Nat} : j ∈ p.adjacent toAllocates u ↔
    ∃ req i, toAllocates[u]? = some req ∧ p.freeRegions[j]? = some i ∧ req ≤ (p.region i).size := by
  unfold adjacent
  cases toAllocates[u]? with
  | none => simp
  | some req => simp [mem_zipIdx_iff_getElem?]

theorem adjacent_lt {u : Nat} : ∀ j ∈ p.adjacent toAllocates u, j ∈ Finset.range p.freeRegions.length := by
  intro j hj
  obtain ⟨-, i, -, hi, -⟩ := mem_adjacent.1 hj
  exact Finset.mem_range.2 (List.getElem?_eq_some_iff.1 hi).1

theorem owners_matched (p : GPUTensorPool) (toAllocates : List Nat) :
    Matching.Matched (p.adjacent toAllocates) (range toAllocates.length)
      (Matching.searchAll (p.adjacent toAllocates) (p.freeRegions.length + 1) (range toAllocates.length) fun _ => none) :=
  Matching.searchAll_matched (R := Finset.range p.freeRegions.length) (fun _ => adjacent_lt) (by simp) nodup_range

theorem length_filterMap_owner {β : Type} (l : List β) (owner : Nat → Option Nat) :
    (l.zipIdx.filterMap fun e => (owner e.2).map fun u => (u, e.1)).length =
      ((range l.length).filter fun j => (owner j).isSome).length := by
  rw [length_filterMap_eq_countP, ← countP_eq_length_filter, range_eq_range', ← zipIdx_map_snd, countP_map]
  refine countP_congr fun e _ => ?_
  simp

theorem bipartiteAllocate_assigns (hnd : p.regions.Nodup) : Assigns p toAllocates (p.bipartiteAllocate toAllocates) := by
  have h := owners_matched p toAllocates
  unfold bipartiteAllocate
  generalize Matching.searchAll (p.adjacent toAllocates) (p.freeRegions.length + 1) (range toAllocates.length)
    (fun _ => none) = owner at h
  have hfst : (p.freeRegions.zipIdx.map Prod.fst).Nodup := by
    rw [zipIdx_map_fst]
    exact hnd.filter _
  refine ⟨?_, ?_, ?_⟩
  · rw [List.Nodup, pairwise_map, pairwise_filterMap]
    refine (Sorting.pairwise_zipIdx p.freeRegions).imp ?_
    intro a b hab x hx y hy heq
    obtain ⟨u, hu, rfl⟩ := Option.map_eq_some_iff.1 hx
    obtain ⟨v, hv, rfl⟩ := Option.map_eq_some_iff.1 hy
    obtain rfl : u = v := heq
    exact hab.ne (h.inj _ _ u hu hv)
  · rw [List.Nodup, pairwise_map, pairwise_filterMap]
    refine (pairwise_map.1 hfst).imp ?_
    intro a b hab x hx y hy heq
    obtain ⟨u, -, rfl⟩ := Option.map_eq_some_iff.1 hx
    obtain ⟨v, -, rfl⟩ := Option.map_eq_some_iff.1 hy
    exact hab heq
  · intro e he
    obtain ⟨⟨i, j⟩, hij, hown⟩ := mem_filterMap.1 he
    obtain ⟨u, hu, rfl⟩ := Option.map_eq_some_iff.1 hown
    obtain ⟨req, i', hreq, hi', hle⟩ := mem_adjacent.1 (h.edges j u hu)
    have hi := mem_zipIdx_iff_getElem?.1 hij
    obtain rfl : i = i' := Option.some.inj (hi.symm.trans hi')
    obtain ⟨hmem, hfe⟩ := mem_freeRegions.1 (mem_of_getElem? hi)
    exact ⟨req, hreq, hmem, hfe, hle⟩

/-- For every region list and all request sizes, `BipartiteAllocate` assigns as many requests as can be assigned. -/
theorem bipartiteAllocate_maximum (p : GPUTensorPool) (hnd : p.regions.Nodup) (toAllocates : List Nat) :
    Assigns p toAllocates (p.bipartiteAllocate toAllocates) ∧
      ∀ pairs, Assigns p toAllocates pairs → pairs.length ≤ (p.bipartiteAllocate toAllocates).length := by
  refine ⟨bipartiteAllocate_assigns hnd, ?_⟩
  intro pairs hpairs
  have h := owners_matched p toAllocates
  unfold bipartiteAllocate
  rw [length_filterMap_owner]
  -- a region is its position among the FREE ones
  have hfe : ∀ e ∈ pairs, e.2 ∈ p.freeRegions := by
    intro e he
    obtain ⟨-, -, hmem, hsts, -⟩ := hpairs.fits e he
    exact mem_freeRegions.2 ⟨hmem, hsts⟩
  have hleft : ((pairs.map fun e => (e.1, p.freeRegions.idxOf e.2)).map Prod.fst).Nodup := by
    simpa [Function.comp_def] using hpairs.requests
  have hright : ((pairs.map fun e => (e.1, p.freeRegions.idxOf e.2)).map Prod.snd).Nodup := by
    have hinj := hpairs.regions
    rw [map_map, List.Nodup, pairwise_map]
    refine (pairwise_map.1 hinj).imp_of_mem ?_
    intro e f he hf hne heq
    exact hne ((idxOf_inj (hfe e he)).1 heq)
  have hle := h.length_le (r := range p.freeRegions.length) ?_ hleft hright ?_
  · simpa using hle
  · intro v hv
    obtain ⟨u, hu⟩ := Option.isSome_iff_exists.1 hv
    exact mem_range.2 (Finset.mem_range.1 (adjacent_lt v (h.edges v u hu)))
  · intro e he
    obtain ⟨f, hf, rfl⟩ := mem_map.1 he
    obtain ⟨req, hreq, -, -, hsz⟩ := hpairs.fits f hf
    refine ⟨mem_range.2 (List.getElem?_eq_some_iff.1 hreq).1, mem_adjacent.2 ⟨req, f.2, hreq, ?_, hsz⟩⟩
    exact getElem?_idxOf (hfe f hf)

/-- Two FREE regions of four and two bytes, around an ALLOCATED one. -/
def gapped : GPUTensorPool :=
  let p := (GPUTensorPool.init 1 8 1 fun _ => 0)
  let p := (p.allocateRegionFromList 4 "a").2
  let p := (p.allocateRegionFromList 2 "b").2
  p.freeRegion 0

theorem bipartiteAllocate_maximum_gapped :
    gapped.regions.Nodup ∧ Assigns gapped [1, 3] (gapped.bipartiteAllocate [1, 3]) ∧
      ∀ pairs, Assigns gapped [1, 3] pairs → pairs.length ≤ (gapped.bipartiteAllocate [1, 3]).length := by
  have hnd : gapped.regions.Nodup := by decide
  exact ⟨hnd, bipartiteAllocate_maximum gapped hnd [1, 3]⟩

/-- The first request takes the large region and gives it up for the second one. -/
example : gapped.bipartiteAllocate [1, 3] = [(1, 0), (0, 2)] := by decide

end GPUTensorPool

end ServerlessLLM
