import ServerlessLLM.Library.Sorting
import ServerlessLLM.Vram.Lemmas.PackOps
import ServerlessLLM.Vram.Runs
import Mathlib.Data.Int.LeastGreatest

/-!
# The weighted matching phase

The weight of an edge is the number of bytes that the request leaves over, negated, and the solver looks for the largest total.
-/

namespace ServerlessLLM

open List Option GPUTensorPool

/-! ## Matchings of maximum weight -/

/-- No two edges join the same vertices, and none is a loop. -/
def SimpleEdges (es : List (Nat × Nat × Int)) : Prop :=
  (∀ e ∈ es, e.1 ≠ e.2.1) ∧ es.Pairwise fun e f => ¬(e.1 = f.1 ∧ e.2.1 = f.2.1) ∧ ¬(e.1 = f.2.1 ∧ e.2.1 = f.1)

/-- The mates are a matching of the edges. -/
structure IsMatching (es : List (Nat × Nat × Int)) (mate : Nat → Option Nat) : Prop where
  symm : ∀ u v, mate u = some v → mate v = some u
  edge : ∀ u v, mate u = some v → ∃ w, (u, v, w) ∈ es ∨ (v, u, w) ∈ es

/-- The edges that join mates. -/
def matchedEdges (es : List (Nat × Nat × Int)) (mate : Nat → Option Nat) : List (Nat × Nat × Int) :=
  es.filter fun e => mate e.1 = some e.2.1

def matchingWeight (es : List (Nat × Nat × Int)) (mate : Nat → Option Nat) : Int :=
    ((matchedEdges es mate).map fun e => e.2.2).sum

/-- `boost::maximum_weighted_matching` returns a matching of maximum total weight. -/
def Platform.MaximumWeight (P : Platform) : Prop :=
  ∀ n es, SimpleEdges es → ∀ mate, IsMatching es mate →
    matchingWeight es mate ≤ matchingWeight es (P.maximumWeightedMatching n es)

variable (es : List (Nat × Nat × Int))

theorem isMatching_empty : IsMatching es fun _ => none := ⟨by simp, by simp⟩

theorem matchingWeight_empty : matchingWeight es (fun _ => none) = 0 := by
  simp [matchingWeight, matchedEdges]

theorem sum_weights_nonpos {es : List (Nat × Nat × Int)} (hes : ∀ e ∈ es, e.2.2 ≤ 0) : (es.map fun e => e.2.2).sum ≤ 0 := by
  induction es with
  | nil => simp
  | cons e es ih =>
    have he := hes e mem_cons_self
    have := ih fun f hf => hes f (mem_cons_of_mem _ hf)
    simp only [map_cons, sum_cons]
    omega

theorem weight_eq_zero {es : List (Nat × Nat × Int)} (hes : ∀ e ∈ es, e.2.2 ≤ 0) {mate : Nat → Option Nat}
    (h : 0 ≤ matchingWeight es mate) : ∀ e ∈ matchedEdges es mate, e.2.2 = 0 := by
  intro e he
  obtain ⟨a, b, hab⟩ := append_of_mem he
  have hmem : ∀ f ∈ a ++ e :: b, f.2.2 ≤ 0 := fun f hf => hes f (mem_of_mem_filter (hab ▸ hf))
  have ha := sum_weights_nonpos fun f hf => hmem f (mem_append_left _ hf)
  have hb := sum_weights_nonpos fun f hf => hmem f (mem_append_right _ (mem_cons_of_mem _ hf))
  have hle := hes e (mem_of_mem_filter he)
  simp only [matchingWeight, hab, map_append, map_cons, sum_append, sum_cons] at h
  omega

theorem matchingWeight_le (mate : Nat → Option Nat) : matchingWeight es mate ≤ (es.map fun e => max e.2.2 0).sum := by
  unfold matchingWeight matchedEdges
  induction es with
  | nil => simp
  | cons e es ih =>
    by_cases he : mate e.1 = some e.2.1
    · simp only [he, decide_true, filter_cons_of_pos, map_cons, sum_cons]
      omega
    · simp only [he, decide_false, Bool.false_eq_true, not_false_eq_true, filter_cons_of_neg, map_cons, sum_cons]
      omega

theorem exists_best :
    ∃ mate, IsMatching es mate ∧ (∀ mate', IsMatching es mate' → matchingWeight es mate' ≤ matchingWeight es mate) ∧
      ((∀ e ∈ es, e.2.2 ≤ 0) → mate = fun _ => none) := by
  by_cases hes : ∀ e ∈ es, e.2.2 ≤ 0
  · refine ⟨_, isMatching_empty es, ?_, fun _ => rfl⟩
    intro mate' _
    rw [matchingWeight_empty]
    exact sum_weights_nonpos fun f hf => hes f (mem_of_mem_filter hf)
  · have hbd : ∀ z, (∃ mate, IsMatching es mate ∧ matchingWeight es mate = z) → z ≤ (es.map fun e => max e.2.2 0).sum := by
      rintro z ⟨mate, -, rfl⟩
      exact matchingWeight_le es mate
    obtain ⟨z, ⟨mate, hmate, rfl⟩, hmax⟩ :=
      Int.exists_greatest_of_bdd ⟨_, hbd⟩ ⟨0, _, isMatching_empty es, matchingWeight_empty es⟩
    exact ⟨mate, hmate, fun mate' h => hmax _ ⟨mate', h, rfl⟩, fun h => absurd h hes⟩

theorem exists_maximumWeight :
    ∃ P : Platform, P.MaximumWeight ∧ ∀ n es, (∀ e ∈ es, e.2.2 ≤ 0) → P.maximumWeightedMatching n es = fun _ => none := by
  choose best hmatching hb hemp using exists_best
  refine ⟨{ Platform.reliable with
    maximumWeightedMatching := fun _ es => best es
    mate_symm := fun _ es => (hmatching es).symm
    mate_edge := fun _ es => (hmatching es).edge }, ?_, fun _ es => hemp es⟩
  intro _ es _ mate hmate
  exact hb es mate hmate

/-! ## The graph of the requests and the FREE regions -/

section Graph

variable {p : GPUTensorPool} {reqs : List Nat} {frees : List NodeId}

theorem npmWeightFunc4_pairwise {row : List BipartEdge} (hrow : row ∈ npmWeightFunc4 p reqs frees) :
    row.Pairwise fun e f => e.rightIdx ≠ f.rightIdx := by
  obtain ⟨req, -, rfl⟩ := mem_map.1 hrow
  refine pairwise_filterMap.2 ?_
  refine (Sorting.pairwise_zipIdx frees).imp ?_
  intro a b hab e he f hf
  split at he
  · split at hf
    · rw [← some.inj he, ← some.inj hf]
      exact hab.ne
    · simp at hf
  · simp at he

theorem simpleEdges_npm : SimpleEdges (matchingEdges (npmWeightFunc4 p reqs frees)) := by
  generalize hrows : npmWeightFunc4 p reqs frees = rows
  have hmem : ∀ e ∈ matchingEdges rows, e.1 < rows.length ∧ rows.length ≤ e.2.1 := by
    rintro ⟨u, v, w⟩ he
    obtain ⟨row, b, -, -, hv, hu, -⟩ := mem_matchingEdges he
    exact ⟨hu, by simp only; omega⟩
  refine ⟨fun e he => ((hmem e he).1.trans_le (hmem e he).2).ne, ?_⟩
  have hpair : (matchingEdges rows).Pairwise fun e f => ¬(e.1 = f.1 ∧ e.2.1 = f.2.1) := by
    unfold matchingEdges
    rw [pairwise_flatMap]
    constructor
    · rintro ⟨row, i⟩ hrow
      have hrow' : row ∈ rows := mem_of_getElem? (mem_zipIdx_iff_getElem?.1 hrow)
      rw [pairwise_map]
      refine (npmWeightFunc4_pairwise (hrows ▸ hrow')).imp ?_
      intro e f hne heq
      exact hne (by simpa using heq.2)
    · refine (Sorting.pairwise_zipIdx rows).imp ?_
      intro a b hab x hx y hy heq
      obtain ⟨e, -, rfl⟩ := mem_map.1 hx
      obtain ⟨f, -, rfl⟩ := mem_map.1 hy
      exact hab.ne heq.1
  refine hpair.imp_of_mem ?_
  intro e f he hf hne
  refine ⟨hne, ?_⟩
  rintro ⟨h1, h2⟩
  obtain ⟨he1, he2⟩ := hmem e he
  obtain ⟨hf1, hf2⟩ := hmem f hf
  omega

theorem weight_nonpos : ∀ e ∈ matchingEdges (npmWeightFunc4 p reqs frees), e.2.2 ≤ 0 := by
  rintro ⟨u, v, w⟩ he
  obtain ⟨row, b, hrow, hb, -, -, rfl⟩ := mem_matchingEdges he
  obtain ⟨req, r, -, -, -, hw⟩ := mem_npmWeightFunc4 hrow hb
  dsimp only
  omega

end Graph

/-! ## What is placed -/

variable {p : GPUTensorPool} {toAllocates : List Nat}

theorem weightedBipartiteAllocate_exact {P : Platform} (hP : P.MaximumWeight) :
    ∀ e ∈ p.weightedBipartiteAllocate P toAllocates, toAllocates[e.1]? = some (p.region e.2).size ∧
      e.2 ∈ p.regions ∧ (p.region e.2).status = .FREE := by
  unfold weightedBipartiteAllocate
  dsimp only
  generalize hfrees : (p.regions.filter fun i => (p.region i).status = .FREE) = frees
  intro e he
  obtain ⟨x, hx, rfl⟩ := mem_map.1 he
  generalize hrows : npmWeightFunc4 p toAllocates frees = rows at hx
  obtain ⟨n, hn⟩ := matching_eq (P := P) rows
  rw [hn] at hx
  obtain ⟨u, -, hu⟩ := mem_filterMap.1 hx
  obtain ⟨v, hv, hlt, rfl⟩ := pair_spec hu
  -- the edge of the pair is one of the matched edges, which weigh nothing
  have hzero : ∀ e ∈ matchedEdges (matchingEdges rows) (P.maximumWeightedMatching n (matchingEdges rows)), e.2.2 = 0 := by
    refine weight_eq_zero (hrows ▸ weight_nonpos) ?_
    rw [← matchingWeight_empty (matchingEdges rows)]
    exact hP n _ (hrows ▸ simpleEdges_npm) _ (isMatching_empty _)
  obtain ⟨w, hw⟩ : ∃ w, (u, v, w) ∈ matchingEdges rows := by
    obtain ⟨w, hw | hw⟩ := P.mate_edge _ _ _ _ hv
    · exact ⟨w, hw⟩
    · obtain ⟨_, _, _, _, h3, h4⟩ := mem_matchingEdges hw
      omega
  have hw0 : w = 0 := hzero (u, v, w) (mem_filter.2 ⟨hw, by simp [hv]⟩)
  obtain ⟨row, b, hrow, hb, rfl, -, rfl⟩ := mem_matchingEdges hw
  obtain ⟨req, r, hreq, hr, hle, hweight⟩ := mem_npmWeightFunc4 (hrows ▸ hrow) hb
  have hidx : rows.length + b.rightIdx - rows.length = b.rightIdx := by omega
  have hget : frees.getD (rows.length + b.rightIdx - rows.length) 0 = r := by
    rw [hidx, List.getD_eq_getElem?_getD, hr, getD_some]
  have hmem : r ∈ frees := mem_of_getElem? hr
  rw [← hfrees, mem_filter] at hmem
  dsimp only
  rw [hget]
  refine ⟨?_, hmem.1, by simpa using hmem.2⟩
  rw [hreq]
  congr 1
  omega

theorem weightedBipartiteAllocate_eq_nil {P : Platform}
    (h : ∀ n es, (∀ e ∈ es, e.2.2 ≤ 0) → P.maximumWeightedMatching n es = fun _ => none) :
    p.weightedBipartiteAllocate P toAllocates = [] := by
  unfold weightedBipartiteAllocate
  dsimp only
  generalize hrows : npmWeightFunc4 p toAllocates (p.regions.filter fun i => (p.region i).status = .FREE) = rows
  obtain ⟨n, hn⟩ := matching_eq (P := P) rows
  rw [hn, h n _ (hrows ▸ weight_nonpos)]
  simp

def PlacesSomething (p : GPUTensorPool) (toAllocates : List Nat) : Prop :=
  ∀ P : Platform, P.MaximumWeight → p.weightedBipartiteAllocate P toAllocates ≠ []

/-- For every pool and all requests there is a solver of maximum weight with which nothing is placed, and with any such solver
only regions of exactly the size of a request are used. -/
theorem weightedBipartiteAllocate_misses (p : GPUTensorPool) (toAllocates : List Nat) :
    ¬PlacesSomething p toAllocates ∧
      ∀ P : Platform, P.MaximumWeight → ∀ e ∈ p.weightedBipartiteAllocate P toAllocates,
        toAllocates[e.1]? = some (p.region e.2).size := by
  refine ⟨?_, fun P hP e he => (weightedBipartiteAllocate_exact hP e he).1⟩
  intro h
  obtain ⟨P, hP, hemp⟩ := exists_maximumWeight
  exact h P hP (weightedBipartiteAllocate_eq_nil hemp)

def twoBytes : GPUTensorPool := .init 1 2 1 fun _ => 0

/-- A request of one byte fits the FREE region, and no solver of maximum weight places it there. -/
theorem weightedBipartiteAllocate_fits_and_misses :
    (∃ r ∈ twoBytes.regions, (twoBytes.region r).status = .FREE ∧ 1 ≤ (twoBytes.region r).size) ∧
      (∃ P : Platform, P.MaximumWeight) ∧
      ∀ P : Platform, P.MaximumWeight → twoBytes.weightedBipartiteAllocate P [1] = [] := by
  refine ⟨by decide, ⟨_, exists_maximumWeight.choose_spec.1⟩, ?_⟩
  intro P hP
  refine eq_nil_iff_forall_not_mem.2 fun e he => ?_
  obtain ⟨hsz, hmem, -⟩ := weightedBipartiteAllocate_exact hP e he
  have htwo : ∀ r ∈ twoBytes.regions, (twoBytes.region r).size = 2 := by decide
  rw [htwo _ hmem] at hsz
  have := mem_of_getElem? hsz
  simp at this

end ServerlessLLM
