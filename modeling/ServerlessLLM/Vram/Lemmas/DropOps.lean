import ServerlessLLM.Vram.Lemmas.ViewOps

/-!
# Eviction

`GreedyDrop` and `GreedyDropBlocks`: the candidates stand in the order of their cost, then of their address, and are freed from
the front until enough is released.
-/

namespace ServerlessLLM

open Linked List Tiling Region Greedy

namespace GPUTensorPool

/-! ## Costs -/

/-- The cost of dropping a region. -/
def cost (P : Platform) (p : GPUTensorPool) (i : NodeId) : ℚ := (p.costFunction P i).1

/-- Region `i` is dropped before region `j`: it costs less, or as much and has the lower address. -/
def dropsBefore (P : Platform) (p : GPUTensorPool) (i j : NodeId) : Bool :=
  p.dropLt ⟨p.cost P i, i⟩ ⟨p.cost P j, j⟩

/-- The access count of a model: 0 for a model that was never used. -/
def accessCount (p : GPUTensorPool) (path : String) : Nat := (p.modelAccess.lookup path).getD 0

variable (p : GPUTensorPool) (e f : DropCostEntry) (blockSize : Nat) {a b : Nat}

theorem accessOf_fst (path : String) : (p.accessOf path).1 = p.accessCount path := by
  unfold accessOf accessCount
  cases p.modelAccess.lookup path <;> rfl

theorem accessOf_snd (path : String) :
    ∃ ma, (p.accessOf path).2 = { p with modelAccess := ma } ∧
      ∀ path', (p.accessOf path).2.accessCount path' = p.accessCount path' := by
  unfold accessOf
  cases h : p.modelAccess.lookup path with
  | some n => exact ⟨p.modelAccess, rfl, fun _ => rfl⟩
  | none =>
    refine ⟨_, rfl, ?_⟩
    intro path'
    simp only [accessCount, lookup_append]
    cases h' : p.modelAccess.lookup path' with
    | some n => simp
    | none =>
      by_cases he : path' == path
      · simp [lookup_cons, he]
      · simp [lookup_cons, he]

theorem cost_eq (P : Platform) (p : GPUTensorPool) (i : NodeId) {m : RegisteredModel} (hm : (p.region i).modelRef = some m) :
    p.cost P i = P.roundDouble (P.roundDouble (P.roundDouble ((p.region i).size / p.cpuBandwidth) *
      (if 0 < p.totalAccess then P.roundDouble ((p.accessCount m.modelPath : ℚ) / p.totalAccess)
        else if p.modelAccess.isEmpty then 1 else P.roundDouble (1 / p.modelAccess.length))) * m.loadSensitive) := by
  obtain ⟨ma, hma, -⟩ := p.accessOf_snd m.modelPath
  have hb : (p.accessOf m.modelPath).2.cpuBandwidth = p.cpuBandwidth := by rw [hma]
  unfold cost costFunction
  by_cases h : 0 < p.totalAccess <;> simp [hm, h, accessOf_fst, hb]

theorem costFunction_snd (P : Platform) (p : GPUTensorPool) (i : NodeId) {m : RegisteredModel}
    (hm : (p.region i).modelRef = some m) :
    ∃ ma, (p.costFunction P i).2 = { p with modelAccess := ma } ∧
      ∀ j, (p.region j).modelRef ≠ none → (p.costFunction P i).2.cost P j = p.cost P j := by
  obtain ⟨ma, hma, hcnt⟩ := p.accessOf_snd m.modelPath
  by_cases h : 0 < p.totalAccess
  · have hs : (p.costFunction P i).2 = (p.accessOf m.modelPath).2 := by simp [costFunction, hm, h]
    refine ⟨ma, hs.trans hma, ?_⟩
    intro j hj
    obtain ⟨m', hm'⟩ := Option.ne_none_iff_exists'.1 hj
    rw [hs]
    have hr : (p.accessOf m.modelPath).2.region j = p.region j := by rw [hma]; rfl
    have ht : (p.accessOf m.modelPath).2.totalAccess = p.totalAccess := by rw [hma]
    have hb : (p.accessOf m.modelPath).2.cpuBandwidth = p.cpuBandwidth := by rw [hma]
    rw [cost_eq P _ j (hr ▸ hm'), cost_eq P p j hm', hr, ht, hb, hcnt, if_pos h, if_pos h]
  · have hs : (p.costFunction P i).2 = p := by simp [costFunction, hm, h]
    exact ⟨p.modelAccess, by rw [hs], fun j _ => by rw [hs]⟩

/-! ## The order of the candidates -/

theorem dropLt_congr {p q : GPUTensorPool} (h : ∀ i, q.region i = p.region i) : q.dropLt = p.dropLt := by
  funext a b
  simp only [dropLt, h]

theorem dropLt_irrefl : p.dropLt e e = false := by
  simp [dropLt]

theorem dropLt_asymm (h : p.dropLt e f) : p.dropLt f e = false := by
  unfold dropLt at *
  by_cases hc : e.cost = f.cost
  · simp [hc] at h ⊢
    omega
  · have hc' : f.cost ≠ e.cost := fun he => hc he.symm
    simp only [ne_eq, hc, hc', not_false_eq_true, if_true, decide_eq_true_eq, decide_eq_false_iff_not] at h ⊢
    exact not_lt_of_gt h

theorem dropLt_trans (g : DropCostEntry) (h : p.dropLt e f) (h' : p.dropLt f g) : p.dropLt e g := by
  unfold dropLt at *
  by_cases h1 : e.cost = f.cost
  · by_cases h2 : f.cost = g.cost
    · simp [h1, h2] at h h' ⊢
      omega
    · simp only [h1, ne_eq, h2, not_false_eq_true, if_true] at h' ⊢
      exact h'
  · simp only [ne_eq, h1, not_false_eq_true, if_true, decide_eq_true_eq] at h
    by_cases h2 : f.cost = g.cost
    · simp [← h2, h1, h]
    · simp only [ne_eq, h2, not_false_eq_true, if_true, decide_eq_true_eq] at h'
      have h3 := lt_trans h h'
      simp [ne_of_lt h3, h3]

theorem dropLt_total (h : (p.region e.region).addr ≠ (p.region f.region).addr) : p.dropLt e f ∨ p.dropLt f e := by
  unfold dropLt
  by_cases hc : e.cost = f.cost
  · simp [hc]
    omega
  · have hc' : f.cost ≠ e.cost := fun he => hc he.symm
    simp only [ne_eq, hc, hc', not_false_eq_true, if_true, decide_eq_true_eq]
    exact lt_or_gt_of_ne hc

theorem collectDrops_spec {P : Platform} {p : GPUTensorPool} :
    ∀ (l : List NodeId) (q : GPUTensorPool) (es : List DropCostEntry) (done : List NodeId),
      (∀ i ∈ l, (p.region i).modelRef ≠ none) → (∃ ma, q = { p with modelAccess := ma }) →
      (∀ j, (p.region j).modelRef ≠ none → q.cost P j = p.cost P j) →
      ((done ++ l).Pairwise fun i j => (p.region i).addr ≠ (p.region j).addr) →
      es.Pairwise (fun e f => p.dropLt e f) → es.Perm (done.map fun i => ⟨p.cost P i, i⟩) →
      (∃ ma, (collectDrops P l q es).1 = { p with modelAccess := ma }) ∧
        (collectDrops P l q es).2.Pairwise (fun e f => p.dropLt e f) ∧
        (collectDrops P l q es).2.Perm ((done ++ l).map fun i => ⟨p.cost P i, i⟩) := by
  intro l
  induction l with
  | nil =>
    intro q es done _ hq _ _ hs hp
    exact ⟨hq, hs, by simpa [collectDrops] using hp⟩
  | cons i l ih =>
    intro q es done hm hq hcost hd hs hp
    obtain ⟨ma, rfl⟩ := hq
    obtain ⟨m, hmi⟩ := Option.ne_none_iff_exists'.1 (hm i (by simp))
    obtain ⟨ma', hma, hcost'⟩ := costFunction_snd P { p with modelAccess := ma } i (m := m) hmi
    have hfst : (costFunction P { p with modelAccess := ma } i).1 = p.cost P i := hcost i (hm i (by simp))
    simp only [collectDrops]
    rw [hma, hfst]
    have hlt : ({ p with modelAccess := ma' } : GPUTensorPool).dropLt = p.dropLt := dropLt_congr fun _ => rfl
    -- the new candidate differs from the others, as its address does
    have hne : ∀ e ∈ es, p.dropLt ⟨p.cost P i, i⟩ e ∨ p.dropLt e ⟨p.cost P i, i⟩ := by
      intro e he
      obtain ⟨j, hj, rfl⟩ := mem_map.1 (hp.subset he)
      have := (pairwise_append.1 hd).2.2 j hj i (by simp)
      exact dropLt_total p _ _ (Ne.symm this)
    obtain ⟨h1, h2⟩ := insertBy_spec p.dropLt_trans hs hne
    have hins : ({ p with modelAccess := ma' } : GPUTensorPool).insertDrop ⟨p.cost P i, i⟩ es =
        insertBy p.dropLt ⟨p.cost P i, i⟩ es := by
      rw [insertDrop, hlt]
    rw [hins]
    have hd' : ((done ++ [i]) ++ l).Pairwise fun i j => (p.region i).addr ≠ (p.region j).addr := by
      simpa using hd
    have := ih { p with modelAccess := ma' } (insertBy p.dropLt ⟨p.cost P i, i⟩ es) (done ++ [i])
      (fun j hj => hm j (by simp [hj])) ⟨ma', rfl⟩
      (fun j hj => by rw [← hma, hcost' j hj]; exact hcost j hj) hd' h1 ?_
    · simpa using this
    · rw [map_append, map_singleton]
      exact h2.trans ((hp.cons _).trans (perm_append_singleton _ _).symm)

/-! ## The loop that frees -/

/-- The bytes, or blocks, that the regions of some candidates are worth. -/
def worth (p : GPUTensorPool) (units : Region → Nat) (es : List DropCostEntry) : Nat :=
  total (fun e => units (p.region e.region)) es

/-- The candidates that the loop frees, when `released` units were released before. -/
def victims (p : GPUTensorPool) (units : Region → Nat) (need released : Nat) (es : List DropCostEntry) :
    List DropCostEntry :=
  takeUntil (fun e => units (p.region e.region)) need released es

def blocksOf (blockSize : Nat) (l : List Cell) : Nat :=
  total (fun c : Cell => if c.2.status = .FREE then c.2.size / blockSize else 0) l

@[simp] theorem blocksOf_append (l l' : List Cell) :
    blocksOf blockSize (l ++ l') = blocksOf blockSize l + blocksOf blockSize l' := by
  simp [blocksOf]

theorem blocksOf_cons (c : Cell) (l : List Cell) :
    blocksOf blockSize (c :: l) = (if c.2.status = .FREE then c.2.size / blockSize else 0) + blocksOf blockSize l := by
  simp [blocksOf]

theorem blocksOf_freeCells (A C : List Cell) (x : Cell) :
    blocksOf blockSize A + x.2.size / blockSize + blocksOf blockSize C ≤ blocksOf blockSize (freeCells A x C) := by
  have hleft : blocksOf blockSize A + x.2.size / blockSize ≤
      blocksOf blockSize (absorbLeft A x.freed).1 + (absorbLeft A x.freed).2.2.size / blockSize := by
    rcases eq_nil_or_concat A with rfl | ⟨A, q, rfl⟩
    · exact Nat.le_refl _
    · rw [concat_eq_append, absorbLeft_concat]
      have hsum : q.2.size / blockSize + x.2.size / blockSize ≤ (q.2.size + x.2.size) / blockSize := Nat.div_add_div_le_add_div
      by_cases hq : q.2.status = .FREE
      · simp only [if_pos hq, blocksOf_append, blocksOf_cons, setSize_size, Cell.freed, setStatus_size]
        simp only [blocksOf, total_nil]
        omega
      · simp only [if_neg hq]
        exact Nat.le_refl _
  have hright : ∀ y : Cell, y.2.status = .FREE →
      y.2.size / blockSize + blocksOf blockSize C ≤ blocksOf blockSize (absorbRight y C) := by
    intro y hy
    cases C with
    | nil => simp [absorbRight, blocksOf_cons, hy]
    | cons n C =>
      have hsum : y.2.size / blockSize + n.2.size / blockSize ≤ (y.2.size + n.2.size) / blockSize := Nat.div_add_div_le_add_div
      by_cases hn : n.2.status = .FREE
      · simp only [absorbRight, if_pos hn, blocksOf_cons, setSize_status, hy, if_true, setSize_size]
        omega
      · simp [absorbRight, blocksOf_cons, hn, hy]
  have hla := hright _ (absorbLeft_status (A := A) (y := x.freed) rfl)
  rw [freeCells, blocksOf_append]
  omega

/-- What the loop leaves behind. -/
structure Dropped (a b : Nat) (p q q' : GPUTensorPool) (units : Region → Nat) (released released' : Nat)
    (V : List DropCostEntry) : Prop where
  wellFormed : WellFormed a b q'
  frame : Frame q q'
  released_eq : released' = released + p.worth units V
  free : freeBytes q'.cells = freeBytes q.cells + p.worth size V
  blocks : ∀ blockSize, blocksOf blockSize q.cells + p.worth (fun r => r.size / blockSize) V ≤ blocksOf blockSize q'.cells
  mem_iff : ∀ c, c ∈ allocatedOf q'.cells ↔ c ∈ allocatedOf q.cells ∧ ∀ e ∈ V, e.region ≠ c.1
  evicted : ∀ E : Region → Prop, (∀ e ∈ V, E (p.region e.region)) → Evicted E q.view q'.view

theorem occupiedOf_freeCells {A C : List Cell} {x : Cell} (hd : (ids (A ++ x :: C)).Nodup) (hx : x.2.status = .ALLOCATED) :
    occupiedOf (freeCells A x C) = (occupiedOf (A ++ x :: C)).filter fun c => c.1 ≠ x.1 := by
  simp only [ids_append, ids_cons, nodup_append, nodup_cons] at hd
  have hkeep : ∀ l : List Cell, x.1 ∉ ids l → (occupiedOf l).filter (fun c => decide (c.1 ≠ x.1)) = occupiedOf l := by
    intro l hl
    refine filter_eq_self.2 fun c hc => decide_eq_true fun he => hl ?_
    exact he ▸ mem_ids_of_mem (mem_of_mem_filter hc)
  have hmid : occupiedOf (A ++ x :: C) = occupiedOf A ++ x :: occupiedOf C := by
    simp [occupiedOf, hx]
  rw [hmid, filter_append, filter_cons_of_neg (by simp), hkeep A fun hm => hd.2.2 x.1 hm x.1 (by simp) rfl, hkeep C hd.2.1.1]
  exact filter_freeCells (fun c hc => by simp [hc]) A C x

theorem mem_freeCells_iff {A C : List Cell} {x c : Cell} (hd : (ids (A ++ x :: C)).Nodup) (hx : x.2.status = .ALLOCATED) :
    c ∈ allocatedOf (freeCells A x C) ↔ c ∈ allocatedOf (A ++ x :: C) ∧ x.1 ≠ c.1 := by
  rw [allocatedOf_eq_filter, allocatedOf_eq_filter, occupiedOf_freeCells hd hx]
  simp only [mem_filter, decide_eq_true_eq, ne_eq, eq_comm (a := x.1), and_right_comm]

/-- What the loop makes of the list, with LOADING regions anywhere. -/
structure Released (a b : Nat) (p q q' : GPUTensorPool) (units : Region → Nat) (released released' : Nat)
    (V : List DropCostEntry) : Prop where
  wellLinked : WellLinked a b q'
  released_eq : released' = released + p.worth units V
  free : freeBytes q'.cells = freeBytes q.cells + p.worth size V
  occupied : occupiedOf q'.cells = (occupiedOf q.cells).filter fun c => c.1 ∉ V.map DropCostEntry.region

theorem Released.mem_iff {released released' : Nat} {p q q' : GPUTensorPool} {units : Region → Nat}
    {V : List DropCostEntry} (h : Released a b p q q' units released released' V) (c : Cell) :
    c ∈ allocatedOf q'.cells ↔ c ∈ allocatedOf q.cells ∧ ∀ e ∈ V, e.region ≠ c.1 := by
  rw [allocatedOf_eq_filter, allocatedOf_eq_filter, h.occupied]
  simp only [mem_filter, decide_eq_true_eq, mem_map, not_exists, not_and, and_right_comm]

/-- Freeing the first candidate leaves the others where they are. -/
theorem freeRegion_first {p q : GPUTensorPool} {e : DropCostEntry} {es : List DropCostEntry} (hq : WellLinked a b q)
    (hd : ((e :: es).map DropCostEntry.region).Nodup)
    (hmem : ∀ f ∈ e :: es, (f.region, p.region f.region) ∈ allocatedOf q.cells) :
    ∃ A C, q.cells = A ++ (e.region, p.region e.region) :: C ∧ (p.region e.region).status = .ALLOCATED ∧
      (ids (A ++ (e.region, p.region e.region) :: C)).Nodup ∧ q.region e.region = p.region e.region ∧
      WellLinked a b (q.freeRegion e.region) ∧ (q.freeRegion e.region).cells = freeCells A (e.region, p.region e.region) C ∧
      ∀ f ∈ es, (f.region, p.region f.region) ∈ allocatedOf (q.freeRegion e.region).cells := by
  obtain ⟨hxc, hxs⟩ := mem_allocatedOf.1 (hmem e mem_cons_self)
  obtain ⟨A, C, hAC⟩ := append_of_mem hxc
  have hnd : (ids (A ++ (e.region, p.region e.region) :: C)).Nodup := hAC ▸ hq.nodup
  obtain ⟨hlinked, hcls⟩ : WellLinked a b (q.freeRegion e.region) ∧
      (q.freeRegion e.region).cells = freeCells A (e.region, p.region e.region) C := hq.freeRegion hAC hxs
  refine ⟨A, C, hAC, hxs, hnd, hq.region_eq hxc, hlinked, hcls, fun f hf => ?_⟩
  rw [hcls, mem_freeCells_iff hnd hxs, ← hAC]
  refine ⟨hmem f (mem_cons_of_mem _ hf), fun he => (nodup_cons.1 hd).1 ?_⟩
  exact mem_map.2 ⟨f, hf, he.symm⟩

theorem dropLoop_released {p : GPUTensorPool} (units : Region → Nat) (need : Nat) :
    ∀ (es : List DropCostEntry) (released : Nat) (q : GPUTensorPool), WellLinked a b q →
      (es.map DropCostEntry.region).Nodup → (∀ e ∈ es, (e.region, p.region e.region) ∈ allocatedOf q.cells) →
      Released a b p q (dropLoop units need es released q).2 units released (dropLoop units need es released q).1
        (p.victims units need released es) := by
  intro es
  induction es with
  | nil =>
    intro released q hq _ _
    exact ⟨hq, rfl, rfl, by simp [victims, takeUntil, dropLoop]⟩
  | cons e es ih =>
    intro released q hq hd hmem
    unfold dropLoop victims takeUntil
    by_cases hlt : released < need
    · obtain ⟨A, C, hAC, hxs, hnd, hreg, h1, hcls, hkeep⟩ := freeRegion_first hq hd hmem
      have hrec := ih (released + units (p.region e.region)) _ h1 (nodup_cons.1 hd).2 hkeep
      simp only [hlt, if_true, hreg]
      refine ⟨hrec.wellLinked, ?_, ?_, ?_⟩
      · rw [hrec.released_eq, worth, worth, victims, total_cons, Nat.add_assoc]
      · rw [hrec.free, worth, worth, victims, total_cons, hcls, freeBytes_freeCells, hAC, freeBytes_append,
          freeBytes_cons, if_neg (by rw [hxs]; decide)]
        dsimp only
        omega
      · rw [hrec.occupied, hcls, occupiedOf_freeCells hnd hxs, ← hAC, filter_filter]
        refine filter_congr fun c _ => ?_
        simp [victims, not_or, Bool.and_comm]
    · simp only [hlt, if_false]
      exact ⟨hq, rfl, rfl, by simp⟩

theorem dropLoop_spec {p : GPUTensorPool} (units : Region → Nat) (need : Nat) :
    ∀ (es : List DropCostEntry) (released : Nat) (q : GPUTensorPool), WellFormed a b q →
      (es.map DropCostEntry.region).Nodup → (∀ e ∈ es, (e.region, p.region e.region) ∈ allocatedOf q.cells) →
      Dropped a b p q (dropLoop units need es released q).2 units released (dropLoop units need es released q).1
        (p.victims units need released es) := by
  intro es
  induction es with
  | nil =>
    intro released q hq _ _
    exact ⟨hq, Frame.refl q, rfl, rfl, fun _ => Nat.le_refl _, by simp [victims, takeUntil, dropLoop], fun E _ => .refl _⟩
  | cons e es ih =>
    intro released q hq hd hmem
    have hrel := dropLoop_released (p := p) units need (e :: es) released q hq.wellLinked hd hmem
    unfold dropLoop victims takeUntil at hrel ⊢
    by_cases hlt : released < need
    · obtain ⟨A, C, hAC, hxs, -, hreg, -, hcls, hkeep⟩ := freeRegion_first hq.wellLinked hd hmem
      obtain ⟨h1, -, h3⟩ := hq.freeRegion hAC hxs
      have hrec := ih (released + units (p.region e.region)) _ h1 (nodup_cons.1 hd).2 hkeep
      simp only [hlt, if_true, hreg] at hrel ⊢
      refine ⟨hrec.wellFormed, h3.trans hrec.frame, hrel.released_eq, hrel.free, ?_, hrel.mem_iff, ?_⟩
      · intro blockSize
        have hfreed := blocksOf_freeCells blockSize A C (e.region, p.region e.region)
        have hbks := hrec.blocks blockSize
        rw [hcls] at hbks
        rw [worth, total_cons, hAC, blocksOf_append, blocksOf_cons, if_neg (by rw [hxs]; decide)]
        rw [worth, victims] at hbks
        dsimp only at hfreed hbks
        omega
      · intro E hE
        have hEe := hE e (by simp)
        exact (hq.freeRegion_evicted hAC hxs hEe).trans (hrec.evicted E fun f hf => hE f (by simp [victims] at hf; simp [hf]))
    · simp only [hlt, if_false]
      exact ⟨hq, Frame.refl q, rfl, rfl, fun _ => Nat.le_refl _, by simp, fun E _ => .refl _⟩

/-! ## Collecting and freeing -/

/-- What the candidates that are dropped before region `i` are worth. -/
def worthBefore (P : Platform) (p : GPUTensorPool) (units : Region → Nat) (candidates : List NodeId) (i : NodeId) : Nat :=
  total (fun j => units (p.region j)) (candidates.filter fun j => p.dropsBefore P j i)

/-- The bad candidates are spared: those before each of them reach the need. -/
def Spares (P : Platform) (p : GPUTensorPool) (units : Region → Nat) (need : Nat) (candidates : List NodeId)
    (bad : Region → Prop) : Prop :=
  ∀ i ∈ candidates, bad (p.region i) → need ≤ p.worthBefore P units candidates i

instance (P : Platform) (p : GPUTensorPool) (units : Region → Nat) (need : Nat) (candidates : List NodeId)
    (bad : Region → Prop) [DecidablePred bad] : Decidable (p.Spares P units need candidates bad) :=
  inferInstanceAs (Decidable (∀ i ∈ candidates, bad (p.region i) → need ≤ p.worthBefore P units candidates i))

/-- The candidates that pass the test, in the order in which they are dropped. -/
abbrev inDropOrder (P : Platform) (p : GPUTensorPool) (f : Region → Bool) : GPUTensorPool × List DropCostEntry :=
  collectDrops P (p.regions.filter fun i => f (p.region i)) p []

abbrev dropInOrder (P : Platform) (p : GPUTensorPool) (f : Region → Bool) (units : Region → Nat) (need : Nat) :
    Nat × GPUTensorPool :=
  dropLoop units need (inDropOrder P p f).2 0 (inDropOrder P p f).1

section Phase

variable {P : Platform} {a b : Nat} {p : GPUTensorPool} {f : Region → Bool}

theorem total_perm {α : Type} {size : α → Nat} {l l' : List α} (h : l.Perm l') : Tiling.total size l = Tiling.total size l' :=
  (h.map size).sum_nat

theorem candidates_spec (h : WellLinked a b p) (hf : ∀ r, f r = true → r.status = .ALLOCATED ∧ r.modelRef ≠ none) :
    (∀ i ∈ p.regions.filter fun i => f (p.region i), (i, p.region i) ∈ allocatedOf p.cells ∧ (p.region i).modelRef ≠ none) ∧
      ((p.regions.filter fun i => f (p.region i)).Pairwise fun i j => (p.region i).addr ≠ (p.region j).addr) := by
  constructor
  · intro i hi
    obtain ⟨h1, h2⟩ := mem_filter.1 hi
    obtain ⟨c, hc, rfl⟩ := h.mem_of_regions.1 h1
    have hr := h.region_eq hc
    obtain ⟨h3, h4⟩ := hf _ h2
    exact ⟨mem_allocatedOf.2 ⟨by rw [hr]; exact hc, h3⟩, h4⟩
  · refine List.Pairwise.filter _ ?_
    have hpw := h.tiling.ordered
    rw [h.holds.regions_eq, ids, pairwise_map]
    refine hpw.imp_of_mem fun {c d} hc hd hle => ?_
    rw [h.region_eq hc, h.region_eq hd]
    have := (h.tiling.mem hc).2.1
    omega

theorem ordered_spec (h : WellLinked a b p) (hf : ∀ r, f r = true → r.status = .ALLOCATED ∧ r.modelRef ≠ none) :
    (∃ ma, (inDropOrder P p f).1 = { p with modelAccess := ma }) ∧
      (inDropOrder P p f).2.Pairwise (fun e f => p.dropLt e f) ∧
      (inDropOrder P p f).2.Perm
        ((p.regions.filter fun i => f (p.region i)).map fun i => ⟨p.cost P i, i⟩) := by
  obtain ⟨h1, h2⟩ := candidates_spec h hf
  exact collectDrops_spec _ p [] [] (fun i hi => (h1 i hi).2) ⟨p.modelAccess, rfl⟩ (fun _ _ => rfl) h2
    List.Pairwise.nil (List.Perm.refl _)

theorem mem_victims_iff (h : WellLinked a b p) (hf : ∀ r, f r = true → r.status = .ALLOCATED ∧ r.modelRef ≠ none)
    (units : Region → Nat) (need : Nat) (i : NodeId) :
    (∃ e ∈ p.victims units need 0 (inDropOrder P p f).2, e.region = i) ↔
      i ∈ (p.regions.filter fun i => f (p.region i)) ∧
        p.worthBefore P units (p.regions.filter fun i => f (p.region i)) i < need := by
  obtain ⟨-, hsrt, hpm⟩ := ordered_spec (P := P) h hf
  generalize hes : (inDropOrder P p f).2 = es at hsrt hpm
  generalize hcs : (p.regions.filter fun i => f (p.region i)) = cs at hpm
  have htot : ∀ j, total (fun e => units (p.region e.region)) (es.filter fun e => p.dropLt e ⟨p.cost P j, j⟩) =
      p.worthBefore P units cs j := by
    intro j
    rw [total_perm (hpm.filter _), filter_map, total, map_map]
    rfl
  constructor
  · rintro ⟨e, he, rfl⟩
    have hmem := takeUntil_subset _ _ he
    obtain ⟨j, hj, rfl⟩ := mem_map.1 (hpm.subset hmem)
    rw [victims, mem_takeUntil_iff_filter p.dropLt_irrefl p.dropLt_asymm hsrt hmem, htot] at he
    exact ⟨hj, he⟩
  · rintro ⟨hi, hlt⟩
    have hmem : (⟨p.cost P i, i⟩ : DropCostEntry) ∈ es := hpm.symm.subset (mem_map.2 ⟨i, hi, rfl⟩)
    refine ⟨⟨p.cost P i, i⟩, ?_, rfl⟩
    rw [victims, mem_takeUntil_iff_filter p.dropLt_irrefl p.dropLt_asymm hsrt hmem, htot]
    exact hlt

theorem collected_spec (h : WellLinked a b p) (hf : ∀ r, f r = true → r.status = .ALLOCATED ∧ r.modelRef ≠ none) :
    ∃ ma, (inDropOrder P p f).1 = { p with modelAccess := ma } ∧
      ({ p with modelAccess := ma } : GPUTensorPool).cells = p.cells ∧
      ((inDropOrder P p f).2.map DropCostEntry.region).Nodup ∧
      ∀ e ∈ (inDropOrder P p f).2,
        (e.region, p.region e.region) ∈ allocatedOf ({ p with modelAccess := ma } : GPUTensorPool).cells := by
  obtain ⟨⟨ma, hma⟩, -, hpm⟩ := ordered_spec (P := P) h hf
  obtain ⟨hc1, hc2⟩ := candidates_spec h hf
  have hcls := (h.of_eq (q := { p with modelAccess := ma }) rfl rfl).2
  refine ⟨ma, hma, hcls, ?_, ?_⟩
  · rw [(hpm.map _).nodup_iff, map_map]
    have : (p.regions.filter fun i => f (p.region i)).Nodup := hc2.imp fun hne he => hne (by rw [he])
    simpa [Function.comp_def] using this
  · intro e he
    obtain ⟨i, hi, rfl⟩ := mem_map.1 (hpm.subset he)
    rw [hcls]
    exact (hc1 i hi).1

theorem releasePhase (h : WellLinked a b p) (hf : ∀ r, f r = true → r.status = .ALLOCATED ∧ r.modelRef ≠ none)
    (units : Region → Nat) (need : Nat) :
    Released a b p p (dropInOrder P p f units need).2 units 0
      (dropInOrder P p f units need).1
      (p.victims units need 0 (inDropOrder P p f).2) := by
  obtain ⟨ma, hma, hcls, hnd, hmem⟩ := collected_spec (P := P) h hf
  obtain ⟨hwl, -⟩ := h.of_eq (q := { p with modelAccess := ma }) rfl rfl
  rw [dropInOrder, hma]
  have hd := dropLoop_released (p := p) units need _ 0 _ hwl hnd hmem
  refine ⟨hd.wellLinked, hd.released_eq, ?_, ?_⟩
  · rw [hd.free, hcls]
  · rw [hd.occupied, hcls]

theorem dropPhase (h : WellFormed a b p) (hf : ∀ r, f r = true → r.status = .ALLOCATED ∧ r.modelRef ≠ none)
    (units : Region → Nat) (need : Nat) :
    Dropped a b p p (dropInOrder P p f units need).2 units 0
      (dropInOrder P p f units need).1
      (p.victims units need 0 (inDropOrder P p f).2) := by
  obtain ⟨ma, hma, hcls, hnd, hmem⟩ := collected_spec (P := P) h.wellLinked hf
  obtain ⟨hwf, -⟩ := h.of_eq (q := { p with modelAccess := ma }) rfl rfl
  have hview : ({ p with modelAccess := ma } : GPUTensorPool).view = p.view := by rw [view, hcls]; rfl
  rw [dropInOrder, hma]
  have hd := dropLoop_spec (p := p) units need _ 0 _ hwf hnd hmem
  refine ⟨hd.wellFormed, ⟨hd.frame.base, hd.frame.blockId⟩, hd.released_eq, ?_, ?_, ?_, ?_⟩
  · rw [hd.free, hcls]
  · intro blockSize
    have hbks := hd.blocks blockSize
    rwa [hcls] at hbks
  · intro c
    rw [hd.mem_iff, hcls]
  · intro E hE
    have := hd.evicted E hE
    rwa [hview] at this

/-- What an eviction makes of a pool, when it has to spare the bad regions under a condition: the pool stays well formed, only
regions that pass the test are freed, and the bad ones are all spared exactly under the condition. -/
structure Evicting (a b : Nat) (f : Region → Bool) (p q : GPUTensorPool) (spares : (Region → Prop) → Prop) : Prop where
  wellFormed : WellFormed a b q
  frame : Frame p q
  evicted : Evicted (fun r => f r = true) p.view q.view
  spared : ∀ bad : Region → Prop, spares bad → Evicted (fun r => f r = true ∧ ¬bad r) p.view q.view
  mem_iff : ∀ bad : Region → Prop,
    (∀ c ∈ allocatedOf p.cells, bad c.2 → c ∈ allocatedOf q.cells) ↔ spares bad

theorem Evicting.of_eq {spares : (Region → Prop) → Prop} (h : WellFormed a b p) (ma : List (String × Nat))
    (hs : ∀ bad, spares bad) : Evicting a b f p { p with modelAccess := ma } spares := by
  obtain ⟨hwf, hcls⟩ := h.of_eq (q := { p with modelAccess := ma }) rfl rfl
  have hview : ({ p with modelAccess := ma } : GPUTensorPool).view = p.view := by rw [view, hcls]; rfl
  refine ⟨hwf, ⟨rfl, rfl⟩, ?_, ?_, fun bad => ⟨fun _ => hs bad, ?_⟩⟩
  · rw [hview]
    exact .refl _
  · intro bad _
    rw [hview]
    exact .refl _
  · intro _ c hc _
    rwa [hcls]

theorem evicting_dropPhase (h : WellFormed a b p) (hf : ∀ r, f r = true → r.status = .ALLOCATED ∧ r.modelRef ≠ none)
    (units : Region → Nat) (need : Nat) :
    Evicting a b f p (dropInOrder P p f units need).2
      (p.Spares P units need (p.regions.filter fun i => f (p.region i))) := by
  have hd := dropPhase (P := P) h hf units need
  have hv := mem_victims_iff (P := P) h.wellLinked hf units need
  refine ⟨hd.wellFormed, hd.frame, hd.evicted _ ?_, fun bad hs => hd.evicted _ fun e he => ⟨?_, ?_⟩, fun bad => ⟨?_, ?_⟩⟩
  · intro e he
    exact (mem_filter.1 ((hv e.region).1 ⟨e, he, rfl⟩).1).2
  · exact (mem_filter.1 ((hv e.region).1 ⟨e, he, rfl⟩).1).2
  · intro hb
    obtain ⟨h1, h2⟩ := (hv e.region).1 ⟨e, he, rfl⟩
    have := hs e.region h1 hb
    omega
  · intro hk i hi hb
    -- a bad candidate that is still there was not a victim
    have hmem := (candidates_spec h.wellLinked hf).1 i hi
    have hnot := ((hd.mem_iff _).1 (hk _ hmem.1 hb)).2
    by_contra hlt
    obtain ⟨e, he, rfl⟩ := (hv i).2 ⟨hi, by omega⟩
    exact hnot e he rfl
  · intro hs c hc hb
    refine (hd.mem_iff c).2 ⟨hc, ?_⟩
    intro e he hec
    obtain ⟨h1, h2⟩ := (hv e.region).1 ⟨e, he, rfl⟩
    have hr : p.region e.region = c.2 := by rw [hec]; exact h.region_eq (mem_allocatedOf.1 hc).1
    have := hs e.region h1 (hr ▸ hb)
    omega

end Phase

/-! ## `GreedyDrop` -/

section GreedyDrop

variable {P : Platform} {a b : Nat} {p : GPUTensorPool}

/-- The condition under which `GreedyDrop` frees no bad region: enough is free, some region has no model, or the candidates
before each bad one are enough. -/
def GreedyDropSpares (P : Platform) (p : GPUTensorPool) (n : Nat) (skipModel : String) (bad : Region → Prop) : Prop :=
  n ≤ p.getFreeSize ∨ (∃ i ∈ p.regions, (p.region i).status = .ALLOCATED ∧ (p.region i).modelRef = none) ∨
    p.Spares P size (n - p.getFreeSize) (p.regions.filter fun i => isOther skipModel (p.region i)) bad

instance (P : Platform) (p : GPUTensorPool) (n : Nat) (skipModel : String) (bad : Region → Prop) [DecidablePred bad] :
    Decidable (p.GreedyDropSpares P n skipModel bad) :=
  inferInstanceAs (Decidable (_ ∨ _ ∨ _))

theorem isOther_spec (skipModel : String) (r : Region) (h : isOther skipModel r = true) :
    r.status = .ALLOCATED ∧ r.modelRef ≠ none := by
  unfold isOther at h
  simp only [Bool.and_eq_true, decide_eq_true_eq] at h
  refine ⟨h.1, ?_⟩
  intro hn
  simp [hn] at h

theorem collectDrops_fst {l : List NodeId} :
    ∀ (q : GPUTensorPool) (es : List DropCostEntry), ∃ ma, (collectDrops P l q es).1 = { q with modelAccess := ma } := by
  induction l with
  | nil => exact fun q es => ⟨q.modelAccess, rfl⟩
  | cons i l ih =>
    intro q es
    have hc : ∃ ma, (q.costFunction P i).2 = { q with modelAccess := ma } := by
      cases hm : (q.region i).modelRef with
      | none => exact ⟨q.modelAccess, by simp [costFunction, hm]⟩
      | some m =>
        obtain ⟨ma, h, -⟩ := costFunction_snd P q i hm
        exact ⟨ma, h⟩
    obtain ⟨ma, hma⟩ := hc
    simp only [collectDrops]
    obtain ⟨ma', h'⟩ := ih (q.costFunction P i).2 ((q.costFunction P i).2.insertDrop ⟨(q.costFunction P i).1, i⟩ es)
    exact ⟨ma', by rw [h', hma]⟩

theorem filter_allocated_isOther (p : GPUTensorPool) (skipModel : String) :
    ((p.regions.filter fun i => (p.region i).status = .ALLOCATED).filter fun i => isOther skipModel (p.region i)) =
      p.regions.filter fun i => isOther skipModel (p.region i) := by
  rw [filter_filter]
  refine filter_congr ?_
  intro i _
  cases h : isOther skipModel (p.region i) with
  | false => simp
  | true => simp [(isOther_spec skipModel _ h).1]

theorem greedyDrop_spec (h : WellFormed a b p) (n : Nat) (skipModel : String) :
    Evicting a b (isOther skipModel) p (p.greedyDrop P n skipModel).2 (p.GreedyDropSpares P n skipModel) ∧
      ((p.greedyDrop P n skipModel).1 = 0 → n ≤ freeBytes (p.greedyDrop P n skipModel).2.cells) := by
  have hfe : p.getFreeSize = freeBytes p.cells := h.holds.getFreeSize_eq
  unfold greedyDrop
  by_cases h0 : n = 0
  · simp only [h0, if_true]
    exact ⟨Evicting.of_eq h p.modelAccess fun bad => .inl (Nat.zero_le _), fun _ => Nat.zero_le _⟩
  by_cases h1 : n ≤ p.getFreeSize
  · simp only [h0, if_false, h1, if_true]
    exact ⟨Evicting.of_eq h p.modelAccess fun bad => .inl h1, fun _ => hfe ▸ h1⟩
  simp only [h0, if_false, h1]
  by_cases h2 : ((p.regions.filter fun i => (p.region i).status = .ALLOCATED).any fun i => (p.region i).modelRef.isNone) = true
  · simp only [h2, if_true]
    obtain ⟨ma, hma⟩ := collectDrops_fst (P := P) (l := ((p.regions.filter fun i =>
      (p.region i).status = .ALLOCATED).takeWhile fun i => (p.region i).modelRef.isSome).filter
        fun i => isOther skipModel (p.region i)) p []
    rw [hma]
    refine ⟨Evicting.of_eq h ma fun bad => .inr (.inl ?_), by simp⟩
    obtain ⟨i, hi, hn⟩ := any_eq_true.1 h2
    obtain ⟨hi1, hi2⟩ := mem_filter.1 hi
    exact ⟨i, hi1, by simpa using hi2, by simpa using hn⟩
  · simp only [h2]
    rw [filter_allocated_isOther]
    have hev := evicting_dropPhase (P := P) h (isOther_spec skipModel) size (n - p.getFreeSize)
    have hd := dropPhase (P := P) h (isOther_spec skipModel) size (n - p.getFreeSize)
    have hsp : p.Spares P size (n - p.getFreeSize) (p.regions.filter fun i => isOther skipModel (p.region i)) =
        p.GreedyDropSpares P n skipModel := by
      funext bad
      refine propext ⟨fun hs => .inr (.inr hs), ?_⟩
      rintro (hs | ⟨i, hi, hs, hm⟩ | hs)
      · exact absurd hs h1
      · refine absurd (any_eq_true.2 ⟨i, mem_filter.2 ⟨hi, by simpa using hs⟩, by simp [hm]⟩) h2
      · exact hs
    rw [hsp] at hev
    unfold dropInOrder at hev hd
    generalize dropLoop size (n - p.getFreeSize) (inDropOrder P p (isOther skipModel)).2 0
      (inDropOrder P p (isOther skipModel)).1 = r at hev hd
    have hrel := hd.released_eq
    have hfr := hd.free
    simp only [Bool.false_eq_true, if_false]
    split
    · exact ⟨hev, by simp⟩
    · refine ⟨hev, ?_⟩
      intro _
      dsimp only
      omega

/-! ## `GreedyDropBlocks` -/

/-- The blocks that can be made by freeing regions. -/
def droppableBlocks (p : GPUTensorPool) (blockSize : Nat) (modelPath : String) : Nat :=
  ((p.regions.filter fun i => isDroppable blockSize modelPath (p.region i)).map fun i => (p.region i).size / blockSize).sum

/-- The condition under which `GreedyDropBlocks` frees no bad region: the request is refused or fits, or the candidates before
each bad one are enough. -/
def GreedyDropBlocksSpares (P : Platform) (p : GPUTensorPool) (blockSize : Nat) (modelPath : String) (blockNumber : Int)
    (bad : Region → Prop) : Prop :=
  blockSize = 0 ∨ blockNumber ≤ p.freeBlocks blockSize ∨
    p.droppableBlocks blockSize modelPath < blockNumber.toNat - p.freeBlocks blockSize ∨
    p.Spares P (fun r => r.size / blockSize) (blockNumber.toNat - p.freeBlocks blockSize)
      (p.regions.filter fun i => isDroppable blockSize modelPath (p.region i)) bad

instance (P : Platform) (p : GPUTensorPool) (blockSize : Nat) (modelPath : String) (blockNumber : Int) (bad : Region → Prop)
    [DecidablePred bad] : Decidable (p.GreedyDropBlocksSpares P blockSize modelPath blockNumber bad) :=
  inferInstanceAs (Decidable (_ ∨ _ ∨ _ ∨ _))

theorem isDroppable_spec (blockSize : Nat) (modelPath : String) (r : Region)
    (h : isDroppable blockSize modelPath r = true) : r.status = .ALLOCATED ∧ r.modelRef ≠ none := by
  unfold isDroppable at h
  exact isOther_spec modelPath r (Bool.and_eq_true _ _ ▸ h).1

theorem greedyDropBlocks_spec (h : WellFormed a b p) (blockSize : Nat) (modelPath : String) (blockNumber : Int) :
    Evicting a b (isDroppable blockSize modelPath) p (p.greedyDropBlocks P blockSize modelPath blockNumber).2
      (p.GreedyDropBlocksSpares P blockSize modelPath blockNumber) := by
  unfold greedyDropBlocks
  by_cases h0 : blockSize = 0 ∨ blockNumber ≤ 0
  · simp only [h0, if_true]
    refine Evicting.of_eq h p.modelAccess ?_
    intro bad
    rcases h0 with h0 | h0
    · exact .inl h0
    · exact .inr (.inl (by omega))
  by_cases h1 : blockNumber ≤ p.freeBlocks blockSize
  · simp only [h0, if_false, h1, if_true]
    exact Evicting.of_eq h p.modelAccess fun bad => .inr (.inl h1)
  simp only [h0, if_false, h1]
  by_cases h2 : p.droppableBlocks blockSize modelPath < blockNumber.toNat - p.freeBlocks blockSize
  · obtain ⟨ma, hma⟩ := collectDrops_fst (P := P)
      (l := p.regions.filter fun i => isDroppable blockSize modelPath (p.region i)) p []
    unfold droppableBlocks at h2
    simp only [h2, if_true, hma]
    exact Evicting.of_eq h ma fun bad => .inr (.inr (.inl h2))
  · have hev := evicting_dropPhase (P := P) h (isDroppable_spec blockSize modelPath) (fun r => r.size / blockSize)
      (blockNumber.toNat - p.freeBlocks blockSize)
    have hsp : p.Spares P (fun r => r.size / blockSize) (blockNumber.toNat - p.freeBlocks blockSize)
        (p.regions.filter fun i => isDroppable blockSize modelPath (p.region i)) =
        p.GreedyDropBlocksSpares P blockSize modelPath blockNumber := by
      funext bad
      refine propext ⟨fun hs => .inr (.inr (.inr hs)), ?_⟩
      rintro (hs | hs | hs | hs)
      · exact absurd (.inl hs) h0
      · exact absurd hs h1
      · exact absurd hs h2
      · exact hs
    rw [hsp] at hev
    unfold droppableBlocks at h2
    simp only [h2, if_false]
    split <;> exact hev

end GreedyDrop

end GPUTensorPool

end ServerlessLLM
