import ServerlessLLM.ModelPool.Regions

/-!
# The pointers of a pool and its list of regions

A pool with its list: the nodes are linked as the list says, and `free_regions` has the free regions of it. Freeing and
allocating a region keep this, and log no error.
-/

namespace ServerlessLLM.ModelPool

open Linked List Option Tiling

section

/-- A region with the number of its node. -/
abbrev Cell := Nat × GPUMemoryRegion

/-- The regions stand behind each other from `a` to `b`. -/
def Adjoins (a : Nat) (l : List Cell) (b : Nat) : Prop := Tiling.Adjoins (fun c : Cell => c.2.addr) (fun c => c.2.size) a l b

/-- No region is empty. -/
def Positive (l : List Cell) : Prop := ∀ c ∈ l, 0 < c.2.size

/-- Of two neighbours one is allocated. -/
def Coalesced (l : List Cell) : Prop := l.IsChain fun c d => c.2.isAllocated = true ∨ d.2.isAllocated = true

/-- The free regions with their sizes. -/
def freePairs (l : List Cell) : List (Nat × Nat) := l.filterMap fun c => if c.2.isAllocated then none else some (c.2.size, c.1)

theorem freePairs_append (l l' : List Cell) : freePairs (l ++ l') = freePairs l ++ freePairs l' := filterMap_append

theorem freePairs_cons_allocated {c : Cell} (h : c.2.isAllocated = true) (l : List Cell) :
    freePairs (c :: l) = freePairs l := by
  simp [freePairs, h]

theorem freePairs_cons_free {c : Cell} (h : c.2.isAllocated = false) (l : List Cell) :
    freePairs (c :: l) = (c.2.size, c.1) :: freePairs l := by
  simp [freePairs, h]

variable {l : List Cell} {a b : Nat} {A C : List Cell} {x : Cell}

theorem mem_freePairs {e : Nat × Nat} : e ∈ freePairs l ↔ ∃ c ∈ l, c.2.isAllocated = false ∧ e = (c.2.size, c.1) := by
  unfold freePairs
  rw [mem_filterMap]
  constructor
  · rintro ⟨c, hc, h⟩
    split at h
    · cases h
    · rename_i hfe
      exact ⟨c, hc, eq_false_of_ne_true hfe, (some.inj h).symm⟩
  · rintro ⟨c, hc, hfe, rfl⟩
    exact ⟨c, hc, by simp [hfe]⟩

theorem snd_mem_ids_of_mem_freePairs {e : Nat × Nat} (h : e ∈ freePairs l) : e.2 ∈ ids l := by
  obtain ⟨c, hc, -, rfl⟩ := mem_freePairs.1 h
  exact mem_ids_of_mem hc

theorem nodup_freePairs (h : (ids l).Nodup) : (freePairs l).Nodup := by
  induction l with
  | nil => exact nodup_nil
  | cons c l ih =>
    rw [ids_cons, nodup_cons] at h
    by_cases hc : c.2.isAllocated = true
    · rw [freePairs_cons_allocated hc]
      exact ih h.2
    · rw [freePairs_cons_free (eq_false_of_ne_true hc), nodup_cons]
      exact ⟨fun hmem => h.1 (snd_mem_ids_of_mem_freePairs hmem), ih h.2⟩

/-! ## A region is freed -/

/-- The region takes in the next one, if that one is free. -/
def takeNext (x : Cell) : List Cell → Cell × List Cell
  | [] => (x, [])
  | n :: C => if n.2.isAllocated then (x, n :: C) else ((x.1, { x.2 with size := x.2.size + n.2.size }), C)

/-- The previous region, if it is free, takes in the region. -/
def takePrev (A : List Cell) (x : Cell) : List Cell × Cell :=
  match A.getLast? with
  | none => (A, x)
  | some q => if q.2.isAllocated then (A, x) else (A.dropLast, (q.1, { q.2 with size := q.2.size + x.2.size }))

/-- The region that is left is free. -/
def setFree (x : Cell) : Cell := (x.1, { x.2 with isAllocated := false })

theorem takeNext_cases (x : Cell) (C : List Cell) : (takeNext x C = (x, C) ∧ ∀ c ∈ C.head?, c.2.isAllocated = true) ∨
    ∃ n C', C = n :: C' ∧ n.2.isAllocated = false ∧ takeNext x C = ((x.1, { x.2 with size := x.2.size + n.2.size }), C') := by
  cases C with
  | nil => exact .inl ⟨rfl, by simp⟩
  | cons n C =>
    by_cases hn : n.2.isAllocated = true
    · exact .inl ⟨by simp [takeNext, hn], by simpa using hn⟩
    · exact .inr ⟨n, C, rfl, eq_false_of_ne_true hn, by simp [takeNext, hn]⟩

theorem takePrev_cases (A : List Cell) (x : Cell) : (takePrev A x = (A, x) ∧ ∀ c ∈ A.getLast?, c.2.isAllocated = true) ∨
    ∃ q A', A = A' ++ [q] ∧ q.2.isAllocated = false ∧ takePrev A x = (A', (q.1, { q.2 with size := q.2.size + x.2.size })) := by
  rcases eq_nil_or_concat A with rfl | ⟨A, q, rfl⟩
  · exact .inl ⟨rfl, by simp⟩
  · rw [concat_eq_append]
    by_cases hq : q.2.isAllocated = true
    · exact .inl ⟨by simp [takePrev, hq], by simpa using hq⟩
    · exact .inr ⟨q, A, rfl, eq_false_of_ne_true hq, by simp [takePrev, hq]⟩

theorem adjoins_merge {q : Cell} (h : Adjoins a (A ++ q :: x :: C) b) :
    Adjoins a (A ++ (q.1, { q.2 with size := q.2.size + x.2.size }) :: C) b := by
  unfold Adjoins at *
  obtain ⟨m, hA, hq, hx, hC⟩ := adjoins_append_iff.1 h
  refine adjoins_append_iff.2 ⟨m, hA, hq, ?_⟩
  rwa [← Nat.add_assoc]

theorem adjoins_adjacent {q : Cell} (h : Adjoins a (A ++ q :: x :: C) b) : q.2.addr + q.2.size = x.2.addr := by
  obtain ⟨m, -, hq, hx, -⟩ := adjoins_append_iff.1 h
  dsimp only at hq hx
  omega

theorem adjoins_setFree (h : Adjoins a (A ++ x :: C) b) : Adjoins a (A ++ setFree x :: C) b := by
  refine Adjoins.of_map_eq h ?_
  simp [setFree]

/-- The regions after the region between `A` and `C` was freed. -/
def freedCells (A : List Cell) (x : Cell) (C : List Cell) : List Cell :=
  (takePrev A (takeNext x C).1).1 ++ setFree (takePrev A (takeNext x C).1).2 :: (takeNext x C).2

theorem adjoins_freedCells (h : Adjoins a (A ++ x :: C) b) : Adjoins a (freedCells A x C) b := by
  unfold freedCells
  refine adjoins_setFree ?_
  have hnx : Adjoins a (A ++ (takeNext x C).1 :: (takeNext x C).2) b := by
    rcases takeNext_cases x C with ⟨heq, -⟩ | ⟨n, C', rfl, -, heq⟩
    · rw [heq]
      exact h
    · rw [heq]
      exact adjoins_merge h
  rcases takePrev_cases A (takeNext x C).1 with ⟨heq, -⟩ | ⟨q, A', rfl, -, heq⟩
  · rw [heq]
    exact hnx
  · rw [heq]
    refine adjoins_merge ?_
    simpa using hnx

theorem positive_freedCells (h : Positive (A ++ x :: C)) : Positive (freedCells A x C) := by
  have hx : 0 < x.2.size := h x (by simp)
  have hnx : 0 < (takeNext x C).1.2.size ∧ ∀ c ∈ (takeNext x C).2, 0 < c.2.size := by
    rcases takeNext_cases x C with ⟨heq, -⟩ | ⟨n, C', rfl, -, heq⟩
    · rw [heq]
      exact ⟨hx, fun c hc => h c (by simp [hc])⟩
    · rw [heq]
      exact ⟨Nat.add_pos_left hx _, fun c hc => h c (by simp [hc])⟩
  intro c hc
  unfold freedCells at hc
  rw [mem_append, mem_cons] at hc
  rcases takePrev_cases A (takeNext x C).1 with ⟨heq, -⟩ | ⟨q, A', rfl, -, heq⟩
  · rw [heq] at hc
    rcases hc with hc | rfl | hc
    · exact h c (by simp [hc])
    · exact hnx.1
    · exact hnx.2 c hc
  · rw [heq] at hc
    rcases hc with hc | rfl | hc
    · exact h c (by simp [hc])
    · exact Nat.add_pos_right _ hnx.1
    · exact hnx.2 c hc

theorem coalesced_freedCells (h : Coalesced (A ++ x :: C)) : Coalesced (freedCells A x C) := by
  unfold Coalesced freedCells at *
  rw [isChain_append, isChain_cons] at h
  obtain ⟨hA, ⟨-, hC⟩, -⟩ := h
  -- what is left before and behind the region is coalesced and meets it with an allocated region
  have hright : (takeNext x C).2.IsChain (fun c d => c.2.isAllocated = true ∨ d.2.isAllocated = true) ∧
      ∀ c ∈ (takeNext x C).2.head?, c.2.isAllocated = true := by
    rcases takeNext_cases x C with ⟨heq, hhead⟩ | ⟨n, C', rfl, hn, heq⟩
    · rw [heq]
      exact ⟨hC, hhead⟩
    · rw [heq]
      rw [isChain_cons] at hC
      refine ⟨hC.2, ?_⟩
      intro c hc
      rcases hC.1 c hc with h | h
      · rw [hn] at h
        cases h
      · exact h
  have hleft : (takePrev A (takeNext x C).1).1.IsChain (fun c d => c.2.isAllocated = true ∨ d.2.isAllocated = true) ∧
      ∀ c ∈ (takePrev A (takeNext x C).1).1.getLast?, c.2.isAllocated = true := by
    rcases takePrev_cases A (takeNext x C).1 with ⟨heq, hla⟩ | ⟨q, A', rfl, hq, heq⟩
    · rw [heq]
      exact ⟨hA, hla⟩
    · rw [heq]
      rw [isChain_append] at hA
      refine ⟨hA.1, ?_⟩
      intro c hc
      rcases hA.2.2 c hc q (by simp) with h | h
      · exact h
      · rw [hq] at h
        cases h
  rw [isChain_append, isChain_cons]
  refine ⟨hleft.1, ⟨fun c hc => .inr (hright.2 c hc), hright.1⟩, fun c hc d hd => .inl (hleft.2 c hc)⟩

end

structure Holds (p : GPUTensorPool) (l : List Cell) : Prop where
  rep : Rep p.store l
  view : first l = some p.memoryRegionView
  adjoins : Adjoins p.base l (p.base + p.totalSize)
  coalesced : Coalesced l
  free : p.freeRegions.Perm (freePairs l)
  index : ∀ fingerprint i, p.allocatedRegions.get? fingerprint = some i →
    ∃ r, (i, r) ∈ l ∧ r.isAllocated = true ∧ r.fingerprint = fingerprint
  errors : p.errors = []

namespace GPUTensorPool

variable {p : GPUTensorPool} {A C l : List Cell} {x : Cell}

/-! ## Merging -/

theorem region_eq (h : Rep p.store l) {c : Cell} (hc : c ∈ l) : p.region c.1 = c.2 := h.val_eq hc

theorem merge_store {q : Cell} (h : Rep p.store (A ++ q :: x :: C)) (hadj : q.2.addr + q.2.size = x.2.addr) :
    Rep (p.merge q.1 x.1).store (A ++ (q.1, { q.2 with size := q.2.size + x.2.size }) :: C) := by
  have hq : p.region q.1 = q.2 := region_eq h (by simp)
  have hx : p.region x.1 = x.2 := region_eq h (by simp)
  have hsr : (p.merge q.1 x.1).store = p.store.absorb q.1 x.1 { q.2 with size := q.2.size + x.2.size } := by
    unfold merge GPUMemoryRegion.isAdjacent
    rw [hq, hx, if_pos (by simp [hadj])]
    rfl
  rw [hsr]
  exact h.absorb _

theorem merge_eq (p : GPUTensorPool) (i j : Nat) : ∃ s, p.merge i j = { p with store := s } := by
  unfold merge
  split
  · exact ⟨_, rfl⟩
  · exact ⟨p.store, rfl⟩

variable {a b : Nat} (error : RegionError) {fresh requestedSize : Nat} {fingerprint : String}

theorem mergeNext_spec (h : Rep p.store (A ++ x :: C)) (ht : Adjoins a (A ++ x :: C) b) :
    ∃ s, p.mergeNext x.1 (first C) = { p with store := s } ∧ Rep s (A ++ (takeNext x C).1 :: (takeNext x C).2) := by
  rcases takeNext_cases x C with ⟨heq, hhead⟩ | ⟨n, C', rfl, hn, heq⟩
  · refine ⟨p.store, ?_, by rw [heq]; exact h⟩
    cases C with
    | nil => rfl
    | cons n C =>
      have hn : p.region n.1 = n.2 := region_eq h (by simp)
      simp [mergeNext, hn, hhead n (by simp)]
  · have hrgn : p.region n.1 = n.2 := region_eq h (by simp)
    obtain ⟨s, hs⟩ := merge_eq p x.1 n.1
    refine ⟨s, by simp [mergeNext, hrgn, hn, hs], ?_⟩
    have hrep := merge_store h (adjoins_adjacent ht)
    rw [hs] at hrep
    rw [heq]
    exact hrep

theorem mergePrev_spec (h : Rep p.store (A ++ x :: C)) (ht : Adjoins a (A ++ x :: C) b) :
    ∃ s, p.mergePrev x.1 (last A) = ({ p with store := s }, (takePrev A x).2.1) ∧
      Rep s ((takePrev A x).1 ++ (takePrev A x).2 :: C) := by
  rcases takePrev_cases A x with ⟨heq, hla⟩ | ⟨q, A', rfl, hq, heq⟩
  · refine ⟨p.store, ?_, by rw [heq]; exact h⟩
    rw [heq]
    rcases eq_nil_or_concat A with rfl | ⟨A', q, rfl⟩
    · rfl
    · rw [concat_eq_append] at *
      have hq : p.region q.1 = q.2 := region_eq h (by simp)
      simp [mergePrev, hq, hla q (by simp)]
  · have h' : Rep p.store (A' ++ q :: x :: C) := by simpa using h
    have hrgn : p.region q.1 = q.2 := region_eq h' (by simp)
    obtain ⟨s, hs⟩ := merge_eq p q.1 x.1
    refine ⟨s, by simp [mergePrev, hrgn, hq, hs, heq], ?_⟩
    have hrep := merge_store h' (adjoins_adjacent (a := a) (b := b) (by simpa using ht))
    rw [hs] at hrep
    rw [heq]
    exact hrep

/-! ## The free regions -/

theorem removeFree_of_allocated {error : RegionError} {o : Option Nat} (h : ∀ i ∈ o, (p.region i).isAllocated = true) :
    p.removeFree error o = p := by
  cases o with
  | none => rfl
  | some i => simp [removeFree, h i rfl]

theorem removeFree_of_mem {error : RegionError} {i : Nat} {X Y : List (Nat × Nat)} (hfe : (p.region i).isAllocated = false)
    (h : p.freeRegions.Perm (X ++ ((p.region i).size, i) :: Y)) :
    ∃ fr, p.removeFree error (some i) = { p with freeRegions := fr } ∧ fr.Perm (X ++ Y) := by
  have hmem : ((p.region i).size, i) ∈ p.freeRegions := h.mem_iff.2 (by simp)
  refine ⟨p.freeRegions.erase ((p.region i).size, i), by simp [removeFree, hfe, hmem], ?_⟩
  have hcons := (perm_cons_erase hmem).symm.trans (h.trans perm_middle)
  exact hcons.cons_inv

theorem removeFree_next {F : List (Nat × Nat)} (h : Rep p.store (A ++ x :: C)) (hpm : p.freeRegions.Perm (F ++ freePairs C)) :
    ∃ fr, p.removeFree error (first C) = { p with freeRegions := fr } ∧ fr.Perm (F ++ freePairs (takeNext x C).2) := by
  rcases takeNext_cases x C with ⟨heq, hhead⟩ | ⟨n, C', rfl, hn, heq⟩
  · rw [heq]
    refine ⟨p.freeRegions, removeFree_of_allocated ?_, hpm⟩
    intro i hi
    cases C with
    | nil => cases hi
    | cons n C =>
      cases hi
      rw [region_eq h (c := n) (by simp)]
      exact hhead n (by simp)
  · rw [heq]
    have hrgn : p.region n.1 = n.2 := region_eq h (by simp)
    rw [freePairs_cons_free hn, ← hrgn] at hpm
    exact removeFree_of_mem (by rw [hrgn]; exact hn) hpm

theorem removeFree_prev {F : List (Nat × Nat)} (h : Rep p.store (A ++ x :: C)) (y : Cell)
    (hpm : p.freeRegions.Perm (freePairs A ++ F)) :
    ∃ fr, p.removeFree error (last A) = { p with freeRegions := fr } ∧ fr.Perm (freePairs (takePrev A y).1 ++ F) := by
  rcases takePrev_cases A y with ⟨heq, hla⟩ | ⟨q, A', rfl, hq, heq⟩
  · rw [heq]
    refine ⟨p.freeRegions, removeFree_of_allocated ?_, hpm⟩
    intro i hi
    rcases eq_nil_or_concat A with rfl | ⟨A', q, rfl⟩
    · cases hi
    · rw [concat_eq_append] at *
      rw [last_append, last_singleton, some_or] at hi
      cases hi
      rw [region_eq h (c := q) (by simp)]
      exact hla q (by simp)
  · rw [heq]
    have hrgn : p.region q.1 = q.2 := region_eq h (by simp)
    rw [freePairs_append, freePairs_cons_free hq, ← hrgn, append_assoc] at hpm
    rw [last_append, last_singleton, some_or]
    exact removeFree_of_mem (by rw [hrgn]; exact hq) hpm

theorem insertFree_of_rep (h : Rep p.store (A ++ x :: C)) (hx : x.2.isAllocated = false)
    (hpm : p.freeRegions.Perm (freePairs A ++ freePairs C)) :
    ∃ fr, p.insertFree error x.1 = { p with freeRegions := fr } ∧ fr.Perm (freePairs (A ++ x :: C)) := by
  have hrgn : p.region x.1 = x.2 := region_eq h (by simp)
  have hnot : ((p.region x.1).size, x.1) ∉ p.freeRegions := by
    intro hmem
    have hnd := h.nodup
    rw [ids_append, ids_cons, nodup_middle, nodup_cons, mem_append] at hnd
    rcases mem_append.1 (hpm.mem_iff.1 hmem) with hA | hC
    · exact hnd.1 (.inl (snd_mem_ids_of_mem_freePairs hA))
    · exact hnd.1 (.inr (snd_mem_ids_of_mem_freePairs hC))
  refine ⟨((p.region x.1).size, x.1) :: p.freeRegions, by simp [insertFree, hnot], ?_⟩
  rw [freePairs_append, freePairs_cons_free hx, hrgn]
  exact (hpm.cons _).trans perm_middle.symm

/-! ## FreeRegion -/

/-- The end of `FreeRegion`. -/
def clear (q : GPUTensorPool × Nat) : GPUTensorPool :=
  insertFree { q.1 with store := q.1.store.setVal q.2 { q.1.region q.2 with isAllocated := false } } .freeRegionInsertFailed q.2

theorem freeRegion_def (p : GPUTensorPool) (i : Nat) : p.freeRegion i =
    clear ((((({ p with allocatedRegions := p.allocatedRegions.erase (p.region i).fingerprint } : GPUTensorPool).removeFree
      .freeMergeNextFindFailed (p.store.node i).next).removeFree .freeMergePrevFindFailed (p.store.node i).prev).mergeNext
      i (p.store.node i).next).mergePrev i (p.store.node i).prev) := rfl

theorem freeRegion_eq (h : Holds p (A ++ x :: C)) (hx : x.2.isAllocated = true) :
    ∃ s fr, p.freeRegion x.1 = { p with
        store := s, freeRegions := fr, allocatedRegions := p.allocatedRegions.erase x.2.fingerprint } ∧
      Rep s (freedCells A x C) ∧ fr.Perm (freePairs (freedCells A x C)) := by
  have hnod := h.rep.node_eq
  have hrgn : p.region x.1 = x.2 := region_eq h.rep (by simp)
  have hpm : p.freeRegions.Perm (freePairs A ++ freePairs C) := by
    have := h.free
    rwa [freePairs_append, freePairs_cons_allocated hx] at this
  -- the neighbours that are free leave the set
  let p₁ : GPUTensorPool := { p with allocatedRegions := p.allocatedRegions.erase x.2.fingerprint }
  obtain ⟨fr₂, hnx, hpm₂⟩ := removeFree_next (p := p₁) .freeMergeNextFindFailed h.rep hpm
  obtain ⟨fr₃, hprev, hpm₃⟩ := removeFree_prev (p := { p₁ with freeRegions := fr₂ }) .freeMergePrevFindFailed h.rep
    (takeNext x C).1 hpm₂
  -- the region merges with them
  obtain ⟨s₄, hmerge, hrep₄⟩ := mergeNext_spec (p := { p₁ with freeRegions := fr₃ }) h.rep h.adjoins
  have hadjoins : Adjoins p.base (A ++ (takeNext x C).1 :: (takeNext x C).2) (p.base + p.totalSize) := by
    rcases takeNext_cases x C with ⟨heq, -⟩ | ⟨n, C', rfl, -, heq⟩
    · rw [heq]
      exact h.adjoins
    · rw [heq]
      exact adjoins_merge h.adjoins
  obtain ⟨s₅, hmerge', hrep₅⟩ := mergePrev_spec (p := { p₁ with freeRegions := fr₃, store := s₄ }) hrep₄ hadjoins
  have hfst : (takeNext x C).1.1 = x.1 := by
    rcases takeNext_cases x C with ⟨heq, -⟩ | ⟨n, C', rfl, -, heq⟩
    · rw [heq]
    · rw [heq]
  -- what is left of it is free
  have hrep₆ := hrep₅.setVal (setFree (takePrev A (takeNext x C).1).2).2
  obtain ⟨fr₇, hinsert, hpm₇⟩ := insertFree_of_rep (p := { p₁ with
    freeRegions := fr₃, store := s₅.setVal (takePrev A (takeNext x C).1).2.1 (setFree (takePrev A (takeNext x C).1).2).2 })
    .freeRegionInsertFailed hrep₆ rfl hpm₃
  refine ⟨_, fr₇, ?_, hrep₆, hpm₇⟩
  have hleft : (s₅.node (takePrev A (takeNext x C).1).2.1).val = (takePrev A (takeNext x C).1).2.2 := hrep₅.val_eq (by simp)
  have hchain : (((p₁.removeFree .freeMergeNextFindFailed (first C)).removeFree .freeMergePrevFindFailed (last A)).mergeNext
      x.1 (first C)).mergePrev x.1 (last A) =
      ({ p₁ with freeRegions := fr₃, store := s₅ }, (takePrev A (takeNext x C).1).2.1) := by
    rw [hfst] at hmerge'
    rw [hnx, hprev, hmerge, hmerge']
  rw [freeRegion_def, hnod, hrgn, hchain]
  dsimp only [clear, region]
  rw [hleft]
  exact hinsert

theorem first_freedCells (A : List Cell) (x : Cell) (C : List Cell) : first (freedCells A x C) = first (A ++ x :: C) := by
  have hfst : (takeNext x C).1.1 = x.1 := by
    rcases takeNext_cases x C with ⟨heq, -⟩ | ⟨n, C', rfl, -, heq⟩
    · rw [heq]
    · rw [heq]
  unfold freedCells
  rcases takePrev_cases A (takeNext x C).1 with ⟨heq, -⟩ | ⟨q, A', rfl, -, heq⟩
  · rw [heq]
    simp [setFree, hfst]
  · rw [heq]
    simp [setFree]

theorem mem_freedCells {c : Cell} (hc : c ∈ A ∨ c ∈ C) (halc : c.2.isAllocated = true) : c ∈ freedCells A x C := by
  unfold freedCells
  rw [mem_append, mem_cons]
  rcases hc with hA | hC
  · rcases takePrev_cases A (takeNext x C).1 with ⟨heq, -⟩ | ⟨q, A', rfl, hq, heq⟩
    · rw [heq]
      exact .inl hA
    · rw [heq]
      rw [mem_append, mem_singleton] at hA
      rcases hA with hA | rfl
      · exact .inl hA
      · rw [hq] at halc
        cases halc
  · rcases takeNext_cases x C with ⟨heq, -⟩ | ⟨n, C', rfl, hn, heq⟩
    · rw [heq]
      exact .inr (.inr hC)
    · rw [heq]
      rcases mem_cons.1 hC with rfl | hC
      · rw [hn] at halc
        cases halc
      · exact .inr (.inr hC)

theorem freeRegion_holds (h : Holds p (A ++ x :: C)) (hx : x.2.isAllocated = true) :
    Holds (p.freeRegion x.1) (freedCells A x C) := by
  obtain ⟨s, fr, heq, hrep, hpm⟩ := freeRegion_eq h hx
  rw [heq]
  refine ⟨hrep, ?_, adjoins_freedCells h.adjoins, coalesced_freedCells h.coalesced, hpm, ?_, h.errors⟩
  · rw [first_freedCells]
    exact h.view
  · intro fp i hi
    dsimp only at hi
    rw [Dict.get?_erase] at hi
    split at hi
    · cases hi
    · rename_i hne
      obtain ⟨r, hr, halc, hfp⟩ := h.index fp i hi
      refine ⟨r, mem_freedCells ?_ halc, halc, hfp⟩
      rw [mem_append, mem_cons] at hr
      rcases hr with hr | rfl | hr
      · exact .inl hr
      · exact absurd hfp.symm hne
      · exact .inr hr

/-! ## A free region is allocated -/

def taken (r : GPUMemoryRegion) (requestedSize : Nat) (fingerprint : String) : GPUMemoryRegion :=
  { r with size := requestedSize, isAllocated := true, fingerprint := fingerprint }

/-- What is left of it. -/
def rest (r : GPUMemoryRegion) (requestedSize : Nat) : GPUMemoryRegion :=
  ⟨false, r.addr + requestedSize, r.size - requestedSize, ""⟩

/-- What becomes of a free region. -/
def cutCells (x : Cell) (fresh requestedSize : Nat) (fingerprint : String) : List Cell :=
  if x.2.size > requestedSize then [(x.1, taken x.2 requestedSize fingerprint), (fresh, rest x.2 requestedSize)]
  else [(x.1, { x.2 with isAllocated := true, fingerprint := fingerprint })]

theorem allocate_eq (requestedSize : Nat) (fingerprint : String) (h : Holds p (A ++ x :: C)) (hx : x.2.isAllocated = false) :
    ∃ s fr, p.allocate (x.2.size, x.1) requestedSize fingerprint = { p with
        store := s, freeRegions := fr, allocatedRegions := p.allocatedRegions.set fingerprint x.1 } ∧
      Rep s (A ++ cutCells x p.store.fresh requestedSize fingerprint ++ C) ∧
      fr.Perm (freePairs (A ++ cutCells x p.store.fresh requestedSize fingerprint ++ C)) := by
  have hrgn : p.region x.1 = x.2 := region_eq h.rep (by simp)
  have hfe := h.free
  rw [freePairs_append, freePairs_cons_free hx] at hfe
  have hers : (p.freeRegions.erase (x.2.size, x.1)).Perm (freePairs A ++ freePairs C) := by
    have hmem : (x.2.size, x.1) ∈ p.freeRegions := hfe.mem_iff.2 (by simp)
    exact ((perm_cons_erase hmem).symm.trans (hfe.trans perm_middle)).cons_inv
  unfold allocate cutCells
  dsimp only
  rw [hrgn]
  split
  · -- the rest is a new region
    have hrep := (h.rep.setVal (taken x.2 requestedSize fingerprint)).insertAfter (rest x.2 requestedSize)
    rw [Store.setVal_fresh] at hrep
    have hrep' : Rep ((p.store.setVal x.1 (taken x.2 requestedSize fingerprint)).insertAfter x.1 (rest x.2 requestedSize))
        ((A ++ [(x.1, taken x.2 requestedSize fingerprint)]) ++ (p.store.fresh, rest x.2 requestedSize) :: C) := by
      simpa using hrep
    have hpm : (p.freeRegions.erase (x.2.size, x.1)).Perm
        (freePairs (A ++ [(x.1, taken x.2 requestedSize fingerprint)]) ++ freePairs C) := by
      rw [freePairs_append, freePairs_cons_allocated rfl]
      simpa [freePairs] using hers
    obtain ⟨fr, hinsert, hfr⟩ := insertFree_of_rep (p := { p with
      store := (p.store.setVal x.1 (taken x.2 requestedSize fingerprint)).insertAfter x.1 (rest x.2 requestedSize)
      freeRegions := p.freeRegions.erase (x.2.size, x.1) }) .remainingFreeRegionInsertFailed hrep' rfl hpm
    refine ⟨(p.store.setVal x.1 (taken x.2 requestedSize fingerprint)).insertAfter x.1 (rest x.2 requestedSize), fr, ?_,
      by simpa using hrep', by simpa using hfr⟩
    unfold taken rest at hinsert
    rw [hinsert]
    rfl
  · refine ⟨p.store.setVal x.1 { x.2 with isAllocated := true, fingerprint := fingerprint },
      p.freeRegions.erase (x.2.size, x.1),
      rfl, ?_, ?_⟩
    · simpa using h.rep.setVal { x.2 with isAllocated := true, fingerprint := fingerprint }
    · rw [append_assoc, freePairs_append, singleton_append, freePairs_cons_allocated rfl]
      exact hers

theorem adjoins_cutCells (h : Adjoins a (A ++ x :: C) b) :
    Adjoins a (A ++ cutCells x fresh requestedSize fingerprint ++ C) b := by
  unfold Adjoins cutCells at *
  rw [append_assoc]
  obtain ⟨m, hA, hx, hC⟩ := adjoins_append_iff.1 h
  refine adjoins_append_iff.2 ⟨m, hA, ?_⟩
  split
  · rename_i hlt
    dsimp only at hx hC
    refine ⟨hx, ?_, ?_⟩
    · dsimp only [taken, rest]
      omega
    · dsimp only [taken, rest]
      rwa [show m + requestedSize + (x.2.size - requestedSize) = m + x.2.size by omega]
  · exact ⟨hx, hC⟩

theorem positive_cutCells (h : Positive (A ++ x :: C)) (hpos : 0 < requestedSize) :
    Positive (A ++ cutCells x fresh requestedSize fingerprint ++ C) := by
  intro c hc
  rw [append_assoc, mem_append, mem_append] at hc
  rcases hc with hc | hc | hc
  · exact h c (by simp [hc])
  · unfold cutCells at hc
    split at hc
    · rename_i hlt
      rw [mem_pair] at hc
      rcases hc with rfl | rfl
      · exact hpos
      · dsimp only [rest]
        omega
    · rw [mem_singleton] at hc
      rw [hc]
      exact h x (by simp)
  · exact h c (by simp [hc])

theorem coalesced_cutCells (h : Coalesced (A ++ x :: C))
    (hx : x.2.isAllocated = false) : Coalesced (A ++ cutCells x fresh requestedSize fingerprint ++ C) := by
  unfold Coalesced cutCells at *
  rw [isChain_append, isChain_cons] at h
  obtain ⟨hA, ⟨hhead, hC⟩, -⟩ := h
  have hnx : ∀ c ∈ C.head?, c.2.isAllocated = true := by
    intro c hc
    rcases hhead c hc with h | h
    · rw [hx] at h
      cases h
    · exact h
  rw [append_assoc, isChain_append]
  split
  · refine ⟨hA, ?_, fun c _ d hd => .inr ?_⟩
    · rw [cons_append, singleton_append, isChain_cons, isChain_cons]
      exact ⟨fun _ _ => .inl rfl, fun c hc => .inr (hnx c hc), hC⟩
    · simp at hd
      rw [← hd]
      rfl
  · refine ⟨hA, ?_, fun c _ d hd => .inr ?_⟩
    · rw [singleton_append, isChain_cons]
      exact ⟨fun c hc => .inr (hnx c hc), hC⟩
    · simp at hd
      rw [← hd]

theorem first_cutCells (x : Cell) (fresh requestedSize : Nat) (fingerprint : String) (A C : List Cell) :
    first (A ++ cutCells x fresh requestedSize fingerprint ++ C) = first (A ++ x :: C) := by
  unfold cutCells
  split
  · simp
  · simp

theorem mem_cutCells (hle : requestedSize ≤ x.2.size) :
    (x.1, taken x.2 requestedSize fingerprint) ∈ cutCells x fresh requestedSize fingerprint := by
  unfold cutCells
  split
  · simp
  · have heq : x.2.size = requestedSize := by omega
    simp [taken, ← heq]

theorem allocate_holds (fingerprint : String) (h : Holds p (A ++ x :: C)) (hx : x.2.isAllocated = false)
    (hle : requestedSize ≤ x.2.size) :
    Holds (p.allocate (x.2.size, x.1) requestedSize fingerprint)
      (A ++ cutCells x p.store.fresh requestedSize fingerprint ++ C) := by
  obtain ⟨s, fr, heq, hrep, hpm⟩ := allocate_eq requestedSize fingerprint h hx
  rw [heq]
  refine ⟨hrep, ?_, adjoins_cutCells h.adjoins, coalesced_cutCells h.coalesced hx, hpm, ?_, h.errors⟩
  · rw [first_cutCells]
    exact h.view
  · intro fp i hi
    dsimp only at hi
    rw [Dict.get?_set] at hi
    split at hi
    · rename_i hfp
      cases hi
      refine ⟨taken x.2 requestedSize fingerprint, ?_, rfl, hfp.symm⟩
      exact mem_append_left _ (mem_append_right _ (mem_cutCells hle))
    · obtain ⟨r, hr, halc, hfp⟩ := h.index fp i hi
      refine ⟨r, ?_, halc, hfp⟩
      rw [mem_append, mem_cons] at hr
      rcases hr with hr | rfl | hr
      · exact mem_append_left _ (mem_append_left _ hr)
      · rw [hx] at halc
        cases halc
      · exact mem_append_right _ hr

end GPUTensorPool

end ServerlessLLM.ModelPool
