import ServerlessLLM.Vram.Cells

/-!
# The pointer operations, on lists of cells

`Holds p l` says that the linked list of the pool `p` is the list of cells `l`.
-/

namespace ServerlessLLM

open Linked List Function GPUTensorPool

/-- The linked list of the pool is `l`. -/
structure Holds (p : GPUTensorPool) (l : List Cell) : Prop where
  rep : Rep p.store l
  head : p.memoryRegions = first l

/-- What the operations on the list leave alone. -/
structure Frame (p q : GPUTensorPool) : Prop where
  base : q.gpuBaseAddr = p.gpuBaseAddr
  blockId : q.allocatedBlockId = p.allocatedBlockId

theorem Frame.refl (p : GPUTensorPool) : Frame p p := ⟨rfl, rfl⟩

theorem Frame.trans {p q r : GPUTensorPool} (h : Frame p q) (h' : Frame q r) : Frame p r :=
  ⟨h'.base.trans h.base, h'.blockId.trans h.blockId⟩

namespace Holds

variable {p : GPUTensorPool} {l A C : List Cell} {x : Cell}

/-! ## Reading the list -/

theorem regions_eq (h : Holds p l) : p.regions = ids l := by
  rw [regions, h.head]
  exact h.rep.walk

theorem region_eq (h : Holds p l) {c : Cell} (hc : c ∈ l) : p.region c.1 = c.2 := h.rep.val_eq hc

theorem region_mid (h : Holds p (A ++ x :: C)) : p.region x.1 = x.2 := h.region_eq (by simp)

theorem prev_eq (h : Holds p (A ++ x :: C)) : p.prev x.1 = last A := by
  rw [GPUTensorPool.prev, h.rep.node_eq]

theorem next_eq (h : Holds p (A ++ x :: C)) : p.next x.1 = first C := by
  rw [GPUTensorPool.next, h.rep.node_eq]

theorem map_regions {β : Type} (h : Holds p l) (f : Region → β) :
    (p.regions.map fun i => f (p.region i)) = l.map fun c => f c.2 := by
  rw [h.regions_eq, ids, map_map]
  exact map_congr_left fun c hc => by simp [h.region_eq hc]

theorem map_ids {β : Type} (h : Holds p l) {l' : List Cell} (hs : ∀ c ∈ l', c ∈ l) (f : Region → β) :
    ((ids l').map fun i => f (p.region i)) = l'.map fun c => f c.2 := by
  rw [ids, map_map]
  exact map_congr_left fun c hc => by simp [h.region_eq (hs c hc)]

theorem filter_ids (h : Holds p l) {l' : List Cell} (hs : ∀ c ∈ l', c ∈ l) (f : Region → Bool) :
    ((ids l').filter fun i => f (p.region i)) = ids (l'.filter fun c => f c.2) := by
  induction l' with
  | nil => rfl
  | cons c l' ih =>
    have hc := h.region_eq (hs c (by simp))
    rw [ids_cons, filter_cons, filter_cons, ih fun d hd => hs d (by simp [hd]), hc]
    split <;> rfl

theorem filter_regions (h : Holds p l) (f : Region → Bool) :
    (p.regions.filter fun i => f (p.region i)) = ids (l.filter fun c => f c.2) := by
  rw [h.regions_eq]
  exact h.filter_ids (fun c hc => hc) f

theorem find_regions (h : Holds p l) (f : Region → Bool) :
    (p.regions.find? fun i => f (p.region i)) = (l.find? fun c => f c.2).map Prod.fst := by
  rw [h.regions_eq]
  have hs : ∀ c ∈ l, p.region c.1 = c.2 := fun c hc => h.region_eq hc
  clear h
  induction l with
  | nil => rfl
  | cons c l ih =>
    rw [ids_cons, List.find?_cons, List.find?_cons, hs c (by simp)]
    cases f c.2 with
    | true => rfl
    | false => exact ih fun d hd => hs d (by simp [hd])

theorem getFreeSize_eq (h : Holds p l) : p.getFreeSize = freeBytes l := by
  rw [getFreeSize, h.map_regions fun r => if r.status = .FREE then r.size else 0]
  rfl

theorem window {W : List Cell} {s e : NodeId} (h : Holds p (A ++ W ++ C)) (hs : first W = some s) (he : last W = some e) :
    p.prev s = last A ∧ p.next e = first C ∧ p.regionsUntil (some s) (first C) = ids W := by
  have hne : W ≠ [] := by rintro rfl; simp at hs
  refine ⟨?_, ?_, ?_⟩
  · cases W with
    | nil => exact absurd rfl hne
    | cons c W =>
      obtain rfl : c.1 = s := by simpa using hs
      have h' : Holds p (A ++ c :: (W ++ C)) := by simpa using h
      exact h'.prev_eq
  · rcases eq_nil_or_concat W with rfl | ⟨W, c, rfl⟩
    · exact absurd rfl hne
    · obtain rfl : c.1 = e := by simpa using he
      have h' : Holds p ((A ++ W) ++ c :: C) := by simpa using h
      exact h'.next_eq
  · rw [regionsUntil, ← hs]
    exact h.rep.walkUntil hne

theorem of_eq (h : Holds p l) {q : GPUTensorPool} (hs : q.store = p.store) (hm : q.memoryRegions = p.memoryRegions) :
    Holds q l :=
  ⟨hs ▸ h.rep, hm.trans h.head⟩

/-! ## Assigning to a region -/

theorem setRegion (h : Holds p (A ++ x :: C)) (r : Region) : Holds (p.setRegion x.1 r) (A ++ (x.1, r) :: C) := by
  refine ⟨h.rep.setVal r, ?_⟩
  rw [show (p.setRegion x.1 r).memoryRegions = p.memoryRegions from rfl, h.head]
  cases A <;> rfl

/-! ## Freeing a region -/

theorem merge {q : Cell} (h : Holds p (A ++ q :: x :: C)) (hq : q.2.addr + q.2.size = x.2.addr) :
    Holds (p.merge q.1 x.1) (A ++ (q.1, q.2.setSize (q.2.size + x.2.size)) :: C) := by
  have hx' : Rep p.store ((A ++ [q]) ++ x :: C) := by simpa using h.rep
  have e1 : p.region q.1 = q.2 := h.region_mid
  have e2 : p.region x.1 = x.2 := h.region_eq (by simp)
  have e3 : p.next x.1 = first C := by rw [GPUTensorPool.next, hx'.node_eq]
  have hne : q.1 ≠ x.1 := by
    have := h.rep.not_mem_right
    simp only [ids_cons, mem_cons, not_or] at this
    exact this.1
  -- the writes are those of an unlinking, once the size of the left region was written
  have hs : (p.merge q.1 x.1).store = (p.store.setVal q.1 (q.2.setSize (q.2.size + x.2.size))).unlink x.1 := by
    have hn : (p.store.setVal q.1 (q.2.setSize (q.2.size + x.2.size))).node x.1 = ⟨x.2, some q.1, first C⟩ := by
      rw [Store.setVal_node, if_neg hne.symm, hx'.node_eq]
      simp
    simp only [GPUTensorPool.merge, e1, e2, e3, hq, if_true, Store.unlink, hn]
  refine ⟨?_, ?_⟩
  · rw [hs]
    have hv := h.rep.setVal (q.2.setSize (q.2.size + x.2.size))
    rw [← singleton_append, ← append_assoc] at hv
    simpa using hv.unlink
  · have hm : (p.merge q.1 x.1).memoryRegions = p.memoryRegions := by
      simp only [GPUTensorPool.merge, e1, e2, hq, if_true]
    rw [hm, h.head]
    cases A <;> rfl

theorem mergePrev {a b : Nat} (h : Holds p (A ++ x :: C)) (ht : IsTiling a (A ++ x :: C) b) :
    Holds (p.mergePrev x.1).1 ((absorbLeft A x).1 ++ (absorbLeft A x).2 :: C) ∧ (p.mergePrev x.1).2 = (absorbLeft A x).2.1 := by
  have hp := h.prev_eq
  rcases eq_nil_or_concat A with rfl | ⟨A, q, rfl⟩
  · simp only [mergePrev, hp, last_nil, absorbLeft_nil]
    exact ⟨h, trivial⟩
  · rw [concat_eq_append] at *
    have hq : p.region q.1 = q.2 := h.region_eq (by simp)
    have h' : Holds p (A ++ q :: x :: C) := by simpa using h
    simp only [mergePrev, hp, last_append, last_singleton, Option.some_or, hq, absorbLeft_concat]
    by_cases hf : q.2.status = .FREE
    · have hadj : q.2.addr + q.2.size = x.2.addr := by
        rw [append_assoc] at ht
        obtain ⟨m, -, h2⟩ := isTiling_append.1 ht
        obtain ⟨h3, -, h4⟩ := isTiling_cons.1 h2
        rw [h3, (isTiling_cons.1 h4).1]
      simp only [hf, if_true]
      exact ⟨h'.merge hadj, trivial⟩
    · simp only [hf, if_false]
      exact ⟨h, trivial⟩

theorem mergeNext {a b : Nat} (h : Holds p (A ++ x :: C)) (ht : IsTiling a (A ++ x :: C) b) :
    Holds (p.mergeNext x.1) (A ++ absorbRight x C) := by
  have hn := h.next_eq
  cases C with
  | nil =>
    simp only [mergeNext, hn, first_nil, absorbRight]
    exact h
  | cons n C =>
    have hv : p.region n.1 = n.2 := h.region_eq (by simp)
    simp only [mergeNext, hn, first_cons, hv, absorbRight]
    by_cases hf : n.2.status = .FREE
    · have hadj : x.2.addr + x.2.size = n.2.addr := by
        obtain ⟨m, -, h2⟩ := isTiling_append.1 ht
        obtain ⟨h3, -, h4⟩ := isTiling_cons.1 h2
        rw [h3, (isTiling_cons.1 h4).1]
      simp only [hf, if_true]
      exact h.merge hadj
    · simp only [hf, if_false]
      exact h

end Holds

/-! ### What freeing does not touch -/

namespace GPUTensorPool

variable (p : GPUTensorPool) (i : NodeId)

theorem merge_eq (j : NodeId) : ∃ s, p.merge i j = { p with store := s } := by
  unfold merge
  dsimp only
  split
  · exact ⟨_, rfl⟩
  · split
    · exact ⟨_, rfl⟩
    · exact ⟨p.store, rfl⟩

theorem mergePrev_eq : ∃ s, (p.mergePrev i).1 = { p with store := s } := by
  unfold mergePrev
  split
  · split
    · exact p.merge_eq _ _
    · exact ⟨p.store, rfl⟩
  · exact ⟨p.store, rfl⟩

theorem mergeNext_eq : ∃ s, p.mergeNext i = { p with store := s } := by
  unfold mergeNext
  split
  · split
    · exact p.merge_eq _ _
    · exact ⟨p.store, rfl⟩
  · exact ⟨p.store, rfl⟩

theorem freeRegion_eq {p : GPUTensorPool} {i : NodeId} (h : (p.region i).status = .ALLOCATED) :
    ∃ s, p.freeRegion i = { p with
      store := s, allocatedRegions := update p.allocatedRegions (p.region i).fingerprint none } := by
  obtain ⟨s1, h1⟩ := (p.markFree i).mergePrev_eq i
  obtain ⟨s2, h2⟩ := ((p.markFree i).mergePrev i).1.mergeNext_eq ((p.markFree i).mergePrev i).2
  rw [h1] at h2
  simp only [freeRegion, h, ne_eq, not_true_eq_false, if_false, h1, h2]
  exact ⟨_, rfl⟩

end GPUTensorPool

namespace Holds

variable {p : GPUTensorPool} {l A C : List Cell} {x : Cell}

theorem fixLinks (h : Holds p (A ++ x :: C)) : p.fixLinks x.1 = p := by
  have e1 : p.store.setNext (p.prev x.1) (some x.1) = p.store := by rw [h.prev_eq, h.rep.setNext_eq]
  have e2 : p.store.setPrev (p.next x.1) (some x.1) = p.store := by rw [h.next_eq, h.rep.setPrev_eq]
  simp only [GPUTensorPool.fixLinks, e1, e2]

theorem absorbRight_eq (y : Cell) (C : List Cell) : ∃ z C', absorbRight y C = z :: C' ∧ z.1 = y.1 := by
  cases C with
  | nil => exact ⟨y, [], rfl, rfl⟩
  | cons n C =>
    simp only [absorbRight]
    split
    · exact ⟨_, C, rfl, rfl⟩
    · exact ⟨y, n :: C, rfl, rfl⟩

theorem freeRegion {a b : Nat} (h : Holds p (A ++ x :: C)) (ht : IsTiling a (A ++ x :: C) b)
    (hx : x.2.status = .ALLOCATED) : Holds (p.freeRegion x.1) (freeCells A x C) := by
  have e1 : p.region x.1 = x.2 := h.region_mid
  have h1 : Holds (p.markFree x.1) (A ++ x.freed :: C) := by
    refine (h.setRegion (x.2.setStatus .FREE)).of_eq ?_ rfl
    simp only [markFree, e1]
  have ht1 : IsTiling a (A ++ x.freed :: C) b := Tiling.Tiles.of_map_eq ht (by simp [Cell.freed])
  obtain ⟨h2, h3⟩ := h1.mergePrev ht1
  have h4 := h2.mergeNext (isTiling_absorbLeft ht1)
  obtain ⟨z, C', hz, hz1⟩ := absorbRight_eq (absorbLeft A x.freed).2 C
  have h5 := hz ▸ h4
  have h6 := h5.fixLinks
  simp only [show x.freed.1 = x.1 from rfl] at h3 h4 h6
  simp only [GPUTensorPool.freeRegion, e1, hx, ne_eq, not_true_eq_false, if_false]
  rw [hz1] at h6
  rw [h3, h6]
  exact h4

/-! ## Cutting a region -/

theorem splitOff (h : Holds p (A ++ x :: C)) (size : Nat) (hs : size ≤ x.2.size) :
    Holds (p.splitOff x.1 size).1 (A ++ (x.1, x.2.setSize size) ::
      ((if size < x.2.size then [(p.store.fresh, Region.mk' (x.2.addr + size) (x.2.size - size))] else []) ++ C)) := by
  have e1 : p.region x.1 = x.2 := h.region_mid
  have hm := h.head
  by_cases hlt : size < x.2.size
  · have h1 := h.rep.insertAfter (Region.mk' (x.2.addr + size) (x.2.size - size))
    have h2 := h1.setVal (x.2.setSize size)
    simp only [GPUTensorPool.splitOff, e1, hlt, if_true]
    refine ⟨h2, ?_⟩
    cases A <;> simpa using hm
  · obtain rfl : size = x.2.size := by omega
    simp only [GPUTensorPool.splitOff, e1, hlt, if_false, nil_append]
    exact h

theorem enter (h : Holds p (A ++ x :: C)) (fp : String) :
    Holds (p.enter x.1 fp) (A ++ (x.1, (x.2.setStatus .ALLOCATED).setFingerprint fp) :: C) := by
  have h1 := h.setRegion ((x.2.setStatus .ALLOCATED).setFingerprint fp)
  rw [← h.region_mid] at h1
  rw [← h.region_mid]
  exact h1.of_eq rfl rfl

theorem cutRegion (h : Holds p (A ++ x :: C)) (size : Nat) (fp : String) (hs : size ≤ x.2.size) :
    Holds (p.cutRegion x.1 size fp).1 (A ++ cutCells x p.store.fresh size fp x.2.modelRef ++ C) := by
  have h1 := (h.splitOff size hs).enter (x := (x.1, x.2.setSize size)) fp
  rw [append_assoc, cutCells, cons_append]
  exact h1

end Holds

theorem GPUTensorPool.cutRegion_eq (p : GPUTensorPool) (i : NodeId) (size : Nat) (fp : String) :
    ∃ s, (p.cutRegion i size fp).1 =
      { p with store := s, allocatedRegions := update p.allocatedRegions fp (some i) } := by
  unfold cutRegion splitOff
  by_cases h : size < (p.region i).size
  · simp only [h, if_true]
    exact ⟨_, rfl⟩
  · simp only [h, if_false]
    exact ⟨_, rfl⟩

namespace Holds

variable {p : GPUTensorPool} {A C D : List Cell} {x : Cell}

theorem setModelRef {fresh size : Nat} {fp : String} {r : Option RegisteredModel} (m : RegisteredModel)
    (h : Holds p (A ++ cutCells x fresh size fp r ++ C)) :
    Holds (p.setModelRef x.1 m) (A ++ cutCells x fresh size fp (some m) ++ C) := by
  rw [cutCells, append_assoc, cons_append] at h
  have e1 := h.region_mid
  have h1 := h.setRegion (x := (x.1, _)) ((p.region x.1).setModelRef (some m))
  rw [e1] at h1
  rw [cutCells, append_assoc, cons_append, GPUTensorPool.setModelRef, e1]
  exact h1

end Holds

end ServerlessLLM
