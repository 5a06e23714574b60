import ServerlessLLM.Vram.Lemmas.DropOps
import ServerlessLLM.Vram.Lemmas.PackOps

/-!
# `LoadModel` on a pool

`LoadModel` cleans the KV blocks, collects the groups that are not in the pool, evicts, places the groups by one of the
strategies and copies them from host memory.
-/

namespace ServerlessLLM

open Linked List GPUTensorPool Region Store TGNeedAllocates

/-! ## `CleanBlocks` -/

namespace GPUTensorPool

theorem merge_other {p : GPUTensorPool} {q x i : NodeId} (h : (p.region q).addr + (p.region q).size = (p.region x).addr)
    (hi : i ≠ q) : (p.merge q x).region i = p.region i ∧ (p.merge q x).next i = p.next i := by
  have hqi : some q ≠ some i := by simpa using hi.symm
  have hm : (p.merge q x).store = ((p.store.setVal q ((p.region q).setSize ((p.region q).size + (p.region x).size))).setNext
      (some q) (p.next x)).setPrev (p.next x) (some q) := by
    simp only [merge, h, if_true]
  have hn : ∃ o, (p.merge q x).store.node i = { p.store.node i with prev := o } := by
    rw [hm, setPrev_node]
    split
    · rw [setNext_node, if_neg hqi, setVal_node, if_neg hi]
      exact ⟨_, rfl⟩
    · rw [setNext_node, if_neg hqi, setVal_node, if_neg hi]
      exact ⟨_, rfl⟩
  obtain ⟨o, ho⟩ := hn
  simp only [region, next, ho, and_self]

end GPUTensorPool

/-- What is left of the part of the list behind a freed region: a FREE region in front is taken in. -/
def restOf : List Cell → List Cell
  | [] => []
  | n :: C => if n.2.status = .FREE then C else n :: C

theorem length_restOf (C : List Cell) : (restOf C).length ≤ C.length := by
  cases C with
  | nil => exact Nat.le_refl _
  | cons n C => by_cases hn : n.2.status = .FREE <;> simp [restOf, hn]

/-- A cursor of the loop of `CleanBlocks` into the rest `R` of the list: its first region, or a region that was unlinked, is
FREE and still points there. The number bounds the rounds the loop will make. -/
def Cursor (p : GPUTensorPool) (cur : Option NodeId) (R : List Cell) (fuel : Nat) : Prop :=
  (cur = first R ∧ R.length ≤ fuel) ∨
    ∃ n, cur = some n ∧ (p.region n).status = .FREE ∧ p.next n = first R ∧ R.length + 1 ≤ fuel

theorem freeCells_eq (A C : List Cell) (x : Cell) :
    ∃ z : Cell, z.2.status = .FREE ∧ z.1 = (absorbLeft A x.freed).2.1 ∧
      freeCells A x C = ((absorbLeft A x.freed).1 ++ [z]) ++ restOf C := by
  have hs : (absorbLeft A x.freed).2.2.status = .FREE := absorbLeft_status rfl
  unfold freeCells
  generalize absorbLeft A x.freed = y at hs ⊢
  cases C with
  | nil => exact ⟨y.2, hs, rfl, by simp [absorbRight, restOf]⟩
  | cons n C =>
    by_cases hn : n.2.status = .FREE
    · exact ⟨(y.2.1, y.2.2.setSize (y.2.2.size + n.2.size)), hs, rfl, by simp [absorbRight, restOf, hn]⟩
    · exact ⟨y.2, hs, rfl, by simp [absorbRight, restOf, hn]⟩

namespace Holds

variable {p : GPUTensorPool} {A C : List Cell} {x : Cell} {a b : Nat}

theorem freeRegion_stale {q : Cell} (h : Holds p (A ++ [q] ++ x :: C)) (ht : IsTiling a (A ++ [q] ++ x :: C) b)
    (hx : x.2.status = .ALLOCATED) (hq : q.2.status = .FREE) {fuel : Nat} (hf : C.length ≤ fuel) :
    Cursor (p.freeRegion x.1) ((p.freeRegion x.1).next x.1) (restOf C) fuel := by
  have e1 : p.region x.1 = x.2 := h.region_mid
  have h1 : Holds (p.markFree x.1) (A ++ q :: x.freed :: C) := by
    have := h.setRegion (x.2.setStatus .FREE)
    rw [append_assoc, singleton_append] at this
    refine this.of_eq ?_ rfl
    simp only [markFree, e1]
  have ht1 : IsTiling a (A ++ q :: x.freed :: C) b := Tiling.Tiles.of_map_eq ht (by simp [Cell.freed])
  obtain ⟨m, -, h2⟩ := isTiling_append.1 ht1
  obtain ⟨t1, -, t2⟩ := isTiling_cons.1 h2
  obtain ⟨t3, -, t4⟩ := isTiling_cons.1 t2
  -- first the freed region goes into the one before it
  have hrq : (p.markFree x.1).region q.1 = q.2 := h1.region_mid
  have hrx : (p.markFree x.1).region x.1 = x.freed.2 := h1.region_eq (c := x.freed) (by simp)
  have hadj : ((p.markFree x.1).region q.1).addr + ((p.markFree x.1).region q.1).size = ((p.markFree x.1).region x.1).addr := by
    rw [hrq, hrx, t1, t3]
  have hxq : x.1 ≠ q.1 := by
    have := h1.rep.not_mem_right
    simp only [ids_cons, mem_cons, not_or] at this
    exact fun he => this.1 he.symm
  have hprev : (p.markFree x.1).mergePrev x.1 = ((p.markFree x.1).merge q.1 x.1, q.1) := by
    have h1' : Holds (p.markFree x.1) ((A ++ [q]) ++ x.freed :: C) := by simpa using h1
    have := h1'.prev_eq
    simp only [GPUTensorPool.mergePrev, show (p.markFree x.1).prev x.1 = some q.1 by simpa [Cell.freed] using this, hrq, hq,
      if_true]
  have h3 : Holds ((p.markFree x.1).merge q.1 x.1) (A ++ (q.1, q.2.setSize (q.2.size + x.freed.2.size)) :: C) :=
    h1.merge (by rw [t1, t3])
  have ht3 : IsTiling a (A ++ (q.1, q.2.setSize (q.2.size + x.freed.2.size)) :: C) b := by
    have := isTiling_absorbLeft (A := A ++ [q]) (y := x.freed) (C := C) (by simpa using ht1)
    simpa [absorbLeft_concat, hq] using this
  have hnx : ((p.markFree x.1).merge q.1 x.1).next x.1 = first C := by
    have h1' : Holds (p.markFree x.1) ((A ++ [q]) ++ x.freed :: C) := by simpa using h1
    rw [(merge_other hadj hxq).2]
    exact h1'.next_eq
  -- then the region behind, when it is FREE
  have hfix : p.freeRegion x.1 = ((p.markFree x.1).merge q.1 x.1).mergeNext q.1 := by
    have h4 := h3.mergeNext ht3
    obtain ⟨z, C', hz, hz1⟩ := absorbRight_eq (q.1, q.2.setSize (q.2.size + x.freed.2.size)) C
    have h5 := (hz ▸ h4).fixLinks
    rw [hz1] at h5
    simp only [GPUTensorPool.freeRegion, e1, hx, ne_eq, not_true_eq_false, if_false, hprev]
    exact h5
  rw [hfix]
  have hnq : ((p.markFree x.1).merge q.1 x.1).next q.1 = first C := h3.next_eq
  cases C with
  | nil =>
    have : ((p.markFree x.1).merge q.1 x.1).mergeNext q.1 = (p.markFree x.1).merge q.1 x.1 := by
      simp [GPUTensorPool.mergeNext, hnq]
    rw [this, hnx]
    exact .inl ⟨rfl, by simp [restOf]⟩
  | cons n C =>
    have hrn : ((p.markFree x.1).merge q.1 x.1).region n.1 = n.2 := h3.region_eq (by simp)
    by_cases hn : n.2.status = .FREE
    · have : ((p.markFree x.1).merge q.1 x.1).mergeNext q.1 = ((p.markFree x.1).merge q.1 x.1).merge q.1 n.1 := by
        simp [GPUTensorPool.mergeNext, hnq, hrn, hn]
      have hrq' : ((p.markFree x.1).merge q.1 x.1).region q.1 = q.2.setSize (q.2.size + x.freed.2.size) := h3.region_mid
      have hadj' : (((p.markFree x.1).merge q.1 x.1).region q.1).addr +
          (((p.markFree x.1).merge q.1 x.1).region q.1).size = (((p.markFree x.1).merge q.1 x.1).region n.1).addr := by
        rw [hrq', hrn, (isTiling_cons.1 t4).1]
        simp only [setSize_addr, setSize_size]
        omega
      have hnq' : n.1 ≠ q.1 := by
        have := h3.rep.not_mem_right
        simp only [ids_cons, mem_cons, not_or] at this
        exact fun he => this.1 he.symm
      have h3' : Holds ((p.markFree x.1).merge q.1 x.1)
          ((A ++ [(q.1, q.2.setSize (q.2.size + x.freed.2.size))]) ++ n :: C) := by simpa using h3
      rw [this]
      refine .inr ⟨n.1, ?_, ?_, ?_, ?_⟩
      · rw [(merge_other hadj' hxq).2, hnx]
        rfl
      · rw [(merge_other hadj' hnq').1, hrn]
        exact hn
      · rw [(merge_other hadj' hnq').2, h3'.next_eq, restOf, if_pos hn]
      · simpa [restOf, hn] using hf
    · have : ((p.markFree x.1).merge q.1 x.1).mergeNext q.1 = (p.markFree x.1).merge q.1 x.1 := by
        simp [GPUTensorPool.mergeNext, hnq, hrn, hn]
      rw [this, hnx]
      exact .inl ⟨by simp [restOf, hn], by simpa [restOf, hn] using hf⟩

theorem freeRegion_cursor (h : Holds p (A ++ x :: C)) (ht : IsTiling a (A ++ x :: C) b) (hx : x.2.status = .ALLOCATED)
    {fuel : Nat} (hf : C.length ≤ fuel) : Cursor (p.freeRegion x.1) ((p.freeRegion x.1).next x.1) (restOf C) fuel := by
  have hp := h.freeRegion ht hx
  obtain ⟨z, -, hz, hfc⟩ := freeCells_eq A C x
  rw [hfc, append_assoc, singleton_append] at hp
  rcases eq_nil_or_concat A with rfl | ⟨A, q, rfl⟩
  · have := hp.next_eq
    rw [hz] at this
    exact .inl ⟨this, (length_restOf C).trans hf⟩
  · rw [concat_eq_append] at *
    rw [absorbLeft_concat] at hz
    by_cases hq : q.2.status = .FREE
    · exact h.freeRegion_stale ht hx hq hf
    · have := hp.next_eq
      rw [hz, if_neg hq] at this
      exact .inl ⟨this, (length_restOf C).trans hf⟩

end Holds

def IsKvRegion (r : Region) : Prop := GPUTensorPool.isKv r.fingerprint = true

theorem cleanBlocksLoop_spec {a b : Nat} :
    ∀ (fuel : Nat) (cur : Option NodeId) (p : GPUTensorPool) (D R : List Cell), WellFormed a b p → p.cells = D ++ R →
      (∀ c ∈ allocatedOf D, ¬IsKvRegion c.2) → Cursor p cur R fuel →
      WellFormed a b (cleanBlocksLoop fuel cur p) ∧ Frame p (cleanBlocksLoop fuel cur p) ∧
        Evicted IsKvRegion p.view (cleanBlocksLoop fuel cur p).view ∧
        ∀ c ∈ allocatedOf (cleanBlocksLoop fuel cur p).cells, ¬IsKvRegion c.2 := by
  intro fuel
  induction fuel with
  | zero =>
    intro cur p D R hw hc hD hcur
    have hR : R = [] := by
      rcases hcur with ⟨-, hl⟩ | ⟨n, -, -, -, hl⟩
      · exact length_eq_zero_iff.1 (by omega)
      · omega
    subst hR
    rw [append_nil] at hc
    exact ⟨hw, Frame.refl p, .refl _, fun c hc' => hD c (hc ▸ hc')⟩
  | succ fuel ih =>
    intro cur p D R hw hc hD hcur
    rcases hcur with ⟨rfl, hl⟩ | ⟨n, rfl, hn, hnx, hl⟩
    · cases R with
      | nil =>
        rw [append_nil] at hc
        exact ⟨hw, Frame.refl p, .refl _, fun c hc' => hD c (hc ▸ hc')⟩
      | cons x R =>
        have hh : Holds p (D ++ x :: R) := hc ▸ hw.holds
        have hr : p.region x.1 = x.2 := hh.region_mid
        have hlen : R.length ≤ fuel := by simpa using hl
        simp only [first_cons, cleanBlocksLoop, hr]
        by_cases hk : x.2.status = .ALLOCATED ∧ isKv x.2.fingerprint = true
        · -- the region is freed: it, or what it was merged into, ends the part gone through
          simp only [hk, and_self, if_true]
          obtain ⟨h1, h2, h3⟩ := hw.freeRegion hc hk.1
          obtain ⟨z, hz, -, hfc⟩ := freeCells_eq D R x
          have hcls : (p.freeRegion x.1).cells = ((absorbLeft D x.freed).1 ++ [z]) ++ restOf R :=
            (congrArg View.cells h2).trans hfc
          have hcur := hh.freeRegion_cursor (hc ▸ hw.layout.tiling) hk.1 hlen
          have hD' : ∀ c ∈ allocatedOf ((absorbLeft D x.freed).1 ++ [z]), ¬IsKvRegion c.2 := by
            rw [allocatedOf_append, allocatedOf_absorbLeft, allocatedOf_cons, if_neg (by rw [hz]; decide)]
            simpa using hD
          obtain ⟨i1, i2, i3, i4⟩ := ih _ _ _ _ h1 hcls hD' hcur
          exact ⟨i1, h3.trans i2, (hw.freeRegion_evicted hc hk.1 hk.2).trans i3, i4⟩
        · simp only [hk, if_false]
          rw [hh.next_eq]
          refine ih _ _ (D ++ [x]) R hw (by simpa using hc) ?_ (.inl ⟨rfl, hlen⟩)
          intro c hc'
          rw [allocatedOf_append, mem_append] at hc'
          rcases hc' with hc' | hc'
          · exact hD c hc'
          · obtain ⟨h1, h2⟩ := mem_allocatedOf.1 hc'
            obtain rfl := mem_singleton.1 h1
            exact fun hk' => hk ⟨h2, hk'⟩
    · simp only [cleanBlocksLoop, hn, hnx, reduceCtorEq, false_and, if_false]
      exact ih _ _ D R hw hc hD (.inl ⟨rfl, by omega⟩)

theorem WellFormed.cleanBlocks {a b : Nat} {p : GPUTensorPool} (h : WellFormed a b p) :
    WellFormed a b p.cleanBlocks ∧ Frame p p.cleanBlocks ∧ Evicted IsKvRegion p.view p.cleanBlocks.view ∧
      ∀ c ∈ allocatedOf p.cleanBlocks.cells, ¬IsKvRegion c.2 := by
  unfold GPUTensorPool.cleanBlocks
  refine cleanBlocksLoop_spec _ _ p [] p.cells h rfl (by simp) (.inl ⟨h.holds.head, h.holds.rep.length_le⟩)

/-! ## `AllocateBlocks` -/

/-- The view after KV regions were carved out of FREE ones: the numbers are those of the last block before and after. -/
inductive Carved : Nat → View → Nat → View → Prop
  | refl (k : Nat) (v : View) : Carved k v k v
  | carve {k n k' size addr : Nat} {m : Option RegisteredModel} {v v₁ v' : View} (hn : 0 < n)
      (hp : Placed size (kvFingerprint (k + n)) m v v₁ addr) (h : Carved (k + n) v₁ k' v') :
      Carved k v k' v'

theorem isKv_kvFingerprint (k : Nat) : GPUTensorPool.isKv (kvFingerprint k) = true := by
  unfold isKv kvFingerprint
  rw [decide_eq_true_eq, String.toList_append]
  exact ⟨[], '-' :: (toString k).toList, by simp⟩

theorem kvFingerprint_ne_empty (k : Nat) : GPUTensorPool.kvFingerprint k ≠ "" := by
  intro h
  have := isKv_kvFingerprint k
  rw [h] at this
  exact absurd this (by decide)

theorem kvFingerprint_injective : Function.Injective GPUTensorPool.kvFingerprint := by
  intro j k h
  unfold kvFingerprint at h
  have h1 := congrArg String.toList h
  rw [String.toList_append, String.toList_append, append_cancel_left_eq] at h1
  -- the decimal digits give the number back
  have h2 := congrArg (fun l => Nat.ofDigitChars 10 l 0) h1
  simpa [Nat.toString_eq_ofList_toDigits] using h2

/-- The KV regions were numbered up to `k`. -/
def KvBelow (k : Nat) (v : View) : Prop := ∀ n, k < n → Absent (kvFingerprint n) v

namespace Carved

variable {k k' : Nat} {v v' : View}

theorem trans {k'' : Nat} {v'' : View} (h : Carved k v k' v') (h' : Carved k' v' k'' v'') : Carved k v k'' v'' := by
  induction h with
  | refl k v => exact h'
  | carve hn hp _ ih => exact carve hn hp (ih h')

theorem mem_of_mem (h : Carved k v k' v') {c : Cell} (hc : c ∈ allocatedOf v.cells) : c ∈ allocatedOf v'.cells := by
  induction h with
  | refl k v => exact hc
  | carve hn hp h ih => exact ih (hp.mem_of_mem hc)

theorem mem_or (h : Carved k v k' v') {c : Cell} (hc : c ∈ allocatedOf v'.cells) :
    c ∈ allocatedOf v.cells ∨ IsKvRegion c.2 := by
  induction h with
  | refl k v => exact .inl hc
  | carve hn hp h ih =>
    rcases ih hc with hc | hc
    · obtain ⟨i, -, h2, -⟩ := hp.mem_iff
      rcases (h2 c).1 hc with rfl | hc
      · exact .inr (isKv_kvFingerprint _)
      · exact .inl hc
    · exact .inr hc

theorem sound (h : Carved k v k' v') (hn : Named v) (hs : IndexSound v) : Named v' ∧ IndexSound v' := by
  induction h with
  | refl k v => exact ⟨hn, hs⟩
  | carve _ hp h ih => exact ih (hp.named hn (kvFingerprint_ne_empty _)) (hp.indexSound hs)

theorem kvBelow (h : Carved k v k' v') (hk : KvBelow k v) : KvBelow k' v' := by
  induction h with
  | refl k v => exact hk
  | @carve k n k' size addr m v v₁ v' hn hp h ih =>
    refine ih fun j hj => hp.absent (hk j (by omega)) ?_
    intro he
    have := kvFingerprint_injective he
    omega

theorem complete (h : Carved k v k' v') (hk : KvBelow k v) (hc : IndexComplete v) : IndexComplete v' := by
  induction h with
  | refl k v => exact hc
  | @carve k n k' size addr m v v₁ v' hn hp h ih =>
    have h1 : Carved k v (k + n) v₁ := carve hn hp (refl _ _)
    exact ih (h1.kvBelow hk) (hp.indexComplete hc (hk (k + n) (by omega)))

end Carved

/-- A range of `blockSize` bytes lies in a region. -/
def Covers (r : Region) (addr blockSize : Nat) : Prop := r.addr ≤ addr ∧ addr + blockSize ≤ r.addr + r.size

/-- The ranges at the offsets lie in KV regions that are new. -/
def FreshBlocks (p q : GPUTensorPool) (blockSize : Nat) (offsets : List Nat) : Prop :=
  ∀ off ∈ offsets, ∃ c ∈ allocatedOf q.cells, c ∉ allocatedOf p.cells ∧ IsKvRegion c.2 ∧
    Covers c.2 (q.gpuBaseAddr + off) blockSize

/-- What the loop of `AllocateBlocks` leaves behind. -/
structure Carving (a b : Nat) (p q : GPUTensorPool) (blockSize : Nat) (offsets : List Nat) : Prop where
  wellFormed : WellFormed a b q
  base : q.gpuBaseAddr = p.gpuBaseAddr
  carved : Carved p.allocatedBlockId p.view q.allocatedBlockId q.view
  fresh : FreshBlocks p q blockSize offsets

/-- What is left of a region when `size` bytes were cut off. -/
def cutRest (x : Cell) (fresh size : Nat) : List Cell :=
  if size < x.2.size then [(fresh, mk' (x.2.addr + size) (x.2.size - size))] else []

theorem WellFormed.carveBlocks {a b : Nat} {p : GPUTensorPool} {D R : List Cell} {x : Cell} (h : WellFormed a b p)
    (hba : p.gpuBaseAddr = a) (hc : p.cells = D ++ x :: R) (hx : x.2.status = .FREE) {blockSize blocks : Nat}
    (hb : 0 < blockSize) (hn : 0 < blocks) (hs : blocks * blockSize ≤ x.2.size) :
    Carving a b p ({ p with allocatedBlockId := p.allocatedBlockId + blocks }.allocateFreeRegion x.1 (blocks * blockSize)
        (kvFingerprint (p.allocatedBlockId + blocks))).2 blockSize
      ((range blocks).map fun i => x.2.addr - p.gpuBaseAddr + i * blockSize) ∧
    ∃ D' fresh,
      ({ p with allocatedBlockId := p.allocatedBlockId + blocks }.allocateFreeRegion x.1 (blocks * blockSize)
        (kvFingerprint (p.allocatedBlockId + blocks))).2.cells = D' ++ (cutRest x fresh (blocks * blockSize) ++ R) ∧
      ({ p with allocatedBlockId := p.allocatedBlockId + blocks }.allocateFreeRegion x.1 (blocks * blockSize)
        (kvFingerprint (p.allocatedBlockId + blocks))).2.next x.1 =
          first (cutRest x fresh (blocks * blockSize) ++ R) := by
  generalize hq : ({ p with allocatedBlockId := p.allocatedBlockId + blocks } : GPUTensorPool) = q
  have hqp : WellFormed a b q ∧ q.cells = p.cells := by
    rw [← hq]
    exact h.of_eq rfl rfl
  obtain ⟨hw, hcq⟩ := hqp
  have hr : q.region x.1 = x.2 := hw.region_eq (by rw [hcq, hc]; simp)
  have hpos : 0 < blocks * blockSize := Nat.mul_pos hn hb
  have heq : (q.allocateFreeRegion x.1 (blocks * blockSize) (kvFingerprint (p.allocatedBlockId + blocks))).2 =
      (q.cutRegion x.1 (blocks * blockSize) (kvFingerprint (p.allocatedBlockId + blocks))).1 := by
    unfold allocateFreeRegion
    rw [if_neg (by rw [hr]; simp [hx]; omega)]
  rw [heq]
  obtain ⟨h1, h2, h3, h4⟩ := hw.cutRegion (hcq.trans hc) hx (kvFingerprint (p.allocatedBlockId + blocks)) hpos hs
  generalize hq' : (q.cutRegion x.1 (blocks * blockSize)
    (kvFingerprint (p.allocatedBlockId + blocks))).1 = q' at h1 h2 h3 h4
  have hview : q.view = p.view := by
    rw [view, hcq, ← hq]
    rfl
  have hid : q'.allocatedBlockId = p.allocatedBlockId + blocks := by rw [h4.blockId, ← hq]
  have hb' : q'.gpuBaseAddr = p.gpuBaseAddr := by rw [h4.base, ← hq]
  have hax : a ≤ x.2.addr := (h.layout.tiling.mem (c := x) (by rw [hc]; simp)).1
  rw [hview] at h3
  refine ⟨⟨h1, hb', ?_, ?_⟩, ?_⟩
  · rw [hid]
    exact .carve hn h3 (.refl _ _)
  · intro off hoff
    obtain ⟨i, hi, rfl⟩ := mem_map.1 hoff
    rw [mem_range] at hi
    obtain ⟨j, -, hm, y, hy, hyj, hys⟩ := h3.mem_iff
    refine ⟨_, (hm _).2 (.inl rfl), ?_, isKv_kvFingerprint _, ?_⟩
    · intro hmem
      -- the region that was cut is FREE before, under the same number
      have := eq_of_fst_eq h.layout.nodup (mem_allocatedOf.1 hmem).1 hy hyj.symm
      rw [← this] at hys
      simp at hys
    · have hmul : (i + 1) * blockSize ≤ blocks * blockSize := Nat.mul_le_mul_right _ hi
      rw [Nat.add_mul, Nat.one_mul] at hmul
      rw [hb', hba]
      exact ⟨by dsimp only; omega, by dsimp only; omega⟩
  · rw [cutCells, append_assoc, cons_append] at h2
    refine ⟨D ++ [_], q.store.fresh, by simpa [cutRest] using h2, ?_⟩
    have hh := h2 ▸ h1.holds
    exact hh.next_eq

namespace Carving

variable {a b blockSize : Nat} {p q r : GPUTensorPool} {offsets offsets' : List Nat}

theorem refl (h : WellFormed a b p) : Carving a b p p blockSize [] := ⟨h, rfl, .refl _ _, by simp [FreshBlocks]⟩

theorem trans (h : Carving a b p q blockSize offsets) (h' : Carving a b q r blockSize offsets') :
    Carving a b p r blockSize (offsets ++ offsets') := by
  refine ⟨h'.wellFormed, h'.base.trans h.base, h.carved.trans h'.carved, ?_⟩
  intro off hoff
  rcases mem_append.1 hoff with hoff | hoff
  · obtain ⟨c, hc, hn, hk, hcov⟩ := h.fresh off hoff
    exact ⟨c, h'.carved.mem_of_mem hc, hn, hk, by rw [h'.base]; exact hcov⟩
  · obtain ⟨c, hc, hn, hk, hcov⟩ := h'.fresh off hoff
    exact ⟨c, hc, fun hp => hn (h.carved.mem_of_mem hp), hk, hcov⟩

end Carving

theorem allocateBlocksLoop_spec {a b blockSize : Nat} (blockNumber : Nat) (hb : 0 < blockSize) :
    ∀ (fuel : Nat) (p : GPUTensorPool) (D R : List Cell) (result : List Nat), WellFormed a b p → p.gpuBaseAddr = a →
      p.cells = D ++ R →
      ∃ new, (allocateBlocksLoop blockSize blockNumber fuel (first R) result p).1 = result ++ new ∧
        Carving a b p (allocateBlocksLoop blockSize blockNumber fuel (first R) result p).2 blockSize new := by
  intro fuel
  induction fuel with
  | zero =>
    intro p D R result hw _ _
    exact ⟨[], by simp [allocateBlocksLoop], .refl hw⟩
  | succ fuel ih =>
    intro p D R result hw hba hc
    cases R with
    | nil => exact ⟨[], by simp [allocateBlocksLoop], .refl hw⟩
    | cons x R =>
      have hh : Holds p (D ++ x :: R) := hc ▸ hw.holds
      have hr : p.region x.1 = x.2 := hh.region_mid
      simp only [first_cons, allocateBlocksLoop, hr]
      by_cases hlen : result.length < blockNumber
      · by_cases hx : x.2.status = .FREE ∧ blockSize ≤ x.2.size
        · -- some blocks fit: they are cut off, and the loop goes on behind them
          simp only [hlen, hx, and_self, if_true]
          have hdiv : 0 < x.2.size / blockSize := Nat.div_pos hx.2 hb
          have hn : 0 < min (x.2.size / blockSize) (blockNumber - result.length) := by omega
          have hs : min (x.2.size / blockSize) (blockNumber - result.length) * blockSize ≤ x.2.size :=
            (Nat.mul_le_mul_right _ (Nat.min_le_left _ _)).trans (Nat.div_mul_le_self _ _)
          generalize min (x.2.size / blockSize) (blockNumber - result.length) = blocks at hn hs
          obtain ⟨h1, D', fresh, h2, h3⟩ := hw.carveBlocks hba hc hx.1 hb hn hs
          rw [h3]
          obtain ⟨new, e1, e2⟩ := ih _ D' _ (result ++ (range blocks).map fun i =>
            x.2.addr - p.gpuBaseAddr + i * blockSize) h1.wellFormed (h1.base.trans hba) h2
          exact ⟨_, by rw [e1, append_assoc], h1.trans e2⟩
        · simp only [hlen, hx, if_true, if_false]
          rw [hh.next_eq]
          exact ih p (D ++ [x]) R result hw hba (by simpa using hc)
      · simp only [hlen, if_false]
        exact ⟨[], by simp, .refl hw⟩

theorem WellFormed.allocateBlocks {P : Platform} {a b : Nat} {p : GPUTensorPool} (h : WellFormed a b p)
    (hba : p.gpuBaseAddr = a) (blockSize : Nat) (modelPath : String) (blockNumber : Int) :
    ∃ q, Evicting a b (isDroppable blockSize modelPath) p q
        (p.GreedyDropBlocksSpares P blockSize modelPath blockNumber) ∧
      Carving a b q (p.allocateBlocks P blockSize modelPath blockNumber).2 blockSize
        (p.allocateBlocks P blockSize modelPath blockNumber).1 := by
  have hev := greedyDropBlocks_spec (P := P) h blockSize modelPath blockNumber
  refine ⟨_, hev, ?_⟩
  unfold GPUTensorPool.allocateBlocks
  by_cases hret : (p.greedyDropBlocks P blockSize modelPath blockNumber).1 = 0
  · have hb : 0 < blockSize := by
      by_contra hb
      have hb0 : blockSize = 0 := by omega
      simp [greedyDropBlocks, hb0] at hret
    generalize p.greedyDropBlocks P blockSize modelPath blockNumber = r at hev hret
    have hba' : r.2.gpuBaseAddr = a := hev.frame.base.trans hba
    obtain ⟨new, e1, e2⟩ := allocateBlocksLoop_spec blockNumber.toNat hb (2 * r.2.store.fresh) r.2 []
      r.2.cells [] hev.wellFormed hba' rfl
    simp only [hret, ne_eq, not_true_eq_false, if_false, hev.wellFormed.holds.head]
    split
    · exact ⟨e2.wellFormed, e2.base, e2.carved, by simp [FreshBlocks]⟩
    · rw [e1]
      exact e2
  · simp only [hret, ne_eq, not_false_eq_true, if_true]
    exact .refl hev.wellFormed

/-! ## The strategies together -/

/-- The regions that a strategy may slide satisfy `S`: for strategy 1 the regions behind the first FREE one, for strategies 2
and 3 those in the windows that are merged, for strategy 4 those in the ranges of the planned groups. -/
structure WindowsOk (P : Platform) (S : Region → Prop) (strategy : Int) (m : RegisteredModel) (tgs : List TGNeedAllocates)
    (addrs : List Nat) (p : GPUTensorPool) : Prop where
  globalMerge : strategy = 1 → ∀ i ∈ p.regions.dropWhile (fun i => (p.region i).status ≠ .FREE),
    (p.region i).status = .ALLOCATED → S (p.region i)
  greedyMerge : strategy = 2 → MergeLoopOk P S m (P.sortDesc size tgs) addrs p
  bipartiteMatch : strategy = 3 → MatchLoopOk P S m tgs addrs p
  binPacking : strategy = 4 → ∀ r, Planned P tgs p r → r.status = .ALLOCATED → S r

section Strategies

variable {P : Platform} {S : Region → Prop} {m : RegisteredModel} {a b : Nat} {p : GPUTensorPool} {strategy : Int}
  {tgs : List TGNeedAllocates} {addrs : List Nat}

theorem mergeLoopOk_true : ∀ (tgs : List TGNeedAllocates) (addrs : List Nat) (p : GPUTensorPool),
    MergeLoopOk P (fun _ => True) m tgs addrs p := by
  intro tgs
  induction tgs with
  | nil => exact fun _ _ => trivial
  | cons tg tgs ih => exact fun addrs p => ⟨fun _ _ _ _ _ _ => trivial, ih _ _⟩

theorem windowsOk_true : WindowsOk P (fun _ => True) strategy m tgs addrs p :=
  ⟨fun _ _ _ _ => trivial, fun _ => mergeLoopOk_true _ _ _, fun _ => mergeLoopOk_true _ _ _, fun _ _ _ _ => trivial⟩

theorem Holds.dropWhile_regions {l : List Cell} (h : Holds p l) (f : Region → Bool) :
    (p.regions.dropWhile fun i => f (p.region i)) = ids (l.dropWhile fun c => f c.2) := by
  rw [h.regions_eq]
  have hs : ∀ c ∈ l, p.region c.1 = c.2 := fun c hc => h.region_eq hc
  clear h
  induction l with
  | nil => rfl
  | cons c l ih =>
    rw [ids_cons, dropWhile_cons, dropWhile_cons, hs c (by simp)]
    split
    · exact ih fun d hd => hs d (by simp [hd])
    · rfl

theorem WellFormed.runStrategy (hP : P.MovesSucceed) (h : WellFormed a b p) (h0 : 0 < a) (h1 : 1 ≤ strategy)
    (h4 : strategy ≤ 4) (hne : tgs ≠ []) (hpos : ∀ tg ∈ tgs, 0 < tg.size) (hle : totalNeed tgs ≤ freeBytes p.cells)
    (hS : WindowsOk P S strategy m tgs addrs p) : Placing S m a b p addrs tgs (p.runStrategy P strategy m tgs addrs) := by
  have hcls : p.cells ≠ [] := by
    intro hc
    have hneed : totalNeed tgs = 0 := by
      rw [hc, freeBytes_nil] at hle
      omega
    exact hne (totalNeed_eq_zero hpos hneed)
  obtain rfl | rfl | rfl | rfl : strategy = 1 ∨ strategy = 2 ∨ strategy = 3 ∨ strategy = 4 := by omega
  · refine h.globalMerge hP h0 hcls addrs hpos hle ?_
    intro c hc
    obtain ⟨h2, h3⟩ := mem_allocatedOf.1 hc
    have hr : p.region c.1 = c.2 := h.region_eq (dropWhile_subset _ h2)
    have := hS.globalMerge rfl c.1
    rw [h.holds.dropWhile_regions fun r => decide (r.status ≠ .FREE), hr] at this
    exact this (mem_ids_of_mem h2) h3
  · exact h.greedyMergeAll hP h0 addrs hpos hle (hS.greedyMerge rfl)
  · exact h.weightedBipartiteMatchGreedyMerge hP h0 addrs hpos hle (hS.bipartiteMatch rfl)
  · refine h.wellLinked.partitionedBinPacking hP h0 addrs hne hpos hle ?_ (hS.binPacking rfl)
    intro r hr
    obtain ⟨c, hc, rfl⟩ := hr.mem h.wellLinked hne hpos hle
    exact h.layout.noLoading c hc

end Strategies

/-! ## The groups to load -/

/-- What `LoadModel` collects: the groups that are not in the pool, and the addresses of those that are. -/
structure Collected (p : GPUTensorPool) (l : List TensorGroupIndex) (k : Nat) (tgs : List TGNeedAllocates)
    (addrs : List Nat) : Prop where
  length : addrs.length = l.length
  sublist : (tgs.map fun tg => (tg.tgIndex, tg.tgId)).Sublist (l.zipIdx k)
  absent : ∀ tg ∈ tgs, p.getTensor tg.tgIndex.fingerprint = none
  cases : ∀ i tg, l[i]? = some tg →
    (⟨k + i, tg⟩ : TGNeedAllocates) ∈ tgs ∨
      ∃ j, p.getTensor tg.fingerprint = some j ∧ addrs[i]? = some (p.region j).addr

theorem collectGroups_spec (p : GPUTensorPool) : ∀ (l : List TensorGroupIndex) (k : Nat),
    Collected p l k (collectGroups p (l.zipIdx k)).1 (collectGroups p (l.zipIdx k)).2 := by
  intro l
  induction l with
  | nil => exact fun k => ⟨rfl, by simp [collectGroups], by simp [collectGroups], by simp⟩
  | cons tg l ih =>
    intro k
    obtain ⟨h1, h2, h3, h4⟩ := ih (k + 1)
    rw [zipIdx_cons]
    unfold collectGroups
    dsimp only
    generalize collectGroups p (l.zipIdx (k + 1)) = r at h1 h2 h3 h4
    have hshift : ∀ i, k + (i + 1) = k + 1 + i := by omega
    cases hg : p.getTensor tg.fingerprint with
    | some j =>
      refine ⟨by simp [h1], h2.cons _, h3, ?_⟩
      intro i tg' hi
      cases i with
      | zero =>
        obtain rfl : tg = tg' := by simpa using hi
        exact .inr ⟨j, hg, rfl⟩
      | succ i =>
        rw [hshift]
        exact h4 i tg' (by simpa using hi)
    | none =>
      refine ⟨by simp [h1], by simpa using h2, ?_, fun i tg' hi => ?_⟩
      · intro t ht
        rcases mem_cons.1 ht with rfl | ht
        · exact hg
        · exact h3 t ht
      · cases i with
        | zero =>
          obtain rfl : tg = tg' := by simpa using hi
          exact .inl (by simp)
        | succ i =>
          rw [hshift]
          exact (h4 i tg' (by simpa using hi)).imp_left fun hm => by simp [hm]

namespace Collected

variable {p : GPUTensorPool} {l : List TensorGroupIndex} {tgs : List TGNeedAllocates} {addrs : List Nat}

section

variable (h : Collected p l 0 tgs addrs)

include h

theorem getElem?_eq {tg : TGNeedAllocates} (ht : tg ∈ tgs) : l[tg.tgId]? = some tg.tgIndex := by
  have := h.sublist.subset (mem_map.2 ⟨tg, ht, rfl⟩)
  exact mem_zipIdx_iff_getElem?.1 this

theorem lt_length : ∀ tg ∈ tgs, tg.tgId < addrs.length := by
  intro tg ht
  rw [h.length]
  exact (List.getElem?_eq_some_iff.1 (h.getElem?_eq ht)).1

theorem mem : ∀ tg ∈ tgs, tg.tgIndex ∈ l := fun _ ht => mem_of_getElem? (h.getElem?_eq ht)

theorem tgId_ne {i : Nat} {tg : TensorGroupIndex} {j : NodeId} (hi : l[i]? = some tg)
    (hj : p.getTensor tg.fingerprint = some j) : ∀ t ∈ tgs, t.tgId ≠ i := by
  intro t ht he
  have hsa := h.getElem?_eq ht
  rw [he, hi] at hsa
  have hno := h.absent t ht
  rw [← Option.some.inj hsa, hj] at hno
  exact absurd hno (by simp)

theorem nodup : (tgs.map TGNeedAllocates.tgId).Nodup := by
  have hs : (tgs.map tgId).Sublist ((l.zipIdx).map Prod.snd) := by
    have := h.sublist.map Prod.snd
    rwa [map_map] at this
  refine List.Nodup.sublist hs ?_
  rw [zipIdx_map_snd]
  exact nodup_range'

theorem nodup_fingerprints (hd : (l.map TensorGroupIndex.fingerprint).Nodup) :
    (tgs.map fun tg => tg.tgIndex.fingerprint).Nodup := by
  have hs : (tgs.map fun tg => tg.tgIndex.fingerprint).Sublist (l.map TensorGroupIndex.fingerprint) := by
    have := (h.sublist.map Prod.fst).map TensorGroupIndex.fingerprint
    rwa [map_map, map_map, zipIdx_map_fst] at this
  exact hd.sublist hs

end

end Collected

/-! ## The phases of a call -/

namespace GPUTensorPool

/-- The pool once the model is counted as used and the KV blocks are cleaned. -/
def prepared (p : GPUTensorPool) (m : RegisteredModel) : GPUTensorPool := (p.useModel m.modelPath).cleanBlocks

def requests (p : GPUTensorPool) (m : RegisteredModel) : List TGNeedAllocates :=
  (collectGroups (p.prepared m) m.tensorGroupIndexes.zipIdx).1

/-- The addresses recorded for the groups that are. -/
def reused (p : GPUTensorPool) (m : RegisteredModel) : List Nat :=
  (collectGroups (p.prepared m) m.tensorGroupIndexes.zipIdx).2

/-- The eviction that makes room for the requests. -/
def dropFor (P : Platform) (p : GPUTensorPool) (m : RegisteredModel) : Int × GPUTensorPool :=
  (p.prepared m).greedyDrop P (totalNeed (p.requests m)) m.modelPath

def placeFor (P : Platform) (p : GPUTensorPool) (m : RegisteredModel) (strategy : Int) : Outcome × List Nat × GPUTensorPool :=
  (p.dropFor P m).2.runStrategy P strategy m (p.requests m) (p.reused m)

/-- What the copying of the requests to their addresses leaves behind. -/
def copyFor (P : Platform) (p : GPUTensorPool) (m : RegisteredModel) (addrs : List Nat) (q : GPUTensorPool) :
    LoadResult × GPUTensorPool :=
  let r := loadModelFromMem P m addrs ((p.requests m).map tgId) q.device
  (if r.1 then buildResponse q.gpuBaseAddr m addrs else .error, { q with device := r.2 })

theorem loadModel_eq (P : Platform) (p : GPUTensorPool) (m : RegisteredModel) (strategy : Int) :
    p.loadModel P m strategy = if p.requests m = [] then (buildResponse (p.prepared m).gpuBaseAddr m (p.reused m), p.prepared m)
      else if (p.dropFor P m).1 ≠ 0 then (.error, (p.dropFor P m).2)
      else match p.placeFor P m strategy with
        | (.failed, _, q) => (.error, q)
        | (.crashed, _, q) => (.crashed, q)
        | (.done, addrs, q) => if addrs.any (· = 0) then (.error, q) else p.copyFor P m addrs q := by
  unfold loadModel
  simp only [List.isEmpty_iff]
  refine ite_congr rfl (fun _ => rfl) fun _ => ite_congr rfl (fun _ => rfl) ?_
  intro _
  show (match p.placeFor P m strategy with | (.failed, _, q) => _ | (.crashed, _, q) => _ | (.done, addrs, q) => _) = _
  rcases p.placeFor P m strategy with ⟨_ | _ | _, addrs, q⟩
  · refine ite_congr rfl (fun _ => rfl) ?_
    intro _
    unfold copyFor requests prepared
    dsimp only
    split <;> rfl
  · rfl
  · rfl

end GPUTensorPool

/-- What a call of `LoadModel` does: it finds every group in the pool, or evicts too little, or places the groups and then
finds a null address, or places and copies them. -/
inductive Loads (P : Platform) (S : Region → Prop) (m : RegisteredModel) (a b : Nat) (p : GPUTensorPool) :
    LoadResult × GPUTensorPool → Prop
  | cached (h : p.requests m = []) :
      Loads P S m a b p (buildResponse (p.prepared m).gpuBaseAddr m (p.reused m), p.prepared m)
  | refused (hne : p.requests m ≠ []) : Loads P S m a b p (.error, (p.dropFor P m).2)
  | stuck {addrs : List Nat} {q : GPUTensorPool}
      (hp : Placing S m a b (p.dropFor P m).2 (p.reused m) (p.requests m) (.done, addrs, q)) (h0 : 0 ∈ addrs) :
      Loads P S m a b p (.error, q)
  | copied {addrs : List Nat} {q : GPUTensorPool}
      (hp : Placing S m a b (p.dropFor P m).2 (p.reused m) (p.requests m) (.done, addrs, q)) :
      Loads P S m a b p (p.copyFor P m addrs q)

section Phases

variable {P : Platform} {S : Region → Prop} {m : RegisteredModel} {a b : Nat} {p : GPUTensorPool} {strategy : Int}

theorem GPUTensorPool.useModel_frame (p : GPUTensorPool) (path : String) :
    (p.useModel path).store = p.store ∧ (p.useModel path).memoryRegions = p.memoryRegions ∧
      (p.useModel path).allocatedRegions = p.allocatedRegions ∧ (p.useModel path).device = p.device ∧
      Frame p (p.useModel path) := by
  obtain ⟨ma, hma, -⟩ := p.accessOf_snd path
  unfold useModel
  rw [hma]
  exact ⟨rfl, rfl, rfl, rfl, rfl, rfl⟩

theorem WellFormed.prepared (h : WellFormed a b p) (m : RegisteredModel) :
    WellFormed a b (p.prepared m) ∧ Frame p (p.prepared m) ∧ Evicted IsKvRegion p.view (p.prepared m).view ∧
      ∀ c ∈ allocatedOf (p.prepared m).cells, ¬IsKvRegion c.2 := by
  obtain ⟨u1, u2, u3, u4, u5⟩ := p.useModel_frame m.modelPath
  obtain ⟨hw, hc⟩ := h.of_eq u1 u2
  obtain ⟨h1, h2, h3, h4⟩ := hw.cleanBlocks
  have hview : (p.useModel m.modelPath).view = p.view := by
    rw [view, view, hc, u3, u4]
  exact ⟨h1, u5.trans h2, hview ▸ h3, h4⟩

theorem collected (p : GPUTensorPool) (m : RegisteredModel) :
    Collected (p.prepared m) m.tensorGroupIndexes 0 (p.requests m) (p.reused m) :=
  collectGroups_spec (p.prepared m) m.tensorGroupIndexes 0

theorem requests_pos (hpos : ∀ tg ∈ m.tensorGroupIndexes, 0 < tg.size) : ∀ tg ∈ p.requests m, 0 < tg.size :=
  fun tg ht => hpos tg.tgIndex ((collected p m).mem tg ht)

theorem WellFormed.dropFor (h : WellFormed a b p) (P : Platform) (m : RegisteredModel) :
    Evicting a b (isOther m.modelPath) (p.prepared m) (p.dropFor P m).2
        ((p.prepared m).GreedyDropSpares P (totalNeed (p.requests m)) m.modelPath) ∧
      ((p.dropFor P m).1 = 0 → totalNeed (p.requests m) ≤ freeBytes (p.dropFor P m).2.cells) :=
  greedyDrop_spec (h.prepared m).1 _ _

theorem WellFormed.loadModel (hP : P.MovesSucceed) (h : WellFormed a b p) (h0 : 0 < a) (h1 : 1 ≤ strategy) (h4 : strategy ≤ 4)
    (hpos : ∀ tg ∈ m.tensorGroupIndexes, 0 < tg.size)
    (hS : p.requests m ≠ [] → (p.dropFor P m).1 = 0 → WindowsOk P S strategy m (p.requests m) (p.reused m) (p.dropFor P m).2) :
    Loads P S m a b p (p.loadModel P m strategy) := by
  obtain ⟨hdrop, hro⟩ := h.dropFor P m
  rw [loadModel_eq]
  split
  · rename_i hnil
    exact .cached hnil
  rename_i hne
  split
  · exact .refused hne
  rename_i hret
  have hpl : Placing S m a b (p.dropFor P m).2 (p.reused m) (p.requests m) (p.placeFor P m strategy) :=
    hdrop.wellFormed.runStrategy hP h0 h1 h4 hne (requests_pos hpos) (hro (not_not.1 hret)) (hS hne (not_not.1 hret))
  rcases hr : p.placeFor P m strategy with ⟨o, addrs, q⟩
  rw [hr] at hpl
  obtain rfl : o = .done := hpl.done
  dsimp only
  split
  · rename_i hz
    exact .stuck hpl (by simpa using hz)
  · exact .copied hpl

theorem Placing.wellFormed {q : GPUTensorPool} {addrs : List Nat} {tgs : List TGNeedAllocates}
    {r : Outcome × List Nat × GPUTensorPool} (hp : Placing S m a b q addrs tgs r) (h : WellFormed a b q) :
    WellFormed a b r.2.2 := by
  obtain ⟨tgs', -, hld⟩ := hp.loading
  exact hp.wellLinked.wellFormed (hld.layout h.layout)

theorem Loads.wellFormed {r : LoadResult × GPUTensorPool} (h : WellFormed a b p) (hl : Loads P S m a b p r) :
    WellFormed a b r.2 ∧ Frame p r.2 := by
  obtain ⟨h1, h2, -, -⟩ := h.prepared m
  have hdrop := (h.dropFor P m).1
  cases hl with
  | cached _ => exact ⟨h1, h2⟩
  | refused _ => exact ⟨hdrop.wellFormed, h2.trans hdrop.frame⟩
  | stuck hp _ => exact ⟨hp.wellFormed hdrop.wellFormed, (h2.trans hdrop.frame).trans hp.frame⟩
  | @copied addrs q hp =>
    have hq := hp.wellFormed hdrop.wellFormed
    have hf := (h2.trans hdrop.frame).trans hp.frame
    exact ⟨(hq.of_eq (q := (p.copyFor P m addrs q).2) rfl rfl).1, hf.base, hf.blockId⟩

end Phases

end ServerlessLLM
