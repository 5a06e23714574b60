import ServerlessLLM.Vram.Compact
import ServerlessLLM.Vram.Lemmas.PoolOps

/-!
# Compaction, on lists of cells

What `MergeRegions` makes of a stretch of the list (`Merged`), and `GlobalDeFrag` of the whole list (`defragCells`), when their
copies succeed: the list, the index and the bytes of the device.
-/

namespace ServerlessLLM

open Linked List Function GPUTensorPool Tiling Region Store
open Prod (fst snd)

/-- A cell moved to another address. -/
def Cell.put (a : Nat) (c : Cell) : Cell := (c.1, c.2.setAddr a)

variable (a : Nat) (c : Cell) (l : List Cell)

@[simp] theorem Cell.put_fst : (c.put a).1 = c.1 := rfl

@[simp] theorem Cell.put_snd : (c.put a).2 = c.2.setAddr a := rfl

/-- The ALLOCATED cells of a stretch, with consecutive addresses from `a` on. -/
def slideCells (a : Nat) (l : List Cell) : List Cell := Tiling.slide (fun c : Cell => c.2.size) Cell.put a l

/-- The bytes of a device after cells were copied to consecutive addresses from `a` on. -/
def slideCellBytes (m : Nat → UInt8) (a : Nat) (l : List Cell) : Nat → UInt8 :=
  slideBytes (fun c : Cell => c.2.addr) (fun c : Cell => c.2.size) m a l

def totalSize (l : List Cell) : Nat := Tiling.total (fun c : Cell => c.2.size) l

@[simp] theorem ids_slideCells : ids (slideCells a l) = ids l := Tiling.map_slide fst Cell.put Cell.put_fst a l

theorem slideCells_cons : slideCells a (c :: l) = c.put a :: slideCells (a + c.2.size) l := rfl

theorem slideCellBytes_cons (m : Nat → UInt8) (a : Nat) (c : Cell) (l : List Cell) :
    slideCellBytes m a (c :: l) = slideCellBytes (copy m a c.2.addr c.2.size) (a + c.2.size) l := rfl

theorem totalSize_cons : totalSize (c :: l) = c.2.size + totalSize l := Tiling.total_cons c l

/-- Cells in order: none starts before the end of the one before it. -/
def Ordered (l : List Cell) : Prop := l.Pairwise fun c d => c.2.addr + c.2.size ≤ d.2.addr

theorem IsTiling.ordered {a b : Nat} {l : List Cell} (h : IsTiling a l b) : Ordered l := Tiling.Tiles.pairwise h

/-- Two ranges have no byte in common. -/
def Apart (a n b k : Nat) : Prop := a + n ≤ b ∨ b + k ≤ a

theorem IsTiling.apart {a b : Nat} {l : List Cell} (h : IsTiling a l b) {c d : Cell} (hc : c ∈ l) (hd : d ∈ l) (hne : c ≠ d) :
    Apart c.2.addr c.2.size d.2.addr d.2.size := by
  have hpw : l.Pairwise fun c d : Cell => Apart c.2.addr c.2.size d.2.addr d.2.size := h.ordered.imp fun hle => .inl hle
  have hsymm : Std.Symm fun c d : Cell => Apart c.2.addr c.2.size d.2.addr d.2.size := ⟨fun _ _ h => h.symm⟩
  exact hpw.forall hc hd hne

theorem IsTiling.mem {a b : Nat} {l : List Cell} (h : IsTiling a l b) {c : Cell} (hc : c ∈ l) :
    a ≤ c.2.addr ∧ 0 < c.2.size ∧ c.2.addr + c.2.size ≤ b :=
  Tiles.mem h hc

theorem Ordered.allocatedOf {l : List Cell} (h : Ordered l) : Ordered (allocatedOf l) := h.filter _

/-! ## `MergeRegions` -/

/-- What the data loop of `MergeRegions` leaves behind. -/
structure Slid (p q : GPUTensorPool) (T : List Cell) (a : Nat) : Prop where
  eq : ∃ s d, q = { p with store := s, device := d }
  other : ∀ i, i ∉ ids T → q.store.node i = p.store.node i
  val : ∀ c ∈ slideCells a T, q.region c.1 = c.2
  fresh : q.store.fresh = p.store.fresh
  bytes : q.device.bytes = slideCellBytes p.device.bytes a T

theorem slideRegions_ok {P : Platform} :
    ∀ (T : List Cell) (a cost : Nat) (p : GPUTensorPool), (ids T).Nodup → (∀ c ∈ T, p.region c.1 = c.2) → Ordered T →
      (∀ c ∈ T, a ≤ c.2.addr) → (slideRegions P true (ids T) a cost p).1 = true →
      (slideRegions P true (ids T) a cost p).2.1 = a + totalSize T ∧
        Slid p (slideRegions P true (ids T) a cost p).2.2.2 T a := by
  intro T
  induction T with
  | nil =>
    intro a cost p _ _ _ _ _
    exact ⟨rfl, ⟨_, _, rfl⟩, fun _ _ => rfl, by simp [slideCells, slide], rfl, rfl⟩
  | cons c T ih =>
    intro a cost p hd hv ho ha h
    rw [ids_cons, nodup_cons] at hd
    obtain ⟨ho1, ho2⟩ := pairwise_cons.1 ho
    have hc := hv c (by simp)
    have hac := ha c (by simp)
    have hne : ∀ d ∈ T, d.1 ≠ c.1 := fun d hd' he => hd.1 (he ▸ mem_ids_of_mem hd')
    have hle : ∀ d ∈ T, a + c.2.size ≤ d.2.addr := fun d hd' => by have := ho1 d hd'; omega
    -- one round: the region is copied if it has to move, and gets its new address
    obtain ⟨cost', d, hb, hstep⟩ : ∃ cost' d, d.bytes = copy p.device.bytes a c.2.addr c.2.size ∧
        slideRegions P true (ids (c :: T)) a cost p =
          slideRegions P true (ids T) (a + c.2.size) cost'
            ({ p with device := d }.setRegion c.1 (c.2.setAddr a)) := by
      simp only [ids_cons, slideRegions, hc] at h ⊢
      by_cases hm : c.2.addr = a
      · simp only [hm, ne_eq, not_true_eq_false, false_and, if_false]
        exact ⟨cost, p.device, by rw [copy_self], rfl⟩
      · simp only [hm, ne_eq, not_false_eq_true, and_self, if_true] at h ⊢
        cases hr : (cudaSafeMove P p.device a c.2.addr c.2.size).1 with
        | false => simp [hr] at h
        | true => exact ⟨cost + c.2.size, _, (cudaSafeMove_ok hr).1, by simp only [if_true]⟩
    rw [hstep] at h ⊢
    generalize hq : ({ p with device := d }.setRegion c.1 (c.2.setAddr a) : GPUTensorPool) = q at h ⊢
    have hqn : ∀ i, i ≠ c.1 → q.store.node i = p.store.node i := by
      intro i hi
      rw [← hq]
      simp [setRegion, setVal_node, hi]
    have hqc : q.region c.1 = c.2.setAddr a := by
      rw [← hq]
      simp [setRegion, region, setVal_node]
    have hqv : ∀ d ∈ T, q.region d.1 = d.2 := by
      intro d hd'
      have := hv d (by simp [hd'])
      simpa only [region, hqn d.1 (hne d hd')] using this
    obtain ⟨h1, h2⟩ := ih _ _ q hd.2 hqv ho2 hle h
    refine ⟨by rw [h1, totalSize_cons]; omega, ?_, ?_, ?_, ?_, ?_⟩
    · obtain ⟨s, d', he⟩ := h2.eq
      rw [he, ← hq]
      exact ⟨_, _, rfl⟩
    · intro i hi
      simp only [ids_cons, mem_cons, not_or] at hi
      rw [h2.other i hi.2, hqn i hi.1]
    · intro d' hd'
      rw [slideCells_cons] at hd'
      rcases mem_cons.1 hd' with rfl | hd'
      · have := h2.other c.1 hd.1
        simpa only [Cell.put_fst, Cell.put_snd, region, this] using hqc
      · exact h2.val d' hd'
    · rw [h2.fresh, ← hq]
      rfl
    · rw [h2.bytes, slideCellBytes_cons, ← hb, ← hq]
      rfl

theorem slideRegions_succeeds {P : Platform} (hP : P.MovesSucceed) :
    ∀ (T : List Cell) (a cost : Nat) (p : GPUTensorPool), (ids T).Nodup → (∀ c ∈ T, p.region c.1 = c.2) → Ordered T →
      (∀ c ∈ T, a ≤ c.2.addr) → 0 < a → (slideRegions P true (ids T) a cost p).1 = true := by
  intro T
  induction T with
  | nil => intro a cost p _ _ _ _ _; rfl
  | cons c T ih =>
    intro a cost p hd hv ho ha h0
    rw [ids_cons, nodup_cons] at hd
    obtain ⟨ho1, ho2⟩ := pairwise_cons.1 ho
    have hac := ha c (by simp)
    have hle : ∀ d ∈ T, a + c.2.size ≤ d.2.addr := fun d hd' => by have := ho1 d hd'; omega
    have hkeep : ∀ (d : Device) (d' : Cell), d' ∈ T →
        ({ p with device := d }.setRegion c.1 (c.2.setAddr a) : GPUTensorPool).region d'.1 = d'.2 := by
      intro d d' hd'
      have hne : d'.1 ≠ c.1 := fun he => hd.1 (he ▸ mem_ids_of_mem hd')
      have := hv d' (by simp [hd'])
      simpa [setRegion, region, setVal_node, hne] using this
    simp only [ids_cons, slideRegions, hv c (by simp)]
    by_cases hm : c.2.addr = a
    · simp only [hm, ne_eq, not_true_eq_false, false_and, if_false]
      exact ih _ _ _ hd.2 (hkeep p.device) ho2 hle (by omega)
    · simp only [hm, ne_eq, not_false_eq_true, and_self, if_true,
        cudaSafeMove_succeeds hP p.device h0 (show 0 < c.2.addr by omega)]
      exact ih _ _ _ hd.2 (hkeep _) ho2 hle (by omega)

theorem relinkMerged_rep {p : GPUTensorPool} {s : Linked.Store Region} {A W C T : List Cell} (addr size : Nat)
    (h : Rep s (A ++ W ++ C)) (hT : ∀ i ∈ ids T, i ∈ ids W) (hd : (ids T).Nodup)
    (hother : ∀ i, i ∉ ids T → p.store.node i = s.node i) (hval : ∀ c ∈ T, p.region c.1 = c.2)
    (hf : p.store.fresh = s.fresh) :
    Rep (p.relinkMerged (last A) (first C) (ids T) addr size).2.store (A ++ (T ++ [(s.fresh, mk' addr size)]) ++ C) := by
  obtain ⟨dA, -, dC, hAW, hAC, hWC⟩ := h.parts
  obtain ⟨lA, -, lC⟩ := h.links_parts
  have hlt : ∀ i, i ∈ ids A ∨ i ∈ ids W ∨ i ∈ ids C → i < s.fresh := by
    intro i hi
    refine h.lt_fresh i ?_
    simp only [ids_append, mem_append]
    tauto
  have hAT : ∀ i ∈ ids A, i ∉ ids T := fun i hi ht => hAW i hi (hT i ht)
  have hCT : ∀ i ∈ ids C, i ∉ ids T := fun i hi ht => hWC i (hT i ht) hi
  have hlast : (ids T).getLast? = last T := by simp [ids, last]
  have hhead : (ids T).head? = first T := by simp [ids, first]
  -- the store, write by write
  have hs : (p.relinkMerged (last A) (first C) (ids T) addr size).2.store =
      ((((((p.store.relink (last A) (first C) (ids T)).alloc ⟨mk' addr size, none, none⟩).setNext (last T)
        (some s.fresh)).setPrev (some s.fresh) ((last T).or (last A))).setNext (some s.fresh) (first C)).setPrev (first C)
        (some s.fresh)).setNext (last A) (some ((first T).getD s.fresh)) := by
    simp only [relinkMerged, relink_fresh, hf, hlast, hhead]
    cases last A <;> rfl
  have ne1 : ∀ i, i ∈ ids A ∨ i ∈ ids T ∨ i ∈ ids C → i ≠ s.fresh := by
    intro i hi
    have := hlt i (by rcases hi with hi | hi | hi <;> [exact .inl hi; exact .inr (.inl (hT i hi)); exact .inr (.inr hi)])
    omega
  have nA : ∀ i, i ∉ ids A → last A ≠ some i := fun i hi he => hi (mem_ids_of_last he)
  have nT : ∀ i, i ∉ ids T → last T ≠ some i := fun i hi he => hi (mem_ids_of_last he)
  have nC : ∀ i, i ∉ ids C → first C ≠ some i := fun i hi he => hi (mem_ids_of_first he)
  have hfA : s.fresh ∉ ids A := fun hm => ne1 _ (.inl hm) rfl
  have hfT : s.fresh ∉ ids T := fun hm => ne1 _ (.inr (.inl hm)) rfl
  have hfC : s.fresh ∉ ids C := fun hm => ne1 _ (.inr (.inr hm)) rfl
  rw [hs]
  refine h.splice ?_ ?_ ?_ ?_ ?_ ?_
  · -- the part before: only the `next` pointer of its last node changes
    have h1 : Links ((((((p.store.relink (last A) (first C) (ids T)).alloc ⟨mk' addr size, none, none⟩).setNext
        (last T) (some s.fresh)).setPrev (some s.fresh) ((last T).or (last A))).setNext (some s.fresh)
        (first C)).setPrev (first C) (some s.fresh)) none A ((first W).or (first C)) := by
      refine lA.congr ?_
      intro i hi
      have hiT := hAT i hi
      rw [setPrev_node, if_neg (nC i (hAC i hi)), setNext_node,
        if_neg (by simpa using (ne1 i (.inl hi)).symm), setPrev_node,
        if_neg (by simpa using (ne1 i (.inl hi)).symm), setNext_node, if_neg (nT i hiT), alloc_node,
        relink_fresh, if_neg (by simpa [hf] using ne1 i (.inl hi)), relink_node_of_not_mem _ _ _ _ hiT, hother i hiT]
    have h2 := h1.setNext dA (some ((first T).getD s.fresh))
    have h3 : (first (T ++ [(s.fresh, mk' addr size)])).or (first C) = some ((first T).getD s.fresh) := by
      cases T <;> simp
    rw [h3]
    exact h2
  · -- the regions that stay, and the new FREE region behind them
    refine (links_append _ _ _ T _).2 ⟨?_, ?_, trivial⟩
    · have h1 := relink_links p.store (first C) T hd hval (last A)
      have h2 : Links ((p.store.relink (last A) (first C) (ids T)).alloc ⟨mk' addr size, none, none⟩) (last A) T
          (first C) := by
        refine h1.congr ?_
        intro i hi
        rw [alloc_node, relink_fresh, if_neg (by simpa [hf] using ne1 i (.inr (.inl hi)))]
      have h3 := h2.setNext hd (some s.fresh)
      refine Links.congr (by simpa using h3) ?_
      intro i hi
      have hif : some s.fresh ≠ some i := by simpa using (ne1 i (.inr (.inl hi))).symm
      rw [setNext_node, if_neg (nA i fun hA => hAT i hA hi), setPrev_node,
        if_neg (nC i fun hC => hCT i hC hi), setNext_node, if_neg hif, setPrev_node, if_neg hif]
    · rw [setNext_node, if_neg (nA _ hfA), setPrev_node, if_neg (nC _ hfC), setNext_node, if_pos rfl,
        setPrev_node, if_pos rfl, setNext_node, if_neg (nT _ hfT), alloc_node, relink_fresh,
        if_pos hf.symm]
      simp
  · -- the part behind: only the `prev` pointer of its first node changes
    have h1 : Links (((((p.store.relink (last A) (first C) (ids T)).alloc ⟨mk' addr size, none, none⟩).setNext
        (last T) (some s.fresh)).setPrev (some s.fresh) ((last T).or (last A))).setNext (some s.fresh) (first C))
        ((last W).or (last A)) C none := by
      refine lC.congr ?_
      intro i hi
      have hiT := hCT i hi
      have hif : some s.fresh ≠ some i := by simpa using (ne1 i (.inr (.inr hi))).symm
      rw [setNext_node, if_neg hif, setPrev_node, if_neg hif, setNext_node, if_neg (nT i hiT),
        alloc_node, relink_fresh, if_neg (by simpa [hf] using ne1 i (.inr (.inr hi))),
        relink_node_of_not_mem _ _ _ _ hiT, hother i hiT]
    have h2 := h1.setPrev dC (some s.fresh)
    refine Links.congr (by simpa using h2) ?_
    intro i hi
    rw [setNext_node, if_neg (nA i fun hA => hAC i hA hi)]
  · simp [hf]
  · rw [ids_append, nodup_append]
    refine ⟨hd, by simp, ?_⟩
    rintro i hi j hj rfl
    simp only [ids_cons, ids_nil, mem_singleton] at hj
    exact ne1 i (.inr (.inl hi)) hj
  · intro i hi
    simp only [ids_append, mem_append, ids_cons, ids_nil, mem_singleton] at hi
    rcases hi with hi | rfl
    · have := hlt i (.inr (.inl (hT i hi)))
      exact ⟨by simp [hf]; omega, .inl (hT i hi)⟩
    · exact ⟨by simp [hf], .inr (Nat.le_refl _)⟩

theorem relinkMerged_eq (p : GPUTensorPool) (before after : Option NodeId) (tmp : List NodeId) (addr size : Nat) :
    (p.relinkMerged before after tmp addr size).1 = p.store.fresh ∧
      ∃ s, (p.relinkMerged before after tmp addr size).2 = { p with
        store := s
        memoryRegions := if before = none then some (tmp.head?.getD p.store.fresh) else p.memoryRegions } := by
  unfold relinkMerged
  cases before with
  | none =>
    simp only [relink_fresh, if_true, true_and]
    exact ⟨_, rfl⟩
  | some q =>
    simp only [relink_fresh, reduceCtorEq, if_false, true_and]
    exact ⟨_, rfl⟩

/-- What a successful `MergeRegions` makes of the stretch `W`, which starts at the address `w`: its ALLOCATED cells from `w`
on, and behind them one FREE cell `F`. -/
structure Merged (p q : GPUTensorPool) (A W C : List Cell) (w : Nat) (F : Cell) : Prop where
  holds : Holds q (A ++ (slideCells w (allocatedOf W) ++ [F]) ++ C)
  status : F.2.status = .FREE
  addr : F.2.addr = w + totalSize (allocatedOf W)
  size : F.2.size = freeBytes W
  index : q.allocatedRegions = p.allocatedRegions
  bytes : q.device.bytes = slideCellBytes p.device.bytes w (allocatedOf W)
  frame : Frame p q

section MergeRegions

variable {P : Platform} {p : GPUTensorPool} {A W C : List Cell} {w w' : Nat} {s e f : NodeId}

theorem first_eq_last {W : List Cell} {s : NodeId} (hd : (ids W).Nodup) (hs : first W = some s) (he : last W = some s) :
    ∃ x : Cell, W = [x] ∧ x.1 = s := by
  cases W with
  | nil => simp at hs
  | cons x W =>
    obtain rfl : x.1 = s := by simpa using hs
    rcases eq_nil_or_concat W with rfl | ⟨W, y, rfl⟩
    · exact ⟨x, rfl, rfl⟩
    · obtain hy : y.1 = x.1 := by simpa [last_cons] using he
      simp [hy] at hd

theorem Holds.mergeRegions_single {x : Cell} (h : Holds p (A ++ [x] ++ C)) (hx : x.2.status = .FREE) :
    (p.mergeRegions P (some x.1) (some x.1) true).1 = some x.1 ∧
      Merged p (p.mergeRegions P (some x.1) (some x.1) true).2 A [x] C x.2.addr x := by
  have ha : allocatedOf [x] = [] := by simp [allocatedOf_cons, hx]
  have hq : p.mergeRegions P (some x.1) (some x.1) true = (some x.1, { p with moveDataVolume := p.moveDataVolume ++ [0] }) := by
    simp [mergeRegions]
  rw [hq]
  refine ⟨rfl, ?_, hx, ?_, ?_, rfl, ?_, ⟨rfl, rfl⟩⟩
  · rw [ha]
    exact h.of_eq rfl rfl
  · rw [ha]
    rfl
  · simp [freeBytes_cons, hx]
  · rw [ha]
    rfl

theorem Holds.mergeRegions_eq (h : Holds p (A ++ W ++ C)) (ht : IsTiling w W w') (hs : first W = some s)
    (he : last W = some e) (hse : s ≠ e) (hl : NoLoading W) (hf : 0 < freeBytes W) :
    p.mergeRegions P (some s) (some e) true = let r := slideRegions P true (ids (allocatedOf W)) w 0 p
      if r.1 then
        (some (r.2.2.2.relinkMerged (last A) (first C) (ids (allocatedOf W)) r.2.1 (freeBytes W)).1,
          { (r.2.2.2.relinkMerged (last A) (first C) (ids (allocatedOf W)) r.2.1 (freeBytes W)).2 with
            moveDataVolume := (r.2.2.2.relinkMerged (last A) (first C) (ids (allocatedOf W)) r.2.1
              (freeBytes W)).2.moveDataVolume ++ [r.2.2.1] })
      else (none, r.2.2.2) := by
  obtain ⟨h1, h2, h3⟩ := h.window hs he
  have hsub : ∀ c ∈ W, c ∈ A ++ W ++ C := fun c hc => by simp [hc]
  have hload : ((ids W).any fun i => (p.region i).status = .LOADING) = false := by
    rw [any_eq_false]
    intro i hi
    obtain ⟨c, hc, rfl⟩ := mem_ids.1 hi
    simpa [h.region_eq (hsub c hc)] using hl c hc
  have hsum : ((ids W).map fun i => if (p.region i).status = .FREE then (p.region i).size else 0).sum = freeBytes W := by
    rw [h.map_ids hsub fun r => if r.status = .FREE then r.size else 0]
    rfl
  have htmp : ((ids W).filter fun i => (p.region i).status = .ALLOCATED) = ids (allocatedOf W) :=
    h.filter_ids hsub fun r => decide (r.status = .ALLOCATED)
  have haddr : (p.region s).addr = w := by
    cases W with
    | nil => simp at hs
    | cons c W =>
      obtain rfl : c.1 = s := by simpa using hs
      rw [h.region_eq (hsub c (by simp))]
      exact (isTiling_cons.1 ht).1
  simp only [mergeRegions, hse, if_false, h1, h2, h3, hload, Bool.false_eq_true, hsum, htmp, haddr,
    Nat.ne_of_gt hf]

theorem Holds.mergeRegions (h : Holds p (A ++ W ++ C)) (ht : IsTiling w W w') (hs : first W = some s)
    (he : last W = some e) (hl : NoLoading W) (hf : 0 < freeBytes W)
    (hr : (p.mergeRegions P (some s) (some e) true).1 = some f) :
    ∃ r, Merged p (p.mergeRegions P (some s) (some e) true).2 A W C w (f, r) := by
  by_cases hse : s = e
  · subst hse
    obtain ⟨x, rfl, rfl⟩ := first_eq_last h.rep.parts.2.1 hs he
    have hx : x.2.status = .FREE := by
      by_contra hx
      simp [freeBytes_cons, hx] at hf
    obtain ⟨h1, h2⟩ := h.mergeRegions_single (P := P) hx
    obtain rfl : x.1 = f := by simpa [h1] using hr
    rw [(isTiling_cons.1 ht).1] at h2
    exact ⟨x.2, h2⟩
  · have hsub : ∀ c ∈ allocatedOf W, c ∈ A ++ W ++ C := fun c hc => by simp [(mem_allocatedOf.1 hc).1]
    have hTW : ∀ i ∈ ids (allocatedOf W), i ∈ ids W := by
      intro i hi
      obtain ⟨c, hc, rfl⟩ := mem_ids.1 hi
      exact mem_ids_of_mem (mem_allocatedOf.1 hc).1
    have hnd : (ids (allocatedOf W)).Nodup := h.rep.parts.2.1.sublist (List.Sublist.map _ filter_sublist)
    rw [h.mergeRegions_eq ht hs he hse hl hf] at hr ⊢
    dsimp only at hr ⊢
    cases hok : (slideRegions P true (ids (allocatedOf W)) w 0 p).1 with
    | false => simp [hok] at hr
    | true =>
      simp only [hok, if_true, Option.some.injEq] at hr ⊢
      obtain ⟨hcur, hslid⟩ := slideRegions_ok (allocatedOf W) w 0 p hnd (fun c hc => h.region_eq (hsub c hc))
        ht.ordered.allocatedOf (fun c hc => (ht.mem (mem_allocatedOf.1 hc).1).1) hok
      generalize slideRegions P true (ids (allocatedOf W)) w 0 p = r at *
      have hrep := relinkMerged_rep (p := r.2.2.2) (T := slideCells w (allocatedOf W)) r.2.1 (freeBytes W) h.rep
        (by simpa using hTW) (by simpa using hnd) (by simpa using hslid.other) hslid.val hslid.fresh
      rw [ids_slideCells] at hrep
      obtain ⟨s', d', heq⟩ := hslid.eq
      obtain ⟨hfst, s2, hsnd⟩ := relinkMerged_eq r.2.2.2 (last A) (first C) (ids (allocatedOf W)) r.2.1 (freeBytes W)
      rw [hfst, hslid.fresh] at hr
      subst hr
      have hhead : (ids (allocatedOf W)).head? = first (slideCells w (allocatedOf W)) := by
        rw [← ids_slideCells w]
        simp [ids, first]
      refine ⟨mk' r.2.1 (freeBytes W), ⟨hrep, ?_⟩, rfl, hcur, rfl, ?_, ?_, ?_⟩
      · have hA := h.head
        rw [hsnd, hhead, hslid.fresh]
        rcases eq_nil_or_concat A with rfl | ⟨A, q, rfl⟩
        · cases hT : slideCells w (allocatedOf W) <;> simp
        · have hm : r.2.2.2.memoryRegions = p.memoryRegions := by rw [heq]
          simp [hm, hA]
      · rw [hsnd, heq]
      · rw [hsnd]
        exact hslid.bytes
      · rw [hsnd, heq]
        exact ⟨rfl, rfl⟩

theorem Holds.mergeRegions_succeeds (hP : P.MovesSucceed) (h : Holds p (A ++ W ++ C)) (ht : IsTiling w W w') (h0 : 0 < w)
    (hs : first W = some s) (he : last W = some e) (hl : NoLoading W) (hf : 0 < freeBytes W) :
    ∃ f, (p.mergeRegions P (some s) (some e) true).1 = some f := by
  by_cases hse : s = e
  · subst hse
    exact ⟨s, by simp [GPUTensorPool.mergeRegions]⟩
  · have hsub : ∀ c ∈ allocatedOf W, c ∈ A ++ W ++ C := fun c hc => by simp [(mem_allocatedOf.1 hc).1]
    have hnd : (ids (allocatedOf W)).Nodup := h.rep.parts.2.1.sublist (List.Sublist.map _ filter_sublist)
    have hok := slideRegions_succeeds hP (allocatedOf W) w 0 p hnd (fun c hc => h.region_eq (hsub c hc))
      ht.ordered.allocatedOf (fun c hc => (ht.mem (mem_allocatedOf.1 hc).1).1) h0
    rw [h.mergeRegions_eq ht hs he hse hl hf]
    simp only [hok, if_true]
    exact ⟨_, rfl⟩

end MergeRegions

/-! ## `GlobalDeFrag` -/

/-- The cells of a list, with consecutive fresh numbers. -/
def renumber : Nat → List Cell → List Cell
  | _, [] => []
  | n, c :: l => (n, c.2) :: renumber (n + 1) l

/-- The index after `GlobalDeFrag` entered the new cells. -/
def defragIndex : (String → Option NodeId) → List Cell → String → Option NodeId
  | ix, [] => ix
  | ix, c :: l =>
    defragIndex (if c.2.fingerprint ≠ "" then update ix c.2.fingerprint (some c.1) else ix) l

/-- What the loop of `GlobalDeFrag` leaves behind: `B` are the new cells made so far, `T` the ones still to come. -/
structure Defragged (p q : GPUTensorPool) (B T : List Cell) (a : Nat) : Prop where
  rep : Rep q.store (B ++ renumber p.store.fresh (slideCells a T))
  index : q.allocatedRegions = defragIndex p.allocatedRegions (renumber p.store.fresh (slideCells a T))
  bytes : q.device.bytes = slideCellBytes p.device.bytes a T
  fresh : q.store.fresh = p.store.fresh + T.length
  frame : Frame p q

theorem deFragLoop_ok {P : Platform} :
    ∀ (T B : List Cell) (a moved : Nat) (p : GPUTensorPool), Rep p.store B → Ordered T → (∀ c ∈ T, a ≤ c.2.addr) →
      ∀ ok a' prev head moved' q,
        deFragLoop P (T.map snd) a (last B) (first B) moved p = (ok, a', prev, head, moved', q) →
        ok = true →
        a' = a + totalSize T ∧ prev = last (B ++ renumber p.store.fresh (slideCells a T)) ∧
          head = first (B ++ renumber p.store.fresh (slideCells a T)) ∧ Defragged p q B T a := by
  intro T
  induction T with
  | nil =>
    intro B a moved p hB _ _ ok a' prev head moved' q h _
    simp only [map_nil, deFragLoop, Prod.mk.injEq] at h
    obtain ⟨-, rfl, rfl, rfl, -, rfl⟩ := h
    refine ⟨rfl, by simp [slideCells, slide, renumber], by simp [slideCells, slide, renumber], ?_⟩
    exact ⟨by simpa [slideCells, slide, renumber] using hB, rfl, rfl, rfl, Frame.refl _⟩
  | cons c T ih =>
    intro B a moved p hB ho ha ok a' prev head moved' q h hok
    obtain ⟨ho1, ho2⟩ := pairwise_cons.1 ho
    have hac := ha c (by simp)
    have hle : ∀ d ∈ T, a + c.2.size ≤ d.2.addr := fun d hd' => by have := ho1 d hd'; omega
    have hB' := hB.snoc (c.2.setAddr a)
    -- one round: a new cell behind the others, the bytes copied if they have to move, the index entry
    obtain ⟨moved1, q1, h1, h2, h3, h4, h5⟩ : ∃ moved1 q1,
        deFragLoop P (T.map snd) (a + c.2.size) (last (B ++ [(p.store.fresh, c.2.setAddr a)]))
          (first (B ++ [(p.store.fresh, c.2.setAddr a)])) moved1 q1 = (ok, a', prev, head, moved', q) ∧
        q1.store = p.store.snoc (last B) (c.2.setAddr a) ∧
        q1.allocatedRegions = (if c.2.fingerprint ≠ "" then
          update p.allocatedRegions c.2.fingerprint (some p.store.fresh) else p.allocatedRegions) ∧
        q1.device.bytes = copy p.device.bytes a c.2.addr c.2.size ∧ Frame p q1 := by
      simp only [map_cons, deFragLoop] at h
      have hl : last (B ++ [(p.store.fresh, c.2.setAddr a)]) = some p.store.fresh := by simp
      have hf : first (B ++ [(p.store.fresh, c.2.setAddr a)]) = (first B).or (some p.store.fresh) := by simp
      rw [hl, hf]
      by_cases hm : c.2.addr = a
      · simp only [hm, ne_eq, not_true_eq_false, if_false, if_true] at h
        refine ⟨_, _, h, ?_⟩
        split <;> exact ⟨rfl, rfl, by rw [hm, copy_self], rfl, rfl⟩
      · simp only [hm, ne_eq, not_false_eq_true, if_true] at h
        cases hr : (cudaSafeMove P p.device a c.2.addr c.2.size).1 with
        | false =>
          simp only [hr, Bool.false_eq_true, if_false, Prod.mk.injEq] at h
          rw [← h.1] at hok
          exact absurd hok (by simp)
        | true =>
          simp only [hr, if_true] at h
          refine ⟨_, _, h, ?_⟩
          have hb := (cudaSafeMove_ok hr).1
          split <;> exact ⟨rfl, rfl, hb, rfl, rfl⟩
    have hfresh : q1.store.fresh = p.store.fresh + 1 := by
      rw [h2]
      simp [snoc]
    obtain ⟨e1, e2, e3, e4⟩ := ih _ _ _ _ (h2 ▸ hB') ho2 hle _ _ _ _ _ _ h1 hok
    have hcells : B ++ renumber p.store.fresh (slideCells a (c :: T)) =
        B ++ [(p.store.fresh, c.2.setAddr a)] ++ renumber q1.store.fresh (slideCells (a + c.2.size) T) := by
      rw [slideCells_cons, renumber, hfresh, append_assoc]
      rfl
    refine ⟨by rw [e1, totalSize_cons, Nat.add_assoc], by rw [hcells, e2], by rw [hcells, e3], ?_, ?_, ?_, ?_, ?_⟩
    · rw [hcells]
      exact e4.rep
    · rw [e4.index, h3, hfresh]
      rfl
    · rw [e4.bytes, h4]
      rfl
    · rw [e4.fresh, hfresh, length_cons]
      omega
    · exact h5.trans e4.frame

theorem deFragLoop_succeeds {P : Platform} (hP : P.MovesSucceed) :
    ∀ (T : List Cell) (a : Nat) (prev head : Option NodeId) (moved : Nat) (p : GPUTensorPool), Ordered T →
      (∀ c ∈ T, a ≤ c.2.addr) → 0 < a →
      (deFragLoop P (T.map snd) a prev head moved p).1 = true := by
  intro T
  induction T with
  | nil => intro a prev head moved p _ _ _; rfl
  | cons c T ih =>
    intro a prev head moved p ho ha h0
    obtain ⟨ho1, ho2⟩ := pairwise_cons.1 ho
    have hac := ha c (by simp)
    have hle : ∀ d ∈ T, a + c.2.size ≤ d.2.addr := fun d hd' => by have := ho1 d hd'; omega
    simp only [map_cons, deFragLoop]
    by_cases hm : c.2.addr = a
    · simp only [hm, ne_eq, not_true_eq_false, if_false, if_true]
      exact ih _ _ _ _ _ ho2 hle (by omega)
    · simp only [hm, ne_eq, not_false_eq_true, if_true, cudaSafeMove_succeeds hP p.device h0 (show 0 < c.2.addr by omega)]
      exact ih _ _ _ _ _ ho2 hle (by omega)

/-- The FREE cell at the end of a compacted list, if there are free bytes. -/
def restCells (n addr size : Nat) : List Cell := if 0 < size then [(n, Region.mk' addr size)] else []

/-- The whole list `l`, which starts at `a`, after `GlobalDeFrag`. -/
def defragCells (fresh a : Nat) (l : List Cell) : List Cell :=
  renumber fresh (slideCells a (allocatedOf l)) ++
    restCells (fresh + (allocatedOf l).length) (a + totalSize (allocatedOf l)) (freeBytes l)

section GlobalDeFrag

variable {P : Platform} {p : GPUTensorPool} {l : List Cell} {a b : Nat}

theorem freeBytes_eq_of_noLoading (hl : NoLoading l) :
    ((l.filter fun c => c.2.status ≠ .ALLOCATED).map fun c => c.2.size).sum = freeBytes l := by
  induction l with
  | nil => rfl
  | cons c l ih =>
    obtain ⟨h1, h2⟩ := noLoading_cons.1 hl
    rw [freeBytes_cons, filter_cons, ← ih h2]
    cases hc : c.2.status with
    | FREE => simp
    | LOADING => exact absurd hc h1
    | ALLOCATED => simp

theorem Holds.infos (h : Holds p l) : p.regions.map p.region = l.map snd := h.map_regions id

theorem Holds.infos_filter (h : Holds p l) (f : Region → Bool) :
    (p.regions.map p.region).filter f = (l.filter fun c => f c.2).map snd := by
  rw [h.infos, filter_map]
  rfl

theorem Holds.head_addr (h : Holds p l) (ht : IsTiling a l b) {i : NodeId} (hi : p.memoryRegions = some i) :
    (p.region i).addr = a := by
  rw [h.head] at hi
  cases l with
  | nil => simp at hi
  | cons c l =>
    obtain rfl : c.1 = i := by simpa using hi
    rw [h.region_eq (by simp)]
    exact (isTiling_cons.1 ht).1

theorem Holds.globalDeFrag_eq (h : Holds p l) (ht : IsTiling a l b) (hl : NoLoading l) (hne : l ≠ []) :
    p.globalDeFrag P =
      let (ok, currentAddr, prev', head, moved, q) := deFragLoop P ((allocatedOf l).map snd) a none none 0 p
      if ok then
        let (head, q) :=
          if 0 < freeBytes l then
            (head.or (some q.store.fresh), { q with store := q.store.snoc prev' (mk' currentAddr (freeBytes l)) })
          else (head, q)
        (0, { q with memoryRegions := head, moveDataVolume := q.moveDataVolume ++ [moved] })
      else (1, q) := by
  obtain ⟨i, hi⟩ : ∃ i, p.memoryRegions = some i := by
    rw [h.head]
    cases l with
    | nil => exact absurd rfl hne
    | cons c l => exact ⟨c.1, rfl⟩
  have hfree : (((p.regions.map p.region).filter fun r => r.status ≠ .ALLOCATED).map size).sum = freeBytes l := by
    rw [h.infos_filter, map_map]
    exact freeBytes_eq_of_noLoading hl
  have halloc : ((p.regions.map p.region).filter fun r => r.status = .ALLOCATED) = (allocatedOf l).map snd :=
    h.infos_filter fun r => decide (r.status = .ALLOCATED)
  simp only [globalDeFrag, hi, hfree, halloc, h.head_addr ht hi]

theorem Holds.globalDeFrag (h : Holds p l) (ht : IsTiling a l b) (hl : NoLoading l) (hne : l ≠ [])
    (hr : (p.globalDeFrag P).1 = 0) :
    Holds (p.globalDeFrag P).2 (defragCells p.store.fresh a l) ∧
      (p.globalDeFrag P).2.allocatedRegions =
        defragIndex p.allocatedRegions (renumber p.store.fresh (slideCells a (allocatedOf l))) ∧
      (p.globalDeFrag P).2.device.bytes = slideCellBytes p.device.bytes a (allocatedOf l) ∧
      Frame p (p.globalDeFrag P).2 := by
  rw [h.globalDeFrag_eq ht hl hne] at hr ⊢
  rcases hq : deFragLoop P ((allocatedOf l).map snd) a none none 0 p with ⟨ok, cur, prev, head, moved, q⟩
  have ha : ∀ c ∈ allocatedOf l, a ≤ c.2.addr := fun c hc => (ht.mem (mem_allocatedOf.1 hc).1).1
  cases ok with
  | false => simp [hq] at hr
  | true =>
    obtain ⟨rfl, rfl, rfl, hd⟩ :=
      deFragLoop_ok (allocatedOf l) [] a 0 p (Rep.nil _) ht.ordered.allocatedOf ha _ _ _ _ _ _ hq rfl
    have hrep := hd.rep
    have hfr := hd.fresh
    simp only [if_true, nil_append] at hrep ⊢
    by_cases hf : 0 < freeBytes l
    · simp only [hf, if_true]
      refine ⟨⟨?_, ?_⟩, hd.index, hd.bytes, hd.frame.base, hd.frame.blockId⟩
      · have := hrep.snoc (mk' (a + totalSize (allocatedOf l)) (freeBytes l))
        rw [hfr] at this
        simpa only [defragCells, restCells, hf, if_true] using this
      · simp [defragCells, restCells, hf, hfr]
    · simp only [hf, if_false]
      refine ⟨⟨?_, ?_⟩, hd.index, hd.bytes, hd.frame.base, hd.frame.blockId⟩
      · simpa [defragCells, restCells, hf] using hrep
      · simp [defragCells, restCells, hf]

theorem Holds.globalDeFrag_succeeds (hP : P.MovesSucceed) (h : Holds p l) (ht : IsTiling a l b) (hl : NoLoading l)
    (h0 : 0 < a) (hne : l ≠ []) : (p.globalDeFrag P).1 = 0 := by
  have ha : ∀ c ∈ allocatedOf l, a ≤ c.2.addr := fun c hc => (ht.mem (mem_allocatedOf.1 hc).1).1
  have hok := deFragLoop_succeeds hP (allocatedOf l) a none none 0 p ht.ordered.allocatedOf ha h0
  rw [h.globalDeFrag_eq ht hl hne]
  rcases hq : deFragLoop P ((allocatedOf l).map snd) a none none 0 p with ⟨ok, cur, prev, head, moved, q⟩
  rw [hq] at hok
  obtain rfl : ok = true := hok
  simp only [if_true]

end GlobalDeFrag

end ServerlessLLM
