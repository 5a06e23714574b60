import ServerlessLLM.Vram.Cells
import ServerlessLLM.Vram.Split

/-!
# What the operations of a pool do, without pointers

The abstract state of a pool is a `View`: its regions in address order, its index and the bytes of its device. Whatever the
manager does to a pool is made of three kinds of steps: it frees a region, it slides regions to the left (`Compacted`), or it
cuts a region off a FREE one for a tensor group or for blocks (`Placed`). An eviction is a sequence of the first kind
(`Evicted`), placing a model one of the other two (`Loading`). Each invariant of the pool is proved here once for each kind of
step, and for the sequences by induction.
-/

namespace ServerlessLLM

open Linked List Function

/-- A pool, without its pointers. -/
structure View where
  cells : List Cell
  index : String → Option NodeId
  bytes : Nat → UInt8

/-! ## The invariants -/

/-- The regions of the pool `[a, b)`: they tile it, none is LOADING, no two neighbours are both FREE. -/
structure Layout (a b : Nat) (l : List Cell) : Prop where
  tiling : IsTiling a l b
  noLoading : NoLoading l
  noAdjacentFree : NoAdjacentFree l
  nodup : (ids l).Nodup

/-- Every entry of the index is an ALLOCATED region of the list that carries the fingerprint. -/
def IndexSound (v : View) : Prop :=
  ∀ fp i, v.index fp = some i → ∃ r, (i, r) ∈ allocatedOf v.cells ∧ r.fingerprint = fp

/-- Every ALLOCATED region of the list is entered in the index. -/
def IndexComplete (v : View) : Prop := ∀ c ∈ allocatedOf v.cells, v.index c.2.fingerprint = some c.1

def Named (v : View) : Prop := ∀ c ∈ allocatedOf v.cells, c.2.fingerprint ≠ ""

def Absent (fp : String) (v : View) : Prop := ∀ c ∈ allocatedOf v.cells, c.2.fingerprint ≠ fp

/-- Some ALLOCATED region at the address carries the fingerprint and has the size. -/
def Live (v : View) (fp : String) (size addr : Nat) : Prop :=
  ∃ c ∈ allocatedOf v.cells, c.2.fingerprint = fp ∧ c.2.size = size ∧ c.2.addr = addr

/-- The bytes of a region are those of `content`. -/
def Filled (bytes : Nat → UInt8) (r : Region) (content : List UInt8) : Prop :=
  r.size = content.length ∧ ∀ k < content.length, bytes (r.addr + k) = content.getD k 0

/-- Every ALLOCATED region whose fingerprint is in `K` holds the bytes that belong to the fingerprint. -/
def Content (content : String → List UInt8) (K : String → Prop) (v : View) : Prop :=
  ∀ c ∈ allocatedOf v.cells, K c.2.fingerprint → Filled v.bytes c.2 (content c.2.fingerprint)

/-! ## Evicting -/

/-- The view after regions that satisfy `E` were freed, one after another. -/
inductive Evicted (E : Region → Prop) : View → View → Prop
  | refl (v : View) : Evicted E v v
  | free {A C : List Cell} {x : Cell} {index : String → Option NodeId} {bytes : Nat → UInt8} {v : View}
      (hx : x.2.status = .ALLOCATED) (hE : E x.2)
      (h : Evicted E ⟨freeCells A x C, update index x.2.fingerprint none, bytes⟩ v) :
      Evicted E ⟨A ++ x :: C, index, bytes⟩ v

theorem ids_absorbLeft_sublist (A : List Cell) (y : Cell) (C : List Nat) :
    List.Sublist (ids (absorbLeft A y).1 ++ (absorbLeft A y).2.1 :: C) (ids A ++ y.1 :: C) := by
  rcases eq_nil_or_concat A with rfl | ⟨A, q, rfl⟩
  · exact List.Sublist.refl _
  · rw [concat_eq_append, absorbLeft_concat]
    split
    · simp only [ids_append, ids_cons, ids_nil, append_assoc, singleton_append]
      exact List.Sublist.append_left (List.Sublist.cons_cons _ (sublist_cons_self _ _)) _
    · exact List.Sublist.refl _

variable (y : Cell) {A C : List Cell} {x c : Cell}

theorem ids_absorbRight_sublist (C : List Cell) : List.Sublist (ids (absorbRight y C)) (y.1 :: ids C) := by
  cases C with
  | nil => exact List.Sublist.refl _
  | cons n C =>
    simp only [absorbRight]
    split
    · exact List.Sublist.cons_cons _ (sublist_cons_self _ _)
    · exact List.Sublist.refl _

theorem ids_freeCells_sublist (A C : List Cell) (x : Cell) : List.Sublist (ids (freeCells A x C)) (ids (A ++ x :: C)) := by
  rw [freeCells, ids_append, ids_append, ids_cons]
  exact ((ids_absorbRight_sublist _ C).append_left _).trans (ids_absorbLeft_sublist A x.freed (ids C))

theorem Layout.freeCells {a b : Nat} (h : Layout a b (A ++ x :: C)) : Layout a b (freeCells A x C) :=
  ⟨isTiling_freeCells h.tiling, noLoading_freeCells h.noLoading, noAdjacentFree_freeCells h.noAdjacentFree,
    h.nodup.sublist (ids_freeCells_sublist A C x)⟩

theorem mem_allocatedOf_freeCells : c ∈ allocatedOf (freeCells A x C) ↔ c ∈ allocatedOf A ∨ c ∈ allocatedOf C := by
  rw [allocatedOf_freeCells, mem_append]

theorem mem_allocatedOf_mid (hx : x.2.status = .ALLOCATED) :
    c ∈ allocatedOf (A ++ x :: C) ↔ c ∈ allocatedOf A ∨ c = x ∨ c ∈ allocatedOf C := by
  rw [allocatedOf_append, allocatedOf_cons, if_pos hx, mem_append, mem_cons]

namespace Evicted

variable {E : Region → Prop} {v v' : View}

section

variable (h : Evicted E v v')

include h

theorem bytes_eq : v'.bytes = v.bytes := by
  induction h with
  | refl v => rfl
  | free hx hE h ih => exact ih

theorem mem_of_mem {c : Cell} (hc : c ∈ allocatedOf v'.cells) : c ∈ allocatedOf v.cells := by
  induction h with
  | refl v => exact hc
  | free hx hE h ih =>
    have := mem_allocatedOf_freeCells.1 (ih hc)
    exact (mem_allocatedOf_mid hx).2 (by tauto)

theorem mem_of_not {c : Cell} (hc : c ∈ allocatedOf v.cells) (hE : ¬E c.2) : c ∈ allocatedOf v'.cells := by
  induction h with
  | refl v => exact hc
  | free hx hEx h ih =>
    refine ih (mem_allocatedOf_freeCells.2 ?_)
    rcases (mem_allocatedOf_mid hx).1 hc with hA | rfl | hC
    · exact .inl hA
    · exact absurd hEx hE
    · exact .inr hC

theorem named (hn : Named v) : Named v' := fun c hc => hn c (h.mem_of_mem hc)

theorem absent {fp : String} (ha : Absent fp v) : Absent fp v' := fun c hc => ha c (h.mem_of_mem hc)

theorem indexSound (hs : IndexSound v) : IndexSound v' := by
  induction h with
  | refl v => exact hs
  | @free A C x index bytes v hx hE h ih =>
    refine ih ?_
    intro fp i hi
    by_cases hfp : fp = x.2.fingerprint
    · simp [hfp] at hi
    · simp only [update_of_ne hfp] at hi
      obtain ⟨r, hr, hf⟩ := hs fp i hi
      refine ⟨r, mem_allocatedOf_freeCells.2 ?_, hf⟩
      rcases (mem_allocatedOf_mid hx).1 hr with hA | rfl | hC
      · exact .inl hA
      · exact absurd hf.symm hfp
      · exact .inr hC

theorem indexComplete {a b : Nat} (hl : Layout a b v.cells) (hc : IndexComplete v) : IndexComplete v' := by
  induction h with
  | refl v => exact hc
  | @free A C x index bytes v hx hE h ih =>
    refine ih hl.freeCells ?_
    intro c hc'
    have hmem := mem_allocatedOf_freeCells.1 hc'
    have hci := hc c ((mem_allocatedOf_mid hx).2 (by tauto))
    -- a region with the fingerprint of the freed one would have its number
    have hne : c.2.fingerprint ≠ x.2.fingerprint := by
      intro he
      have hxi := hc x ((mem_allocatedOf_mid hx).2 (by simp))
      have h1 : c.1 = x.1 := by
        have : some c.1 = some x.1 := by rw [← hci, ← hxi, he]
        simpa using this
      have hd := hl.nodup
      simp only [ids_append, ids_cons, nodup_append, nodup_cons] at hd
      rcases hmem with hA | hC
      · exact hd.2.2 c.1 (mem_ids_of_mem (mem_allocatedOf.1 hA).1) x.1 (by simp) h1
      · exact hd.2.1.1 (h1 ▸ mem_ids_of_mem (mem_allocatedOf.1 hC).1)
    simpa only [update_of_ne hne] using hci

theorem trans {v'' : View} (h' : Evicted E v' v'') : Evicted E v v'' := by
  induction h with
  | refl v => exact h'
  | free hx hE _ ih => exact free hx hE (ih h')

theorem mono {E' : Region → Prop} (hE : ∀ r, E r → E' r) : Evicted E' v v' := by
  induction h with
  | refl v => exact refl v
  | free hx hEx _ ih => exact free hx (hE _ hEx) ih

theorem live {fp : String} {size addr : Nat} (hE : ∀ r, E r → r.fingerprint ≠ fp)
    (hl : Live v fp size addr) : Live v' fp size addr := by
  obtain ⟨c, hc, hf, hs, ha⟩ := hl
  exact ⟨c, h.mem_of_not hc fun he => hE _ he hf, hf, hs, ha⟩

theorem content {content : String → List UInt8} {K : String → Prop} (hc : Content content K v) : Content content K v' := by
  intro c hc' hK
  rw [h.bytes_eq]
  exact hc c (h.mem_of_mem hc') hK

end

end Evicted

/-! ## Compacting -/

/-- A region before and after a compaction: it may have slid, if it satisfies `S`, and it holds the same bytes. -/
structure Moved (S : Region → Prop) (v v' : View) (r r' : Region) : Prop where
  region : r' = r.setAddr r'.addr
  slid : r'.addr = r.addr ∨ S r
  bytes : ∀ k < r.size, v'.bytes (r'.addr + k) = v.bytes (r.addr + k)

/-- The view after regions that satisfy `S` slid to the left. -/
structure Compacted (S : Region → Prop) (v v' : View) : Prop where
  tiling : ∀ a b, IsTiling a v.cells b → IsTiling a v'.cells b
  layout : ∀ a b, Layout a b v.cells → Layout a b v'.cells
  free : freeBytes v'.cells = freeBytes v.cells
  allocated : List.Forall₂ (fun c d => Moved S v v' c.2 d.2) (allocatedOf v.cells) (allocatedOf v'.cells)
  indexSound : Named v → IndexSound v → IndexSound v'
  indexComplete : Named v → IndexComplete v → IndexComplete v'

theorem forall₂_right {α β : Type} {R : α → β → Prop} {l : List α} {l' : List β} (h : List.Forall₂ R l l') {y : β}
    (hy : y ∈ l') : ∃ x ∈ l, R x y := by
  induction h with
  | nil => simp at hy
  | cons hxy _ ih =>
    rcases mem_cons.1 hy with rfl | hy
    · exact ⟨_, by simp, hxy⟩
    · obtain ⟨x, hx, hR⟩ := ih hy
      exact ⟨x, by simp [hx], hR⟩

theorem forall₂_left {α β : Type} {R : α → β → Prop} {l : List α} {l' : List β} (h : List.Forall₂ R l l') {x : α}
    (hx : x ∈ l) : ∃ y ∈ l', R x y := by
  obtain ⟨y, hy, hR⟩ := forall₂_right h.flip hx
  exact ⟨y, hy, hR⟩

namespace Compacted

variable {S : Region → Prop} {v v' : View}

theorem refl (v : View) : Compacted S v v :=
  ⟨fun _ _ h => h, fun _ _ h => h, rfl, forall₂_same.2 fun _ _ => ⟨rfl, .inl rfl, fun _ _ => rfl⟩, fun _ h => h, fun _ h => h⟩

theorem all (h : Compacted S v v') {Q : Region → Prop} (hQ : ∀ r a, Q r → Q (r.setAddr a))
    (ha : ∀ c ∈ allocatedOf v.cells, Q c.2) : ∀ d ∈ allocatedOf v'.cells, Q d.2 := by
  intro d hd
  obtain ⟨c, hc, hm⟩ := forall₂_right h.allocated hd
  rw [hm.region]
  exact hQ _ _ (ha c hc)

theorem named (h : Compacted S v v') (hn : Named v) : Named v' := h.all (Q := fun r => r.fingerprint ≠ "") (fun _ _ hr => hr) hn

theorem absent (h : Compacted S v v') {fp : String} (ha : Absent fp v) : Absent fp v' :=
  h.all (Q := fun r => r.fingerprint ≠ fp) (fun _ _ hr => hr) ha

theorem live (h : Compacted S v v') {fp : String} {size addr : Nat} (hS : ∀ r, S r → r.fingerprint ≠ fp)
    (hl : Live v fp size addr) : Live v' fp size addr := by
  obtain ⟨c, hc, hf, hs, ha⟩ := hl
  obtain ⟨d, hd, hm⟩ := forall₂_left h.allocated hc
  have haddr : d.2.addr = c.2.addr := hm.slid.resolve_right fun hSc => hS _ hSc hf
  refine ⟨d, hd, ?_, ?_, haddr.trans ha⟩
  · rw [hm.region]
    exact hf
  · rw [hm.region]
    exact hs

theorem content {content : String → List UInt8} {K : String → Prop} (h : Compacted S v v') (hc : Content content K v) :
    Content content K v' := by
  intro d hd hK
  obtain ⟨c, hc', hm⟩ := forall₂_right h.allocated hd
  have hsz : d.2.size = c.2.size := by rw [hm.region]; rfl
  have hfp : d.2.fingerprint = c.2.fingerprint := by rw [hm.region]; rfl
  rw [hfp] at hK ⊢
  obtain ⟨h1, h2⟩ := hc c hc' hK
  exact ⟨hsz.trans h1, fun k hk => (hm.bytes k (h1 ▸ hk)).trans (h2 k hk)⟩

end Compacted

/-! ## Placing -/

/-- The view after `size` bytes at `addr` were cut off a FREE region, under a fingerprint. -/
inductive Placed (size : Nat) (fp : String) (m : Option RegisteredModel) : View → View → Nat → Prop
  | cut {A C : List Cell} {x : Cell} {index : String → Option NodeId} {bytes : Nat → UInt8} {fresh : NodeId}
      (hx : x.2.status = .FREE) (h0 : 0 < size) (hs : size ≤ x.2.size) (hf : fresh ∉ ids (A ++ x :: C)) :
      Placed size fp m ⟨A ++ x :: C, index, bytes⟩
        ⟨A ++ cutCells x fresh size fp m ++ C, update index fp (some x.1), bytes⟩ x.2.addr

namespace Placed

variable {size addr : Nat} {fp : String} {m : Option RegisteredModel} {v v' : View}

theorem bytes_eq (h : Placed size fp m v v' addr) : v'.bytes = v.bytes := by
  obtain ⟨hx, h0, hs, hf⟩ := h
  rfl

theorem tiling {a b : Nat} (h : Placed size fp m v v' addr) (ht : IsTiling a v.cells b) : IsTiling a v'.cells b := by
  obtain ⟨hx, h0, hs, hf⟩ := h
  exact isTiling_cutCells ht h0 hs

theorem layout {a b : Nat} (h : Placed size fp m v v' addr) (hl : Layout a b v.cells) : Layout a b v'.cells := by
  have ht := h.tiling hl.tiling
  obtain @⟨A, C, x, index, bytes, fresh, hx, h0, hs, hf⟩ := h
  refine ⟨ht, ?_, noAdjacentFree_cutCells hl.noAdjacentFree hx, ?_⟩
  · have := hl.noLoading
    simp only [noLoading_append, noLoading_cons] at this ⊢
    exact ⟨⟨this.1, noLoading_cutCells x fresh size fp m⟩, this.2.2⟩
  · have hd := hl.nodup
    by_cases hlt : size < x.2.size
    · have hpm : (ids (A ++ cutCells x fresh size fp m ++ C)).Perm (fresh :: ids (A ++ x :: C)) := by
        simp only [cutCells, hlt, if_true, ids_append, ids_cons, append_assoc, cons_append, nil_append]
        refine (List.Perm.append_left _ (List.Perm.swap _ _ _)).trans ?_
        exact perm_middle
      exact hpm.nodup_iff.2 (nodup_cons.2 ⟨hf, hd⟩)
    · simpa [cutCells, hlt] using hd

theorem mem_allocatedOf_cut {A C : List Cell} {x c : Cell} {fresh : NodeId} (hx : x.2.status = .FREE) :
    c ∈ allocatedOf (A ++ cutCells x fresh size fp m ++ C) ↔
      c = (x.1, { status := .ALLOCATED, addr := x.2.addr, size := size, fingerprint := fp, modelRef := m }) ∨
        c ∈ allocatedOf (A ++ x :: C) := by
  have hne : ¬x.2.status = .ALLOCATED := by rw [hx]; decide
  rw [allocatedOf_append, allocatedOf_append, allocatedOf_cutCells, allocatedOf_append, allocatedOf_cons, if_neg hne]
  simp only [mem_append, mem_singleton]
  tauto

section

variable (h : Placed size fp m v v' addr)

include h

theorem perm : ((allocatedOf v'.cells).map Prod.snd).Perm
    (⟨.ALLOCATED, addr, size, fp, m⟩ :: (allocatedOf v.cells).map Prod.snd) := by
  obtain @⟨A, C, x, index, bytes, fresh, hx, h0, hs, hf⟩ := h
  have hne : ¬x.2.status = .ALLOCATED := by rw [hx]; decide
  rw [allocatedOf_append, allocatedOf_append, allocatedOf_cutCells, allocatedOf_append, allocatedOf_cons, if_neg hne]
  simp only [map_append, map_cons, append_assoc, cons_append, nil_append]
  exact perm_middle

theorem mem_iff : ∃ i, v'.index = Function.update v.index fp (some i) ∧
    (∀ c, c ∈ allocatedOf v'.cells ↔
      c = (i, { status := .ALLOCATED, addr := addr, size := size, fingerprint := fp, modelRef := m }) ∨
        c ∈ allocatedOf v.cells) ∧
    ∃ x ∈ v.cells, x.1 = i ∧ x.2.status = .FREE := by
  obtain @⟨A, C, x, index, bytes, fresh, hx, h0, hs, hf⟩ := h
  exact ⟨x.1, rfl, fun c => mem_allocatedOf_cut hx, x, by simp, rfl, hx⟩

theorem free : freeBytes v'.cells + size = freeBytes v.cells := by
  obtain @⟨A, C, x, index, bytes, fresh, hx, h0, hs, hf⟩ := h
  have := freeBytes_cutCells fresh fp m hs
  simp only [freeBytes_append, freeBytes_cons, hx, if_true]
  omega

theorem mem_of_mem {c : Cell} (hc : c ∈ allocatedOf v.cells) : c ∈ allocatedOf v'.cells := by
  obtain ⟨i, -, h2, -⟩ := h.mem_iff
  exact (h2 c).2 (.inr hc)

theorem live_new : Live v' fp size addr := by
  obtain ⟨i, -, h2, -⟩ := h.mem_iff
  exact ⟨_, (h2 _).2 (.inl rfl), rfl, rfl, rfl⟩

theorem live {fp' : String} {size' addr' : Nat} (hl : Live v fp' size' addr') : Live v' fp' size' addr' := by
  obtain ⟨c, hc, hl⟩ := hl
  exact ⟨c, h.mem_of_mem hc, hl⟩

theorem all {Q : Region → Prop} (ha : ∀ c ∈ allocatedOf v.cells, Q c.2)
    (hnew : Q { status := .ALLOCATED, addr := addr, size := size, fingerprint := fp, modelRef := m }) :
    ∀ c ∈ allocatedOf v'.cells, Q c.2 := by
  obtain ⟨i, -, h2, -⟩ := h.mem_iff
  intro c hc
  rcases (h2 c).1 hc with rfl | hc
  · exact hnew
  · exact ha c hc

theorem named (hn : Named v) (hfp : fp ≠ "") : Named v' := h.all (Q := fun r => r.fingerprint ≠ "") hn hfp

theorem absent {fp' : String} (ha : Absent fp' v) (hne : fp ≠ fp') : Absent fp' v' :=
  h.all (Q := fun r => r.fingerprint ≠ fp') ha hne

theorem indexSound (hs : IndexSound v) : IndexSound v' := by
  obtain ⟨i, h1, h2, -⟩ := h.mem_iff
  intro fp' j hj
  rw [h1] at hj
  by_cases hfp : fp' = fp
  · subst hfp
    simp only [update_self, Option.some.injEq] at hj
    subst hj
    exact ⟨_, (h2 _).2 (.inl rfl), rfl⟩
  · rw [update_of_ne hfp] at hj
    obtain ⟨r, hr, hf⟩ := hs fp' j hj
    exact ⟨r, (h2 _).2 (.inr hr), hf⟩

theorem indexComplete (hc : IndexComplete v) (ha : Absent fp v) : IndexComplete v' := by
  obtain ⟨i, h1, h2, -⟩ := h.mem_iff
  intro c hc'
  rw [h1]
  rcases (h2 c).1 hc' with rfl | hc'
  · simp
  · rw [update_of_ne (ha c hc')]
    exact hc c hc'

theorem content {content : String → List UInt8} {K : String → Prop}
    (hc : Content content K v) (hK : ¬K fp) : Content content K v' := by
  obtain ⟨i, -, h2, -⟩ := h.mem_iff
  intro c hc' hKc
  rw [h.bytes_eq]
  rcases (h2 c).1 hc' with rfl | hc'
  · exact absurd hKc hK
  · exact hc c hc' hKc

end

end Placed

/-! ## Loading -/

/-- The placing of a list of groups of the model `m`: compactions of regions that satisfy `S`, and one placement for each
group, whose address is recorded in the list of addresses. -/
inductive Loading (S : Region → Prop) (m : RegisteredModel) :
    View → List Nat → List TGNeedAllocates → View → List Nat → Prop
  | nil (v : View) (addrs : List Nat) : Loading S m v addrs [] v addrs
  | compact {v v₁ v' : View} {addrs addrs' : List Nat} {tgs : List TGNeedAllocates} (hc : Compacted S v v₁)
      (h : Loading S m v₁ addrs tgs v' addrs') : Loading S m v addrs tgs v' addrs'
  | place {v v₁ v' : View} {addrs addrs' : List Nat} {tg : TGNeedAllocates} {tgs : List TGNeedAllocates} {a : Nat}
      (hp : Placed tg.size tg.tgIndex.fingerprint (some m) v v₁ a)
      (h : Loading S m v₁ (addrs.set tg.tgId a) tgs v' addrs') : Loading S m v addrs (tg :: tgs) v' addrs'

namespace Loading

variable {S : Region → Prop} {m : RegisteredModel} {v v' : View} {addrs addrs' : List Nat} {tgs : List TGNeedAllocates}

section

variable (h : Loading S m v addrs tgs v' addrs')

include h

theorem trans {v'' : View} {addrs'' : List Nat} {tgs' : List TGNeedAllocates}
    (h' : Loading S m v' addrs' tgs' v'' addrs'') : Loading S m v addrs (tgs ++ tgs') v'' addrs'' := by
  induction h with
  | nil v addrs => exact h'
  | compact hc h ih => exact compact hc (ih h')
  | place hp h ih => exact place hp (ih h')

theorem layout {a b : Nat} (hl : Layout a b v.cells) : Layout a b v'.cells := by
  induction h with
  | nil v addrs => exact hl
  | compact hc h ih => exact ih (hc.layout a b hl)
  | place hp h ih => exact ih (hp.layout hl)

theorem free : freeBytes v'.cells + totalNeed tgs = freeBytes v.cells := by
  induction h with
  | nil v addrs => rfl
  | compact hc h ih => rw [ih, hc.free]
  | place hp h ih =>
    have := hp.free
    simp only [totalNeed, map_cons, sum_cons] at ih ⊢
    omega

theorem sound (hfp : ∀ tg ∈ tgs, tg.tgIndex.fingerprint ≠ "") (hn : Named v)
    (hs : IndexSound v) : Named v' ∧ IndexSound v' := by
  induction h with
  | nil v addrs => exact ⟨hn, hs⟩
  | compact hc h ih => exact ih hfp (hc.named hn) (hc.indexSound hn hs)
  | place hp h ih =>
    exact ih (fun tg htg => hfp tg (by simp [htg])) (hp.named hn (hfp _ (by simp))) (hp.indexSound hs)

theorem all {Q : Region → Prop} (hQ : ∀ r a, Q r → Q (r.setAddr a))
    (hnew : ∀ tg ∈ tgs, ∀ a, Q ⟨.ALLOCATED, a, tg.size, tg.tgIndex.fingerprint, some m⟩)
    (ha : ∀ c ∈ allocatedOf v.cells, Q c.2) : ∀ c ∈ allocatedOf v'.cells, Q c.2 := by
  induction h with
  | nil v addrs => exact ha
  | compact hc h ih => exact ih hnew (hc.all hQ ha)
  | place hp h ih => exact ih (fun tg htg => hnew tg (by simp [htg])) (hp.all ha (hnew _ (by simp) _))

theorem absent {fp : String} (ha : Absent fp v) (hfp : ∀ tg ∈ tgs, tg.tgIndex.fingerprint ≠ fp) : Absent fp v' :=
  h.all (Q := fun r => r.fingerprint ≠ fp) (fun _ _ hr => hr) (fun tg htg _ => hfp tg htg) ha

theorem complete (hfp : ∀ tg ∈ tgs, tg.tgIndex.fingerprint ≠ "")
    (hd : (tgs.map fun tg => tg.tgIndex.fingerprint).Nodup) (ha : ∀ tg ∈ tgs, Absent tg.tgIndex.fingerprint v)
    (hn : Named v) (hc : IndexComplete v) : IndexComplete v' := by
  induction h with
  | nil v addrs => exact hc
  | compact hco h ih => exact ih hfp hd (fun tg htg => hco.absent (ha tg htg)) (hco.named hn) (hco.indexComplete hn hc)
  | @place v v₁ v' addrs addrs' tg tgs a hp h ih =>
    rw [map_cons, nodup_cons] at hd
    refine ih (fun tg' htg => hfp tg' (by simp [htg])) hd.2 ?_ (hp.named hn (hfp _ (by simp)))
      (hp.indexComplete hc (ha tg (by simp)))
    intro tg' htg
    refine hp.absent (ha tg' (by simp [htg])) fun he => hd.1 ?_
    exact mem_map.2 ⟨tg', htg, he.symm⟩

end

theorem perm {β : Type} (f : Region → β) (hf : ∀ r a, f (r.setAddr a) = f r) (h : Loading S m v addrs tgs v' addrs') :
    ((allocatedOf v'.cells).map fun c => f c.2).Perm
      ((tgs.map fun tg => f ⟨.ALLOCATED, 0, tg.size, tg.tgIndex.fingerprint, some m⟩) ++
        (allocatedOf v.cells).map fun c => f c.2) := by
  induction h with
  | nil v addrs => exact List.Perm.refl _
  | @compact v v₁ v' addrs addrs' tgs hc h ih =>
    have heq : ((allocatedOf v₁.cells).map fun c => f c.2) = (allocatedOf v.cells).map fun c => f c.2 := by
      refine (forall₂_eq_eq_eq ▸ forall₂_map_left_iff.2 (forall₂_map_right_iff.2 ?_) :
        (allocatedOf v.cells).map (fun c => f c.2) = (allocatedOf v₁.cells).map fun c => f c.2).symm
      refine hc.allocated.imp ?_
      intro c d hm
      rw [hm.region, hf]
    rwa [heq] at ih
  | @place v v₁ v' addrs addrs' tg tgs a hp h ih =>
    have hnew := hp.perm.map f
    rw [map_cons, map_map, map_map] at hnew
    have hput : f ⟨.ALLOCATED, a, tg.size, tg.tgIndex.fingerprint, some m⟩ =
        f ⟨.ALLOCATED, 0, tg.size, tg.tgIndex.fingerprint, some m⟩ := hf ⟨.ALLOCATED, 0, tg.size, _, some m⟩ a
    rw [hput] at hnew
    refine ih.trans ((hnew.append_left _).trans ?_)
    rw [map_cons, cons_append]
    exact perm_middle

section

variable (h : Loading S m v addrs tgs v' addrs')

include h

theorem live {fp : String} {size addr : Nat}
    (hS : ∀ r, S r → r.fingerprint ≠ fp) (hl : Live v fp size addr) : Live v' fp size addr := by
  induction h with
  | nil v addrs => exact hl
  | compact hc h ih => exact ih (hc.live hS hl)
  | place hp h ih => exact ih (hp.live hl)

theorem length_eq : addrs'.length = addrs.length := by
  induction h with
  | nil v addrs => rfl
  | compact hc h ih => exact ih
  | place hp h ih => rw [ih, length_set]

theorem getElem?_other {i : Nat} (hi : ∀ tg ∈ tgs, tg.tgId ≠ i) : addrs'[i]? = addrs[i]? := by
  induction h with
  | nil v addrs => rfl
  | compact hc h ih => exact ih hi
  | @place v v₁ v' addrs addrs' tg tgs a hp h ih =>
    rw [ih fun tg' htg => hi tg' (by simp [htg]), List.getElem?_set_ne (hi tg (by simp))]

theorem recorded (hd : (tgs.map TGNeedAllocates.tgId).Nodup)
    (hlt : ∀ tg ∈ tgs, tg.tgId < addrs.length) {tg : TGNeedAllocates} (htg : tg ∈ tgs)
    (hS : ∀ r, S r → r.fingerprint ≠ tg.tgIndex.fingerprint) :
    ∃ a, addrs'[tg.tgId]? = some a ∧ Live v' tg.tgIndex.fingerprint tg.size a := by
  induction h with
  | nil v addrs => simp at htg
  | compact hc h ih => exact ih hd hlt htg
  | @place v v₁ v' addrs addrs' tg' tgs a hp h ih =>
    rw [map_cons, nodup_cons] at hd
    rcases mem_cons.1 htg with rfl | htg
    · refine ⟨a, ?_, h.live hS hp.live_new⟩
      rw [h.getElem?_other, List.getElem?_set_self (hlt tg (by simp))]
      exact fun tg' htg' he => hd.1 (mem_map.2 ⟨tg', htg', he⟩)
    · exact ih hd.2 (fun tg'' h'' => by simpa using hlt tg'' (by simp [h''])) htg

theorem content {content : String → List UInt8} {K : String → Prop}
    (hK : ∀ tg ∈ tgs, ¬K tg.tgIndex.fingerprint) (hc : Content content K v) : Content content K v' := by
  induction h with
  | nil v addrs => exact hc
  | compact hco h ih => exact ih hK (hco.content hc)
  | place hp h ih => exact ih (fun tg htg => hK tg (by simp [htg])) (hp.content hc (hK _ (by simp)))

end

end Loading

end ServerlessLLM
