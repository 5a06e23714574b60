import ServerlessLLM.Vram.Manager
import ServerlessLLM.Vram.Lemmas.SplitOps

/-!
# The four strategies

Each strategy, on a well-formed pool with room for the requests and when the device-to-device calls succeed, places every
request: it ends with 0, and what it does is a `Loading` of the view.
-/

namespace ServerlessLLM

open Linked List GPUTensorPool TGNeedAllocates

/-- How a strategy ends: with 0, every request placed, and the pool consistent. -/
structure Placing (S : Region → Prop) (m : RegisteredModel) (a b : Nat) (p : GPUTensorPool) (addrs : List Nat)
    (tgs : List TGNeedAllocates) (r : Outcome × List Nat × GPUTensorPool) : Prop where
  done : r.1 = .done
  wellLinked : WellLinked a b r.2.2
  frame : Frame p r.2.2
  loading : ∃ tgs', tgs'.Perm tgs ∧ Loading S m p.view addrs tgs' r.2.2.view r.2.1

section Place

variable {S : Region → Prop} {m : RegisteredModel} {a b : Nat} {p : GPUTensorPool} {A C : List Cell} {x : Cell}

/-- Placing one request at the front of a FREE region. -/
structure PlacedAt (S : Region → Prop) (m : RegisteredModel) (a b : Nat) (p : GPUTensorPool) (A C : List Cell) (x : Cell)
    (tg : TGNeedAllocates) (q : GPUTensorPool) : Prop where
  wellLinked : WellLinked a b (q.setModelRef x.1 m)
  addr : (q.region x.1).addr = x.2.addr
  cells : (q.setModelRef x.1 m).cells = A ++ cutCells x p.store.fresh tg.size tg.tgIndex.fingerprint (some m) ++ C
  frame : Frame p (q.setModelRef x.1 m)
  loading : ∀ addrs, Loading S m p.view addrs [tg] (q.setModelRef x.1 m).view (addrs.set tg.tgId x.2.addr)

theorem WellLinked.place (tg : TGNeedAllocates) (h : WellLinked a b p) (hc : p.cells = A ++ x :: C) (hx : x.2.status = .FREE)
    (h0 : 0 < tg.size) (hs : tg.size ≤ x.2.size) :
    PlacedAt S m a b p A C x tg (p.cutRegion x.1 tg.size tg.tgIndex.fingerprint).1 := by
  obtain ⟨h1, h2, h3, h4⟩ := h.cutRegion_setModelRef hc hx tg.tgIndex.fingerprint m h0 hs
  refine ⟨h1, ?_, h2, h4, fun addrs => .place h3 (.nil _ _)⟩
  have hh := (hc ▸ h.holds : Holds p (A ++ x :: C)).cutRegion tg.size tg.tgIndex.fingerprint hs
  rw [cutCells, append_assoc, cons_append] at hh
  rw [hh.region_mid]

section Steps

variable {q : GPUTensorPool} {addrs : List Nat} {tg : TGNeedAllocates} {tgs : List TGNeedAllocates}
  {r : Outcome × List Nat × GPUTensorPool}

theorem PlacedAt.room (h : PlacedAt S m a b p A C x tg q) (hle : totalNeed (tg :: tgs) ≤ freeBytes p.cells) :
    totalNeed tgs ≤ freeBytes (q.setModelRef x.1 m).cells := by
  have := (h.loading []).free
  simp only [view_cells, totalNeed_cons, totalNeed_nil] at this hle
  omega

theorem Placing.cons (h : PlacedAt S m a b p A C x tg q)
    (hr : Placing S m a b (q.setModelRef x.1 m) (addrs.set tg.tgId x.2.addr) tgs r) :
    Placing S m a b p addrs (tg :: tgs) r := by
  obtain ⟨tgs', hpm, hld⟩ := hr.loading
  exact ⟨hr.done, hr.wellLinked, h.frame.trans hr.frame, tg :: tgs', hpm.cons tg, (h.loading addrs).trans hld⟩

theorem Placing.compact (hc : Compacted S p.view q.view) (hf : Frame p q) (hr : Placing S m a b q addrs tgs r) :
    Placing S m a b p addrs tgs r := by
  obtain ⟨tgs', hpm, hld⟩ := hr.loading
  exact ⟨hr.done, hr.wellLinked, hf.trans hr.frame, tgs', hpm, .compact hc hld⟩

theorem Placing.nil (h : WellLinked a b p) : Placing S m a b p addrs [] (.done, addrs, p) :=
  ⟨rfl, h, Frame.refl p, [], List.Perm.refl _, .nil _ _⟩

end Steps

theorem WellLinked.allocateFreeRegion (h : WellLinked a b p) (hx : x ∈ p.cells) (hf : x.2.status = .FREE) {size : Nat}
    (fp : String) (hs : size ≤ x.2.size) : p.allocateFreeRegion x.1 size fp = (some x.1, (p.cutRegion x.1 size fp).1) := by
  unfold GPUTensorPool.allocateFreeRegion
  rw [if_neg]
  rw [h.region_eq hx]
  simp only [hf, ne_eq, not_true_eq_false, false_or]
  omega

end Place

/-! ## Strategy 1 -/

section GlobalMerge

variable {P : Platform} {S : Region → Prop} {m : RegisteredModel} {a b : Nat} {p : GPUTensorPool}

theorem freeBytes_pos {l : List Cell} (h : 0 < freeBytes l) : ∃ x ∈ l, x.2.status = .FREE := by
  by_contra hn
  push Not at hn
  have : freeOf l = [] := filter_eq_nil_iff.2 fun c hc => by simpa using hn c hc
  rw [freeBytes_eq_totalSize, this] at h
  exact absurd h (by simp [totalSize])

theorem globalMergeLoop_spec :
    ∀ (tgs : List TGNeedAllocates) (addrs : List Nat) (p : GPUTensorPool), WellLinked a b p →
      (freeOf p.cells).length ≤ 1 → (∀ tg ∈ tgs, 0 < tg.size) → totalNeed tgs ≤ freeBytes p.cells →
      Placing S m a b p addrs tgs (p.globalMergeLoop m tgs addrs) := by
  intro tgs
  induction tgs with
  | nil => exact fun addrs p h _ _ _ => .nil h
  | cons tg tgs ih =>
    intro addrs p h hone hpos hle
    have h0 := hpos tg (by simp)
    rw [totalNeed_cons] at hle
    obtain ⟨F, hF, hFs⟩ := freeBytes_pos (l := p.cells) (by omega)
    have hmem : F ∈ freeOf p.cells := mem_freeOf.2 ⟨hF, hFs⟩
    have hall : freeOf p.cells = [F] := by
      obtain ⟨G, hG⟩ := length_eq_one_iff.1 (Nat.le_antisymm hone (length_pos_of_mem hmem))
      rw [hG] at hmem ⊢
      rw [mem_singleton.1 hmem]
    have hsz : freeBytes p.cells = F.2.size := by
      rw [freeBytes_eq_totalSize, hall]
      simp [totalSize]
    -- the search finds the FREE region
    have hfind : (p.regions.find? fun i => (p.region i).status = .FREE ∧ tg.size ≤ (p.region i).size) = some F.1 := by
      rw [h.holds.find_regions fun r => decide (r.status = .FREE ∧ tg.size ≤ r.size)]
      cases hx : p.cells.find? fun c => decide (c.2.status = .FREE ∧ tg.size ≤ c.2.size) with
      | none =>
        have := find?_eq_none.1 hx F hF
        simp only [decide_eq_true_eq, not_and, Nat.not_le] at this
        have := this hFs
        omega
      | some x =>
        have h1 := find?_some hx
        simp only [decide_eq_true_eq] at h1
        have h2 : x ∈ freeOf p.cells := mem_freeOf.2 ⟨mem_of_find?_eq_some hx, h1.1⟩
        rw [hall, mem_singleton] at h2
        rw [h2]
        rfl
    obtain ⟨A, C, hc⟩ := append_of_mem hF
    have hpl := h.place (S := S) (m := m) tg hc hFs h0 (by omega)
    have hAC : freeOf A = [] ∧ freeOf C = [] := by
      have := congrArg length hall
      rw [hc, freeOf_append, freeOf_cons, if_pos hFs] at this
      simp only [length_append, length_cons, length_nil] at this
      exact ⟨length_eq_zero_iff.1 (by omega), length_eq_zero_iff.1 (by omega)⟩
    have hone' : (freeOf ((p.cutRegion F.1 tg.size tg.tgIndex.fingerprint).1.setModelRef F.1 m).cells).length ≤ 1 := by
      rw [hpl.cells, freeOf_append, freeOf_append, hAC.1, hAC.2]
      unfold cutCells
      split <;> simp [freeOf_cons, Region.mk']
    have hrec := ih (addrs.set tg.tgId F.2.addr) _ hpl.wellLinked hone' (fun t ht => hpos t (by simp [ht]))
      (hpl.room (by rw [totalNeed_cons]; exact hle))
    have heq : p.globalMergeLoop m (tg :: tgs) addrs =
        ((p.cutRegion F.1 tg.size tg.tgIndex.fingerprint).1.setModelRef F.1 m).globalMergeLoop m tgs
          (addrs.set tg.tgId F.2.addr) := by
      simp only [globalMergeLoop, allocateRegionFromList, hfind, hpl.addr]
    rw [heq]
    exact .cons hpl hrec

theorem WellFormed.globalMerge (hP : P.MovesSucceed) (h : WellFormed a b p) (h0 : 0 < a) (hne : p.cells ≠ [])
    {tgs : List TGNeedAllocates} (addrs : List Nat) (hpos : ∀ tg ∈ tgs, 0 < tg.size) (hle : totalNeed tgs ≤ freeBytes p.cells)
    (hS : ∀ c ∈ allocatedOf (p.cells.dropWhile fun c => c.2.status ≠ .FREE), S c.2) :
    Placing S m a b p addrs tgs (p.globalMerge P m tgs addrs) := by
  unfold GPUTensorPool.globalMerge
  split
  · rename_i he
    rw [isEmpty_iff.1 he]
    exact .nil h.wellLinked
  · obtain ⟨h1, h2, h3, h4, h5⟩ := h.globalDeFrag hP h0 hne hS
    have hone : (freeOf (p.globalDeFrag P).2.cells).length ≤ 1 := by
      rw [h4, defragCells, freeOf_append]
      have hno : freeOf (renumber p.store.fresh (slideCells a (allocatedOf p.cells))) = [] := by
        refine filter_eq_nil_iff.2 ?_
        intro c hc
        obtain ⟨d, hd, hcd⟩ := mem_renumber hc
        simp [hcd, status_of_slideCells hd]
      rw [hno]
      unfold restCells
      split <;> simp [freeOf_cons, Region.mk']
    have hfe : freeBytes (p.globalDeFrag P).2.cells = freeBytes p.cells := h3.free
    simp only [h1, ne_eq, not_true_eq_false, if_false]
    exact .compact h3 h5 (globalMergeLoop_spec tgs addrs _ h2.wellLinked hone hpos (hfe ▸ hle))

end GlobalMerge

/-! ## Strategy 2 -/

section GreedyMerge

variable {P : Platform} {S : Region → Prop} {m : RegisteredModel} {a b n : Nat} {p : GPUTensorPool} {l : List Cell}

/-- A window that `GreedyMerge` may merge: it ends with a FREE region and holds `n` free bytes. -/
def IsWindow (p : GPUTensorPool) (n : Nat) (l : List Cell) (s e : NodeId) : Prop :=
  ∃ A W C, l = A ++ W ++ C ∧ first W = some s ∧ last W = some e ∧ (p.region e).status = .FREE ∧ n ≤ freeBytes W

theorem windowEnd_some {L : List Cell} {e : NodeId} {cost : Nat} :
    ∀ {freeSum moveCost : Nat}, (∀ c ∈ L, p.region c.1 = c.2) → freeSum < n →
      p.windowEnd n (ids L) freeSum moveCost = some (e, cost) →
      ∃ W C, L = W ++ C ∧ W ≠ [] ∧ last W = some e ∧ (p.region e).status = .FREE ∧ n ≤ freeSum + freeBytes W := by
  induction L with
  | nil => simp [windowEnd]
  | cons c L ih =>
    intro freeSum moveCost hv hlt h
    have hc := hv c (by simp)
    simp only [ids_cons, windowEnd, hc] at h
    split at h
    · simp at h
    · by_cases hf : c.2.status = .FREE
      · simp only [hf, if_true] at h
        split at h
        · obtain ⟨rfl, -⟩ : c.1 = e ∧ _ := by simpa using h
          exact ⟨[c], L, rfl, by simp, rfl, by rw [hc, hf], by simpa [freeBytes_cons, hf]⟩
        · obtain ⟨W, C, rfl, -, h2, h3, h4⟩ := ih (fun d hd => hv d (by simp [hd])) (by omega) h
          refine ⟨c :: W, C, rfl, by simp, by simp [last_cons, h2], h3, ?_⟩
          rw [freeBytes_cons, if_pos hf]
          omega
      · simp only [hf, if_false] at h
        split at h
        · omega
        · obtain ⟨W, C, rfl, -, h2, h3, h4⟩ := ih (fun d hd => hv d (by simp [hd])) hlt h
          refine ⟨c :: W, C, rfl, by simp, by simp [last_cons, h2], h3, ?_⟩
          rw [freeBytes_cons, if_neg hf]
          omega

theorem windowEnd_isSome {L : List Cell} :
    ∀ (freeSum moveCost : Nat), (∀ c ∈ L, p.region c.1 = c.2) → NoLoading L → freeSum < n → n ≤ freeSum + freeBytes L →
      ∃ r, p.windowEnd n (ids L) freeSum moveCost = some r := by
  induction L with
  | nil =>
    intro freeSum moveCost _ _ hlt hle
    simp only [freeBytes_nil] at hle
    omega
  | cons c L ih =>
    intro freeSum moveCost hv hl hlt hle
    obtain ⟨hl1, hl2⟩ := noLoading_cons.1 hl
    simp only [ids_cons, windowEnd, hv c (by simp), hl1, if_false]
    rw [freeBytes_cons] at hle
    by_cases hf : c.2.status = .FREE
    · simp only [hf, if_true] at hle ⊢
      split
      · exact ⟨_, rfl⟩
      · exact ih _ _ (fun d hd => hv d (by simp [hd])) hl2 (by omega) (by omega)
    · simp only [hf, if_false, Nat.zero_add] at hle ⊢
      split
      · exact ⟨_, rfl⟩
      · exact ih _ _ (fun d hd => hv d (by simp [hd])) hl2 hlt hle

theorem bestWindow_some {L : List Cell} (h0 : 0 < n) :
    ∀ {A : List Cell} {best : Option (NodeId × NodeId × Nat)}, l = A ++ L → (∀ c ∈ L, p.region c.1 = c.2) →
      (∀ w, best = some w → IsWindow p n l w.1 w.2.1) →
      ∀ w, p.bestWindow n (ids L) best = some w → IsWindow p n l w.1 w.2.1 := by
  induction L with
  | nil => exact fun _ _ hb w hw => hb w hw
  | cons c L ih =>
    intro A best hl hv hb w hw
    have hl' : l = (A ++ [c]) ++ L := by simpa using hl
    have hv' : ∀ d ∈ L, p.region d.1 = d.2 := fun d hd => hv d (by simp [hd])
    simp only [ids_cons, bestWindow, hv c (by simp)] at hw
    split at hw
    · exact ih hl' hv' hb w hw
    · rw [← ids_cons] at hw
      split at hw
      · exact ih hl' hv' hb w hw
      · rename_i e cost he
        have hwin : IsWindow p n l c.1 e := by
          obtain ⟨W, C, hWC, hne, h2, h3, h4⟩ := windowEnd_some (L := c :: L) hv h0 he
          refine ⟨A, W, C, by rw [hl, hWC, append_assoc], ?_, h2, h3, by simpa using h4⟩
          cases W with
          | nil => exact absurd rfl hne
          | cons d W =>
            obtain ⟨rfl, -⟩ : c = d ∧ L = W ++ C := by simpa using hWC
            rfl
        split at hw
        · exact ih hl' hv' (fun w' hw' => by
            obtain rfl : (c.1, e, cost) = w' := by simpa using hw'
            exact hwin) w hw
        · rename_i b'
          refine ih hl' hv' ?_ w hw
          intro w' hw'
          split at hw'
          · obtain rfl : (c.1, e, cost) = w' := by simpa using hw'
            exact hwin
          · exact hb w' hw'

theorem bestWindow_isSome {L : List Cell} (h0 : 0 < n) :
    ∀ (best : Option (NodeId × NodeId × Nat)), (∀ c ∈ L, p.region c.1 = c.2) → NoLoading L →
      (best.isSome = true ∨ n ≤ freeBytes L) → (p.bestWindow n (ids L) best).isSome = true := by
  induction L with
  | nil =>
    intro best _ _ h
    rcases h with h | h
    · exact h
    · simp only [freeBytes_nil] at h
      omega
  | cons c L ih =>
    intro best hv hl h
    have hv' : ∀ d ∈ L, p.region d.1 = d.2 := fun d hd => hv d (by simp [hd])
    have hl' := (noLoading_cons.1 hl).2
    simp only [ids_cons, bestWindow, hv c (by simp)]
    split
    · rename_i hf
      refine ih _ hv' hl' (h.imp_right ?_)
      intro hle
      rwa [freeBytes_cons, if_neg hf, Nat.zero_add] at hle
    · rw [← ids_cons]
      split
      · rename_i hno
        refine ih _ hv' hl' (h.imp_right ?_)
        intro hle
        obtain ⟨r, hr⟩ := windowEnd_isSome (p := p) (L := c :: L) 0 0 hv hl h0 (by simpa using hle)
        rw [hr] at hno
        exact absurd hno (by simp)
      · split
        · exact ih _ hv' hl' (.inl rfl)
        · refine ih _ hv' hl' (.inl ?_)
          split <;> rfl

/-- The ALLOCATED regions of the window that `GreedyMerge(n)` would merge now satisfy `S`. -/
def MergeWindowOk (S : Region → Prop) (p : GPUTensorPool) (n : Nat) : Prop :=
  ∀ s e, p.mergeWindow n = some (s, e) →
    ∀ i ∈ p.regionsUntil (some s) (p.next e), (p.region i).status = .ALLOCATED → S (p.region i)

theorem WellFormed.greedyMerge (hP : P.MovesSucceed) (h : WellFormed a b p) (h0 : 0 < a) (hn : 0 < n)
    (hle : n ≤ freeBytes p.cells) (hS : MergeWindowOk S p n) :
    ∃ F q, p.greedyMerge P n = (some F.1, q) ∧ WellFormed a b q ∧ F ∈ q.cells ∧ F.2.status = .FREE ∧ n ≤ F.2.size ∧
      Compacted S p.view q.view ∧ Frame p q := by
  have hfit : p.firstFit n = (p.cells.find? fun c => decide (c.2.status = .FREE ∧ n ≤ c.2.size)).map Prod.fst :=
    h.holds.find_regions fun r => decide (r.status = .FREE ∧ n ≤ r.size)
  unfold GPUTensorPool.greedyMerge
  cases hx : p.cells.find? fun c => decide (c.2.status = .FREE ∧ n ≤ c.2.size) with
  | some x =>
    rw [hx] at hfit
    have h1 := find?_some hx
    simp only [decide_eq_true_eq] at h1
    rw [hfit]
    exact ⟨x, p, rfl, h, mem_of_find?_eq_some hx, h1.1, h1.2, .refl _, Frame.refl p⟩
  | none =>
    rw [hx] at hfit
    -- no FREE region is large enough: a window is merged
    have hreg : ∀ c ∈ p.cells, p.region c.1 = c.2 := fun c hc => h.region_eq hc
    have hso := bestWindow_isSome (p := p) hn none hreg h.layout.noLoading (.inr hle)
    rw [← h.holds.regions_eq] at hso
    obtain ⟨w, hw⟩ := Option.isSome_iff_exists.1 hso
    have hmw : p.mergeWindow n = some (w.1, w.2.1) := by
      unfold mergeWindow
      rw [if_neg (by rw [hfit, h.holds.getFreeSize_eq]; simp; omega), hw]
      rfl
    rw [h.holds.regions_eq] at hw
    obtain ⟨A, W, C, hc, hs, he, hfe, hfb⟩ := bestWindow_some (l := p.cells) hn (A := []) rfl hreg (by simp) w hw
    have hh : Holds p (A ++ W ++ C) := hc ▸ h.holds
    have hld : NoLoading W := by
      have := h.layout.noLoading
      rw [hc] at this
      exact (noLoading_append.1 (noLoading_append.1 this).1).2
    have hSW : ∀ c ∈ allocatedOf W, S c.2 := by
      intro c hc'
      obtain ⟨-, h2, h3⟩ := hh.window hs he
      obtain ⟨hcW, hcs⟩ := mem_allocatedOf.1 hc'
      have hr : p.region c.1 = c.2 := hh.region_eq (by simp [hcW])
      have := hS w.1 w.2.1 hmw c.1 (by rw [h2, h3]; exact mem_ids_of_mem hcW) (by rw [hr, hcs])
      rwa [hr] at this
    obtain ⟨w0, F, e1, e2⟩ := h.wellLinked.mergeRegions hP h0 hc hs he hld hfe hSW
    rw [hfit, hmw]
    have hlay := e2.compacted.layout a b h.layout
    refine ⟨F, (p.mergeRegions P (some w.1) (some w.2.1) true).2, Prod.ext e1 rfl, e2.wellLinked.wellFormed hlay, ?_,
      e2.status, by rw [e2.size]; exact hfb, e2.compacted, e2.frame⟩
    rw [e2.cells]
    simp

theorem WellFormed.greedyMergeStep (hP : P.MovesSucceed) (h : WellFormed a b p) (h0 : 0 < a) {tg : TGNeedAllocates}
    (addrs : List Nat) (hn : 0 < tg.size) (hle : tg.size ≤ freeBytes p.cells) (hS : MergeWindowOk S p tg.size) :
    (p.greedyMergeStep P m tg addrs).1 = true ∧ WellFormed a b (p.greedyMergeStep P m tg addrs).2.2 ∧
      Frame p (p.greedyMergeStep P m tg addrs).2.2 ∧
      Loading S m p.view addrs [tg] (p.greedyMergeStep P m tg addrs).2.2.view (p.greedyMergeStep P m tg addrs).2.1 := by
  obtain ⟨F, q, e1, e2, e3, e4, e5, e6, e7⟩ := h.greedyMerge hP h0 hn hle hS
  obtain ⟨A, C, hc⟩ := append_of_mem e3
  have hpl := e2.wellLinked.place (S := S) (m := m) tg hc e4 hn e5
  have halloc := e2.wellLinked.allocateFreeRegion e3 e4 tg.tgIndex.fingerprint e5
  unfold GPUTensorPool.greedyMergeStep
  rw [e1]
  dsimp only
  rw [halloc]
  dsimp only
  rw [hpl.addr]
  exact ⟨rfl, hpl.wellLinked.wellFormed ((hpl.loading addrs).layout e2.layout), e7.trans hpl.frame,
    .compact e6 (hpl.loading addrs)⟩

/-- The windows of the merge loop: in every round, the window that would be merged now is all right. -/
def MergeLoopOk (P : Platform) (S : Region → Prop) (m : RegisteredModel) :
    List TGNeedAllocates → List Nat → GPUTensorPool → Prop
  | [], _, _ => True
  | tg :: tgs, addrs, p => MergeWindowOk S p tg.size ∧
    MergeLoopOk P S m tgs (p.greedyMergeStep P m tg addrs).2.1 (p.greedyMergeStep P m tg addrs).2.2

theorem greedyMergeLoop_spec (hP : P.MovesSucceed) (h0 : 0 < a) :
    ∀ (tgs : List TGNeedAllocates) (addrs : List Nat) (p : GPUTensorPool), WellFormed a b p → (∀ tg ∈ tgs, 0 < tg.size) →
      totalNeed tgs ≤ freeBytes p.cells → MergeLoopOk P S m tgs addrs p →
      Placing S m a b p addrs tgs (p.greedyMergeLoop P m tgs addrs) := by
  intro tgs
  induction tgs with
  | nil => exact fun addrs p h _ _ _ => .nil h.wellLinked
  | cons tg tgs ih =>
    intro addrs p h hpos hle hS
    rw [totalNeed_cons] at hle
    obtain ⟨e1, e2, e3, e4⟩ := h.greedyMergeStep (m := m) hP h0 addrs (hpos tg (by simp)) (by omega) hS.1
    have hfe := e4.free
    simp only [view_cells, totalNeed_cons, totalNeed_nil] at hfe
    have hrec := ih _ _ e2 (fun t ht => hpos t (by simp [ht])) (by omega) hS.2
    have heq : p.greedyMergeLoop P m (tg :: tgs) addrs =
        (p.greedyMergeStep P m tg addrs).2.2.greedyMergeLoop P m tgs (p.greedyMergeStep P m tg addrs).2.1 := by
      rcases hr : p.greedyMergeStep P m tg addrs with ⟨ok, addrs', q⟩
      rw [hr] at e1
      obtain rfl : ok = true := e1
      simp only [greedyMergeLoop, hr]
    rw [heq]
    obtain ⟨tgs', hpm, hld⟩ := hrec.loading
    exact ⟨hrec.done, hrec.wellLinked, e3.trans hrec.frame, tg :: tgs', hpm.cons tg, e4.trans hld⟩

theorem WellFormed.greedyMergeAll (hP : P.MovesSucceed) (h : WellFormed a b p) (h0 : 0 < a) {tgs : List TGNeedAllocates}
    (addrs : List Nat) (hpos : ∀ tg ∈ tgs, 0 < tg.size) (hle : totalNeed tgs ≤ freeBytes p.cells)
    (hS : MergeLoopOk P S m (P.sortDesc size tgs) addrs p) :
    Placing S m a b p addrs tgs (p.greedyMergeAll P m tgs addrs) := by
  have hsort := P.sortDesc_perm size tgs
  have hrec := greedyMergeLoop_spec hP h0 _ addrs p h (fun tg ht => hpos tg (hsort.subset ht))
    (by rw [totalNeed_perm hsort]; exact hle) hS
  obtain ⟨tgs', hpm, hld⟩ := hrec.loading
  exact ⟨hrec.done, hrec.wellLinked, hrec.frame, tgs', hpm.trans hsort, hld⟩

end GreedyMerge

end ServerlessLLM
