import ServerlessLLM.Vram.Theorems.Packing

/-!
# What dropping and merging reach

`GreedyMerge` tries the windows that start at a FREE region and stop at the first end with enough free bytes.
-/

namespace ServerlessLLM

open Linked List
open Region (size)
open Option (some.inj)

/-! ## The windows of `GreedyMerge` -/

section Windows

variable {p : GPUTensorPool} {n : Nat}

/-- A stretch of regions without a LOADING one that has `n` free bytes. -/
def Mergeable (n : Nat) (W : List Cell) : Prop := NoLoading W ∧ n ≤ freeBytes W

def allocatedBytes (W : List Cell) : Nat := totalSize (allocatedOf W)

@[simp] theorem allocatedBytes_nil : allocatedBytes [] = 0 := rfl

theorem allocatedBytes_cons (c : Cell) (W : List Cell) :
    allocatedBytes (c :: W) = (if c.2.status = .ALLOCATED then c.2.size else 0) + allocatedBytes W := by
  unfold allocatedBytes
  rw [allocatedOf_cons]
  split
  · rw [totalSize_cons]
  · simp

variable {c : Cell} {L l : List Cell}

theorem windowEnd_cons (hc : p.region c.1 = c.2) (hl : c.2.status ≠ .LOADING) (L : List Cell) (freeSum m : Nat) :
    p.windowEnd n (ids (c :: L)) freeSum m =
      if n ≤ freeSum + (if c.2.status = .FREE then c.2.size else 0) then
        some (c.1, m + if c.2.status = .ALLOCATED then c.2.size else 0)
      else p.windowEnd n (ids L) (freeSum + if c.2.status = .FREE then c.2.size else 0)
        (m + if c.2.status = .ALLOCATED then c.2.size else 0) := by
  have hfe : (if c.2.status = .FREE then freeSum + c.2.size else freeSum) =
      freeSum + if c.2.status = .FREE then c.2.size else 0 := by split <;> rfl
  have hcost : (if c.2.status = .FREE then m else m + c.2.size) = m + if c.2.status = .ALLOCATED then c.2.size else 0 := by
    cases hsts : c.2.status with
    | FREE => simp
    | ALLOCATED => simp
    | LOADING => exact absurd hsts hl
  simp only [ids_cons, GPUTensorPool.windowEnd, hc]
  rw [if_neg hl, hfe, hcost]

variable {freeSum m : Nat} {before after : Option (NodeId × NodeId × Nat)}

theorem windowEnd_eq_none (hv : ∀ c ∈ L, p.region c.1 = c.2) (hlt : freeSum < n)
    (hend : p.windowEnd n (ids L) freeSum m = none) : ∀ W C, L = W ++ C → NoLoading W → freeSum + freeBytes W < n := by
  induction L generalizing freeSum m with
  | nil =>
    intro W C hW _
    obtain ⟨rfl, -⟩ := append_eq_nil_iff.1 hW.symm
    simpa using hlt
  | cons c L ih =>
    intro W C hW hld
    rcases cons_eq_append_iff.1 hW with ⟨rfl, -⟩ | ⟨V, rfl, hV⟩
    · simpa using hlt
    · obtain ⟨hl, hloadV⟩ := noLoading_cons.1 hld
      rw [windowEnd_cons (hv c (by simp)) hl] at hend
      by_cases hn : n ≤ freeSum + if c.2.status = .FREE then c.2.size else 0
      · rw [if_pos hn] at hend
        cases hend
      · rw [if_neg hn] at hend
        have := ih (fun d hd => hv d (by simp [hd])) (by omega) hend V C hV hloadV
        rw [freeBytes_cons]
        omega

theorem windowEnd_eq_some {e : NodeId} {cost : Nat} (hv : ∀ c ∈ L, p.region c.1 = c.2)
    (hlt : freeSum < n) (hend : p.windowEnd n (ids L) freeSum m = some (e, cost)) :
    ∃ W C, L = W ++ C ∧ last W = some e ∧ NoLoading W ∧ n ≤ freeSum + freeBytes W ∧ cost = m + allocatedBytes W ∧
      ∀ W' C', L = W' ++ C' → NoLoading W' → n ≤ freeSum + freeBytes W' → allocatedBytes W ≤ allocatedBytes W' := by
  induction L generalizing freeSum m with
  | nil => cases hend
  | cons c L ih =>
    have hl : c.2.status ≠ .LOADING := by
      intro hl
      simp [GPUTensorPool.windowEnd, hv c (by simp), hl] at hend
    rw [windowEnd_cons (hv c (by simp)) hl] at hend
    by_cases hn : n ≤ freeSum + if c.2.status = .FREE then c.2.size else 0
    · rw [if_pos hn] at hend
      obtain ⟨rfl, rfl⟩ : c.1 = e ∧ _ = cost := by simpa using hend
      refine ⟨[c], L, rfl, rfl, noLoading_cons.2 ⟨hl, by simp [NoLoading]⟩, ?_, ?_, ?_⟩
      · simpa [freeBytes_cons] using hn
      · simp [allocatedBytes_cons]
      · intro W' C' hW' _ hle
        rcases cons_eq_append_iff.1 hW' with ⟨rfl, -⟩ | ⟨V, rfl, -⟩
        · simp only [freeBytes_nil] at hle
          omega
        · simp [allocatedBytes_cons]
    · rw [if_neg hn] at hend
      obtain ⟨W, C, rfl, hla, hld, hle, hcost, hmin⟩ := ih (fun d hd => hv d (by simp [hd])) (by omega) hend
      have hne : W ≠ [] := by
        rintro rfl
        simp at hla
      refine ⟨c :: W, C, rfl, ?_, noLoading_cons.2 ⟨hl, hld⟩, ?_, ?_, ?_⟩
      · simp [last_cons, hla]
      · rw [freeBytes_cons]
        omega
      · rw [allocatedBytes_cons]
        omega
      · intro W' C' hW' hld' hle'
        rcases cons_eq_append_iff.1 hW' with ⟨rfl, -⟩ | ⟨V, rfl, hV⟩
        · simp only [freeBytes_nil] at hle'
          omega
        · rw [freeBytes_cons] at hle'
          have := hmin V C' hV (noLoading_cons.1 hld').2 (by omega)
          rw [allocatedBytes_cons, allocatedBytes_cons]
          omega

/-- A window that the outer loop has found, with its cost. -/
structure Found (n : Nat) (l : List Cell) (w : NodeId × NodeId × Nat) : Prop where
  window : ∃ A W C, l = A ++ W ++ C ∧ first W = some w.1 ∧ last W = some w.2.1 ∧ Mergeable n W ∧ w.2.2 = allocatedBytes W

/-- What the outer loop makes of the window before, when it has gone through a list: there is no window, or none is better. -/
structure Searched (n : Nat) (l L : List Cell) (before after : Option (NodeId × NodeId × Nat)) : Prop where
  missing : after = none → before = none ∧ ∀ A W C, L = A ++ W ++ C → ¬Mergeable n W
  found : ∀ w, after = some w → Found n l w ∧ (∀ v, before = some v → w.2.2 ≤ v.2.2) ∧
    ∀ A W C, L = A ++ W ++ C → Mergeable n W → w.2.2 ≤ allocatedBytes W

theorem not_mergeable_nil (h0 : 0 < n) : ¬Mergeable n [] := by
  intro hm
  have := hm.2
  simp only [freeBytes_nil] at this
  omega

theorem Mergeable.cases_cons (h0 : 0 < n) {A W C : List Cell} (h : c :: L = A ++ W ++ C) (hm : Mergeable n W) :
    (∃ V, W = c :: V ∧ L = V ++ C) ∨ ∃ A', L = A' ++ W ++ C := by
  cases A with
  | nil =>
    cases W with
    | nil => exact absurd hm (not_mergeable_nil h0)
    | cons d V =>
      obtain ⟨rfl, rfl⟩ := cons.inj h
      exact .inl ⟨V, rfl, rfl⟩
  | cons d A =>
    obtain ⟨-, rfl⟩ := cons.inj h
    exact .inr ⟨A, rfl⟩

theorem Searched.nil (h0 : 0 < n) {best : Option (NodeId × NodeId × Nat)} (hb : ∀ w, best = some w → Found n l w) :
    Searched n l [] best best := by
  have hno : ∀ A W C : List Cell, [] = A ++ W ++ C → ¬Mergeable n W := by
    intro A W C h
    simp only [nil_eq, append_eq_nil_iff] at h
    rw [h.1.2]
    exact not_mergeable_nil h0
  refine ⟨fun h => ⟨h, hno⟩, fun w hw => ⟨hb w hw, fun v hv => ?_, fun A W C h hm => absurd hm (hno A W C h)⟩⟩
  rw [← some.inj (hw.symm.trans hv)]

theorem Searched.skip (h0 : 0 < n) (h : Searched n l L before after)
    (hshort : ∀ V C, L = V ++ C → Mergeable n (c :: V) → Mergeable n V ∧ allocatedBytes V ≤ allocatedBytes (c :: V)) :
    Searched n l (c :: L) before after := by
  refine ⟨fun hno => ⟨(h.missing hno).1, ?_⟩, fun w hw => ⟨(h.found w hw).1, (h.found w hw).2.1, ?_⟩⟩
  · intro A W C hW hm
    rcases hm.cases_cons h0 hW with ⟨V, rfl, hV⟩ | ⟨A', hA⟩
    · exact (h.missing hno).2 [] V C hV (hshort V C hV hm).1
    · exact (h.missing hno).2 A' W C hA hm
  · intro A W C hW hm
    rcases hm.cases_cons h0 hW with ⟨V, rfl, hV⟩ | ⟨A', hA⟩
    · obtain ⟨hm', hle⟩ := hshort V C hV hm
      exact ((h.found w hw).2.2 [] V C hV hm').trans hle
    · exact (h.found w hw).2.2 A' W C hA hm

theorem Searched.keep (h0 : 0 < n)
    {kept : NodeId × NodeId × Nat} (h : Searched n l L (some kept) after) (hbef : ∀ v, before = some v → kept.2.2 ≤ v.2.2)
    (hhere : ∀ V C, L = V ++ C → Mergeable n (c :: V) → kept.2.2 ≤ allocatedBytes (c :: V)) :
      Searched n l (c :: L) before after := by
  refine ⟨fun hno => by simpa using (h.missing hno).1, fun w hw => ?_⟩
  obtain ⟨hfnd, hkept, hrs⟩ := h.found w hw
  have hle := hkept kept rfl
  refine ⟨hfnd, fun v hv => hle.trans (hbef v hv), ?_⟩
  intro A W C hW hm
  rcases hm.cases_cons h0 hW with ⟨V, rfl, hV⟩ | ⟨A', hA⟩
  · exact hle.trans (hhere V C hV hm)
  · exact hrs A' W C hA hm

theorem bestWindow_spec (h0 : 0 < n) :
    ∀ {A : List Cell} {b : Option (NodeId × NodeId × Nat)}, l = A ++ L → (∀ c ∈ L, p.region c.1 = c.2) →
      (∀ w, b = some w → Found n l w) → Searched n l L b (p.bestWindow n (ids L) b) := by
  induction L with
  | nil => exact fun _ _ hb => Searched.nil h0 hb
  | cons c L ih =>
    intro A best hl hv hb
    have hl' : l = (A ++ [c]) ++ L := by simpa using hl
    have hv' : ∀ d ∈ L, p.region d.1 = d.2 := fun d hd => hv d (by simp [hd])
    simp only [ids_cons, GPUTensorPool.bestWindow, hv c (by simp)]
    by_cases hf : c.2.status = .FREE
    · rw [if_neg (not_not.2 hf), ← ids_cons]
      cases hend : p.windowEnd n (ids (c :: L)) 0 0 with
      | none =>
        -- no window starts here
        refine (ih hl' hv' hb).skip h0 ?_
        intro V C hV hm
        have := windowEnd_eq_none hv h0 hend (c :: V) C (by rw [hV]; rfl) hm.1
        have := hm.2
        omega
      | some r =>
        obtain ⟨e, cost⟩ := r
        obtain ⟨W, C, hWC, hla, hld, hle, hcost, hmin⟩ := windowEnd_eq_some hv h0 hend
        have hfnd : Found n l (c.1, e, cost) := by
          refine ⟨A, W, C, by rw [hl, hWC, append_assoc], ?_, hla, ⟨hld, by simpa using hle⟩, by simpa using hcost⟩
          cases W with
          | nil => simp at hla
          | cons d W =>
            obtain ⟨rfl, -⟩ := cons.inj hWC
            rfl
        have hhere : ∀ V C, L = V ++ C → Mergeable n (c :: V) → cost ≤ allocatedBytes (c :: V) := by
          intro V C hV hm
          have := hmin (c :: V) C (by rw [hV]; rfl) hm.1 (by simpa using hm.2)
          omega
        simp only
        cases best with
        | none =>
          refine (ih hl' hv' ?_).keep h0 (by simp) hhere
          intro w hw
          rwa [← some.inj hw]
        | some b =>
          dsimp only
          by_cases hlt : cost < b.2.2
          · rw [if_pos hlt]
            refine (ih hl' hv' ?_).keep h0 ?_ hhere
            · intro w hw
              rwa [← some.inj hw]
            · intro v hv
              rw [← some.inj hv]
              exact hlt.le
          · rw [if_neg hlt]
            refine (ih hl' hv' hb).keep h0 ?_ ?_
            · intro v hv
              rw [← some.inj hv]
            · exact fun V C hV hm => (not_lt.1 hlt).trans (hhere V C hV hm)
    · rw [if_pos hf]
      -- a window that starts here can do without its first region
      refine (ih hl' hv' hb).skip h0 ?_
      intro V C _ hm
      refine ⟨⟨(noLoading_cons.1 hm.1).2, ?_⟩, ?_⟩
      · have := hm.2
        rwa [freeBytes_cons, if_neg hf, Nat.zero_add] at this
      · rw [allocatedBytes_cons]
        omega

end Windows

/-! ## `GreedyMerge` -/

section GreedyMerge

variable {P : Platform} {p : GPUTensorPool} {a b n : Nat}

/-- What `GreedyMerge(n)` makes of a stretch `W` of the list: its ALLOCATED regions, and behind them the FREE region `F`. -/
structure Gathers (n : Nat) (p q : GPUTensorPool) (A W C : List Cell) (F : Cell) : Prop where
  before : p.cells = A ++ W ++ C
  after : ∃ w, q.cells = A ++ (slideCells w (allocatedOf W) ++ [F]) ++ C
  window : Mergeable n W
  status : F.2.status = .FREE
  size : n ≤ F.2.size

structure LeastWindow (n : Nat) (l W : List Cell) : Prop where
  window : Mergeable n W
  least : ∀ A' W' C', l = A' ++ W' ++ C' → Mergeable n W' → allocatedBytes W ≤ allocatedBytes W'

theorem greedyMerge_fit {x : Cell} (hx : x ∈ p.cells) (hfe : x.2.status = .FREE) (hsz : n ≤ x.2.size) :
    ∃ A W C, Gathers n p p A W C x ∧ LeastWindow n p.cells W := by
  obtain ⟨A, C, hcls⟩ := append_of_mem hx
  have hwindow : Mergeable n [x] :=
    ⟨noLoading_cons.2 ⟨by simp [hfe], by simp [NoLoading]⟩, by simpa [freeBytes_cons, hfe] using hsz⟩
  have halloc : allocatedOf [x] = [] := by simp [allocatedOf_cons, hfe]
  refine ⟨A, [x], C, ⟨by simpa using hcls, ⟨0, ?_⟩, hwindow, hfe, hsz⟩, hwindow, ?_⟩
  · rw [halloc, hcls]
    simp [slideCells, Tiling.slide]
  · intro A' W' C' _ _
    simp [allocatedBytes_cons, hfe]

/-- For every list of regions with LOADING ones anywhere and every `n`: `GreedyMerge(n)` returns nothing exactly when no window
without a LOADING region has `n` free bytes, and otherwise it returns a FREE region of at least `n` bytes, made of a window with
the fewest ALLOCATED bytes. -/
theorem greedyMerge_optimal (P : Platform) (hP : P.MovesSucceed) (p : GPUTensorPool) (h0 : 0 < a)
    (h : WellLinked a b p) (hn : 0 < n) :
    ((p.greedyMerge P n).1 = none ↔ ∀ A W C, p.cells = A ++ W ++ C → ¬Mergeable n W) ∧
      ∀ i, (p.greedyMerge P n).1 = some i →
        ∃ A W C F, F ∈ (p.greedyMerge P n).2.cells ∧ F.1 = i ∧ Gathers n p (p.greedyMerge P n).2 A W C F ∧
          LeastWindow n p.cells W := by
  have hfit : p.firstFit n = (p.cells.find? fun c => decide (c.2.status = .FREE ∧ n ≤ c.2.size)).map Prod.fst :=
    h.holds.find_regions fun r => decide (r.status = .FREE ∧ n ≤ r.size)
  have hmem : ∀ {A W C : List Cell} {F : Cell} {q : GPUTensorPool}, Gathers n p q A W C F → F ∈ q.cells := by
    intro A W C F q hg
    obtain ⟨w, haft⟩ := hg.after
    simp [haft]
  unfold GPUTensorPool.greedyMerge
  cases hx : p.cells.find? fun c => decide (c.2.status = .FREE ∧ n ≤ c.2.size) with
  | some x =>
    rw [hx] at hfit
    have hxmem := mem_of_find?_eq_some hx
    have hxs := find?_some hx
    simp only [decide_eq_true_eq] at hxs
    obtain ⟨A, W, C, hg, hleast⟩ := greedyMerge_fit hxmem hxs.1 hxs.2
    rw [hfit]
    refine ⟨⟨by simp, fun hno => absurd hg.window (hno A W C hg.before)⟩, ?_⟩
    intro i hi
    exact ⟨A, W, C, x, hxmem, some.inj hi, hg, hleast⟩
  | none =>
    rw [hx] at hfit
    rw [hfit]
    simp only [Option.map_none]
    have hreg : ∀ c ∈ p.cells, p.region c.1 = c.2 := fun c hc => h.region_eq hc
    obtain ⟨hnone, hso⟩ := bestWindow_spec (p := p) hn (A := []) (b := none) rfl hreg (by simp)
    have hmw : p.mergeWindow n = if p.getFreeSize < n then none else (p.bestWindow n (ids p.cells) none).map fun b =>
      (b.1, b.2.1) := by
      unfold GPUTensorPool.mergeWindow
      rw [hfit, ← h.holds.regions_eq]
      simp
    by_cases hlt : p.getFreeSize < n
    · rw [hmw, if_pos hlt]
      refine ⟨⟨fun _ => ?_, fun _ => rfl⟩, by simp⟩
      intro A W C hc hm
      rw [h.holds.getFreeSize_eq, hc, freeBytes_append, freeBytes_append] at hlt
      have := hm.2
      omega
    · rw [hmw, if_neg hlt]
      cases hb : p.bestWindow n (ids p.cells) none with
      | none => exact ⟨⟨fun _ => (hnone hb).2, fun _ => rfl⟩, by simp⟩
      | some w =>
        obtain ⟨⟨A, W, C, hc, hs, he, hm, hcost⟩, -, hmin⟩ := hso w hb
        have hpos : 0 < freeBytes W := hn.trans_le hm.2
        rw [nil_append] at hc
        have hh : Holds p (A ++ W ++ C) := hc ▸ h.holds
        have ht := h.tiling
        rw [hc, append_assoc] at ht
        obtain ⟨w1, hA, hWC⟩ := isTiling_append.1 ht
        obtain ⟨w2, hW, -⟩ := isTiling_append.1 hWC
        have hw1 : 0 < w1 := h0.trans_le (Tiling.Tiles.le hA)
        obtain ⟨f, hf⟩ := hh.mergeRegions_succeeds hP hW hw1 hs he hm.1 hpos
        obtain ⟨r, hmerged⟩ := hh.mergeRegions hW hs he hm.1 hpos hf
        simp only [Option.map_some]
        have hg : Gathers n p (p.mergeRegions P (some w.1) (some w.2.1) true).2 A W C (f, r) :=
          ⟨hc, ⟨w1, hmerged.holds.cells_eq⟩, hm, hmerged.status, by rw [hmerged.size]; exact hm.2⟩
        refine ⟨⟨fun hno => ?_, fun hno => absurd hm (hno A W C hc)⟩, ?_⟩
        · rw [hf] at hno
          cases hno
        · intro i hi
          rw [hf] at hi
          refine ⟨A, W, C, (f, r), hmem hg, some.inj hi, hg, hm, ?_⟩
          intro A' W' C' hc' hm'
          rw [← hcost]
          exact hmin A' W' C' hc' hm'

theorem greedyMerge_optimal_threeRegions :
    ∃ i, ((threeRegions .ALLOCATED).greedyMerge .reliable 6).1 = some i ∧
      ∃ A W C F, F ∈ ((threeRegions .ALLOCATED).greedyMerge .reliable 6).2.cells ∧ F.1 = i ∧
        Gathers 6 (threeRegions .ALLOCATED) ((threeRegions .ALLOCATED).greedyMerge .reliable 6).2 A W C F ∧
          LeastWindow 6 (threeRegions .ALLOCATED).cells W := by
  have hall := greedyMerge_optimal .reliable Platform.reliable_movesSucceed (threeRegions .ALLOCATED) (by decide)
    (threeRegions_wellLinked .ALLOCATED) (show 0 < 6 by decide)
  obtain ⟨i, hi⟩ : ∃ i, ((threeRegions .ALLOCATED).greedyMerge .reliable 6).1 = some i := ⟨3, by decide +kernel⟩
  exact ⟨i, hi, hall.2 i hi⟩

end GreedyMerge

/-! ## `GreedyDrop` -/

section GreedyDrop

variable {P : Platform} {p : GPUTensorPool} {a b n : Nat} {skipModel : String}

/-- The ALLOCATED regions of models other than `skipModel`. -/
def GPUTensorPool.others (p : GPUTensorPool) (skipModel : String) : List NodeId :=
  p.regions.filter fun i => GPUTensorPool.isOther skipModel (p.region i)

def GPUTensorPool.bytesOf (p : GPUTensorPool) (l : List NodeId) : Nat := Tiling.total (fun i => (p.region i).size) l

/-- The regions of other models in the order of their cost, then of their address. -/
structure DropOrder (P : Platform) (p : GPUTensorPool) (skipModel : String) (order : List NodeId) : Prop where
  perm : order.Perm (p.others skipModel)
  sorted : order.Pairwise fun i j => p.dropsBefore P i j

/-- The pool `q` is `p` with the regions `freed` made FREE: the first of the order, and no more than `n` free bytes need. -/
structure FreesFirst (n : Nat) (p q : GPUTensorPool) (order freed : List NodeId) : Prop where
  initial : freed <+: order
  bytes : freeBytes q.cells = freeBytes p.cells + p.bytesOf freed
  occupied : occupiedOf q.cells = (occupiedOf p.cells).filter fun c => c.1 ∉ freed
  needed : ∀ init i, freed = init ++ [i] → freeBytes p.cells + p.bytesOf init < n

theorem FreesFirst.spares_skipModel (h : WellLinked a b p) {q : GPUTensorPool} {order freed : List NodeId}
    (ho : DropOrder P p skipModel order) (hf : FreesFirst n p q order freed) {c : Cell} (hc : c ∈ occupiedOf p.cells)
    (hm : c.2.modelRef.map RegisteredModel.modelPath = some skipModel) : c ∈ occupiedOf q.cells := by
  rw [hf.occupied]
  refine mem_filter.2 ⟨hc, decide_eq_true fun hmem => ?_⟩
  have hother := (mem_filter.1 (ho.perm.subset (hf.initial.subset hmem))).2
  rw [h.region_eq (mem_of_mem_filter hc)] at hother
  obtain ⟨m, hmod, hpa⟩ := Option.map_eq_some_iff.1 hm
  simp [GPUTensorPool.isOther, hmod, hpa] at hother

theorem dropOrder_collectDrops (P : Platform) (h : WellLinked a b p) (skipModel : String) :
    DropOrder P p skipModel ((GPUTensorPool.collectDrops P (p.others skipModel) p
      []).2.map GPUTensorPool.DropCostEntry.region) := by
  obtain ⟨-, hsrt, hpm⟩ := GPUTensorPool.ordered_spec (P := P) h (GPUTensorPool.isOther_spec skipModel)
  refine ⟨?_, ?_⟩
  · have := hpm.map GPUTensorPool.DropCostEntry.region
    rwa [map_map, Function.comp_def, map_id'] at this
  · refine pairwise_map.2 (hsrt.imp_of_mem fun {e f} he hf hlt => ?_)
    obtain ⟨i, -, rfl⟩ := mem_map.1 (hpm.subset he)
    obtain ⟨j, -, rfl⟩ := mem_map.1 (hpm.subset hf)
    exact hlt

theorem GPUTensorPool.worth_le_of_prefix {units : Region → Nat} {V es : List GPUTensorPool.DropCostEntry} (h : V <+: es) :
    p.worth units V ≤ p.worth units es := by
  obtain ⟨rest, rfl⟩ := h
  rw [worth, worth, Tiling.total_append]
  exact Nat.le_add_right _ _

theorem bytesOf_map_region (l : List GPUTensorPool.DropCostEntry) :
    p.bytesOf (l.map GPUTensorPool.DropCostEntry.region) = p.worth size l := by
  rw [GPUTensorPool.bytesOf, GPUTensorPool.worth, Tiling.total, map_map]
  rfl

theorem freesFirst_of_released {q : GPUTensorPool} {need released : Nat} {es : List GPUTensorPool.DropCostEntry}
    (hd : GPUTensorPool.Released a b p p q size 0 released (p.victims size need 0 es))
    (hneed : freeBytes p.cells + need ≤ n) :
    FreesFirst n p q (es.map GPUTensorPool.DropCostEntry.region)
      ((p.victims size need 0 es).map GPUTensorPool.DropCostEntry.region) := by
  have hfrt : p.victims size need 0 es <+: es := Greedy.takeUntil_prefix _ _
  refine ⟨hfrt.map _, by rw [hd.free, bytesOf_map_region], hd.occupied, ?_⟩
  intro init i hinit
  obtain ⟨V, e, hV, rfl, rfl⟩ : ∃ V e, p.victims size need 0 es = V ++ [e] ∧
      init = V.map GPUTensorPool.DropCostEntry.region ∧ i = e.region := by
    obtain ⟨V, W, hVW, hV, hW⟩ := map_eq_append_iff.1 hinit
    obtain ⟨e, rfl, rfl⟩ := map_eq_singleton_iff.1 hW
    exact ⟨V, e, hVW, hV.symm, rfl⟩
  have hla : 0 + p.worth size V < need := Greedy.takeUntil_last hV
  rw [bytesOf_map_region]
  omega

/-- For every tiled list whose ALLOCATED regions have a model, with LOADING regions anywhere: `GreedyDrop(n)` succeeds exactly
when the FREE bytes and those of other models reach `n`; it frees other models' regions from the front of the order, none that
is not needed, and leaves every region of the skipped model as it is. -/
theorem greedyDrop_exact (P : Platform) (p : GPUTensorPool) (h : WellLinked a b p)
    (hm : ∀ c ∈ allocatedOf p.cells, c.2.modelRef ≠ none) (n : Nat) (skipModel : String) :
    ((p.greedyDrop P n skipModel).1 = 0 ↔ n ≤ freeBytes p.cells + p.bytesOf (p.others skipModel)) ∧
      ((p.greedyDrop P n skipModel).1 = 0 → n ≤ freeBytes (p.greedyDrop P n skipModel).2.cells) ∧
      (∃ order freed, DropOrder P p skipModel order ∧ FreesFirst n p (p.greedyDrop P n skipModel).2 order freed) ∧
      ∀ c ∈ occupiedOf p.cells, c.2.modelRef.map RegisteredModel.modelPath = some skipModel →
        c ∈ occupiedOf (p.greedyDrop P n skipModel).2.cells := by
  have hfe : p.getFreeSize = freeBytes p.cells := h.holds.getFreeSize_eq
  have hord := dropOrder_collectDrops P h skipModel
  have hspares : ∀ {q : GPUTensorPool} {order freed : List NodeId}, DropOrder P p skipModel order →
    FreesFirst n p q order freed →
      ∀ c ∈ occupiedOf p.cells, c.2.modelRef.map RegisteredModel.modelPath = some skipModel → c ∈ occupiedOf q.cells :=
    fun ho hf c hc hmod => hf.spares_skipModel h ho hc hmod
  -- nothing is freed when enough is free
  have hno : ∀ order, FreesFirst n p p order [] := fun order => ⟨ nil_prefix, rfl, by simp, by simp⟩
  by_cases hle : n ≤ p.getFreeSize
  · have hdrop : p.greedyDrop P n skipModel = (0, p) := by
      by_cases h0 : n = 0 <;> simp [GPUTensorPool.greedyDrop, h0, hle]
    rw [hdrop, ← hfe]
    exact ⟨⟨fun _ => by omega, fun _ => rfl⟩, fun _ => hle, ⟨_, [], hord, hno _⟩, hspares hord (hno _)⟩
  · have hmds : ((p.regions.filter fun i => (p.region i).status = .ALLOCATED).any fun i =>
      (p.region i).modelRef.isNone) = false := by
      refine any_eq_false.2 fun i hi hno => ?_
      obtain ⟨hi, hs⟩ := mem_filter.1 hi
      obtain ⟨c, hc, rfl⟩ := h.mem_of_regions.1 hi
      rw [h.region_eq hc] at hs hno
      exact hm c (mem_allocatedOf.2 ⟨hc, by simpa using hs⟩) (Option.isNone_iff_eq_none.1 hno)
    unfold GPUTensorPool.greedyDrop
    rw [if_neg (by omega), if_neg hle]
    simp only [hmds, Bool.false_eq_true, if_false, GPUTensorPool.filter_allocated_isOther]
    have hd := GPUTensorPool.releasePhase (P := P) h (GPUTensorPool.isOther_spec skipModel) size (n - p.getFreeSize)
    unfold GPUTensorPool.dropInOrder at hd
    change DropOrder P p skipModel ((p.inDropOrder P (GPUTensorPool.isOther skipModel)).2.map GPUTensorPool.DropCostEntry.region) at hord
    generalize (p.inDropOrder P (GPUTensorPool.isOther skipModel)).2 = es at hd hord ⊢
    generalize GPUTensorPool.dropLoop size (n - p.getFreeSize) es 0
      (p.inDropOrder P (GPUTensorPool.isOther skipModel)).1 = r at hd ⊢
    have hall : p.bytesOf (p.others skipModel) = p.worth size es := by
      rw [← bytesOf_map_region]
      exact (GPUTensorPool.total_perm hord.perm).symm
    have hfrt : p.victims size (n - p.getFreeSize) 0 es <+: es := Greedy.takeUntil_prefix _ _
    have hfst := freesFirst_of_released (n := n) hd (by omega)
    -- what is freed reaches the need unless everything is freed
    have hrel := hd.released_eq
    have hfreed := hd.free
    have hle' : p.worth size (p.victims size (n - p.getFreeSize) 0 es) ≤ p.worth size es :=
      GPUTensorPool.worth_le_of_prefix hfrt
    by_cases hshort : r.1 < n - p.getFreeSize
    · have heq : p.victims size (n - p.getFreeSize) 0 es = es := Greedy.takeUntil_eq_self (hrel ▸ hshort)
      rw [if_pos hshort]
      rw [heq] at hrel
      refine ⟨⟨by simp, fun hn => ?_⟩, by simp, ⟨_, _, hord, hfst⟩, hspares hord hfst⟩
      omega
    · rw [if_neg hshort]
      refine ⟨⟨fun _ => by omega, fun _ => rfl⟩, fun _ => ?_, ⟨_, _, hord, hfst⟩, hspares hord hfst⟩
      dsimp only
      omega

theorem greedyDrop_exact_gappedPool :
    (gappedPool.greedyDrop .reliable 6 "B").1 = 0 ∧ 6 ≤ freeBytes (gappedPool.greedyDrop .reliable 6 "B").2.cells ∧
      ∃ order freed, DropOrder .reliable gappedPool "B" order ∧
        FreesFirst 6 gappedPool (gappedPool.greedyDrop .reliable 6 "B").2 order freed := by
  have hall := greedyDrop_exact .reliable gappedPool gappedPool_wellFormed.wellLinked (by decide +kernel) 6 "B"
  have hret : (gappedPool.greedyDrop .reliable 6 "B").1 = 0 := hall.1.2 (by decide +kernel)
  exact ⟨hret, hall.2.1 hret, hall.2.2.1⟩

end GreedyDrop

end ServerlessLLM
