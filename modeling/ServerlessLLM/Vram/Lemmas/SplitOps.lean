import ServerlessLLM.Vram.Lemmas.ViewOps

/-!
# Partitioned bin packing: the planner, on lists of cells

`Groups l gs` says that the groups `gs` cut the list `l` into windows that start and end with a FREE region, with no FREE
region between the windows, and that the requests of each group fit into the free bytes of its window.
-/

namespace ServerlessLLM

open Linked List GPUTensorPool Bool DoublyLinkedList
open Prod (fst snd)

/-! ## Dealing out requests -/

@[simp] theorem totalNeed_nil : totalNeed [] = 0 := rfl

theorem totalNeed_append (l l' : List TGNeedAllocates) : totalNeed (l ++ l') = totalNeed l + totalNeed l' := by
  simp [totalNeed]

theorem totalNeed_cons (tg : TGNeedAllocates) (l : List TGNeedAllocates) : totalNeed (tg :: l) = tg.size + totalNeed l := by
  simp [totalNeed]

theorem totalNeed_perm {l l' : List TGNeedAllocates} (h : l.Perm l') : totalNeed l = totalNeed l' := (h.map _).sum_nat

theorem canGroupSplit_spec {left right : Nat} {reqs ls rs ls' rs' : List TGNeedAllocates}
    (h : canGroupSplit left right reqs ls rs = some (ls', rs')) :
    (ls' ++ rs').Perm (ls ++ rs ++ reqs) ∧ totalNeed ls' ≤ totalNeed ls + left ∧ totalNeed rs' ≤ totalNeed rs + right := by
  induction reqs generalizing left right ls rs with
  | nil =>
    simp only [canGroupSplit, Option.some.injEq, Prod.mk.injEq] at h
    obtain ⟨rfl, rfl⟩ := h
    exact ⟨by simp, by omega, by omega⟩
  | cons req reqs ih =>
    simp only [canGroupSplit] at h
    split at h
    · rename_i hl
      obtain ⟨h1, h2, h3⟩ := ih h
      rw [totalNeed_append, totalNeed_cons] at h2
      refine ⟨h1.trans ?_, by rw [totalNeed_nil] at h2; omega, h3⟩
      simp only [append_assoc, singleton_append]
      exact List.Perm.append_left _ (perm_middle.symm)
    · split at h
      · rename_i hr
        obtain ⟨h1, h2, h3⟩ := ih h
        rw [totalNeed_append, totalNeed_cons] at h3
        refine ⟨h1.trans ?_, h2, by rw [totalNeed_nil] at h3; omega⟩
        simp
      · simp at h

/-! ## Windows -/

def freeOf (l : List Cell) : List Cell := l.filter fun c => c.2.status = .FREE

@[simp] theorem freeOf_nil : freeOf [] = [] := rfl
@[simp] theorem freeOf_append (l l' : List Cell) : freeOf (l ++ l') = freeOf l ++ freeOf l' := by simp [freeOf]

theorem freeOf_cons (c : Cell) (l : List Cell) : freeOf (c :: l) = if c.2.status = .FREE then c :: freeOf l else freeOf l := by
  simp [freeOf, filter_cons]

theorem mem_freeOf {c : Cell} {l : List Cell} : c ∈ freeOf l ↔ c ∈ l ∧ c.2.status = .FREE := by simp [freeOf]

theorem freeBytes_eq_totalSize (l : List Cell) : freeBytes l = totalSize (freeOf l) := by
  induction l with
  | nil => rfl
  | cons c l ih =>
    rw [freeBytes_cons, freeOf_cons]
    split
    · rw [totalSize_cons, ih]
    · rw [ih, Nat.zero_add]

/-- A part of the list that starts and ends with a FREE region. -/
structure Window (W : List Cell) : Prop where
  headFree : ∃ c, W.head? = some c ∧ c.2.status = .FREE
  lastFree : ∃ c, W.getLast? = some c ∧ c.2.status = .FREE

/-- The groups cut a list into windows, and their requests fit there. -/
inductive Groups : List Cell → List RegionAllocateGroup → Prop
  | nil {G : List Cell} (hG : freeOf G = []) : Groups G []
  | cons {G W R : List Cell} {g : RegionAllocateGroup} {gs : List RegionAllocateGroup} (hG : freeOf G = []) (hW : Window W)
      (hs : g.start = first W) (he : g.stop = last W) (hn : totalNeed g.tgToLoads ≤ freeBytes W) (h : Groups R gs) :
      Groups (G ++ W ++ R) (g :: gs)

theorem window_singleton {x : Cell} (hx : x.2.status = .FREE) : Window [x] := ⟨⟨x, rfl, hx⟩, ⟨x, rfl, hx⟩⟩

theorem Window.head_freeOf {W : List Cell} (h : Window W) : first (freeOf W) = first W := by
  obtain ⟨c, hc, hs⟩ := h.headFree
  cases W with
  | nil => simp at hc
  | cons d W =>
    obtain rfl : d = c := by simpa using hc
    simp [freeOf_cons, hs]

theorem Window.last_freeOf {W : List Cell} (h : Window W) : last (freeOf W) = last W := by
  obtain ⟨c, hc, hs⟩ := h.lastFree
  rcases eq_nil_or_concat W with rfl | ⟨W, d, rfl⟩
  · simp at hc
  · obtain rfl : d = c := by simpa using hc
    simp [freeOf_cons, hs]

theorem Window.freeOf_ne_nil {W : List Cell} (h : Window W) : freeOf W ≠ [] := by
  obtain ⟨c, hc, hs⟩ := h.headFree
  exact ne_nil_of_mem (mem_freeOf.2 ⟨mem_of_head? hc, hs⟩)

namespace Groups

variable {l l' : List Cell} {gs gs' : List RegionAllocateGroup}

theorem gap {G : List Cell} (hG : freeOf G = []) (h : Groups l gs) : Groups (G ++ l) gs := by
  cases h with
  | nil hG' => exact .nil (by simp [hG, hG'])
  | @cons G' W R g gs hG' hW hs he hn h =>
    rw [append_assoc G', ← append_assoc G, ← append_assoc]
    exact .cons (by simp [hG, hG']) hW hs he hn h

theorem append (h : Groups l gs) (h' : Groups l' gs') : Groups (l ++ l') (gs ++ gs') := by
  induction h with
  | nil hG => exact h'.gap hG
  | cons hG hW hs he hn h ih =>
    rw [append_assoc, cons_append]
    exact .cons hG hW hs he hn ih

theorem single {W : List Cell} {g : RegionAllocateGroup} (hW : Window W) (hs : g.start = first W) (he : g.stop = last W)
    (hn : totalNeed g.tgToLoads ≤ freeBytes W) : Groups W [g] := by
  have := Groups.cons (G := []) (R := []) rfl hW hs he hn (.nil rfl)
  simpa using this

theorem singles (l : List Cell) : Groups l ((ids (freeOf l)).map GPUTensorPool.singleGroup) := by
  induction l with
  | nil => exact .nil rfl
  | cons c l ih =>
    rw [freeOf_cons]
    split
    · rename_i hc
      exact append (single (g := GPUTensorPool.singleGroup c.1) (window_singleton hc) rfl rfl (Nat.zero_le _)) ih
    · rename_i hc
      exact ih.gap (G := [c]) (by simp [freeOf_cons, hc])

theorem length_le (h : Groups l gs) : gs.length ≤ (freeOf l).length := by
  induction h with
  | nil hG => simp
  | cons hG hW hs he hn h ih =>
    have := length_pos_iff.2 hW.freeOf_ne_nil
    simp only [freeOf_append, length_append, length_cons]
    omega

end Groups

/-! ## Splitting one group -/

theorem Window.cut {W : List Cell} (h : Window W) {i : Nat} (hi : i + 1 < (freeOf W).length) :
    ∃ L G R, W = L ++ G ++ R ∧ Window L ∧ freeOf G = [] ∧ Window R ∧ freeOf L = (freeOf W).take (i + 1) ∧
      freeOf R = (freeOf W).drop (i + 1) := by
  have hspl : freeOf W = (freeOf W).take i ++ ((freeOf W)[i] :: (freeOf W)[i + 1] :: (freeOf W).drop (i + 2)) := by
    rw [← drop_eq_getElem_cons, ← drop_eq_getElem_cons, take_append_drop]
  generalize hA : (freeOf W).take i = A at hspl
  generalize hx : (freeOf W)[i] = x at hspl
  generalize hy : (freeOf W)[i + 1] = y at hspl
  generalize hB : (freeOf W).drop (i + 2) = B at hspl
  have hlen : A.length = i := by
    rw [← hA, length_take]
    omega
  obtain ⟨l₁, l₂, hW, h1, h2⟩ := filter_eq_append_iff.1 hspl
  obtain ⟨a, b, hl₂, ha, hxf, h3⟩ := filter_eq_cons_iff.1 h2
  obtain ⟨G, d, hb, hG, hyf, h4⟩ := filter_eq_cons_iff.1 h3
  have haf : freeOf a = [] := filter_eq_nil_iff.2 ha
  have hGf : freeOf G = [] := filter_eq_nil_iff.2 hG
  have hxs : x.2.status = .FREE := by simpa using hxf
  have hys : y.2.status = .FREE := by simpa using hyf
  have hL : freeOf (l₁ ++ a ++ [x]) = A ++ [x] := by
    have h1' : freeOf l₁ = A := h1
    simp [h1', haf, freeOf_cons, hxs]
  have hR : freeOf (y :: d) = y :: B := by
    have h4' : freeOf d = B := h4
    simp [freeOf_cons, hys, h4']
  have hWeq : W = (l₁ ++ a ++ [x]) ++ G ++ (y :: d) := by
    rw [hW, hl₂, hb]
    simp
  refine ⟨l₁ ++ a ++ [x], G, y :: d, hWeq, ⟨?_, ⟨x, by simp, hxs⟩⟩, hGf, ⟨⟨y, rfl, hys⟩, ?_⟩, ?_, ?_⟩
  · obtain ⟨c, hc, hs⟩ := h.headFree
    refine ⟨c, ?_, hs⟩
    rw [hWeq, append_assoc, head?_append_of_ne_nil _ (by simp)] at hc
    exact hc
  · obtain ⟨c, hc, hs⟩ := h.lastFree
    refine ⟨c, ?_, hs⟩
    rw [hWeq, getLast?_append_of_ne_nil _ (by simp)] at hc
    exact hc
  · rw [hL, hspl, take_append, hlen]
    simp [← hlen]
  · rw [hR, hspl, drop_append, hlen]
    simp [← hlen]

namespace GPUTensorPool

/-- What a pass makes of one group: whether it splits the group, and what takes its place. -/
def splitOne (P : Platform) (p : GPUTensorPool) (g : RegionAllocateGroup) : Bool × List RegionAllocateGroup :=
  if g.skip = true ∨ g.start = g.stop then (false, [g])
  else
    let (left, right) := p.bestSplitAllocate P g
    if left.tgToLoads.isEmpty && right.tgToLoads.isEmpty then (false, [{ g with skip := true }])
    else (true, p.splitGroups left right)

theorem findSplit_spec {p : GPUTensorPool} {regions : List NodeId} {reqs ls rs : List TGNeedAllocates} {i : Nat} :
    ∀ {sps : List (Nat × Nat)}, p.findSplit regions reqs sps = some (i, ls, rs) →
      i ∈ sps.map snd ∧ canGroupSplit (p.sizeOf (regions.take (i + 1)))
        (p.sizeOf regions - p.sizeOf (regions.take (i + 1))) reqs [] [] = some (ls, rs) := by
  intro sps
  induction sps with
  | nil => simp [findSplit]
  | cons sp sps ih =>
    intro h
    simp only [findSplit] at h
    split at h
    · rename_i ls' rs' hc
      simp only [Option.some.injEq, Prod.mk.injEq] at h
      obtain ⟨rfl, rfl, rfl⟩ := h
      exact ⟨by simp, hc⟩
    · obtain ⟨h1, h2⟩ := ih h
      exact ⟨by simp only [map_cons, mem_cons]; exact .inr h1, h2⟩

theorem mem_splitPoints {p : GPUTensorPool} {regions : List NodeId} :
    ∀ {k i : Nat}, i ∈ (p.splitPoints k regions).map snd → k ≤ i ∧ i + 1 < k + regions.length := by
  induction regions with
  | nil => simp [splitPoints]
  | cons l rest ih =>
    intro k i hi
    cases rest with
    | nil => simp [splitPoints] at hi
    | cons r rest =>
      simp only [splitPoints, map_cons, mem_cons] at hi
      rcases hi with rfl | hi
      · simp
      · have := ih hi
        simp only [length_cons] at this ⊢
        omega

end GPUTensorPool

section SplitOne

variable {P : Platform} {p : GPUTensorPool} {D W R : List Cell} {g : RegionAllocateGroup}

theorem Window.first_eq (h : Window W) : ∃ s, first W = some s := by
  obtain ⟨c, hc, -⟩ := h.headFree
  exact ⟨c.1, by simp [first, hc]⟩

theorem Window.last_eq (h : Window W) : ∃ e, last W = some e := by
  obtain ⟨c, hc, -⟩ := h.lastFree
  exact ⟨c.1, by simp [last, hc]⟩

theorem Holds.freeOf_eq (h : Holds p (D ++ W ++ R)) (hW : Window W) (hs : g.start = first W) (he : g.stop = last W) :
    p.freeOf g = ids (freeOf W) := by
  obtain ⟨s, hs'⟩ := hW.first_eq
  obtain ⟨e, he'⟩ := hW.last_eq
  obtain ⟨-, h2, h3⟩ := h.window hs' he'
  unfold GPUTensorPool.freeOf
  rw [hs, he, hs', he']
  simp only [h2, h3]
  exact h.filter_ids (fun c hc => by simp [hc]) fun r => decide (r.status = .FREE)

theorem Holds.sizeOf_eq (h : Holds p (D ++ W ++ R)) {L : List Cell} (hL : ∀ c ∈ L, c ∈ W) : p.sizeOf (ids L) = totalSize L := by
  unfold GPUTensorPool.sizeOf
  rw [h.map_ids (fun c hc => by simp [hL c hc]) Region.size]
  rfl

theorem totalSize_append (l l' : List Cell) : totalSize (l ++ l') = totalSize l + totalSize l' := Tiling.total_append l l'

theorem ids_take (l : List Cell) (n : Nat) : (ids l).take n = ids (l.take n) := by simp [ids]

theorem Holds.bestSplitAllocate (h : Holds p (D ++ W ++ R)) (hW : Window W) (hs : g.start = first W) (he : g.stop = last W) :
    p.bestSplitAllocate P g = (.empty, .empty) ∨
      ∃ left right L G R', p.bestSplitAllocate P g = (left, right) ∧ W = L ++ G ++ R' ∧ freeOf G = [] ∧
        Window L ∧ left.start = first L ∧ left.stop = last L ∧ totalNeed left.tgToLoads ≤ freeBytes L ∧
        Window R' ∧ right.start = first R' ∧ right.stop = last R' ∧ totalNeed right.tgToLoads ≤ freeBytes R' ∧
        (left.tgToLoads ++ right.tgToLoads).Perm g.tgToLoads := by
  have hfe := h.freeOf_eq hW hs he
  unfold GPUTensorPool.bestSplitAllocate
  split
  · exact .inl rfl
  split
  · exact .inl rfl
  rw [hfe]
  dsimp only
  split
  · exact .inl rfl
  split
  · rename_i i ls rs hf
    right
    obtain ⟨h1, h2⟩ := findSplit_spec hf
    have hi : i + 1 < (freeOf W).length := by
      have hmem := (P.sortDesc_perm fst (p.splitPoints 0 (ids (freeOf W)))).map snd
      have := mem_splitPoints (hmem.subset h1)
      simpa [ids] using this.2
    obtain ⟨L, G, R', hWeq, hL, hG, hR, hfL, hfR⟩ := hW.cut hi
    have hsubL : ∀ c ∈ freeOf L, c ∈ W := fun c hc => by rw [hWeq]; simp [(mem_freeOf.1 hc).1]
    have hsub : ∀ c ∈ freeOf W, c ∈ W := fun c hc => (mem_freeOf.1 hc).1
    have hall : freeOf W = freeOf L ++ freeOf R' := by rw [hfL, hfR, take_append_drop]
    rw [ids_take, ← hfL, h.sizeOf_eq hsubL, h.sizeOf_eq hsub, hall, totalSize_append, Nat.add_sub_cancel_left,
      ← freeBytes_eq_totalSize, ← freeBytes_eq_totalSize] at h2
    obtain ⟨hpm, hnl, hnr⟩ := canGroupSplit_spec h2
    refine ⟨_, _, L, G, R', rfl, hWeq, hG, hL, ?_, ?_, by simpa using hnl, hR, ?_, ?_, by simpa using hnr, by simpa using hpm⟩
    · rw [← hL.head_freeOf, hfL]
      cases freeOf W with
      | nil => simp
      | cons c F => simp [ids]
    · rw [← hL.last_freeOf, hfL]
      simp only [ids, last, getElem?_map, getLast?_take]
      simp [getElem?_eq_getElem (show i < (freeOf W).length by omega)]
    · rw [← hR.head_freeOf, hfR]
      simp [ids, first, head?_drop]
    · rw [← hR.last_freeOf, hfR]
      simp only [ids, last, getLast?_map, getLast?_drop]
      rw [if_neg (by omega)]
  · exact .inl rfl

def requestsOf (gs : List RegionAllocateGroup) : List TGNeedAllocates := gs.flatMap RegionAllocateGroup.tgToLoads

@[simp] theorem requestsOf_nil : requestsOf [] = [] := rfl
@[simp] theorem requestsOf_cons (g : RegionAllocateGroup) (gs : List RegionAllocateGroup) :
    requestsOf (g :: gs) = g.tgToLoads ++ requestsOf gs := rfl
@[simp] theorem requestsOf_append (gs gs' : List RegionAllocateGroup) :
    requestsOf (gs ++ gs') = requestsOf gs ++ requestsOf gs' := by simp [requestsOf]

@[simp] theorem requestsOf_singles (is : List NodeId) : requestsOf (is.map GPUTensorPool.singleGroup) = [] := by
  induction is with
  | nil => rfl
  | cons i is ih =>
    rw [map_cons, requestsOf_cons, ih]
    rfl

/-- What a pass does with one group. -/
structure SplitInto (p : GPUTensorPool) (W : List Cell) (g : RegionAllocateGroup) (r : Bool × List RegionAllocateGroup) :
    Prop where
  groups : Groups W r.2
  requests : (requestsOf r.2).Perm g.tgToLoads
  pos : 0 < r.2.length
  split : r.1 = true → 2 ≤ r.2.length

theorem Holds.splitGroups {L G R' : List Cell} {left right : RegionAllocateGroup} (h : Holds p (D ++ (L ++ G ++ R') ++ R))
    (hG : freeOf G = []) (hL : Window L) (hls : left.start = first L) (hle : left.stop = last L)
    (hln : totalNeed left.tgToLoads ≤ freeBytes L) (hR : Window R') (hrs : right.start = first R')
    (hre : right.stop = last R') (hrn : totalNeed right.tgToLoads ≤ freeBytes R') :
    Groups (L ++ G ++ R') (p.splitGroups left right) ∧
      requestsOf (p.splitGroups left right) = left.tgToLoads ++ right.tgToLoads ∧
      2 ≤ (p.splitGroups left right).length := by
  have hl : Holds p (D ++ L ++ (G ++ R' ++ R)) := by simpa [append_assoc] using h
  have hr : Holds p ((D ++ L ++ G) ++ R' ++ R) := by simpa [append_assoc] using h
  have hgl : Groups L [left] := .single hL hls hle hln
  have hgr : Groups R' [right] := .single hR hrs hre hrn
  have hlen : ∀ {V : List Cell}, Window V → 0 < (ids (freeOf V)).length := by
    intro V hV
    rw [ids, length_map]
    exact length_pos_iff.2 hV.freeOf_ne_nil
  unfold GPUTensorPool.splitGroups
  rw [hl.freeOf_eq hL hls hle, hr.freeOf_eq hR hrs hre, append_assoc]
  split
  · rename_i he
    have hn : left.tgToLoads = [] := isEmpty_iff.1 he
    have := hlen hL
    refine ⟨(Groups.singles L).append (hgr.gap hG), by simp [hn], ?_⟩
    simp only [length_append, length_map, length_cons, length_nil]
    omega
  split
  · rename_i he
    have hn : right.tgToLoads = [] := isEmpty_iff.1 he
    have := hlen hR
    refine ⟨hgl.append ((Groups.singles R').gap hG), by simp [hn], ?_⟩
    simp only [length_cons, length_map]
    omega
  · exact ⟨hgl.append (hgr.gap hG), by simp, by simp⟩

theorem Holds.splitOne (h : Holds p (D ++ W ++ R)) (hW : Window W) (hs : g.start = first W) (he : g.stop = last W)
    (hn : totalNeed g.tgToLoads ≤ freeBytes W) : SplitInto p W g (p.splitOne P g) := by
  unfold GPUTensorPool.splitOne
  split
  · exact ⟨.single hW hs he hn, by simp, by simp, by simp⟩
  · rcases h.bestSplitAllocate (P := P) hW hs he with hb | ⟨left, right, L, G, R', hb, hWeq, hG, hL, hls, hle, hln, hR, hrs,
      hre, hrn, hpm⟩
    · rw [hb]
      exact ⟨.single hW hs he hn, by simp [RegionAllocateGroup.empty], by simp [RegionAllocateGroup.empty],
        by simp [RegionAllocateGroup.empty]⟩
    · rw [hb]
      dsimp only
      split
      · exact ⟨.single hW hs he hn, by simp, by simp, by simp⟩
      · subst hWeq
        obtain ⟨h1, h2, h3⟩ := h.splitGroups hG hL hls hle hln hR hrs hre hrn
        exact ⟨h1, by rw [h2]; exact hpm, Nat.lt_of_lt_of_le (by decide) h3, fun _ => h3⟩

theorem Holds.passGroups {l : List Cell} {gs : List RegionAllocateGroup} (h : Holds p (D ++ l)) (hg : Groups l gs) :
    Groups l (gs.flatMap fun g => (p.splitOne P g).2) ∧
      (requestsOf (gs.flatMap fun g => (p.splitOne P g).2)).Perm (requestsOf gs) ∧
      gs.length ≤ (gs.flatMap fun g => (p.splitOne P g).2).length ∧
      ((gs.any fun g => (p.splitOne P g).1) = true → gs.length < (gs.flatMap fun g => (p.splitOne P g).2).length) := by
  induction hg generalizing D with
  | nil hG => exact ⟨.nil hG, by simp, by simp, by simp⟩
  | @cons G W R g gs hG hW hs he hn hgr ih =>
    have h1 : Holds p ((D ++ G) ++ W ++ R) := by simpa [append_assoc] using h
    have hone := h1.splitOne (P := P) hW hs he hn
    obtain ⟨i1, i2, i3, i4⟩ := ih (D := D ++ G ++ W) (by simpa [append_assoc] using h)
    rw [flatMap_cons]
    refine ⟨?_, ?_, ?_, ?_⟩
    · rw [append_assoc]
      exact (hone.groups.append i1).gap hG
    · rw [requestsOf_append, requestsOf_cons]
      exact hone.requests.append i2
    · have := hone.pos
      simp only [length_append, length_cons]
      omega
    · intro hany
      simp only [any_cons, or_eq_true] at hany
      have h2 := hone.pos
      simp only [length_append, length_cons]
      rcases hany with hany | hany
      · have := hone.split hany
        omega
      · have := i4 hany
        omega

end SplitOne

/-! ## The worklist -/

namespace DoublyLinkedList

variable {α : Type}

/-- The linked list is `l`. -/
structure Is (d : DoublyLinkedList α) (l : List (Nat × α)) : Prop where
  rep : Rep d.store l
  head : d.head = first l
  tail : d.tail = last l
  size : d.size = l.length

variable {d : DoublyLinkedList α} {A C : List (Nat × α)} {x : Nat × α}

theorem Is.empty [Inhabited α] : (DoublyLinkedList.empty : DoublyLinkedList α).Is [] := ⟨Rep.nil _, rfl, rfl, rfl⟩

theorem Is.pushBack {l : List (Nat × α)} (h : d.Is l) (v : α) : (d.pushBack v).Is (l ++ [(d.store.fresh, v)]) := by
  refine ⟨?_, ?_, ?_, ?_⟩
  · rw [DoublyLinkedList.pushBack, h.tail]
    exact h.rep.snoc v
  · simp [DoublyLinkedList.pushBack, h.head]
  · simp [DoublyLinkedList.pushBack]
  · simp [DoublyLinkedList.pushBack, h.size]

theorem Is.get_eq (h : d.Is (A ++ x :: C)) : d.get x.1 = x.2 := by
  rw [get, h.rep.node_eq]

theorem Is.next_eq (h : d.Is (A ++ x :: C)) : d.next x.1 = first C := by
  rw [next, h.rep.node_eq]

theorem Is.set (h : d.Is (A ++ x :: C)) (v : α) : (d.set x.1 v).Is (A ++ (x.1, v) :: C) := by
  refine ⟨h.rep.setVal v, ?_, ?_, ?_⟩
  · rw [show (d.set x.1 v).head = d.head from rfl, h.head]
    cases A <;> rfl
  · rw [show (d.set x.1 v).tail = d.tail from rfl, h.tail]
    simp [last_cons]
  · rw [show (d.set x.1 v).size = d.size from rfl, h.size]
    simp

theorem Is.insertAfter (h : d.Is (A ++ x :: C)) (v : α) :
    (d.insertAfter x.1 v).1.Is (A ++ x :: (d.store.fresh, v) :: C) ∧ (d.insertAfter x.1 v).2 = d.store.fresh := by
  refine ⟨⟨h.rep.insertAfter v, ?_, ?_, ?_⟩, rfl⟩
  · rw [show (d.insertAfter x.1 v).1.head = d.head from rfl, h.head]
    cases A <;> rfl
  · simp only [DoublyLinkedList.insertAfter, h.rep.node_eq, h.tail]
    cases C with
    | nil => simp [last_cons]
    | cons c C => simp [last_cons]
  · simp only [DoublyLinkedList.insertAfter, h.size]
    simp
    omega

theorem Is.erase (h : d.Is (A ++ x :: C)) : (d.erase x.1).Is (A ++ C) := by
  have hpos : d.size ≠ 0 := by
    rw [h.size]
    simp
  refine ⟨?_, ?_, ?_, ?_⟩
  · simp only [DoublyLinkedList.erase, hpos, if_false]
    exact h.rep.unlink
  · simp only [DoublyLinkedList.erase, hpos, if_false, h.rep.node_eq, h.head]
    cases A with
    | nil => simp
    | cons c A => simp [last_cons]
  · simp only [DoublyLinkedList.erase, hpos, if_false, h.rep.node_eq, h.tail]
    cases C with
    | nil => simp
    | cons c C => simp [last_cons]
  · rw [DoublyLinkedList.erase, if_neg hpos]
    simp [h.size]

theorem Is.toVector_eq {l : List (Nat × α)} (h : d.Is l) : d.toVector = l.map snd := by
  rw [toVector, h.head, h.rep.walk, ids, map_map]
  exact map_congr_left fun c hc => h.rep.val_eq hc

theorem Is.insertGroups {d : DoublyLinkedList RegionAllocateGroup} {A C : List (Nat × RegionAllocateGroup)}
    {x : Nat × RegionAllocateGroup} (h : d.Is (A ++ x :: C)) (gs : List RegionAllocateGroup) :
    ∃ new : List (Nat × RegionAllocateGroup), new.map snd = gs ∧
      (insertGroups d x.1 gs).1.Is (A ++ x :: (new ++ C)) ∧
      some (insertGroups d x.1 gs).2 = last (x :: new) := by
  induction gs generalizing d A x with
  | nil => exact ⟨[], rfl, h, rfl⟩
  | cons g gs ih =>
    obtain ⟨h1, h2⟩ := h.insertAfter g
    have h1' : (d.insertAfter x.1 g).1.Is ((A ++ [x]) ++ (d.store.fresh, g) :: C) := by simpa using h1
    obtain ⟨new, e1, e2, e3⟩ := ih h1'
    refine ⟨(d.store.fresh, g) :: new, by simp [e1], ?_, ?_⟩
    · simp only [GPUTensorPool.insertGroups, h2]
      simpa using e2
    · simp only [GPUTensorPool.insertGroups, h2]
      rw [e3, last_cons x]
      simp [last_cons]

end DoublyLinkedList

section RecursiveSplit

variable {P : Platform} {p : GPUTensorPool}

theorem splitPass_spec {rest : List (Nat × RegionAllocateGroup)} :
    ∀ (fuel : Nat) (flag : Bool) (d : DoublyLinkedList RegionAllocateGroup) (done : List (Nat × RegionAllocateGroup)),
      d.Is (done ++ rest) → rest.length ≤ fuel →
      ∃ d' l', p.splitPass P fuel (first rest) flag d = some (flag || (rest.map snd).any fun g => (p.splitOne P g).1, d') ∧
        d'.Is l' ∧ l'.map snd = done.map snd ++ (rest.map snd).flatMap fun g => (p.splitOne P g).2 := by
  induction rest with
  | nil =>
    intro fuel flag d done hd _
    refine ⟨d, done ++ [], ?_, hd, by simp⟩
    cases fuel <;> simp [splitPass]
  | cons x rest ih =>
    intro fuel flag d done hd hf
    obtain ⟨fuel, rfl⟩ : ∃ n, fuel = n + 1 := ⟨fuel - 1, by simp at hf; omega⟩
    have hlen : rest.length ≤ fuel := by simpa using hf
    simp only [first_cons, splitPass, hd.get_eq]
    by_cases hskip : x.2.skip = true ∨ x.2.start = x.2.stop
    · -- nothing is done to the group
      have hone : p.splitOne P x.2 = (false, [x.2]) := by simp [splitOne, hskip]
      have hd' : d.Is ((done ++ [x]) ++ rest) := by simpa using hd
      obtain ⟨d', l', e1, e2, e3⟩ := ih fuel flag _ _ hd' hlen
      refine ⟨d', l', ?_, e2, by simpa [hone] using e3⟩
      rw [hd.next_eq]
      rcases hskip with hskip | hskip
      · simp [hskip, e1, hone]
      · simp [hskip, e1, hone]
    · obtain ⟨hs1, hs2⟩ := not_or.1 hskip
      simp only [hs1, hs2, if_false, false_eq_true]
      split
      · -- no split was found: the group is marked
        rename_i hem
        have hone : p.splitOne P x.2 = (false, [{ x.2 with skip := true }]) := by
          simp [splitOne, hskip, hem]
        have hset := hd.set { x.2 with skip := true }
        have hd' : (d.set x.1 { x.2 with skip := true }).Is ((done ++ [(x.1, { x.2 with skip := true })]) ++ rest) := by
          simpa using hset
        obtain ⟨d', l', e1, e2, e3⟩ := ih fuel flag _ _ hd' hlen
        refine ⟨d', l', ?_, e2, by simpa [hone] using e3⟩
        have hnx := hset.next_eq (x := (x.1, { x.2 with skip := true }))
        dsimp only at hnx
        rw [hnx, e1]
        simp [hone]
      · -- the halves take the place of the group
        rename_i hem
        have hone : p.splitOne P x.2 = (true, p.splitGroups (p.bestSplitAllocate P x.2).1 (p.bestSplitAllocate P x.2).2) := by
          simp [splitOne, hskip, hem]
        obtain ⟨new, n1, n2, n3⟩ := hd.insertGroups (p.splitGroups (p.bestSplitAllocate P x.2).1 (p.bestSplitAllocate P x.2).2)
        have hne : new ≠ [] := by
          rintro rfl
          have : p.splitGroups (p.bestSplitAllocate P x.2).1 (p.bestSplitAllocate P x.2).2 = [] := by simpa using n1.symm
          unfold GPUTensorPool.splitGroups at this
          split at this
          · simp at this
          · split at this <;> simp at this
        have hers := n2.erase
        obtain ⟨new', y, rfl⟩ : ∃ new' y, new = new' ++ [y] := by
          rcases eq_nil_or_concat new with rfl | ⟨new', y, rfl⟩
          · exact absurd rfl hne
          · exact ⟨new', y, concat_eq_append⟩
        have hla : (insertGroups d x.1
            (p.splitGroups (p.bestSplitAllocate P x.2).1 (p.bestSplitAllocate P x.2).2)).2 = y.1 := by
          simpa [last_cons] using n3
        have hy := Is.next_eq (x := y) (A := done ++ new') (C := rest) (by simpa using hers)
        obtain ⟨d', l', e1, e2, e3⟩ := ih fuel true _ (done ++ (new' ++ [y])) (by simpa using hers) hlen
        refine ⟨d', l', ?_, e2, ?_⟩
        · rw [hla, hy, e1]
          simp [hone]
        · rw [e3, map_append, n1]
          simp [hone]

theorem splitLoop_spec {l : List Cell} (h : Holds p l) :
    ∀ {fuel : Nat} {d : DoublyLinkedList RegionAllocateGroup} {L : List (Nat × RegionAllocateGroup)},
      d.Is L → Groups l (L.map snd) → (freeOf l).length < fuel + L.length →
      ∃ d' L', p.splitLoop P fuel d = some d' ∧ d'.Is L' ∧ Groups l (L'.map snd) ∧
        (requestsOf (L'.map snd)).Perm (requestsOf (L.map snd)) := by
  intro fuel
  induction fuel with
  | zero =>
    intro d L _ hg hlt
    have := hg.length_le
    simp only [length_map] at this
    omega
  | succ fuel ih =>
    intro d L hd hg hlt
    obtain ⟨d', l', e1, e2, e3⟩ := splitPass_spec (P := P) (p := p) d.size false d [] hd (Nat.le_of_eq hd.size.symm)
    rw [map_nil, nil_append] at e3
    obtain ⟨g1, g2, g3, g4⟩ := h.passGroups (P := P) (D := []) hg
    rw [← e3] at g1 g2 g3 g4
    rw [← hd.head] at e1
    simp only [Bool.false_or] at e1
    simp only [splitLoop, e1]
    cases hf : (L.map snd).any fun g => (p.splitOne P g).1 with
    | false => exact ⟨d', l', rfl, e2, g1, g2⟩
    | true =>
      have hlen := g4 hf
      simp only [length_map] at hlen
      obtain ⟨d'', L'', i1, i2, i3, i4⟩ := ih e2 g1 (by omega)
      exact ⟨d'', L'', i1, i2, i3, i4.trans g2⟩

theorem exists_window {l : List Cell} (h : freeOf l ≠ []) :
    ∃ G W R, l = G ++ W ++ R ∧ freeOf G = [] ∧ freeOf R = [] ∧ Window W ∧ freeOf W = freeOf l := by
  obtain ⟨c, F, hc⟩ := exists_cons_of_ne_nil h
  obtain ⟨G, l', rfl, hG, hcf, -⟩ := filter_eq_cons_iff.1 hc
  have hGf : freeOf G = [] := filter_eq_nil_iff.2 hG
  have hcs : c.2.status = .FREE := by simpa using hcf
  clear hc h
  -- cut off what stands behind the last FREE region
  induction l' using reverseRecOn with
  | nil => exact ⟨G, [c], [], by simp, hGf, rfl, window_singleton hcs, by simp [hGf]⟩
  | append_singleton l' y ih =>
    by_cases hy : y.2.status = .FREE
    · have hla : (c :: (l' ++ [y])).getLast? = some y := by rw [← cons_append, getLast?_concat]
      exact ⟨G, c :: (l' ++ [y]), [], by simp, hGf, rfl, ⟨⟨c, rfl, hcs⟩, ⟨y, hla, hy⟩⟩, by simp [hGf]⟩
    · obtain ⟨G', W, R, e, h1, h2, h3, h4⟩ := ih
      refine ⟨G', W, R ++ [y], ?_, h1, by simp [h2, freeOf_cons, hy], h3, ?_⟩
      · rw [← cons_append, ← append_assoc, e]
        simp
      · rw [h4]
        simp [freeOf_cons, hy]

theorem Holds.recursiveSplitAllocate {l : List Cell} {tgs : List TGNeedAllocates} (h : Holds p l) (hne : tgs ≠ [])
    (hpos : ∀ tg ∈ tgs, 0 < tg.size) (hle : totalNeed tgs ≤ freeBytes l) :
    ∃ gs, p.recursiveSplitAllocate P tgs = some gs ∧ Groups l gs ∧ (requestsOf gs).Perm tgs := by
  have hneed : 0 < totalNeed tgs := by
    obtain ⟨tg, tgs, rfl⟩ := exists_cons_of_ne_nil hne
    have := hpos tg (by simp)
    rw [totalNeed_cons]
    omega
  have hfe : freeOf l ≠ [] := by
    intro he
    rw [freeBytes_eq_totalSize, he] at hle
    exact absurd hle (by simpa [totalSize] using Nat.ne_of_gt hneed)
  have hsort := P.sortDesc_perm TGNeedAllocates.size tgs
  obtain ⟨G, W, R, hl, hG, hR, hW, hfW⟩ := exists_window hfe
  have hregions : (p.regions.filter fun i => (p.region i).status = .FREE) = ids (freeOf l) :=
    h.filter_regions fun r => decide (r.status = .FREE)
  have hbyt : freeBytes W = freeBytes l := by rw [freeBytes_eq_totalSize, freeBytes_eq_totalSize, hfW]
  obtain ⟨g, hg⟩ : ∃ g : RegionAllocateGroup, g =
      { start := (ids (freeOf l)).head?, stop := (ids (freeOf l)).getLast?
        tgToLoads := P.sortDesc TGNeedAllocates.size tgs, skip := false } := ⟨_, rfl⟩
  have hinit : Groups l [g] := by
    have := Groups.cons (g := g) hG hW (by rw [hg, ← hW.head_freeOf, hfW]; simp [ids, first])
      (by rw [hg, ← hW.last_freeOf, hfW]; simp [ids, last])
      (by rw [hg, hbyt, totalNeed_perm hsort]; exact hle) (.nil hR)
    rwa [← hl] at this
  have hlen : (freeOf l).length < p.store.fresh + 1 + 1 := by
    have h1 := h.rep.length_le
    have h2 : (freeOf l).length ≤ l.length := length_filter_le _ _
    omega
  have hd := (DoublyLinkedList.Is.empty (α := RegionAllocateGroup)).pushBack g
  obtain ⟨d', L', e1, e2, e3, e4⟩ := splitLoop_spec (P := P) h hd (by simpa using hinit) (by simpa using hlen)
  refine ⟨L'.map snd, ?_, e3, e4.trans (by simpa [hg] using hsort)⟩
  unfold GPUTensorPool.recursiveSplitAllocate
  rw [if_neg (by simpa using hne), hregions]
  dsimp only
  rw [← hg, e1, Option.map_some, e2.toVector_eq]

end RecursiveSplit

end ServerlessLLM
