import Mathlib.Algebra.Order.BigOperators.Group.List
import Mathlib.Algebra.Order.Group.Nat
import ServerlessLLM.Vram.ReuseDisabled
import ServerlessLLM.Vram.Lemmas.Invariants

/-!
# Loads without reuse

With `disable_parameter_reuse`, `LoadModel` of the mock backend loads every group of the model, and exempts the regions of the
same model from the eviction.
-/

namespace ServerlessLLM

open Linked Runs List Function GPUTensorPool Region Bool
open Option (some.inj)

/-! ## `GreedyDrop` -/

namespace GPUTensorPool

variable {P : Platform} {a b : Nat} {p : GPUTensorPool} {n : Nat} {skipModel : String}

theorem greedyDropSize_snd : (p.greedyDropSize P n skipModel).2 = (p.greedyDrop P n skipModel).2 := by
  unfold greedyDropSize greedyDrop
  split
  · rfl
  split
  · rfl
  dsimp only
  split
  · rfl
  · split <;> rfl

theorem greedyDropSize_fst (P : Platform) (n : Nat) (skipModel : String) (h : WellFormed a b p)
    (hm : ∀ c ∈ allocatedOf p.cells, c.2.modelRef ≠ none) :
    ((p.greedyDropSize P n skipModel).1 = n ∧ n ≤ freeBytes (p.greedyDrop P n skipModel).2.cells) ∨
      ((p.greedyDropSize P n skipModel).1 = freeBytes (p.greedyDrop P n skipModel).2.cells ∧
        (p.greedyDropSize P n skipModel).1 < n ∧
        ∀ c ∈ allocatedOf (p.greedyDrop P n skipModel).2.cells, isOther skipModel c.2 = false) := by
  have hfe : p.getFreeSize = freeBytes p.cells := h.holds.getFreeSize_eq
  unfold greedyDropSize greedyDrop
  by_cases h0 : n = 0
  · simp [h0]
  by_cases h1 : n ≤ p.getFreeSize
  · simp only [h0, if_false, h1, if_true]
    exact .inl ⟨trivial, hfe ▸ h1⟩
  have h2 : ((p.regions.filter fun i => (p.region i).status = .ALLOCATED).any fun i =>
    (p.region i).modelRef.isNone) = false := by
    rw [any_eq_false]
    intro i hi
    obtain ⟨hi1, hi2⟩ := mem_filter.1 hi
    obtain ⟨c, hc, rfl⟩ := h.mem_of_regions.1 hi1
    rw [h.region_eq hc] at hi2 ⊢
    simpa using hm c (mem_allocatedOf.2 ⟨hc, by simpa using hi2⟩)
  simp only [h0, if_false, h1, h2]
  rw [filter_allocated_isOther]
  have hd := dropPhase (P := P) h (isOther_spec skipModel) size (n - p.getFreeSize)
  obtain ⟨-, -, hpm⟩ := ordered_spec (P := P) h.wellLinked (isOther_spec skipModel)
  unfold dropInOrder at hd
  generalize (inDropOrder P p (isOther skipModel)).2 = es at hd hpm ⊢
  generalize dropLoop size (n - p.getFreeSize) es 0 (inDropOrder P p (isOther skipModel)).1 = r at hd ⊢
  have hrel := hd.released_eq
  have hfr := hd.free
  simp only [false_eq_true, if_false]
  split
  · rename_i hlt
    refine .inr ⟨by dsimp only; omega, by dsimp only; omega, fun c hc => ?_⟩
    -- every candidate was freed, so none is left
    have hall : p.victims size (n - p.getFreeSize) 0 es = es :=
      Greedy.takeUntil_eq_self (by simpa [hrel, worth, victims] using hlt)
    obtain ⟨hc1, hc2⟩ := (hd.mem_iff c).1 hc
    rw [hall] at hc2
    by_contra ho
    rw [not_eq_false] at ho
    obtain ⟨hmem, -⟩ := mem_allocatedOf.1 hc1
    have hcand : c.1 ∈ p.regions.filter fun i => isOther skipModel (p.region i) :=
      mem_filter.2 ⟨h.mem_of_regions.2 ⟨c, hmem, rfl⟩, by rw [h.region_eq hmem]; exact ho⟩
    exact hc2 _ (hpm.symm.subset (mem_map.2 ⟨c.1, hcand, rfl⟩)) rfl
  · exact .inl ⟨rfl, by dsimp only; omega⟩

end GPUTensorPool

namespace MockAllocation

/-! ## Popping -/

theorem totalNeed_append (l l' : List TGNeedAllocates) : totalNeed (l ++ l') = totalNeed l + totalNeed l' := by
  simp [totalNeed]

theorem popLoop_spec (short : Nat) : ∀ (l : List TGNeedAllocates) (popSize : Nat) (addrs : List Nat),
    ∃ popped, l = popped ++ (popLoop short l popSize addrs).1 ∧
      (short ≤ popSize + totalNeed popped ∨ (popLoop short l popSize addrs).1 = []) ∧
      (popLoop short l popSize addrs).2.length = addrs.length := by
  intro l
  induction l with
  | nil => exact fun popSize addrs => ⟨[], rfl, .inr rfl, rfl⟩
  | cons tg l ih =>
    intro popSize addrs
    unfold popLoop
    by_cases hs : short ≤ popSize + tg.size
    · rw [if_pos hs]
      exact ⟨[tg], rfl, .inl (by simpa [totalNeed] using hs), by simp⟩
    · rw [if_neg hs]
      obtain ⟨popped, h1, h2, h3⟩ := ih (popSize + tg.size) (addrs.set tg.tgId fakeAddr)
      refine ⟨tg :: popped, by rw [cons_append, ← h1], h2.imp_left fun h => ?_, by simpa using h3⟩
      rw [totalNeed_cons]
      omega

theorem popBack_spec (short : Nat) (tgs : List TGNeedAllocates) (addrs : List Nat) :
    (∃ popped, tgs = (popBack short tgs addrs).1 ++ popped) ∧
      totalNeed (popBack short tgs addrs).1 ≤ totalNeed tgs - short ∧ (popBack short tgs addrs).2.length = addrs.length := by
  obtain ⟨popped, h1, h2, h3⟩ := popLoop_spec short tgs.reverse 0 addrs
  have hspl : tgs = (popBack short tgs addrs).1 ++ popped.reverse := by
    have := congrArg reverse h1
    rwa [reverse_reverse, reverse_append] at this
  refine ⟨⟨_, hspl⟩, ?_, h3⟩
  rcases h2 with h2 | h2
  · have hneed : totalNeed tgs = totalNeed (popBack short tgs addrs).1 + totalNeed popped.reverse := by
      rw [← totalNeed_append, ← hspl]
    have hrev : totalNeed popped.reverse = totalNeed popped := by simp [totalNeed]
    omega
  · have hnil : (popBack short tgs addrs).1 = [] := by rw [popBack, h2]; rfl
    simp [hnil, totalNeed]

/-! ## The strategies, also without groups -/

section Strategies

variable {P : Platform} {m : RegisteredModel} {a b : Nat} {p : GPUTensorPool} {strategy : Int}

theorem sortDesc_nil (P : Platform) (key : TGNeedAllocates → Nat) : P.sortDesc key [] = [] :=
  List.Perm.eq_nil (P.sortDesc_perm key [])

theorem runStrategy_nil (h1 : 1 ≤ strategy) (h4 : strategy ≤ 4) (addrs : List Nat) :
    p.runStrategy P strategy m [] addrs = (.done, addrs, p) := by
  obtain rfl | rfl | rfl | rfl : strategy = 1 ∨ strategy = 2 ∨ strategy = 3 ∨ strategy = 4 := by omega
  · rfl
  · show greedyMergeLoop P m (P.sortDesc _ []) addrs p = _
    rw [sortDesc_nil]
    rfl
  · show greedyMergeLoop P m (P.sortDesc _ []) addrs p = _
    rw [sortDesc_nil]
    rfl
  · rfl

theorem runStrategy_placing (hP : P.MovesSucceed) (h : WellFormed a b p) (h0 : 0 < a) (h1 : 1 ≤ strategy) (h4 : strategy ≤ 4)
    {tgs : List TGNeedAllocates} (addrs : List Nat) (hpos : ∀ tg ∈ tgs, 0 < tg.size) (hle : totalNeed tgs ≤ freeBytes p.cells) :
    Placing (fun _ => True) m a b p addrs tgs (p.runStrategy P strategy m tgs addrs) := by
  by_cases hne : tgs = []
  · subst hne
    rw [runStrategy_nil h1 h4]
    exact .nil h.wellLinked
  · exact h.runStrategy hP h0 h1 h4 hne hpos hle windowsOk_true

end Strategies

/-! ## One call -/

section Call

variable {P : Platform} {m : RegisteredModel} {a b : Nat} {p q : GPUTensorPool} {strategy : Int} {mockCopy disable : Bool}
  {r : LoadResult × GPUTensorPool}

theorem collectGroups_eq {l : List (TensorGroupIndex × Nat)}
    (h : disable = true → ∀ e ∈ l, p.getTensor e.1.fingerprint = none) :
    collectGroups p disable l = ServerlessLLM.collectGroups p l := by
  induction l with
  | nil => rfl
  | cons e l ih =>
    obtain ⟨tg, i⟩ := e
    simp only [collectGroups, ServerlessLLM.collectGroups, ih fun hd e he => h hd e (by simp [he])]
    cases disable with
    | false => rfl
    | true => simp [h rfl (tg, i) (by simp)]

/-- What a call leaves behind: the eviction, then the placing of the groups that were not popped. None is popped when the
eviction made room for all. -/
structure Calls (P : Platform) (m : RegisteredModel) (a b : Nat) (p : GPUTensorPool) (kept popped : List TGNeedAllocates)
    (addrs addrs' : List Nat) (q : GPUTensorPool) (r : LoadResult × GPUTensorPool) : Prop where
  requests : p.requests m = kept ++ popped
  none_popped : totalNeed (p.requests m) ≤ freeBytes (p.dropFor P m).2.cells ∨
      (∃ c ∈ allocatedOf (p.dropFor P m).2.cells, isOther m.modelPath c.2 = true) →
    popped = [] ∧ addrs = p.reused m
  length : addrs.length = (p.reused m).length
  placing : Placing (fun _ => True) m a b (p.dropFor P m).2 addrs kept (.done, addrs', q)
  cells : r.2.cells = q.cells
  index : r.2.allocatedRegions = q.allocatedRegions
  wellFormed : WellFormed a b r.2
  base : r.2.gpuBaseAddr = p.gpuBaseAddr
  answer : ∀ as response, r.1 = .ok as response → as = addrs'

theorem placeGroups_calls (hP : P.MovesSucceed) (hw : WellFormed a b p) (h0 : 0 < a) (h1 : 1 ≤ strategy) (h4 : strategy ≤ 4)
    (hpos : m.Positive) (hm : ∀ c ∈ allocatedOf p.cells, c.2.modelRef ≠ none) :
    ∃ kept popped addrs addrs' q, Calls P m a b p kept popped addrs addrs' q
      (placeGroups P mockCopy (p.prepared m) m strategy (p.requests m) (p.reused m)) := by
  obtain ⟨hprep, hfrm, hev, -⟩ := hw.prepared m
  have hdrop := (hw.dropFor P m).1
  have hfst := greedyDropSize_fst P (totalNeed (p.requests m)) m.modelPath hprep
    fun c hc => hm c (hev.mem_of_mem hc)
  have hsnd : ((p.prepared m).greedyDropSize P (totalNeed (p.requests m)) m.modelPath).2 = (p.dropFor P m).2 :=
    greedyDropSize_snd
  change (_ ∧ _ ≤ freeBytes (p.dropFor P m).2.cells) ∨ (_ = freeBytes (p.dropFor P m).2.cells ∧ _) at hfst
  unfold placeGroups
  by_cases hnil : p.requests m = []
  · -- nothing to load, and nothing to evict
    have hzero : (p.dropFor P m).2 = p.prepared m := by
      unfold dropFor greedyDrop
      rw [hnil]
      rfl
    have hplace : Placing (fun _ => True) m a b (p.dropFor P m).2 (p.reused m) [] (.done, p.reused m, p.prepared m) := by
      rw [hzero]
      exact .nil hprep.wellLinked
    rw [if_pos (by simp [hnil])]
    refine ⟨[], [], p.reused m, p.reused m, p.prepared m, ?_⟩
    exact {
      requests := hnil
      none_popped := fun _ => ⟨rfl, rfl⟩
      length := rfl
      placing := hplace
      cells := rfl
      index := rfl
      wellFormed := hprep
      base := hfrm.base
      answer := fun as response h => (LoadResult.ok.inj h).1.symm }
  · rw [if_neg (by simpa using hnil)]
    generalize hg : (p.prepared m).greedyDropSize P (totalNeed (p.requests m)) m.modelPath = g at hfst hsnd
    obtain ⟨actualFree, pool⟩ := g
    obtain rfl : pool = (p.dropFor P m).2 := hsnd
    -- the groups that are left fit
    obtain ⟨kept, popped, addrs, hpop, hreq, hlen, hno, hro⟩ : ∃ kept popped addrs,
        (if actualFree < totalNeed (p.requests m) then
          popBack (totalNeed (p.requests m) - actualFree) (p.requests m) (p.reused m)
        else (p.requests m, p.reused m)) = (kept, addrs) ∧ p.requests m = kept ++ popped ∧
        addrs.length = (p.reused m).length ∧
        (totalNeed (p.requests m) ≤ freeBytes (p.dropFor P m).2.cells ∨
            (∃ c ∈ allocatedOf (p.dropFor P m).2.cells, isOther m.modelPath c.2 = true) →
          popped = [] ∧ addrs = p.reused m) ∧ totalNeed kept ≤ freeBytes (p.dropFor P m).2.cells := by
      rcases hfst with ⟨h2, h3⟩ | ⟨h2, h3, h5⟩
      · refine ⟨_, [], _, if_neg (by dsimp only at h2; omega), (append_nil _).symm, rfl, fun _ => ⟨rfl, rfl⟩, h3⟩
      · obtain ⟨⟨popped, hspl⟩, hle, hl⟩ :=
          popBack_spec (totalNeed (p.requests m) - actualFree) (p.requests m) (p.reused m)
        refine ⟨_, popped, _, if_pos h3, hspl, hl, ?_, hle.trans (by dsimp only at h2 h3; omega)⟩
        rintro (h | ⟨c, hc, ho⟩)
        · dsimp only at h2 h3
          omega
        · rw [h5 c hc] at ho
          exact absurd ho (by simp)
    have hplace := runStrategy_placing hP hdrop.wellFormed h0 h1 h4 addrs
      (fun tg htg => requests_pos hpos tg (by rw [hreq]; exact mem_append_left _ htg)) hro (m := m)
    dsimp only
    rw [hpop]
    dsimp only
    rcases hr : (p.dropFor P m).2.runStrategy P strategy m kept addrs with ⟨o, addrs', q⟩
    rw [hr] at hplace
    obtain rfl : o = .done := hplace.done
    have hq : WellFormed a b q := hplace.wellFormed hdrop.wellFormed
    have hba : q.gpuBaseAddr = p.gpuBaseAddr := hplace.frame.base.trans (hdrop.frame.base.trans hfrm.base)
    refine ⟨kept, popped, addrs, addrs', q, ?_⟩
    dsimp only
    split
    · exact ⟨hreq, hno, hlen, hplace, rfl, rfl, hq, hba, nofun⟩
    · generalize (if mockCopy = true then _ else loadModelFromMem P m addrs' (kept.map TGNeedAllocates.tgId) q.device) = o
      split
      · exact ⟨hreq, hno, hlen, hplace, rfl, rfl, (hq.of_eq (q := { q with device := o.2 }) rfl rfl).1, hba,
          fun as response h => (LoadResult.ok.inj h).1.symm⟩
      · exact ⟨hreq, hno, hlen, hplace, rfl, rfl, (hq.of_eq (q := { q with device := o.2 }) rfl rfl).1, hba, nofun⟩

end Call

/-! ## What is carried along a run -/

/-- The registered models: each under its own path, with groups of positive sizes, and no fingerprint empty or used twice. -/
structure Proper (registered : String → Option RegisteredModel) : Prop where
  path : ∀ path m, registered path = some m → m.modelPath = path
  positive : ∀ path m, registered path = some m → m.Positive
  named : ∀ path m, registered path = some m → m.Named
  nodup : ∀ path m, registered path = some m → m.fingerprints.Nodup
  disjoint : ∀ path path' m m', path ≠ path' → registered path = some m → registered path' = some m' →
    List.Disjoint m.fingerprints m'.fingerprints

def Owned (registered : String → Option RegisteredModel) (r : Region) : Prop :=
  ∃ m, registered m.modelPath = some m ∧ r.modelRef = some m ∧
    ∃ tg ∈ m.tensorGroupIndexes, tg.fingerprint = r.fingerprint ∧ tg.size = r.size

/-- The pool `[a, b)` is in order, the index and the list agree, and every ALLOCATED region is owned by a registered model. -/
structure Kept (registered : String → Option RegisteredModel) (a b : Nat) (p : GPUTensorPool) : Prop where
  pos : 0 < a
  base : p.gpuBaseAddr = a
  wellFormed : WellFormed a b p
  named : Named p.view
  sound : IndexSound p.view
  complete : IndexComplete p.view
  owned : ∀ c ∈ allocatedOf p.cells, Owned registered c.2

def NotResident (m : RegisteredModel) (p : GPUTensorPool) : Prop :=
  ∀ i ∈ p.regions, (p.region i).status = .ALLOCATED → ¬(p.region i).BelongsTo m

instance (m : RegisteredModel) (p : GPUTensorPool) : Decidable (NotResident m p) :=
  inferInstanceAs (Decidable (∀ i ∈ p.regions, (p.region i).status = .ALLOCATED → ¬(p.region i).BelongsTo m))

section Kept

variable {P : Platform} {registered : String → Option RegisteredModel} {m : RegisteredModel} {a b : Nat} {p q : GPUTensorPool}
  {strategy : Int} {mockCopy disable : Bool}

theorem Owned.modelRef_eq {r : Region} (h : Owned registered r) (hp : Proper registered) (hm : registered m.modelPath = some m)
    (hfp : r.fingerprint ∈ m.fingerprints) : r.modelRef = some m := by
  obtain ⟨m', hm', href, tg, htg, hf, -⟩ := h
  by_cases hpa : m'.modelPath = m.modelPath
  · rw [href]
    rw [hpa, hm] at hm'
    exact hm'.symm
  · refine absurd hfp (hp.disjoint _ _ _ _ hpa hm' hm ?_)
    rw [← hf]
    exact mem_map.2 ⟨tg, htg, rfl⟩

theorem Owned.isOther_iff {r : Region} (h : Owned registered r) (hp : Proper registered) (hm : registered m.modelPath = some m)
    (hs : r.status = .ALLOCATED) : GPUTensorPool.isOther m.modelPath r = true ↔ ¬r.BelongsTo m := by
  obtain ⟨m', hm', href, tg, htg, hf, -⟩ := id h
  simp only [GPUTensorPool.isOther, hs, href, decide_true, Bool.true_and, decide_eq_true_eq]
  constructor
  · intro hne hb
    have heq := h.modelRef_eq hp hm hb
    rw [href] at heq
    exact hne (by rw [some.inj heq])
  · intro hb hpa
    rw [hpa, hm] at hm'
    obtain rfl := some.inj hm'
    refine hb ?_
    rw [Region.BelongsTo, ← hf]
    exact mem_map.2 ⟨tg, htg, rfl⟩

theorem Kept.collectGroups_eq (h : Kept registered a b p) (hd : disable = true → NotResident m p) :
    collectGroups (p.prepared m) disable m.tensorGroupIndexes.zipIdx = (p.requests m, p.reused m) := by
  obtain ⟨-, -, hev, -⟩ := h.wellFormed.prepared m
  refine MockAllocation.collectGroups_eq ?_
  intro hdis e he
  cases hg : (p.prepared m).getTensor e.1.fingerprint with
  | none => rfl
  | some j =>
    obtain ⟨r, hr, hf⟩ := hev.indexSound h.sound e.1.fingerprint j hg
    obtain ⟨hmem, hs⟩ := mem_allocatedOf.1 (hev.mem_of_mem hr)
    have hreg := h.wellFormed.region_eq hmem
    refine absurd ?_ (hd hdis j (h.wellFormed.mem_of_regions.2 ⟨_, hmem, rfl⟩) (by rw [hreg]; exact hs))
    rw [hreg, BelongsTo]
    refine hf ▸ mem_map.2 ⟨e.1, ?_, rfl⟩
    exact mem_of_getElem? (mem_zipIdx_iff_getElem?.1 he)

theorem loadModelOn_eq (h : collectGroups (p.prepared m) disable m.tensorGroupIndexes.zipIdx = (p.requests m, p.reused m)) :
    loadModelOn P mockCopy p m strategy disable =
      placeGroups P mockCopy (p.prepared m) m strategy (p.requests m) (p.reused m) := by
  unfold loadModelOn
  rw [show (p.useModel m.modelPath).cleanBlocks = p.prepared m from rfl]
  dsimp only
  rw [h]

theorem Kept.calls (mockCopy : Bool) (hP : P.MovesSucceed) (h : Kept registered a b p) (hp : Proper registered)
    (hm : registered m.modelPath = some m)
    (h1 : 1 ≤ strategy) (h4 : strategy ≤ 4) (hd : disable = true → NotResident m p) :
    ∃ kept popped addrs addrs' q, Calls P m a b p kept popped addrs addrs' q (loadModelOn P mockCopy p m strategy disable) := by
  rw [loadModelOn_eq (h.collectGroups_eq hd)]
  refine placeGroups_calls hP h.wellFormed h.pos h1 h4 (hp.positive _ m hm) ?_
  intro c hc hn
  obtain ⟨m', -, href, -⟩ := h.owned c hc
  rw [hn] at href
  exact absurd href (by simp)

theorem Kept.dropped (h : Kept registered a b p) (m : RegisteredModel) :
    Evicted (fun _ => True) p.view (p.prepared m).view ∧ Evicted (fun _ => True) (p.prepared m).view (p.dropFor P m).2.view :=
  ⟨(h.wellFormed.prepared m).2.2.1.mono fun _ _ => trivial, (h.wellFormed.dropFor P m).1.evicted.mono fun _ _ => trivial⟩

theorem Kept.loadModelOn (mockCopy : Bool) (hP : P.MovesSucceed) (h : Kept registered a b p) (hp : Proper registered)
    (hm : registered m.modelPath = some m) (h1 : 1 ≤ strategy) (h4 : strategy ≤ 4) (hd : disable = true → NotResident m p) :
    Kept registered a b (loadModelOn P mockCopy p m strategy disable).2 := by
  obtain ⟨kept, popped, addrs, addrs', q, hc⟩ := h.calls mockCopy hP hp hm h1 h4 hd
  obtain ⟨hprep, hdrop⟩ := h.dropped (P := P) m
  obtain ⟨tgs, hpm, hld⟩ := hc.placing.loading
  have hmem : ∀ tg ∈ tgs, tg ∈ p.requests m := fun tg htg => by
    rw [hc.requests]
    exact mem_append_left _ (hpm.subset htg)
  have hin : ∀ tg ∈ tgs, tg.tgIndex.fingerprint ∈ m.fingerprints := fun tg htg =>
    mem_map.2 ⟨tg.tgIndex, (collected p m).mem tg (hmem tg htg), rfl⟩
  have hnm : ∀ tg ∈ tgs, tg.tgIndex.fingerprint ≠ "" := fun tg htg he => hp.named _ m hm (he ▸ hin tg htg)
  have hnd : (tgs.map fun tg => tg.tgIndex.fingerprint).Nodup := by
    have hall := (collected p m).nodup_fingerprints (hp.nodup _ m hm)
    rw [hc.requests, map_append] at hall
    exact (hpm.map _).nodup_iff.2 (nodup_append.1 hall).1
  have hcomp := hprep.indexComplete h.wellFormed.layout h.complete
  have habs : ∀ tg ∈ tgs, Absent tg.tgIndex.fingerprint (p.dropFor P m).2.view := fun tg htg =>
    hdrop.absent (hcomp.absent ((collected p m).absent tg (hmem tg htg)))
  have hcomp' := hdrop.indexComplete (h.wellFormed.prepared m).1.layout hcomp
  have hnamed := hdrop.named (hprep.named h.named)
  obtain ⟨e1, e2⟩ := hld.sound hnm hnamed (hdrop.indexSound (hprep.indexSound h.sound))
  have e3 := hld.complete hnm hnd habs hnamed hcomp'
  have e4 := hld.all (Q := Owned registered) (fun _ _ hr => hr)
    (fun tg htg _ => ⟨m, hm, rfl, tg.tgIndex, (collected p m).mem tg (hmem tg htg), rfl, rfl⟩)
    fun c hc => h.owned c (hprep.mem_of_mem (hdrop.mem_of_mem hc))
  refine ⟨h.pos, hc.base.trans h.base, hc.wellFormed, ?_, ?_, ?_, ?_⟩
  · intro c hc'
    exact e1 c (by rwa [view_cells, hc.cells] at hc')
  · intro fp i hi
    obtain ⟨r, hr, hf⟩ := e2 fp i (show q.allocatedRegions fp = some i by rw [← hc.index]; exact hi)
    exact ⟨r, by rwa [view_cells, hc.cells], hf⟩
  · intro c hc'
    rw [view_cells, hc.cells] at hc'
    show (MockAllocation.loadModelOn P mockCopy p m strategy disable).2.allocatedRegions _ = _
    rw [hc.index]
    exact e3 c hc'
  · intro c hc'
    rw [hc.cells] at hc'
    exact e4 c hc'

/-! ## A model that fits -/

theorem sum_le_modelSize {l : List (String × Nat)} (hl : (l.map Prod.fst).Nodup)
    (hsub : ∀ e ∈ l, ∃ tg ∈ m.tensorGroupIndexes, tg.fingerprint = e.1 ∧ tg.size = e.2) :
    (l.map Prod.snd).sum ≤ (m.tensorGroupIndexes.map TensorGroupIndex.size).sum := by
  have hpair : l ⊆ m.tensorGroupIndexes.map fun tg => (tg.fingerprint, tg.size) := by
    intro e he
    obtain ⟨tg, htg, h1, h2⟩ := hsub e he
    exact mem_map.2 ⟨tg, htg, Prod.ext h1 h2⟩
  obtain ⟨l', hpm, hsublist⟩ := subperm_of_subset (List.Nodup.of_map _ hl) hpair
  have hsum := (hsublist.map Prod.snd).sum_le_sum fun _ _ => Nat.zero_le _
  rw [(hpm.map Prod.snd).sum_nat, map_map] at hsum
  exact hsum

theorem Kept.room (h : Kept registered a b p) (hp : Proper registered) (hm : registered m.modelPath = some m)
    (hfit : a + (m.tensorGroupIndexes.map TensorGroupIndex.size).sum ≤ b)
    (hno : ∀ c ∈ allocatedOf (p.dropFor P m).2.cells, isOther m.modelPath c.2 = false) :
    totalNeed (p.requests m) ≤ freeBytes (p.dropFor P m).2.cells := by
  obtain ⟨hprep, hdrop⟩ := h.dropped (P := P) m
  have hw := (h.wellFormed.dropFor P m).1.wellFormed
  have hcomp := hprep.indexComplete h.wellFormed.layout h.complete
  have hcomp' := hdrop.indexComplete (h.wellFormed.prepared m).1.layout hcomp
  have hown : ∀ c ∈ allocatedOf (p.dropFor P m).2.cells, Owned registered c.2 := fun c hc =>
    h.owned c (hprep.mem_of_mem (hdrop.mem_of_mem hc))
  have hmine : ∀ c ∈ allocatedOf (p.dropFor P m).2.cells, c.2.BelongsTo m := by
    intro c hc
    by_contra hb
    have := ((hown c hc).isOther_iff hp hm (mem_allocatedOf.1 hc).2).2 hb
    rw [hno c hc] at this
    exact absurd this (by simp)
  -- the regions that are left and the groups to load are different groups of the model
  have hsum := sum_le_modelSize (m := m)
    (l := ((allocatedOf (p.dropFor P m).2.cells).map fun c => (c.2.fingerprint, c.2.size)) ++
      (p.requests m).map fun tg => (tg.tgIndex.fingerprint, tg.size)) ?_ ?_
  · have htot := hw.layout.tiling.end_eq
    have hspl := totalSize_eq hw.layout.noLoading
    rw [map_append, sum_append, map_map, map_map] at hsum
    change totalSize (allocatedOf (p.dropFor P m).2.cells) + totalNeed (p.requests m) ≤ _ at hsum
    change b = a + totalSize (p.dropFor P m).2.cells at htot
    omega
  · rw [map_append, map_map, map_map]
    refine nodup_append.2 ⟨?_, ?_, ?_⟩
    · exact hcomp'.nodup hw.layout.nodup
    · exact (collected p m).nodup_fingerprints (hp.nodup _ m hm)
    · rintro fp hfp fp' hfp' rfl
      obtain ⟨c, hc, rfl⟩ := mem_map.1 hfp
      obtain ⟨tg, htg, he⟩ := mem_map.1 hfp'
      exact hdrop.absent (hcomp.absent ((collected p m).absent tg htg)) c hc he.symm
  · intro e he
    rcases mem_append.1 he with he | he
    · obtain ⟨c, hc, rfl⟩ := mem_map.1 he
      obtain ⟨m', hm', href, tg, htg, h1, h2⟩ := id (hown c hc)
      have heq := (hown c hc).modelRef_eq hp hm (hmine c hc)
      rw [href] at heq
      obtain rfl := some.inj heq
      exact ⟨tg, htg, h1, h2⟩
    · obtain ⟨tg, htg, rfl⟩ := mem_map.1 he
      exact ⟨tg.tgIndex, (collected p m).mem tg htg, rfl, rfl⟩

def Holds (m : RegisteredModel) (p : GPUTensorPool) : Prop :=
  ∀ tg ∈ m.tensorGroupIndexes, ∃ i ∈ p.regions, (p.region i).status = .ALLOCATED ∧ (p.region i).fingerprint = tg.fingerprint ∧
    (p.region i).size = tg.size ∧ (p.region i).modelRef = some m

theorem loading_addrs_mem {S : Region → Prop} {v v' : View} {addrs addrs' : List Nat} {tgs : List TGNeedAllocates}
    (h : Loading S m v addrs tgs v' addrs') (hl : Layout a b v.cells) (i : Nat)
    (hi : (∃ tg ∈ tgs, tg.tgId = i) ∨ ∀ x, addrs[i]? = some x → a ≤ x ∧ x < b) : ∀ x, addrs'[i]? = some x → a ≤ x ∧ x < b := by
  induction h with
  | nil v addrs => simpa using hi
  | compact hc h ih => exact ih (hc.layout a b hl) hi
  | @place v v₁ v' addrs addrs' tg tgs x hp h ih =>
    have hx : a ≤ x ∧ x < b := by
      have hv := hp.layout hl
      obtain ⟨c, hc, -, hs, rfl⟩ := hp.live_new
      have := hv.tiling.mem (mem_allocatedOf.1 hc).1
      omega
    refine ih (hp.layout hl) ?_
    by_cases hid : tg.tgId = i
    · refine .inr ?_
      intro y hy
      rw [getElem?_set, if_pos hid] at hy
      split at hy
      · obtain rfl := some.inj hy
        exact hx
      · exact absurd hy (by simp)
    · refine hi.imp (fun ⟨t, ht, he⟩ => ?_) fun h' y hy => h' y (by rwa [getElem?_set_ne hid] at hy)
      rcases mem_cons.1 ht with rfl | ht
      · exact absurd he hid
      · exact ⟨t, ht, he⟩

theorem Kept.holds (mockCopy : Bool) (hP : P.MovesSucceed) (h : Kept registered a b p) (hp : Proper registered)
    (hm : registered m.modelPath = some m) (h1 : 1 ≤ strategy) (h4 : strategy ≤ 4) (hd : disable = true → NotResident m p)
    (hfit : a + (m.tensorGroupIndexes.map TensorGroupIndex.size).sum ≤ b) :
    Holds m (MockAllocation.loadModelOn P mockCopy p m strategy disable).2 ∧
      ∀ addrs response, (MockAllocation.loadModelOn P mockCopy p m strategy disable).1 = .ok addrs response →
        ∀ x ∈ addrs, a ≤ x ∧ x < b := by
  have hkept := h.loadModelOn mockCopy hP hp hm h1 h4 hd
  obtain ⟨kept, popped, addrs, addrs', q, hc⟩ := h.calls mockCopy hP hp hm h1 h4 hd
  obtain ⟨hprep, hdrop⟩ := h.dropped (P := P) m
  have hcol := collected p m
  -- no group is popped
  obtain ⟨rfl, rfl⟩ := hc.none_popped (by
    by_cases hex : ∃ c ∈ allocatedOf (p.dropFor P m).2.cells, isOther m.modelPath c.2 = true
    · exact .inr hex
    · refine .inl (h.room hp hm hfit ?_)
      intro c hc
      rw [← not_eq_true]
      exact fun ho => hex ⟨c, hc, ho⟩)
  obtain rfl : p.requests m = kept := hc.requests.trans (append_nil _)
  obtain ⟨tgs, hpm, hld⟩ := hc.placing.loading
  constructor
  · intro tg htg
    obtain ⟨i, hi⟩ := mem_iff_getElem?.1 htg
    -- some region carries the fingerprint
    obtain ⟨c, hcell, hf⟩ : ∃ c ∈ allocatedOf q.cells, c.2.fingerprint = tg.fingerprint := by
      have hall := hld.perm (fun r => r.fingerprint) fun _ _ => rfl
      have hmem : tg.fingerprint ∈ (allocatedOf q.cells).map fun c => c.2.fingerprint := by
        refine hall.symm.subset (mem_append.2 ?_)
        rcases hcol.cases i tg hi with hreq | ⟨j, hj, -⟩
        · exact .inl (mem_map.2 ⟨_, hpm.symm.subset hreq, rfl⟩)
        · obtain ⟨r, hr, hf⟩ := hprep.indexSound h.sound tg.fingerprint j hj
          refine .inr (mem_map.2 ⟨(j, r), ?_, hf⟩)
          -- the eviction spares the regions of the model
          refine (h.wellFormed.dropFor P m).1.evicted.mem_of_not hr ?_
          intro ho
          have hown := h.owned _ (hprep.mem_of_mem hr)
          refine (hown.isOther_iff hp hm (mem_allocatedOf.1 hr).2).1 ho ?_
          rw [BelongsTo, hf]
          exact mem_map.2 ⟨tg, htg, rfl⟩
      obtain ⟨c, hc', hf⟩ := mem_map.1 hmem
      exact ⟨c, hc', hf⟩
    rw [← hc.cells] at hcell
    obtain ⟨hmem, hs⟩ := mem_allocatedOf.1 hcell
    have hreg := hkept.wellFormed.region_eq hmem
    have hown := hkept.owned c hcell
    have href := hown.modelRef_eq hp hm (hf ▸ mem_map.2 ⟨tg, htg, rfl⟩)
    obtain ⟨m', -, href', tg', htg', hf', hsz⟩ := hown
    rw [href] at href'
    obtain rfl := some.inj href'
    obtain rfl : tg' = tg := inj_on_of_nodup_map (hp.nodup _ m hm) htg' htg (hf'.trans hf)
    exact ⟨c.1, hkept.wellFormed.mem_of_regions.2 ⟨c, hmem, rfl⟩, by rw [hreg]; exact hs, by rw [hreg]; exact hf,
      by rw [hreg]; exact hsz.symm, by rw [hreg]; exact href⟩
  · intro as response hok x hx
    obtain rfl := hc.answer as response hok
    obtain ⟨i, hi⟩ := mem_iff_getElem?.1 hx
    refine loading_addrs_mem hld (h.wellFormed.dropFor P m).1.wellFormed.layout i ?_ x hi
    have hlt : i < m.tensorGroupIndexes.length := by
      rw [← hcol.length, ← hld.length_eq]
      exact (List.getElem?_eq_some_iff.1 hi).1
    rcases hcol.cases i _ (getElem?_eq_getElem hlt) with hreq | ⟨j, hj, haddr⟩
    · exact .inl ⟨_, hpm.symm.subset hreq, Nat.zero_add i⟩
    · refine .inr ?_
      intro y hy
      rw [haddr] at hy
      obtain rfl := some.inj hy
      obtain ⟨r, hr, -⟩ := hprep.indexSound h.sound _ j hj
      have hwp := (h.wellFormed.prepared m).1
      have hmem := (mem_allocatedOf.1 hr).1
      have := hwp.layout.tiling.mem hmem
      rw [hwp.region_eq hmem]
      omega

end Kept

/-! ## Runs -/

/-- `VRAMManager::VRAMManager`: no model is registered, and the pool of each device is one FREE region of `total` bytes. -/
structure VRAMManager.Fresh (total : Int → Nat) (v : VRAMManager) : Prop where
  noModels : ∀ path, v.registeredModels path = none
  pools : ∀ dev p, v.gpuTensorPools dev = some p →
    ∃ base cpuBandwidth bytes, 0 < base ∧ 0 < total dev ∧ p = init base (total dev) cpuBandwidth bytes

/-- One request as a step of a run. -/
def serve (P : Platform) (v : VRAMManager) (op : Op) : Option VRAMManager := some (v.step P op)

/-- What the callers promise: the fingerprints of the registered models are all different, and the strategy is one of 1 to 4. -/
def Allowed (v : VRAMManager) : Op → Prop
  | .registerModel m => m.Positive ∧ m.Named ∧ m.fingerprints.Nodup ∧
      ∀ path m', v.registeredModels path = some m' → path ≠ m.modelPath → List.Disjoint m.fingerprints m'.fingerprints
  | .loadModel _ _ strategy _ => 1 ≤ strategy ∧ strategy ≤ 4

/-- Without reuse, a model is loaded only where none of its groups is in the pool. -/
def LoadsOnce (v : VRAMManager) : Op → Prop
  | .registerModel _ => True
  | .loadModel path dev _ disable => disable = true →
      ∀ m p, v.registeredModels path = some m → v.gpuTensorPools dev = some p → NotResident m p

/-- At most one ALLOCATED region carries each fingerprint. -/
def Unique (p : GPUTensorPool) : Prop :=
  ∀ i ∈ p.regions, ∀ j ∈ p.regions, (p.region i).status = .ALLOCATED → (p.region j).status = .ALLOCATED →
    (p.region i).fingerprint = (p.region j).fingerprint → i = j

instance (p : GPUTensorPool) : Decidable (Unique p) :=
  inferInstanceAs (Decidable (∀ i ∈ p.regions, ∀ j ∈ p.regions, (p.region i).status = .ALLOCATED →
    (p.region j).status = .ALLOCATED → (p.region i).fingerprint = (p.region j).fingerprint → i = j))

/-- What a call should do: the pool has no fingerprint twice, and a model no larger than the pool has a region for each of its
groups, and no address outside the pool. -/
def Right (P : Platform) (total : Int → Nat) (v : VRAMManager) : Op → Prop
  | .registerModel _ => True
  | .loadModel path dev strategy disable => ∀ m q, v.registeredModels path = some m →
      (v.loadModel P path dev strategy disable).2.gpuTensorPools dev = some q →
      Unique q ∧ ((m.tensorGroupIndexes.map TensorGroupIndex.size).sum ≤ total dev → Holds m q ∧
        ∀ addrs response, (v.loadModel P path dev strategy disable).1 = .ok addrs response →
          ∀ x ∈ addrs, q.gpuBaseAddr ≤ x ∧ x < q.gpuBaseAddr + total dev)

/-- What is carried along a run. -/
structure Good (total : Int → Nat) (mockCopy : Bool) (v : VRAMManager) : Prop where
  copies : v.mockCopy = mockCopy
  proper : Proper v.registeredModels
  pools : ∀ dev p, v.gpuTensorPools dev = some p → ∃ a, Kept v.registeredModels a (a + total dev) p

section Run

variable {P : Platform} {total : Int → Nat} {mockCopy : Bool} {v w : VRAMManager}

theorem VRAMManager.Fresh.good (h : v.Fresh total) : Good total v.mockCopy v := by
  have hno : ∀ {path m}, v.registeredModels path = some m → False := by
    intro path m hm
    rw [h.noModels] at hm
    exact absurd hm (by simp)
  refine ⟨rfl, ⟨fun _ _ hm => (hno hm).elim, fun _ _ hm => (hno hm).elim, fun _ _ hm => (hno hm).elim,
    fun _ _ hm => (hno hm).elim, fun _ _ _ _ _ hm => (hno hm).elim⟩, ?_⟩
  intro dev p hp
  obtain ⟨base, bw, bytes, hb, ht, rfl⟩ := h.pools dev p hp
  have hinit := poolComplete_init hb ht bw bytes
  have hemp : allocatedOf (init base (total dev) bw bytes).cells = [] := by
    rw [(holds_init base (total dev) bw bytes).cells_eq]
    rfl
  exact ⟨base, hb, rfl, wellFormed_init ht bw bytes, hinit.named, hinit.sound, hinit.complete, by simp [hemp]⟩

theorem Kept.mono {registered registered' : String → Option RegisteredModel} {a b : Nat} {p : GPUTensorPool}
    (h : Kept registered a b p) (hle : ∀ path m, registered path = some m → registered' path = some m) :
    Kept registered' a b p := by
  refine { h with owned := ?_ }
  intro c hc
  obtain ⟨m, hm, href, hg⟩ := h.owned c hc
  exact ⟨m, hle _ m hm, href, hg⟩

theorem Good.registerModel {m : RegisteredModel} (h : Good total mockCopy v) (hm : Allowed v (.registerModel m)) :
    Good total mockCopy (v.registerModel m) := by
  unfold VRAMManager.registerModel
  split
  · exact h
  rename_i hno
  obtain ⟨hpos, hnm, hnd, hdis⟩ := hm
  -- an entry is the new one, or one from before
  have hcases : ∀ {path m'}, update v.registeredModels m.modelPath (some m) path = some m' →
      (path = m.modelPath ∧ m' = m) ∨ (path ≠ m.modelPath ∧ v.registeredModels path = some m') := by
    intro path m' hm'
    by_cases hpa : path = m.modelPath
    · subst hpa
      rw [update_self] at hm'
      exact .inl ⟨rfl, (some.inj hm').symm⟩
    · rw [update_of_ne hpa] at hm'
      exact .inr ⟨hpa, hm'⟩
  have hgrow : ∀ path m', v.registeredModels path = some m' →
      update v.registeredModels m.modelPath (some m) path = some m' := by
    intro path m' hm'
    rw [update_of_ne]
    · exact hm'
    · rintro rfl
      rw [hno] at hm'
      exact absurd hm' (by simp)
  refine ⟨h.copies, ⟨?_, ?_, ?_, ?_, ?_⟩, ?_⟩
  · intro path m' hm'
    rcases hcases hm' with ⟨rfl, rfl⟩ | ⟨-, hold⟩
    · rfl
    · exact h.proper.path _ _ hold
  · intro path m' hm'
    rcases hcases hm' with ⟨-, rfl⟩ | ⟨-, hold⟩
    · exact hpos
    · exact h.proper.positive _ _ hold
  · intro path m' hm'
    rcases hcases hm' with ⟨-, rfl⟩ | ⟨-, hold⟩
    · exact hnm
    · exact h.proper.named _ _ hold
  · intro path m' hm'
    rcases hcases hm' with ⟨-, rfl⟩ | ⟨-, hold⟩
    · exact hnd
    · exact h.proper.nodup _ _ hold
  · intro path path' m₁ m₂ hne h1 h2
    rcases hcases h1 with ⟨rfl, rfl⟩ | ⟨hp1, hold1⟩ <;> rcases hcases h2 with ⟨rfl, rfl⟩ | ⟨hp2, hold2⟩
    · exact absurd rfl hne
    · exact hdis _ _ hold2 hp2
    · exact fun fp h1 h2 => hdis _ _ hold1 hp1 h2 h1
    · exact h.proper.disjoint _ _ _ _ hne hold1 hold2
  · intro dev p hp
    obtain ⟨a, hk⟩ := h.pools dev p hp
    exact ⟨a, hk.mono hgrow⟩

theorem VRAMManager.loadModel_eq {path : String} {dev : Int} {m : RegisteredModel} {p : GPUTensorPool} (strategy : Int)
    (disable : Bool) (hm : v.registeredModels path = some m) (hp : v.gpuTensorPools dev = some p) :
    v.loadModel P path dev strategy disable =
      ((loadModelOn (if v.mockCopy then P.withoutCopies else P) v.mockCopy p m strategy disable).1,
        { v with
          gpuTensorPools := update v.gpuTensorPools dev
            (some (loadModelOn (if v.mockCopy then P.withoutCopies else P) v.mockCopy p m strategy disable).2) }) := by
  simp only [VRAMManager.loadModel, hm, hp]

theorem movesSucceed (hP : mockCopy = true ∨ P.MovesSucceed) (h : Good total mockCopy v) :
    (if v.mockCopy then P.withoutCopies else P).MovesSucceed := by
  split
  · exact fun _ => rfl
  · rename_i hno
    exact hP.resolve_left fun hc => hno (h.copies.trans hc)

theorem Good.serve (hP : mockCopy = true ∨ P.MovesSucceed) (h : Good total mockCopy v) {op : Op}
    (hop : Allowed v op ∧ LoadsOnce v op) (hs : serve P v op = some w) : Good total mockCopy w := by
  obtain rfl := some.inj hs
  cases op with
  | registerModel m => exact h.registerModel hop.1
  | loadModel path dev strategy disable =>
    show Good total mockCopy (v.loadModel P path dev strategy disable).2
    cases hm : v.registeredModels path with
    | none =>
      simp only [VRAMManager.loadModel, hm]
      exact h
    | some m =>
      cases hp : v.gpuTensorPools dev with
      | none =>
        simp only [VRAMManager.loadModel, hm, hp]
        exact h
      | some p =>
        obtain ⟨a, hk⟩ := h.pools dev p hp
        rw [VRAMManager.loadModel_eq strategy disable hm hp]
        refine ⟨h.copies, h.proper, ?_⟩
        intro dev' q hq
        by_cases hdev : dev' = dev
        · subst hdev
          simp only [update_self, Option.some.injEq] at hq
          subst hq
          have hpa := h.proper.path path m hm
          exact ⟨a, hk.loadModelOn v.mockCopy (movesSucceed hP h) h.proper (by rw [hpa]; exact hm) hop.1.1 hop.1.2
            fun hd => hop.2 hd m p hm hp⟩
        · simp only [update_of_ne hdev] at hq
          exact h.pools dev' q hq

theorem Kept.unique {registered : String → Option RegisteredModel} {a b : Nat} {p : GPUTensorPool} (h : Kept registered a b p) :
    Unique p := by
  intro i hi j hj hsi hsj hf
  obtain ⟨c, hc, rfl⟩ := h.wellFormed.mem_of_regions.1 hi
  obtain ⟨d, hd, rfl⟩ := h.wellFormed.mem_of_regions.1 hj
  rw [h.wellFormed.region_eq hc] at hsi hf
  rw [h.wellFormed.region_eq hd] at hsj hf
  have h1 := h.complete c (mem_allocatedOf.2 ⟨hc, hsi⟩)
  have h2 := h.complete d (mem_allocatedOf.2 ⟨hd, hsj⟩)
  rw [hf, h2] at h1
  exact (some.inj h1).symm

theorem Good.right (hP : mockCopy = true ∨ P.MovesSucceed) (h : Good total mockCopy v) {op : Op}
    (hop : Allowed v op ∧ LoadsOnce v op) : Right P total v op := by
  have hnx : Good total mockCopy (v.step P op) := h.serve hP hop rfl
  cases op with
  | registerModel m => trivial
  | loadModel path dev strategy disable =>
    intro m q hm hq
    obtain ⟨a, hkept⟩ := hnx.pools dev q hq
    refine ⟨hkept.unique, ?_⟩
    intro hfit
    cases hp : v.gpuTensorPools dev with
    | none =>
      simp only [VRAMManager.loadModel, hm, hp] at hq
      exact absurd hq (by simp)
    | some p =>
      obtain ⟨a', hk⟩ := h.pools dev p hp
      have hpa := h.proper.path path m hm
      rw [VRAMManager.loadModel_eq strategy disable hm hp] at hq ⊢
      simp only [update_self, Option.some.injEq] at hq
      subst hq
      have hm' : v.registeredModels m.modelPath = some m := by rw [hpa]; exact hm
      have hld := hk.loadModelOn v.mockCopy (movesSucceed hP h) h.proper hm' hop.1.1 hop.1.2
        fun hd => hop.2 hd m p hm hp
      obtain ⟨h1, h2⟩ := hk.holds v.mockCopy (movesSucceed hP h) h.proper hm' hop.1.1 hop.1.2
        (fun hd => hop.2 hd m p hm hp) (Nat.add_le_add_left hfit a')
      refine ⟨h1, ?_⟩
      intro addrs response hok
      rw [hld.base]
      exact h2 addrs response hok

end Run

/-- In every run in which a reuse-disabled load finds no group of its model in the pool, no pool ever has a fingerprint twice,
and every call places a model no larger than the pool as a whole. The copies succeed, or `mock_copy` skips them. -/
theorem loads_without_reuse_right {P : Platform} {total : Int → Nat} {v : VRAMManager} {ops : List Op} (hv : v.Fresh total)
    (hP : v.mockCopy = true ∨ P.MovesSucceed) (h : EachStep (serve P) (fun u op => Allowed u op ∧ LoadsOnce u op) v ops) :
    EachStep (serve P) (Right P total) v ops ∧
      Throughout (serve P) (fun u => ∀ dev p, u.gpuTensorPools dev = some p → Unique p) v ops := by
  refine ⟨h.imp (fun _ _ _ hu hop hs => hu.serve hP hop hs) (fun _ _ hu hop => hu.right hP hop) hv.good, ?_⟩
  refine (throughout_of_eachStep (fun _ _ _ hu hop hs => hu.serve hP hop hs) hv.good h).mono ?_
  intro u hu dev p hp
  obtain ⟨a, hk⟩ := hu.pools dev p hp
  exact hk.unique

/-- A manager that skips the copies, with one pool of `total` bytes on device 1. -/
def VRAMManager.mock (total : Nat) : VRAMManager where
  registeredModels := fun _ => none
  gpuTensorPools := fun dev => if dev = 1 then some (.init (total + 1) total 1 fun _ => 0) else none
  mockCopy := true

theorem VRAMManager.mock_fresh {total : Nat} (ht : 0 < total) : (mock total).Fresh fun _ => total := by
  refine ⟨fun _ => rfl, fun dev p hp => ⟨total + 1, 1, fun _ => 0, Nat.succ_pos _, ht, ?_⟩⟩
  unfold mock at hp
  dsimp only at hp
  split at hp
  · exact (some.inj hp).symm
  · exact absurd hp (by simp)

def smallModel : RegisteredModel := .ofGroups "A" [("a", [1, 1])]

theorem smallModel_allowed (total : Nat) : Allowed (.mock total) (.registerModel smallModel) := by
  refine ⟨?_, ?_, by decide, nofun⟩
  · unfold RegisteredModel.Positive
    decide
  · unfold RegisteredModel.Named
    decide

def onceOps : List Op := [.registerModel smallModel, .loadModel "A" 1 4 true, .loadModel "A" 1 4 false]

theorem loads_without_reuse_right_once :
    EachStep (serve .reliable) (Right .reliable fun _ => 8) (.mock 8) onceOps ∧
      Throughout (serve .reliable) (fun u => ∀ dev p, u.gpuTensorPools dev = some p → Unique p) (.mock 8) onceOps := by
  refine loads_without_reuse_right (VRAMManager.mock_fresh (by decide)) (.inl rfl) ?_
  refine ⟨⟨smallModel_allowed 8, trivial⟩, ?_⟩
  rintro _ ⟨⟩
  refine ⟨⟨⟨by decide, by decide⟩, fun _ m p hm hp => ?_⟩, ?_⟩
  · obtain rfl : smallModel = m := some.inj hm
    obtain rfl : init 9 8 1 (fun _ => 0) = p := some.inj hp
    decide +kernel
  · rintro _ ⟨⟩
    exact ⟨⟨⟨by decide, by decide⟩, nofun⟩, fun _ _ => trivial⟩

def twiceOps : List Op := [.registerModel smallModel, .loadModel "A" 1 4 true, .loadModel "A" 1 4 true]

/-- The manager after the first of the two loads. -/
def onceLoaded (total : Nat) : VRAMManager :=
  ((VRAMManager.mock total).step .reliable (.registerModel smallModel)).step .reliable (.loadModel "A" 1 4 true)

/-- The second load gives the fingerprint a second region; where there is no room for one, it gives the group the address 1,
although the model fits the pool. Both loads succeed. -/
theorem loading_twice_goes_wrong :
    EachStep (serve .reliable) Allowed (.mock 8) twiceOps ∧
      ¬EachStep (serve .reliable) (Right .reliable fun _ => 8) (.mock 8) twiceOps ∧
      ((onceLoaded 8).loadModel .reliable "A" 1 4 true).1 = .ok [11] [2] ∧
      ((onceLoaded 2).loadModel .reliable "A" 1 4 true).1 = .ok [fakeAddr] [BitVec.ofInt 64 (-2)] := by
  refine ⟨?_, ?_, by decide +kernel, by decide +kernel⟩
  · refine ⟨smallModel_allowed 8, ?_⟩
    rintro _ ⟨⟩
    refine ⟨⟨by decide, by decide⟩, ?_⟩
    rintro _ ⟨⟩
    exact ⟨⟨by decide, by decide⟩, fun _ _ => trivial⟩
  · intro h
    have hla := ((h.2 _ rfl).2 _ rfl).1
    have hpo : (((onceLoaded 8).loadModel .reliable "A" 1 4 true).2.gpuTensorPools 1).any (fun q => ¬Unique q) = true := by
      decide +kernel
    obtain ⟨q, hq, hb⟩ := (Option.any_eq_true _ _).1 hpo
    rw [decide_eq_true_eq] at hb
    exact hb (hla smallModel q rfl hq).1

end MockAllocation

end ServerlessLLM
