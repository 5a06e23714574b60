import ServerlessLLM.Vmm.Lemmas.LedgerOps

/-!
# Eviction

`ReleaseStablePage` and `EnsurePages`.
-/

namespace ServerlessLLM.Vmm.Pool

open List Dict

variable {S : Surroundings} {p p' p'' : Pool} {model model' : String} {page page' id : Nat} {inflight : List (PageAddr × Nat)}
  {lost : List Nat} {protectedFps : List String} {pages : Nat}

structure SameKV (p p' : Pool) : Prop where
  granularity : p'.granularity = p.granularity
  capacity : p'.pageCapacity = p.pageCapacity
  kvVaBase : p'.kvVaBase = p.kvVaBase
  kvVaSlots : p'.kvVaSlots = p.kvVaSlots
  kvBlocks : p'.kvBlocks = p.kvBlocks
  legacyKv : p'.legacyKv = p.legacyKv
  bindings : p'.bindingAliases = p.bindingAliases
  shapes : p'.shapes = p.shapes
  driverRanges : p.driver.ranges ≤ p'.driver.ranges
  memory : p'.driver.memory = p.driver.memory

namespace SameKV

theorem refl (p : Pool) : SameKV p p := ⟨rfl, rfl, rfl, rfl, rfl, rfl, rfl, rfl, Nat.le_refl _, rfl⟩

theorem trans (h : SameKV p p') (h' : SameKV p' p'') : SameKV p p'' where
  granularity := h'.granularity.trans h.granularity
  capacity := h'.capacity.trans h.capacity
  kvVaBase := h'.kvVaBase.trans h.kvVaBase
  kvVaSlots := h'.kvVaSlots.trans h.kvVaSlots
  kvBlocks := h'.kvBlocks.trans h.kvBlocks
  legacyKv := h'.legacyKv.trans h.legacyKv
  bindings := h'.bindings.trans h.bindings
  shapes := h'.shapes.trans h.shapes
  driverRanges := h.driverRanges.trans h'.driverRanges
  memory := h'.memory.trans h.memory

end SameKV

theorem SameTables.sameKV (h : SameTables p p') : SameKV p p' where
  granularity := h.granularity
  capacity := h.capacity
  kvVaBase := h.kvVaBase
  kvVaSlots := h.kvVaSlots
  kvBlocks := h.kvBlocks
  legacyKv := h.legacyKv
  bindings := h.bindings
  shapes := by
    unfold shapes
    rw [h.stableWeights]
  driverRanges := h.driverRanges
  memory := h.memory

/-! ## `ReleaseStablePage` -/

theorem releaseStablePage_of_none (h : p.extentOf model page = none) : p.releaseStablePage model page = p := by
  unfold releaseStablePage
  rw [h]

theorem releaseStablePage_of_some (h : p.extentOf model page = some id) : p.releaseStablePage model page =
    { ((p.withDriver (p.driver.cuMemUnmap (p.pageAddr model page))).returnExtent id).setExtent model page none with
      usedPages := p.usedPages - 1 } := by
  unfold releaseStablePage
  rw [h]
  have hdrv : (p.withDriver (p.driver.cuMemUnmap (p.pageAddr model page))).extentOf model page = some id := h
  unfold releaseStablePageMetadata
  rw [hdrv]
  rfl

theorem sameKV_releaseStablePage (p : Pool) (model : String) (page : Nat) : SameKV p (p.releaseStablePage model page) := by
  cases h : p.extentOf model page with
  | none =>
    rw [releaseStablePage_of_none h]
    exact SameKV.refl p
  | some id =>
    rw [releaseStablePage_of_some h]
    exact ⟨rfl, rfl, rfl, rfl, rfl, rfl, rfl, shapes_setExtent p model page none, Nat.le_refl _, rfl⟩

theorem weights_releaseStablePage (p : Pool) (model : String) (page : Nat) :
    (p.releaseStablePage model page).weights = p.weights := by
  cases h : p.extentOf model page with
  | none => rw [releaseStablePage_of_none h]
  | some id => rw [releaseStablePage_of_some h]; rfl

theorem log_releaseStablePage (p : Pool) (model : String) (page : Nat) : (p.releaseStablePage model page).log = p.log := by
  cases h : p.extentOf model page with
  | none => rw [releaseStablePage_of_none h]
  | some id => rw [releaseStablePage_of_some h]; rfl

theorem extentOf_releaseStablePage (p : Pool) (model model' : String) (page page' : Nat) :
    (p.releaseStablePage model page).extentOf model' page' =
      if model' = model ∧ page' = page then none else p.extentOf model' page' := by
  cases h : p.extentOf model page with
  | none =>
    rw [releaseStablePage_of_none h]
    split
    · rename_i heq
      rw [heq.1, heq.2, h]
    · rfl
  | some id =>
    rw [releaseStablePage_of_some h]
    have hlt := lt_arenaPages_of_extentOf h
    have hset := extentOf_setExtent p model model' page page' none
    simp only [hlt, and_true] at hset
    exact hset

theorem Sound.releaseStablePage (h : Sound p inflight lost) (model : String) (page : Nat) :
    Sound (p.releaseStablePage model page) inflight lost := by
  cases hid : p.extentOf model page with
  | none => rwa [releaseStablePage_of_none hid]
  | some id =>
    rw [releaseStablePage_of_some hid]
    refine h.drop ⟨rfl, arenas_congr (shapes_setExtent p model page none), rfl, ?_, Nat.le_refl _, rfl, rfl⟩ rfl rfl rfl rfl ?_
    · have hars := arenas_congr (shapes_setExtent p model page none)
      exact congrArg (fun l => p.kvVaBase :: (l.map Prod.snd ++ _)) hars
    · exact ((stableHeld_setExtent_none hid).append_right _).append_right _

theorem Sound.releaseStablePages (h : Sound p inflight lost) (model : String) (l : List Nat) :
    Sound (p.releaseStablePages model l) inflight lost := by
  unfold Pool.releaseStablePages
  induction l generalizing p with
  | nil => exact h
  | cons page l ih => exact ih (h.releaseStablePage model page)

theorem sameKV_releaseStablePages (p : Pool) (model : String) (l : List Nat) : SameKV p (p.releaseStablePages model l) := by
  unfold releaseStablePages
  induction l generalizing p with
  | nil => exact SameKV.refl p
  | cons page l ih => exact (sameKV_releaseStablePage p model page).trans (ih _)

theorem log_releaseStablePages (p : Pool) (model : String) (l : List Nat) : (p.releaseStablePages model l).log = p.log := by
  unfold releaseStablePages
  induction l generalizing p with
  | nil => rfl
  | cons page l ih => exact (ih _).trans (log_releaseStablePage p model page)

theorem weights_releaseStablePages (p : Pool) (model : String) (l : List Nat) :
    (p.releaseStablePages model l).weights = p.weights := by
  unfold releaseStablePages
  induction l generalizing p with
  | nil => rfl
  | cons page l ih => exact (ih _).trans (weights_releaseStablePage p model page)

theorem extentOf_releaseStablePages (p : Pool) (model model' : String) (l : List Nat) (page' : Nat) :
    (p.releaseStablePages model l).extentOf model' page' =
      if model' = model ∧ page' ∈ l then none else p.extentOf model' page' := by
  unfold releaseStablePages
  induction l generalizing p with
  | nil => simp
  | cons page l ih =>
    rw [foldl_cons, ih, extentOf_releaseStablePage]
    by_cases hm : model' = model
    · by_cases hp : page' = page
      · simp [hm, hp]
      · simp [hm, hp]
    · simp [hm]

/-! ## Victims -/

/-- A victim that `EnsurePages` may choose. -/
def MayEvict (p : Pool) (protectedFps : List String) : Victim → Prop
  | .stable model page => model ∉ protectedFps ∧ ∃ id, p.extentOf model page = some id
  | .weight fp => fp ∉ protectedFps ∧ ∃ a, p.weights.get? fp = some a

structure Searching (p : Pool) (protectedFps : List String) (s : Search) : Prop where
  found : ∀ v ∈ s.victim, p.MayEvict protectedFps v
  fresh : s.victim = none → s.best = none

theorem Searching.weighWeight {s : Search} (h : Searching p protectedFps s) {e : String × Allocation}
    (he : e ∈ p.weights.entries) :
    Searching p protectedFps (p.weighWeight protectedFps s e) ∧
      ((p.weighWeight protectedFps s e).victim = none → s.victim = none ∧ e.1 ∈ protectedFps) := by
  unfold Pool.weighWeight
  split
  · rename_i hprt
    exact ⟨h, fun hno => ⟨hno, hprt⟩⟩
  · rename_i hfe
    simp only
    split
    · refine ⟨⟨?_, by simp⟩, by simp⟩
      rintro v ⟨⟩
      exact ⟨hfe, e.2, mem_entries_iff.1 he⟩
    · rename_i hbelow
      refine ⟨h, fun hno => absurd ?_ hbelow⟩
      unfold Search.below
      rw [h.fresh hno]
      simp

theorem Searching.weighPage {s : Search} (h : Searching p protectedFps s) {arena : StableWeightArena}
    (ha : p.stableWeights.get? model = some arena) (hm : model ∉ protectedFps) (page : Nat) :
    Searching p protectedFps (p.weighPage model arena s page) ∧
      ((p.weighPage model arena s page).victim = none → s.victim = none ∧ p.extentOf model page = none) := by
  have hext : p.extentOf model page = arena.physicalExtentIds.getD page none := by
    unfold extentOf
    rw [ha]
    rfl
  unfold Pool.weighPage
  cases hid : arena.physicalExtentIds.getD page none with
  | none => exact ⟨h, fun hno => ⟨hno, hext.trans hid⟩⟩
  | some id =>
    simp only
    split
    · refine ⟨⟨?_, by simp⟩, by simp⟩
      rintro v ⟨⟩
      exact ⟨hm, id, hext.trans hid⟩
    · rename_i hbelow
      refine ⟨h, fun hno => absurd (Or.inl ?_) hbelow⟩
      unfold Search.below
      rw [h.fresh hno]
      simp

variable {s : Search} {fp : String} {a : Allocation}

theorem Searching.weighPages (h : Searching p protectedFps s) {arena : StableWeightArena}
    (ha : p.stableWeights.get? model = some arena) (hm : model ∉ protectedFps) (l : List Nat) :
    Searching p protectedFps (l.foldl (p.weighPage model arena) s) ∧
      ((l.foldl (p.weighPage model arena) s).victim = none → s.victim = none ∧ ∀ page ∈ l, p.extentOf model page = none) := by
  induction l generalizing s with
  | nil => exact ⟨h, fun hno => ⟨hno, by simp⟩⟩
  | cons page l ih =>
    obtain ⟨hst, hno⟩ := h.weighPage ha hm page
    obtain ⟨hrs, hno'⟩ := ih hst
    refine ⟨hrs, ?_⟩
    intro hv
    obtain ⟨hs, hl⟩ := hno' hv
    obtain ⟨hs', hp⟩ := hno hs
    refine ⟨hs', ?_⟩
    intro page' hpg'
    rcases mem_cons.1 hpg' with rfl | hmem
    · exact hp
    · exact hl page' hmem

theorem Searching.weighWeights (h : Searching p protectedFps s) {l : List (String × Allocation)}
    (hl : ∀ e ∈ l, e ∈ p.weights.entries) :
    Searching p protectedFps (l.foldl (p.weighWeight protectedFps) s) ∧
      ((l.foldl (p.weighWeight protectedFps) s).victim = none → s.victim = none ∧ ∀ e ∈ l, e.1 ∈ protectedFps) := by
  induction l generalizing s with
  | nil => exact ⟨h, fun hno => ⟨hno, by simp⟩⟩
  | cons e l ih =>
    obtain ⟨hst, hno⟩ := h.weighWeight (hl e mem_cons_self)
    obtain ⟨hrs, hno'⟩ := ih hst fun e' he' => hl e' (mem_cons_of_mem _ he')
    refine ⟨hrs, ?_⟩
    intro hv
    obtain ⟨hs, hl'⟩ := hno' hv
    obtain ⟨hs', hp⟩ := hno hs
    refine ⟨hs', ?_⟩
    intro e' he'
    rcases mem_cons.1 he' with rfl | hmem
    · exact hp
    · exact hl' e' hmem

theorem Searching.weighArenas (h : Searching p protectedFps s) {l : List (String × StableWeightArena)}
    (hl : ∀ e ∈ l, e ∈ p.stableWeights.entries) :
    Searching p protectedFps (l.foldl (p.weighArena protectedFps) s) ∧
      ((l.foldl (p.weighArena protectedFps) s).victim = none →
        s.victim = none ∧ ∀ e ∈ l, e.1 ∉ protectedFps → ∀ page < e.2.physicalExtentIds.length, p.extentOf e.1 page = none) := by
  induction l generalizing s with
  | nil => exact ⟨h, fun hno => ⟨hno, by simp⟩⟩
  | cons e l ih =>
    have hst : Searching p protectedFps (p.weighArena protectedFps s e) ∧ ((p.weighArena protectedFps s e).victim = none →
        s.victim = none ∧ (e.1 ∉ protectedFps → ∀ page < e.2.physicalExtentIds.length, p.extentOf e.1 page = none)) := by
      unfold Pool.weighArena
      split
      · rename_i hm
        exact ⟨h, fun hno => ⟨hno, fun hfe => absurd hm hfe⟩⟩
      · rename_i hm
        obtain ⟨hs, hno⟩ := h.weighPages (mem_entries_iff.1 (hl e mem_cons_self)) hm (range e.2.physicalExtentIds.length)
        exact ⟨hs, fun hv => ⟨(hno hv).1, fun _ page hp => (hno hv).2 page (mem_range.2 hp)⟩⟩
    obtain ⟨hrs, hno'⟩ := ih hst.1 fun e' he' => hl e' (mem_cons_of_mem _ he')
    refine ⟨hrs, ?_⟩
    intro hv
    obtain ⟨hs, hl'⟩ := hno' hv
    obtain ⟨hs', hp⟩ := hst.2 hs
    refine ⟨hs', ?_⟩
    intro e' he'
    rcases mem_cons.1 he' with rfl | hmem
    · exact hp
    · exact hl' e' hmem

theorem findVictim_spec (S : Surroundings) (p : Pool) (protectedFps : List String) :
    (∀ v ∈ p.findVictim S protectedFps, p.MayEvict protectedFps v) ∧
      (p.findVictim S protectedFps = none → p.reclaimableHeld protectedFps = []) := by
  have hstart : Searching p protectedFps ⟨none, 2 ^ 64 - 1, none⟩ := ⟨by simp, fun _ => rfl⟩
  obtain ⟨hwts, hnoWeights⟩ := hstart.weighWeights fun e he => (S.visit_perm p.weights.entries).mem_iff.1 he
  obtain ⟨hars, hnoArenas⟩ := hwts.weighArenas fun e he => (S.visit_perm p.stableWeights.entries).mem_iff.1 he
  refine ⟨hars.found, ?_⟩
  intro hno
  obtain ⟨hs, hnoPages⟩ := hnoArenas hno
  unfold reclaimableHeld
  rw [append_eq_nil_iff]
  constructor
  · unfold stableHeldOf
    rw [flatMap_eq_nil_iff]
    intro e he
    obtain ⟨hmem, hfe⟩ := mem_filter.1 he
    have hpgs := hnoPages e ((S.visit_perm _).mem_iff.2 hmem) (of_decide_eq_true hfe)
    unfold StableWeightArena.held
    rw [filterMap_eq_nil_iff]
    rintro ⟨x, page⟩ hx
    rw [mk_mem_zipIdx_iff_getElem?] at hx
    have hext := hpgs page (List.getElem?_eq_some_iff.1 hx).1
    cases x with
    | none => rfl
    | some id =>
      have hso : p.extentOf e.1 page = some id := extentOf_eq_some_iff.2 ⟨e.2, mem_entries_iff.1 hmem, hx⟩
      rw [hext] at hso
      cases hso
  · unfold weightsHeldOf
    rw [flatMap_eq_nil_iff]
    intro e he
    obtain ⟨hmem, hfe⟩ := mem_filter.1 he
    exact absurd ((hnoWeights hs).2 e ((S.visit_perm _).mem_iff.2 hmem)) (of_decide_eq_true hfe)

/-! ## `EnsurePages` -/

structure Evicted (protectedFps : List String) (p p' : Pool) : Prop extends SameKV p p' where
  log : p'.log = p.log
  shrinks : ∀ m page id, p'.extentOf m page = some id → p.extentOf m page = some id
  keeps : ∀ m ∈ protectedFps, ∀ page, p'.extentOf m page = p.extentOf m page
  weights : ∀ e ∈ p'.weights.entries, e ∈ p.weights.entries
  sum : p'.freePages + (p'.reclaimableHeld protectedFps).length = p.freePages + (p.reclaimableHeld protectedFps).length

theorem Evicted.refl (protectedFps : List String) (p : Pool) : Evicted protectedFps p p :=
  ⟨SameKV.refl p, rfl, fun _ _ _ h => h, fun _ _ _ => rfl, fun _ h => h, rfl⟩

theorem Evicted.trans (h : Evicted protectedFps p p') (h' : Evicted protectedFps p' p'') : Evicted protectedFps p p'' where
  toSameKV := h.toSameKV.trans h'.toSameKV
  log := h'.log.trans h.log
  shrinks m page id hid := h.shrinks m page id (h'.shrinks m page id hid)
  keeps m hm page := (h'.keeps m hm page).trans (h.keeps m hm page)
  weights e he := h.weights e (h'.weights e he)
  sum := h'.sum.trans h.sum

theorem Sound.usedPages_le (h : Sound p inflight lost) : p.usedPages ≤ p.pageCapacity := by
  have hlen := h.accounts.length
  rw [length_append, length_map, ← h.used] at hlen
  omega

theorem freePages_add_reclaimable (removed : List (PageAddr × Nat)) (h : Sound p inflight lost) (h' : Sound p' inflight lost)
    (hc : p'.pageCapacity = p.pageCapacity) (hhe : p.held.Perm (removed ++ p'.held))
    (hrcl : (p.reclaimableHeld protectedFps).Perm (removed ++ p'.reclaimableHeld protectedFps)) :
    p'.freePages + (p'.reclaimableHeld protectedFps).length = p.freePages + (p.reclaimableHeld protectedFps).length := by
  have hle := h.usedPages_le
  have hle' := h'.usedPages_le
  have hused := h.used
  have hused' := h'.used
  rw [length_append] at hused hused'
  rw [hhe.length_eq, length_append] at hused
  rw [hrcl.length_eq, length_append]
  unfold freePages
  omega

theorem evictable_eq (p : Pool) : p.evictable = p.stableHeld.length + p.weights.entries.length := by
  unfold evictable stableHeld
  rw [length_flatMap]
  refine congrArg (fun l : List Nat => l.sum + p.weights.entries.length) (map_congr_left ?_)
  intro e _
  exact (StableWeightArena.length_held e.2).symm

/-- The pool without the weights `fp`. -/
def withoutWeights (p : Pool) (fp : String) : Pool := { p with weights := p.weights.erase fp }

theorem weights_perm (h : p.weights.get? fp = some a) (keep : String → Bool) (hkeep : keep fp = true) :
    (p.weightsHeldOf keep).Perm (a.held ++ (p.withoutWeights fp).weightsHeldOf keep) := by
  unfold weightsHeldOf
  refine (((entries_perm_erase h).filter _).flatMap_right _).trans ?_
  rw [filter_cons_of_pos (p := fun e : String × Allocation => keep e.1) hkeep, flatMap_cons]
  exact List.Perm.refl _

theorem weightsHeldOf_true (p : Pool) : (p.weightsHeldOf fun _ => true) = p.weights.entries.flatMap fun e => e.2.held := by
  unfold weightsHeldOf
  rw [filter_eq_self.2 fun _ _ => rfl]

theorem held_erase_weights (h : p.weights.get? fp = some a) : p.held.Perm (a.held ++ (p.withoutWeights fp).held) := by
  have hpm := weights_perm h (fun _ => true) rfl
  rw [weightsHeldOf_true, weightsHeldOf_true] at hpm
  unfold held allocationHeld
  refine ((hpm.append_right _).append_left _).trans ?_
  rw [append_assoc]
  exact perm_append_comm_assoc _ _ _

theorem Sound.eraseWeights (h : Sound p inflight lost) (ha : p.weights.get? fp = some a) :
    Sound (p.withoutWeights fp) (a.held ++ inflight) lost := by
  have hsub : List.Sublist (p.withoutWeights fp).ranges p.ranges := by
    unfold ranges
    refine (List.Sublist.append_left ?_ _).cons_cons _
    exact List.Sublist.append_right (List.Sublist.map _ filter_sublist) _
  refine h.retable rfl rfl rfl rfl rfl ?_ rfl (h.ranges_nodup.sublist hsub)
    (fun r hr => h.ranges_le r (hsub.subset hr)) h.kvRange
    h.bound
  refine ((held_erase_weights ha).append_right _).trans ?_
  rw [append_assoc]
  exact perm_append_comm_assoc _ _ _

theorem evict_weight (h : p.weights.get? fp = some a) : p.evict (.weight fp) = (p.withoutWeights fp).release a := by
  unfold evict
  simp only [h]
  exact (release_update (fun q => { q with weights := q.weights.erase fp }) (fun _ _ _ => rfl) p a).symm

theorem evict_spec {v : Victim} (h : Sound p inflight lost) (hv : p.MayEvict protectedFps v) :
    Sound (p.evict v) inflight lost ∧ Evicted protectedFps p (p.evict v) ∧ (p.evict v).evictable < p.evictable := by
  cases v with
  | stable model page =>
    obtain ⟨hm, id, hid⟩ := hv
    have hsnd := h.releaseStablePage model page
    have hkeep : decide (model ∉ protectedFps) = true := decide_eq_true hm
    have hrls := releaseStablePage_of_some hid
    have hstb : p.stableHeld.Perm ((p.pageAddr model page, id) :: (p.releaseStablePage model page).stableHeld) := by
      rw [hrls]
      exact stableHeld_setExtent_none hid
    have hrcl : (p.stableHeldOf (· ∉ protectedFps)).Perm
        ((p.pageAddr model page, id) :: (p.releaseStablePage model page).stableHeldOf (· ∉ protectedFps)) := by
      rw [hrls]
      exact stableHeldOf_setExtent_none hid hkeep
    have hkv := sameKV_releaseStablePage p model page
    have hwts := weights_releaseStablePage p model page
    have hallocations : (p.releaseStablePage model page).allocationHeld = p.allocationHeld := by
      unfold allocationHeld
      rw [hwts, hkv.kvBlocks, hkv.legacyKv]
    refine ⟨hsnd, ⟨hkv, log_releaseStablePage p model page, ?_, ?_, ?_, ?_⟩, ?_⟩
    · intro m page' id' hid'
      change (p.releaseStablePage model page).extentOf m page' = some id' at hid'
      rw [extentOf_releaseStablePage] at hid'
      split at hid'
      · cases hid'
      · exact hid'
    · intro m hm' page'
      refine (extentOf_releaseStablePage p model m page page').trans (if_neg ?_)
      rintro ⟨rfl, -⟩
      exact hm hm'
    · intro e he
      change e ∈ (p.releaseStablePage model page).weights.entries at he
      rwa [hwts] at he
    · refine freePages_add_reclaimable [(p.pageAddr model page, id)] h hsnd hkv.capacity ?_ ?_
      · unfold held
        change _ = _ at hallocations
        rw [evict, hallocations]
        exact hstb.append_right _
      · unfold reclaimableHeld weightsHeldOf
        rw [evict, hwts]
        exact hrcl.append_right _
    · rw [evictable_eq, evictable_eq, hstb.length_eq, evict, hwts, length_cons]
      omega
  | weight fp =>
    obtain ⟨hfp, a, ha⟩ := hv
    have hrng : a.va.range ≠ 0 := by
      refine Nat.pos_iff_ne_zero.1 (h.ranges_le a.va.range ?_).1
      unfold ranges
      refine mem_cons_of_mem _ (mem_append_right _ (mem_append_left _ ?_))
      exact mem_map.2 ⟨(fp, a), mem_entries_iff.2 ha, rfl⟩
    have hkeep : decide (fp ∉ protectedFps) = true := decide_eq_true hfp
    have hsnd : Sound (p.evict (.weight fp)) inflight lost := by
      rw [evict_weight ha]
      exact (h.eraseWeights ha).release hrng
    have htab := sameTables_release (p.withoutWeights fp) a
    have hext : ∀ m page, (p.evict (.weight fp)).extentOf m page = p.extentOf m page := by
      intro m page
      unfold extentOf
      rw [evict_weight ha, htab.stableWeights]
      rfl
    have hkv : SameKV p (p.evict (.weight fp)) := by
      rw [evict_weight ha]
      have hsa : SameKV p (p.withoutWeights fp) := ⟨rfl, rfl, rfl, rfl, rfl, rfl, rfl, rfl, Nat.le_refl _, rfl⟩
      exact hsa.trans htab.sameKV
    refine ⟨hsnd, ⟨hkv, ?_, ?_, fun m _ page => hext m page, ?_, ?_⟩, ?_⟩
    · rw [evict_weight ha, log_release]
      rfl
    · intro m page id hid
      rwa [hext] at hid
    · intro e he
      rw [evict_weight ha, htab.weights] at he
      exact (mem_filter.1 he).1
    · refine freePages_add_reclaimable a.held h hsnd hkv.capacity ?_ ?_
      · rw [evict_weight ha, htab.held]
        exact held_erase_weights ha
      · unfold reclaimableHeld stableHeldOf
        rw [evict_weight ha, htab.stableWeights]
        unfold weightsHeldOf
        rw [htab.weights]
        refine ((weights_perm ha (· ∉ protectedFps) hkeep).append_left _).trans ?_
        exact perm_append_comm_assoc _ _ _
    · have hlt := length_erase_lt ha
      rw [evictable_eq, evictable_eq, evict_weight ha]
      unfold stableHeld
      rw [htab.stableWeights, htab.weights]
      exact Nat.add_lt_add_left hlt _

theorem ensurePagesLoop_spec (S : Surroundings) (pages : Nat) (protectedFps : List String) {fuel : Nat}
    (h : Sound p inflight lost)
    (hfuel : p.evictable < fuel) :
    ∃ b p', ensurePagesLoop S pages protectedFps fuel p = (b, p') ∧ Sound p' inflight lost ∧ Evicted protectedFps p p' ∧
      (b = true → pages ≤ p'.freePages) ∧ (b = false → p'.freePages < pages ∧ p'.reclaimableHeld protectedFps = []) := by
  induction fuel generalizing p with
  | zero => cases hfuel
  | succ fuel ih =>
    unfold ensurePagesLoop
    split
    · rename_i hlt
      obtain ⟨hfnd, hno⟩ := findVictim_spec S p protectedFps
      cases hv : p.findVictim S protectedFps with
      | none => exact ⟨false, p, rfl, h, Evicted.refl _ p, by simp, fun _ => ⟨hlt, hno hv⟩⟩
      | some v =>
        obtain ⟨hsnd, hev, hless⟩ := evict_spec h (hfnd v hv)
        obtain ⟨b, p', heq, hsnd', hev', hres⟩ := ih hsnd (by omega)
        exact ⟨b, p', heq, hsnd', hev.trans hev', hres⟩
    · rename_i hge
      exact ⟨true, p, rfl, h, Evicted.refl _ p, fun _ => Nat.le_of_not_lt hge, by simp⟩

theorem ensurePages_spec (S : Surroundings) (pages : Nat) (protectedFps : List String) (h : Sound p inflight lost) :
    ∃ b p', p.ensurePages S pages protectedFps = (b, p') ∧ Sound p' inflight lost ∧ Evicted protectedFps p p' ∧
      (b = true ↔ pages ≤ p.freePages + (p.reclaimableHeld protectedFps).length) ∧ (b = true → pages ≤ p'.freePages) := by
  obtain ⟨b, p', heq, hsnd, hev, htrue, hfal⟩ := ensurePagesLoop_spec S pages protectedFps h (Nat.lt_succ_self _)
  refine ⟨b, p', heq, hsnd, hev, ⟨?_, ?_⟩, htrue⟩
  · intro hb
    have := htrue hb
    have := hev.sum
    omega
  · intro hle
    by_contra hb
    obtain ⟨hlt, hnil⟩ := hfal (by simpa using hb)
    have hsum := hev.sum
    rw [hnil, length_nil] at hsum
    omega

end ServerlessLLM.Vmm.Pool

/-! ## The pages of the model arenas -/

namespace ServerlessLLM.Vmm.Pool

open List

variable {S : Surroundings} {p p' : Pool} {model : String} {page id : Nat} {inflight : List (PageAddr × Nat)} {lost : List Nat}
  {protectedModels : List String}

theorem like_touchPage (p : Pool) (model : String) (page : Nat) : Like p (p.touchPage model page) := by
  have hars := arenas_congr (shapes_touchPage p model page)
  refine ⟨⟨rfl, hars, rfl, ?_, Nat.le_refl _, rfl, rfl⟩, rfl, rfl, rfl, ?_, rfl⟩
  · exact congrArg (fun l => p.kvVaBase :: (l.map Prod.snd ++ _)) hars
  · have hhe : (p.touchPage model page).stableHeld = p.stableHeld := by
      have hmap := Dict.map_entries_modify p.stableWeights model
        (fun arena => { arena with lastAccess := arena.lastAccess.set page (p.clock + 1) }) (fun e => e.2.held) fun _ => rfl
      unfold stableHeld touchPage
      rw [flatMap_eq_foldl, ← flatMap_eq_foldl, flatMap, flatMap, hmap]
    exact congrArg (· ++ p.allocationHeld) hhe

theorem sameKV_touchPage (p : Pool) (model : String) (page : Nat) : SameKV p (p.touchPage model page) :=
  ⟨rfl, rfl, rfl, rfl, rfl, rfl, rfl, shapes_touchPage p model page, Nat.le_refl _, rfl⟩

theorem acquirePhysicalExtent_spec (h : p.acquirePhysicalExtent = some (id, p')) :
    p.freeExtentIds = id :: p'.freeExtentIds ∧ SameTables p p' ∧ p'.driver = p.driver ∧ p'.log = p.log ∧
      p'.usedPages = p.usedPages := by
  unfold acquirePhysicalExtent at h
  split at h
  · cases h
  · rename_i hfe
    obtain ⟨rfl, rfl⟩ := Prod.mk.inj (Option.some.inj h)
    exact ⟨hfe, ⟨rfl, rfl, rfl, rfl, rfl, rfl, rfl, rfl, rfl, Nat.le_refl _, rfl⟩, rfl, rfl, rfl⟩

theorem SameTables.extentOf (h : SameTables p p') (model : String) (page : Nat) : p'.extentOf model page =
    p.extentOf model page := by
  unfold Pool.extentOf
  rw [h.stableWeights]

/-! ## `MapStablePages` -/

/-- What the loop of `MapStablePages` leaves: some pages that had no extent have one, and the rest is as before. -/
structure Mapped (model : String) (requested added : List Nat) (p p' : Pool) : Prop extends SameKV p p' where
  weights : p'.weights = p.weights
  log : p'.log = p.log
  nodup : added.Nodup
  fresh : ∀ page ∈ added, page ∈ requested ∧ p.extentOf model page = none ∧ p'.extentOf model page ≠ none
  others : ∀ m page, ¬(m = model ∧ page ∈ added) → p'.extentOf m page = p.extentOf m page

theorem Mapped.nil (model : String) (requested : List Nat) (h : SameKV p p') (hwts : p'.weights = p.weights)
    (hlog : p'.log = p.log) (hext : ∀ m page, p'.extentOf m page = p.extentOf m page) : Mapped model requested [] p p' :=
  ⟨h, hwts, hlog, nodup_nil, by simp, fun m page _ => hext m page⟩

theorem Mapped.cons {p₁ : Pool} {requested added : List Nat} (h : SameKV p p₁) (hwts : p₁.weights = p.weights)
    (hlog : p₁.log = p.log)
    (hno : p.extentOf model page = none) (hso : p₁.extentOf model page ≠ none)
    (hoth : ∀ m page', ¬(m = model ∧ page' = page) → p₁.extentOf m page' = p.extentOf m page')
    (h' : Mapped model requested added p₁ p') : Mapped model (page :: requested) (page :: added) p p' where
  toSameKV := h.trans h'.toSameKV
  weights := h'.weights.trans hwts
  log := h'.log.trans hlog
  nodup := nodup_cons.2 ⟨fun hmem => hso (h'.fresh page hmem).2.1, h'.nodup⟩
  fresh := by
    have hnot : page ∉ added := fun hmem => hso (h'.fresh page hmem).2.1
    intro page' hmem
    rcases mem_cons.1 hmem with rfl | hmem
    · refine ⟨mem_cons_self, hno, ?_⟩
      rwa [h'.others model page' fun hboth => hnot hboth.2]
    · obtain ⟨hreq, hfr, hres⟩ := h'.fresh page' hmem
      refine ⟨mem_cons_of_mem _ hreq, ?_, hres⟩
      rwa [hoth model page' fun hboth => hnot (hboth.2 ▸ hmem)] at hfr
  others := by
    intro m page' hboth
    rw [h'.others m page' fun hb => hboth ⟨hb.1, mem_cons_of_mem _ hb.2⟩]
    exact hoth m page' fun hb => hboth ⟨hb.1, hb.2 ▸ mem_cons_self⟩

theorem Mapped.touch {requested added : List Nat} (hext : p.extentOf model page ≠ none)
    (h : Mapped model requested added (p.touchPage model page) p') :
    Mapped model (page :: requested) added p p' ∧ p'.extentOf model page ≠ none := by
  refine ⟨⟨(sameKV_touchPage p model page).trans h.toSameKV, h.weights, h.log, h.nodup, ?_, ?_⟩, ?_⟩
  · intro page' hp
    obtain ⟨hreq, hno, hso⟩ := h.fresh page' hp
    rw [extentOf_touchPage] at hno
    exact ⟨mem_cons_of_mem _ hreq, hno, hso⟩
  · intro m page' hb
    rw [h.others m page' hb, extentOf_touchPage]
  · by_cases hadded : page ∈ added
    · exact (h.fresh page hadded).2.2
    · rw [h.others model page fun hb => hadded hb.2, extentOf_touchPage]
      exact hext

def withPage (p : Pool) (model : String) (page id : Nat) : Pool :=
  { (p.withDriver { p.driver.called with mapped := p.driver.mapped.set (p.pageAddr model page) (.extent id) }).setExtent
      model page (some id) with usedPages := p.usedPages + 1 }

theorem shapes_withPage (p : Pool) (model : String) (page id : Nat) : (p.withPage model page id).shapes = p.shapes :=
  shapes_setExtent p model page (some id)

theorem sameKV_withPage (p : Pool) (model : String) (page id : Nat) : SameKV p (p.withPage model page id) :=
  ⟨rfl, rfl, rfl, rfl, rfl, rfl, rfl, shapes_withPage p model page id, Nat.le_refl _, rfl⟩

theorem extentOf_withPage (hpg : page < p.arenaPages model) (id : Nat) (m : String) (page' : Nat) :
    (p.withPage model page id).extentOf m page' = if m = model ∧ page' = page then some id else p.extentOf m page' := by
  have hset := extentOf_setExtent p model m page page' (some id)
  simp only [hpg, and_true] at hset
  exact hset

theorem Sound.withPage (h : Sound p inflight (id :: lost)) (hpg : page < p.arenaPages model)
    (hno : p.extentOf model page = none)
    (hunm : p.driver.mapped.get? (p.pageAddr model page) = none) : Sound (p.withPage model page id) inflight lost := by
  have hars := arenas_congr (shapes_withPage p model page id)
  refine h.add ⟨rfl, hars, rfl, ?_, Nat.le_refl _, rfl, rfl⟩ rfl rfl rfl hunm rfl ?_
  · exact congrArg (fun l => p.kvVaBase :: (l.map Prod.snd ++ _)) hars
  · exact ((stableHeld_setExtent_some hno hpg id).append_right _).append_right _

theorem mapRequested_spec (S : Surroundings) (model : String) (l newly : List Nat) (h : Sound p inflight lost)
    (hl : ∀ page ∈ l, page < p.arenaPages model) :
    ∃ fault added p', mapRequested S model l newly p = (fault, newly ++ added, p') ∧ Sound p' inflight lost ∧
      Mapped model l added p p' ∧
      (fault = none → ∀ page ∈ l, p'.extentOf model page ≠ none) ∧
      (l.countP (fun page => p.extentOf model page = none) ≤ p.freeExtentIds.length → ∀ f ∈ fault, ∃ c, f = .cuda c) := by
  induction l generalizing p newly with
  | nil =>
    refine ⟨none, [], p, by rw [append_nil]; rfl, h, Mapped.nil _ _ (SameKV.refl p) rfl rfl fun _ _ => rfl, by simp, by simp⟩
  | cons page l ih =>
    have hl' : ∀ page' ∈ l, page' < p.arenaPages model := fun page' hp => hl page' (mem_cons_of_mem _ hp)
    unfold mapRequested
    cases hext : p.extentOf model page with
    | some id =>
      obtain ⟨fault, added, p', heq, hsnd, hmpd, hres, hflt⟩ := ih newly (h.like (like_touchPage p model page)) (by
        rwa [arenaPages_congr (shapes_touchPage p model page)])
      obtain ⟨hmpd', hthere⟩ := hmpd.touch (by rw [hext]; exact Option.some_ne_none id)
      refine ⟨fault, added, p', heq, hsnd, hmpd', fun hf => forall_mem_cons.2 ⟨hthere, hres hf⟩, fun hcnt => hflt ?_⟩
      simp only [extentOf_touchPage]
      rw [countP_cons_of_neg (by simp [hext])] at hcnt
      exact hcnt
    | none =>
      cases hacq : p.acquirePhysicalExtent with
      | none =>
        refine ⟨_, [], p, by rw [append_nil], h, Mapped.nil _ _ (SameKV.refl p) rfl rfl fun _ _ => rfl, by simp, fun hcnt => ?_⟩
        unfold acquirePhysicalExtent at hacq
        split at hacq
        · rename_i hnil
          rw [hnil, countP_cons_of_pos (by simp [hext])] at hcnt
          cases hcnt
        · cases hacq
      | some r =>
        obtain ⟨id, p₁⟩ := r
        obtain ⟨hfe, htab, hdrv, hlog, hused⟩ := acquirePhysicalExtent_spec hacq
        have h₁ := h.acquire hacq
        simp only
        rcases Driver.cuMemMap_cases S p₁.driver .mapPage (p₁.pageAddr model page) (.extent id) with ⟨hmap, -⟩ | ⟨hunm, hmap⟩
        · -- the extent that was acquired is returned
          rw [hmap]
          have hlike : Like p₁ (p₁.withDriver p₁.driver.called) := like_withDriver p₁ (Nat.le_refl _) rfl
          refine ⟨_, [], _, by rw [append_nil]; rfl, (h₁.like hlike).giveBack, ?_, by simp, fun _ f hf => ?_⟩
          · refine Mapped.nil _ _ ?_ htab.weights hlog fun m page' => htab.extentOf m page'
            exact htab.sameKV.trans ⟨rfl, rfl, rfl, rfl, rfl, rfl, rfl, rfl, Nat.le_refl _, rfl⟩
          · exact ⟨_, (Option.some.inj hf).symm⟩
        · rw [hmap]
          let p₂ : Pool := p₁.withPage model page id
          have hpg : page < p₁.arenaPages model := by
            rw [arenaPages_congr htab.sameKV.shapes]
            exact hl page mem_cons_self
          let p₃ := p₂.withDriver (p₂.driver.cuMemSetAccess S .accessPage).2
          have h₃ : Sound p₃ inflight lost :=
            (h₁.withPage hpg ((htab.extentOf model page).trans hext) hunm).like (like_withDriver p₂ (Nat.le_refl _) rfl)
          have hkv₃ : SameKV p p₃ := (htab.sameKV.trans (sameKV_withPage p₁ model page id)).trans
            ⟨rfl, rfl, rfl, rfl, rfl, rfl, rfl, rfl, Nat.le_refl _, rfl⟩
          have hself : p₃.extentOf model page ≠ none := by
            have hid : p₂.extentOf model page = some id := by rw [extentOf_withPage hpg, if_pos ⟨rfl, rfl⟩]
            exact fun hno => Option.some_ne_none id (hid.symm.trans hno)
          have hoth : ∀ m page', ¬(m = model ∧ page' = page) → p₃.extentOf m page' = p.extentOf m page' := by
            intro m page' hb
            have hold : p₂.extentOf m page' = p₁.extentOf m page' := by rw [extentOf_withPage hpg, if_neg hb]
            exact hold.trans (htab.extentOf m page')
          by_cases hac : (p₂.driver.cuMemSetAccess S .accessPage).1 = true
          · obtain ⟨fault, added, p', heq, hsnd, hmpd, hres, hflt⟩ :=
              ih (newly ++ [page]) (h₃.like (like_touchPage p₃ model page)) (by
              rwa [arenaPages_congr (shapes_touchPage p₃ model page), arenaPages_congr hkv₃.shapes])
            have hmpd' : Mapped model (page :: l) (page :: added) p p' := by
              refine Mapped.cons (hkv₃.trans (sameKV_touchPage p₃ model page)) htab.weights hlog hext ?_ ?_ hmpd
              · rw [extentOf_touchPage]
                exact hself
              · intro m page' hb
                rw [extentOf_touchPage]
                exact hoth m page' hb
            refine ⟨fault, page :: added, p', ?_, hsnd, hmpd', ?_, fun hcnt => hflt ?_⟩
            · rw [append_assoc] at heq
              refine Eq.trans ?_ heq
              change (if (!(p₂.driver.cuMemSetAccess S .accessPage).1) = true then _ else _) = _
              rw [hac]
              rfl
            · intro hf page' hp
              rcases mem_cons.1 hp with rfl | hp
              · exact (hmpd'.fresh page' mem_cons_self).2.2
              · exact hres hf page' hp
            · rw [hfe, countP_cons_of_pos (by simp [hext]), length_cons] at hcnt
              refine (countP_mono_left ?_).trans (Nat.le_of_succ_le_succ hcnt)
              intro page' _ hno'
              rw [decide_eq_true_eq] at hno' ⊢
              rw [extentOf_touchPage] at hno'
              by_cases hb : page' = page
              · rw [hb]
                exact hext
              · rwa [hoth model page' fun hboth => hb hboth.2] at hno'
          · refine ⟨some (.cuda .accessPage), [page], p₃, ?_, h₃, ?_, by simp, fun _ f hf => ⟨_, (Option.some.inj hf).symm⟩⟩
            · change (if (!(p₂.driver.cuMemSetAccess S .accessPage).1) = true then _ else _) = _
              rw [Bool.not_eq_true] at hac
              rw [hac]
              rfl
            · exact Mapped.cons hkv₃ htab.weights hlog hext hself hoth (Mapped.nil _ _ (SameKV.refl p₃) rfl rfl fun _ _ => rfl)

theorem Sound.freePages (h : Sound p inflight []) : p.freePages = p.freeExtentIds.length := by
  have hlen := h.accounts.length
  rw [append_nil, length_map, ← h.used] at hlen
  unfold Pool.freePages
  omega

theorem mapStablePages_spec (S : Surroundings) (model : String) (requested : List Nat) (protectedModels : List String)
    (h : Sound p inflight lost) :
    ∃ r p', p.mapStablePages S model requested protectedModels = (r, p') ∧ Sound p' inflight lost ∧ SameKV p p' ∧
      (lost = [] → model ∈ protectedModels → ∀ f ∈ p'.log, f ∈ p.log ∨ ∃ c, f = .cuda c) ∧
      ∃ p₁, Evicted protectedModels p p₁ ∧ p'.weights = p₁.weights ∧
        (r = none → ∀ m page, p'.extentOf m page = p₁.extentOf m page) ∧
        ∀ newly ∈ r, Mapped model requested newly p₁ p' ∧ ∀ page ∈ requested, p'.extentOf model page ≠ none := by
  have hsa : ∃ r p', ((none, p) : Option (List Nat) × Pool) = (r, p') ∧ Sound p' inflight lost ∧ SameKV p p' ∧
      (lost = [] → model ∈ protectedModels → ∀ f ∈ p'.log, f ∈ p.log ∨ ∃ c, f = .cuda c) ∧
      ∃ p₁, Evicted protectedModels p p₁ ∧ p'.weights = p₁.weights ∧
        (r = none → ∀ m page, p'.extentOf m page = p₁.extentOf m page) ∧
        ∀ newly ∈ r, Mapped model requested newly p₁ p' ∧ ∀ page ∈ requested, p'.extentOf model page ≠ none :=
    ⟨none, p, rfl, h, SameKV.refl p, fun _ _ f hf => .inl hf, p, Evicted.refl _ p, rfl, fun _ _ _ => rfl, by simp⟩
  unfold mapStablePages
  split
  · exact hsa
  · split
    · exact hsa
    · rename_i hpgs
      push Not at hpgs
      obtain ⟨b, p₁, heq, h₁, hev, -, hen⟩ :=
        ensurePages_spec S (requested.countP fun page => p.extentOf model page = none) protectedModels h
      simp only [heq]
      cases b with
      | false => exact ⟨none, p₁, rfl, h₁, hev.toSameKV, fun _ _ f hf => .inl (by rwa [hev.log] at hf), p₁, hev, rfl,
          fun _ _ _ => rfl, by simp⟩
      | true =>
        have hpgs₁ : ∀ page ∈ requested, page < p₁.arenaPages model := by
          intro page hp
          rw [arenaPages_congr hev.shapes]
          exact hpgs page hp
        obtain ⟨fault, added, p', hmap, h', hmpd, hres, hflt⟩ := mapRequested_spec S model requested [] h₁ hpgs₁
        rw [nil_append] at hmap
        simp only [hmap]
        have hlog : p'.log = p.log := hmpd.log.trans hev.log
        cases fault with
        | none =>
          exact ⟨some added, p', rfl, h', hev.toSameKV.trans hmpd.toSameKV, fun _ _ f hf => .inl (by rwa [hlog] at hf), p₁, hev,
            hmpd.weights, by simp, by rintro newly ⟨⟩; exact ⟨hmpd, hres rfl⟩⟩
        | some fault =>
          refine ⟨none, _, rfl, (h'.like (like_logged p' fault)).releaseStablePages model added, ?_,
            fun hlost hmod f hf => ?_, p₁, hev, ?_,
            fun _ m page => ?_, by simp⟩
          · exact hev.toSameKV.trans (hmpd.toSameKV.trans
              ((sameTables_logged p' fault).sameKV.trans (sameKV_releaseStablePages _ model added)))
          · rw [log_releaseStablePages] at hf
            change f ∈ p'.log ++ [fault] at hf
            rw [hlog, mem_append, mem_singleton] at hf
            rcases hf with hf | rfl
            · exact .inl hf
            · -- the free list is as long as there are free pages
              refine .inr (hflt ?_ _ rfl)
              have h₁' := h₁
              rw [hlost] at h₁'
              rw [← h₁'.freePages]
              refine Nat.le_trans ?_ (hen rfl)
              refine countP_mono_left ?_
              intro page _ hno
              rwa [hev.keeps model hmod] at hno
          · rw [weights_releaseStablePages]
            exact hmpd.weights
          · rw [extentOf_releaseStablePages]
            split
            · rename_i hb
              rw [hb.1]
              exact (hmpd.fresh page hb.2).2.1.symm
            · rename_i hb
              exact hmpd.others m page hb

end ServerlessLLM.Vmm.Pool
