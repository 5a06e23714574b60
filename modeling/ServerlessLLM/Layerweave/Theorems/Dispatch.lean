import ServerlessLLM.Layerweave.Lemmas.ReclaimOps

/-!
# Dispatches and their estimates

`plan_dispatch` makes room for the active model and its KV pages out of soft pages alone: what the inactive models have
resident beyond their protected pages is at least what is missing.
-/

namespace ServerlessLLM.Layerweave

open List Dict State Policy

def Report.residentAfter (report : Report) (residencies : Dict Nat (Finset ℕ)) (modelId : Nat) : Finset ℕ :=
  (report.applied.get? modelId).getD (pagesOf residencies modelId)

namespace State

variable {policy : Policy} {s : State policy} {args : Arguments} {controller : Controller} {residencies : Dict Nat (Finset ℕ)}
  {marginal : List (Nat × Marginal)} {need : Reservation} {d : Decision}

theorem get?_applied (ids : List Nat) (hnd : ids.Nodup) (f : Nat → Finset ℕ) (modelId : Nat) :
    (ids.foldl (fun a m => a.set m (f m)) Dict.empty).get? modelId = if modelId ∈ ids then some (f modelId) else none := by
  have hmap : ids.foldl (fun a m => a.set m (f m)) Dict.empty =
      (ids.map fun m => (m, f m)).foldl (fun a e => a.set e.1 e.2) (Dict.empty : Dict Nat (Finset ℕ)) := by
    rw [foldl_map]
  have hfst : (ids.map fun m => (m, f m)).map Prod.fst = ids := by
    rw [map_map]
    exact map_id ids
  rw [hmap]
  split
  · rename_i hmem
    have hentry : (modelId, f modelId) ∈ ids.map fun m => (m, f m) := mem_map.2 ⟨modelId, hmem, rfl⟩
    exact get?_foldl_set (hfst.symm ▸ hnd) hentry _
  · rename_i hmem
    exact get?_foldl_set_of_not_mem (hfst.symm ▸ hmem) _

theorem evictionRequired_le (hd : d.Sound s args.activeModelId need.protectedCapacity)
    (hact : policy.controllers.get? args.activeModelId = some controller) (hmds : residencies.keys.Perm policy.controllers.keys)
    (hres : (residencies.entries.map fun e => e.2.card).sum + args.currentKvPages ≤ policy.poolPages)
    (hins : pagesOf residencies args.activeModelId ⊆ controller.requiredPages) {kvBlockSizeTokens kvBlockSizeBytes : Nat}
    (hneed : need = reservation policy args controller residencies kvBlockSizeTokens kvBlockSizeBytes)
    (hft : controller.requiredPages.card + need.requestKvPages + args.currentKvPages ≤ policy.poolPages)
    (s' : State policy) (marginal : List (Nat × Marginal)) : need.evictionRequired ≤
      (s'.victims args.activeModelId marginal (d.choices.set args.activeModelId d.active) residencies).length := by
  have hkey : args.activeModelId ∈ policy.controllers.keys := mem_keys_iff.2 ⟨_, hact⟩
  have hpm : policy.controllers.keys.Perm
    (args.activeModelId :: policy.controllers.keys.filter fun m => m ≠ args.activeModelId) :=
    perm_active policy.controllers.nodup hkey
  have hnotin : args.activeModelId ∉ policy.controllers.keys.filter fun m => m ≠ args.activeModelId := by simp
  rw [length_victims, ((hpm.map _).sum_eq), map_cons, sum_cons, softPages_active, Finset.card_empty, zero_add]
  have htot := sum_pagesOf hmds
  rw [(hpm.map _).sum_eq, map_cons, sum_cons] at htot
  have hsoft : _ ≤ ((policy.controllers.keys.filter fun m => m ≠ args.activeModelId).map fun m =>
      (softPages args.activeModelId (d.choices.set args.activeModelId d.active) residencies m).card).sum + _ :=
    sum_pagesOf_le _ hnotin
  have hprt := sum_protectedPages hd
  have hmis := Finset.card_sdiff_add_card_eq_card hins
  subst hneed
  simp only [reservation] at hft hprt ⊢
  omega

theorem reclaim_ok (hmds : residencies.keys.Perm policy.controllers.keys)
    (hen : need.evictionRequired ≤ ((s.protect (d.choices.set args.activeModelId d.active)).victims args.activeModelId
      marginal (d.choices.set args.activeModelId d.active) residencies).length) :
    ∃ report selected, s.reclaim args controller residencies need marginal d =
        (.ok report, s.protect (d.choices.set args.activeModelId d.active)) ∧
      report.choices = d.choices.set args.activeModelId d.active ∧ report.capacityPages = need.protectedCapacity ∧
      report.missingActiveWeightPages = need.missingWeightPages ∧ report.requestKvPages = need.requestKvPages ∧
      selected.length = need.evictionRequired ∧
      (∀ v ∈ selected, v ∈ (s.protect (d.choices.set args.activeModelId d.active)).victims args.activeModelId marginal
        (d.choices.set args.activeModelId d.active) residencies) ∧
      (selected.map fun v => (v.modelId, v.page)).Nodup ∧
      ∀ m ∈ policy.controllers.keys, report.residentAfter residencies m = retained selected residencies m := by
  set choices := d.choices.set args.activeModelId d.active with hchs
  set selected := ((s.protect choices).victims args.activeModelId marginal choices residencies).take need.evictionRequired
    with hselected
  have hlen : selected.length = need.evictionRequired := by
    rw [hselected, length_take]
    exact Nat.min_eq_left hen
  have hsub : ∀ v ∈ selected, v ∈ (s.protect choices).victims args.activeModelId marginal choices residencies :=
    fun v hv => mem_of_mem_take hv
  have hnd : (selected.map fun v => (v.modelId, v.page)).Nodup := nodup_victims.sublist ((take_sublist _ _).map _)
  have hall : ¬ ∃ modelId ∈ policy.controllers.keys, modelId ≠ args.activeModelId ∧ residencies.get? modelId = none := by
    rintro ⟨m, hm, -, hno⟩
    exact get?_eq_none_iff.1 hno (hmds.mem_iff.2 hm)
  -- a model that is not told to retain anything has all of its pages still
  have hsa : ∀ m, ¬(m ≠ args.activeModelId ∧ (retained selected residencies m).card ≠ (pagesOf residencies m).card) →
      retained selected residencies m = pagesOf residencies m := by
    intro m hm
    have hcard : (retained selected residencies m).card = (pagesOf residencies m).card := by
      by_cases hact : m = args.activeModelId
      · have hcnt := card_retained hsub hnd m
        have hnil : selected.filter (fun v => v.modelId = m) = [] := by
          refine filter_eq_nil_iff.2 fun v hv heq => ?_
          have hpg := (mem_victims (hsub v hv)).2
          rw [of_decide_eq_true heq, hact, softPages_active] at hpg
          exact Finset.notMem_empty _ hpg
        rw [hnil, length_nil, Nat.add_zero] at hcnt
        exact hcnt
      · by_contra hne
        exact hm ⟨hact, hne⟩
    exact Finset.eq_of_subset_of_card_le (retained_subset selected residencies m) hcard.ge
  unfold reclaim
  simp only [← hchs, ← hselected]
  rw [if_neg hall, if_neg (Nat.not_lt.2 hlen.ge)]
  refine ⟨_, selected, rfl, rfl, rfl, rfl, rfl, hlen, hsub, hnd, fun m hm => ?_⟩
  unfold Report.residentAfter
  have hks : policy.controllers.keys.Nodup := policy.controllers.nodup
  simp only [get?_applied _ (hks.filter _)]
  split
  · rfl
  · rename_i hnot
    refine (hsa m fun h => hnot (mem_filter.2 ⟨hm, ?_⟩)).symm
    simpa using h

theorem decision_sound (hact : policy.controllers.get? args.activeModelId = some controller)
    (hzero : ∀ e ∈ policy.controllers.entries, e.2.prefixCachePages .zero = ∅)
    (hmarginal : policy.policyMode = .demand → marginal.map Prod.fst = policy.controllers.keys ∧
      ∀ e ∈ marginal, e.2.candidates = s.candidates e.1) (capacityPages : Nat) :
    ∃ d, s.decision args.activeModelId controller capacityPages marginal = .ok d ∧
      d.Sound s args.activeModelId capacityPages := by
  unfold decision
  cases hmode : policy.policyMode with
  | nextUse => exact ⟨_, rfl, nextUseDecision_sound s args.activeModelId capacityPages controller⟩
  | demand =>
    obtain ⟨hids, hcan⟩ := hmarginal hmode
    exact decide_sound hids hcan hzero hact capacityPages

theorem rank_protect_le (hd : d.Sound s args.activeModelId need.protectedCapacity) {modelId : Nat}
    (hina : modelId ≠ args.activeModelId) :
    ((s.protect (d.choices.set args.activeModelId d.active)).protectedConfiguration modelId).rank ≤
      (s.protectedConfiguration modelId).rank := by
  unfold protect
  simp only
  rw [get?_set_of_ne _ _ hina]
  cases hget : d.choices.get? modelId with
  | none => exact le_rfl
  | some c => exact hd.rank _ (mem_entries_iff.2 hget)

end State

/-- What a dispatch in `s` that ends in `s'` with a report keeps: only pages of inactive models that are not protected are
evicted, the active model and its KV pages have room, and the protection of the inactive models stays within the capacity and
grows for none of them. -/
structure MakesRoom {policy : Policy} (s s' : State policy) (args : Arguments) (controller : Controller) (requestKvPages : Nat)
    (report : Report) : Prop where
  evicted : ∀ m ∈ policy.controllers.keys, ∀ page ∈ pagesOf (policy.residencies args) m,
    page ∉ report.residentAfter (policy.residencies args) m → m ≠ args.activeModelId ∧ page ∉ protectedPages report.choices m
  subset : ∀ m ∈ policy.controllers.keys, report.residentAfter (policy.residencies args) m ⊆ pagesOf (policy.residencies args) m
  room : (controller.requiredPages \ pagesOf (policy.residencies args) args.activeModelId).card + requestKvPages +
    ((policy.controllers.keys.map fun m => (report.residentAfter (policy.residencies args) m).card).sum + args.currentKvPages) ≤
      policy.poolPages
  capacity : report.capacityPages = policy.poolPages - args.currentKvPages - requestKvPages - controller.requiredPages.card
  inactive : ((policy.controllers.keys.filter fun m => m ≠ args.activeModelId).map fun m =>
    (protectedPages report.choices m).card).sum ≤ report.capacityPages
  chosen : ∀ m ∈ policy.controllers.keys, ∃ c, report.choices.get? m = some c ∧ s'.protectedConfiguration m = c.configuration
  downgrade : ∀ m ∈ policy.controllers.keys, m ≠ args.activeModelId →
    (s'.protectedConfiguration m).rank ≤ (s.protectedConfiguration m).rank

namespace State

variable {policy : Policy} {s : State policy} {args : Arguments} {controller : Controller} {residencies : Dict Nat (Finset ℕ)}
  {marginal : List (Nat × Marginal)} {need : Reservation} {d : Decision}

theorem exists_choice (hd : d.Sound s args.activeModelId need.protectedCapacity) {m : Nat} (hm : m ∈ policy.controllers.keys) :
    ∃ c, (d.choices.set args.activeModelId d.active).get? m = some c ∧
      (s.protect (d.choices.set args.activeModelId d.active)).protectedConfiguration m = c.configuration := by
  have hkey : m ∈ (d.choices.set args.activeModelId d.active).keys := by
    rw [mem_keys_set]
    by_cases hact : m = args.activeModelId
    · exact .inl hact
    · exact .inr (hd.keys.mem_iff.2 (mem_filter.2 ⟨hm, by simpa using hact⟩))
  obtain ⟨c, hc⟩ := mem_keys_iff.1 hkey
  refine ⟨c, hc, ?_⟩
  unfold protect
  simp only [hc]
  rfl

theorem planDispatch_of_fits (s : State policy) (args : Arguments) (kvBlockSizeTokens kvBlockSizeBytes : Nat)
    (hact : policy.controllers.get? args.activeModelId = some controller)
    (hzero : ∀ e ∈ policy.controllers.entries, e.2.prefixCachePages .zero = ∅)
    (hmds : (policy.residencies args).keys.Perm policy.controllers.keys)
    (hres : ((policy.residencies args).entries.map fun e => e.2.card).sum + args.currentKvPages ≤ policy.poolPages)
    (hins : pagesOf (policy.residencies args) args.activeModelId ⊆ controller.requiredPages) (htok : 0 < kvBlockSizeTokens)
    (hft : controller.requiredPages.card + kvBlocks args.batch kvBlockSizeTokens * kvPagesPerBlock policy kvBlockSizeBytes +
      args.currentKvPages ≤ policy.poolPages) :
    ∃ report s', s.planDispatch args kvBlockSizeTokens kvBlockSizeBytes = (.ok report, s') ∧
      MakesRoom s s' args controller (kvBlocks args.batch kvBlockSizeTokens *
        kvPagesPerBlock policy kvBlockSizeBytes) report := by
  set observed := (s.observeBatch args.activeModelId args.batch).setPending args.pending with hobs
  set r := if policy.policyMode = .nextUse then ([], observed) else marginals policy.controllers.keys observed with hr
  set need := reservation policy args controller (policy.residencies args) kvBlockSizeTokens kvBlockSizeBytes with hneed
  obtain ⟨hsa, hmarginal⟩ : SameLogic observed r.2 ∧ (policy.policyMode = .demand →
      r.1.map Prod.fst = policy.controllers.keys ∧ ∀ e ∈ r.1, e.2.candidates = r.2.candidates e.1) := by
    cases hmode : policy.policyMode with
    | nextUse =>
      rw [hr, if_pos hmode]
      exact ⟨.refl _, nofun⟩
    | demand =>
      rw [hr, if_neg (by rw [hmode]; exact nofun)]
      obtain ⟨hlogic, hids, hcan⟩ := marginals_spec policy.controllers.keys observed
      exact ⟨hlogic, fun _ => ⟨hids, fun e he => (hcan e he).trans (SameLogic.candidates hlogic e.1).symm⟩⟩
  have hprt : r.2.protectedConfiguration = s.protectedConfiguration := hsa.protectedConfiguration
  obtain ⟨d, hdecision, hd⟩ := decision_sound hact hzero hmarginal need.protectedCapacity
  have hen := evictionRequired_le hd hact hmds hres hins hneed hft
  obtain ⟨report, selected, hrcl, hchs, hcap, -, -, hlen, hsub, hnd, haft⟩ :=
    reclaim_ok hmds (hen (r.2.protect (d.choices.set args.activeModelId d.active)) r.1)
  have hfnd : (policy.residencies args).get? args.activeModelId ≠ none := fun hno =>
    get?_eq_none_iff.1 hno (hmds.mem_iff.2 (mem_keys_iff.2 ⟨_, hact⟩))
  have hpl : s.planDispatch args kvBlockSizeTokens kvBlockSizeBytes =
      r.2.reclaim args controller (policy.residencies args) need r.1 d := by
    unfold planDispatch
    simp only [hact, ← hobs, ← hr, ← hneed]
    rw [if_neg hfnd, if_neg fun h => htok.ne' h.1, hdecision]
  refine ⟨report, r.2.protect (d.choices.set args.activeModelId d.active), hpl.trans hrcl, ?_⟩
  constructor
  case evicted =>
    intro m hm page hpg hev
    rw [haft m hm] at hev
    have hsoft := mem_softPages_of_not_retained hsub hpg hev
    unfold softPages at hsoft
    split at hsoft
    · exact absurd hsoft (Finset.notMem_empty _)
    · rename_i hina
      exact ⟨hina, hchs ▸ (Finset.mem_sdiff.1 hsoft).2⟩
  case subset =>
    intro m hm
    rw [haft m hm]
    exact retained_subset selected _ m
  case room =>
    have hcards : (policy.controllers.keys.map fun m => (report.residentAfter (policy.residencies args) m).card).sum =
        (policy.controllers.keys.map fun m => (retained selected (policy.residencies args) m).card).sum :=
      congrArg sum (map_congr_left fun m hm => by rw [haft m hm])
    have hsum := sum_retained hsub hnd
    rw [sum_pagesOf hmds, hlen, hneed] at hsum
    rw [hcards]
    simp only [reservation] at hsum
    omega
  case capacity => exact hcap
  case inactive =>
    rw [hchs, hcap]
    exact sum_protectedPages hd
  case chosen =>
    intro m hm
    rw [hchs]
    exact exists_choice hd hm
  case downgrade =>
    intro m _ hina
    exact (rank_protect_le hd hina).trans (congrArg _ (congrFun hprt m)).le

/-- `plan_dispatch` makes room for every batch that fits beside the active model. -/
theorem planDispatch_makesRoom (s : State policy) (args : Arguments) (kvBlockSizeTokens kvBlockSizeBytes : Nat)
    (hactive : policy.controllers.get? args.activeModelId = some controller)
    (hzero : ∀ e ∈ policy.controllers.entries, e.2.prefixCachePages .zero = ∅)
    (hmodels : (policy.residencies args).keys.Perm policy.controllers.keys)
    (hresident : ((policy.residencies args).entries.map fun e => e.2.card).sum + args.currentKvPages ≤ policy.poolPages)
    (hinside : pagesOf (policy.residencies args) args.activeModelId ⊆ controller.requiredPages)
    (htokens : 0 < kvBlockSizeTokens)
    (hfits : controller.requiredPages.card + kvBlocks args.batch kvBlockSizeTokens * kvPagesPerBlock policy kvBlockSizeBytes +
      args.currentKvPages ≤ policy.poolPages) :
    ∃ report s', s.planDispatch args kvBlockSizeTokens kvBlockSizeBytes = (.ok report, s') ∧
      MakesRoom s s' args controller (kvBlocks args.batch kvBlockSizeTokens * kvPagesPerBlock policy kvBlockSizeBytes) report :=
  planDispatch_of_fits s args kvBlockSizeTokens kvBlockSizeBytes hactive hzero hmodels hresident hinside htokens hfits

def threeLayers : Controller where
  requiredPages := Finset.range 6
  initialPages := ∅
  layerPages := [{0, 1}, {2, 3}, {4, 5}]
  layerPages_ne := nofun
  prefixCachePages := fun
    | .zero => ∅
    | .two => Finset.range 4
    | _ => Finset.range 6

def twoModels (mode : PolicyMode) : Policy where
  controllers := (Dict.empty.set 0 threeLayers).set 1 threeLayers
  profiles := fun _ => ⟨1, unit_pos, 0, .empty, .empty, .empty⟩
  pageSize := 1
  pageSize_pos := Nat.one_pos
  poolPages := 10
  decay := 1
  uncertaintyMs := 0
  policyMode := mode

/-- A request for the first model, of which two pages are resident; the second one is resident. -/
def firstModel : Arguments where
  activeModelId := 0
  batch := [⟨0, 1, 0⟩]
  pending := []
  currentKvPages := 0
  residencies := some ((Dict.empty.set 0 {0, 1}).set 1 (Finset.range 6))
  layerweaveResidency := fun _ => []

theorem planDispatch_makesRoom_firstModel : ∃ report s',
    (init (twoModels .demand)).planDispatch firstModel 1 1 = (.ok report, s') ∧
      MakesRoom (init (twoModels .demand)) s' firstModel threeLayers 1 report :=
  planDispatch_makesRoom (init (twoModels .demand)) firstModel 1 1 rfl (by decide) (by decide) (by decide) (by decide)
    Nat.one_pos (by decide)

/-! ## Estimates -/

theorem planDispatch_eq_ok {kvBlockSizeTokens kvBlockSizeBytes : Nat} {report : Report} {s' : State policy}
    (hmode : policy.policyMode = .demand) (h : s.planDispatch args kvBlockSizeTokens kvBlockSizeBytes = (.ok report, s')) :
    ∃ controller resident d, policy.controllers.get? args.activeModelId = some controller ∧
      (policy.residencies args).get? args.activeModelId = some resident ∧
      (let r := marginals policy.controllers.keys ((s.observeBatch args.activeModelId args.batch).setPending args.pending)
       let need := reservation policy args controller (policy.residencies args) kvBlockSizeTokens kvBlockSizeBytes
       r.2.decide args.activeModelId need.protectedCapacity r.1 = .ok d ∧
         r.2.reclaim args controller (policy.residencies args) need r.1 d = (.ok report, s')) := by
  unfold planDispatch at h
  split at h
  · cases h
  · rename_i controller hctl
    have hdemand : policy.policyMode ≠ .nextUse := by rw [hmode]; exact nofun
    simp only [if_neg hdemand] at h
    split at h
    · cases h
    · rename_i hfnd
      split at h
      · cases h
      · split at h
        · cases h
        · rename_i d hdecision
          obtain ⟨resident, hres⟩ := Option.ne_none_iff_exists'.1 hfnd
          have hdec : (marginals policy.controllers.keys _).2.decision _ _ _ _ = _ := hdecision
          unfold decision at hdec
          rw [hmode] at hdec
          exact ⟨controller, resident, d, hctl, hres, hdec, h⟩

theorem reclaim_report {report : Report} {s' : State policy}
    (h : s.reclaim args controller residencies need marginal d = (.ok report, s')) :
    report.capacityPages = need.protectedCapacity ∧ report.transitionCostMs = s.valueBefore marginal -
      ((d.choices.set args.activeModelId d.active).entries.map fun e => e.2.expectedValueMs).sum := by
  unfold reclaim at h
  simp only at h
  split at h
  · cases h
  · split at h
    · cases h
    · cases h
      exact ⟨rfl, rfl⟩

theorem sameLogic_estimateDispatch (s : State policy) (args : Arguments) (requestKvPages : Nat) :
    SameLogic s (s.estimateDispatch args requestKvPages).2 := by
  unfold estimateDispatch
  split
  · exact .refl s
  · split
    · exact .refl s
    · refine ⟨rfl, rfl, rfl, ?_⟩
      unfold estimate restore
      simp only
      split
      · rfl
      · have hprt := (marginals_spec policy.controllers.keys
          ((s.observeBatch args.activeModelId args.batch).setPending args.pending)).1.protectedConfiguration
        split
        · exact hprt
        · exact hprt

/-- An estimate has the transition cost and the capacity that the dispatch reports, and changes nothing. -/
theorem estimateDispatch_mirrors (s : State policy) (args : Arguments) (kvBlockSizeTokens kvBlockSizeBytes : Nat)
    (hmode : policy.policyMode = .demand) :
    (args.batch ≠ [] → ∀ report s', s.planDispatch args kvBlockSizeTokens kvBlockSizeBytes = (.ok report, s') →
      ∃ e, (s.estimateDispatch args (kvBlocks args.batch kvBlockSizeTokens *
        kvPagesPerBlock policy kvBlockSizeBytes)).1 = .ok e ∧
        e.transitionCostMs = report.transitionCostMs ∧ e.protectedCapacityPages = report.capacityPages) ∧
      ∀ requestKvPages, SameLogic s (s.estimateDispatch args requestKvPages).2 := by
  refine ⟨fun hbat report s' h => ?_, sameLogic_estimateDispatch s args⟩
  obtain ⟨controller, resident, d, hctl, hres, hdec, hrcl⟩ := planDispatch_eq_ok hmode h
  obtain ⟨hcap, hcost⟩ := reclaim_report hrcl
  obtain ⟨-, hids, -⟩ := marginals_spec policy.controllers.keys
    ((s.observeBatch args.activeModelId args.batch).setPending args.pending)
  have hks : policy.controllers.keys.Nodup := policy.controllers.nodup
  rw [← hids] at hks
  obtain ⟨hact, hval⟩ := decide_value hks hdec
  have hset : (d.choices.set args.activeModelId d.active).entries = d.choices.entries ++ [(args.activeModelId, d.active)] :=
    if_neg hact
  unfold estimateDispatch estimate
  rw [if_neg hbat, hctl]
  simp only [hres]
  simp only [reservation] at hdec
  rw [hdec]
  refine ⟨_, rfl, ?_, hcap.symm⟩
  rw [hcost, hset, map_append, sum_append, hval]
  simp

theorem estimateDispatch_mirrors_firstModel :
    (firstModel.batch ≠ [] → ∀ report s', (init (twoModels .demand)).planDispatch firstModel 1 1 = (.ok report, s') →
      ∃ e, ((init (twoModels .demand)).estimateDispatch firstModel 1).1 = .ok e ∧
        e.transitionCostMs = report.transitionCostMs ∧ e.protectedCapacityPages = report.capacityPages) ∧
      ∀ requestKvPages, SameLogic (init (twoModels .demand))
        ((init (twoModels .demand)).estimateDispatch firstModel requestKvPages).2 :=
  estimateDispatch_mirrors (init (twoModels .demand)) firstModel 1 1 rfl

/-- A dispatch of no request, with nothing resident. -/
def noRequest : Arguments where
  activeModelId := 0
  batch := []
  pending := []
  currentKvPages := 0
  residencies := some ((Dict.empty.set 0 ∅).set 1 ∅)
  layerweaveResidency := fun _ => []

/-- Without a request `plan_dispatch` has a report, and `estimate_dispatch` raises. -/
theorem not_mirrors_noRequest : ¬ ∀ (policy : Policy) (s : State policy) (args : Arguments)
    (kvBlockSizeTokens kvBlockSizeBytes : Nat)
    (report : Report) (s' : State policy), policy.policyMode = .demand →
    s.planDispatch args kvBlockSizeTokens kvBlockSizeBytes = (.ok report, s') →
      ∃ e, (s.estimateDispatch args (kvBlocks args.batch kvBlockSizeTokens *
        kvPagesPerBlock policy kvBlockSizeBytes)).1 = .ok e ∧
        e.transitionCostMs = report.transitionCostMs ∧ e.protectedCapacityPages = report.capacityPages := by
  intro h
  have hok : ((init (twoModels .demand)).planDispatch noRequest 1 1).1.isOk = true := by decide +kernel
  cases hpl : (init (twoModels .demand)).planDispatch noRequest 1 1 with
  | mk result s' =>
    rw [hpl] at hok
    cases result with
    | error e => cases hok
    | ok report =>
      obtain ⟨e, he, -⟩ := h _ _ noRequest 1 1 report s' rfl hpl
      cases he

/-! ## What is predicted for a batch -/

/-- The token counts of a batch, as `observe` keeps them. -/
def batchShape (batch : List Request) : Shape :=
  let tokens := batch.map Request.inputTokens
  ⟨max 1 batch.length, max 1 tokens.sum, max 1 (tokens.foldl max 0), max 1 (tokens.map fun n => n * n).sum⟩

/-- The token counts that `set_pending` puts for a model when this is its first request. -/
def pendingShape (r : Request) : Shape :=
  let inputTokens := max 1 r.inputTokens
  ⟨1, inputTokens, inputTokens, inputTokens ^ 2⟩

def PredictsBatch {policy : Policy} (args : Arguments) (e : Estimate) : Prop :=
  ∀ controller resident, policy.controllers.get? args.activeModelId = some controller →
    (policy.residencies args).get? args.activeModelId = some resident →
    let prediction := policy.predict args.activeModelId controller (batchShape args.batch) resident
    e.predictedServiceTtftMs = prediction.predictedServiceTtftMs ∧
      e.predictedExposedLoadMs = prediction.predictedGpuReadyStallMs

variable {policy : Policy} {s : State policy} {args : Arguments} {controller : Controller}

theorem shape_observed (hact : policy.controllers.get? args.activeModelId = some controller) :
    (((s.observeBatch args.activeModelId args.batch).setPending args.pending).demands args.activeModelId).shape =
      ((args.pending.find? fun r => r.modelId = args.activeModelId).map pendingShape).getD (batchShape args.batch) := by
  have hkey : args.activeModelId ∈ policy.controllers.keys := mem_keys_iff.2 ⟨_, hact⟩
  have hobs : ((s.observeBatch args.activeModelId args.batch).demands args.activeModelId).shape = batchShape args.batch := by
    unfold observeBatch observe
    simp only
    rfl
  unfold setPending
  simp only
  cases args.pending.find? fun r => r.modelId = args.activeModelId with
  | none => exact hobs
  | some r =>
    simp only [if_pos hkey]
    rfl

theorem estimateDispatch_predicts {requestKvPages : Nat} {e : Estimate} (h : (s.estimateDispatch args requestKvPages).1 = .ok e)
    (hact : policy.controllers.get? args.activeModelId = some controller) {resident : Finset ℕ}
    (hres : (policy.residencies args).get? args.activeModelId = some resident) :
    let prediction := policy.predict args.activeModelId controller
      (((s.observeBatch args.activeModelId args.batch).setPending args.pending).demands args.activeModelId).shape resident
    e.predictedServiceTtftMs = prediction.predictedServiceTtftMs ∧
      e.predictedExposedLoadMs = prediction.predictedGpuReadyStallMs := by
  unfold estimateDispatch at h
  split at h
  · cases h
  · rw [hact] at h
    simp only [estimate, hres] at h
    split at h
    · cases h
    · cases h
      exact ⟨rfl, rfl⟩

def KeepsShape (activeModelId : Nat) (batch pending : List Request) : Prop :=
  ∀ r, (pending.find? fun r => r.modelId = activeModelId) = some r → pendingShape r = batchShape batch

/-! ### A policy that tells shapes apart -/

def oneLayer : Controller := ⟨∅, ∅, [∅], cons_ne_nil _ _, fun _ => ∅⟩

/-- The compute time of the only layer is the given combination of the features. -/
def featurePolicy (modelId : Nat) (c : List ℚ) : Policy where
  controllers := Dict.empty.set modelId oneLayer
  profiles := fun _ => ⟨1, by decide, 0, Dict.empty.set 0 (.coefficients c), .empty, .empty⟩
  pageSize := 1
  pageSize_pos := Nat.one_pos
  poolPages := 0
  decay := 1
  uncertaintyMs := 0
  policyMode := .demand

theorem predict_featurePolicy (modelId : Nat) (a b c d : ℚ) (shape : Shape) :
    ((featurePolicy modelId [0, a, b, c, d]).predict modelId oneLayer shape ∅).predictedServiceTtftMs =
      max 0 (a * (((max 1 shape.batchSize : Nat) : ℚ) - 1) + b * (((max 1 shape.inputTokens : Nat) : ℚ) / 1000) +
        c * (((max 1 shape.maxInputTokens : Nat) : ℚ) / 1000) + d * ((shape.sumInputTokensSquared : ℚ) / 1000000)) := by
  simp [predict, Profile.predict, featurePolicy, hypotheticalBatch, stages, oneLayer, Profile.simulateGpu, Profile.simulateFrom,
    Profile.loadMs, Profile.computeMs, Batch.batchFeatures, Profile.profileValue, median, Dict.get?, Dict.set, Dict.setEntries,
      Dict.empty, add_assoc]

theorem exists_feature {shape shape' : Shape} (hne : shape ≠ shape') (hs : 1 ≤ shape.batchSize ∧ 1 ≤ shape.inputTokens ∧
    1 ≤ shape.maxInputTokens)
    (hs' : 1 ≤ shape'.batchSize ∧ 1 ≤ shape'.inputTokens ∧ 1 ≤ shape'.maxInputTokens) (modelId : Nat) :
    ∃ a b c d : ℚ, ((featurePolicy modelId [0, a, b, c, d]).predict modelId oneLayer shape ∅).predictedServiceTtftMs ≠
      ((featurePolicy modelId [0, a, b, c, d]).predict modelId oneLayer shape' ∅).predictedServiceTtftMs := by
  simp only [predict_featurePolicy, max_eq_right hs.1, max_eq_right hs.2.1, max_eq_right hs.2.2, max_eq_right hs'.1,
    max_eq_right hs'.2.1, max_eq_right hs'.2.2]
  by_contra hall
  simp only [ne_eq, not_exists, not_not] at hall
  have hpos : ∀ n : Nat, 1 ≤ n → (0 : ℚ) ≤ (n : ℚ) - 1 := fun n hn => sub_nonneg.2 (by exact_mod_cast hn)
  refine hne ?_
  have hbatchSize := hall 1 0 0 0
  have hinputTokens := hall 0 1000 0 0
  have hmaxInputTokens := hall 0 0 1000 0
  have hsum := hall 0 0 0 1000000
  simp only [one_mul, zero_mul, zero_add, add_zero] at hbatchSize hinputTokens hmaxInputTokens hsum
  rw [max_eq_right (hpos _ hs.1), max_eq_right (hpos _ hs'.1), sub_left_inj, Nat.cast_inj] at hbatchSize
  have hdiv : ∀ (n : Nat) (q : ℚ), 0 < q → max 0 (q * ((n : ℚ) / q)) = n := fun n q hq => by
    rw [mul_div_cancel₀ _ hq.ne', max_eq_right (Nat.cast_nonneg n)]
  rw [hdiv _ _ (by decide +kernel), hdiv _ _ (by decide +kernel), Nat.cast_inj] at hinputTokens hmaxInputTokens hsum
  cases shape
  cases shape'
  simp_all

/-- A request for the only model of `featurePolicy`, which needs no pages. -/
def featureArguments (modelId : Nat) (batch pending : List Request) : Arguments where
  activeModelId := modelId
  batch := batch
  pending := pending
  currentKvPages := 0
  residencies := some (Dict.empty.set modelId ∅)
  layerweaveResidency := fun _ => []

theorem exists_estimateDispatch (s : State policy) (requestKvPages : Nat) (hbat : args.batch ≠ [])
    (hact : policy.controllers.get? args.activeModelId = some controller) {resident : Finset ℕ}
    (hres : (policy.residencies args).get? args.activeModelId = some resident)
    (hzero : ∀ e ∈ policy.controllers.entries, e.2.prefixCachePages .zero = ∅) :
    ∃ e, (s.estimateDispatch args requestKvPages).1 = .ok e := by
  obtain ⟨hlogic, hids, hcan⟩ := marginals_spec policy.controllers.keys
    ((s.observeBatch args.activeModelId args.batch).setPending args.pending)
  obtain ⟨d, hd, -⟩ := decide_sound hids (fun e he => (hcan e he).trans (SameLogic.candidates hlogic e.1).symm) hzero hact
    (policy.poolPages - args.currentKvPages - requestKvPages - controller.requiredPages.card)
  unfold estimateDispatch
  rw [if_neg hbat, hact]
  simp only [estimate, hres, hd]
  exact ⟨_, rfl⟩

/-- An estimate predicts the batch itself, for every policy and every state, just when the pending requests leave its shape; and
there is no estimate for an empty batch. -/
theorem predicts_batch_iff (activeModelId : Nat) (batch pending : List Request) :
    (∀ (policy : Policy) (s : State policy) (args : Arguments) (requestKvPages : Nat) (e : Estimate),
      args.activeModelId = activeModelId →
      args.batch = batch → args.pending = pending → (s.estimateDispatch args requestKvPages).1 = .ok e →
        @PredictsBatch policy args e) ↔
      batch = [] ∨ KeepsShape activeModelId batch pending := by
  constructor
  · intro hall
    by_contra hnot
    obtain ⟨hbat, hkps⟩ := not_or.1 hnot
    unfold KeepsShape at hkps
    simp only [not_forall] at hkps
    obtain ⟨r, hfind, hne⟩ := hkps
    obtain ⟨a, b, c, d, hdif⟩ := exists_feature hne ⟨le_rfl, le_max_left _ _, le_max_left _ _⟩
      ⟨le_max_left _ _, le_max_left _ _, le_max_left _ _⟩ activeModelId
    have hact : (featurePolicy activeModelId [0, a, b, c, d]).controllers.get?
      (featureArguments activeModelId batch pending).activeModelId =
      some oneLayer := get?_set_self ..
    have hres : ((featurePolicy activeModelId [0, a, b, c, d]).residencies (featureArguments activeModelId batch pending)).get?
      (featureArguments activeModelId batch pending).activeModelId = some ∅ := get?_set_self ..
    obtain ⟨e, he⟩ := exists_estimateDispatch (init _) 0 hbat hact hres (by
      intro e he
      cases mem_singleton.1 he
      rfl)
    have hown := (hall _ _ _ _ e rfl rfl rfl he oneLayer ∅ hact hres).1
    have hprd := (estimateDispatch_predicts he hact hres).1
    have hshp := (shape_observed (s := init _) hact).trans
      (congrArg (fun o => (o.map pendingShape).getD (batchShape batch)) hfind)
    rw [hshp, hown] at hprd
    exact hdif hprd.symm
  · rintro hcases policy s args requestKvPages e rfl rfl rfl he controller resident hact hres
    obtain hbat | hkps := hcases
    · unfold estimateDispatch at he
      rw [if_pos hbat] at he
      cases he
    · have hshp : (((s.observeBatch args.activeModelId args.batch).setPending args.pending).demands args.activeModelId).shape =
          batchShape args.batch := by
        rw [shape_observed hact]
        cases hfind : args.pending.find? fun r => r.modelId = args.activeModelId with
        | none => rfl
        | some r => exact hkps r hfind
      have hprd := estimateDispatch_predicts he hact hres
      rwa [hshp] at hprd

/-- For a batch of four tokens nine are predicted when a request of nine tokens for the same model is pending. -/
theorem pending_changes_prediction :
    (((init (featurePolicy 0 [0, 0, 1000, 0, 0])).estimateDispatch (featureArguments 0 [⟨0, 4, 0⟩] []) 0).1.toOption.map
      Estimate.predictedServiceTtftMs) = some 4 ∧
    (((init (featurePolicy 0 [0, 0, 1000, 0, 0])).estimateDispatch
      (featureArguments 0 [⟨0, 4, 0⟩] [⟨0, 9, 0⟩]) 0).1.toOption.map
      Estimate.predictedServiceTtftMs) = some 9 := by
  decide +kernel

end State

end ServerlessLLM.Layerweave
