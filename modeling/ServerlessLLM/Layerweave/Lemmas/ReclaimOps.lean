import ServerlessLLM.Layerweave.Dispatch
import ServerlessLLM.Layerweave.Lemmas.SolveOps

/-!
# Decisions and evictions

The decision over the configurations stays within the capacity and upgrades no inactive model, in both modes.
-/

namespace ServerlessLLM.Layerweave

open List Dict Function State Candidate
open Prod (fst snd)

/-! ## Curves -/

namespace Policy

variable {policy : Policy} {modelId : Nat} {controller : Controller} {shape : Shape}

theorem curve_spec {configurations : List Configuration} {seen : List (Finset ℕ)} {bestTtft coldTtft : Option ℚ}
    {c : BaseCandidate} (h : c ∈ policy.curve modelId controller shape configurations seen bestTtft coldTtft) :
    0 ≤ c.predictedGainMs ∧ c.pages ∉ seen := by
  induction configurations generalizing seen bestTtft coldTtft with
  | nil => cases h
  | cons configuration rest ih =>
    unfold curve at h
    simp only at h
    split at h
    · exact ih h
    · rename_i hseen
      rcases mem_cons.1 h with rfl | h
      · exact ⟨le_max_left _ _, hseen⟩
      · exact ⟨(ih h).1, fun hmem => (ih h).2 (mem_cons_of_mem _ hmem)⟩

theorem baseCandidates_eq_cons (hctl : policy.controllers.get? modelId = some controller)
    (hzero : controller.prefixCachePages .zero = ∅) (shape : Shape) :
    ∃ z rest, policy.baseCandidates (modelId, shape) = z :: rest ∧ z.configuration = .zero ∧ z.pages = ∅ ∧
      z.predictedGainMs = 0 ∧
      ∀ c ∈ rest, c.pages ≠ ∅ := by
  have hlen : ¬0 ≥ controller.layerPages.length := by
    rw [ge_iff_le, not_le]
    exact length_pos_of_ne_nil controller.layerPages_ne
  unfold baseCandidates Configuration.prefixCandidates
  simp only [hctl]
  unfold curve
  simp only [not_mem_nil, if_false, Option.getD_none, sub_self, max_self]
  refine ⟨_, _, rfl, ?_, hzero, rfl, ?_⟩
  · unfold Controller.effectiveConfiguration Configuration.layers?
    simp only [if_neg hlen]
  · intro c hc hemp
    refine (curve_spec hc).2 ?_
    rw [hemp, hzero]
    exact mem_cons_self

theorem baseCandidates_gain_nonneg {key : Nat × Shape} {c : BaseCandidate} (h : c ∈ policy.baseCandidates key) :
    0 ≤ c.predictedGainMs := by
  unfold baseCandidates at h
  split at h
  · cases h
  · exact (curve_spec h).1

end Policy

namespace State

variable {policy : Policy} {s : State policy}

/-- Two states that differ at most in the curves that they keep. -/
structure SameLogic (s s' : State policy) : Prop where
  demands : s'.demands = s.demands
  pendingCounts : s'.pendingCounts = s.pendingCounts
  nextUsePositions : s'.nextUsePositions = s.nextUsePositions
  protectedConfiguration : s'.protectedConfiguration = s.protectedConfiguration

theorem SameLogic.refl (s : State policy) : SameLogic s s := ⟨rfl, rfl, rfl, rfl⟩

theorem SameLogic.trans {s₁ s₂ s₃ : State policy} (h : SameLogic s₁ s₂) (h' : SameLogic s₂ s₃) : SameLogic s₁ s₃ :=
  ⟨h'.demands.trans h.demands, h'.pendingCounts.trans h.pendingCounts, h'.nextUsePositions.trans h.nextUsePositions,
    h'.protectedConfiguration.trans h.protectedConfiguration⟩

theorem candidateCurve_fst (s : State policy) (modelId : Nat) :
    (s.candidateCurve modelId).1 = policy.baseCandidates (modelId, (s.demands modelId).shape) := by
  unfold candidateCurve
  simp only
  split
  · rename_i candidates hget
    exact s.curveCache_eq _ _ hget
  · rfl

theorem sameLogic_candidateCurve (s : State policy) (modelId : Nat) : SameLogic s (s.candidateCurve modelId).2 := by
  unfold candidateCurve
  simp only
  split
  · exact .refl s
  · exact ⟨rfl, rfl, rfl, rfl⟩

def candidates (s : State policy) (modelId : Nat) : List Candidate :=
  (policy.baseCandidates (modelId, (s.demands modelId).shape)).map (s.scored modelId)

theorem SameLogic.candidates {s' : State policy} (h : SameLogic s s') (modelId : Nat) :
    s'.candidates modelId = s.candidates modelId := by
  unfold State.candidates State.scored State.effectiveDemand
  rw [h.demands, h.pendingCounts]

theorem marginals_spec (ids : List Nat) (s : State policy) : SameLogic s (marginals ids s).2 ∧
    (marginals ids s).1.map fst = ids ∧ ∀ e ∈ (marginals ids s).1, e.2.candidates = s.candidates e.1 := by
  induction ids generalizing s with
  | nil => exact ⟨.refl s, rfl, by rintro e ⟨⟩⟩
  | cons modelId ids ih =>
    have hsa := sameLogic_candidateCurve s modelId
    obtain ⟨hsa', hids, hcan⟩ := ih (s.marginalTiers modelId).2
    refine ⟨hsa.trans hsa', congrArg (modelId :: ·) hids, ?_⟩
    intro e he
    rcases mem_cons.1 he with rfl | he
    · exact congrArg (map (s.scored modelId)) (candidateCurve_fst s modelId)
    · exact (hcan e he).trans (SameLogic.candidates hsa e.1)

theorem candidates_eq_cons {modelId : Nat} {controller : Controller} (hctl : policy.controllers.get? modelId = some controller)
    (hzero : controller.prefixCachePages .zero = ∅) (s : State policy) :
    ∃ z rest, s.candidates modelId = z :: rest ∧ z.configuration = .zero ∧ z.pageCount = 0 ∧ z.expectedValueMs = 0 ∧
      ∀ c ∈ rest, c.pageCount ≠ 0 := by
  obtain ⟨z, rest, hba, hcfg, hpgs, hgain, hrs⟩ := Policy.baseCandidates_eq_cons hctl hzero (s.demands modelId).shape
  refine ⟨s.scored modelId z, rest.map (s.scored modelId), ?_, hcfg, ?_, ?_, ?_⟩
  · unfold candidates
    rw [hba, map_cons]
  · exact (congrArg Finset.card hpgs).trans Finset.card_empty
  · exact (congrArg (_ * ·) hgain).trans (mul_zero _)
  · intro c hc
    obtain ⟨b, hb, rfl⟩ := mem_map.1 hc
    exact fun hcard => hrs b hb (Finset.card_eq_zero.1 hcard)

theorem candidates_value_nonneg {modelId : Nat} {c : Candidate} (h : c ∈ s.candidates modelId) : 0 ≤ c.expectedValueMs := by
  obtain ⟨b, hb, rfl⟩ := mem_map.1 h
  exact mul_nonneg (NNRat.coe_nonneg _) (Policy.baseCandidates_gain_nonneg hb)

end State

/-! ## Pareto candidates -/

instance : Std.Total Candidate.le where
  total c d := by
    unfold le
    rcases Nat.lt_trichotomy c.pageCount d.pageCount with h | h | h
    · exact .inl (.inl h)
    · rcases le_total (-c.expectedValueMs) (-d.expectedValueMs) with h' | h'
      · exact .inl (.inr ⟨h, h'⟩)
      · exact .inr (.inr ⟨h.symm, h'⟩)
    · exact .inr (.inl h)

instance : IsTrans Candidate Candidate.le where
  trans c d e hcd hde := by
    unfold le at *
    rcases hcd with hcd | ⟨hcd, hv⟩
    · rcases hde with hde | ⟨hde, -⟩
      · exact .inl (hcd.trans hde)
      · exact .inl (hde ▸ hcd)
    · rcases hde with hde | ⟨hde, hv'⟩
      · exact .inl (hcd ▸ hde)
      · exact .inr ⟨hcd.trans hde, hv.trans hv'⟩

theorem mem_of_mem_paretoFrom {bestValue : ℚ} {l : List Candidate} {c : Candidate}
    (h : c ∈ paretoFrom bestValue l) : c ∈ l := by
  induction l generalizing bestValue with
  | nil => exact h
  | cons d l ih =>
    unfold paretoFrom at h
    split at h
    · exact mem_cons_of_mem _ (ih h)
    · rcases mem_cons.1 h with rfl | h
      · exact mem_cons_self
      · exact mem_cons_of_mem _ (ih h)

theorem mem_of_mem_paretoCandidates {l : List Candidate} {c : Candidate} (h : c ∈ paretoCandidates l) : c ∈ l :=
  (mem_insertionSort _).1 (mem_of_mem_paretoFrom h)

theorem mem_paretoCandidates {l : List Candidate} {z : Candidate} (hz : z ∈ l) (hpgs : z.pageCount = 0)
    (honly : ∀ c ∈ l, c.pageCount = 0 → c = z) (hval : 0 ≤ z.expectedValueMs) : z ∈ paretoCandidates l := by
  have hsrt := pairwise_insertionSort le l
  have hmem : ∀ c, c ∈ l.insertionSort le ↔ c ∈ l := fun c => mem_insertionSort _
  unfold paretoCandidates
  cases hl : l.insertionSort le with
  | nil =>
    rw [hl] at hmem
    cases (hmem z).2 hz
  | cons c rest =>
    rw [hl] at hmem hsrt
    -- the first of the sorted candidates has no pages either
    have hcz : c = z := by
      rcases mem_cons.1 ((hmem z).2 hz) with heq | hrs
      · exact heq.symm
      · refine honly c ((hmem c).1 mem_cons_self) ?_
        rcases (pairwise_cons.1 hsrt).1 z hrs with hlt | ⟨heq, -⟩
        · rw [hpgs] at hlt
          exact absurd hlt (Nat.not_lt_zero _)
        · exact heq.trans hpgs
    subst hcz
    unfold paretoFrom
    rw [if_neg (not_le.2 ((neg_one_lt_zero : (-1 : ℚ) < 0).trans_le hval))]
    exact mem_cons_self

namespace State

variable {policy : Policy} {s : State policy} {modelId activeModelId : Nat} {controller : Controller}

theorem zero_mem_pareto (hctl : policy.controllers.get? modelId = some controller)
    (hzero : controller.prefixCachePages .zero = ∅) (s : State policy) :
    ∃ z ∈ paretoCandidates (s.candidates modelId), z.configuration = .zero ∧ z.pageCount = 0 := by
  obtain ⟨z, rest, hcan, hcfg, hpgs, hval, hrs⟩ := candidates_eq_cons hctl hzero s
  refine ⟨z, mem_paretoCandidates ?_ hpgs ?_ (le_of_eq hval.symm), hcfg, hpgs⟩
  · rw [hcan]
    exact mem_cons_self
  · intro c hc hcnt
    rw [hcan] at hc
    rcases mem_cons.1 hc with rfl | hc
    · rfl
    · exact absurd hcnt (hrs c hc)

/-- What is allowed for a model: no upgrade, values that are not negative, and a candidate without pages. -/
structure Allowed (s : State policy) (modelId : Nat) (allowed : List Candidate) : Prop where
  rank : ∀ c ∈ allowed, c.configuration.rank ≤ (s.protectedConfiguration modelId).rank
  value : ∀ c ∈ allowed, 0 ≤ c.expectedValueMs
  zero : ∃ c ∈ allowed, c.pageCount = 0

theorem allowedCandidates_ok (hctl : policy.controllers.get? modelId = some controller)
    (hzero : controller.prefixCachePages .zero = ∅) (hne : modelId ≠ activeModelId) :
    ∃ allowed, s.allowedCandidates modelId (s.candidates modelId) activeModelId = .ok allowed ∧ Allowed s modelId allowed := by
  obtain ⟨z, hz, hcfg, hpgs⟩ := zero_mem_pareto hctl hzero s
  have hrank : z.configuration.rank ≤ (s.protectedConfiguration modelId).rank := by
    rw [hcfg]
    exact Nat.zero_le _
  have hmem : z ∈ (paretoCandidates (s.candidates modelId)).filter fun c =>
      c.configuration.rank ≤ (s.protectedConfiguration modelId).rank :=
    mem_filter.2 ⟨hz, decide_eq_true hrank⟩
  unfold allowedCandidates
  simp only [if_neg hne, if_neg (ne_nil_of_mem hmem)]
  refine ⟨_, rfl, ?_, ?_, z, hmem, hpgs⟩
  · intro c hc
    exact of_decide_eq_true (mem_filter.1 hc).2
  · intro c hc
    exact candidates_value_nonneg (mem_of_mem_paretoCandidates (mem_filter.1 hc).1)

theorem inactiveCandidates_ids {marginal : List (Nat × Marginal)} {l : List (Nat × List Candidate)}
    (h : s.inactiveCandidates activeModelId marginal = .ok l) :
    l.map fst = (marginal.map fst).filter fun m => m ≠ activeModelId := by
  induction marginal generalizing l with
  | nil =>
    cases h
    rfl
  | cons e rest ih =>
    obtain ⟨modelId, m⟩ := e
    unfold inactiveCandidates at h
    split at h
    · rename_i heq
      rw [map_cons, filter_cons_of_neg (by simp [heq])]
      exact ih h
    · rename_i hne
      rw [map_cons, filter_cons_of_pos (by simp [hne])]
      split at h
      · cases h
      · split at h
        · cases h
        · rename_i others hoth
          cases h
          rw [map_cons, ih hoth]

theorem inactiveCandidates_ok {marginal : List (Nat × Marginal)} (activeModelId : Nat)
    (hcan : ∀ e ∈ marginal, e.2.candidates = s.candidates e.1)
    (hzero : ∀ e ∈ marginal, ∃ controller, policy.controllers.get? e.1 = some controller ∧
      controller.prefixCachePages .zero = ∅) :
    ∃ l, s.inactiveCandidates activeModelId marginal = .ok l ∧ ∀ e ∈ l, Allowed s e.1 e.2 := by
  induction marginal with
  | nil => exact ⟨[], rfl, by rintro e ⟨⟩⟩
  | cons e rest ih =>
    obtain ⟨modelId, m⟩ := e
    obtain ⟨others, hoth, hall⟩ := ih (fun e he => hcan e (mem_cons_of_mem _ he)) (fun e he => hzero e (mem_cons_of_mem _ he))
    unfold inactiveCandidates
    split
    · exact ⟨others, hoth, hall⟩
    · rename_i hne
      obtain ⟨controller, hctl, hemp⟩ := hzero (modelId, m) mem_cons_self
      obtain ⟨allowed, halw, hspec⟩ := allowedCandidates_ok (s := s) hctl hemp hne
      have hm : m.candidates = s.candidates modelId := hcan (modelId, m) mem_cons_self
      rw [hm, halw, hoth]
      refine ⟨_, rfl, ?_⟩
      intro e he
      rcases mem_cons.1 he with rfl | he
      · exact hspec
      · exact hall e he

end State

/-! ## Sums over the models -/

theorem perm_active {ids : List Nat} (hnd : ids.Nodup) {activeModelId : Nat} (h : activeModelId ∈ ids) :
    ids.Perm (activeModelId :: ids.filter fun m => m ≠ activeModelId) := by
  refine (perm_cons_erase h).trans (List.Perm.of_eq ?_)
  rw [hnd.erase_eq_filter]
  refine congrArg _ (filter_congr ?_)
  intro m _
  simp only [ne_eq, decide_not]
  rfl

theorem sum_indicator {ids : List Nat} (hnd : ids.Nodup) {k : Nat} (hk : k ∈ ids) :
    (ids.map fun m => if k = m then 1 else 0).sum = 1 := by
  induction ids with
  | nil => cases hk
  | cons m ids ih =>
    rw [nodup_cons] at hnd
    rw [map_cons, sum_cons]
    by_cases hkm : k = m
    · have hrs : (ids.map fun m => if k = m then 1 else 0).sum = 0 := by
        refine sum_eq_zero ?_
        intro x hx
        obtain ⟨m', hm', rfl⟩ := mem_map.1 hx
        refine if_neg fun h => hnd.1 ?_
        rw [← hkm, h]
        exact hm'
      rw [if_pos hkm, hrs]
    · rw [if_neg hkm, zero_add]
      exact ih hnd.2 ((mem_cons.1 hk).resolve_left hkm)

theorem sum_length_filter {α : Type} {ids : List Nat} (hnd : ids.Nodup) (f : α → Nat) {l : List α} (h : ∀ x ∈ l, f x ∈ ids) :
    (ids.map fun m => (l.filter fun x => f x = m).length).sum = l.length := by
  induction l with
  | nil => simp
  | cons x l ih =>
    have hcons : ∀ m, ((x :: l).filter fun x => f x = m).length = (if f x = m then 1 else 0) +
      (l.filter fun x => f x = m).length := by
      intro m
      by_cases hx : f x = m
      · rw [filter_cons_of_pos (by simp [hx]), if_pos hx, length_cons, Nat.add_comm]
      · rw [filter_cons_of_neg (by simp [hx]), if_neg hx, Nat.zero_add]
    simp only [hcons]
    rw [sum_map_add, sum_indicator hnd (h x mem_cons_self), ih fun y hy => h y (mem_cons_of_mem _ hy),
      length_cons, Nat.add_comm]

/-! ## Decisions -/

/-- A decision has a choice for each inactive model; it upgrades none of them, and together they stay within the capacity. -/
structure Decision.Sound {policy : Policy} (s : State policy) (activeModelId capacityPages : Nat) (d : Decision) : Prop where
  keys : d.choices.keys.Perm (policy.controllers.keys.filter fun m => m ≠ activeModelId)
  rank : ∀ e ∈ d.choices.entries, e.2.configuration.rank ≤ (s.protectedConfiguration e.1).rank
  pages : (d.choices.entries.map fun e => e.2.pageCount).sum ≤ capacityPages

namespace State

variable {policy : Policy} {s : State policy} {activeModelId capacityPages modelId : Nat} {controller : Controller}
  {marginal : List (Nat × Marginal)} {d : Decision}

theorem decide_eq_ok (h : s.decide activeModelId capacityPages marginal = .ok d) :
    ∃ candidates solution, s.inactiveCandidates activeModelId marginal = .ok candidates ∧
      solveMckp candidates capacityPages = .ok solution ∧ d.usedPages = solution.usedPages ∧
        d.expectedValueMs = solution.expectedValueMs ∧ d.choices = solution.choices := by
  unfold decide at h
  split at h
  · cases h
  · rename_i candidates hcan
    split at h
    · cases h
    · rename_i solution hsol
      split at h
      · cases h
      · split at h
        · cases h
        · cases h
          exact ⟨candidates, solution, hcan, hsol, rfl, rfl, rfl⟩

theorem decide_value (hnd : (marginal.map fst).Nodup) (h : s.decide activeModelId capacityPages marginal = .ok d) :
    activeModelId ∉ d.choices.keys ∧ d.expectedValueMs = (d.choices.entries.map fun e => e.2.expectedValueMs).sum := by
  obtain ⟨candidates, solution, hcan, hsol, -, hval, hchs⟩ := decide_eq_ok h
  have hids := inactiveCandidates_ids hcan
  obtain ⟨sorted, hpm, hcho⟩ := solveMckp_chosen (hids ▸ hnd.filter _) hsol
  rw [hchs, hval]
  refine ⟨?_, hcho.value⟩
  intro hmem
  have hsrt : activeModelId ∈ sorted.map fst := hcho.keys ▸ hmem
  have hact := (hpm.map fst).mem_iff.1 hsrt
  rw [hids] at hact
  simpa using (mem_filter.1 hact).2

theorem decide_sound (hids : marginal.map fst = policy.controllers.keys)
    (hcan : ∀ e ∈ marginal, e.2.candidates = s.candidates e.1)
    (hzero : ∀ e ∈ policy.controllers.entries, e.2.prefixCachePages .zero = ∅)
    (hact : policy.controllers.get? activeModelId = some controller) (capacityPages : Nat) :
    ∃ d, s.decide activeModelId capacityPages marginal = .ok d ∧ d.Sound s activeModelId capacityPages := by
  have hnd : (marginal.map fst).Nodup := hids ▸ policy.controllers.nodup
  have hcontrollers : ∀ e ∈ marginal, ∃ controller, policy.controllers.get? e.1 = some controller ∧
      controller.prefixCachePages .zero = ∅ := by
    intro e he
    have hkey : e.1 ∈ policy.controllers.keys := hids ▸ mem_map_of_mem he
    obtain ⟨controller, hctl⟩ := mem_keys_iff.1 hkey
    exact ⟨controller, hctl, hzero _ (mem_entries_iff.2 hctl)⟩
  obtain ⟨candidates, hina, halw⟩ := inactiveCandidates_ok activeModelId hcan hcontrollers
  have hinactiveIds := inactiveCandidates_ids hina
  have hnd' : (candidates.map fst).Nodup := hinactiveIds ▸ hnd.filter _
  obtain ⟨solution, hsol⟩ := solveMckp_ok capacityPages hnd' (fun m hm => (halw m hm).zero) (fun m hm => (halw m hm).value)
  -- the candidates of the active model are those of its curve, and not all of them are dominated
  have hlu : activeCandidates activeModelId marginal = s.candidates activeModelId := by
    have hkey : activeModelId ∈ marginal.map fst := hids ▸ mem_keys_iff.2 ⟨_, hact⟩
    obtain ⟨e, he, heq⟩ := mem_map.1 hkey
    have hmem : (activeModelId, e.2) ∈ marginal := heq ▸ he
    unfold activeCandidates
    rw [(lookup_eq_some_iff hnd).2 hmem]
    exact (hcan e he).trans (by rw [heq])
  obtain ⟨z, hz, -⟩ := zero_mem_pareto hact (hzero _ (mem_entries_iff.2 hact)) s
  have hactiveCandidates : s.allowedCandidates activeModelId (activeCandidates activeModelId marginal) activeModelId =
      .ok (paretoCandidates (s.candidates activeModelId)) := by
    unfold allowedCandidates
    rw [hlu, if_pos rfl]
  obtain ⟨active, hmax⟩ := firstMax_isSome (fun c d : Candidate => c.expectedValueMs < d.expectedValueMs ∨
    c.expectedValueMs = d.expectedValueMs ∧ c.pageCount < d.pageCount) (ne_nil_of_mem hz)
  have hch : activeChoice (paretoCandidates (s.candidates activeModelId)) = .ok active := by
    unfold activeChoice
    rw [hmax]
  refine ⟨⟨solution.usedPages, solution.expectedValueMs, solution.choices, active⟩, ?_, ?_⟩
  · unfold decide
    simp only [hina, hsol, hactiveCandidates, hch]
  · obtain ⟨sorted, hpm, hcho⟩ := solveMckp_chosen hnd' hsol
    have hks := hcho.keys
    refine ⟨?_, ?_, ?_⟩
    · simp only [hks]
      rw [← hids, ← hinactiveIds]
      exact hpm.map fst
    · intro e he
      obtain ⟨m, hm, hid, hmem⟩ := exists_of_forall₂ hcho.choices he
      rw [hid]
      exact (halw m (hpm.mem_iff.1 hm)).rank e.2 hmem
    · exact hcho.used ▸ hcho.fits

theorem nextUseDecision_sound (s : State policy) (activeModelId capacityPages : Nat) (controller : Controller) :
    (nextUseDecision policy activeModelId controller).Sound s activeModelId capacityPages := by
  have hentry : ∀ e ∈ (nextUseDecision policy activeModelId controller).choices.entries,
      e.2.configuration = .zero ∧ e.2.pageCount = 0 := by
    intro e he
    obtain ⟨c, -, rfl⟩ := mem_map.1 (mem_filter.1 he).1
    exact ⟨rfl, Finset.card_empty⟩
  refine ⟨List.Perm.of_eq ?_, ?_, ?_⟩
  · rw [← keys_mapValues policy.controllers fun _ c => nextUseChoice c false]
    unfold nextUseDecision Dict.keys erase
    rw [filter_map]
    rfl
  · intro e he
    rw [(hentry e he).1]
    exact Nat.zero_le _
  · refine (sum_eq_zero ?_).le.trans (Nat.zero_le _)
    intro x hx
    obtain ⟨e, he, rfl⟩ := mem_map.1 hx
    exact (hentry e he).2

/-! ## Soft pages -/

variable {residencies : Dict Nat (Finset ℕ)} {choices : Dict Nat Candidate}

theorem softPages_active : softPages activeModelId choices residencies activeModelId = ∅ := if_pos rfl

theorem sum_protectedPages (hd : d.Sound s activeModelId capacityPages) :
    ((policy.controllers.keys.filter fun m => m ≠ activeModelId).map fun m =>
      (protectedPages (d.choices.set activeModelId d.active) m).card).sum ≤ capacityPages := by
  rw [← (hd.keys.map fun m => (protectedPages (d.choices.set activeModelId d.active) m).card).sum_eq]
  have hentry : ∀ e ∈ d.choices.entries, (protectedPages (d.choices.set activeModelId d.active) e.1).card = e.2.pageCount := by
    intro e he
    have hkey : e.1 ∈ policy.controllers.keys.filter fun m => m ≠ activeModelId := hd.keys.mem_iff.1 (mem_map_of_mem he)
    have hne : e.1 ≠ activeModelId := by simpa using (mem_filter.1 hkey).2
    unfold protectedPages
    rw [get?_set_of_ne _ _ hne, mem_entries_iff.1 he]
    rfl
  unfold Dict.keys
  rw [map_map]
  exact (congrArg sum (map_congr_left hentry)).le.trans hd.pages

theorem sum_pagesOf_le (ids : List Nat) (hids : activeModelId ∉ ids) : (ids.map fun m => (pagesOf residencies m).card).sum ≤
    (ids.map fun m => (softPages activeModelId choices residencies m).card).sum +
      (ids.map fun m => (protectedPages choices m).card).sum := by
  rw [← sum_map_add]
  refine sum_le_sum ?_
  intro m hm
  have hne : m ≠ activeModelId := fun h => hids (h ▸ hm)
  unfold softPages
  rw [if_neg hne]
  have hcard := Finset.le_card_sdiff (protectedPages choices m) (pagesOf residencies m)
  omega

/-! ## Victims -/

theorem victim_modelId (marginal : List (Nat × Marginal)) (modelId page : Nat) :
    (s.victim marginal modelId page).modelId = modelId := by
  unfold victim
  split
  · rfl
  · simp only
    split
    · rfl
    · rfl

theorem victim_page (marginal : List (Nat × Marginal)) (modelId page : Nat) : (s.victim marginal modelId page).page = page := by
  unfold victim
  split
  · rfl
  · simp only
    split
    · rfl
    · rfl

theorem length_victims : (s.victims activeModelId marginal choices residencies).length =
    (policy.controllers.keys.map fun m => (softPages activeModelId choices residencies m).card).sum := by
  unfold victims
  rw [length_insertionSort, length_flatMap]
  simp

theorem mem_victims {v : Victim} (h : v ∈ s.victims activeModelId marginal choices residencies) :
    v.modelId ∈ policy.controllers.keys ∧ v.page ∈ softPages activeModelId choices residencies v.modelId := by
  obtain ⟨m, hm, hv⟩ := mem_flatMap.1 ((mem_insertionSort _).1 h)
  obtain ⟨page, hpg, rfl⟩ := mem_map.1 hv
  rw [victim_modelId, victim_page]
  exact ⟨hm, (Finset.mem_sort _).1 hpg⟩

theorem nodup_victims : ((s.victims activeModelId marginal choices residencies).map fun v => (v.modelId, v.page)).Nodup := by
  unfold victims
  rw [((perm_insertionSort _ _).map _).nodup_iff, map_flatMap, nodup_flatMap]
  refine ⟨?_, ?_⟩
  · intro m _
    rw [map_map]
    refine List.Nodup.map ?_ (Finset.sort_nodup _ _)
    intro page page' heq
    simpa [victim_page] using congrArg snd heq
  · refine List.Pairwise.imp ?_ policy.controllers.nodup
    intro m m' hne x hx hx'
    obtain ⟨v, hv, rfl⟩ := mem_map.1 hx
    obtain ⟨page, -, rfl⟩ := mem_map.1 hv
    obtain ⟨v', hv', heq⟩ := mem_map.1 hx'
    obtain ⟨page', -, rfl⟩ := mem_map.1 hv'
    have hfst := congrArg fst heq
    simp only [victim_modelId] at hfst
    exact hne hfst.symm

/-! ## What is retained -/

variable {selected : List Victim}

theorem retained_subset (selected : List Victim) (residencies : Dict Nat (Finset ℕ)) (modelId : Nat) :
    retained selected residencies modelId ⊆ pagesOf residencies modelId := Finset.sdiff_subset

theorem mem_softPages_of_not_retained (hsub : ∀ v ∈ selected, v ∈ s.victims activeModelId marginal choices residencies)
    {modelId page : Nat} (hpg : page ∈ pagesOf residencies modelId) (h : page ∉ retained selected residencies modelId) :
    page ∈ softPages activeModelId choices residencies modelId := by
  unfold retained at h
  rw [Finset.mem_sdiff, not_and, not_not] at h
  obtain ⟨v, hv, rfl⟩ := mem_map.1 (mem_toFinset.1 (h hpg))
  obtain ⟨hv, hmod⟩ := mem_filter.1 hv
  have heq : v.modelId = modelId := of_decide_eq_true hmod
  exact heq ▸ (mem_victims (hsub v hv)).2

theorem softPages_subset : softPages activeModelId choices residencies modelId ⊆ pagesOf residencies modelId := by
  unfold softPages
  split
  · exact Finset.empty_subset _
  · exact Finset.sdiff_subset

theorem card_retained (hsub : ∀ v ∈ selected, v ∈ s.victims activeModelId marginal choices residencies)
    (hnd : (selected.map fun v => (v.modelId, v.page)).Nodup) (modelId : Nat) :
    (retained selected residencies modelId).card + (selected.filter fun v => v.modelId = modelId).length =
      (pagesOf residencies modelId).card := by
  have hpgs : ((selected.filter fun v => v.modelId = modelId).map Victim.page).Nodup := by
    have hpairs : ((selected.filter fun v => v.modelId = modelId).map fun v => (v.modelId, v.page)).Nodup :=
      hnd.sublist (filter_sublist.map _)
    have hmap : (selected.filter fun v => v.modelId = modelId).map (fun v => (v.modelId, v.page)) =
        ((selected.filter fun v => v.modelId = modelId).map Victim.page).map fun page => (modelId, page) := by
      rw [map_map]
      refine map_congr_left ?_
      intro v hv
      have heq : v.modelId = modelId := of_decide_eq_true (mem_filter.1 hv).2
      rw [comp_apply, heq]
    rw [hmap] at hpairs
    exact hpairs.of_map
  have hsubset : ((selected.filter fun v => v.modelId = modelId).map Victim.page).toFinset ⊆ pagesOf residencies modelId := by
    intro page hpg
    obtain ⟨v, hv, rfl⟩ := mem_map.1 (mem_toFinset.1 hpg)
    obtain ⟨hv, hmod⟩ := mem_filter.1 hv
    have heq : v.modelId = modelId := of_decide_eq_true hmod
    exact softPages_subset (heq ▸ (mem_victims (hsub v hv)).2)
  have hcard := Finset.card_sdiff_add_card_eq_card hsubset
  rw [toFinset_card_of_nodup hpgs, length_map] at hcard
  exact hcard

theorem sum_retained (hsub : ∀ v ∈ selected, v ∈ s.victims activeModelId marginal choices residencies)
    (hnd : (selected.map fun v => (v.modelId, v.page)).Nodup) :
    (policy.controllers.keys.map fun m => (retained selected residencies m).card).sum + selected.length =
      (policy.controllers.keys.map fun m => (pagesOf residencies m).card).sum := by
  have hlen : (policy.controllers.keys.map fun m => (selected.filter fun v => v.modelId = m).length).sum = selected.length :=
    sum_length_filter policy.controllers.nodup Victim.modelId fun v hv => (mem_victims (hsub v hv)).1
  rw [← hlen, ← sum_map_add]
  exact congrArg sum (map_congr_left fun m _ => card_retained hsub hnd m)

theorem sum_pagesOf (hmds : residencies.keys.Perm policy.controllers.keys) :
    (policy.controllers.keys.map fun m => (pagesOf residencies m).card).sum =
      (residencies.entries.map fun e => e.2.card).sum := by
  rw [← (hmds.map fun m => (pagesOf residencies m).card).sum_eq]
  unfold Dict.keys
  rw [map_map]
  refine congrArg sum (map_congr_left ?_)
  intro e he
  rw [comp_apply, pagesOf, mem_entries_iff.1 he]
  rfl

end State

end ServerlessLLM.Layerweave
