import Mathlib.Data.List.GetD
import Mathlib.Tactic.Linarith
import ServerlessLLM.Library.Sorting
import ServerlessLLM.Simulator.StallTable

/-!
# From the samples to a table that is accepted

A replay is monotone in the groups that are missing, since the times that it carries are.
-/

namespace ServerlessLLM.Simulator.StallTable

open List PrefixStallTable Clock Sorting

variable {groups : List Group} {boundaries : List ℚ} {resident resident' : Nat → Bool} {loadMs loadMs' : Group → ℚ}
  {clock clock' : Clock}

/-! ## The boundaries -/

variable (stageTimes : Dict String ℚ) (forwardEndMs previous : ℚ) (profile : TokenProfile) (overheadMs : ℚ)
  (observedTotal observedRank : Nat)

theorem isChain_groupBoundariesFrom (groups : List Group) :
    (previous :: groupBoundariesFrom stageTimes forwardEndMs previous groups).IsChain (· ≤ ·) := by
  induction groups generalizing previous with
  | nil => exact .singleton _
  | cons group groups ih => exact .cons_cons (le_max_left _ _) (ih _)

@[simp] theorem length_groupBoundariesFrom (groups : List Group) :
    (groupBoundariesFrom stageTimes forwardEndMs previous groups).length = groups.length := by
  induction groups generalizing previous with
  | nil => rfl
  | cons group groups ih => simp [groupBoundariesFrom, ih]

theorem groupBoundaries_le (sample : Sample) {i j : Nat} (hij : i ≤ j) (hj : j < groups.length) :
    (groupBoundaries groups sample.stageTimes sample.forwardEndMs).getD i 0 ≤
      (groupBoundaries groups sample.stageTimes sample.forwardEndMs).getD j 0 := by
  have hchain := (isChain_groupBoundariesFrom sample.stageTimes sample.forwardEndMs 0 groups).pairwise.of_cons
  have hlen := length_groupBoundariesFrom sample.stageTimes sample.forwardEndMs 0 groups
  unfold groupBoundaries
  rw [getD_eq_getElem _ _ (by omega), getD_eq_getElem _ _ (by omega)]
  rcases hij.eq_or_lt with rfl | hlt
  · exact le_rfl
  · exact pairwise_iff_getElem.1 hchain i j (by omega) (by omega) hlt

theorem median_le_median {l l' : List ℚ} (h : List.Forall₂ (· ≤ ·) l l') : median l ≤ median l' := by
  have hsrt := forall₂_insertionSort h
  unfold median
  simp only [length_insertionSort, h.length_eq]
  split
  · exact getD_le_getD hsrt _
  · have hlow := getD_le_getD (d := 0) hsrt (l'.length / 2 - 1)
    have hhigh := getD_le_getD (d := 0) hsrt (l'.length / 2)
    linarith

theorem isChain_medianGroupBoundaryMs (groups : List Group) : (profile.medianGroupBoundaryMs groups).IsChain (· ≤ ·) := by
  refine List.Pairwise.isChain (pairwise_map.2 (pairwise_lt_range.imp_of_mem fun {i j} _ hj hij => median_le_median ?_))
  rw [forall₂_map_left_iff, forall₂_map_right_iff, forall₂_same]
  exact fun sample _ => groupBoundaries_le sample hij.le (mem_range.1 hj)

@[simp] theorem length_medianGroupBoundaryMs (groups : List Group) :
    (profile.medianGroupBoundaryMs groups).length = groups.length := by simp [TokenProfile.medianGroupBoundaryMs]

theorem isChain_correctFrom (previous : ℚ) (l : List (ℚ × Group)) :
    (previous :: correctFrom overheadMs observedTotal observedRank previous l).IsChain (· ≤ ·) := by
  induction l generalizing observedRank previous with
  | nil => exact .singleton _
  | cons x l ih => exact .cons_cons ((le_max_left _ _).trans (le_max_left _ _)) (ih _ _)

@[simp] theorem length_correctFrom (previous : ℚ) (l : List (ℚ × Group)) :
    (correctFrom overheadMs observedTotal observedRank previous l).length = l.length := by
  induction l generalizing observedRank previous with
  | nil => rfl
  | cons x l ih => simp [correctFrom, ih]

theorem isChain_correctEventOverhead (h : boundaries.IsChain (· ≤ ·)) (groups : List Group) (overheadMs : Option ℚ) :
    (correctEventOverhead boundaries groups overheadMs).IsChain (· ≤ ·) := by
  unfold correctEventOverhead
  simp only
  split
  · exact h
  · exact (isChain_correctFrom _ _ _ _ _).tail

theorem length_correctEventOverhead (h : boundaries.length = groups.length) (overheadMs : Option ℚ) :
    (correctEventOverhead boundaries groups overheadMs).length = groups.length := by
  unfold correctEventOverhead
  simp only
  split
  · exact h
  · simp [h]

/-! ## The replay -/

/-- One clock is nowhere ahead of the other, over the same measured times. -/
inductive Clock.Le : Clock → Clock → Prop
  | start {copyEnd copyEnd' : ℚ} (hcopy : copyEnd ≤ copyEnd') : Le ⟨none, copyEnd⟩ ⟨none, copyEnd'⟩
  | going {actual actual' measured copyEnd copyEnd' : ℚ} (hactual : actual ≤ actual') (hcopy : copyEnd ≤ copyEnd') :
    Le ⟨some (actual, measured), copyEnd⟩ ⟨some (actual', measured), copyEnd'⟩

theorem Clock.Le.boundary (h : Clock.Le clock clock') (baseline : ℚ) {load load' : Option ℚ}
    (hld : ∀ ms, load = some ms → ∃ ms', load' = some ms' ∧ ms ≤ ms') (hnn : ∀ ms, load' = some ms → 0 ≤ ms) :
    Le (clock.boundary baseline load) (clock'.boundary baseline load') := by
  cases h with
  | start hcopy =>
    cases load with
    | none =>
      cases load' with
      | none => exact .going le_rfl hcopy
      | some ms => exact .going (le_max_left _ _) (hcopy.trans (le_add_of_nonneg_right (hnn ms rfl)))
    | some ms =>
      obtain ⟨ms', hms', hle⟩ := hld ms rfl
      rw [hms']
      have hend := add_le_add hcopy hle
      exact .going (max_le_max le_rfl hend) hend
  | @going actual actual' measured _ _ hactual hcopy =>
    have hrdy := add_le_add hactual (le_refl (max 0 (baseline - measured)))
    have hstart := max_le_max hcopy hactual
    cases load with
    | none =>
      cases load' with
      | none => exact .going hrdy hcopy
      | some ms =>
        exact .going (hrdy.trans (le_max_left _ _))
          ((hcopy.trans (le_max_left _ _)).trans (le_add_of_nonneg_right (hnn ms rfl)))
    | some ms =>
      obtain ⟨ms', hms', hle⟩ := hld ms rfl
      rw [hms']
      have hend := add_le_add hstart hle
      exact .going (max_le_max hrdy hend) hend

theorem Clock.Le.replayFrom (h : Clock.Le clock clock') (hresident : ∀ i, resident' i = true → resident i = true)
    (hld : ∀ group, loadMs group ≤ loadMs' group) (hnn : ∀ group, 0 ≤ loadMs' group) (index : Nat) (l : List (ℚ × Group)) :
    Le (replayFrom resident loadMs clock index l) (replayFrom resident' loadMs' clock' index l) := by
  induction l generalizing clock clock' index with
  | nil => exact h
  | cons x l ih =>
    obtain ⟨baseline, group⟩ := x
    refine ih (h.boundary baseline ?_ ?_) (index + 1)
    · intro ms hms
      refine ⟨loadMs' group, ?_, ?_⟩
      · cases hobs : group.observed with
        | false => simp [hobs] at hms
        | true =>
          cases hres : resident index with
          | true => simp [hres] at hms
          | false =>
            have hres' : resident' index = false := by
              rw [← Bool.not_eq_true]
              intro htrue
              rw [hresident index htrue] at hres
              cases hres
            simp [hres']
      · split at hms
        · cases hms
          exact hld group
        · cases hms
    · intro ms hms
      split at hms
      · cases hms
        exact hnn group
      · cases hms

theorem replayStall_mono (boundaries : List ℚ) (groups : List Group) (hres : ∀ i, resident' i = true → resident i = true)
    (hld : ∀ group, loadMs group ≤ loadMs' group) (hnn : ∀ group, 0 ≤ loadMs' group) :
    replayStall boundaries groups resident loadMs ≤ replayStall boundaries groups resident' loadMs' := by
  have h := Le.replayFrom (.start (le_refl 0)) hres hld hnn 0 (boundaries.zip groups)
  unfold replayStall
  generalize replayFrom resident loadMs ⟨none, 0⟩ 0 (boundaries.zip groups) = clock at h ⊢
  generalize replayFrom resident' loadMs' ⟨none, 0⟩ 0 (boundaries.zip groups) = clock' at h ⊢
  cases h with
  | start hcopy => exact le_rfl
  | going hactual hcopy => exact max_le_max le_rfl (sub_le_sub_right hactual _)

theorem replayStall_nonneg (boundaries : List ℚ) (groups : List Group) (resident : Nat → Bool) (loadMs : Group → ℚ) :
    0 ≤ replayStall boundaries groups resident loadMs := by
  unfold replayStall
  split
  · exact le_rfl
  · exact le_max_left _ _

theorem replayFrom_resident (loadMs : Group → ℚ) (hres : ∀ i, resident i = true) (previous copyEnd : ℚ) (index : Nat)
    (l : List (ℚ × Group))
    (h : (previous :: l.map Prod.fst).IsChain (· ≤ ·)) :
    (replayFrom resident loadMs ⟨some (previous, previous), copyEnd⟩ index l).previous =
      some ((previous :: l.map Prod.fst).getLast (by simp), (previous :: l.map Prod.fst).getLast (by simp)) := by
  induction l generalizing previous index with
  | nil => rfl
  | cons x l ih =>
    obtain ⟨baseline, group⟩ := x
    rw [map_cons, isChain_cons_cons] at h
    have hboundary : boundary ⟨some (previous, previous), copyEnd⟩ baseline none = ⟨some (baseline, baseline), copyEnd⟩ := by
      simp [boundary, max_eq_right (sub_nonneg.2 h.1)]
    rw [replayFrom]
    simp only [hres index, Bool.not_true, Bool.false_and, Bool.false_eq_true, if_false, hboundary]
    rw [ih _ (index + 1) h.2]
    rfl

theorem replayStall_resident (loadMs : Group → ℚ) (resident : Nat → Bool) (h : boundaries.IsChain (· ≤ ·))
    (hlen : boundaries.length = groups.length)
    (hres : ∀ i, resident i = true) : replayStall boundaries groups resident loadMs = 0 := by
  unfold replayStall
  cases boundaries with
  | nil => rfl
  | cons baseline boundaries =>
    cases groups with
    | nil => cases hlen
    | cons group groups =>
      have hfst : (boundaries.zip groups).map Prod.fst = boundaries := map_fst_zip (by simpa using hlen.le)
      have hreplay := replayFrom_resident loadMs hres baseline 0 1 (boundaries.zip groups) (by rw [hfst]; exact h)
      simp only [zip_cons_cons, replayFrom, hres 0, Bool.not_true, Bool.false_and, Bool.false_eq_true, if_false]
      have hboundary : boundary ⟨none, 0⟩ baseline none = ⟨some (baseline, baseline), 0⟩ := rfl
      rw [hboundary, hreplay]
      simp only [hfst]
      rw [getLast?_eq_some_getLast (by simp)]
      simp

/-! ## The stalls and their envelopes -/

variable (costs : Costs)

theorem loadMs_nonneg (group : Group) : 0 ≤ group.logicalBytes / costs.h2dBytesPerMs + costs.allocationMs :=
  add_nonneg (div_nonneg (Nat.cast_nonneg _) costs.bytesPerMs_pos.le) costs.allocationMs_nonneg

theorem isChain_prefixStalls (groups : List Group) (boundaries : List ℚ) :
    (prefixStalls costs groups boundaries).IsChain (· ≥ ·) := by
  refine List.Pairwise.isChain (pairwise_map.2 (pairwise_lt_range.imp fun {i j} hij => ?_))
  refine replayStall_mono boundaries groups ?_ (fun _ => le_rfl) (loadMs_nonneg costs)
  intro index hindex
  simp only [decide_eq_true_eq] at hindex ⊢
  omega

theorem isChain_suffixStalls (groups : List Group) (boundaries : List ℚ) :
    (suffixStalls costs groups boundaries).IsChain (· ≤ ·) := by
  refine List.Pairwise.isChain (pairwise_map.2 (pairwise_lt_range.imp fun {i j} hij => ?_))
  refine replayStall_mono boundaries groups ?_ (fun _ => le_rfl) (loadMs_nonneg costs)
  intro index hindex
  simp only [decide_eq_true_eq] at hindex ⊢
  omega

theorem replayFrom_congr (resident' : Nat → Bool) (l : List (ℚ × Group)) (clock : Clock) (index : Nat)
    (h : ∀ i, index ≤ i → i < index + l.length → resident i = resident' i) :
    replayFrom resident loadMs clock index l = replayFrom resident' loadMs clock index l := by
  induction l generalizing clock index with
  | nil => rfl
  | cons x l ih =>
    obtain ⟨baseline, group⟩ := x
    rw [replayFrom, replayFrom, h index le_rfl (by simp)]
    exact ih _ _ fun i hi hlt => h i (by omega) (by simp only [length_cons]; omega)

theorem simulatePrefixStall_all (h : boundaries.IsChain (· ≤ ·)) (hlen : boundaries.length = groups.length)
    (h2d allocation : ℚ) :
    simulatePrefixStall boundaries groups groups.length h2d allocation = 0 := by
  unfold simulatePrefixStall simulateResidencyStall
  rw [← replayStall_resident (fun group => group.logicalBytes / h2d + allocation) (fun _ => true) h hlen fun _ => rfl]
  unfold replayStall
  rw [replayFrom_congr fun _ => true]
  intro i _ hi
  simp only [length_zip, hlen, min_self] at hi
  simpa using hi

theorem simulateSuffixStall_zero (h : boundaries.IsChain (· ≤ ·)) (hlen : boundaries.length = groups.length)
    (h2d allocation : ℚ) :
    simulateSuffixStall boundaries groups 0 h2d allocation = 0 :=
  replayStall_resident _ _ h hlen fun _ => decide_eq_true (Nat.zero_le _)

theorem getLast?_prefixStalls (h : boundaries.IsChain (· ≤ ·)) (hlen : boundaries.length = groups.length) :
    (prefixStalls costs groups boundaries).getLast? = some 0 := by
  unfold prefixStalls
  rw [range_succ, map_append, map_singleton, getLast?_concat, simulatePrefixStall_all h hlen]

theorem head?_suffixStalls (h : boundaries.IsChain (· ≤ ·)) (hlen : boundaries.length = groups.length) :
    (suffixStalls costs groups boundaries).head? = some 0 := by
  unfold suffixStalls
  rw [range_succ_eq_map, map_cons, head?_cons, simulateSuffixStall_zero h hlen]

variable {l : List ℚ} (model : Nat)

theorem map_max_zero (h : ∀ value ∈ l, 0 ≤ value) : l.map (max 0) = l :=
  (map_congr_left fun value hval => max_eq_right (h value hval)).trans (map_id l)

theorem raiseBackward_of_chain (h : l.IsChain (· ≥ ·)) : raiseBackward l = l := by
  induction l with
  | nil => rfl
  | cons value l ih =>
    rw [raiseBackward, ih h.tail]
    cases l with
    | nil => rfl
    | cons next rest =>
      simp only
      rw [max_eq_left (isChain_cons_cons.1 h).1]

theorem raiseForward_of_chain {previous : ℚ} (h : (previous :: l).IsChain (· ≤ ·)) : raiseForward previous l = l := by
  induction l generalizing previous with
  | nil => rfl
  | cons value l ih =>
    rw [isChain_cons_cons] at h
    rw [raiseForward, max_eq_left h.1, ih h.2]

theorem monotoneEnvelope_of_chain (h : l.IsChain (· ≥ ·)) (hla : l.getLast? = some 0)
    (hnn : ∀ value ∈ l, 0 ≤ value) : monotoneEnvelope l = l := by
  unfold monotoneEnvelope
  obtain ⟨front, rfl⟩ := getLast?_eq_some_iff.1 hla
  rw [map_max_zero hnn]
  simp only [length_append, length_singleton, Nat.add_sub_cancel]
  rw [set_append_right _ _ le_rfl, Nat.sub_self, set_cons_zero]
  exact raiseBackward_of_chain h

theorem increasingMonotoneEnvelope_of_chain (h : l.IsChain (· ≤ ·)) (hhead : l.head? = some 0)
    (hnn : ∀ value ∈ l, 0 ≤ value) : increasingMonotoneEnvelope l = l := by
  unfold increasingMonotoneEnvelope
  rw [map_max_zero hnn]
  cases l with
  | nil => rfl
  | cons value l =>
    obtain rfl : value = 0 := by simpa using hhead
    simp only [set_cons_zero]
    rw [raiseForward_of_chain h]

theorem prefixStalls_nonneg (groups : List Group) (boundaries : List ℚ) :
    ∀ value ∈ prefixStalls costs groups boundaries, 0 ≤ value := by
  intro value hval
  obtain ⟨prefixCount, -, rfl⟩ := mem_map.1 hval
  exact replayStall_nonneg _ _ _ _

theorem suffixStalls_nonneg (groups : List Group) (boundaries : List ℚ) :
    ∀ value ∈ suffixStalls costs groups boundaries, 0 ≤ value := by
  intro value hval
  obtain ⟨suffixStart, -, rfl⟩ := mem_map.1 hval
  exact replayStall_nonneg _ _ _ _

/-! ## The table -/

/-- What the builder finds in a profile: the boundaries are in order, and so are the stalls, which the envelopes leave as they
are. -/
structure InOrder (groups : List Group) (raw corrected : List ℚ) : Prop where
  boundaries : raw.IsChain (· ≤ ·)
  correctedBoundaries : corrected.IsChain (· ≤ ·)
  prefixes : (prefixStalls costs groups corrected).IsChain (· ≥ ·)
  full : (prefixStalls costs groups corrected).getLast? = some 0
  suffixes : (suffixStalls costs groups corrected).IsChain (· ≤ ·)
  start : (suffixStalls costs groups corrected).head? = some 0
  envelope : monotoneEnvelope (prefixStalls costs groups corrected) = prefixStalls costs groups corrected
  increasingEnvelope : increasingMonotoneEnvelope (suffixStalls costs groups corrected) = suffixStalls costs groups corrected

theorem inOrder (groups : List Group) (profile : TokenProfile) : InOrder costs groups (profile.medianGroupBoundaryMs groups)
    (correctEventOverhead (profile.medianGroupBoundaryMs groups) groups profile.eventGpuOverheadMs) := by
  have hraw := isChain_medianGroupBoundaryMs profile groups
  have hcor := isChain_correctEventOverhead hraw groups profile.eventGpuOverheadMs
  have hlen := length_correctEventOverhead (length_medianGroupBoundaryMs profile groups) profile.eventGpuOverheadMs
  have hprefixes := isChain_prefixStalls costs groups
    (correctEventOverhead (profile.medianGroupBoundaryMs groups) groups profile.eventGpuOverheadMs)
  have hsuffixes := isChain_suffixStalls costs groups
    (correctEventOverhead (profile.medianGroupBoundaryMs groups) groups profile.eventGpuOverheadMs)
  have hfull := getLast?_prefixStalls costs hcor hlen
  have hstart := head?_suffixStalls costs hcor hlen
  exact ⟨hraw, hcor, hprefixes, hfull, hsuffixes, hstart,
    monotoneEnvelope_of_chain hprefixes hfull (prefixStalls_nonneg costs _ _),
    increasingMonotoneEnvelope_of_chain hsuffixes hstart (suffixStalls_nonneg costs _ _)⟩

theorem replay_tableRow (groups : List Group) (profile : TokenProfile) {count : Nat} (hcnt : count ≤ groups.length) :
    (tableRow costs groups profile).prefixStallMs[count]? =
      some (simulateComponentStall (tableRow costs groups profile).groupBoundaryMs
      groups (fun index => index < count) (some costs.h2dBytesPerMs) costs.allocationMs) ∧
    ∃ suffix, (tableRow costs groups profile).suffixStallMs = some suffix ∧ suffix[count]? = some (simulateComponentStall
      (tableRow costs groups profile).groupBoundaryMs groups (fun index => count ≤ index) (some costs.h2dBytesPerMs)
      costs.allocationMs) := by
  have h := inOrder costs groups profile
  have hrng : (range (groups.length + 1))[count]? = some count := getElem?_range (by omega)
  refine ⟨?_, _, rfl, ?_⟩
  · unfold tableRow
    simp only [h.envelope]
    unfold prefixStalls
    rw [getElem?_map, hrng]
    rfl
  · simp only [h.increasingEnvelope]
    unfold suffixStalls
    rw [getElem?_map, hrng]
    rfl

theorem checkRow_tableRow (groups : List Group) (profile : TokenProfile) :
    checkRow model groups.length (tableRow costs groups profile).toStallRow = .ok () := by
  have h := inOrder costs groups profile
  unfold checkRow tableRow
  simp only [h.envelope, h.increasingEnvelope]
  rw [if_neg (by simp [prefixStalls]), if_neg (not_not.2 h.full), if_neg (not_not.2 h.prefixes),
    if_neg (by simp [suffixStalls]),
    if_neg (not_not.2 h.start), if_neg (not_not.2 h.suffixes)]

theorem checkRows_ok {model groupCount : Nat} {rows : List StallRow}
    (h : ∀ row ∈ rows, checkRow model groupCount row = .ok ()) :
    checkRows model groupCount rows = .ok () := by
  induction rows with
  | nil => rfl
  | cons row rows ih =>
    rw [checkRows, h row mem_cons_self]
    exact ih fun row' hrow' => h row' (mem_cons_of_mem row hrow')

theorem isChain_scanl (l : List Nat) (bytes : Nat) : (l.scanl (· + ·) bytes).IsChain (· ≤ ·) := by
  induction l generalizing bytes with
  | nil => exact .singleton _
  | cons a l ih =>
    rw [scanl_cons]
    cases l with
    | nil => exact .cons_cons (Nat.le_add_right _ _) (.singleton _)
    | cons b l =>
      have h := ih (bytes + a)
      rw [scanl_cons] at h ⊢
      exact .cons_cons (Nat.le_add_right _ _) h

theorem acceptModel_tableModel (profile : ModelProfile) :
    PrefixStallTable.acceptModel model (tableModel costs profile) = .ok (tableModel costs profile) := by
  have hsrt : (tableModel costs profile).rows.insertionSort (fun a b => a.inputTokens ≤ b.inputTokens) =
      (tableModel costs profile).rows := by
    refine List.Pairwise.insertionSort_eq ?_
    unfold tableModel tableRows
    rw [map_map, pairwise_map]
    exact pairwise_insertionSort _ _
  have hpm : ((tableModel costs profile).rows.map StallRow.inputTokens).Perm
    (profile.profiles.map TokenProfile.inputTokens) := by
    unfold tableModel tableRows
    rw [map_map, map_map]
    exact (perm_insertionSort _ _).map _
  have hrows : (tableModel costs profile).rows ≠ [] := by
    intro hnil
    rw [hnil] at hpm
    exact profile.profiles_ne_nil (map_eq_nil_iff.1 hpm.nil_eq.symm)
  have hchecks : PrefixStallTable.checkRows model (tableModel costs profile).groupCount
    (tableModel costs profile).rows = .ok () := by
    refine checkRows_ok ?_
    intro row hrow
    obtain ⟨tableRow', hmem, rfl⟩ := mem_map.1 hrow
    obtain ⟨tokens, -, rfl⟩ := mem_map.1 hmem
    exact checkRow_tableRow costs model profile.groups tokens
  have hbyt : (tableModel costs profile).prefixBytes.IsChain (· ≤ ·) := isChain_scanl _ _
  unfold PrefixStallTable.acceptModel
  simp only [hsrt]
  rw [if_neg (by simp [tableModel]), if_neg (not_not.2 hbyt),
    if_neg (by rw [not_or, not_not]; exact ⟨hrows, hpm.nodup_iff.2 profile.nodup⟩), hchecks]
  rfl

theorem acceptModels_document (profiles : List ModelProfile) (models : Dict Nat StallModel) :
    ∃ accepted, acceptModels (document costs profiles) models = .ok accepted := by
  induction profiles generalizing models with
  | nil => exact ⟨models, rfl⟩
  | cons profile profiles ih =>
    obtain ⟨accepted, hacc⟩ := ih (models.set profile.modelId (tableModel costs profile))
    refine ⟨accepted, ?_⟩
    unfold document at hacc ⊢
    rw [map_cons, acceptModels, acceptModel_tableModel]
    exact hacc

/-- The table that is made of any profiles is accepted. Of each profile the boundaries and the stalls are in order as they are,
and each stall that is stored is the one that its row replays to. -/
theorem table_accepted (profiles : List ModelProfile) (extrapolation : InputExtrapolation) :
    (∃ table, accept (document costs profiles) extrapolation = .ok table) ∧
    ∀ profile ∈ profiles, ∀ tokens ∈ profile.profiles,
      InOrder costs profile.groups (tokens.medianGroupBoundaryMs profile.groups)
        (tableRow costs profile.groups tokens).groupBoundaryMs ∧
      tableRow costs profile.groups tokens ∈ tableRows costs profile ∧
      ∀ count ≤ profile.groups.length,
        (tableRow costs profile.groups tokens).prefixStallMs[count]? = some (simulateComponentStall
          (tableRow costs profile.groups tokens).groupBoundaryMs profile.groups (fun index => index < count)
          (some costs.h2dBytesPerMs) costs.allocationMs) ∧
        ∃ suffix, (tableRow costs profile.groups tokens).suffixStallMs = some suffix ∧
          suffix[count]? = some (simulateComponentStall
          (tableRow costs profile.groups tokens).groupBoundaryMs profile.groups (fun index => count ≤ index)
          (some costs.h2dBytesPerMs) costs.allocationMs) := by
  constructor
  · obtain ⟨accepted, hacc⟩ := acceptModels_document costs profiles .empty
    refine ⟨⟨accepted, extrapolation⟩, ?_⟩
    unfold accept
    rw [hacc]
    rfl
  · intro profile _ tokens htok
    exact ⟨inOrder costs profile.groups tokens, mem_map_of_mem ((mem_insertionSort _).2 htok),
      fun count hcnt => replay_tableRow costs profile.groups tokens hcnt⟩

def tenBytesPerMs : Costs := ⟨10, by norm_num, 1, by norm_num⟩

/-- Two groups, of which the second was not observed, and two samples. -/
def twoGroups : ModelProfile where
  modelId := 7
  groups := [⟨["embed"], 40, true⟩, ⟨["head"], 20, false⟩]
  profiles := [⟨1, [⟨⟨[("embed", 2), ("head", 5)], by decide⟩, 9⟩, ⟨⟨[("embed", 4)], by decide⟩, 8⟩], by simp, some 1, some 9⟩]
  profiles_ne_nil := by simp
  nodup := by simp

theorem table_accepted_twoGroups :
    (∃ table, accept (document tenBytesPerMs [twoGroups]) .clamp = .ok table) ∧ ∀ tokens ∈ twoGroups.profiles,
      InOrder tenBytesPerMs twoGroups.groups (tokens.medianGroupBoundaryMs twoGroups.groups)
        (tableRow tenBytesPerMs twoGroups.groups tokens).groupBoundaryMs :=
  ⟨(table_accepted tenBytesPerMs [twoGroups] .clamp).1, fun tokens htokens =>
    ((table_accepted tenBytesPerMs [twoGroups] .clamp).2 twoGroups mem_cons_self tokens htokens).1⟩

end ServerlessLLM.Simulator.StallTable
