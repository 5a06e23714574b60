import Mathlib.Algebra.BigOperators.Group.Finset.Piecewise
import Mathlib.Algebra.BigOperators.Ring.Finset
import Mathlib.Algebra.Order.BigOperators.Group.Finset
import Mathlib.Data.Finset.Max
import ServerlessLLM.Library.Runs
import ServerlessLLM.Simulator.ControlledTrace

/-!
# What controlled traces keep

The loops of the three builders append one model after the other (`Grows`).
-/

namespace ServerlessLLM.Simulator.ControlledTrace

open List Finset Dict Function Except Prod Outcome

/-! ## Counters -/

namespace Counter

/-- No model is counted twice, or below zero. -/
structure Sound (c : Counter) : Prop where
  nodup : c.models.Nodup
  nonneg : ∀ m, 0 ≤ c.value m
  others : ∀ m ∉ c.models, c.value m = 0

variable {c : Counter} {k m : ℤ} {l : List ℤ}

theorem Sound.mem_models (h : c.Sound) (hm : 0 < c.value m) : m ∈ c.models := by
  by_contra hnot
  exact hm.ne' (h.others m hnot)

theorem Sound.sum_eq (h : c.Sound) {s : Finset ℤ} (hs : c.models.toFinset ⊆ s) : c.sum = ∑ m ∈ s, c.value m := by
  unfold sum
  rw [← sum_toFinset _ h.nodup]
  exact sum_subset hs fun m _ hm => h.others m fun hmem => hm (mem_toFinset.2 hmem)

theorem Sound.add_le_sum (h : c.Sound) (hne : k ≠ m) : c.value k + c.value m ≤ c.sum := by
  rw [h.sum_eq (s := c.models.toFinset ∪ {k, m}) subset_union_left, ← sum_pair hne]
  exact sum_le_sum_of_subset_of_nonneg subset_union_right fun m _ _ => h.nonneg m

theorem Sound.le_sum (h : c.Sound) (m : ℤ) : c.value m ≤ c.sum := by
  have hle := h.add_le_sum (k := m) (m := m + 1) (by omega)
  have := h.nonneg (m + 1)
  omega

theorem subtract_models (hm : m ∈ c.models) : (c.subtract m).models = c.models := if_pos hm

theorem subtract_value (c : Counter) (m k : ℤ) : (c.subtract m).value k = c.value k - if k = m then 1 else 0 := by
  unfold subtract
  dsimp only
  by_cases hk : k = m
  · rw [hk, update_self, if_pos rfl]
  · rw [update_of_ne hk, if_neg hk, sub_zero]

theorem Sound.subtract (h : c.Sound) (hm : 0 < c.value m) : (c.subtract m).Sound where
  nodup := by
    rw [subtract_models (h.mem_models hm)]
    exact h.nodup
  nonneg k := by
    rw [subtract_value]
    split
    · rename_i hk
      rw [hk]
      omega
    · rw [sub_zero]
      exact h.nonneg k
  others k hk := by
    rw [subtract_models (h.mem_models hm)] at hk
    rw [subtract_value, h.others k hk, if_neg]
    · rfl
    · rintro rfl
      exact hk (h.mem_models hm)

theorem Sound.sum_subtract (h : c.Sound) (hm : 0 < c.value m) : (c.subtract m).sum = c.sum - 1 := by
  have hmem := h.mem_models hm
  rw [(h.subtract hm).sum_eq (s := c.models.toFinset) (by rw [subtract_models hmem]), h.sum_eq (Subset.refl _)]
  simp only [subtract_value, sum_sub_distrib, sum_ite_eq', mem_toFinset, if_pos hmem]

theorem Sound.foldl_subtract (h : c.Sound) (hl : ∀ m, (l.count m : ℤ) ≤ c.value m) :
    (l.foldl Counter.subtract c).Sound ∧ ∀ m, (l.foldl Counter.subtract c).value m = c.value m - l.count m := by
  induction l generalizing c with
  | nil => exact ⟨h, fun m => by simp⟩
  | cons a l ih =>
    have ha := hl a
    rw [count_cons_self] at ha
    obtain ⟨hsnd, hval⟩ := ih (h.subtract (m := a) (by omega)) fun m => by
      have := hl m
      rw [count_cons] at this
      rw [subtract_value]
      by_cases hm : m = a
      · simp [hm] at this ⊢
        omega
      · simpa [hm, Ne.symm hm] using this
    refine ⟨hsnd, fun m => ?_⟩
    rw [foldl_cons, hval, subtract_value, count_cons]
    by_cases hm : m = a
    · simp [hm]
      omega
    · simp [hm, Ne.symm hm]

theorem mem_most : m ∈ c.most l ↔ m ∈ l ∧ ∀ k ∈ l, c.value k ≤ c.value m := by
  unfold most
  rw [mem_filter, decide_eq_true_eq, eq_comm, max?_eq_some_iff]
  simp only [List.mem_map, forall_exists_index, and_imp, forall_apply_eq_imp_iff₂]
  exact ⟨fun h => ⟨h.1, h.2.2⟩, fun h => ⟨h.1, ⟨m, h.1, rfl⟩, h.2⟩⟩

theorem most_ne_nil (hl : l ≠ []) : c.most l ≠ [] := by
  obtain ⟨m, hm, hmax⟩ := l.toFinset.exists_max_image c.value (by simpa [toFinset_nonempty_iff] using hl)
  refine ne_nil_of_mem (mem_most.2 ⟨mem_toFinset.1 hm, fun k hk => ?_⟩)
  exact hmax k (mem_toFinset.2 hk)

theorem sound_ofCounts (counts : Dict ℤ ℕ) : (ofCounts counts).Sound where
  nodup := counts.nodup
  nonneg _ := Int.natCast_nonneg _
  others m hm := by
    change (((counts.get? m).getD 0 : ℕ) : ℤ) = 0
    rw [get?_eq_none_iff.2 hm]
    rfl

end Counter

open Counter

/-! ## Sequences that grow -/

namespace Tail

variable {t t' t'' : Tail} {k m : ℤ} {l : List ℤ} {rng rng' : Rng}

/-- Models that remain are appended, none behind itself. -/
inductive Grows : Tail → Tail → Prop where
  | refl (t : Tail) : Grows t t
  | append {t t' : Tail} (m : ℤ) : Grows t t' → t'.sequence.getLast? ≠ some m → 0 < t'.remaining.value m → Grows t (t'.append m)

theorem Grows.single (hla : t.sequence.getLast? ≠ some m) (hm : 0 < t.remaining.value m) : Grows t (t.append m) :=
  .append m (.refl t) hla hm

theorem Grows.trans (h : Grows t t') (h' : Grows t' t'') : Grows t t'' := by
  induction h' with
  | refl => exact h
  | append m _ hla hm ih => exact .append m ih hla hm

theorem Grows.sound (h : Grows t t') (ht : t.remaining.Sound) : t'.remaining.Sound := by
  induction h with
  | refl => exact ht
  | append m _ _ hm ih => exact ih.subtract hm

theorem Grows.chain (h : Grows t t') (ht : t.sequence.IsChain (· ≠ ·)) : t'.sequence.IsChain (· ≠ ·) := by
  induction h with
  | refl => exact ht
  | append m _ hla _ ih =>
    refine isChain_append.2 ⟨ih, isChain_singleton m, ?_⟩
    rintro x hx y hy rfl
    obtain rfl : m = x := Option.some.inj hy
    exact hla hx

theorem Grows.count (h : Grows t t') :
    ∃ rest, t'.sequence = t.sequence ++ rest ∧ ∀ m, t'.remaining.value m + rest.count m = t.remaining.value m := by
  induction h with
  | refl => exact ⟨[], (append_nil _).symm, fun m => by simp⟩
  | append m _ _ _ ih =>
    obtain ⟨rest, hseq, hcnt⟩ := ih
    refine ⟨rest ++ [m], ?_, fun k => ?_⟩
    · rw [← append_assoc, ← hseq]
      rfl
    · have := hcnt k
      change (subtract _ m).value k + _ = _
      rw [subtract_value, count_append, count_singleton]
      by_cases hk : k = m
      · simp [hk] at this ⊢
        omega
      · simpa [hk, Ne.symm hk] using this

/-! ## The steps -/

theorem choice_ok (h : choice l rng = .ok (m, rng')) : m ∈ l := by
  unfold choice at h
  split at h
  · rename_i a ha
    obtain ⟨rfl, -⟩ := Prod.mk.inj (ok.inj h)
    exact mem_of_getElem? ha
  · cases h

theorem choice_of_ne_nil (hl : l ≠ []) (rng : Rng) : ∃ m ∈ l, choice l rng = .ok (m, rng.next) := by
  have hlt : rng 0 % l.length < l.length := Nat.mod_lt _ (length_pos_iff.2 hl)
  refine ⟨l[rng 0 % l.length], getElem_mem hlt, ?_⟩
  unfold choice
  rw [getElem?_eq_getElem hlt]

theorem mem_available : m ∈ t.available ↔ m ∈ t.remaining.models ∧ 0 < t.remaining.value m := by
  unfold available
  rw [mem_filter, decide_eq_true_eq]

theorem mem_candidates : m ∈ t.candidates ↔ m ∈ t.available ∧ t.sequence.getLast? ≠ some m := by
  unfold candidates
  rw [mem_filter, decide_eq_true_eq]

theorem Grows.of_candidate (hm : m ∈ t.candidates) : Grows t (t.append m) := by
  obtain ⟨hmem, hla⟩ := mem_candidates.1 hm
  exact .single hla (mem_available.1 hmem).2

theorem append_of_choice {l : List ℤ} (h : ((choice l rng).map fun c => (t.append c.1, c.2)) = .ok (t', rng')) :
    ∃ m ∈ l, t' = t.append m := by
  cases hch : choice l rng with
  | error => rw [hch] at h; cases h
  | ok c =>
    rw [hch] at h
    exact ⟨c.1, choice_ok hch, (congrArg fst (ok.inj h)).symm⟩

theorem balancedStep_grows (h : t.balancedStep rng = .ok (t', rng')) : Grows t t' := by
  unfold balancedStep at h
  split at h
  · cases h
  · obtain ⟨m, hm, rfl⟩ := append_of_choice h
    exact .of_candidate (mem_most.1 hm).1

theorem oldestStep_grows (h : t.oldestStep rng = .ok (t', rng')) : Grows t t' := by
  unfold oldestStep at h
  split at h
  · cases h
  · obtain ⟨m, hm, rfl⟩ := append_of_choice h
    exact .of_candidate (mem_filter.1 (mem_most.1 hm).1).1

theorem Pair.rounds_grow {first second : ℤ} (hne : first ≠ second) (n : ℕ) (hla : t.sequence.getLast? ≠ some first)
    (hfst : n ≤ t.remaining.value first) (hsec : n ≤ t.remaining.value second) :
    Grows t (Pair.round^[n] ⟨first, second, t⟩).tail := by
  induction n generalizing t with
  | zero => exact .refl t
  | succ n ih =>
    have hbhd : (t.append first).sequence.getLast? ≠ some second := by
      rw [append, getLast?_concat]
      exact fun h => hne (Option.some.inj h)
    have hround : Pair.round ⟨first, second, t⟩ = ⟨first, second, (t.append first).append second⟩ := by
      unfold Pair.round
      rw [foldl_cons, foldl_cons, foldl_nil]
      unfold Pair.add
      rw [if_neg hla, if_neg hbhd]
    have hval : (t.append first).remaining.value second = t.remaining.value second := by
      rw [append, subtract_value, if_neg hne.symm, sub_zero]
    rw [iterate_succ_apply, hround]
    refine ((Grows.single hla (by omega)).append second hbhd (by omega)).trans (ih ?_ ?_ ?_)
    · rw [append, getLast?_concat]
      exact fun h => hne (Option.some.inj h).symm
    · change _ ≤ (subtract (subtract _ first) second).value first
      rw [subtract_value, subtract_value, if_neg hne, if_pos rfl]
      omega
    · change _ ≤ (subtract _ second).value second
      rw [subtract_value, if_pos rfl, hval]
      omega

theorem pairStep_grows (h : t.pairStep rng = .ok (t', rng')) : Grows t t' := by
  unfold pairStep at h
  split at h
  · rename_i m hm
    split at h
    · cases h
    · rename_i hla
      obtain ⟨rfl, -⟩ := Prod.mk.inj (ok.inj h)
      have hmem : m ∈ t.available := hm ▸ List.mem_singleton_self m
      exact .single hla (mem_available.1 hmem).2
  · obtain ⟨⟨first, rng₁⟩, hfst, h⟩ := bind_eq_ok.1 h
    obtain ⟨⟨second, rng₂⟩, hsec, h⟩ := bind_eq_ok.1 h
    obtain ⟨rfl, -⟩ := Prod.mk.inj (ok.inj h)
    have hcan : first ∈ t.candidates := by
      have hmem := choice_ok hfst
      split at hmem
      · exact hmem
      · obtain ⟨hmost, hla⟩ := mem_filter.1 hmem
        exact mem_candidates.2 ⟨(mem_most.1 hmost).1, of_decide_eq_true hla⟩
    obtain ⟨havailable, hne⟩ := mem_filter.1 (mem_most.1 (choice_ok hsec)).1
    have hfst' := (mem_available.1 (mem_candidates.1 hcan).1).2
    have hsec' := (mem_available.1 havailable).2
    refine Pair.rounds_grow (Ne.symm (of_decide_eq_true hne)) _ (mem_candidates.1 hcan).2 (by omega) (by omega)

variable {step : Tail → Rng → Except SequenceError (Tail × Rng)}

theorem fill_grows (hst : ∀ t rng t' rng', step t rng = .ok (t', rng') → Grows t t') {fuel : ℕ}
    (h : fill step fuel t rng = .ok (l, rng')) : ∃ t', Grows t t' ∧ t'.sequence = l ∧ t'.remaining.sum = 0 := by
  induction fuel generalizing t rng with
  | zero =>
    unfold fill at h
    split at h
    · rename_i hsum
      exact ⟨t, .refl t, (Prod.mk.inj (ok.inj h)).1, hsum⟩
    · cases h
  | succ fuel ih =>
    unfold fill at h
    split at h
    · rename_i hsum
      exact ⟨t, .refl t, (Prod.mk.inj (ok.inj h)).1, hsum⟩
    · obtain ⟨⟨t₁, rng₁⟩, hfst, h⟩ := bind_eq_ok.1 h
      obtain ⟨t', hgro, hrs⟩ := ih h
      exact ⟨t', (hst _ _ _ _ hfst).trans hgro, hrs⟩

theorem run_spec (hst : ∀ t rng t' rng', step t rng = .ok (t', rng') → Grows t t') (ht : t.remaining.Sound)
    (hchain : t.sequence.IsChain (· ≠ ·)) (h : run step t rng = .ok (l, rng')) :
    ∃ rest, l = t.sequence ++ rest ∧ (∀ m, (rest.count m : ℤ) = t.remaining.value m) ∧ l.IsChain (· ≠ ·) := by
  obtain ⟨t', hgro, rfl, hsum⟩ := fill_grows hst h
  obtain ⟨rest, hseq, hcnt⟩ := hgro.count
  refine ⟨rest, hseq, fun m => ?_, hgro.chain hchain⟩
  have hsnd := hgro.sound ht
  have := hcnt m
  have := hsnd.le_sum m
  have := hsnd.nonneg m
  omega

/-! ## When the greedy loop succeeds -/

/-- The last model has at most half of what remains, the others at most half of it rounded up. -/
structure Balanced (t : Tail) : Prop where
  last : ∀ m, t.sequence.getLast? = some m → 2 * t.remaining.value m ≤ t.remaining.sum
  others : ∀ m, 2 * t.remaining.value m ≤ t.remaining.sum + 1

theorem Balanced.append (h : t.Balanced) (ht : t.remaining.Sound) (hm : m ∈ t.remaining.most t.candidates) :
    (t.append m).Balanced := by
  obtain ⟨hcan, hmax⟩ := mem_most.1 hm
  have hpos := (mem_available.1 (mem_candidates.1 hcan).1).2
  have hsum : (t.append m).remaining.sum = t.remaining.sum - 1 := ht.sum_subtract hpos
  have hself : (t.append m).remaining.value m = t.remaining.value m - 1 :=
    by rw [Tail.append, subtract_value, if_pos rfl]
  have hm' := h.others m
  refine ⟨fun k hk => ?_, fun k => ?_⟩
  · rw [Tail.append, getLast?_concat] at hk
    obtain rfl : m = k := Option.some.inj hk
    omega
  · by_cases hk : k = m
    · rw [hk]
      omega
    · have hval : (t.append m).remaining.value k = t.remaining.value k := by
        rw [Tail.append, subtract_value, if_neg hk, sub_zero]
      -- a model that was not a candidate is the last one or is used up
      have hhalf : 2 * t.remaining.value k ≤ t.remaining.sum := by
        by_cases hla : t.sequence.getLast? = some k
        · exact h.last k hla
        · have hadd := ht.add_le_sum hk
          rcases (ht.nonneg k).eq_or_lt with hzero | hkpos
          · have := ht.nonneg m
            omega
          · have := hmax k (mem_candidates.2 ⟨mem_available.2 ⟨ht.mem_models hkpos, hkpos⟩, hla⟩)
            omega
      omega

theorem Balanced.candidates_ne_nil (h : t.Balanced) (ht : t.remaining.Sound) (hsum : t.remaining.sum ≠ 0) :
    t.candidates ≠ [] := by
  intro hnil
  -- what remains is of the last model
  have hzero : ∀ m, t.sequence.getLast? ≠ some m → t.remaining.value m = 0 := by
    intro m hla
    by_contra hne
    have hpos := lt_of_le_of_ne (ht.nonneg m) (Ne.symm hne)
    have hmem := mem_candidates.2 ⟨mem_available.2 ⟨ht.mem_models hpos, hpos⟩, hla⟩
    rw [hnil] at hmem
    cases hmem
  have hle := ht.le_sum 0
  have hnn := ht.nonneg 0
  cases hla : t.sequence.getLast? with
  | none =>
    refine hsum (ht.sum_eq (Subset.refl _) ▸ sum_eq_zero fun m _ => hzero m ?_)
    rw [hla]
    exact nofun
  | some a =>
    have hsum' : t.remaining.sum = t.remaining.value a := by
      rw [ht.sum_eq (s := t.remaining.models.toFinset ∪ {a}) subset_union_left]
      refine sum_eq_single_of_mem a (by simp) fun m _ hm => hzero m ?_
      rw [hla]
      exact fun heq => hm (Option.some.inj heq).symm
    have := h.last a hla
    have := ht.nonneg a
    omega

theorem Balanced.fill_ok {fuel : ℕ} (h : t.Balanced) (ht : t.remaining.Sound) (hfuel : t.remaining.sum ≤ fuel) (rng : Rng) :
    ∃ r, fill balancedStep fuel t rng = .ok r := by
  induction fuel generalizing t rng with
  | zero =>
    have := ht.le_sum 0
    have := ht.nonneg 0
    unfold fill
    exact ⟨_, if_pos (by omega)⟩
  | succ fuel ih =>
    unfold fill
    by_cases hsum : t.remaining.sum = 0
    · exact ⟨_, if_pos hsum⟩
    · have hne := h.candidates_ne_nil ht hsum
      obtain ⟨m, hm, hch⟩ := choice_of_ne_nil (most_ne_nil (c := t.remaining) hne) rng
      have hpos := (mem_available.1 (mem_candidates.1 (mem_most.1 hm).1).1).2
      have hnx : (t.append m).remaining.sum = t.remaining.sum - 1 := ht.sum_subtract hpos
      obtain ⟨r, hr⟩ := ih (h.append ht hm) (ht.subtract hpos) (by omega) rng.next
      refine ⟨r, ?_⟩
      rw [if_neg hsum]
      unfold balancedStep
      rw [if_neg hne, hch]
      exact hr

end Tail

theorem count_le_of_isChain {l : List ℤ} (h : l.IsChain (· ≠ ·)) (m : ℤ) :
    2 * l.count m ≤ l.length + 1 ∧ (l.head? ≠ some m → 2 * l.count m ≤ l.length) := by
  induction l with
  | nil => simp
  | cons a l ih =>
    obtain ⟨hle, hhead⟩ := ih h.tail
    rw [count_cons, length_cons]
    by_cases ha : a = m
    · have hnx : l.head? ≠ some m := by
        rintro hm
        obtain ⟨rest, rfl⟩ := head?_eq_some_iff.1 hm
        exact (isChain_cons_cons.1 h).1 ha
      have := hhead hnx
      simp only [ha, head?_cons, beq_self_eq_true, if_true, ne_eq, not_true_eq_false, false_imp_iff, and_true]
      omega
    · simp only [beq_iff_eq, if_neg ha]
      omega

variable {counts : Dict ℤ ℕ} {l sequence balanced : List ℤ} {rng rng' : Rng}

/-- The models as often as the table says, without equal neighbours. -/
structure Arranges (counts : Dict ℤ ℕ) (l : List ℤ) : Prop where
  count : ∀ m, l.count m = (counts.get? m).getD 0
  chain : l.IsChain (· ≠ ·)

theorem arranges_of_balanced (h : balancedCountSequence counts rng = .ok (l, rng')) : Arranges counts l := by
  obtain ⟨rest, rfl, hcnt, hchain⟩ := Tail.run_spec (fun _ _ _ _ => Tail.balancedStep_grows) (sound_ofCounts counts)
    isChain_nil h
  exact ⟨fun m => Int.ofNat_inj.1 (hcnt m), hchain⟩

theorem arranges_of_run {step : Tail → Rng → Except SequenceError (Tail × Rng)}
    (hst : ∀ t rng t' rng', step t rng = .ok (t', rng') → Tail.Grows t t') (hbal : Arranges counts balanced) (n : ℕ)
    (h : Tail.run step (Tail.ofFrozen (balanced.take n) counts) rng = .ok (l, rng')) : Arranges counts l ∧
      balanced.take n <+: l := by
  have hle : ∀ m, (((balanced.take n).count m : ℕ) : ℤ) ≤ (ofCounts counts).value m := by
    intro m
    change _ ≤ (((counts.get? m).getD 0 : ℕ) : ℤ)
    rw [← hbal.count m]
    exact Int.ofNat_le.2 ((take_sublist n balanced).count_le m)
  obtain ⟨hsnd, hval⟩ := (sound_ofCounts counts).foldl_subtract hle
  obtain ⟨rest, rfl, hcnt, hchain⟩ := Tail.run_spec hst hsnd (hbal.chain.take n) h
  refine ⟨⟨fun m => ?_, hchain⟩, prefix_append _ rest⟩
  have := hcnt m
  rw [show (Tail.ofFrozen (balanced.take n) counts).remaining.value m = _ from hval m] at this
  change (rest.count m : ℤ) = (((counts.get? m).getD 0 : ℕ) : ℤ) - _ at this
  change count m (balanced.take n ++ rest) = _
  rw [count_append]
  omega

theorem arranges_initial (hbal : Arranges counts balanced) {initialization : Initialization} {n : ℕ}
    (h : initialSequence initialization n counts balanced rng = .ok (l, rng')) : Arranges counts l ∧ balanced.take n <+: l := by
  cases initialization with
  | balanced =>
    obtain ⟨rfl, -⟩ := mk.inj (ok.inj h)
    exact ⟨hbal, List.take_prefix n _⟩
  | maxDistance => exact arranges_of_run (fun _ _ _ _ => Tail.oldestStep_grows) hbal n h
  | minDistance => exact arranges_of_run (fun _ _ _ _ => Tail.pairStep_grows) hbal n h

theorem balancedCountSequence_ok_iff (counts : Dict ℤ ℕ) (rng : Rng) : (∃ r, balancedCountSequence counts rng = .ok r) ↔
      ∀ e ∈ counts.entries, e.2 ≤ ((counts.entries.map snd).sum + 1) / 2 := by
  have hval : ∀ e ∈ counts.entries, (ofCounts counts).value e.1 = e.2 := by
    intro e he
    change (((counts.get? e.1).getD 0 : ℕ) : ℤ) = _
    rw [mem_entries_iff.1 he]
    rfl
  have hsum : (ofCounts counts).sum = ((counts.entries.map snd).sum : ℕ) := by
    change ((counts.entries.map fst).map _).sum = _
    rw [List.map_map, Nat.cast_list_sum, List.map_map]
    exact congrArg List.sum (map_congr_left hval)
  have hsnd := sound_ofCounts counts
  constructor
  · rintro ⟨⟨l, rng'⟩, h⟩ e he
    have harn := arranges_of_balanced h
    have hcnt : l.count e.1 = e.2 := by rw [harn.count, mem_entries_iff.1 he]; rfl
    have hle := (count_le_of_isChain harn.chain e.1).1
    -- the length is the number of the requests
    have hlen : (l.length : ℤ) = (ofCounts counts).sum := by
      have hsub : l.toFinset ⊆ (ofCounts counts).models.toFinset ∪ l.toFinset := subset_union_right
      rw [hsnd.sum_eq (s := (ofCounts counts).models.toFinset ∪ l.toFinset) subset_union_left,
        ← sum_toFinset_count_eq_length, sum_subset hsub, Nat.cast_sum]
      · exact sum_congr rfl fun m _ => congrArg _ (harn.count m)
      · exact fun m _ hm => count_eq_zero.2 fun hmem => hm (mem_toFinset.2 hmem)
    rw [hsum] at hlen
    omega
  · intro hle
    refine Tail.Balanced.fill_ok ⟨fun _ h => absurd h (by simp), fun m => ?_⟩ hsnd ?_ rng
    · change 2 * (((counts.get? m).getD 0 : ℕ) : ℤ) ≤ (ofCounts counts).sum + 1
      rw [hsum]
      cases hget : counts.get? m with
      | none => simp only [Option.getD_none]; omega
      | some n =>
        have := hle (m, n) (mem_entries_iff.2 hget)
        simp only [Option.getD_some] at this ⊢
        omega
    · rw [Counter.sum, Nat.cast_list_sum, List.map_map]
      refine sum_le_sum fun m _ => ?_
      exact Int.self_le_toNat _

/-! ## Swaps -/

section

variable {first second frozenPrefix : ℕ}

theorem swap_eq (hf : first < l.length) (hs : second < l.length) : swap l first second =
    (l.set first l[second]).set second l[first] := by
  unfold swap
  rw [getElem?_eq_getElem hf, getElem?_eq_getElem hs]

theorem getElem?_swap (hf : first < l.length) (hs : second < l.length) (index : ℕ) :
    (swap l first second)[index]? = swappedAt l first second index := by
  rw [swap_eq hf hs]
  unfold swappedAt
  rw [getElem?_set, getElem?_set, length_set, getElem?_eq_getElem hf, getElem?_eq_getElem hs]
  by_cases hi : index = first
  · by_cases hj : index = second
    · subst hi
      subst hj
      simp [hf]
    · simp [hi, hf, Ne.symm (hi ▸ hj : first ≠ second)]
  · by_cases hj : index = second
    · have hne : second ≠ first := hj ▸ hi
      simp [hj, hs, hne]
    · simp [hi, hj, Ne.symm hi, Ne.symm hj]

theorem length_swap (hf : first < l.length) (hs : second < l.length) : (swap l first second).length = l.length := by
  rw [swap_eq hf hs, length_set, length_set]

theorem swap_swap (hf : first < l.length) (hs : second < l.length) : swap (swap l first second) first second = l := by
  have hlen := length_swap hf hs
  refine ext_getElem? fun index => ?_
  rw [getElem?_swap (hlen ▸ hf) (hlen ▸ hs)]
  unfold swappedAt
  simp only [getElem?_swap hf hs]
  unfold swappedAt
  by_cases hi : index = first
  · by_cases hsf : second = first <;> simp [hi, hsf]
  · by_cases hj : index = second
    · have hne : second ≠ first := hj ▸ hi
      simp [hj, hne]
    · simp [hi, hj]

theorem isChain_ne_iff : l.IsChain (· ≠ ·) ↔ ∀ i, i + 1 < l.length → l[i]? ≠ l[i + 1]? := by
  rw [isChain_iff_getElem]
  refine forall_congr' fun i => forall_congr' fun hi => ?_
  rw [getElem?_eq_getElem hi, getElem?_eq_getElem (Nat.lt_of_succ_lt hi), ne_eq, ne_eq, Option.some.injEq]

theorem ValidSwap.chain (h : ValidSwap l first second frozenPrefix) (hf : first < l.length) (hs : second < l.length)
    (hl : l.IsChain (· ≠ ·)) : (swap l first second).IsChain (· ≠ ·) := by
  obtain ⟨-, -, -, -, htest⟩ := h
  rw [isChain_ne_iff] at hl ⊢
  intro i hi
  rw [length_swap hf hs] at hi
  rw [getElem?_swap hf hs, getElem?_swap hf hs]
  by_cases hleft : i ∈ [first, second]
  · exact htest i hleft (i + 1) (by simp [neighbors, hi])
  · by_cases hright : i + 1 ∈ [first, second]
    · exact (htest (i + 1) hright i (by simp [neighbors]; omega)).symm
    · simp only [List.mem_cons, not_mem_nil, or_false, not_or] at hleft hright
      unfold swappedAt
      rw [if_neg hleft.1, if_neg hleft.2, if_neg hright.1, if_neg hright.2]
      exact hl i hi

/-- The models are rearranged behind the frozen ones, with no equal neighbours. -/
structure Rearranges (frozenPrefix : ℕ) (l l' : List ℤ) : Prop where
  perm : l'.Perm l
  chain : l'.IsChain (· ≠ ·)
  take : l'.take frozenPrefix = l.take frozenPrefix

theorem Rearranges.swap (h : Rearranges frozenPrefix l sequence) (hvld : ValidSwap sequence first second frozenPrefix)
    (hf : first < sequence.length) (hs : second < sequence.length) :
    Rearranges frozenPrefix l (ControlledTrace.swap sequence first second) where
  perm := by
    rw [swap_eq hf hs]
    exact (set_set_perm hf hs).trans h.perm
  chain := hvld.chain hf hs h.chain
  take := by
    rw [swap_eq hf hs, take_set_of_le hvld.2.1, take_set_of_le hvld.1, h.take]

end

/-! ## The search -/

section

variable {exp : ℚ → ℚ} {metricsOf : List ℤ → Metrics} {lossOf : Metrics → ℚ} {frozenPrefix iterations : ℕ} {s s' : Search}

/-- The best sequence has its own metrics and loss, and is no worse than the first one. -/
structure Search.Sound (metricsOf : List ℤ → Metrics) (lossOf : Metrics → ℚ) (frozenPrefix : ℕ) (start : List ℤ)
    (s : Search) : Prop where
  current : Rearranges frozenPrefix start s.current
  best : Rearranges frozenPrefix start s.best
  metrics : s.bestMetrics = metricsOf s.best
  loss : s.bestLoss = lossOf s.bestMetrics
  le : s.bestLoss ≤ lossOf (metricsOf start)

theorem randrange_lt {start stop n : ℕ} (h : randrange start stop rng = .ok (n, rng')) : n < stop := by
  unfold randrange at h
  split at h
  · rename_i hlt
    obtain ⟨rfl, -⟩ := mk.inj (ok.inj h)
    have := Nat.mod_lt (rng 0) (Nat.sub_pos_of_lt hlt)
    omega
  · cases h

theorem Search.Sound.step (h : s.Sound metricsOf lossOf frozenPrefix l) {iteration : ℕ}
    (hst : s.step exp metricsOf lossOf frozenPrefix iterations iteration = .ok s') :
      s'.Sound metricsOf lossOf frozenPrefix l := by
  obtain ⟨⟨first, rng₁⟩, hfst, hst⟩ := bind_eq_ok.1 hst
  obtain ⟨⟨second, rng₂⟩, hsec, hst⟩ := bind_eq_ok.1 hst
  have hf := randrange_lt hfst
  have hs := randrange_lt hsec
  dsimp only at hst
  split at hst
  · obtain rfl := ok.inj hst
    exact ⟨h.current, h.best, h.metrics, h.loss, h.le⟩
  · rename_i hvld
    have hswap := h.current.swap (not_not.1 hvld) hf hs
    split at hst
    · split at hst
      · rename_i hless
        obtain rfl := ok.inj hst
        exact ⟨hswap, hswap, rfl, rfl, hless.le.trans h.le⟩
      · obtain rfl := ok.inj hst
        exact ⟨hswap, h.best, h.metrics, h.loss, h.le⟩
    · -- the swap is undone
      obtain rfl := ok.inj hst
      refine ⟨?_, h.best, h.metrics, h.loss, h.le⟩
      change Rearranges _ _ (swap (swap _ first second) first second)
      rw [swap_swap hf hs]
      exact h.current

theorem Search.Sound.run {iterationsLeft : List ℕ} (h : s.Sound metricsOf lossOf frozenPrefix l)
    (hrun : iterationsLeft.foldlM (Search.step exp metricsOf lossOf frozenPrefix iterations) s = .ok s') :
    s'.Sound metricsOf lossOf frozenPrefix l := by
  induction iterationsLeft generalizing s with
  | nil =>
    obtain rfl := ok.inj hrun
    exact h
  | cons iteration iterationsLeft ih =>
    rw [foldlM_cons] at hrun
    obtain ⟨s₁, hfst, hrs⟩ := bind_eq_ok.1 hrun
    exact ih (h.step hfst) hrs

end

/-- `balanced_count_sequence` succeeds exactly when no model has more than half of the requests, rounded up. What
`controlled_distinct_sequence` returns has the counts of the table, no equal neighbours, the frozen models of the balanced
sequence, the metrics of the sequence, and no greater loss than the sequence that the search starts from. -/
theorem controlled_keeps_promises (exp log2 : ℚ → ℚ) (counts : Dict ℤ ℕ) (rng : Rng) (frozenPrefix iterations : ℕ)
    (objective : Objective) (lookaheadK : ℤ) (constrained : Bool) (initialization : Initialization) :
    ((∃ r, balancedCountSequence counts rng = .ok r) ↔
        ∀ e ∈ counts.entries, e.2 ≤ ((counts.entries.map snd).sum + 1) / 2) ∧
      ∀ best reference bestMetrics, controlledDistinctSequence exp log2 counts rng frozenPrefix iterations objective lookaheadK
          constrained initialization = .ok (best, reference, bestMetrics) →
        Arranges counts best ∧
        ∃ balanced rng₁ start rng₂, balancedCountSequence counts rng = .ok (balanced, rng₁) ∧
          initialSequence initialization frozenPrefix counts balanced rng₁ = .ok (start, rng₂) ∧
          balanced.take frozenPrefix <+: best ∧ reference = sequenceMetrics log2 lookaheadK start ∧
          bestMetrics = sequenceMetrics log2 lookaheadK best ∧
          controlledLoss objective constrained reference bestMetrics ≤
            controlledLoss objective constrained reference reference := by
  refine ⟨balancedCountSequence_ok_iff counts rng, fun best reference bestMetrics h => ?_⟩
  obtain ⟨⟨balanced, rng₁⟩, hbal, h⟩ := bind_eq_ok.1 h
  obtain ⟨⟨start, rng₂⟩, hstart, h⟩ := bind_eq_ok.1 h
  obtain ⟨found, hfnd, h⟩ := bind_eq_ok.1 h
  obtain ⟨rfl, hrs⟩ := mk.inj (ok.inj h)
  obtain ⟨rfl, rfl⟩ := mk.inj hrs
  obtain ⟨harn, hfrozen⟩ := arranges_initial (arranges_of_balanced hbal) hstart
  have hself : Rearranges frozenPrefix start start := ⟨.refl _, harn.chain, rfl⟩
  obtain ⟨-, hb, hmetrics, hloss, hle⟩ := Search.Sound.run ⟨hself, hself, rfl, rfl, le_rfl⟩ hfnd
  refine ⟨⟨fun m => ?_, hb.chain⟩, balanced, rng₁, start, rng₂, hbal, hstart, ?_, rfl, hmetrics, hloss ▸ hle⟩
  · rw [hb.perm.count_eq, harn.count]
  · have hlen : (balanced.take frozenPrefix).length ≤ frozenPrefix := by simp
    have htake : balanced.take frozenPrefix <+: start.take frozenPrefix := prefix_take_iff.2 ⟨hfrozen, hlen⟩
    rw [← hb.take] at htake
    exact htake.trans (List.take_prefix _ _)

def twoTurns : Dict ℤ ℕ := ⟨[(1, 2), (2, 1)], by decide⟩

theorem controlled_keeps_promises_twoTurns : ∃ best reference bestMetrics,
    controlledDistinctSequence id id twoTurns (fun _ => 0) 1 1 .min 32 true .maxDistance = .ok (best, reference, bestMetrics) ∧
      best = [1, 2, 1] ∧ Arranges twoTurns best :=
  ⟨_, _, _, rfl, by decide +kernel, ((controlled_keeps_promises id id twoTurns
    (fun _ => 0) 1 1 .min 32 true .maxDistance).2 _ _ _ rfl).1⟩

end ServerlessLLM.Simulator.ControlledTrace
