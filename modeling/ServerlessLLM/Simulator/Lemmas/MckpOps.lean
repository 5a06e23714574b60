import Mathlib.Algebra.BigOperators.Group.List.Basic
import Mathlib.Tactic.Linarith
import ServerlessLLM.Simulator.Mckp

/-!
# The knapsack over prefixes

The states of the frontier are choices of prefixes, `stateOf`.
-/

namespace ServerlessLLM.Simulator

open List Option Dict Function Prod Frontier

namespace Frontier

variable {required : Nat} {states : List Frontier} {s s' : Frontier} {best : Dict Nat Frontier}

/-! ## Pruning -/

/-- `best` has a state for each number of bytes that is released, and none of a lower rank was seen. -/
structure Best (required : Nat) (states : List Frontier) (best : Dict Nat Frontier) : Prop where
  mem : ∀ n s, best.get? n = some s → s ∈ states ∧ s.freed = n ∧ ∀ s' ∈ states, s'.freed = n →
    ¬s'.rank required < s.rank required
  all : ∀ s ∈ states, ∃ s', best.get? s.freed = some s'

theorem Best.set (h : Best required states best) (s : Frontier)
    (hs : ∀ old, best.get? s.freed = some old → s.rank required < old.rank required) :
    Best required (states ++ [s]) (best.set s.freed s) where
  mem := by
    intro n x hx
    rw [get?_set] at hx
    split at hx
    · rename_i hn
      obtain rfl := some.inj hx
      refine ⟨by simp, hn.symm, ?_⟩
      intro y hy hyn hlt
      rcases mem_append.1 hy with hy | hy
      · obtain ⟨old, hold⟩ := h.all y hy
        rw [hyn, hn] at hold
        exact (h.mem _ old hold).2.2 y hy (hyn.trans hn) (hlt.trans (hs old hold))
      · rw [mem_singleton.1 hy] at hlt
        exact lt_irrefl _ hlt
    · rename_i hn
      obtain ⟨hmem, hfreed, hmin⟩ := h.mem n x hx
      refine ⟨mem_append_left _ hmem, hfreed, ?_⟩
      intro y hy hyn
      rcases mem_append.1 hy with hy | hy
      · exact hmin y hy hyn
      · rw [mem_singleton.1 hy] at hyn
        exact absurd hyn.symm hn
  all := by
    intro x hx
    rw [get?_set]
    split
    · exact ⟨s, rfl⟩
    · rename_i hne
      rcases mem_append.1 hx with hx | hx
      · exact h.all x hx
      · rw [mem_singleton.1 hx] at hne
        exact absurd rfl hne

theorem Best.keepBest (h : Best required states best) (s : Frontier) :
    Best required (states ++ [s]) (keepBest required best s) := by
  unfold Frontier.keepBest
  split
  · rename_i hno
    refine h.set s ?_
    intro old hold
    rw [hno] at hold
    cases hold
  · rename_i old hold
    split
    · rename_i hlt
      refine h.set s ?_
      intro old' hold'
      rw [hold] at hold'
      rwa [← some.inj hold']
    · rename_i hnot
      refine ⟨?_, ?_⟩
      · intro n x hx
        obtain ⟨hmem, hfreed, hmin⟩ := h.mem n x hx
        refine ⟨mem_append_left _ hmem, hfreed, ?_⟩
        intro y hy hyn
        rcases mem_append.1 hy with hy | hy
        · exact hmin y hy hyn
        · obtain rfl := mem_singleton.1 hy
          rw [hyn, hx] at hold
          rwa [some.inj hold]
      · intro x hx
        rcases mem_append.1 hx with hx | hx
        · exact h.all x hx
        · rw [mem_singleton.1 hx]
          exact ⟨old, hold⟩

theorem best_bestByFreed (required : Nat) (states : List Frontier) : Best required states (bestByFreed required states) := by
  induction states using reverseRecOn with
  | nil => exact ⟨nofun, nofun⟩
  | append_singleton states s ih =>
    rw [bestByFreed, foldl_append]
    exact ih.keepBest s

theorem sweep_sublist (bestCost : Option ℚ) (states : List Frontier) : (sweep bestCost states).Sublist states := by
  induction states generalizing bestCost with
  | nil => exact List.Sublist.refl _
  | cons s states ih =>
    rw [sweep]
    split
    · exact (ih _).cons_cons s
    · exact (ih _).cons s

theorem mem_of_mem_prune (h : s ∈ prune required states) : s ∈ states := by
  have hb := best_bestByFreed required states
  have hval : s ∈ (bestByFreed required states).entries.map snd := by
    unfold prune at h
    rcases mem_append.1 h with h | h
    · have hmem := (sweep_sublist _ _).subset (mem_reverse.1 h)
      rw [mem_insertionSort] at hmem
      exact (mem_filter.1 hmem).1
    · exact (mem_filter.1 (argmin_mem (mem_toList.1 h))).1
  obtain ⟨⟨n, _⟩, hentry, rfl⟩ := mem_map.1 hval
  exact (hb.mem n _ (mem_entries_iff.1 hentry)).1

theorem rank_le (h : s.rank required ≤ s'.rank required) : s.cost < s'.cost ∨ s.cost = s'.cost ∧
    (s.freed - required < s'.freed - required ∨ s.freed - required = s'.freed - required ∧ s.evicted ≤ s'.evicted) := by
  rcases Lex.toLex_le_toLex.1 h with hcost | ⟨hcost, h⟩
  · exact .inl hcost
  · refine .inr ⟨hcost, ?_⟩
    rcases Lex.toLex_le_toLex.1 h with hover | ⟨hover, h⟩
    · exact .inl hover
    · refine .inr ⟨hover, ?_⟩
      rcases Lex.toLex_le_toLex.1 h with hev | ⟨hev, -⟩
      · exact le_of_lt hev
      · exact le_of_eq hev

theorem cost_le_of_rank_le (h : s.rank required ≤ s'.rank required) : s.cost ≤ s'.cost := by
  rcases rank_le h with hlt | ⟨heq, -⟩
  · exact hlt.le
  · exact heq.le

theorem exists_mem_prune_of_enough (h : s ∈ states) (hen : required ≤ s.freed) :
    ∃ f ∈ prune required states, required ≤ f.freed ∧ f.rank required ≤ s.rank required := by
  have hbest := best_bestByFreed required states
  obtain ⟨b, hb⟩ := hbest.all s h
  obtain ⟨-, hfreed, hmin⟩ := hbest.mem _ b hb
  have hmem : b ∈ ((bestByFreed required states).entries.map snd).filter fun s => required ≤ s.freed :=
    mem_filter.2 ⟨mem_map.2 ⟨(s.freed, b), mem_entries_iff.2 hb, rfl⟩, decide_eq_true (hfreed ▸ hen)⟩
  cases harg : (((bestByFreed required states).entries.map snd).filter fun s => required ≤ s.freed).argmin (rank required) with
  | none =>
    rw [argmin_eq_none.1 harg] at hmem
    nomatch hmem
  | some f =>
    have hf := of_decide_eq_true (mem_filter.1 (argmin_mem harg)).2
    have hle : f.rank required ≤ b.rank required := le_of_mem_argmin hmem harg
    refine ⟨f, ?_, hf, hle.trans (not_lt.1 (hmin s h rfl))⟩
    unfold prune
    exact mem_append_right _ (by simp [harg])

theorem sweep_covers (bestCost : Option ℚ) {l : List Frontier} (hsrt : l.Pairwise fun a b => a.freed ≥ b.freed) (hs : s ∈ l) :
    (∃ c ∈ bestCost, c ≤ s.cost) ∨ ∃ s' ∈ sweep bestCost l, s.freed ≤ s'.freed ∧ s'.cost ≤ s.cost := by
  induction l generalizing bestCost with
  | nil => nomatch hs
  | cons x l ih =>
    obtain ⟨hx, hsrt⟩ := pairwise_cons.1 hsrt
    rw [sweep]
    split
    · rcases mem_cons.1 hs with rfl | hs
      · exact .inr ⟨s, mem_cons_self, le_rfl, le_rfl⟩
      · rcases ih (some x.cost) hsrt hs with ⟨c, hc, hle⟩ | ⟨s', hs', hle⟩
        · obtain rfl : x.cost = c := some.inj hc
          exact .inr ⟨x, mem_cons_self, hx s hs, hle⟩
        · exact .inr ⟨s', mem_cons_of_mem _ hs', hle⟩
    · rename_i hdrop
      rcases mem_cons.1 hs with rfl | hs
      · obtain ⟨c, hc, hle⟩ : ∃ c ∈ bestCost, ¬s.cost < c := by simpa using hdrop
        exact .inl ⟨c, hc, not_lt.1 hle⟩
      · exact ih bestCost hsrt hs

theorem exists_mem_prune_of_short (h : s ∈ states) (hshort : s.freed < required) : ∃ s' ∈ prune required states,
    (s'.freed = s.freed ∧ s'.rank required ≤ s.rank required) ∨ (s.freed < s'.freed ∧ s'.cost ≤ s.cost) := by
  have hbest := best_bestByFreed required states
  obtain ⟨b, hb⟩ := hbest.all s h
  obtain ⟨-, hfreed, hmin⟩ := hbest.mem _ b hb
  have hrank : b.rank required ≤ s.rank required := not_lt.1 (hmin s h rfl)
  obtain ⟨short, hdef⟩ : ∃ short, short = (((bestByFreed required states).entries.map snd).filter fun s =>
      s.freed < required).insertionSort fun a b => a.freed ≥ b.freed := ⟨_, rfl⟩
  have hmem : b ∈ short := by
    rw [hdef, mem_insertionSort]
    exact mem_filter.2 ⟨mem_map.2 ⟨(s.freed, b), mem_entries_iff.2 hb, rfl⟩, decide_eq_true (hfreed ▸ hshort)⟩
  have hsrt : short.Pairwise fun a b => a.freed ≥ b.freed := hdef ▸ pairwise_insertionSort _ _
  rcases sweep_covers none hsrt hmem with ⟨c, hc, -⟩ | ⟨s', hs', hle, hcost⟩
  · nomatch hc
  · have hprune : s' ∈ prune required states := by
      unfold prune
      exact mem_append_left _ (mem_reverse.2 (hdef ▸ hs'))
    refine ⟨s', hprune, ?_⟩
    rcases hle.eq_or_lt with heq | hlt
    · -- there is one state for each number of bytes
      have hval := (sweep_sublist _ _).subset hs'
      rw [hdef, mem_insertionSort] at hval
      obtain ⟨⟨n, _⟩, hentry, rfl⟩ := mem_map.1 (mem_filter.1 hval).1
      have hget := mem_entries_iff.1 hentry
      obtain ⟨-, hn, -⟩ := hbest.mem n _ hget
      dsimp only at hn heq
      rw [← hn, ← heq, hfreed, hb] at hget
      obtain rfl := some.inj hget
      exact .inl ⟨hfreed, hrank⟩
    · exact .inr ⟨hfreed ▸ hlt, hcost.trans (cost_le_of_rank_le hrank)⟩

/-- A state is as good as a choice, whatever is chosen for the models that are left: it costs less and releases as much or what
is required, or it costs the same and has released enough with fewer bytes, or the same bytes and no more groups. -/
def AsGood (required : Nat) (s t : Frontier) : Prop :=
  (s.cost < t.cost ∧ min required t.freed ≤ s.freed) ∨
    (s.cost = t.cost ∧ ((required ≤ s.freed ∧ s.freed < t.freed) ∨ (s.freed = t.freed ∧ s.evicted ≤ t.evicted)))

variable {t : Frontier}

theorem AsGood.expand (h : AsGood required s t) (o : PrefixOption) : AsGood required (s.expand o) (t.expand o) := by
  rcases h with ⟨hcost, hfreed⟩ | ⟨hcost, ⟨hen, hlt⟩ | ⟨hfreed, hev⟩⟩
  · exact .inl ⟨add_lt_add_left hcost _, by simp only [Frontier.expand]; omega⟩
  · exact .inr ⟨congrArg (· + o.damageMs) hcost,
      .inl ⟨by simp only [Frontier.expand]; omega, by simp only [Frontier.expand]; omega⟩⟩
  · exact .inr ⟨congrArg (· + o.damageMs) hcost,
      .inr ⟨by simp only [Frontier.expand]; omega, by simp only [Frontier.expand]; omega⟩⟩

theorem exists_mem_prune (required : Nat) (h : s ∈ states) :
    ∃ s' ∈ prune required states, min required s.freed ≤ s'.freed ∧ s'.cost ≤ s.cost := by
  by_cases hen : required ≤ s.freed
  · obtain ⟨f, hf, hfreed, hrank⟩ := exists_mem_prune_of_enough h hen
    exact ⟨f, hf, (Nat.min_le_left _ _).trans hfreed, cost_le_of_rank_le hrank⟩
  · obtain ⟨s', hs', ⟨hfreed, hrank⟩ | ⟨hlt, hcost⟩⟩ := exists_mem_prune_of_short h (not_le.1 hen)
    · exact ⟨s', hs', (Nat.min_le_right _ _).trans hfreed.ge, cost_le_of_rank_le hrank⟩
    · exact ⟨s', hs', (Nat.min_le_right _ _).trans hlt.le, hcost⟩

theorem AsGood.prune (h : AsGood required s t) (hs : s ∈ states)
    (htied : t.freed < required → ∀ x ∈ states, t.freed < x.freed → x.cost ≠ t.cost) :
    ∃ s' ∈ prune required states, AsGood required s' t := by
  rcases h with ⟨hcost, hfreed⟩ | ⟨hcost, hrs⟩
  · obtain ⟨s', hs', hfreed', hcost'⟩ := exists_mem_prune required hs
    exact ⟨s', hs', .inl ⟨hcost'.trans_lt hcost, by omega⟩⟩
  · by_cases hen : required ≤ s.freed
    · obtain ⟨f, hf, hfreed, hrank⟩ := exists_mem_prune_of_enough hs hen
      refine ⟨f, hf, ?_⟩
      rcases rank_le hrank with hlt | ⟨heq, hover⟩
      · exact .inl ⟨hlt.trans_eq hcost, (Nat.min_le_left _ _).trans hfreed⟩
      · exact .inr ⟨heq.trans hcost, by omega⟩
    · obtain ⟨hfreed, hev⟩ : s.freed = t.freed ∧ s.evicted ≤ t.evicted := hrs.resolve_left fun h => hen h.1
      obtain ⟨s', hs', ⟨hfreed', hrank⟩ | ⟨hlt, hcost'⟩⟩ := exists_mem_prune_of_short hs (not_le.1 hen)
      · refine ⟨s', hs', ?_⟩
        rcases rank_le hrank with hlt | ⟨heq, hover⟩
        · exact .inl ⟨hlt.trans_eq hcost, by omega⟩
        · exact .inr ⟨heq.trans hcost, .inr ⟨by omega, by omega⟩⟩
      · rcases hcost'.lt_or_eq with hless | heq
        · exact ⟨s', hs', .inl ⟨hless.trans_eq hcost, by omega⟩⟩
        · exact absurd (heq.trans hcost) (htied (by omega) s' (mem_of_mem_prune hs') (by omega))

end Frontier

/-! ## Choices of prefixes -/

section Solver

variable {table : PrefixStallTable} {active required : Nat} {samples : Dict Nat (List (Nat × ℚ))}
  {prefixBytes : Nat → Nat → Except TableError Nat} {bytes : Nat → Nat → Nat} {dmg : Nat → Nat → ℚ} {c : Nat → Nat}
  {prefixes : List (Nat × Nat)}

/-- The option to keep `p` of the resident groups of a model. -/
def optionOf (bytes : Nat → Nat → Nat) (dmg : Nat → Nat → ℚ) (model resident p : Nat) : PrefixOption :=
  ⟨model, p, bytes model resident - bytes model p, dmg model p, resident - p⟩

/-- The state of a choice `c` of prefixes. -/
def stateOf (bytes : Nat → Nat → Nat) (dmg : Nat → Nat → ℚ) (prefixes : List (Nat × Nat)) (c : Nat → Nat) : Frontier where
  freed := (prefixes.map fun e => bytes e.1 e.2 - bytes e.1 (c e.1)).sum
  cost := (prefixes.map fun e => dmg e.1 (c e.1)).sum
  evicted := (prefixes.map fun e => e.2 - c e.1).sum
  selected := prefixes.map fun e => (e.1, c e.1)

theorem stateOf_congr {c' : Nat → Nat} (h : ∀ e ∈ prefixes, c e.1 = c' e.1) :
    stateOf bytes dmg prefixes c = stateOf bytes dmg prefixes c' := by
  unfold stateOf
  congr 1
  · exact congrArg sum (map_congr_left fun e he => by rw [h e he])
  · exact congrArg sum (map_congr_left fun e he => by rw [h e he])
  · exact congrArg sum (map_congr_left fun e he => by rw [h e he])
  · exact map_congr_left fun e he => by rw [h e he]

theorem expand_stateOf (prefixes : List (Nat × Nat)) (model resident : Nat) :
    (stateOf bytes dmg prefixes c).expand (optionOf bytes dmg model resident (c model)) =
      stateOf bytes dmg (prefixes ++ [(model, resident)]) c := by
  simp [stateOf, optionOf, expand]

/-- The table has the bytes and the damage of all prefixes that may be kept. -/
def Priced (table : PrefixStallTable) (samples : Dict Nat (List (Nat × ℚ))) (prefixBytes : Nat → Nat → Except TableError Nat)
    (bytes : Nat → Nat → Nat) (dmg : Nat → Nat → ℚ) (e : Nat × Nat) : Prop :=
  ∀ p ≤ e.2, prefixBytes e.1 p = .ok (bytes e.1 p) ∧ damage table e.1 e.2 ((samples.get? e.1).getD []) p = .ok (dmg e.1 p)

theorem mapM_ok {ε α β : Type} {f : α → Except ε β} {g : α → β} {l : List α} (h : ∀ x ∈ l, f x = .ok (g x)) :
    l.mapM f = .ok (l.map g) := by
  induction l with
  | nil => rfl
  | cons x l ih =>
    rw [mapM_cons, h x mem_cons_self, ih fun y hy => h y (mem_cons_of_mem _ hy)]
    rfl

variable {model resident : Nat} {frontier : List Frontier}

theorem buildModelOptions_eq (h : Priced table samples prefixBytes bytes dmg (model, resident)) :
    buildModelOptions table model resident ((samples.get? model).getD []) prefixBytes =
      .ok ((range (resident + 1)).reverse.map (optionOf bytes dmg model resident)) := by
  refine mapM_ok ?_
  intro p hp
  rw [mem_reverse, mem_range] at hp
  obtain ⟨hcur, -⟩ := h resident (Nat.le_refl _)
  obtain ⟨hkept, hdamage⟩ := h p (Nat.lt_succ_iff.1 hp)
  dsimp only at hcur hkept hdamage
  rw [prefixOption, hcur, hdamage, hkept]
  rfl

/-- A choice keeps no more than is resident. -/
def Keeps (prefixes : List (Nat × Nat)) (c : Nat → Nat) : Prop := ∀ e ∈ prefixes, c e.1 ≤ e.2

instance (prefixes : List (Nat × Nat)) (c : Nat → Nat) : Decidable (Keeps prefixes c) :=
  inferInstanceAs (Decidable (∀ e ∈ prefixes, c e.1 ≤ e.2))

/-- As long as a choice has released too little, no choice for the same models with the same damage releases more. -/
def Untied (required : Nat) (bytes : Nat → Nat → Nat) (dmg : Nat → Nat → ℚ) (prefixes : List (Nat × Nat))
    (c : Nat → Nat) : Prop :=
  ∀ part, part <+: prefixes → (stateOf bytes dmg part c).freed < required → ∀ c', Keeps part c' →
    (stateOf bytes dmg part c).freed < (stateOf bytes dmg part c').freed →
    (stateOf bytes dmg part c').cost ≠ (stateOf bytes dmg part c).cost

/-- The states of a frontier are choices. For each choice one of them releases as much, or what is required, at no more damage,
and for those that are not tied one is as good. -/
structure Covering (required : Nat) (bytes : Nat → Nat → Nat) (dmg : Nat → Nat → ℚ) (prefixes : List (Nat × Nat))
    (frontier : List Frontier) : Prop where
  mem : ∀ s ∈ frontier, ∃ c, Keeps prefixes c ∧ s = stateOf bytes dmg prefixes c
  cheapest : ∀ c, Keeps prefixes c → ∃ s ∈ frontier,
    min required (stateOf bytes dmg prefixes c).freed ≤ s.freed ∧ s.cost ≤ (stateOf bytes dmg prefixes c).cost
  best : ∀ c, Keeps prefixes c → Untied required bytes dmg prefixes c →
    ∃ s ∈ frontier, s.AsGood required (stateOf bytes dmg prefixes c)

theorem Covering.step (h : Covering required bytes dmg prefixes frontier) (hnew : model ∉ prefixes.map Prod.fst) :
    Covering required bytes dmg (prefixes ++ [(model, resident)]) (prune required
      (frontier.flatMap fun s => ((range (resident + 1)).reverse.map (optionOf bytes dmg model resident)).map s.expand)) := by
  obtain ⟨states, hsts⟩ : ∃ states, states =
    frontier.flatMap fun s => ((range (resident + 1)).reverse.map (optionOf bytes dmg model resident)).map s.expand := ⟨_, rfl⟩
  have hoption : ∀ s ∈ frontier, ∀ p ≤ resident, s.expand (optionOf bytes dmg model resident p) ∈ states := by
    intro s hs p hp
    rw [hsts]
    refine mem_flatMap.2 ⟨s, hs, mem_map.2 ⟨_, mem_map.2 ⟨p, ?_, rfl⟩, rfl⟩⟩
    rw [mem_reverse, mem_range]
    exact Nat.lt_succ_of_le hp
  have hch : ∀ s ∈ states, ∃ c, Keeps (prefixes ++ [(model, resident)]) c ∧
      s = stateOf bytes dmg (prefixes ++ [(model, resident)]) c := by
    intro s' hs'
    rw [hsts] at hs'
    obtain ⟨s, hs, hs'⟩ := mem_flatMap.1 hs'
    obtain ⟨o, ho, rfl⟩ := mem_map.1 hs'
    obtain ⟨p, hp, rfl⟩ := mem_map.1 ho
    rw [mem_reverse, mem_range] at hp
    obtain ⟨c, hc, rfl⟩ := h.mem s hs
    have hsa : ∀ e ∈ prefixes, update c model p e.1 = c e.1 := by
      intro e he
      refine update_of_ne ?_ _ _
      rintro rfl
      exact hnew (mem_map_of_mem he)
    refine ⟨update c model p, ?_, ?_⟩
    · intro e he
      rcases mem_append.1 he with he | he
      · rw [hsa e he]
        exact hc e he
      · rw [mem_singleton.1 he, update_self]
        exact Nat.lt_succ_iff.1 hp
    · rw [← expand_stateOf, update_self, stateOf_congr hsa]
  have hkps : ∀ c, Keeps (prefixes ++ [(model, resident)]) c → Keeps prefixes c ∧ c model ≤ resident := fun c hc =>
    ⟨fun e he => hc e (mem_append_left _ he), hc (model, resident) (by simp)⟩
  rw [← hsts]
  refine ⟨fun s hs => hch s (mem_of_mem_prune hs), ?_, ?_⟩
  · intro c hc
    obtain ⟨hold, hle⟩ := hkps c hc
    obtain ⟨s, hs, hfreed, hcost⟩ := h.cheapest c hold
    obtain ⟨s', hs', hfreed', hcost'⟩ := exists_mem_prune required (hoption s hs (c model) hle)
    rw [← expand_stateOf]
    refine ⟨s', hs', ?_, hcost'.trans (add_le_add_left hcost _)⟩
    simp only [expand] at hfreed' ⊢
    omega
  · intro c hc huntied
    obtain ⟨hold, hle⟩ := hkps c hc
    obtain ⟨s, hs, hgood⟩ := h.best c hold fun part hpart => huntied part (hpart.trans (prefix_append _ _))
    have hgood' := hgood.expand (optionOf bytes dmg model resident (c model))
    rw [expand_stateOf] at hgood'
    refine hgood'.prune (hoption s hs (c model) hle) ?_
    intro hshort x hx hmore
    obtain ⟨c', hc', rfl⟩ := hch x hx
    exact huntied _ prefix_rfl hshort c' hc' hmore

theorem solveLoop_spec {rest done : List (Nat × Nat)} (h : Covering required bytes dmg done frontier)
    (hnd : ((done ++ rest).map fst).Nodup)
    (hpriced : ∀ e ∈ rest, e.1 ≠ active → Priced table samples prefixBytes bytes dmg e) (peak considered : Nat) :
    ∃ frontier' peak' considered',
      solveLoop table active required samples prefixBytes rest (frontier, peak, considered) =
        .ok (frontier', peak', considered') ∧
      Covering required bytes dmg (done ++ rest.filter fun e => e.1 ≠ active) frontier' := by
  induction rest generalizing done frontier peak considered with
  | nil =>
    refine ⟨frontier, peak, considered, rfl, ?_⟩
    rw [filter_nil, append_nil]
    exact h
  | cons e rest ih =>
    obtain ⟨model, resident⟩ := e
    rw [solveLoop]
    by_cases hact : model = active
    · rw [if_pos hact, filter_cons_of_neg (by simpa using hact)]
      refine ih h ?_ (fun e he => hpriced e (mem_cons_of_mem _ he)) peak considered
      exact hnd.sublist (List.Sublist.map _ (List.Sublist.append_left (sublist_cons_self _ _) _))
    · rw [if_neg hact, buildModelOptions_eq (hpriced (model, resident) mem_cons_self hact),
        filter_cons_of_pos (by simpa using hact)]
      have hnew : model ∉ done.map fst := by
        intro hmem
        rw [map_append, map_cons, nodup_append] at hnd
        exact hnd.2.2 model hmem model mem_cons_self rfl
      obtain ⟨frontier', peak', considered', hrun, hcov⟩ := ih (h.step hnew) (by simpa using hnd)
        (fun e he => hpriced e (mem_cons_of_mem _ he)) _ _
      refine ⟨frontier', peak', considered', hrun, ?_⟩
      rw [append_assoc] at hcov
      exact hcov

end Solver

end ServerlessLLM.Simulator
