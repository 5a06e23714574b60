import Mathlib.Algebra.Order.BigOperators.Group.List
import ServerlessLLM.Layerweave.CachePolicy

/-!
# The knapsack

What `_solve_mckp` returns is a choice of one candidate for each model, with its pages and its value; and it returns something
when every model has a candidate without pages.
-/

namespace ServerlessLLM.Layerweave

open List Dict Prod

theorem mem_of_firstMax {α : Type} {lt : α → α → Bool} {l : List α} {x : α} (h : firstMax lt l = some x) : x ∈ l := by
  have hfold : ∀ (rest : List α) (best : α), rest.foldl (fun best y => if lt best y then y else best) best ∈ best :: rest := by
    intro rest
    induction rest with
    | nil => exact fun best => mem_cons_self
    | cons y rest ih =>
      intro best
      rw [foldl_cons]
      rcases mem_cons.1 (ih (if lt best y then y else best)) with heq | hmem
      · rw [heq]
        split
        · exact mem_cons_of_mem _ mem_cons_self
        · exact mem_cons_self
      · exact mem_cons_of_mem _ (mem_cons_of_mem _ hmem)
  cases l with
  | nil => cases h
  | cons y rest =>
    cases h
    exact hfold rest y

theorem firstMax_isSome {α : Type} (lt : α → α → Bool) {l : List α} (h : l ≠ []) : ∃ x, firstMax lt l = some x := by
  cases l with
  | nil => exact absurd rfl h
  | cons y rest => exact ⟨_, rfl⟩

theorem exists_of_forall₂ {α β : Type} {R : α → β → Prop} {l : List α} {l' : List β} (h : List.Forall₂ R l l')
    {x : α} (hx : x ∈ l) :
    ∃ y ∈ l', R x y := by
  induction h with
  | nil => cases hx
  | cons hxy _ ih =>
    rcases mem_cons.1 hx with rfl | hx
    · exact ⟨_, mem_cons_self, hxy⟩
    · obtain ⟨y, hy, hR⟩ := ih hx
      exact ⟨y, mem_cons_of_mem _ hy, hR⟩

namespace Knapsack

variable {capacityPages modelId used : Nat} {value : ℚ} {choices : Dict Nat Candidate} {candidates : List Candidate}
  {models : List (Nat × List Candidate)} {states next : Knapsack} {c : Candidate}

/-- A state is a choice of one candidate for each of the models, with the pages and the value that it has. -/
structure Chosen (capacityPages : Nat) (models : List (Nat × List Candidate)) (e : Nat × ℚ × Dict Nat Candidate) : Prop where
  choices : List.Forall₂ (fun p m => p.1 = m.1 ∧ p.2 ∈ m.2) e.2.2.entries models
  used : e.1 = (e.2.2.entries.map fun p => p.2.pageCount).sum
  value : e.2.1 = (e.2.2.entries.map fun p => p.2.expectedValueMs).sum
  fits : e.1 ≤ capacityPages

variable {e : Nat × ℚ × Dict Nat Candidate} {k : Nat}

theorem Chosen.keys (h : Chosen capacityPages models e) : e.2.2.keys = models.map Prod.fst := by
  have hfst : ∀ {l : List (Nat × Candidate)} {l' : List (Nat × List Candidate)},
      List.Forall₂ (fun p m => p.1 = m.1 ∧ p.2 ∈ m.2) l l' → l.map fst = l'.map fst := by
    intro l l' h
    induction h with
    | nil => rfl
    | cons hp _ ih => rw [map_cons, map_cons, hp.1, ih]
  exact hfst h.choices

theorem Chosen.set {e : Nat × ℚ × Dict Nat Candidate} (h : Chosen capacityPages models e) (hnew : modelId ∉ models.map Prod.fst)
    (hc : c ∈ candidates) (hft : e.1 + c.pageCount ≤ capacityPages) :
    Chosen capacityPages (models ++ [(modelId, candidates)])
      (e.1 + c.pageCount, e.2.1 + c.expectedValueMs, e.2.2.set modelId c) := by
  have hkey : modelId ∉ e.2.2.entries.map Prod.fst := by
    have hks := h.keys
    unfold Dict.keys at hks
    rw [hks]
    exact hnew
  have hent : (e.2.2.set modelId c).entries = e.2.2.entries ++ [(modelId, c)] := if_neg hkey
  constructor
  · simp only [hent]
    exact rel_append h.choices (List.Forall₂.cons ⟨rfl, hc⟩ List.Forall₂.nil)
  · simp only [hent, map_append, sum_append, map_singleton, sum_singleton]
    rw [h.used]
  · simp only [hent, map_append, sum_append, map_singleton, sum_singleton]
    rw [h.value]
  · exact hft

theorem add_eq (capacityPages modelId used : Nat) (value : ℚ) (choices : Dict Nat Candidate) (next : Knapsack) (c : Candidate) :
    add capacityPages modelId used value choices next c = next ∨
    used + c.pageCount ≤ capacityPages ∧ add capacityPages modelId used value choices next c =
      next.set (used + c.pageCount) (value + c.expectedValueMs, choices.set modelId c) := by
  unfold add
  simp only
  split
  · exact .inl rfl
  · rename_i hft
    split
    · exact .inr ⟨not_lt.1 hft, rfl⟩
    · split
      · exact .inr ⟨not_lt.1 hft, rfl⟩
      · exact .inl rfl

theorem mem_keys_add (h : k ∈ next.keys) : k ∈ (add capacityPages modelId used value choices next c).keys := by
  rcases add_eq capacityPages modelId used value choices next c with heq | ⟨-, heq⟩
  · rw [heq]
    exact h
  · rw [heq]
    exact mem_keys_set.2 (.inr h)

theorem mem_keys_add_self (hc : c.pageCount = 0) (hused : used ≤ capacityPages) :
    used ∈ (add capacityPages modelId used value choices next c).keys := by
  unfold add
  simp only [hc, Nat.add_zero]
  rw [if_neg (not_lt.2 hused)]
  split
  · exact mem_keys_set.2 (.inl rfl)
  · rename_i previous hget
    split
    · exact mem_keys_set.2 (.inl rfl)
    · exact mem_keys_iff.2 ⟨_, hget⟩

theorem mem_keys_foldl_add (h : k ∈ next.keys) :
    k ∈ (candidates.foldl (add capacityPages modelId used value choices) next).keys := by
  induction candidates generalizing next with
  | nil => exact h
  | cons c candidates ih => exact ih (mem_keys_add h)

theorem mem_keys_foldl_add_self (hc : c ∈ candidates) (hzero : c.pageCount = 0) (hused : used ≤ capacityPages) :
    used ∈ (candidates.foldl (add capacityPages modelId used value choices) next).keys := by
  obtain ⟨before, after, rfl⟩ := append_of_mem hc
  rw [foldl_append, foldl_cons]
  exact mem_keys_foldl_add (mem_keys_add_self hzero hused)

/-! ## One model -/

theorem chosen_foldl_add (he : Chosen capacityPages models e)
    (hnew : modelId ∉ models.map fst) {l : List Candidate} (hl : ∀ c ∈ l, c ∈ candidates)
    (hnx : ∀ f ∈ next.entries, Chosen capacityPages (models ++ [(modelId, candidates)]) f) :
    ∀ f ∈ (l.foldl (add capacityPages modelId e.1 e.2.1 e.2.2) next).entries,
      Chosen capacityPages (models ++ [(modelId, candidates)]) f := by
  induction l generalizing next with
  | nil => exact hnx
  | cons c l ih =>
    refine ih (fun d hd => hl d (mem_cons_of_mem _ hd)) ?_
    intro f hf
    rcases add_eq capacityPages modelId e.1 e.2.1 e.2.2 next c with heq | ⟨hft, heq⟩
    · rw [heq] at hf
      exact hnx f hf
    · rw [heq] at hf
      rcases mem_entries_set.1 hf with ⟨hk, hv⟩ | ⟨-, hf⟩
      · have hf : f = (e.1 + c.pageCount, e.2.1 + c.expectedValueMs, e.2.2.set modelId c) := Prod.ext hk hv
        rw [hf]
        exact he.set hnew (hl c mem_cons_self) hft
      · exact hnx f hf

theorem chosen_extend (hsts : ∀ e ∈ states.entries, Chosen capacityPages models e) (hnew : modelId ∉ models.map Prod.fst) :
    ∀ f ∈ (extend capacityPages modelId candidates states).entries,
      Chosen capacityPages (models ++ [(modelId, candidates)]) f := by
  unfold extend
  generalize states.entries = es at hsts
  have hemp : ∀ f ∈ (Dict.empty : Knapsack).entries, Chosen capacityPages (models ++ [(modelId, candidates)]) f := by
    rintro f ⟨⟩
  revert hemp
  generalize (Dict.empty : Knapsack) = next
  intro hnx
  induction es generalizing next with
  | nil => exact hnx
  | cons e es ih =>
    refine ih (fun e' he' => hsts e' (mem_cons_of_mem _ he')) _ ?_
    exact chosen_foldl_add (hsts e mem_cons_self) hnew (fun c hc => hc) hnx

theorem extend_ne_nil (he : e ∈ states.entries) (hused : e.1 ≤ capacityPages)
    (hc : c ∈ candidates) (hzero : c.pageCount = 0) : (extend capacityPages modelId candidates states).entries ≠ [] := by
  have hkeep : ∀ (es : List (Nat × ℚ × Dict Nat Candidate)) (next : Knapsack) (k : Nat), k ∈ next.keys →
      k ∈ (es.foldl (fun next e => candidates.foldl (add capacityPages modelId e.1 e.2.1 e.2.2) next) next).keys := by
    intro es
    induction es with
    | nil => exact fun next k hk => hk
    | cons e es ih => exact fun next k hk => ih _ k (mem_keys_foldl_add hk)
  have hkey : e.1 ∈ (extend capacityPages modelId candidates states).keys := by
    unfold extend
    obtain ⟨before, after, hspl⟩ := append_of_mem he
    rw [hspl, foldl_append, foldl_cons]
    exact hkeep _ _ _ (mem_keys_foldl_add_self hc hzero hused)
  intro hnil
  unfold Dict.keys at hkey
  rw [hnil] at hkey
  cases hkey

/-! ## Pruning -/

variable {bestValue : ℚ} {pruned : Knapsack} {l : List (Nat × ℚ × Dict Nat Candidate)}
  {rest : List (Nat × List Candidate)}

theorem mem_of_mem_pruneFrom (h : e ∈ (pruneFrom bestValue pruned l).entries) : e ∈ pruned.entries ∨ e ∈ l := by
  induction l generalizing bestValue pruned with
  | nil => exact .inl h
  | cons f l ih =>
    unfold pruneFrom at h
    split at h
    · rcases ih h with hpruned | hl
      · rcases mem_entries_set.1 hpruned with ⟨hk, hv⟩ | ⟨-, hpruned⟩
        · exact .inr (Prod.ext hk hv ▸ mem_cons_self)
        · exact .inl hpruned
      · exact .inr (mem_cons_of_mem _ hl)
    · exact (ih h).imp_right (mem_cons_of_mem _)

theorem mem_of_mem_prune (h : e ∈ states.prune.entries) : e ∈ states.entries := by
  rcases mem_of_mem_pruneFrom h with h | h
  · cases h
  · exact (mem_insertionSort _).1 h

theorem mem_keys_pruneFrom (h : k ∈ pruned.keys) : k ∈ (pruneFrom bestValue pruned l).keys := by
  induction l generalizing bestValue pruned with
  | nil => exact h
  | cons e l ih =>
    unfold pruneFrom
    split
    · exact ih (mem_keys_set.2 (.inr h))
    · exact ih h

theorem prune_ne_nil (h : states.entries ≠ []) (hval : ∀ e ∈ states.entries, 0 ≤ e.2.1) : states.prune.entries ≠ [] := by
  intro hnil
  unfold prune at hnil
  cases hsrt : states.entries.insertionSort (fun e f => e.1 ≤ f.1) with
  | nil =>
    have hlen := congrArg List.length hsrt
    rw [length_insertionSort, length_nil, length_eq_zero_iff] at hlen
    exact h hlen
  | cons e l =>
    have he : e ∈ states.entries := (mem_insertionSort _).1 (hsrt ▸ mem_cons_self)
    have hb : e.2.1 > -1 := (neg_one_lt_zero : (-1 : ℚ) < 0).trans_le (hval e he)
    rw [hsrt, pruneFrom, if_pos hb] at hnil
    have hkey : e.1 ∈ (pruneFrom e.2.1 (set Dict.empty e.1 e.2) l).keys :=
      mem_keys_pruneFrom (mem_keys_set.2 (.inl rfl))
    unfold Dict.keys at hkey
    rw [hnil] at hkey
    cases hkey

/-! ## All models -/

theorem chosen_solve (models : List (Nat × List Candidate)) (hnd : ((models ++ rest).map Prod.fst).Nodup)
    (hsts : ∀ e ∈ states.entries, Chosen capacityPages models e) (h : solve capacityPages rest states = .ok next) :
    ∀ e ∈ next.entries, Chosen capacityPages (models ++ rest) e := by
  induction rest generalizing models states with
  | nil =>
    cases h
    rw [append_nil]
    exact hsts
  | cons m rest ih =>
    obtain ⟨modelId, candidates⟩ := m
    unfold solve at h
    simp only at h
    split at h
    · cases h
    · rw [append_cons] at hnd ⊢
      refine ih _ hnd ?_ h
      intro e he
      have hnew : modelId ∉ models.map fst := by
        rw [append_assoc, map_append, nodup_append] at hnd
        intro hmem
        exact hnd.2.2 modelId hmem modelId (by simp) rfl
      exact chosen_extend hsts hnew e (mem_of_mem_prune he)

theorem solve_ok (models : List (Nat × List Candidate)) (hnd : ((models ++ rest).map Prod.fst).Nodup)
    (hsts : ∀ e ∈ states.entries, Chosen capacityPages models e) (hne : states.entries ≠ [])
    (hzero : ∀ m ∈ rest, ∃ c ∈ m.2, c.pageCount = 0) (hval : ∀ m ∈ models ++ rest, ∀ c ∈ m.2, 0 ≤ c.expectedValueMs) :
    ∃ next, solve capacityPages rest states = .ok next ∧ next.entries ≠ [] := by
  induction rest generalizing models states with
  | nil => exact ⟨states, rfl, hne⟩
  | cons m rest ih =>
    obtain ⟨modelId, candidates⟩ := m
    obtain ⟨c, hc, hpgs⟩ := hzero (modelId, candidates) mem_cons_self
    obtain ⟨e, he⟩ := exists_mem_of_ne_nil _ hne
    have hext : (extend capacityPages modelId candidates states).entries ≠ [] := extend_ne_nil he (hsts e he).fits hc hpgs
    unfold solve
    simp only [if_neg hext]
    rw [append_cons] at hnd hval
    have hnew : modelId ∉ models.map fst := by
      rw [append_assoc, map_append, nodup_append] at hnd
      intro hmem
      exact hnd.2.2 modelId hmem modelId (by simp) rfl
    have hcho : ∀ f ∈ (extend capacityPages modelId candidates states).entries, _ := chosen_extend hsts hnew
    refine ih _ hnd (fun f hf => hcho f (mem_of_mem_prune hf)) (prune_ne_nil hext ?_)
      (fun m hm => hzero m (mem_cons_of_mem _ hm)) hval
    intro f hf
    -- the value of a choice is the sum of values that are not negative
    rw [(hcho f hf).value]
    refine sum_nonneg ?_
    intro x hx
    obtain ⟨p, hp, rfl⟩ := mem_map.1 hx
    obtain ⟨m, hm, -, hmem⟩ := exists_of_forall₂ (hcho f hf).choices hp
    exact hval m (mem_append_left _ hm) p.2 hmem

theorem chosen_empty (capacityPages : Nat) :
    ∀ e ∈ (set (Dict.empty : Knapsack) 0 (0, .empty)).entries, Chosen capacityPages [] e := by
  intro e he
  rcases mem_entries_set.1 he with ⟨hk, hv⟩ | ⟨-, he⟩
  · have he : e = (0, 0, Dict.empty) := Prod.ext hk hv
    rw [he]
    exact ⟨List.Forall₂.nil, rfl, rfl, Nat.zero_le _⟩
  · cases he

end Knapsack

variable {models : List (Nat × List Candidate)} {capacityPages : Nat}

theorem solveMckp_chosen {solution : Solution} (hnd : (models.map Prod.fst).Nodup)
    (h : solveMckp models capacityPages = .ok solution) : ∃ sorted, sorted.Perm models ∧
      Knapsack.Chosen capacityPages sorted (solution.usedPages, solution.expectedValueMs, solution.choices) := by
  have hpm := perm_insertionSort (fun e f : Nat × List Candidate => e.1 ≤ f.1) models
  unfold solveMckp at h
  split at h
  · cases h
  · rename_i states hslv
    split at h
    · cases h
    · rename_i used value choices hmax
      cases h
      refine ⟨_, hpm, ?_⟩
      have hcho := Knapsack.chosen_solve [] ?_ (Knapsack.chosen_empty capacityPages) hslv
      · exact hcho _ (mem_of_firstMax hmax)
      · exact (hpm.map fst).nodup_iff.2 hnd

theorem solveMckp_ok (capacityPages : Nat) (hnd : (models.map Prod.fst).Nodup)
    (hzero : ∀ m ∈ models, ∃ c ∈ m.2, c.pageCount = 0)
    (hval : ∀ m ∈ models, ∀ c ∈ m.2, 0 ≤ c.expectedValueMs) : ∃ solution, solveMckp models capacityPages = .ok solution := by
  have hpm := perm_insertionSort (fun e f : Nat × List Candidate => e.1 ≤ f.1) models
  have hok : ∃ states, Knapsack.solve capacityPages (models.insertionSort fun e f => e.1 ≤ f.1) (Dict.empty.set 0 (0, .empty)) =
      .ok states ∧ states.entries ≠ [] :=
    Knapsack.solve_ok [] ((hpm.map fst).nodup_iff.2 hnd) (Knapsack.chosen_empty capacityPages)
      (by simp [Dict.set, Dict.setEntries]) (fun m hm => hzero m (hpm.mem_iff.1 hm)) (fun m hm => hval m (hpm.mem_iff.1 hm))
  obtain ⟨states, hslv, hne⟩ := hok
  obtain ⟨⟨used, value, choices⟩, hmax⟩ :=
    firstMax_isSome (fun e f : Nat × ℚ × Dict Nat Candidate => e.2.1 < f.2.1 ∨ e.2.1 = f.2.1 ∧ f.1 < e.1) hne
  refine ⟨⟨used, value, choices⟩, ?_⟩
  unfold solveMckp
  rw [hslv]
  simp only
  rw [hmax]

end ServerlessLLM.Layerweave
