import ServerlessLLM.Layerweave.Theorems.Dispatch

/-!
# The plan for the inactive models is optimal

Three prunings come before the choice: each model keeps its Pareto candidates, upgrades are left out, and the knapsack forgets
the states that a smaller one equals.
-/

namespace ServerlessLLM.Layerweave

open List Function Dict State Policy
open Prod (fst)

def Assigns (models : List (Nat × List Candidate)) (a : Nat → Candidate) : Prop := ∀ m ∈ models, a m.1 ∈ m.2

def pagesFor (models : List (Nat × List Candidate)) (a : Nat → Candidate) : Nat := (models.map fun m => (a m.1).pageCount).sum

def valueFor (models : List (Nat × List Candidate)) (a : Nat → Candidate) : ℚ :=
    (models.map fun m => (a m.1).expectedValueMs).sum

/-- An assignment within the capacity. -/
def Fits (capacityPages : Nat) (models : List (Nat × List Candidate)) (a : Nat → Candidate) : Prop :=
  Assigns models a ∧ pagesFor models a ≤ capacityPages

variable {capacityPages modelId used : Nat} {value : ℚ} {choices : Dict Nat Candidate} {candidates : List Candidate}
  {models : List (Nat × List Candidate)} {a : Nat → Candidate} {c : Candidate}

theorem pagesFor_append (models models' : List (Nat × List Candidate)) (a : Nat → Candidate) :
    pagesFor (models ++ models') a = pagesFor models a + pagesFor models' a := by
  unfold pagesFor
  rw [map_append, sum_append]

theorem valueFor_append (models models' : List (Nat × List Candidate)) (a : Nat → Candidate) :
    valueFor (models ++ models') a = valueFor models a + valueFor models' a := by
  unfold valueFor
  rw [map_append, sum_append]

theorem Assigns.value_nonneg (h : Assigns models a) (hval : ∀ m ∈ models, ∀ c ∈ m.2, 0 ≤ c.expectedValueMs) :
    0 ≤ valueFor models a := by
  refine sum_nonneg ?_
  intro x hx
  obtain ⟨m, hm, rfl⟩ := mem_map.1 hx
  exact hval m hm _ (h m hm)

variable {models' : List (Nat × List Candidate)}

theorem pagesFor_perm (hpm : models.Perm models') (a : Nat → Candidate) : pagesFor models a = pagesFor models' a :=
  (hpm.map fun m : Nat × List Candidate => (a m.1).pageCount).sum_eq

theorem valueFor_perm (hpm : models.Perm models') (a : Nat → Candidate) : valueFor models a = valueFor models' a :=
  (hpm.map fun m : Nat × List Candidate => (a m.1).expectedValueMs).sum_eq

theorem Fits.perm (hpm : models.Perm models') (h : Fits capacityPages models a) : Fits capacityPages models' a :=
  ⟨fun m hm => h.1 m (hpm.mem_iff.2 hm), pagesFor_perm hpm a ▸ h.2⟩

/-! ## The knapsack -/

namespace Knapsack

variable {states next : Knapsack} {k : Nat} {v : ℚ}

/-- The state with `k` pages has at least the value `v`. -/
def AtLeast (states : Knapsack) (k : Nat) (v : ℚ) : Prop := ∃ x, states.get? k = some x ∧ v ≤ x.1

theorem AtLeast.add (h : AtLeast next k v) (capacityPages modelId used : Nat) (value : ℚ)
    (choices : Dict Nat Candidate) (c : Candidate) :
    AtLeast (add capacityPages modelId used value choices next c) k v := by
  obtain ⟨x, hx, hle⟩ := h
  unfold Knapsack.add
  dsimp only
  split
  · exact ⟨x, hx, hle⟩
  · by_cases hk : k = used + c.pageCount
    · rw [← hk, hx]
      dsimp only
      split
      · rename_i hbet
        exact ⟨_, by rw [get?_set, if_pos rfl], hle.trans (le_of_lt hbet)⟩
      · exact ⟨x, hx, hle⟩
    · have hother : ∀ y, (next.set (used + c.pageCount) y).get? k = some x := by
        intro y
        rw [get?_set, if_neg hk, hx]
      split
      · exact ⟨x, hother _, hle⟩
      · split
        · exact ⟨x, hother _, hle⟩
        · exact ⟨x, hx, hle⟩

theorem atLeast_add (hft : used + c.pageCount ≤ capacityPages) :
    AtLeast (add capacityPages modelId used value choices next c) (used + c.pageCount) (value + c.expectedValueMs) := by
  unfold add
  dsimp only
  rw [if_neg (not_lt.2 hft)]
  split
  · exact ⟨_, by rw [get?_set, if_pos rfl], le_rfl⟩
  · rename_i previous hget
    split
    · exact ⟨_, by rw [get?_set, if_pos rfl], le_rfl⟩
    · rename_i hworse
      exact ⟨previous, hget, not_lt.1 hworse⟩

theorem AtLeast.foldl_add (h : AtLeast next k v) (capacityPages modelId used : Nat) (value : ℚ) (choices : Dict Nat Candidate)
    (l : List Candidate) : AtLeast (l.foldl (Knapsack.add capacityPages modelId used value choices) next) k v := by
  induction l generalizing next with
  | nil => exact h
  | cons c l ih => exact ih (h.add capacityPages modelId used value choices c)

theorem atLeast_foldl_add (hc : c ∈ candidates) (hft : used + c.pageCount ≤ capacityPages) :
    AtLeast (candidates.foldl (add capacityPages modelId used value choices) next) (used + c.pageCount)
      (value + c.expectedValueMs) := by
  obtain ⟨before, after, rfl⟩ := append_of_mem hc
  rw [foldl_append, foldl_cons]
  exact (atLeast_add hft).foldl_add _ _ _ _ _ after

theorem exists_mem_extend {e : Nat × ℚ × Dict Nat Candidate} (he : e ∈ states.entries) (hc : c ∈ candidates)
    (hft : e.1 + c.pageCount ≤ capacityPages) :
    ∃ f ∈ (extend capacityPages modelId candidates states).entries, f.1 = e.1 + c.pageCount ∧
      e.2.1 + c.expectedValueMs ≤ f.2.1 := by
  have hkeep : ∀ (es : List (Nat × ℚ × Dict Nat Candidate)) (next : Knapsack),
    AtLeast next (e.1 + c.pageCount) (e.2.1 + c.expectedValueMs) →
      AtLeast (es.foldl (fun next e => candidates.foldl (add capacityPages modelId e.1 e.2.1 e.2.2) next) next)
        (e.1 + c.pageCount) (e.2.1 + c.expectedValueMs) := by
    intro es
    induction es with
    | nil => exact fun next h => h
    | cons e' es ih => exact fun next h => ih _ (h.foldl_add capacityPages modelId e'.1 e'.2.1 e'.2.2 candidates)
  have hext : AtLeast (extend capacityPages modelId candidates states) (e.1 + c.pageCount) (e.2.1 + c.expectedValueMs) := by
    unfold extend
    obtain ⟨before, after, hspl⟩ := append_of_mem he
    rw [hspl, foldl_append, foldl_cons]
    exact hkeep after _ (atLeast_foldl_add hc hft)
  obtain ⟨x, hx, hle⟩ := hext
  exact ⟨(e.1 + c.pageCount, x), mem_entries_iff.2 hx, rfl, hle⟩

/-- A state of no more pages and no less value. -/
def AsGood (states : Knapsack) (f : Nat × ℚ × Dict Nat Candidate) : Prop := ∃ g ∈ states.entries, g.1 ≤ f.1 ∧ f.2.1 ≤ g.2.1

theorem asGood_pruneFrom {bestValue : ℚ} {pruned : Knapsack} {l : List (Nat × ℚ × Dict Nat Candidate)}
    (hsrt : l.Pairwise fun e f => e.1 ≤ f.1)
    (hle : ∀ g ∈ pruned.entries, g.2.1 ≤ bestValue)
    (hb : bestValue = -1 ∨ ∃ g ∈ pruned.entries, g.2.1 = bestValue ∧ ∀ f ∈ l, g.1 ≤ f.1) :
    (∀ f, AsGood pruned f → AsGood (pruneFrom bestValue pruned l) f) ∧ ∀ f ∈ l, 0 ≤ f.2.1 →
      AsGood (pruneFrom bestValue pruned l) f := by
  induction l generalizing bestValue pruned with
  | nil => exact ⟨fun f h => h, by simp⟩
  | cons e l ih =>
    obtain ⟨hfst, hsrt⟩ := pairwise_cons.1 hsrt
    unfold pruneFrom
    split
    · rename_i hbet
      have hmem : e ∈ (pruned.set e.1 e.2).entries := mem_entries_set.2 (.inl ⟨rfl, rfl⟩)
      have hle' : ∀ g ∈ (pruned.set e.1 e.2).entries, g.2.1 ≤ e.2.1 := by
        intro g hg
        rcases mem_entries_set.1 hg with ⟨-, hv⟩ | ⟨-, hg⟩
        · rw [hv]
        · exact (hle g hg).trans (le_of_lt hbet)
      obtain ⟨hkeep, hrs⟩ := ih hsrt hle' (.inr ⟨e, hmem, rfl, hfst⟩)
      refine ⟨fun f hf => hkeep f ?_, ?_⟩
      · -- a state with as many pages is replaced by a better one
        obtain ⟨g, hg, hpgs, hval⟩ := hf
        by_cases hkey : g.1 = e.1
        · exact ⟨e, hmem, hkey ▸ hpgs, hval.trans ((hle g hg).trans (le_of_lt hbet))⟩
        · exact ⟨g, mem_entries_set.2 (.inr ⟨hkey, hg⟩), hpgs, hval⟩
      · intro f hf hval
        rcases mem_cons.1 hf with rfl | hf
        · exact hkeep f ⟨f, hmem, le_rfl, le_rfl⟩
        · exact hrs f hf hval
    · rename_i hworse
      rw [gt_iff_lt, not_lt] at hworse
      obtain ⟨hkeep, hrs⟩ := ih hsrt hle (hb.imp_right
        (Exists.imp fun g h => ⟨h.1, h.2.1, fun f hl => h.2.2 f (mem_cons_of_mem _ hl)⟩))
      refine ⟨hkeep, ?_⟩
      intro f hf hval
      rcases mem_cons.1 hf with rfl | hf
      · rcases hb with hno | ⟨g, hg, hv, hpgs⟩
        · rw [hno] at hworse
          exact absurd (hval.trans hworse) (not_le.2 neg_one_lt_zero)
        · exact hkeep f ⟨g, hg, hpgs f mem_cons_self, hv ▸ hworse⟩
      · exact hrs f hf hval

instance : Std.Total fun e f : Nat × ℚ × Dict Nat Candidate => e.1 ≤ f.1 := ⟨fun e f => Nat.le_total e.1 f.1⟩

instance : IsTrans (Nat × ℚ × Dict Nat Candidate) fun e f => e.1 ≤ f.1 := ⟨fun _ _ _ => Nat.le_trans⟩

theorem asGood_prune {f : Nat × ℚ × Dict Nat Candidate} (hf : f ∈ states.entries) (hval : 0 ≤ f.2.1) : AsGood states.prune f :=
  (asGood_pruneFrom (pairwise_insertionSort _ _) (by rintro g ⟨⟩) (.inl rfl)).2 f ((mem_insertionSort _).2 hf) hval

/-- For each assignment that fits there is a state with no more pages and no less value. -/
def Covers (capacityPages : Nat) (models : List (Nat × List Candidate)) (states : Knapsack) : Prop :=
  ∀ a, Fits capacityPages models a → ∃ e ∈ states.entries, e.1 ≤ pagesFor models a ∧ valueFor models a ≤ e.2.1

theorem Covers.extend (h : Covers capacityPages models states) (modelId : Nat) (candidates : List Candidate) :
    Covers capacityPages (models ++ [(modelId, candidates)]) (extend capacityPages modelId candidates states) := by
  intro a ha
  have hpgs := pagesFor_append models [(modelId, candidates)] a
  have hone : pagesFor [(modelId, candidates)] a = (a modelId).pageCount := Nat.add_zero _
  have hold : Fits capacityPages models a :=
    ⟨fun m hm => ha.1 m (mem_append_left _ hm), (Nat.le_add_right _ _).trans (hpgs ▸ ha.2)⟩
  obtain ⟨e, he, hle, hval⟩ := h a hold
  have hft := ha.2
  obtain ⟨f, hf, hused, hbet⟩ := exists_mem_extend he (ha.1 (modelId, candidates) (by simp))
    (show e.1 + (a modelId).pageCount ≤ capacityPages by omega)
  dsimp only at hused hbet
  refine ⟨f, hf, by omega, ?_⟩
  rw [valueFor_append]
  have hla : valueFor [(modelId, candidates)] a = (a modelId).expectedValueMs := add_zero _
  rw [hla]
  exact (add_le_add_left hval _).trans hbet

theorem Covers.prune (h : Covers capacityPages models states) (hval : ∀ m ∈ models, ∀ c ∈ m.2, 0 ≤ c.expectedValueMs) :
    Covers capacityPages models states.prune := by
  intro a ha
  obtain ⟨e, he, hpgs, hle⟩ := h a ha
  obtain ⟨g, hg, hused, hbet⟩ := asGood_prune he ((ha.1.value_nonneg hval).trans hle)
  exact ⟨g, hg, hused.trans hpgs, hle.trans hbet⟩

theorem covers_solve {rest : List (Nat × List Candidate)} (h : Covers capacityPages models states)
    (hval : ∀ m ∈ models ++ rest, ∀ c ∈ m.2, 0 ≤ c.expectedValueMs) :
    (∃ next, solve capacityPages rest states = .ok next ∧ Covers capacityPages (models ++ rest) next) ∨
      ∃ e, solve capacityPages rest states = .error e ∧ ∀ a, ¬Fits capacityPages (models ++ rest) a := by
  induction rest generalizing models states with
  | nil => exact .inl ⟨states, rfl, (append_nil models).symm ▸ h⟩
  | cons m rest ih =>
    obtain ⟨modelId, candidates⟩ := m
    have hext := h.extend modelId candidates
    rw [append_cons] at hval ⊢
    unfold solve
    dsimp only
    split
    · rename_i hnil
      refine .inr ⟨_, rfl, ?_⟩
      intro a ha
      have hft : Fits capacityPages (models ++ [(modelId, candidates)]) a := by
        refine ⟨fun m hm => ha.1 m (mem_append_left _ hm), (Nat.le_add_right _ (pagesFor rest a)).trans ?_⟩
        exact (pagesFor_append _ rest a).symm.le.trans ha.2
      obtain ⟨e, he, -⟩ := hext a hft
      rw [hnil] at he
      cases he
    · exact ih (hext.prune fun m hm => hval m (mem_append_left _ hm)) hval

end Knapsack

/-! ## The solution -/

theorem not_lt_of_firstMax {α : Type} {lt : α → α → Bool} (hasymm : ∀ x y, lt x y = true → lt y x = false)
    (htrans : ∀ x y z, lt x y = false → lt y z = false → lt x z = false) {l : List α} {x : α} (h : firstMax lt l = some x) :
    ∀ y ∈ l, lt x y = false := by
  have hirrefl : ∀ x, lt x x = false := by
    intro x
    cases hx : lt x x with
    | false => rfl
    | true => exact hx.symm.trans (hasymm x x hx)
  have hfold : ∀ (rest : List α) (best : α), ∀ y ∈ best :: rest,
      lt (rest.foldl (fun best y => if lt best y then y else best) best) y = false := by
    intro rest
    induction rest with
    | nil =>
      intro best y hy
      rw [mem_singleton.1 hy]
      exact hirrefl best
    | cons z rest ih =>
      intro best y hy
      rw [foldl_cons]
      cases hz : lt best z with
      | true =>
        rw [if_pos rfl]
        rcases mem_cons.1 hy with rfl | hy
        · exact htrans _ z y (ih z z mem_cons_self) (hasymm y z hz)
        · exact ih z y hy
      | false =>
        rw [if_neg Bool.false_ne_true]
        have hb := ih best best mem_cons_self
        rcases mem_cons.1 hy with rfl | hy
        · exact hb
        · rcases mem_cons.1 hy with rfl | hy
          · exact htrans _ best y hb hz
          · exact ih best y (mem_cons_of_mem _ hy)
  cases l with
  | nil => nomatch h
  | cons z rest =>
    cases h
    exact hfold rest z

/-- The choice of a solution; models without one have no pages. -/
def Solution.choice (solution : Solution) (modelId : Nat) : Candidate :=
  (solution.choices.get? modelId).getD ⟨⟨.zero, ∅, 0, 0⟩, 0, 0⟩

/-- An assignment with the most value of all that fit, and the fewest pages of these. -/
structure Optimal (capacityPages : Nat) (models : List (Nat × List Candidate)) (solution : Solution) : Prop where
  keys : solution.choices.keys.Perm (models.map fst)
  fits : Fits capacityPages models solution.choice
  used : solution.usedPages = pagesFor models solution.choice
  value : solution.expectedValueMs = valueFor models solution.choice
  best : ∀ a, Fits capacityPages models a → valueFor models a < solution.expectedValueMs ∨
    valueFor models a = solution.expectedValueMs ∧ solution.usedPages ≤ pagesFor models a

theorem map_eq_of_forall₂ {β : Type} {l : List (Nat × Candidate)} (h : List.Forall₂ (fun p m => p.1 = m.1 ∧ p.2 ∈ m.2) l models)
    (ha : ∀ p ∈ l, a p.1 = p.2) (f : Candidate → β) : l.map (fun p => f p.2) = models.map fun m => f (a m.1) := by
  induction h with
  | nil => rfl
  | cons hp _ ih =>
    rw [map_cons, map_cons, ih fun p hmem => ha p (mem_cons_of_mem _ hmem), ← hp.1, ha _ mem_cons_self]

theorem Knapsack.Chosen.assignment (solution : Solution)
    (h : Chosen capacityPages models (solution.usedPages, solution.expectedValueMs, solution.choices)) :
    Fits capacityPages models solution.choice ∧ solution.usedPages = pagesFor models solution.choice ∧
      solution.expectedValueMs = valueFor models solution.choice := by
  have hch : ∀ p ∈ solution.choices.entries, solution.choice p.1 = p.2 := by
    intro p hp
    unfold Solution.choice
    rw [mem_entries_iff.1 hp]
    rfl
  have hused : solution.usedPages = pagesFor models solution.choice :=
    h.used.trans (congrArg sum (map_eq_of_forall₂ h.choices hch fun c => c.pageCount))
  have hval : solution.expectedValueMs = valueFor models solution.choice :=
    h.value.trans (congrArg sum (map_eq_of_forall₂ h.choices hch fun c => c.expectedValueMs))
  refine ⟨⟨?_, hused ▸ h.fits⟩, hused, hval⟩
  intro m hm
  obtain ⟨p, hp, hkey, hmem⟩ := exists_of_forall₂ h.choices.flip hm
  rw [← hkey, hch p hp]
  exact hmem

theorem Knapsack.covers_empty (capacityPages : Nat) : Covers capacityPages [] (Dict.empty.set 0 (0, .empty)) := fun _ _ =>
  ⟨(0, 0, .empty), mem_entries_set.2 (.inl ⟨rfl, rfl⟩), le_rfl, le_rfl⟩

theorem solveMckp_spec (capacityPages : Nat) (hnd : (models.map fst).Nodup)
    (hval : ∀ m ∈ models, ∀ c ∈ m.2, 0 ≤ c.expectedValueMs) :
    (∃ solution, solveMckp models capacityPages = .ok solution ∧ Optimal capacityPages models solution) ∨
      ∃ e, solveMckp models capacityPages = .error e ∧ ∀ a, ¬Fits capacityPages models a := by
  have hpm := perm_insertionSort (fun e f : Nat × List Candidate => e.1 ≤ f.1) models
  unfold solveMckp
  generalize models.insertionSort (fun e f => e.1 ≤ f.1) = sorted at hpm ⊢
  have hnd' := (hpm.map fst).nodup_iff.2 hnd
  rcases Knapsack.covers_solve (Knapsack.covers_empty capacityPages) (fun m hm => hval m (hpm.mem_iff.1 hm)) with
    ⟨next, hslv, hcov⟩ | ⟨e, hslv, hno⟩
  · rw [hslv]
    dsimp only
    have hcho := Knapsack.chosen_solve [] hnd' (Knapsack.chosen_empty capacityPages) hslv
    split
    · rename_i hmax
      refine .inr ⟨_, rfl, ?_⟩
      intro a ha
      obtain ⟨e, he, -⟩ := hcov a (ha.perm hpm.symm)
      obtain ⟨x, hx⟩ := firstMax_isSome (fun e f : Nat × ℚ × Dict Nat Candidate => e.2.1 < f.2.1 ∨ e.2.1 = f.2.1 ∧ f.1 < e.1)
        (ne_nil_of_mem he)
      rw [hmax] at hx
      nomatch hx
    · rename_i used value choices hmax
      have hb := hcho _ (mem_of_firstMax hmax)
      obtain ⟨hft, hused, hval⟩ := Knapsack.Chosen.assignment ⟨used, value, choices⟩ hb
      refine .inl ⟨_, rfl, ?_, hft.perm hpm, hused.trans (pagesFor_perm hpm _), hval.trans (valueFor_perm hpm _), ?_⟩
      · exact hb.keys ▸ hpm.map fst
      · intro a ha
        obtain ⟨e, he, hpgs, hle⟩ := hcov a (ha.perm hpm.symm)
        rw [nil_append] at hpgs hle
        rw [pagesFor_perm hpm] at hpgs
        rw [valueFor_perm hpm] at hle
        have hmost := not_lt_of_firstMax ?_ ?_ hmax e he
        · rw [decide_eq_false_iff_not, not_or, not_lt, not_and, not_lt] at hmost
          rcases (hle.trans hmost.1).lt_or_eq with hlt | heq
          · exact .inl hlt
          · exact .inr ⟨heq, (hmost.2 (le_antisymm (heq ▸ hle) hmost.1)).trans hpgs⟩
        · intro e f h
          rw [decide_eq_true_iff] at h
          rw [decide_eq_false_iff_not]
          rintro (hlt | ⟨heq, hlt⟩)
          · rcases h with h | ⟨h, -⟩
            · exact lt_asymm h hlt
            · exact hlt.ne h.symm
          · rcases h with h | ⟨-, h⟩
            · exact h.ne heq.symm
            · exact lt_asymm h hlt
        · intro e f g hef hfg
          rw [decide_eq_false_iff_not, not_or, not_lt, not_and, not_lt] at *
          refine ⟨hfg.1.trans hef.1, ?_⟩
          intro heq
          have hval : f.2.1 = g.2.1 := le_antisymm (hef.1.trans heq.le) hfg.1
          exact (hef.2 (heq.trans hval.symm)).trans (hfg.2 hval)
  · rw [hslv]
    exact .inr ⟨e, rfl, fun a ha => hno a (ha.perm hpm.symm)⟩

/-! ## Pareto candidates -/

/-- The candidates of a model, in configuration order: more pages with each, and no negative value. `_score_candidates` skips a
configuration whose pages it has seen. -/
structure Nested (candidates : List Candidate) : Prop where
  ordered : candidates.Pairwise fun c d => c.configuration.rank ≤ d.configuration.rank ∧ c.pages ⊆ d.pages
  distinct : (candidates.map fun c => c.pages).Nodup
  nonneg : ∀ c ∈ candidates, 0 ≤ c.expectedValueMs

section Curve

variable {policy : Policy} {controller : Controller} {shape : Shape}

theorem Controller.rank_effective_le (controller : Controller) {c d : Configuration} (h : c.rank ≤ d.rank) :
    (controller.effectiveConfiguration c).rank ≤ (controller.effectiveConfiguration d).rank := by
  have hfull : ∀ c : Configuration, c.rank ≤ Configuration.full.rank := by
    rintro (_ | _ | _ | _ | _ | _ | _) <;> decide
  have hlys : ∀ c d : Configuration, c.rank ≤ d.rank → ∀ m ∈ d.layers?, ∃ n ∈ c.layers?, n ≤ m := by
    intro c d h m hm
    cases c <;> cases d <;> simp_all [Configuration.rank, Configuration.layers?]
    all_goals omega
  unfold effectiveConfiguration
  cases hd : d.layers? with
  | none => exact hfull _
  | some m =>
    obtain ⟨n, hn, hle⟩ := hlys c d h m hd
    rw [Option.mem_def.1 hn]
    dsimp only
    split_ifs with hc hd'
    · exact le_rfl
    · exact absurd (hc.le.trans hle) hd'
    · exact hfull _
    · exact h

theorem Policy.exists_of_mem_curve {configurations : List Configuration} {seen : List (Finset ℕ)} {bestTtft coldTtft : Option ℚ}
    {c : BaseCandidate} (h : c ∈ policy.curve modelId controller shape configurations seen bestTtft coldTtft) :
    ∃ configuration ∈ configurations,
      c.configuration = controller.effectiveConfiguration configuration ∧
        c.pages = controller.prefixCachePages configuration := by
  induction configurations generalizing seen bestTtft coldTtft with
  | nil => nomatch h
  | cons configuration rest ih =>
    unfold curve at h
    dsimp only at h
    split at h
    · exact (ih h).imp fun _ hx => ⟨mem_cons_of_mem _ hx.1, hx.2⟩
    · rcases mem_cons.1 h with rfl | h
      · exact ⟨configuration, mem_cons_self, rfl, rfl⟩
      · exact (ih h).imp fun _ hx => ⟨mem_cons_of_mem _ hx.1, hx.2⟩

theorem Policy.pairwise_curve (hpgs : ∀ c d : Configuration, c.rank ≤ d.rank →
    controller.prefixCachePages c ⊆ controller.prefixCachePages d)
    {configurations : List Configuration} (hsrt : configurations.Pairwise fun c d => c.rank ≤ d.rank) (seen : List (Finset ℕ))
    (bestTtft coldTtft : Option ℚ) :
    (policy.curve modelId controller shape configurations seen bestTtft coldTtft).Pairwise fun c d =>
      (c.configuration.rank ≤ d.configuration.rank ∧ c.pages ⊆ d.pages) ∧ c.pages ≠ d.pages := by
  induction configurations generalizing seen bestTtft coldTtft with
  | nil => exact List.Pairwise.nil
  | cons configuration rest ih =>
    obtain ⟨hfst, hrs⟩ := pairwise_cons.1 hsrt
    unfold curve
    dsimp only
    split
    · exact ih hrs _ _ _
    · refine pairwise_cons.2 ⟨?_, ih hrs _ _ _⟩
      intro d hd
      obtain ⟨x, hx, hcfg, hd'⟩ := exists_of_mem_curve hd
      refine ⟨⟨?_, ?_⟩, ?_⟩
      · rw [hcfg]
        exact controller.rank_effective_le (hfst x hx)
      · rw [hd']
        exact hpgs configuration x (hfst x hx)
      · intro heq
        exact (curve_spec hd).2 (heq ▸ mem_cons_self)

theorem State.nested_candidates (s : State policy) (hctl : policy.controllers.get? modelId = some controller)
    (hpgs : ∀ c d : Configuration, c.rank ≤ d.rank → controller.prefixCachePages c ⊆ controller.prefixCachePages d) :
    Nested (s.candidates modelId) := by
  have hsrt : Configuration.prefixCandidates.Pairwise fun c d => c.rank ≤ d.rank := by decide
  have hpairs : (s.candidates modelId).Pairwise fun c d =>
      (c.configuration.rank ≤ d.configuration.rank ∧ c.pages ⊆ d.pages) ∧ c.pages ≠ d.pages := by
    unfold candidates baseCandidates
    rw [hctl, pairwise_map]
    exact pairwise_curve hpgs hsrt [] none none
  exact ⟨hpairs.imp And.left, pairwise_map.2 (hpairs.imp And.right), fun c hc => candidates_value_nonneg hc⟩

theorem Policy.le_best_of_mem_curve {configurations : List Configuration} {seen : List (Finset ℕ)} {best cold : ℚ}
    {c : BaseCandidate}
    (h : c ∈ policy.curve modelId controller shape configurations seen (some best) (some cold)) :
    c.predictedServiceTtftMs ≤ best ∧ c.predictedGainMs = max 0 (cold - c.predictedServiceTtftMs) := by
  induction configurations generalizing seen best with
  | nil => nomatch h
  | cons configuration rest ih =>
    unfold curve at h
    dsimp only at h
    split at h
    · exact ih h
    · rcases mem_cons.1 h with rfl | h
      · exact ⟨min_le_left _ _, rfl⟩
      · exact ⟨(ih h).1.trans (min_le_left _ _), (ih h).2⟩

theorem Policy.falling_curve (configurations : List Configuration) (seen : List (Finset ℕ)) (bestTtft coldTtft : Option ℚ) :
    (policy.curve modelId controller shape configurations seen bestTtft coldTtft).Pairwise fun c d =>
      d.predictedServiceTtftMs ≤ c.predictedServiceTtftMs ∧ c.predictedGainMs ≤ d.predictedGainMs := by
  induction configurations generalizing seen bestTtft coldTtft with
  | nil => exact List.Pairwise.nil
  | cons configuration rest ih =>
    unfold curve
    dsimp only
    split
    · exact ih _ _ _
    · refine pairwise_cons.2 ⟨?_, ih _ _ _⟩
      intro d hd
      obtain ⟨hle, hgain⟩ := le_best_of_mem_curve hd
      refine ⟨hle, ?_⟩
      rw [hgain]
      exact max_le_max_left _ (sub_le_sub_left hle _)

/-- With more pages the prediction does not get worse and the value does not fall, whichever curves were kept before. -/
theorem State.marginals_nested (s : State policy) {ids : List Nat}
    (hpgs : ∀ id ∈ ids, ∃ controller, policy.controllers.get? id = some controller ∧
      ∀ c d : Configuration, c.rank ≤ d.rank → controller.prefixCachePages c ⊆ controller.prefixCachePages d) :
    ∀ e ∈ (marginals ids s).1, Nested e.2.candidates ∧ e.2.candidates.Pairwise fun c d =>
      d.predictedServiceTtftMs ≤ c.predictedServiceTtftMs ∧ c.expectedValueMs ≤ d.expectedValueMs := by
  intro e he
  obtain ⟨-, hids, hcs⟩ := marginals_spec ids s
  obtain ⟨controller, hctl, hgrow⟩ := hpgs e.1 (hids ▸ mem_map_of_mem he)
  rw [hcs e he]
  refine ⟨s.nested_candidates hctl hgrow, ?_⟩
  unfold candidates baseCandidates
  rw [hctl, pairwise_map]
  refine (falling_curve _ _ _ _).imp ?_
  intro c d h
  exact ⟨h.1, mul_le_mul_of_nonneg_left h.2 (NNRat.coe_nonneg _)⟩

theorem State.marginals_nested_twoModels : ((marginals [0, 1] (init (twoModels .demand))).1).map fst = [0, 1] ∧
    ∀ e ∈ (marginals [0, 1] (init (twoModels .demand))).1, Nested e.2.candidates ∧ e.2.candidates.Pairwise fun c d =>
      d.predictedServiceTtftMs ≤ c.predictedServiceTtftMs ∧ c.expectedValueMs ≤ d.expectedValueMs := by
  have hgrow : ∀ c d : Configuration, c.rank ≤ d.rank → threeLayers.prefixCachePages c ⊆ threeLayers.prefixCachePages d := by
    intro c d h
    cases c <;> cases d <;> revert h <;> decide
  refine ⟨by decide, marginals_nested _ ?_⟩
  intro id hid
  rcases mem_cons.1 hid with rfl | hid
  · exact ⟨_, rfl, hgrow⟩
  · rw [mem_singleton.1 hid]
    exact ⟨_, rfl, hgrow⟩

end Curve

theorem le_or_exists_mem_paretoFrom {bestValue : ℚ} {l : List Candidate} (hsrt : l.Pairwise Candidate.le) :
    ∀ c ∈ l, c.expectedValueMs ≤ bestValue ∨
      ∃ d ∈ paretoFrom bestValue l, d.pageCount ≤ c.pageCount ∧ c.expectedValueMs ≤ d.expectedValueMs := by
  induction l generalizing bestValue with
  | nil => exact nofun
  | cons d l ih =>
    obtain ⟨hfst, hsrt⟩ := pairwise_cons.1 hsrt
    intro c hc
    unfold paretoFrom
    split
    · rename_i hworse
      rcases mem_cons.1 hc with rfl | hc
      · exact .inl hworse
      · exact ih hsrt c hc
    · rcases mem_cons.1 hc with rfl | hc
      · exact .inr ⟨c, mem_cons_self, le_rfl, le_rfl⟩
      · have hpgs : d.pageCount ≤ c.pageCount := (hfst c hc).elim le_of_lt fun h => h.1.le
        rcases ih hsrt c hc with hle | ⟨x, hx, hle⟩
        · exact .inr ⟨d, mem_cons_self, hpgs, hle⟩
        · exact .inr ⟨x, mem_cons_of_mem _ hx, hle⟩

theorem Nested.exists_mem_pareto (h : Nested candidates) (hc : c ∈ candidates) : ∃ d ∈ paretoCandidates candidates,
    d.pageCount ≤ c.pageCount ∧ c.expectedValueMs ≤ d.expectedValueMs ∧ d.configuration.rank ≤ c.configuration.rank := by
  rcases le_or_exists_mem_paretoFrom (pairwise_insertionSort Candidate.le candidates) c ((mem_insertionSort _).2 hc) with
    hno | ⟨d, hd, hpgs, hval⟩
  · exact absurd ((h.nonneg c hc).trans hno) (not_le.2 neg_one_lt_zero)
  · refine ⟨d, hd, hpgs, hval, ?_⟩
    have hmem := mem_of_mem_paretoCandidates hd
    -- a higher configuration has more pages
    have hpair : candidates.Pairwise fun x y => x.configuration.rank ≤ y.configuration.rank ∧ x.pages ⊂ y.pages := by
      refine (h.ordered.and (pairwise_map.1 h.distinct)).imp ?_
      rintro x y ⟨⟨hrank, hsub⟩, hne⟩
      exact ⟨hrank, hsub.ssubset_of_ne hne⟩
    have hsymm : candidates.Pairwise fun x y =>
        (x.configuration.rank ≤ y.configuration.rank ∧ x.pages ⊂ y.pages) ∨
          (y.configuration.rank ≤ x.configuration.rank ∧ y.pages ⊂ x.pages) :=
      hpair.imp .inl
    by_cases heq : d = c
    · rw [heq]
    · have : Std.Symm fun x y : Candidate => (x.configuration.rank ≤ y.configuration.rank ∧ x.pages ⊂ y.pages) ∨
          (y.configuration.rank ≤ x.configuration.rank ∧ y.pages ⊂ x.pages) := ⟨fun _ _ => Or.symm⟩
      rcases hsymm.forall hmem hc heq with ⟨hrank, -⟩ | ⟨-, hsub⟩
      · exact hrank
      · exact absurd (Finset.card_lt_card hsub) (not_lt.2 hpgs)

namespace State

variable {policy : Policy} (s : State policy)

/-- The candidates of the inactive models that are no upgrades, before any pruning. -/
def nonUpgrading (activeModelId : Nat) (marginal : List (Nat × Marginal)) : List (Nat × List Candidate) :=
  (marginal.filter fun e => e.1 ≠ activeModelId).map fun e =>
    (e.1, e.2.candidates.filter fun c => c.configuration.rank ≤ (s.protectedConfiguration e.1).rank)

/-- What the solver is called with has a substitute for each candidate, and is not more. -/
def Substitutes (allowed models : List (Nat × List Candidate)) : Prop :=
  List.Forall₂ (fun m m' => m.1 = m'.1 ∧ m.2 ≠ [] ∧ (∀ d ∈ m.2, d ∈ m'.2) ∧
    ∀ c ∈ m'.2, ∃ d ∈ m.2, d.pageCount ≤ c.pageCount ∧ c.expectedValueMs ≤ d.expectedValueMs) allowed models

theorem inactiveCandidates_spec {activeModelId : Nat} {marginal : List (Nat × Marginal)}
    (hnes : ∀ e ∈ marginal, e.1 ≠ activeModelId → Nested e.2.candidates) :
    (∃ l, s.inactiveCandidates activeModelId marginal = .ok l ∧ Substitutes l (s.nonUpgrading activeModelId marginal)) ∨
      ∃ e, s.inactiveCandidates activeModelId marginal = .error e ∧ ∃ m ∈ s.nonUpgrading activeModelId marginal, m.2 = [] := by
  induction marginal with
  | nil => exact .inl ⟨[], rfl, .nil⟩
  | cons e marginal ih =>
    obtain ⟨modelId, m⟩ := e
    have ih := ih fun e he => hnes e (mem_cons_of_mem _ he)
    unfold inactiveCandidates nonUpgrading
    by_cases hact : modelId = activeModelId
    · rw [if_pos hact, filter_cons_of_neg (by simpa using hact)]
      exact ih
    · rw [if_neg hact, filter_cons_of_pos (by simpa using hact), map_cons]
      have hnest := hnes (modelId, m) mem_cons_self hact
      have hsub : ∀ c ∈ m.candidates, c.configuration.rank ≤ (s.protectedConfiguration modelId).rank →
          ∃ d ∈ (paretoCandidates m.candidates).filter fun c => c.configuration.rank ≤ (s.protectedConfiguration modelId).rank,
            d.pageCount ≤ c.pageCount ∧ c.expectedValueMs ≤ d.expectedValueMs := by
        intro c hc hrank
        obtain ⟨d, hd, hpgs, hval, hle⟩ := hnest.exists_mem_pareto hc
        exact ⟨d, mem_filter.2 ⟨hd, decide_eq_true (hle.trans hrank)⟩, hpgs, hval⟩
      unfold allowedCandidates
      dsimp only
      rw [if_neg hact]
      split_ifs with hnil
      · refine .inr ⟨_, rfl, _, mem_cons_self, ?_⟩
        rw [filter_eq_nil_iff]
        intro c hc hrank
        obtain ⟨d, hd, -⟩ := hsub c hc (of_decide_eq_true hrank)
        rw [hnil] at hd
        cases hd
      · rcases ih with ⟨l, hl, hsubs⟩ | ⟨e, he, x, hx, hemp⟩
        · rw [hl]
          refine .inl ⟨_, rfl, .cons ⟨rfl, hnil, ?_, ?_⟩ hsubs⟩
          · intro d hd
            obtain ⟨hd, hrank⟩ := mem_filter.1 hd
            exact mem_filter.2 ⟨mem_of_mem_paretoCandidates hd, hrank⟩
          · intro c hc
            obtain ⟨hc, hrank⟩ := mem_filter.1 hc
            exact hsub c hc (of_decide_eq_true hrank)
        · rw [he]
          exact .inr ⟨e, rfl, x, mem_cons_of_mem _ hx, hemp⟩

end State

variable {allowed : List (Nat × List Candidate)}

theorem State.Substitutes.keys (h : Substitutes allowed models) : allowed.map fst = models.map fst := by
  induction h with
  | nil => rfl
  | cons hm _ ih => rw [map_cons, map_cons, hm.1, ih]

theorem State.Substitutes.map_eq {β : Type} (h : Substitutes allowed models) (f : Candidate → β) :
    (allowed.map fun m => f (a m.1)) = models.map fun m => f (a m.1) := by
  have hmap := congrArg (map fun modelId => f (a modelId)) h.keys
  rw [map_map, map_map] at hmap
  exact hmap

theorem State.Substitutes.exists_assigns (h : Substitutes allowed models)
    (hnd : (models.map fst).Nodup) (ha : Assigns models a) :
    ∃ b, Assigns allowed b ∧ pagesFor allowed b ≤ pagesFor models a ∧ valueFor models a ≤ valueFor allowed b := by
  induction h with
  | nil => exact ⟨a, nofun, le_rfl, le_rfl⟩
  | @cons m m' allowed models hm hrs ih =>
    obtain ⟨hkey, -, -, hsub⟩ := hm
    rw [map_cons, nodup_cons] at hnd
    obtain ⟨b, hb, hpgs, hval⟩ := ih hnd.2 fun m hm => ha m (mem_cons_of_mem _ hm)
    obtain ⟨d, hd, hfewer, hbet⟩ := hsub _ (ha m' mem_cons_self)
    have hsa : ∀ x ∈ allowed, update b m.1 d x.1 = b x.1 := by
      intro x hx
      refine update_of_ne ?_ _ _
      intro heq
      have hmem : x.1 ∈ allowed.map fst := mem_map_of_mem hx
      rw [Substitutes.keys hrs, heq, hkey] at hmem
      exact hnd.1 hmem
    refine ⟨update b m.1 d, ?_, ?_, ?_⟩
    · intro x hx
      rcases mem_cons.1 hx with rfl | hx
      · rw [update_self]
        exact hd
      · rw [hsa x hx]
        exact hb x hx
    · have hsum : pagesFor (m :: allowed) (update b m.1 d) = d.pageCount + pagesFor allowed b := by
        unfold pagesFor
        rw [map_cons, sum_cons, update_self, map_congr_left fun x hx => by rw [hsa x hx]]
      rw [hsum]
      exact Nat.add_le_add hfewer hpgs
    · have hsum : valueFor (m :: allowed) (update b m.1 d) = d.expectedValueMs + valueFor allowed b := by
        unfold valueFor
        rw [map_cons, sum_cons, update_self, map_congr_left fun x hx => by rw [hsa x hx]]
      rw [hsum]
      exact add_le_add hbet hval

theorem State.Substitutes.fits (h : Substitutes allowed models)
    (ha : Fits capacityPages allowed a) : Fits capacityPages models a := by
  refine ⟨?_, ?_⟩
  · intro m hm
    obtain ⟨x, hx, hkey, -, hsub, -⟩ := exists_of_forall₂ h.flip hm
    rw [← hkey]
    exact hsub _ (ha.1 x hx)
  · have hsum : pagesFor allowed a = pagesFor models a := congrArg sum (h.map_eq fun c => c.pageCount)
    exact hsum ▸ ha.2

theorem Optimal.of_substitutes {solution : Solution} (h : Optimal capacityPages allowed solution)
    (hsub : Substitutes allowed models) (hnd : (models.map fst).Nodup) : Optimal capacityPages models solution where
  keys := hsub.keys ▸ h.keys
  fits := hsub.fits h.fits
  used := h.used.trans (congrArg sum (hsub.map_eq fun c => c.pageCount))
  value := h.value.trans (congrArg sum (hsub.map_eq fun c => c.expectedValueMs))
  best := by
    intro a ha
    obtain ⟨b, hb, hpgs, hval⟩ := hsub.exists_assigns hnd ha.1
    rcases h.best b ⟨hb, hpgs.trans ha.2⟩ with hlt | ⟨heq, hfewer⟩
    · exact .inl (hval.trans_lt hlt)
    · rcases (hval.trans heq.le).lt_or_eq with hlt | heq'
      · exact .inl hlt
      · exact .inr ⟨heq', hfewer.trans hpgs⟩

/-- The inactive models get an optimal assignment of candidates that are no upgrades, or there is none. -/
theorem planning_optimal {policy : Policy} (s : State policy) (activeModelId capacityPages : Nat)
    (marginal : List (Nat × Marginal))
    (hnd : (marginal.map fst).Nodup) (hnested : ∀ e ∈ marginal, e.1 ≠ activeModelId → Nested e.2.candidates) :
    ((∃ e, s.inactiveCandidates activeModelId marginal = .error e) ↔ ∃ m ∈ s.nonUpgrading activeModelId marginal, m.2 = []) ∧
    ∀ allowed, s.inactiveCandidates activeModelId marginal = .ok allowed →
      ((∃ e, solveMckp allowed capacityPages = .error e) ↔ ¬∃ a, Fits capacityPages (s.nonUpgrading activeModelId marginal) a) ∧
      ∀ solution, solveMckp allowed capacityPages = .ok solution →
        Optimal capacityPages (s.nonUpgrading activeModelId marginal) solution := by
  have hnd' : ((s.nonUpgrading activeModelId marginal).map fst).Nodup := by
    unfold nonUpgrading
    rw [map_map]
    exact hnd.sublist (filter_sublist.map _)
  have hval : ∀ m ∈ s.nonUpgrading activeModelId marginal, ∀ c ∈ m.2, 0 ≤ c.expectedValueMs := by
    intro m hm c hc
    obtain ⟨e, he, rfl⟩ := mem_map.1 hm
    obtain ⟨he, hne⟩ := mem_filter.1 he
    exact (hnested e he (of_decide_eq_true hne)).nonneg c (mem_filter.1 hc).1
  rcases s.inactiveCandidates_spec hnested with ⟨l, hl, hsub⟩ | ⟨e, he, m, hm, hnil⟩
  · rw [hl]
    refine ⟨⟨fun ⟨e, he⟩ => (nomatch he), ?_⟩, ?_⟩
    · rintro ⟨m, hm, hnil⟩
      obtain ⟨x, hx, -, hne, hmem, -⟩ := exists_of_forall₂ hsub.flip hm
      obtain ⟨d, hd⟩ := exists_mem_of_ne_nil _ hne
      have hin := hmem d hd
      rw [hnil] at hin
      nomatch hin
    · intro allowed halw
      cases halw
      have hnn : ∀ x ∈ l, ∀ c ∈ x.2, 0 ≤ c.expectedValueMs := by
        intro x hx c hc
        obtain ⟨m, hm, -, -, hmem, -⟩ := exists_of_forall₂ hsub hx
        exact hval m hm c (hmem c hc)
      rcases solveMckp_spec capacityPages (hsub.keys ▸ hnd') hnn with ⟨solution, hslv, hopt⟩ | ⟨e, hslv, hnone⟩
      · rw [hslv]
        have hbest := hopt.of_substitutes hsub hnd'
        refine ⟨⟨fun ⟨e, he⟩ => (nomatch he), fun hno => absurd ⟨_, hbest.fits⟩ hno⟩, ?_⟩
        intro solution' h
        cases h
        exact hbest
      · rw [hslv]
        refine ⟨⟨?_, fun _ => ⟨e, rfl⟩⟩, fun solution h => (nomatch h)⟩
        rintro _ ⟨a, ha⟩
        obtain ⟨b, hb, hpgs, -⟩ := hsub.exists_assigns hnd' ha.1
        exact hnone b ⟨hb, hpgs.trans ha.2⟩
  · refine ⟨⟨fun _ => ⟨m, hm, hnil⟩, fun _ => ⟨e, he⟩⟩, ?_⟩
    intro allowed halw
    rw [he] at halw
    nomatch halw

/-- Three configurations of a model, of which the last one is worth little. -/
def threeConfigurations : List Candidate :=
  [⟨⟨.zero, ∅, 9, 0⟩, 1, 0⟩, ⟨⟨.two, {0}, 5, 4⟩, 1, 4⟩, ⟨⟨.full, {0, 1, 2}, 4, 5⟩, 1, 5⟩]

def allProtected : State (twoModels .demand) :=
  { init (twoModels .demand) with protectedConfiguration := fun _ => .full }

def twoInactive : List (Nat × Marginal) := [(0, ⟨[], []⟩), (1, ⟨threeConfigurations, []⟩), (2, ⟨threeConfigurations, []⟩)]

theorem inactiveCandidates_twoInactive :
    allProtected.inactiveCandidates 0 twoInactive =
      .ok [(1, threeConfigurations), (2, threeConfigurations)] := by decide +kernel

theorem planning_optimal_twoInactive : ∃ solution,
    solveMckp [(1, threeConfigurations), (2, threeConfigurations)] 4 = .ok solution ∧
    Optimal 4 [(1, threeConfigurations), (2, threeConfigurations)] solution := by
  have hthree : Nested threeConfigurations := ⟨by decide, by decide, by decide⟩
  have hnes : ∀ e ∈ twoInactive, e.1 ≠ 0 → Nested e.2.candidates := by
    intro e he hne
    unfold twoInactive at he
    simp only [mem_cons, not_mem_nil, or_false] at he
    rcases he with rfl | rfl | rfl
    · exact absurd rfl hne
    · exact hthree
    · exact hthree
  have hsolved : (solveMckp [(1, threeConfigurations), (2, threeConfigurations)] 4).toOption.isSome := by decide +kernel
  have hopt := ((planning_optimal allProtected 0 4 twoInactive (by decide) hnes).2 _ inactiveCandidates_twoInactive).2
  cases hslv : solveMckp [(1, threeConfigurations), (2, threeConfigurations)] 4 with
  | ok solution => exact ⟨solution, rfl, hopt solution hslv⟩
  | error e =>
    rw [hslv] at hsolved
    nomatch hsolved

end ServerlessLLM.Layerweave
