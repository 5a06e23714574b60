import Mathlib.Algebra.Order.BigOperators.Group.List
import ServerlessLLM.Simulator.Lemmas.MckpOps
import ServerlessLLM.Simulator.Lemmas.TableOps

/-!
# The eviction plan is exact

`solve_covering_mckp` finds a plan of the least damage whenever the other models have the bytes.
-/

namespace ServerlessLLM.Simulator

open PrefixStallTable List Dict Frontier
open Prod (fst)

variable {table : PrefixStallTable} {active required : Nat} (samples : Dict Nat (List (Nat × ℚ))) {prefixes : Dict Nat Nat}

/-- The other models, in the order in which the solver goes through them. -/
def otherPrefixes (prefixes : Dict Nat Nat) (active : Nat) : List (Nat × Nat) :=
  (prefixes.entries.insertionSort fun a b => a.1 ≤ b.1).filter fun e => e.1 ≠ active

def bytesOf (table : PrefixStallTable) (model p : Nat) : Nat := (table.prefixBytes model p).toOption.getD 0

def damageOf (table : PrefixStallTable) (prefixes : Dict Nat Nat) (samples : Dict Nat (List (Nat × ℚ))) (model p : Nat) : ℚ :=
  (damage table model ((prefixes.get? model).getD 0) ((samples.get? model).getD []) p).toOption.getD 0

/-- What a choice of prefixes for the other models releases, costs and evicts. -/
def outcome (table : PrefixStallTable) (prefixes : Dict Nat Nat) (active : Nat)
    (samples : Dict Nat (List (Nat × ℚ))) (c : Nat → Nat) :
    Frontier :=
  stateOf (bytesOf table) (damageOf table prefixes samples) (otherPrefixes prefixes active) c

/-- The prefixes that a plan leaves. -/
def MckpEvictionPlan.choice (plan : MckpEvictionPlan) (model : Nat) : Nat := (plan.choices.get? model).getD 0

/-- The table has the other models and their resident groups. -/
def Known (table : PrefixStallTable) (prefixes : Dict Nat Nat) (active : Nat) : Prop :=
  ∀ model old, prefixes.get? model = some old → model ≠ active →
    ∃ item, table.models.get? model = some item ∧ old ≤ item.groupCount

theorem mem_otherPrefixes {e : Nat × Nat} : e ∈ otherPrefixes prefixes active ↔
    prefixes.get? e.1 = some e.2 ∧ e.1 ≠ active := by
  unfold otherPrefixes
  rw [mem_filter, mem_insertionSort, decide_eq_true_iff, ← mem_entries_iff]

variable {document : List (Nat × StallModel)} {extrapolation : InputExtrapolation} {l : List (Nat × Nat)}

theorem priced_of_known (hacp : accept document extrapolation = .ok table) (hkn : Known table prefixes active) {e : Nat × Nat}
    (he : e ∈ otherPrefixes prefixes active) :
    Priced table samples table.prefixBytes (bytesOf table) (damageOf table prefixes samples) e := by
  obtain ⟨hget, hne⟩ := mem_otherPrefixes.1 he
  obtain ⟨item, hitem, hle⟩ := hkn e.1 e.2 hget hne
  have hvld := (valid_of_accept hacp).2 e.1 item hitem
  intro p hp
  obtain ⟨d, hd⟩ := damage_eq hitem hvld hle hp ((samples.get? e.1).getD [])
  refine ⟨?_, ?_⟩
  · unfold bytesOf
    rw [prefixBytes_eq hitem (hp.trans hle)]
    rfl
  · unfold damageOf
    rw [hget, Option.getD_some, hd]
    rfl

/-- A plan for a choice of prefixes: the prefix of the active model stays, and the other models keep no more than before. -/
structure Plans (table : PrefixStallTable) (prefixes : Dict Nat Nat) (active required : Nat)
    (samples : Dict Nat (List (Nat × ℚ)))
    (plan : MckpEvictionPlan) : Prop where
  others : ∀ model, prefixes.get? model = none → plan.choices.get? model = none
  activeKept : plan.choices.get? active = prefixes.get? active
  keeps : ∀ model old, prefixes.get? model = some old → model ≠ active → ∃ new ≤ old, plan.choices.get? model = some new
  planned : plan.plannedFreeBytes = (outcome table prefixes active samples plan.choice).freed
  damage : plan.predictedFutureDamageMs = some (outcome table prefixes active samples plan.choice).cost
  enough : required ≤ plan.plannedFreeBytes
  victims : ∀ model group, (model, group) ∈ plan.victimKeys ↔
    model ≠ active ∧ ∃ old, prefixes.get? model = some old ∧ plan.choice model ≤ group ∧ group < old

theorem get?_selected (bytes : Nat → Nat → Nat) (dmg : Nat → Nat → ℚ) (prefixes : Dict Nat Nat) (active : Nat)
    (c : Nat → Nat) (model : Nat) :
    ((stateOf bytes dmg (otherPrefixes prefixes active) c).selected.foldl (fun d e => d.set e.1 e.2) prefixes).get? model =
      if model = active then prefixes.get? model else (prefixes.get? model).map fun _ => c model := by
  have hks : (stateOf bytes dmg (otherPrefixes prefixes active) c).selected.map fst =
      (otherPrefixes prefixes active).map fst := by
    rw [stateOf, map_map]
    rfl
  have hnd : ((otherPrefixes prefixes active).map fst).Nodup := by
    refine List.Nodup.sublist (filter_sublist.map _) ?_
    exact ((perm_insertionSort (fun a b : Nat × Nat => a.1 ≤ b.1) prefixes.entries).map fst).nodup_iff.2 prefixes.nodup
  have hmem : ∀ m ∈ (otherPrefixes prefixes active).map fst, m ≠ active ∧ ∃ old, prefixes.get? m = some old := by
    intro m hm
    obtain ⟨e, he, rfl⟩ := mem_map.1 hm
    obtain ⟨hget, hne⟩ := mem_otherPrefixes.1 he
    exact ⟨hne, e.2, hget⟩
  by_cases hact : model = active
  · rw [if_pos hact]
    refine get?_foldl_set_of_not_mem ?_ prefixes
    rw [hks]
    exact fun hin => (hmem model hin).1 hact
  · rw [if_neg hact]
    cases hget : prefixes.get? model with
    | some old =>
      have hin : (model, old) ∈ otherPrefixes prefixes active := mem_otherPrefixes.2 ⟨hget, hact⟩
      have hnd' : ((stateOf bytes dmg (otherPrefixes prefixes active) c).selected.map fst).Nodup := hks ▸ hnd
      exact get?_foldl_set hnd' (mem_map.2 ⟨(model, old), hin, rfl⟩) prefixes
    | none =>
      rw [Option.map_none, ← hget]
      refine get?_foldl_set_of_not_mem ?_ prefixes
      rw [hks]
      intro hin
      obtain ⟨-, old, hold⟩ := hmem model hin
      rw [hget] at hold
      cases hold

variable {model : Nat} {bytes : Nat → Nat → Nat} {dmg : Nat → Nat → ℚ} {c : Nat → Nat}

theorem mem_victimKeys {choices : Dict Nat Nat} {group : Nat} : (model, group) ∈ victimKeys active choices l ↔
      model ≠ active ∧ ∃ old, (model, old) ∈ l ∧ (choices.get? model).getD 0 ≤ group ∧ group < old := by
  unfold victimKeys
  rw [mem_flatMap]
  constructor
  · rintro ⟨⟨m, old⟩, he, hmem⟩
    dsimp only at hmem
    split at hmem
    · nomatch hmem
    · rename_i hne
      obtain ⟨g, hg, heq⟩ := mem_map.1 hmem
      obtain ⟨rfl, rfl⟩ := Prod.mk.inj heq
      rw [mem_range'_1] at hg
      exact ⟨hne, old, he, hg.1, by omega⟩
  · rintro ⟨hne, old, he, hle, hlt⟩
    refine ⟨(model, old), he, ?_⟩
    dsimp only
    rw [if_neg hne]
    exact mem_map.2 ⟨group, mem_range'_1.2 ⟨hle, by omega⟩, rfl⟩

/-- A state is no worse than another by the damage, the bytes and the groups. -/
def NoWorse (s t : Frontier) : Prop :=
  s.cost < t.cost ∨ s.cost = t.cost ∧ (s.freed < t.freed ∨ s.freed = t.freed ∧ s.evicted ≤ t.evicted)

/-- The plan of a frontier: the least damage of all choices that release enough, and the best of those that are not tied. -/
structure Optimal (required : Nat) (bytes : Nat → Nat → Nat) (dmg : Nat → Nat → ℚ) (l : List (Nat × Nat))
    (s : Frontier) : Prop where
  cheapest : ∀ c, Keeps l c → required ≤ (stateOf bytes dmg l c).freed → s.cost ≤ (stateOf bytes dmg l c).cost
  best : ∀ c, Keeps l c → required ≤ (stateOf bytes dmg l c).freed → Untied required bytes dmg l c →
    NoWorse s (stateOf bytes dmg l c)

theorem optimal_of_argmin {frontier : List Frontier} {s : Frontier} (h : Covering required bytes dmg l frontier)
    (hmin : (frontier.filter fun s => required ≤ s.freed).argmin (rank required) = some s) :
    Optimal required bytes dmg l s := by
  have hrank : ∀ x ∈ frontier, required ≤ x.freed → s.rank required ≤ x.rank required := fun x hx hen =>
    le_of_mem_argmin (mem_filter.2 ⟨hx, decide_eq_true hen⟩) hmin
  have hs : required ≤ s.freed := of_decide_eq_true (mem_filter.1 (argmin_mem hmin)).2
  refine ⟨?_, ?_⟩
  · intro c hc hen
    obtain ⟨x, hx, hfreed, hcost⟩ := h.cheapest c hc
    exact (cost_le_of_rank_le (hrank x hx (by omega))).trans hcost
  · intro c hc hen huntied
    obtain ⟨x, hx, ⟨hcost, hfreed⟩ | ⟨hcost, hrs⟩⟩ := h.best c hc huntied
    · exact .inl ((cost_le_of_rank_le (hrank x hx (by omega))).trans_lt hcost)
    · rcases rank_le (hrank x hx (by omega)) with hlt | ⟨heq, hover⟩
      · exact .inl (hlt.trans_eq hcost)
      · exact .inr ⟨heq.trans hcost, by omega⟩

section

variable (hacp : accept document extrapolation = .ok table)

include hacp

theorem solveCoveringMckp_eq (hkn : Known table prefixes active) (hreq : 0 < required) :
    ∃ frontier peak considered,
      Covering required (bytesOf table) (damageOf table prefixes samples) (otherPrefixes prefixes active) frontier ∧
      solveCoveringMckp table prefixes active required samples table.prefixBytes =
        match (frontier.filter fun s => required ≤ s.freed).argmin (rank required) with
        | none => .ok ⟨false, required, 0, none, prefixes, [], peak, considered⟩
        | some s => .ok ⟨true, required, s.freed, some s.cost, s.selected.foldl (fun d e => d.set e.1 e.2) prefixes,
            victimKeys active (s.selected.foldl (fun d e => d.set e.1 e.2) prefixes)
              (prefixes.entries.insertionSort fun a b => a.1 ≤ b.1),
            peak, considered⟩ := by
  obtain ⟨sorted, hsrt⟩ : ∃ l, l = prefixes.entries.insertionSort fun a b => a.1 ≤ b.1 := ⟨_, rfl⟩
  have hoth : otherPrefixes prefixes active = sorted.filter fun e => e.1 ≠ active := by
    rw [hsrt]
    rfl
  have hpm : sorted.Perm prefixes.entries := hsrt ▸ perm_insertionSort _ _
  have hnd : (sorted.map fst).Nodup := (hpm.map fst).nodup_iff.2 prefixes.nodup
  have hemp : Covering required (bytesOf table) (damageOf table prefixes samples) [] [⟨0, 0, 0, []⟩] :=
    ⟨fun s hs => ⟨fun _ => 0, nofun, mem_singleton.1 hs⟩, fun c _ => ⟨_, mem_singleton_self _, Nat.min_le_right _ _, le_rfl⟩,
      fun c _ _ => ⟨_, mem_singleton_self _, .inr ⟨rfl, .inr ⟨rfl, le_rfl⟩⟩⟩⟩
  obtain ⟨frontier, peak, considered, hrun, hcov⟩ := solveLoop_spec hemp hnd
    (fun e he hne => priced_of_known samples hacp hkn (hoth ▸ mem_filter.2 ⟨he, decide_eq_true hne⟩)) 1 0
  rw [nil_append, ← hoth] at hcov
  refine ⟨frontier, peak, considered, hcov, ?_⟩
  unfold solveCoveringMckp
  rw [if_neg hreq.ne']
  dsimp only
  rw [← hsrt, hrun]
  rfl

theorem solveCoveringMckp_cases (hkn : Known table prefixes active) (hreq : 0 < required) :
    ∃ plan, solveCoveringMckp table prefixes active required samples table.prefixBytes = .ok plan ∧
      ((plan.feasible = false ∧
          ∀ c, Keeps (otherPrefixes prefixes active) c → (outcome table prefixes active samples c).freed < required) ∨
        (plan.feasible = true ∧ Plans table prefixes active required samples plan ∧
          Optimal required (bytesOf table) (damageOf table prefixes samples) (otherPrefixes prefixes active)
            (outcome table prefixes active samples plan.choice))) := by
  obtain ⟨frontier, peak, considered, hcov, hslv⟩ := solveCoveringMckp_eq samples hacp hkn hreq
  cases hb : (frontier.filter fun s => required ≤ s.freed).argmin (rank required) with
  | none =>
    rw [hb] at hslv
    refine ⟨_, hslv, .inl ⟨rfl, ?_⟩⟩
    intro c hc
    by_contra hen
    obtain ⟨s, hs, hle, -⟩ := hcov.cheapest c hc
    have hmem : s ∈ frontier.filter fun s => required ≤ s.freed := by
      refine mem_filter.2 ⟨hs, decide_eq_true ?_⟩
      unfold outcome at hen
      omega
    rw [argmin_eq_none.1 hb] at hmem
    nomatch hmem
  | some best =>
    rw [hb] at hslv
    have hmem := mem_filter.1 (argmin_mem hb)
    obtain ⟨c, hc, rfl⟩ := hcov.mem best hmem.1
    have hget := get?_selected (bytesOf table) (damageOf table prefixes samples) prefixes active c
    obtain ⟨choices, hchs⟩ : ∃ choices, choices = (stateOf (bytesOf table) (damageOf table prefixes samples)
      (otherPrefixes prefixes active) c).selected.foldl (fun d e => d.set e.1 e.2) prefixes := ⟨_, rfl⟩
    dsimp only at hslv
    rw [← hchs] at hget hslv
    refine ⟨_, hslv, .inr ⟨rfl, ?_⟩⟩
    -- the choice of the plan is that of the state
    have hch : ∀ e ∈ otherPrefixes prefixes active, (fun model => (choices.get? model).getD 0) e.1 = c e.1 := by
      intro e he
      obtain ⟨hold, hne⟩ := mem_otherPrefixes.1 he
      dsimp only
      rw [hget, if_neg hne, hold]
      rfl
    have hsta : outcome table prefixes active samples (fun model => (choices.get? model).getD 0) =
        stateOf (bytesOf table) (damageOf table prefixes samples) (otherPrefixes prefixes active) c := stateOf_congr hch
    refine ⟨⟨?_, ?_, ?_, ?_, ?_, of_decide_eq_true hmem.2, ?_⟩, ?_⟩
    · intro model hno
      dsimp only
      rw [hget, hno]
      simp
    · dsimp only
      rw [hget, if_pos rfl]
    · intro model old hold hne
      refine ⟨c model, hc (model, old) (mem_otherPrefixes.2 ⟨hold, hne⟩), ?_⟩
      dsimp only
      rw [hget, if_neg hne, hold]
      rfl
    · exact congrArg freed hsta.symm
    · exact congrArg (fun s => some s.cost) hsta.symm
    · intro model group
      rw [mem_victimKeys]
      refine and_congr_right fun _ => exists_congr fun old => and_congr_left ?_
      intro _
      rw [(perm_insertionSort (fun a b : Nat × Nat => a.1 ≤ b.1) prefixes.entries).mem_iff, mem_entries_iff]
    · have hopt := optimal_of_argmin hcov hb
      rw [← hsta] at hopt
      exact hopt

theorem bytesOf_mono
    {item : StallModel} (hitem : table.models.get? model = some item) {p q : Nat} (hpq : p ≤ q) (hq : q ≤ item.groupCount) :
    bytesOf table model p ≤ bytesOf table model q := by
  have hvld := (valid_of_accept hacp).2 model item hitem
  have hlt : q < item.prefixBytes.length := by rw [hvld.bytesLength]; exact Nat.lt_succ_of_le hq
  unfold bytesOf
  rw [prefixBytes_eq hitem (hpq.trans hq), prefixBytes_eq hitem hq, getElem?_eq_getElem hlt,
    getElem?_eq_getElem (hpq.trans_lt hlt)]
  exact (isChain_iff_pairwise.1 hvld.bytesChain).rel_get_of_le hpq

theorem freed_le (hkn : Known table prefixes active) (hc : Keeps (otherPrefixes prefixes active) c) :
    (outcome table prefixes active samples c).freed ≤
      ((otherPrefixes prefixes active).map fun e => bytesOf table e.1 e.2 - bytesOf table e.1 0).sum := by
  refine sum_le_sum fun e he => Nat.sub_le_sub_left ?_ _
  obtain ⟨hget, hne⟩ := mem_otherPrefixes.1 he
  obtain ⟨item, hitem, hle⟩ := hkn e.1 e.2 hget hne
  exact bytesOf_mono hacp hitem (Nat.zero_le _) ((hc e he).trans hle)

end

/-- The plan is feasible exactly when the other models have the bytes, and no choice that releases enough has less damage. -/
theorem solveCoveringMckp_exact {document : List (Nat × StallModel)} {extrapolation : InputExtrapolation}
    (haccept : accept document extrapolation = .ok table) (hknown : Known table prefixes active) (hreq : 0 < required) :
    ∃ plan, solveCoveringMckp table prefixes active required samples table.prefixBytes = .ok plan ∧
      (plan.feasible = true ↔
        required ≤ ((otherPrefixes prefixes active).map fun e => bytesOf table e.1 e.2 - bytesOf table e.1 0).sum) ∧
      (plan.feasible = true → Plans table prefixes active required samples plan ∧
        ∀ c, Keeps (otherPrefixes prefixes active) c → required ≤ (outcome table prefixes active samples c).freed →
          (outcome table prefixes active samples plan.choice).cost ≤ (outcome table prefixes active samples c).cost) := by
  obtain ⟨plan, hpl, ⟨hno, hshort⟩ | ⟨hyes, hpls, hopt⟩⟩ := solveCoveringMckp_cases samples haccept hknown hreq
  · refine ⟨plan, hpl, iff_of_false (by simp [hno]) (not_le.2 ?_), fun h => nomatch hno.symm.trans h⟩
    exact hshort (fun _ => 0) fun _ _ => Nat.zero_le _
  · refine ⟨plan, hpl, iff_of_true hyes ?_, fun _ => ⟨hpls, hopt.cheapest⟩⟩
    refine (hpls.planned ▸ hpls.enough).trans (freed_le samples haccept hknown ?_)
    intro e he
    obtain ⟨hget, hne⟩ := mem_otherPrefixes.1 he
    obtain ⟨new, hle, hnew⟩ := hpls.keeps e.1 e.2 hget hne
    unfold MckpEvictionPlan.choice
    rw [hnew]
    exact hle

theorem untied_of_single (hlen : l.length ≤ 1)
    (hen : required ≤ (stateOf bytes dmg l c).freed) : Untied required bytes dmg l c := by
  rintro part ⟨rest, rfl⟩ hshort c' - hmore
  rcases part with _ | ⟨e, part⟩
  · exact absurd hmore (lt_irrefl _)
  · have hrs : rest = [] := by
      rw [length_append, length_cons] at hlen
      exact eq_nil_of_length_eq_zero (by omega)
    rw [hrs, append_nil] at hen
    exact absurd hshort (not_lt.2 hen)

/-- The plan has the least damage; of the choices with this damage that release enough it has the fewest bytes, and then the
fewest groups, among those that were never tied with a choice that releases more, and among all when there is one other model.
-/
theorem solveCoveringMckp_ties {document : List (Nat × StallModel)} {extrapolation : InputExtrapolation}
    (haccept : accept document extrapolation = .ok table) (hknown : Known table prefixes active) (hreq : 0 < required)
    {plan : MckpEvictionPlan} (hplan : solveCoveringMckp table prefixes active required samples table.prefixBytes = .ok plan)
    (hfeasible : plan.feasible = true) :
    (∀ c, Keeps (otherPrefixes prefixes active) c → required ≤ (outcome table prefixes active samples c).freed →
      (outcome table prefixes active samples plan.choice).cost ≤ (outcome table prefixes active samples c).cost) ∧
    (∀ c, Keeps (otherPrefixes prefixes active) c → required ≤ (outcome table prefixes active samples c).freed →
      Untied required (bytesOf table) (damageOf table prefixes samples) (otherPrefixes prefixes active) c ∨
        (otherPrefixes prefixes active).length ≤ 1 →
      NoWorse (outcome table prefixes active samples plan.choice) (outcome table prefixes active samples c)) := by
  obtain ⟨plan', hplan', hcases⟩ := solveCoveringMckp_cases samples haccept hknown hreq
  obtain rfl : plan = plan' := Except.ok.inj (hplan.symm.trans hplan')
  rcases hcases with ⟨hno, -⟩ | ⟨-, -, hopt⟩
  · exact nomatch hno.symm.trans hfeasible
  · refine ⟨hopt.cheapest, fun c hc hen hcase => hopt.best c hc hen ?_⟩
    rcases hcase with huntied | hlen
    · exact huntied
    · exact untied_of_single hlen hen

/-! ## A tie -/

/-- Two models: the prefixes of the first have two and five bytes, the second has seven. -/
def tiedDocument : List (Nat × StallModel) :=
  [(0, ⟨2, [0, 2, 5], [⟨1, [9, 4, 0], none, none⟩]⟩), (1, ⟨1, [0, 7], [⟨1, [6, 0], none, none⟩]⟩)]

def tiedTable : PrefixStallTable := ⟨⟨tiedDocument, by decide⟩, .clamp⟩

def tiedPrefixes : Dict Nat Nat := ⟨[(0, 2), (1, 1)], by decide⟩

def tiedSamples : Dict Nat (List (Nat × ℚ)) := ⟨[(0, [(1, 1), (2, 1 / 2)]), (1, [(1, 3)])], by decide⟩

theorem accept_tiedDocument : accept tiedDocument .clamp = .ok tiedTable := rfl

theorem known_tiedTable : Known tiedTable tiedPrefixes 2 := by
  intro model old hget _
  have hmem := mem_entries_iff.2 hget
  rcases mem_cons.1 hmem with heq | hmem
  · obtain ⟨rfl, rfl⟩ := Prod.mk.inj heq
    exact ⟨_, rfl, by decide⟩
  · obtain ⟨rfl, rfl⟩ := Prod.mk.inj (mem_singleton.1 hmem)
    exact ⟨_, rfl, by decide⟩

theorem solveCoveringMckp_exact_tied :
    ∃ plan, solveCoveringMckp tiedTable tiedPrefixes 2 10 tiedSamples tiedTable.prefixBytes = .ok plan ∧ plan.feasible = true ∧
      Plans tiedTable tiedPrefixes 2 10 tiedSamples plan ∧
        (outcome tiedTable tiedPrefixes 2 tiedSamples plan.choice).cost ≤ 24 := by
  obtain ⟨plan, hpl, hiff, hfea⟩ :=
    solveCoveringMckp_exact tiedSamples accept_tiedDocument known_tiedTable (by decide : 0 < 10)
  have hyes := hiff.2 (by decide +kernel)
  refine ⟨plan, hpl, hyes, (hfea hyes).1, ?_⟩
  exact ((hfea hyes).2 (fun model => if model = 0 then 1 else 0) (by decide +kernel) (by decide +kernel)).trans
    (by decide +kernel)

theorem exists_plan_tied {samples : Dict Nat (List (Nat × ℚ))}
    (henough : 10 ≤ (outcome tiedTable tiedPrefixes 2 samples fun _ => 0).freed) :
    ∃ plan, solveCoveringMckp tiedTable tiedPrefixes 2 10 samples tiedTable.prefixBytes = .ok plan ∧
      plan.feasible = true ∧ Plans tiedTable tiedPrefixes 2 10 samples plan := by
  obtain ⟨plan, hpl, ⟨-, hshort⟩ | ⟨hyes, hpls, -⟩⟩ := solveCoveringMckp_cases samples accept_tiedDocument known_tiedTable
    (by decide : 0 < 10)
  · exact absurd henough (not_le.2 (hshort (fun _ => 0) fun _ _ => Nat.zero_le _))
  · exact ⟨plan, hpl, hyes, hpls⟩

theorem solveCoveringMckp_ties_tied :
    ∃ plan, solveCoveringMckp tiedTable tiedPrefixes 2 10 tiedSamples tiedTable.prefixBytes = .ok plan ∧
      ∀ c, Keeps (otherPrefixes tiedPrefixes 2) c → 10 ≤ (outcome tiedTable tiedPrefixes 2 tiedSamples c).freed →
        (outcome tiedTable tiedPrefixes 2 tiedSamples plan.choice).cost ≤
          (outcome tiedTable tiedPrefixes 2 tiedSamples c).cost := by
  obtain ⟨plan, hpl, hyes, -⟩ := @exists_plan_tied tiedSamples (by decide +kernel)
  exact ⟨plan, hpl, (solveCoveringMckp_ties tiedSamples accept_tiedDocument known_tiedTable (by decide) hpl hyes).1⟩

/-- Three and seven bytes are enough, but the plan releases five and seven: when the first model was done, five bytes had no
more damage than three. -/
theorem solveCoveringMckp_overreleases : ¬∀ (document : List (Nat × StallModel)) (extrapolation : InputExtrapolation)
    (table : PrefixStallTable) (prefixes : Dict Nat Nat) (active required : Nat) (samples : Dict Nat (List (Nat × ℚ)))
    (plan : MckpEvictionPlan), accept document extrapolation = .ok table → Known table prefixes active → 0 < required →
    solveCoveringMckp table prefixes active required samples table.prefixBytes = .ok plan → plan.feasible = true →
    ∀ c, Keeps (otherPrefixes prefixes active) c → required ≤ (outcome table prefixes active samples c).freed →
      (outcome table prefixes active samples c).cost = (outcome table prefixes active samples plan.choice).cost →
      (outcome table prefixes active samples plan.choice).freed ≤ (outcome table prefixes active samples c).freed := by
  intro hall
  obtain ⟨plan, hpl, hyes, hpls⟩ := @exists_plan_tied .empty (by decide +kernel)
  have hvalues : (solveCoveringMckp tiedTable tiedPrefixes 2 10 .empty tiedTable.prefixBytes).toOption.map
      (fun plan => (plan.plannedFreeBytes, plan.predictedFutureDamageMs)) = some (12, some 0) := by decide +kernel
  rw [hpl] at hvalues
  obtain ⟨hplanned, hdamage⟩ := Prod.mk.inj (Option.some.inj hvalues)
  have hcost : (outcome tiedTable tiedPrefixes 2 .empty plan.choice).cost = 0 :=
    Option.some.inj (hpls.damage.symm.trans hdamage)
  have hfreed := hall _ _ _ _ _ _ _ _ accept_tiedDocument known_tiedTable (by decide) hpl hyes
    (fun model => if model = 0 then 1 else 0)
    (by decide +kernel) (by decide +kernel) (hcost ▸ by decide +kernel)
  rw [← hpls.planned, hplanned] at hfreed
  exact absurd hfreed (by decide +kernel)

end ServerlessLLM.Simulator
