import Mathlib.Algebra.Order.BigOperators.Group.List
import Mathlib.Data.List.GetD
import ServerlessLLM.Checkpoint.Theorems.Sequential

/-!
# Balanced placement

A cell of the table holds a cut of the first modules over the first devices, whenever there is one. Its gap is that between the
last part and the parts before it.
-/

namespace ServerlessLLM

open List Dict Except Prod BalanceCell
open Option (some.inj)

/-! ## Cuts -/

/-- The names are cut into consecutive parts that are not empty, one for each memory, and each fits its memory. -/
structure IsCut (moduleSize : ModuleSizes) (memories : List Int) (names : List String) (parts : List (List String)) : Prop where
  join : parts.flatten = names
  nonempty : ∀ part ∈ parts, part ≠ []
  fits : List.Forall₂ (fun part memory => partitionSize moduleSize part ≤ memory) parts memories

/-- The gap between the largest and the smallest part. -/
def gapOf (moduleSize : ModuleSizes) (parts : List (List String)) : Int :=
  ((parts.map (partitionSize moduleSize)).max?.getD 0) - ((parts.map (partitionSize moduleSize)).min?.getD 0)

/-- The parts of a placement: for each device its modules, in their order. -/
def partsOf (placement : DeviceMap) (names : List String) (n : Nat) : List (List String) :=
  (range n).map fun d => names.filter fun name => placement.get? name = some d

/-- A cut is placed, with the least gap of all cuts, and without a cut an error is raised. -/
structure Balances (maxMemory : List Int) (sizes : ModuleSizes) (tiedModules : List TiedGroup) (deviceMap : String) : Prop where
  cut : (∃ parts, IsCut (mergedModules sizes tiedModules) maxMemory (mergedModules sizes tiedModules).keys parts) →
    ∃ placement, getBalancedPlacement (mergedModules sizes tiedModules) maxMemory = .ok (some placement) ∧
      placement.keys.Perm (mergedModules sizes tiedModules).keys ∧
      IsCut (mergedModules sizes tiedModules) maxMemory (mergedModules sizes tiedModules).keys
        (partsOf placement (mergedModules sizes tiedModules).keys maxMemory.length) ∧
      ∀ parts, IsCut (mergedModules sizes tiedModules) maxMemory (mergedModules sizes tiedModules).keys parts →
        gapOf (mergedModules sizes tiedModules) (partsOf placement (mergedModules sizes tiedModules).keys maxMemory.length) ≤
          gapOf (mergedModules sizes tiedModules) parts
  noCut : (¬∃ parts, IsCut (mergedModules sizes tiedModules) maxMemory (mergedModules sizes tiedModules).keys parts) →
    ∃ e, computeDevicePlacementFromMapFast maxMemory sizes tiedModules (.named deviceMap) = .error e

variable {moduleSize : ModuleSizes} {memories : List Int} {names : List String} {parts : List (List String)}

theorem isCut_nil : IsCut moduleSize [] names parts ↔ names = [] ∧ parts = [] := by
  constructor
  · intro h
    obtain rfl := forall₂_nil_right_iff.1 h.fits
    exact ⟨h.join.symm, rfl⟩
  · rintro ⟨rfl, rfl⟩
    exact ⟨rfl, by simp, List.Forall₂.nil⟩

theorem isCut_concat {memory : Int} :
    IsCut moduleSize (memories ++ [memory]) names parts ↔
      ∃ j < names.length, ∃ front, parts = front ++ [names.drop j] ∧ IsCut moduleSize memories (names.take j) front ∧
        partitionSize moduleSize (names.drop j) ≤ memory := by
  constructor
  · rintro ⟨rfl, hne, hft⟩
    rcases eq_nil_or_concat parts with rfl | ⟨front, part, rfl⟩
    · have := hft.length_eq
      simp at this
    · rw [concat_eq_append] at hne hft ⊢
      have hlen : front.length = memories.length := by simpa using hft.length_eq
      have hfrt := forall₂_take_append _ _ _ hft
      have hla := forall₂_drop_append _ _ _ hft
      rw [← hlen, take_left] at hfrt
      rw [← hlen, drop_left, forall₂_cons] at hla
      have hpart : part ≠ [] := hne part (by simp)
      have hpos := length_pos_iff.2 hpart
      refine ⟨front.flatten.length, ?_, front, ?_, ⟨?_, fun p hp => hne p (by simp [hp]), hfrt⟩, ?_⟩
      · simp only [flatten_append, flatten_singleton, length_append]
        omega
      · simp
      · simp
      · simpa using hla.1
  · rintro ⟨j, hj, front, rfl, ⟨hjoin, hne, hft⟩, hla⟩
    refine ⟨by simp [hjoin], ?_, rel_append hft (List.Forall₂.cons hla List.Forall₂.nil)⟩
    intro part hpart
    rcases mem_append.1 hpart with hpart | hpart
    · exact hne part hpart
    · rw [mem_singleton.1 hpart]
      simpa using hj

/-! ## The table -/

section Table

variable {deviceMemory : List Int}

/-- The cell of the first `i` modules and the first `k` devices. -/
def balanceCell (moduleSize : ModuleSizes) (deviceMemory : List Int) (i k : Nat) : BalanceCell :=
  ((balanceTable moduleSize deviceMemory i).getD i []).getD k .unreached

@[simp] theorem length_balanceTable (i : Nat) : (balanceTable moduleSize deviceMemory i).length = i + 1 := by
  induction i with
  | zero => rfl
  | succ i ih => simp [balanceTable, ih]

theorem getD_balanceTable {i n : Nat} (h : i ≤ n) (k : Nat) :
    ((balanceTable moduleSize deviceMemory n).getD i []).getD k .unreached = balanceCell moduleSize deviceMemory i k := by
  induction n with
  | zero =>
    obtain rfl := Nat.le_zero.1 h
    rfl
  | succ n ih =>
    rcases Nat.lt_or_ge n i with hlt | hle
    · obtain rfl : i = n + 1 := by omega
      rfl
    · rw [← ih hle, balanceTable, getD_append _ _ _ _ (by simp; omega)]

theorem balanceCell_zero_zero :
    balanceCell moduleSize deviceMemory 0 0 = ⟨some 0, none, 0, replicate deviceMemory.length []⟩ := rfl

theorem balanceCell_zero_succ (k : Nat) : balanceCell moduleSize deviceMemory 0 (k + 1) = .unreached := by
  simp only [balanceCell, balanceTable, getD_cons_zero, getD_cons_succ]
  rw [getD_eq_getElem?_getD, getElem?_replicate]
  split <;> rfl

theorem balanceCell_succ (i k : Nat) :
    balanceCell moduleSize deviceMemory (i + 1) k =
      (balanceRow moduleSize deviceMemory (balanceTable moduleSize deviceMemory i)).getD k .unreached := by
  have hlen : (balanceTable moduleSize deviceMemory i).length = i + 1 := length_balanceTable i
  rw [balanceCell, balanceTable, getD_append_right _ _ _ _ (by rw [hlen]), hlen, Nat.sub_self]
  rfl

theorem balanceCell_succ_zero (i : Nat) : balanceCell moduleSize deviceMemory (i + 1) 0 = .unreached := by
  rw [balanceCell_succ]
  rfl

theorem balanceCell_succ_succ {i k : Nat} {memory : Int} (h : deviceMemory[k]? = some memory) :
    balanceCell moduleSize deviceMemory (i + 1) (k + 1) = (range (i + 1)).foldl
      (fun cell j => balanceStep moduleSize memory (i + 1) k j (balanceCell moduleSize deviceMemory j k) cell) .unreached := by
  rw [balanceCell_succ]
  simp only [balanceRow, getD_cons_succ, length_balanceTable]
  rw [getD_eq_getElem?_getD, getElem?_mapIdx, h, Option.map_some, Option.getD_some]
  refine foldl_ext _ _ _ fun cell j hj => ?_
  rw [getD_balanceTable (Nat.le_of_lt_succ (mem_range.1 hj))]

/-- The modules from `j` to `i` can be put behind the parts of a cell. -/
def Usable (moduleSize : ModuleSizes) (memory : Int) (i j : Nat) (before : BalanceCell) : Prop :=
  partitionSize moduleSize ((moduleSize.keys.take i).drop j) ≤ memory ∧ before.gap ≠ none

theorem balanceStep_of_not_usable {memory : Int} {i k j : Nat} {before cell : BalanceCell}
    (h : ¬Usable moduleSize memory i j before) : balanceStep moduleSize memory i k j before cell = cell := by
  unfold balanceStep
  dsimp only
  split
  · rfl
  · rename_i hsz
    cases hgap : before.gap with
    | none => rfl
    | some g => exact absurd ⟨not_lt.1 hsz, by simp [hgap]⟩ h

theorem balanceStep_of_usable {memory : Int} {i k j : Nat} {before cell : BalanceCell}
    (h : Usable moduleSize memory i j before) :
    balanceStep moduleSize memory i k j before cell = match cell.gap with
      | none => before.extend k ((moduleSize.keys.take i).drop j) (partitionSize moduleSize ((moduleSize.keys.take i).drop j))
      | some gap =>
        if before.maxGap (partitionSize moduleSize ((moduleSize.keys.take i).drop j)) < gap then
          before.extend k ((moduleSize.keys.take i).drop j) (partitionSize moduleSize ((moduleSize.keys.take i).drop j))
        else cell := by
  obtain ⟨hsz, hgap⟩ := h
  obtain ⟨g, hg⟩ := Option.ne_none_iff_exists'.1 hgap
  unfold balanceStep
  dsimp only
  refine (if_neg (not_lt.2 hsz)).trans ?_
  cases cell.gap with
  | none => simp only [hg]
  | some gap => simp only [hg]

/-- What the loop over the numbers `js` makes of an unreached cell: it stays when no number can be used, and else one is taken
whose new part has the least gap to its cell. -/
structure Chosen (moduleSize : ModuleSizes) (memory : Int) (i k : Nat) (before : Nat → BalanceCell) (js : List Nat)
    (cell : BalanceCell) : Prop where
  unreached : cell.gap = none → cell = .unreached ∧ ∀ j ∈ js, ¬Usable moduleSize memory i j (before j)
  reached : ∀ g, cell.gap = some g →
    (∃ j ∈ js, Usable moduleSize memory i j (before j) ∧ cell = (before j).extend k ((moduleSize.keys.take i).drop j)
      (partitionSize moduleSize ((moduleSize.keys.take i).drop j))) ∧
    ∀ j ∈ js, Usable moduleSize memory i j (before j) →
      g ≤ (before j).maxGap (partitionSize moduleSize ((moduleSize.keys.take i).drop j))

section Chosen

variable {memory : Int} {i k j : Nat} {before : Nat → BalanceCell} {js : List Nat} {cell : BalanceCell}

theorem Chosen.keep (h : Chosen moduleSize memory i k before js cell) (hj : Usable moduleSize memory i j (before j) →
      ∃ g, cell.gap = some g ∧ g ≤ (before j).maxGap (partitionSize moduleSize ((moduleSize.keys.take i).drop j))) :
    Chosen moduleSize memory i k before (js ++ [j]) cell := by
  refine ⟨fun hgap => ⟨(h.unreached hgap).1, fun j' hj' hu => ?_⟩, fun g hgap => ?_⟩
  · rcases mem_append.1 hj' with hj' | hj'
    · exact (h.unreached hgap).2 j' hj' hu
    · obtain rfl := mem_singleton.1 hj'
      obtain ⟨g, hg, -⟩ := hj hu
      rw [hgap] at hg
      cases hg
  · obtain ⟨⟨j0, hj0, hcell⟩, hmin⟩ := h.reached g hgap
    refine ⟨⟨j0, mem_append_left _ hj0, hcell⟩, fun j' hj' hu => ?_⟩
    rcases mem_append.1 hj' with hj' | hj'
    · exact hmin j' hj' hu
    · obtain rfl := mem_singleton.1 hj'
      obtain ⟨g', hg', hle⟩ := hj hu
      obtain rfl : g = g' := some.inj (hgap.symm.trans hg')
      exact hle

theorem Chosen.take (h : Chosen moduleSize memory i k before js cell) (hu : Usable moduleSize memory i j (before j))
    (hlt : ∀ g, cell.gap = some g → (before j).maxGap (partitionSize moduleSize ((moduleSize.keys.take i).drop j)) < g) :
    Chosen moduleSize memory i k before (js ++ [j]) ((before j).extend k ((moduleSize.keys.take i).drop j)
      (partitionSize moduleSize ((moduleSize.keys.take i).drop j))) := by
  refine ⟨by simp [extend], fun g hg => ⟨⟨j, by simp, hu, rfl⟩, fun j' hj' hu' => ?_⟩⟩
  obtain rfl : (before j).maxGap (partitionSize moduleSize ((moduleSize.keys.take i).drop j)) = g := some.inj hg
  rcases mem_append.1 hj' with hj' | hj'
  · cases hgap : cell.gap with
    | none => exact absurd hu' ((h.unreached hgap).2 j' hj')
    | some g => exact (hlt g hgap).le.trans ((h.reached g hgap).2 j' hj' hu')
  · rw [mem_singleton.1 hj']

theorem foldl_balanceStep (moduleSize : ModuleSizes) (memory : Int) (i k : Nat) (before : Nat → BalanceCell) (js : List Nat) :
    Chosen moduleSize memory i k before js
      (js.foldl (fun cell j => balanceStep moduleSize memory i k j (before j) cell) .unreached) := by
  induction js using reverseRecOn with
  | nil => exact ⟨fun _ => ⟨rfl, by simp⟩, by simp [unreached]⟩
  | append_singleton js j ih =>
    simp only [foldl_append, foldl_cons, foldl_nil]
    generalize js.foldl (fun cell j => balanceStep moduleSize memory i k j (before j) cell) .unreached = cell at ih
    by_cases hu : Usable moduleSize memory i j (before j)
    · rw [balanceStep_of_usable hu]
      cases hgap : cell.gap with
      | none => exact ih.take hu fun g hg => by simp [hgap] at hg
      | some gap =>
        dsimp only
        split
        · rename_i hlt
          exact ih.take hu fun g hg => some.inj (hgap.symm.trans hg) ▸ hlt
        · rename_i hle
          exact ih.keep fun _ => ⟨gap, hgap, not_lt.1 hle⟩
    · rw [balanceStep_of_not_usable hu]
      exact ih.keep fun hu' => absurd hu' hu

end Chosen

/-- What a cell of the table is: unreached, or the cut that it holds, with the least and the largest size of its parts. -/
structure Holding (moduleSize : ModuleSizes) (deviceMemory : List Int) (i k : Nat) (cell : BalanceCell)
    (parts : List (List String)) :
    Prop where
  cut : IsCut moduleSize (deviceMemory.take k) (moduleSize.keys.take i) parts
  partitions : cell.partitions = parts ++ replicate (deviceMemory.length - k) []
  minSize : cell.minSize = (parts.map (partitionSize moduleSize)).min?
  maxSize : cell.maxSize = ((parts.map (partitionSize moduleSize)).max?.getD 0) ⊔ 0

theorem min?_concat {l : List Int} {m : Int} (h : l.min? = some m) (s : Int) : (l ++ [s]).min? = some (min m s) := by
  cases l with
  | nil => simp at h
  | cons x l =>
    rw [min?_cons', Option.some.injEq] at h
    rw [cons_append, min?_cons', foldl_append, h]
    rfl

theorem max?_concat {l : List Int} {m : Int} (h : l.max? = some m) (s : Int) : (l ++ [s]).max? = some (max m s) := by
  cases l with
  | nil => simp at h
  | cons x l =>
    rw [max?_cons', Option.some.injEq] at h
    rw [cons_append, max?_cons', foldl_append, h]
    rfl

theorem Holding.extend {i j k : Nat} {cell : BalanceCell} (h : Holding moduleSize deviceMemory j k cell parts) {memory : Int}
    (hmry : deviceMemory[k]? = some memory) (hj : j < i) (hi : i ≤ moduleSize.keys.length)
    (hsz : partitionSize moduleSize ((moduleSize.keys.take i).drop j) ≤ memory) :
    Holding moduleSize deviceMemory i (k + 1) (cell.extend k ((moduleSize.keys.take i).drop j)
      (partitionSize moduleSize ((moduleSize.keys.take i).drop j))) (parts ++ [(moduleSize.keys.take i).drop j]) := by
  obtain ⟨hk, -⟩ := List.getElem?_eq_some_iff.1 hmry
  have hlen : parts.length = k := by
    have := h.cut.fits.length_eq
    rwa [length_take, Nat.min_eq_left hk.le] at this
  refine ⟨?_, ?_, ?_, ?_⟩
  · rw [take_add_one, hmry, Option.toList_some]
    refine isCut_concat.2 ⟨j, by simpa using ⟨hj, hj.trans_le hi⟩, parts, rfl, ?_, hsz⟩
    rw [take_take, Nat.min_eq_left hj.le]
    exact h.cut
  · obtain ⟨rest, hrs⟩ : ∃ rest, deviceMemory.length - k = rest + 1 := ⟨deviceMemory.length - k - 1, by omega⟩
    have hrs' : deviceMemory.length - (k + 1) = rest := by omega
    simp only [BalanceCell.extend, h.partitions, hrs, hrs', replicate_succ]
    rw [set_append_right _ _ hlen.le, hlen, Nat.sub_self]
    simp
  · simp only [BalanceCell.extend, h.minSize, map_append, map_cons, map_nil]
    cases hm : (parts.map (partitionSize moduleSize)).min? with
    | none =>
      obtain rfl : parts = [] := by simpa using hm
      rfl
    | some m => rw [min?_concat hm]
  · simp only [BalanceCell.extend, h.maxSize, map_append, map_cons, map_nil]
    cases hm : (parts.map (partitionSize moduleSize)).max? with
    | none =>
      obtain rfl : parts = [] := by simpa using hm
      simp [max_comm]
    | some m =>
      rw [max?_concat hm, Option.getD_some, Option.getD_some]
      exact max_right_comm _ _ _

theorem balanceCell_spec {i k : Nat} (hi : i ≤ moduleSize.keys.length) (hk : k ≤ deviceMemory.length) :
    ((balanceCell moduleSize deviceMemory i k).gap = none → balanceCell moduleSize deviceMemory i k = .unreached ∧
        ∀ parts, ¬IsCut moduleSize (deviceMemory.take k) (moduleSize.keys.take i) parts) ∧
      ((balanceCell moduleSize deviceMemory i k).gap ≠ none →
        ∃ parts, Holding moduleSize deviceMemory i k (balanceCell moduleSize deviceMemory i k) parts) := by
  induction k generalizing i with
  | zero =>
    cases i with
    | zero =>
      rw [balanceCell_zero_zero]
      refine ⟨by simp, fun _ => ⟨[], isCut_nil.2 ⟨rfl, rfl⟩, rfl, rfl, rfl⟩⟩
    | succ i =>
      rw [balanceCell_succ_zero]
      refine ⟨fun _ => ⟨rfl, ?_⟩, by simp [unreached]⟩
      intro parts hcut
      have := (isCut_nil.1 hcut).1
      rw [take_eq_nil_iff] at this
      rcases this with h | h
      · simp at h
      · simp [h] at hi
  | succ k ih =>
    obtain ⟨memory, hmry⟩ : ∃ memory, deviceMemory[k]? = some memory := ⟨_, getElem?_eq_getElem hk⟩
    rw [take_add_one, hmry, Option.toList_some]
    cases i with
    | zero =>
      rw [balanceCell_zero_succ]
      refine ⟨fun _ => ⟨rfl, ?_⟩, by simp [unreached]⟩
      intro parts hcut
      obtain ⟨j, hj, -⟩ := isCut_concat.1 hcut
      simp at hj
    | succ i =>
      have hlen : (moduleSize.keys.take (i + 1)).length = i + 1 := by simpa using hi
      have hfrt : ∀ j ∈ range (i + 1), (moduleSize.keys.take (i + 1)).take j = moduleSize.keys.take j := by
        intro j hj
        rw [take_take, Nat.min_eq_left (mem_range.1 hj).le]
      obtain ⟨hno, hso⟩ := foldl_balanceStep moduleSize memory (i + 1) k
        (fun j => balanceCell moduleSize deviceMemory j k) (range (i + 1))
      rw [← balanceCell_succ_succ hmry] at hno hso
      refine ⟨fun hgap => ⟨(hno hgap).1, ?_⟩, fun hgap => ?_⟩
      · intro parts hcut
        obtain ⟨j, hj, front, -, hcut', hsz⟩ := isCut_concat.1 hcut
        rw [hlen] at hj
        rw [hfrt j (mem_range.2 hj)] at hcut'
        refine (hno hgap).2 j (mem_range.2 hj) ⟨hsz, fun hunreached => ?_⟩
        exact ((ih (by omega) (by omega)).1 hunreached).2 front hcut'
      · obtain ⟨g, hg⟩ := Option.ne_none_iff_exists'.1 hgap
        obtain ⟨⟨j, hj, ⟨hsz, hrch⟩, hcell⟩, -⟩ := hso g hg
        rw [mem_range] at hj
        obtain ⟨front, hhdg⟩ := (ih (i := j) (by omega) (by omega)).2 hrch
        exact ⟨_, hcell ▸ hhdg.extend hmry hj hi hsz⟩

theorem isCut_singleton {memory : Int} (h : IsCut moduleSize [memory] names parts) : parts = [names] := by
  obtain ⟨j, -, front, rfl, hfrt, -⟩ := isCut_concat.1 (show IsCut moduleSize ([] ++ [memory]) names parts from h)
  obtain ⟨htake, rfl⟩ := isCut_nil.1 hfrt
  rcases take_eq_nil_iff.1 htake with rfl | rfl
  · simp
  · simp

theorem gapOf_singleton (part : List String) : gapOf moduleSize [part] = 0 := by simp [gapOf]

theorem gapOf_pair (part part' : List String) :
    gapOf moduleSize [part, part'] = |partitionSize moduleSize part - partitionSize moduleSize part'| := by
  simp only [gapOf, map_cons, map_nil, max?_cons', min?_cons', foldl_cons, foldl_nil, Option.getD_some]
  exact max_sub_min_eq_abs' _ _

theorem Holding.maxGap {j : Nat} {cell : BalanceCell} {memory : Int} (hmry : deviceMemory[0]? = some memory)
    (h : Holding moduleSize deviceMemory j 1 cell parts) (hpos : 0 ≤ partitionSize moduleSize (moduleSize.keys.take j))
    (size : Int) : parts = [moduleSize.keys.take j] ∧
      cell.maxGap size = |partitionSize moduleSize (moduleSize.keys.take j) - size| := by
  have htake : deviceMemory.take 1 = [memory] := by
    rw [take_add_one, hmry]
    rfl
  obtain rfl := isCut_singleton (htake ▸ h.cut)
  have hmin := h.minSize
  have hmax := h.maxSize
  simp only [map_cons, map_nil, min?_singleton, max?_singleton, Option.getD_some, max_eq_left hpos] at hmin hmax
  refine ⟨rfl, ?_⟩
  rw [maxGap, hmin, hmax]
  exact max_self _

theorem balanceCell_optimal {i : Nat} (hi : i ≤ moduleSize.keys.length) (hlen : 2 ≤ deviceMemory.length)
    (hpos : ∀ names, 0 ≤ partitionSize moduleSize names) (hgap : (balanceCell moduleSize deviceMemory i 2).gap ≠ none) :
    ∃ parts, Holding moduleSize deviceMemory i 2 (balanceCell moduleSize deviceMemory i 2) parts ∧
      ∀ parts', IsCut moduleSize (deviceMemory.take 2) (moduleSize.keys.take i) parts' →
        gapOf moduleSize parts ≤ gapOf moduleSize parts' := by
  obtain ⟨memory0, h0⟩ : ∃ memory, deviceMemory[0]? = some memory := ⟨_, getElem?_eq_getElem (by omega)⟩
  obtain ⟨memory, hmry⟩ : ∃ memory, deviceMemory[1]? = some memory := ⟨_, getElem?_eq_getElem hlen⟩
  cases i with
  | zero =>
    rw [balanceCell_zero_succ] at hgap
    exact absurd rfl hgap
  | succ i =>
    obtain ⟨-, hso⟩ := foldl_balanceStep moduleSize memory (i + 1) 1
      (fun j => balanceCell moduleSize deviceMemory j 1) (range (i + 1))
    rw [← balanceCell_succ_succ hmry] at hso
    obtain ⟨g, hg⟩ := Option.ne_none_iff_exists'.1 hgap
    obtain ⟨⟨j, hj, ⟨hsz, hrch⟩, hcell⟩, hmin⟩ := hso g hg
    rw [mem_range] at hj
    obtain ⟨front, hhdg⟩ := (balanceCell_spec (i := j) (by omega) (by omega)).2 hrch
    obtain ⟨rfl, hmaxGap⟩ := hhdg.maxGap h0 (hpos _) (partitionSize moduleSize ((moduleSize.keys.take (i + 1)).drop j))
    refine ⟨_, hcell ▸ hhdg.extend hmry hj hi hsz, ?_⟩
    intro parts' hcut
    rw [take_add_one, hmry, Option.toList_some] at hcut
    obtain ⟨j', hj', front', rfl, hfrt', hsz'⟩ := isCut_concat.1 hcut
    rw [length_take, Nat.min_eq_left hi] at hj'
    rw [take_take, Nat.min_eq_left hj'.le] at hfrt'
    have hspec := @balanceCell_spec moduleSize deviceMemory j' 1 (by omega) (by omega)
    have hrch' : (balanceCell moduleSize deviceMemory j' 1).gap ≠ none := fun hno => (hspec.1 hno).2 front' hfrt'
    obtain ⟨parts1, hhdg'⟩ := hspec.2 hrch'
    obtain ⟨rfl, hmaxGap'⟩ := hhdg'.maxGap h0 (hpos _) (partitionSize moduleSize ((moduleSize.keys.take (i + 1)).drop j'))
    have htake1 : deviceMemory.take 1 = [memory0] := by
      rw [take_add_one, h0]
      rfl
    obtain rfl := isCut_singleton (htake1 ▸ hfrt')
    have hle := hmin j' (mem_range.2 hj') ⟨hsz', hrch'⟩
    rw [hmaxGap'] at hle
    have hg' : g = |partitionSize moduleSize (moduleSize.keys.take j) - partitionSize moduleSize
      ((moduleSize.keys.take (i + 1)).drop j)| := by
      rw [hcell] at hg
      rw [← hmaxGap]
      exact (some.inj hg).symm
    simp only [singleton_append]
    rwa [gapOf_pair, gapOf_pair, ← hg']

def EvenParts (moduleSize : ModuleSizes) (parts : List (List String)) : Prop :=
  ∃ size, ∀ part ∈ parts, partitionSize moduleSize part = size

theorem gapOf_cases (parts : List (List String)) : gapOf moduleSize parts = 0 ∨
    ∃ most ∈ parts.map (partitionSize moduleSize), ∃ least ∈ parts.map (partitionSize moduleSize),
      least ≤ most ∧ gapOf moduleSize parts = most - least := by
  unfold gapOf
  cases hmax : (parts.map (partitionSize moduleSize)).max? with
  | none =>
    obtain rfl : parts = [] := by simpa using hmax
    simp
  | some most =>
    cases hmin : (parts.map (partitionSize moduleSize)).min? with
    | none =>
      obtain rfl : parts = [] := by simpa using hmin
      simp at hmax
    | some least =>
      obtain ⟨hleast, hle⟩ := min?_eq_some_iff.1 hmin
      have hmost := (max?_eq_some_iff.1 hmax).1
      exact .inr ⟨most, hmost, least, hleast, hle most hmost, rfl⟩

theorem gapOf_nonneg (parts : List (List String)) : 0 ≤ gapOf moduleSize parts := by
  rcases gapOf_cases parts with heq | ⟨most, -, least, -, hle, heq⟩
  · exact heq.ge
  · exact heq ▸ sub_nonneg.2 hle

theorem EvenParts.gapOf_eq (h : EvenParts moduleSize parts) : gapOf moduleSize parts = 0 := by
  obtain ⟨size, hsz⟩ := h
  have hall : ∀ x ∈ parts.map (partitionSize moduleSize), x = size := by
    intro x hx
    obtain ⟨part, hpart, rfl⟩ := mem_map.1 hx
    exact hsz part hpart
  rcases gapOf_cases parts with heq | ⟨most, hmost, least, hleast, -, heq⟩
  · exact heq
  · rw [heq, hall most hmost, hall least hleast, sub_self]

theorem partitionSize_flatten (moduleSize : ModuleSizes) (parts : List (List String)) :
    partitionSize moduleSize parts.flatten = (parts.map (partitionSize moduleSize)).sum := by
  induction parts with
  | nil => rfl
  | cons part parts ih =>
    rw [flatten_cons, map_cons, sum_cons, ← ih]
    simp [partitionSize]

theorem BalanceCell.maxGap_nonneg (cell : BalanceCell) (size : Int) : 0 ≤ cell.maxGap size := by
  unfold maxGap
  split
  · exact le_rfl
  · exact (abs_nonneg _).trans (le_max_left _ _)

theorem Holding.even {i k : Nat} {cell : BalanceCell} (h : Holding moduleSize deviceMemory i k cell parts) {size : Int} :
    cell.maxGap size = 0 → ∀ part ∈ parts, partitionSize moduleSize part = size := by
  intro hgap part hpart
  have hmem : partitionSize moduleSize part ∈ parts.map (partitionSize moduleSize) := mem_map_of_mem hpart
  obtain ⟨least, hmin⟩ : ∃ least, (parts.map (partitionSize moduleSize)).min? = some least :=
    Option.ne_none_iff_exists'.1 fun hno => by simp [min?_eq_none_iff.1 hno] at hmem
  obtain ⟨most, hmax⟩ : ∃ most, (parts.map (partitionSize moduleSize)).max? = some most :=
    Option.ne_none_iff_exists'.1 fun hno => by simp [max?_eq_none_iff.1 hno] at hmem
  have hle := (min?_eq_some_iff.1 hmin).2 _ hmem
  have hge := (max?_eq_some_iff.1 hmax).2 _ hmem
  have hmaxSize : most ≤ cell.maxSize := by
    rw [h.maxSize, hmax]
    exact le_max_left _ _
  rw [BalanceCell.maxGap, h.minSize, hmin] at hgap
  have h1 : |least - size| ≤ 0 := (le_max_left _ _).trans hgap.le
  have h2 : |cell.maxSize - size| ≤ 0 := (le_max_right _ _).trans hgap.le
  rw [abs_nonpos_iff, sub_eq_zero] at h1 h2
  omega

theorem Holding.maxGap_even {i k : Nat} {cell : BalanceCell} (h : Holding moduleSize deviceMemory i k cell parts) {size : Int}
    (hpos : 0 ≤ size) (heven : ∀ part ∈ parts, partitionSize moduleSize part = size) : cell.maxGap size = 0 := by
  cases hmin : (parts.map (partitionSize moduleSize)).min? with
  | none => rw [BalanceCell.maxGap, h.minSize, hmin]
  | some least =>
    obtain ⟨part, hpart, rfl⟩ := mem_map.1 (min?_eq_some_iff.1 hmin).1
    obtain ⟨most, hmax⟩ : ∃ most, (parts.map (partitionSize moduleSize)).max? = some most :=
      Option.ne_none_iff_exists'.1 fun hno => by simp [max?_eq_none_iff.1 hno] at hmin
    obtain ⟨part', hpart', rfl⟩ := mem_map.1 (max?_eq_some_iff.1 hmax).1
    rw [BalanceCell.maxGap, h.minSize, h.maxSize, hmin, hmax]
    simp [heven part hpart, heven part' hpart', hpos]

theorem balanceCell_even {i k : Nat} (hi : i ≤ moduleSize.keys.length) (hk : k ≤ deviceMemory.length)
    (hpos : ∀ names, 0 ≤ partitionSize moduleSize names) {parts : List (List String)}
    (hcut : IsCut moduleSize (deviceMemory.take k) (moduleSize.keys.take i) parts) (heven : EvenParts moduleSize parts) :
    ∃ best, Holding moduleSize deviceMemory i k (balanceCell moduleSize deviceMemory i k) best ∧ EvenParts moduleSize best := by
  induction k generalizing i parts with
  | zero =>
    have hspec := @balanceCell_spec moduleSize deviceMemory i 0 hi (Nat.zero_le _)
    obtain ⟨best, hb⟩ := hspec.2 fun hno => (hspec.1 hno).2 parts hcut
    exact ⟨best, hb, 0, by simp [(isCut_nil.1 hb.cut).2]⟩
  | succ k ih =>
    obtain ⟨memory, hmry⟩ : ∃ memory, deviceMemory[k]? = some memory := ⟨_, getElem?_eq_getElem hk⟩
    rw [take_add_one, hmry, Option.toList_some] at hcut
    obtain ⟨j, hj, front, rfl, hfrt, hsz⟩ := isCut_concat.1 hcut
    obtain ⟨size, hall⟩ := heven
    rw [length_take, Nat.min_eq_left hi] at hj
    rw [take_take, Nat.min_eq_left hj.le] at hfrt
    have hla : partitionSize moduleSize ((moduleSize.keys.take i).drop j) = size := hall _ (by simp)
    obtain ⟨before, hbef, size', hbef'⟩ := ih (by omega) (by omega) hfrt ⟨size, fun p hp => hall p (by simp [hp])⟩
    -- as many parts of one size make up the same modules, so it is the same size
    have hsa : ∀ part ∈ before, partitionSize moduleSize part = size := by
      intro part hpart
      have hlen := hbef.cut.fits.length_eq
      have hsum : (before.length : Int) * size' = before.length * size := by
        have h1 := partitionSize_flatten moduleSize before
        have h2 := partitionSize_flatten moduleSize front
        rw [map_congr_left hbef', map_const', sum_replicate] at h1
        rw [map_congr_left fun p hp => hall p (by simp [hp]), map_const', sum_replicate] at h2
        rw [hbef.cut.join] at h1
        rw [hfrt.join, hfrt.fits.length_eq, ← hlen] at h2
        simpa using h1.symm.trans h2
      have hne : (before.length : Int) ≠ 0 := by simpa using ne_nil_of_mem hpart
      rw [hbef' part hpart, Int.eq_of_mul_eq_mul_left hne hsum]
    have hgap0 := hbef.maxGap_even (hla ▸ hpos _) hsa
    have hspec := @balanceCell_spec moduleSize deviceMemory j k (by omega) (by omega)
    have husable : Usable moduleSize memory i j (balanceCell moduleSize deviceMemory j k) :=
      ⟨hsz, fun hno => (hspec.1 hno).2 front hfrt⟩
    obtain ⟨i, rfl⟩ : ∃ i', i = i' + 1 := ⟨i - 1, by omega⟩
    obtain ⟨hno, hso⟩ := foldl_balanceStep moduleSize memory (i + 1) k
      (fun j => balanceCell moduleSize deviceMemory j k) (range (i + 1))
    rw [← balanceCell_succ_succ hmry] at hno hso
    obtain ⟨g, hg⟩ : ∃ g, (balanceCell moduleSize deviceMemory (i + 1) (k + 1)).gap = some g :=
      Option.ne_none_iff_exists'.1 fun hn => (hno hn).2 j (mem_range.2 hj) husable
    obtain ⟨⟨j', hj', ⟨hsz', hrch⟩, hcell⟩, hmin⟩ := hso g hg
    rw [mem_range] at hj'
    obtain ⟨front', hhdg⟩ := (balanceCell_spec (i := j') (by omega) (by omega)).2 hrch
    have hzero : (balanceCell moduleSize deviceMemory j' k).maxGap
        (partitionSize moduleSize ((moduleSize.keys.take (i + 1)).drop j')) = 0 := by
      have hle := hmin j (mem_range.2 hj) husable
      rw [hla, hgap0] at hle
      rw [hcell] at hg
      have hge : (balanceCell moduleSize deviceMemory j' k).maxGap
          (partitionSize moduleSize ((moduleSize.keys.take (i + 1)).drop j')) = g := some.inj hg
      exact le_antisymm (hge ▸ hle) (maxGap_nonneg _ _)
    refine ⟨_, hcell ▸ hhdg.extend hmry hj' hi hsz',
      partitionSize moduleSize ((moduleSize.keys.take (i + 1)).drop j'), fun part hpart => ?_⟩
    rcases mem_append.1 hpart with hpart | hpart
    · exact hhdg.even hzero part hpart
    · rw [mem_singleton.1 hpart]

end Table

/-! ## The placement of a cut -/

/-- The modules of the parts with the numbers of their parts. -/
def numbered (partitions : List (List String)) (k : Nat) : List (String × Nat) :=
  (partitions.zipIdx k).flatMap fun e => e.1.map fun module => (module, e.2)

theorem keys_numbered (partitions : List (List String)) (k : Nat) : (numbered partitions k).map Prod.fst =
    partitions.flatten := by
  induction partitions generalizing k with
  | nil => rfl
  | cons part partitions ih =>
    have := ih (k + 1)
    simp only [numbered] at this
    simp [numbered, zipIdx_cons, Function.comp_def, this]

variable {partitions : List (List String)}

theorem mem_numbered {k d : Nat} {name : String} :
    (name, d) ∈ numbered partitions k ↔ ∃ part, (part, d) ∈ partitions.zipIdx k ∧ name ∈ part := by
  simp only [numbered, mem_flatMap, mem_map, Prod.mk.injEq]
  constructor
  · rintro ⟨⟨part, d'⟩, hmem, m, hm, rfl, rfl⟩
    exact ⟨part, hmem, hm⟩
  · rintro ⟨part, hmem, hm⟩
    exact ⟨(part, d), hmem, name, hm, rfl, rfl⟩

theorem partitionsMap_eq (partitions : List (List String)) :
    partitionsMap partitions = (numbered partitions 0).foldl (fun map e => map.set e.1 e.2) .empty := by
  rw [partitionsMap, numbered, foldl_flatMap]
  simp only [foldl_map]

theorem get?_partitionsMap (hnd : partitions.flatten.Nodup) (name : String) (d : Nat) :
    (partitionsMap partitions).get? name = some d ↔ ∃ part, partitions[d]? = some part ∧ name ∈ part := by
  have hnd' : ((numbered partitions 0).map fst).Nodup := by rwa [keys_numbered]
  have hmem : (name, d) ∈ numbered partitions 0 ↔ ∃ part, partitions[d]? = some part ∧ name ∈ part := by
    rw [mem_numbered]
    simp only [mk_mem_zipIdx_iff_getElem?]
  rw [partitionsMap_eq, ← hmem]
  constructor
  · intro h
    by_cases hkey : name ∈ (numbered partitions 0).map fst
    · obtain ⟨⟨name', d'⟩, he, rfl⟩ := mem_map.1 hkey
      rw [get?_foldl_set hnd' he] at h
      obtain rfl := some.inj h
      exact he
    · rw [get?_foldl_set_of_not_mem hkey] at h
      simp at h
  · exact fun h => get?_foldl_set hnd' h .empty

theorem keys_partitionsMap (hnd : partitions.flatten.Nodup) : (partitionsMap partitions).keys.Perm partitions.flatten := by
  refine (perm_ext_iff_of_nodup (partitionsMap partitions).nodup hnd).2 fun name => ?_
  change name ∈ (partitionsMap partitions).keys ↔ _
  rw [mem_keys_iff]
  simp only [get?_partitionsMap hnd, mem_flatten]
  constructor
  · rintro ⟨d, part, hpart, hnm⟩
    exact ⟨part, mem_of_getElem? hpart, hnm⟩
  · rintro ⟨part, hpart, hnm⟩
    obtain ⟨d, hd⟩ := getElem?_of_mem hpart
    exact ⟨d, part, hd, hnm⟩

theorem partsOf_partitionsMap (hnd : partitions.flatten.Nodup) :
    partsOf (partitionsMap partitions) partitions.flatten partitions.length = partitions := by
  refine ext_getElem (by simp [partsOf]) fun d hd hd' => ?_
  obtain ⟨before, part, after, hspl, hlen⟩ : ∃ before part after, partitions = before ++ part :: after ∧ before.length = d :=
    ⟨partitions.take d, partitions[d], partitions.drop (d + 1), by simp, by simp [hd'.le]⟩
  have hpart : partitions[d]? = some part := by simp [hspl, ← hlen]
  have hflr : partitions.flatten.filter (fun name => (partitionsMap partitions).get? name = some d) =
      partitions.flatten.filter fun name => name ∈ part := by
    refine filter_congr fun name _ => decide_eq_decide.2 ?_
    rw [get?_partitionsMap hnd, hpart]
    simp
  have hget : partitions[d] = part := by
    have := getElem?_eq_getElem hd'
    exact some.inj (this.symm.trans hpart)
  simp only [partsOf, getElem_map, getElem_range]
  rw [hflr, hget]
  -- the names of a part stand in no other part
  rw [hspl, flatten_append, flatten_cons] at hnd ⊢
  obtain ⟨-, hrs, hbef⟩ := nodup_append.1 hnd
  obtain ⟨-, -, haft⟩ := nodup_append.1 hrs
  rw [filter_append, filter_append, filter_eq_nil_iff.2, filter_eq_self.2, filter_eq_nil_iff.2]
  · simp
  · intro name hnm
    simpa using fun hmem => haft name hmem name hnm rfl
  · simp
  · intro name hnm
    simpa using fun hmem => hbef name hnm name (by simp [hmem]) rfl

/-! ## What is returned -/

section Returned

variable {deviceMemory : List Int}

theorem partitionSize_nonneg (h : ∀ e ∈ moduleSize.entries, 0 ≤ e.2) (names : List String) :
    0 ≤ partitionSize moduleSize names := by
  refine sum_nonneg fun x hx => ?_
  obtain ⟨name, -, rfl⟩ := mem_map.1 hx
  cases hget : moduleSize.get? name with
  | none => exact le_rfl
  | some size => exact h (name, size) (mem_entries_iff.2 hget)

theorem getBalancedPlacement_eq (hne : deviceMemory ≠ []) (hn : deviceMemory.length ≤ moduleSize.keys.length) :
    getBalancedPlacement moduleSize deviceMemory =
      .ok (some (partitionsMap (balanceCell moduleSize deviceMemory moduleSize.keys.length deviceMemory.length).partitions)) := by
  have hpos := length_pos_iff.2 hne
  unfold getBalancedPlacement
  dsimp only
  rw [if_neg (by omega), if_neg (by omega)]
  rfl

theorem Holding.placed {cell : BalanceCell}
    (h : Holding moduleSize deviceMemory moduleSize.keys.length deviceMemory.length cell parts) :
    (partitionsMap cell.partitions).keys.Perm moduleSize.keys ∧ IsCut moduleSize deviceMemory moduleSize.keys parts ∧
      partsOf (partitionsMap cell.partitions) moduleSize.keys deviceMemory.length = parts := by
  have hcut := h.cut
  rw [take_length, take_length] at hcut
  have hpts : cell.partitions = parts := by simpa using h.partitions
  have hnd : parts.flatten.Nodup := hcut.join ▸ moduleSize.nodup
  rw [hpts]
  refine ⟨hcut.join ▸ keys_partitionsMap hnd, hcut, ?_⟩
  have := partsOf_partitionsMap hnd
  rwa [hcut.join, hcut.fits.length_eq] at this

theorem getBalancedPlacement_cut (hn : deviceMemory.length ≤ moduleSize.keys.length) (hne : deviceMemory ≠ [])
    (hcut : IsCut moduleSize deviceMemory moduleSize.keys parts) :
    ∃ placement, getBalancedPlacement moduleSize deviceMemory = .ok (some placement) ∧ placement.keys.Perm moduleSize.keys ∧
      IsCut moduleSize deviceMemory moduleSize.keys (partsOf placement moduleSize.keys deviceMemory.length) ∧
      ((∀ e ∈ moduleSize.entries, 0 ≤ e.2) →
        deviceMemory.length ≤ 2 ∨ (∃ parts', IsCut moduleSize deviceMemory moduleSize.keys parts' ∧
          EvenParts moduleSize parts') →
        ∀ parts', IsCut moduleSize deviceMemory moduleSize.keys parts' →
          gapOf moduleSize (partsOf placement moduleSize.keys deviceMemory.length) ≤ gapOf moduleSize parts') := by
  rw [getBalancedPlacement_eq hne hn]
  have hspec := @balanceCell_spec moduleSize deviceMemory _ _ (Nat.le_refl _) (Nat.le_refl _)
  have htake : ∀ parts, IsCut moduleSize deviceMemory moduleSize.keys parts ↔
      IsCut moduleSize (deviceMemory.take deviceMemory.length) (moduleSize.keys.take moduleSize.keys.length) parts := by
    simp
  have hrch := fun hno => (hspec.1 hno).2 parts ((htake parts).1 hcut)
  obtain ⟨held, hhe⟩ := hspec.2 hrch
  obtain ⟨hks, hheldcut, hprs⟩ := hhe.placed
  refine ⟨_, rfl, hks, hprs.symm ▸ hheldcut, fun hpos hor parts' hcut' => ?_⟩
  have hpos' := partitionSize_nonneg hpos
  rcases hor with hle | ⟨even, hevencut, heven⟩
  · obtain hlen | hlen : deviceMemory.length = 1 ∨ deviceMemory.length = 2 := by
      have := length_pos_iff.2 hne
      omega
    · obtain ⟨memory, rfl⟩ := length_eq_one_iff.1 hlen
      rw [hprs, isCut_singleton hheldcut, gapOf_singleton]
      exact gapOf_nonneg parts'
    · obtain ⟨best, hb, hmin⟩ := balanceCell_optimal (Nat.le_refl _) hlen.ge hpos' (hlen ▸ hrch)
      rw [← hlen] at hb hmin
      rw [hb.placed.2.2]
      exact hmin parts' ((htake parts').1 hcut')
  · obtain ⟨best, hb, hbesteven⟩ := balanceCell_even (Nat.le_refl _) (Nat.le_refl _) hpos' ((htake even).1 hevencut) heven
    rw [hb.placed.2.2, hbesteven.gapOf_eq]
    exact gapOf_nonneg parts'

theorem getBalancedPlacement_noCut (hn : deviceMemory.length ≤ moduleSize.keys.length) (hne : deviceMemory ≠ [])
    (hno : ∀ parts, ¬IsCut moduleSize deviceMemory moduleSize.keys parts) :
    getBalancedPlacement moduleSize deviceMemory = .ok (some .empty) := by
  rw [getBalancedPlacement_eq hne hn]
  have hspec := @balanceCell_spec moduleSize deviceMemory _ _ (Nat.le_refl _) (Nat.le_refl _)
  have hgap : (balanceCell moduleSize deviceMemory moduleSize.keys.length deviceMemory.length).gap = none := by
    by_contra hrch
    obtain ⟨held, hhe⟩ := hspec.2 hrch
    exact hno held hhe.placed.2.1
  rw [(hspec.1 hgap).1]
  rfl

end Returned

/-- The checks before the placement raise: there is no device, the first module does not fit the first device, or all modules
together do not fit all devices. -/
def Refused (maxMemory : List Int) (modules : ModuleSizes) : Prop :=
  maxMemory = [] ∨ (∃ entry memory, modules.entries.head? = some entry ∧ maxMemory.head? = some memory ∧ memory < entry.2) ∨
    maxMemory.sum < (modules.entries.map snd).sum

/-- There is a cut and at most two devices, or the parts can be made equal, or all cuts have one gap; or there is no cut and the
checks before the placement raise. -/
def Balanceable (maxMemory : List Int) (modules : ModuleSizes) : Prop :=
  ((∃ parts, IsCut modules maxMemory modules.keys parts) ∧ maxMemory ≠ [] ∧
      (maxMemory.length ≤ 2 ∨ (∃ parts, IsCut modules maxMemory modules.keys parts ∧ EvenParts modules parts) ∨
        ∀ parts parts', IsCut modules maxMemory modules.keys parts → IsCut modules maxMemory modules.keys parts' →
          gapOf modules parts = gapOf modules parts')) ∨
    (¬∃ parts, IsCut modules maxMemory modules.keys parts) ∧ Refused maxMemory modules

theorem compute_balanced {maxMemory : List Int} {sizes : ModuleSizes} {tiedModules : List TiedGroup} {deviceMap : String}
    (hmap : deviceMap = "auto" ∨ deviceMap = "balanced") (hne : (mergedModules sizes tiedModules).keys ≠ []) :
    (Refused maxMemory (mergedModules sizes tiedModules) →
        ∃ e, computeDevicePlacementFromMapFast maxMemory sizes tiedModules (.named deviceMap) = .error e) ∧
      ∀ placement, ¬Refused maxMemory (mergedModules sizes tiedModules) →
        getBalancedPlacement (mergedModules sizes tiedModules) maxMemory = .ok (some placement) →
        computeDevicePlacementFromMapFast maxMemory sizes tiedModules (.named deviceMap) =
          .ok (tiedModules.foldl reassignTied placement) := by
  have hmem : deviceMap ∈ ["auto", "balanced", "balanced_low_0", "sequential"] := by
    rcases hmap with rfl | rfl <;> decide
  obtain ⟨found, hfound, heq⟩ : ∃ found,
    (∀ placement, found (some placement) = .ok (tiedModules.foldl reassignTied placement)) ∧
      computeDevicePlacementFromMapFast maxMemory sizes tiedModules (.named deviceMap) =
      (dropDevices ((mergedModules sizes tiedModules).entries.head?.map snd) maxMemory maxMemory.length).bind fun left =>
        if ((mergedModules sizes tiedModules).entries.map snd).sum > left.sum then
          .error (.runtimeError "The total size of the model is greater than the maximum memory available.")
        else
          (getBalancedPlacement (mergedModules sizes tiedModules) left).bind found := by
    unfold computeDevicePlacementFromMapFast
    dsimp only
    rw [if_neg (not_not.2 hmem)]
    simp only [if_pos hmap]
    exact ⟨_, fun _ => by rfl, rfl⟩
  obtain ⟨entry, hentry⟩ : ∃ entry, (mergedModules sizes tiedModules).entries.head? = some entry := by
    cases h : (mergedModules sizes tiedModules).entries with
    | nil => exact absurd (by rw [Dict.keys, h]; rfl) hne
    | cons entry rest => exact ⟨entry, rfl⟩
  rw [heq, dropDevices_eq, hentry, Option.map_some]
  unfold Refused
  rw [hentry]
  cases hhead : maxMemory.head? with
  | none =>
    obtain rfl : maxMemory = [] := by simpa using hhead
    exact ⟨fun _ => ⟨_, rfl⟩, by simp⟩
  | some memory =>
    have hne' : maxMemory ≠ [] := by
      rintro rfl
      simp at hhead
    dsimp only
    by_cases hgt : entry.2 > memory
    · rw [if_pos hgt]
      refine ⟨fun _ => ⟨_, rfl⟩, fun placement hno => absurd (.inr (.inl ⟨entry, memory, rfl, rfl, hgt⟩)) hno⟩
    · rw [if_neg hgt]
      by_cases htot : ((mergedModules sizes tiedModules).entries.map snd).sum > maxMemory.sum
      · simp only [Except.bind, if_pos htot]
        exact ⟨fun _ => ⟨_, rfl⟩, fun placement hno => absurd (.inr (.inr htot)) hno⟩
      · simp only [Except.bind, if_neg htot]
        refine ⟨?_, fun placement _ hplc => (congrArg (bind · found) hplc).trans (hfound placement)⟩
        rintro (h | ⟨e, m, he, hm, hlt⟩ | h)
        · exact absurd h hne'
        · obtain rfl := some.inj he
          obtain rfl := some.inj hm
          exact absurd hlt hgt
        · exact absurd h htot

/-- For every input with sizes that are not negative and no more devices than modules: the placement is as it should be under
the condition, and for at most two devices or without a cut only then. -/
theorem balanced_of_balanceable (maxMemory : List Int) (sizes : ModuleSizes) (tiedModules : List TiedGroup) (deviceMap : String)
    (hmap : deviceMap = "auto" ∨ deviceMap = "balanced")
    (hpos : ∀ e ∈ (mergedModules sizes tiedModules).entries, 0 ≤ e.2)
    (hn : maxMemory.length ≤ (mergedModules sizes tiedModules).keys.length) :
    (Balanceable maxMemory (mergedModules sizes tiedModules) → Balances maxMemory sizes tiedModules deviceMap) ∧
      (maxMemory.length ≤ 2 ∨ (¬∃ parts, IsCut (mergedModules sizes tiedModules) maxMemory
        (mergedModules sizes tiedModules).keys parts) →
        Balances maxMemory sizes tiedModules deviceMap → Balanceable maxMemory (mergedModules sizes tiedModules)) := by
  generalize hmos : mergedModules sizes tiedModules = modules at hpos hn ⊢
  have hcom := @compute_balanced maxMemory sizes tiedModules deviceMap hmap
  rw [hmos] at hcom
  -- without modules there are no devices, and the empty list is cut
  have hks : (¬∃ parts, IsCut modules maxMemory modules.keys parts) → modules.keys ≠ [] := by
    intro hno hnil
    rw [hnil] at hn hno
    obtain rfl := length_eq_zero_iff.1 (Nat.le_zero.1 hn)
    exact hno ⟨[], isCut_nil.2 ⟨rfl, rfl⟩⟩
  constructor
  · rintro (⟨⟨parts, hcut⟩, hne, hor⟩ | ⟨hno, href⟩)
    · refine ⟨fun _ => ?_, fun hno => absurd ⟨parts, hmos ▸ hcut⟩ hno⟩
      rw [hmos]
      obtain ⟨placement, hplc, hpm, hprs, hmin⟩ := getBalancedPlacement_cut hn hne hcut
      refine ⟨placement, hplc, hpm, hprs, ?_⟩
      rcases hor with h | h | h
      · exact hmin hpos (.inl h)
      · exact hmin hpos (.inr h)
      · exact fun parts' hcut' => (h _ _ hprs hcut').le
    · exact ⟨fun hcut => absurd (hmos ▸ hcut) hno, fun _ => (hcom (hks hno)).1 href⟩
  · intro hor hbalances
    by_cases hcut : ∃ parts, IsCut modules maxMemory modules.keys parts
    · refine .inl ⟨hcut, ?_, .inl (hor.resolve_right (not_not.2 hcut))⟩
      rintro rfl
      obtain ⟨parts, hprs⟩ := hcut
      have hnil := (isCut_nil.1 hprs).1
      obtain ⟨placement, hplc, -⟩ := hbalances.cut ⟨parts, hmos ▸ hprs⟩
      rw [hmos] at hplc
      simp [getBalancedPlacement, hnil] at hplc
    · refine .inr ⟨hcut, ?_⟩
      by_contra href
      have hne : maxMemory ≠ [] := fun h => href (.inl h)
      obtain ⟨e, he⟩ := hbalances.noCut (hmos ▸ hcut)
      have hemp := getBalancedPlacement_noCut hn hne fun parts h => hcut ⟨parts, h⟩
      rw [(hcom (hks hcut)).2 .empty href hemp] at he
      cases he

def evenModules : ModuleSizes := ⟨[("a", 2), ("b", 1), ("c", 1), ("d", 2)], by decide⟩

theorem balanced_of_balanceable_even : Balances [3, 3, 3] evenModules [] "auto" := by
  refine (balanced_of_balanceable [3, 3, 3] evenModules [] "auto" (.inl rfl) (by decide) (by decide)).1
    (.inl ⟨?_, by decide, .inr (.inl ?_)⟩)
  · exact ⟨[["a"], ["b", "c"], ["d"]], by decide, by decide, by simp; decide⟩
  · exact ⟨[["a"], ["b", "c"], ["d"]], ⟨by decide, by decide, by simp; decide⟩, 2, by decide⟩

/-- The last part is compared with the parts before it, and what these differ by is forgotten. -/
def unevenModules : ModuleSizes := ⟨[("a", 4), ("b", 1), ("c", 1), ("d", 2)], by decide⟩

/-- Modules that no cut places: the second one is larger than each device. -/
def oversized : ModuleSizes := ⟨[("a", 1), ("b", 3)], by decide⟩

theorem balanced_misses : ¬Balances [9, 9, 9] unevenModules [] "balanced" ∧ ¬Balances [2, 2] oversized [] "balanced" := by
  constructor
  · intro h
    have hcut : IsCut unevenModules [9, 9, 9] unevenModules.keys [["a"], ["b", "c"], ["d"]] :=
      ⟨by decide, by decide, by simp; decide⟩
    obtain ⟨placement, hplc, -, -, hmin⟩ := h.cut ⟨_, hcut⟩
    have hval : getBalancedPlacement unevenModules [9, 9, 9] =
        .ok (some ⟨[("a", 0), ("b", 1), ("c", 2), ("d", 2)], by decide⟩) := by decide +kernel
    obtain rfl := some.inj (ok.inj (hplc.symm.trans hval))
    exact absurd (hmin _ hcut) (by decide +kernel)
  · intro h
    have hno : ¬∃ parts, IsCut oversized [2, 2] oversized.keys parts := by
      rintro ⟨parts, hcut⟩
      obtain ⟨placement, hplc, hpm, -⟩ := getBalancedPlacement_cut (by decide) (by decide) hcut
      have hval : getBalancedPlacement oversized [2, 2] = .ok (some .empty) := by decide +kernel
      obtain rfl := some.inj (ok.inj (hplc.symm.trans hval))
      exact absurd hpm.length_eq (by decide)
    obtain ⟨e, he⟩ := h.noCut hno
    have hval : computeDevicePlacementFromMapFast [2, 2] oversized [] (.named "balanced") = .ok .empty := by decide +kernel
    rw [hval] at he
    cases he

end ServerlessLLM
