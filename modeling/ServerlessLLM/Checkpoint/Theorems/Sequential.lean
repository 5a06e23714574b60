import Mathlib.Algebra.BigOperators.Group.List.Basic
import Mathlib.Data.List.TakeWhile
import ServerlessLLM.Checkpoint.Placement

/-!
# Sequential placement

The loop looks at one module at a time: it goes on to the first device that has room for this module alone, and forgets what it
has put there before.
-/

namespace ServerlessLLM

open List Option Dict Except Prod Bool

/-! ## What a placement has to do -/

/-- What the modules of a set need, when each group of tied modules counts its shared parameters once. -/
def needOn (sizes : ModuleSizes) (tiedModules : List TiedGroup) (on : String → Prop) [DecidablePred on] : Int :=
  ((sizes.entries.filter fun e => on e.1).map snd).sum -
    (tiedModules.map fun tied => (((sizes.keys.filter fun m => m ∈ tied.1 ∧ on m).length - 1 : Nat) : Int) * tied.2).sum

/-- The need of a set depends on its input modules only. -/
theorem needOn_congr (sizes : ModuleSizes) (tiedModules : List TiedGroup) {on on' : String → Prop} [DecidablePred on]
    [DecidablePred on'] (h : ∀ m ∈ sizes.keys, on m ↔ on' m) : needOn sizes tiedModules on = needOn sizes tiedModules on' := by
  have hentries : (sizes.entries.filter fun e => on e.1) = sizes.entries.filter fun e => on' e.1 :=
    filter_congr fun e he => decide_eq_decide.2 (h e.1 (mem_map_of_mem he))
  have hkeys : ∀ tied : TiedGroup,
      (sizes.keys.filter fun m => m ∈ tied.1 ∧ on m) = sizes.keys.filter fun m => m ∈ tied.1 ∧ on' m :=
    fun tied => filter_congr fun m hm => decide_eq_decide.2 (and_congr_right fun _ => h m hm)
  simp only [needOn, hentries, hkeys]

/-- Every module is placed once, tied modules stand together, and no device holds more than it has memory. -/
structure KeepsMemory (maxMemory : List Int) (sizes : ModuleSizes) (tiedModules : List TiedGroup)
    (placement : DeviceMap) : Prop where
  placed : ∀ m ∈ sizes.keys, placement.keys.count m = 1
  together : ∀ tied ∈ tiedModules, ∀ m ∈ tied.1, ∀ m' ∈ tied.1, m ∈ sizes.keys → m' ∈ sizes.keys →
    placement.get? m = placement.get? m'
  memory : ∀ d memory, maxMemory[d]? = some memory → needOn sizes tiedModules (fun m => placement.get? m = some d) ≤ memory

/-! ## What the sizes, the groups and the memories have to be -/

def firstOf (sizes : ModuleSizes) (tied : TiedGroup) : Option String := sizes.keys.find? fun module => module ∈ tied.1

def firstGroup (tiedModules : List TiedGroup) (m : String) : Option TiedGroup := tiedModules.find? fun tied => m ∈ tied.1

def headOf (sizes : ModuleSizes) (tiedModules : List TiedGroup) (m : String) : String :=
  ((firstGroup tiedModules m).bind (firstOf sizes)).getD m

/-- The modules that are their own heads, in the order of the input. -/
def headModules (sizes : ModuleSizes) (tiedModules : List TiedGroup) : List String :=
  sizes.keys.filter fun m => headOf sizes tiedModules m = m

def SameFirst (sizes : ModuleSizes) (tiedModules : List TiedGroup) : Prop :=
  ∀ tied ∈ tiedModules, ∀ tied' ∈ tiedModules, ∀ m ∈ sizes.keys, m ∈ tied.1 → m ∈ tied'.1 →
    firstOf sizes tied = firstOf sizes tied'

instance (sizes : ModuleSizes) (tiedModules : List TiedGroup) : Decidable (SameFirst sizes tiedModules) :=
  inferInstanceAs (Decidable (∀ tied ∈ tiedModules, ∀ tied' ∈ tiedModules, ∀ m ∈ sizes.keys, m ∈ tied.1 → m ∈ tied'.1 →
    firstOf sizes tied = firstOf sizes tied'))

def needWith (sizes : ModuleSizes) (tiedModules : List TiedGroup) (head : String) : Int :=
  needOn sizes tiedModules fun m => headOf sizes tiedModules m = head

def sharedOf (tiedModules : List TiedGroup) (m : String) : Int := ((firstGroup tiedModules m).map Prod.snd).getD 0

/-- The size that is compared with the memories: that of a head, and those of its modules without what they share. Where two
groups list the same two modules, only what the first of them shares is taken off. -/
def mergedSize (sizes : ModuleSizes) (tiedModules : List TiedGroup) (head : String) : Int :=
  (sizes.entries.map fun e =>
    if headOf sizes tiedModules e.1 = head then e.2 - (if e.1 = head then 0 else sharedOf tiedModules e.1) else 0).sum

/-- Modules, each with its size and its need, are cut into runs, one for each memory: a module alone is as large as its memory
at most, the first one of the next run is larger, and a run needs no more than its memory. -/
def CutsToFit : List Int → List (Int × Int) → Prop
  | [], modules => modules = []
  | memory :: memories, modules => ∃ run rest, modules = run ++ rest ∧ (∀ m ∈ run, m.1 ≤ memory) ∧
      (∀ m ∈ rest.head?, memory < m.1) ∧ (run.map snd).sum ≤ memory ∧ CutsToFit memories rest

structure SequentialFits (maxMemory : List Int) (sizes : ModuleSizes) (tiedModules : List TiedGroup) : Prop where
  sameFirst : SameFirst sizes tiedModules
  cuts : CutsToFit maxMemory
    ((headModules sizes tiedModules).map fun m => (mergedSize sizes tiedModules m, needWith sizes tiedModules m))

variable {sizes : ModuleSizes} {tiedModules : List TiedGroup} {tied : TiedGroup} {m : String}

theorem SameFirst.of_concat (h : SameFirst sizes (tiedModules ++ [tied])) : SameFirst sizes tiedModules :=
  fun t ht t' ht' => h t (mem_append_left _ ht) t' (mem_append_left _ ht')

theorem firstOf_eq_none_iff : firstOf sizes tied = none ↔ ∀ m ∈ sizes.keys, m ∉ tied.1 := by
  simp [firstOf]

theorem firstGroup_eq_none_iff : firstGroup tiedModules m = none ↔ ∀ tied ∈ tiedModules, m ∉ tied.1 := by
  simp [firstGroup]

theorem firstGroup_mem (h : firstGroup tiedModules m = some tied) : tied ∈ tiedModules ∧ m ∈ tied.1 :=
  ⟨mem_of_find?_eq_some h, by simpa using find?_some h⟩

/-- Every group of a module has its head as first module. -/
theorem SameFirst.firstOf_eq (h : SameFirst sizes tiedModules) (hm : m ∈ sizes.keys) (htied : tied ∈ tiedModules)
    (hmt : m ∈ tied.1) : firstOf sizes tied = some (headOf sizes tiedModules m) := by
  cases ht : firstGroup tiedModules m with
  | none => exact absurd hmt (firstGroup_eq_none_iff.1 ht tied htied)
  | some t =>
    have hsame := h t (firstGroup_mem ht).1 tied htied m hm (firstGroup_mem ht).2 hmt
    cases hfirst : firstOf sizes tied with
    | none => exact absurd hmt (firstOf_eq_none_iff.1 hfirst m hm)
    | some x => simp [headOf, ht, hsame, hfirst]

/-- A module that no group lists is its own head. -/
theorem headOf_of_none (h : firstGroup tiedModules m = none) : headOf sizes tiedModules m = m := by simp [headOf, h]

/-- The first module of a group is its own head. -/
theorem SameFirst.headOf_first (h : SameFirst sizes tiedModules) (htied : tied ∈ tiedModules) {x : String}
    (hx : firstOf sizes tied = some x) : x ∈ sizes.keys ∧ x ∈ tied.1 ∧ headOf sizes tiedModules x = x := by
  have hmem := mem_of_find?_eq_some hx
  have hxt : x ∈ tied.1 := by simpa using find?_some hx
  exact ⟨hmem, hxt, some.inj ((h.firstOf_eq hmem htied hxt).symm.trans hx)⟩

/-- The head of an input module is one, and its own head. -/
theorem SameFirst.headOf_mem (h : SameFirst sizes tiedModules) (hm : m ∈ sizes.keys) :
    headOf sizes tiedModules m ∈ headModules sizes tiedModules := by
  cases ht : firstGroup tiedModules m with
  | none => exact mem_filter.2 ⟨(headOf_of_none ht).symm ▸ hm, by simp [headOf_of_none ht]⟩
  | some tied =>
    obtain ⟨htied, hmt⟩ := firstGroup_mem ht
    obtain ⟨hmem, -, hself⟩ := h.headOf_first htied (h.firstOf_eq hm htied hmt)
    exact mem_filter.2 ⟨hmem, by simpa using hself⟩

/-! ## What the modules of several heads need -/

/-- Two sets that split no group need together what each of them needs. -/
theorem needOn_or {on on' : String → Prop} [DecidablePred on] [DecidablePred on'] (hapart : ∀ m, on m → ¬on' m)
    (hwhole : ∀ tied ∈ tiedModules, (∀ m ∈ sizes.keys, m ∈ tied.1 → ¬on m) ∨ ∀ m ∈ sizes.keys, m ∈ tied.1 → ¬on' m) :
    needOn sizes tiedModules (fun m => on m ∨ on' m) = needOn sizes tiedModules on + needOn sizes tiedModules on' := by
  have hentries : ∀ l : List (String × Int), ((l.filter fun e => on e.1 ∨ on' e.1).map snd).sum =
      ((l.filter fun e => on e.1).map snd).sum + ((l.filter fun e => on' e.1).map snd).sum := by
    intro l
    induction l with
    | nil => rfl
    | cons e l ih =>
      by_cases hon : on e.1
      · have hno := hapart _ hon
        simp [hon, hno] at ih ⊢
        omega
      · by_cases hon' : on' e.1 <;> simp [hon, hon'] at ih ⊢ <;> omega
  have hgroups : (tiedModules.map fun tied =>
        (((sizes.keys.filter fun m => m ∈ tied.1 ∧ (on m ∨ on' m)).length - 1 : Nat) : Int) * tied.2) =
      tiedModules.map fun tied => (((sizes.keys.filter fun m => m ∈ tied.1 ∧ on m).length - 1 : Nat) : Int) * tied.2 +
        (((sizes.keys.filter fun m => m ∈ tied.1 ∧ on' m).length - 1 : Nat) : Int) * tied.2 := by
    refine map_congr_left fun tied htied => ?_
    rcases hwhole tied htied with hnone | hnone
    · have hno : (sizes.keys.filter fun m => m ∈ tied.1 ∧ on m) = [] := by simpa using hnone
      have hor : (sizes.keys.filter fun m => m ∈ tied.1 ∧ (on m ∨ on' m)) = sizes.keys.filter fun m => m ∈ tied.1 ∧ on' m :=
        filter_congr fun m hm => decide_eq_decide.2 (and_congr_right fun hmt => or_iff_right (hnone m hm hmt))
      rw [hor, hno]
      simp only [length_nil, Nat.zero_sub, Nat.cast_zero, zero_mul, zero_add]
    · have hno : (sizes.keys.filter fun m => m ∈ tied.1 ∧ on' m) = [] := by simpa using hnone
      have hor : (sizes.keys.filter fun m => m ∈ tied.1 ∧ (on m ∨ on' m)) = sizes.keys.filter fun m => m ∈ tied.1 ∧ on m :=
        filter_congr fun m hm => decide_eq_decide.2 (and_congr_right fun hmt => or_iff_left (hnone m hm hmt))
      rw [hor, hno]
      simp only [length_nil, Nat.zero_sub, Nat.cast_zero, zero_mul, add_zero]
  unfold needOn
  rw [hgroups, sum_map_add, hentries]
  omega

/-- The modules of several heads need what the heads need with their own modules. -/
theorem needOn_heads (h : SameFirst sizes tiedModules) {heads : List String} (hnd : heads.Nodup) :
    needOn sizes tiedModules (fun m => headOf sizes tiedModules m ∈ heads) = (heads.map (needWith sizes tiedModules)).sum := by
  induction heads with
  | nil => simp [needOn]
  | cons x heads ih =>
    obtain ⟨hx, hnd⟩ := nodup_cons.1 hnd
    rw [map_cons, sum_cons, ← ih hnd, needWith, ← needOn_or]
    · exact needOn_congr _ _ fun m _ => mem_cons
    · rintro m rfl
      exact hx
    · intro tied htied
      by_cases hfirst : firstOf sizes tied = some x
      · refine .inr fun m hm hmt hmem => hx ?_
        rwa [← some.inj ((h.firstOf_eq hm htied hmt).symm.trans hfirst)]
      · exact .inl fun m hm hmt hhead => hfirst (hhead ▸ h.firstOf_eq hm htied hmt)

/-! ## The merged modules -/

/-- The modules that are left when every group is merged into its first module. -/
def mergedModules (sizes : ModuleSizes) (tiedModules : List TiedGroup) : ModuleSizes := tiedModules.foldl mergeTied sizes

theorem firstGroup_concat : firstGroup (tiedModules ++ [tied]) m =
    if firstGroup tiedModules m = none ∧ m ∈ tied.1 then some tied else firstGroup tiedModules m := by
  have happ : firstGroup (tiedModules ++ [tied]) m = (firstGroup tiedModules m).or (firstGroup [tied] m) := find?_append
  rw [happ]
  cases firstGroup tiedModules m <;> by_cases hm : m ∈ tied.1 <;> simp [firstGroup, hm]

/-- One group more gives its first module as head to those that no group before it lists. -/
theorem headOf_concat {x : String} (hx : firstOf sizes tied = some x) : headOf sizes (tiedModules ++ [tied]) m =
    if firstGroup tiedModules m = none ∧ m ∈ tied.1 then x else headOf sizes tiedModules m := by
  rw [headOf, firstGroup_concat]
  split
  · rw [bind_some, hx, getD_some]
  · rfl

theorem sharedOf_concat : sharedOf (tiedModules ++ [tied]) m =
    if firstGroup tiedModules m = none ∧ m ∈ tied.1 then tied.2 else sharedOf tiedModules m := by
  rw [sharedOf, firstGroup_concat]
  split <;> rfl

/-- A module that no group lists is merged with none. -/
theorem mergedSize_of_none (hnone : firstGroup tiedModules m = none) {size : Int} (hsize : sizes.get? m = some size) :
    mergedSize sizes tiedModules m = size := by
  have hhead : ∀ n, headOf sizes tiedModules n = m ↔ n = m := by
    intro n
    constructor
    · intro hn
      unfold headOf at hn
      cases ht : firstGroup tiedModules n with
      | none => simpa [ht] using hn
      | some t =>
        cases hfirst : firstOf sizes t with
        | none => simpa [ht, hfirst] using hn
        | some x =>
          obtain rfl : x = m := by simpa [ht, hfirst] using hn
          exact absurd (by simpa using find?_some hfirst) (firstGroup_eq_none_iff.1 hnone t (firstGroup_mem ht).1)
    · rintro rfl
      exact headOf_of_none hnone
  obtain ⟨before, after, hspl⟩ := append_of_mem (mem_entries_iff.2 hsize)
  have hnd := sizes.nodup
  rw [hspl, map_append, map_cons, nodup_append, nodup_cons] at hnd
  have hzero : ∀ l : List (String × Int), m ∉ l.map fst → (l.map fun e =>
      if e.1 = m then e.2 - (if e.1 = m then 0 else sharedOf tiedModules e.1) else 0).sum = 0 := by
    intro l hl
    refine sum_eq_zero fun v hv => ?_
    obtain ⟨e, he, rfl⟩ := mem_map.1 hv
    exact if_neg fun heq : e.1 = m => hl (heq ▸ mem_map_of_mem he)
  simp only [mergedSize, hhead, hspl, map_append, map_cons, sum_append, sum_cons, if_true, sub_zero]
  rw [hzero before fun hm => hnd.2.2 m hm m mem_cons_self rfl, hzero after hnd.2.1.1]
  omega

/-- The loop over the other modules of a group adds their sizes up and takes them away. -/
theorem foldl_others (shared : Int) {others : List String} (hnd : others.Nodup) (size : Int) (modules : ModuleSizes) :
    ∃ merged : ModuleSizes, others.foldl
        (fun acc m => (acc.1 + ((acc.2.get? m).getD 0 - shared), acc.2.erase m)) (size, modules) =
          (size + (others.map fun m => (modules.get? m).getD 0 - shared).sum, merged) ∧
      merged.keys = (modules.keys.filter fun m => m ∉ others) ∧ ∀ m ∉ others, merged.get? m = modules.get? m := by
  induction others generalizing size modules with
  | nil => exact ⟨modules, by simp, by simp, fun _ _ => rfl⟩
  | cons n others ih =>
    obtain ⟨hn, hnd⟩ := nodup_cons.1 hnd
    obtain ⟨merged, hfold, hkeys, hget⟩ := ih hnd (size + ((modules.get? n).getD 0 - shared)) (modules.erase n)
    refine ⟨merged, ?_, ?_, ?_⟩
    · have hrest : (others.map fun m => ((modules.erase n).get? m).getD 0 - shared) =
          others.map fun m => (modules.get? m).getD 0 - shared := by
        refine map_congr_left fun m hm => ?_
        rw [get?_erase, if_neg]
        rintro rfl
        exact hn hm
      rw [foldl_cons, hfold, hrest, map_cons, sum_cons, add_assoc]
    · rw [hkeys, keys_erase, List.filter_filter]
      exact filter_congr fun m _ => by simp [Bool.and_comm]
    · intro m hm
      obtain ⟨hne, hm⟩ := not_or.1 (mem_cons.not.1 hm)
      rw [hget m hm, get?_erase, if_neg hne]

/-- The first module of a group is left with the sizes of all of them, and the others are gone. -/
theorem mergeTied_spec {modules : ModuleSizes} {x : String} (hfind : modules.keys.find? (fun m => m ∈ tied.1) = some x) :
    (mergeTied modules tied).keys = (modules.keys.filter fun m => m ∈ tied.1 → m = x) ∧
      ∀ m ∈ (mergeTied modules tied).keys, (mergeTied modules tied).get? m = if m = x then
        some ((modules.get? x).getD 0 +
          ((modules.keys.filter fun m => m ∈ tied.1 ∧ m ≠ x).map fun m => (modules.get? m).getD 0 - tied.2).sum)
        else modules.get? m := by
  obtain ⟨merged, hfold, hkeys, hget⟩ := foldl_others tied.2
    (modules.nodup.filter fun m => m ∈ tied.1 ∧ m ≠ x) ((modules.get? x).getD 0) modules
  have hmerge : mergeTied modules tied = merged.set x ((modules.get? x).getD 0 +
      ((modules.keys.filter fun m => m ∈ tied.1 ∧ m ≠ x).map fun m => (modules.get? m).getD 0 - tied.2).sum) := by
    unfold mergeTied
    rw [hfind]
    exact congrArg (fun p : Int × ModuleSizes => p.2.set x p.1) hfold
  have hleft : merged.keys = modules.keys.filter fun m => m ∈ tied.1 → m = x := by
    rw [hkeys]
    refine filter_congr fun m hm => decide_eq_decide.2 ?_
    simp only [mem_filter, decide_eq_true_eq]
    tauto
  have hx : x ∈ merged.keys := by
    rw [hleft]
    exact mem_filter.2 ⟨mem_of_find?_eq_some hfind, by simp⟩
  rw [hmerge, keys_set, if_pos hx]
  refine ⟨hleft, fun m hm => ?_⟩
  rw [get?_set]
  split
  · rfl
  · rw [hkeys, mem_filter] at hm
    exact hget m (of_decide_eq_true hm.2)

/-- The first module of a group is still there when the groups before it are merged. -/
theorem SameFirst.find?_headModules (h : SameFirst sizes (tiedModules ++ [tied])) :
    (headModules sizes tiedModules).find? (fun m => m ∈ tied.1) = firstOf sizes tied := by
  cases hfirst : firstOf sizes tied with
  | none =>
    exact find?_eq_none.2 fun m hm => by simpa using firstOf_eq_none_iff.1 hfirst m (mem_of_mem_filter hm)
  | some x =>
    obtain ⟨hxt, before, after, hkeys, hbefore⟩ := find?_eq_some_iff_append.1 hfirst
    have hxk : x ∈ sizes.keys := mem_of_find?_eq_some hfirst
    have hself : headOf sizes tiedModules x = x := by
      have hx := (h.headOf_first (by simp) hfirst).2.2
      rw [headOf_concat hfirst] at hx
      split at hx
      · next hnew => exact headOf_of_none hnew.1
      · exact hx
    rw [headModules, find?_filter, find?_eq_some_iff_append]
    refine ⟨by simpa [hself] using hxt, before, after, hkeys, fun m hm => ?_⟩
    have := hbefore m hm
    simp only [not_eq_true', decide_eq_false_iff_not] at this
    simp [this]

/-- A module that a group takes in was its own head if and only if no group before it lists the module. -/
theorem SameFirst.headOf_eq_self_iff (h : SameFirst sizes (tiedModules ++ [tied])) {x : String}
    (hfirst : firstOf sizes tied = some x) (hm : m ∈ sizes.keys) (hmt : m ∈ tied.1) (hne : m ≠ x) :
    headOf sizes tiedModules m = m ↔ firstGroup tiedModules m = none := by
  refine ⟨fun hself => firstGroup_eq_none_iff.2 fun t ht hmem => hne ?_, headOf_of_none⟩
  have hhead := h.of_concat.firstOf_eq hm ht hmem
  rw [h t (mem_append_left _ ht) tied (by simp) m hm hmem hmt, hfirst, hself] at hhead
  exact (some.inj hhead).symm

theorem SameFirst.headModules_concat (h : SameFirst sizes (tiedModules ++ [tied])) {x : String}
    (hfirst : firstOf sizes tied = some x) :
    headModules sizes (tiedModules ++ [tied]) = (headModules sizes tiedModules).filter fun m => m ∈ tied.1 → m = x := by
  rw [headModules, headModules, List.filter_filter]
  refine filter_congr fun m hm => ?_
  rw [headOf_concat hfirst, ← decide_and]
  refine decide_eq_decide.2 ?_
  by_cases hmt : m ∈ tied.1
  · by_cases hne : m = x
    · subst hne
      have hself := (h.headOf_first (by simp) hfirst).2.2
      rw [headOf_concat hfirst] at hself
      grind [headOf_of_none]
    · have := h.headOf_eq_self_iff hfirst hm hmt hne
      grind
  · simp [hmt]

/-- Merging one group more adds the sizes of those that it takes in, without what they share, to that of its first module. -/
theorem SameFirst.mergedSize_concat (h : SameFirst sizes (tiedModules ++ [tied])) {x y : String}
    (hfirst : firstOf sizes tied = some x) (hy : y ∈ headModules sizes (tiedModules ++ [tied])) :
    mergedSize sizes (tiedModules ++ [tied]) y = mergedSize sizes tiedModules y + (if y = x then
      (sizes.entries.map fun e => if e.1 ∈ tied.1 ∧ e.1 ≠ x ∧ headOf sizes tiedModules e.1 = e.1 then e.2 - tied.2 else 0).sum
      else 0) := by
  have hself : headOf sizes (tiedModules ++ [tied]) y = y := of_decide_eq_true (mem_filter.1 hy).2
  have hterm : ∀ e ∈ sizes.entries,
      (if headOf sizes (tiedModules ++ [tied]) e.1 = y then
        e.2 - (if e.1 = y then 0 else sharedOf (tiedModules ++ [tied]) e.1) else 0) =
      (if headOf sizes tiedModules e.1 = y then e.2 - (if e.1 = y then 0 else sharedOf tiedModules e.1) else 0) +
        if y = x then (if e.1 ∈ tied.1 ∧ e.1 ≠ x ∧ headOf sizes tiedModules e.1 = e.1 then e.2 - tied.2 else 0) else 0 := by
    intro e he
    have hm : e.1 ∈ sizes.keys := mem_map_of_mem he
    rw [headOf_concat hfirst, sharedOf_concat]
    by_cases hmt : e.1 ∈ tied.1
    · have hown := h.headOf_eq_self_iff hfirst hm hmt
      by_cases hnone : firstGroup tiedModules e.1 = none
      · -- the group takes this module in
        have hhead := @headOf_of_none sizes _ _ hnone
        rw [headOf_concat hfirst] at hself
        grind
      · grind
    · simp [hmt]
  have hsum : ∀ P : Prop, [Decidable P] → ∀ f : String × Int → Int, (sizes.entries.map fun e => if P then f e else 0).sum =
      if P then (sizes.entries.map f).sum else 0 := by
    intro P _ f
    split <;> simp
  unfold mergedSize
  rw [map_congr_left hterm, sum_map_add, hsum]

theorem sum_map_filter_fst (l : List (String × Int)) (p : String → Prop) [DecidablePred p] (f : String → Int) :
    (((l.map fst).filter fun m => p m).map f).sum = (l.map fun e => if p e.1 then f e.1 else 0).sum := by
  induction l with
  | nil => rfl
  | cons e l ih => by_cases hp : p e.1 <;> simp [hp, ih]

/-- The modules that are left are the heads, with their merged sizes. -/
theorem SameFirst.mergedModules_spec (h : SameFirst sizes tiedModules) :
    (mergedModules sizes tiedModules).keys = headModules sizes tiedModules ∧
      ∀ m ∈ headModules sizes tiedModules, (mergedModules sizes tiedModules).get? m =
        some (mergedSize sizes tiedModules m) := by
  induction tiedModules using reverseRecOn with
  | nil =>
    refine ⟨by simp [mergedModules, headModules, headOf, firstGroup], fun m hm => ?_⟩
    obtain ⟨size, hsize⟩ := mem_keys_iff.1 (mem_of_mem_filter hm)
    rw [mergedSize_of_none rfl hsize, mergedModules, foldl_nil, hsize]
  | append_singleton done tied ih =>
    obtain ⟨hkeys, hget⟩ := ih h.of_concat
    have hfind : (mergedModules sizes done).keys.find? (fun m => m ∈ tied.1) = firstOf sizes tied := by
      rw [hkeys, h.find?_headModules]
    have hstep : mergedModules sizes (done ++ [tied]) = mergeTied (mergedModules sizes done) tied := by
      rw [mergedModules, mergedModules, foldl_append, foldl_cons, foldl_nil]
    rw [hstep]
    cases hfirst : firstOf sizes tied with
    | none =>
      have hnone := firstOf_eq_none_iff.1 hfirst
      have hgroup : ∀ m ∈ sizes.keys, firstGroup (done ++ [tied]) m = firstGroup done m :=
        fun m hm => firstGroup_concat.trans (if_neg fun h => hnone m hm h.2)
      have hheads : headModules sizes (done ++ [tied]) = headModules sizes done :=
        filter_congr fun m hm => by rw [headOf, hgroup m hm, headOf]
      have hsize : ∀ m, mergedSize sizes (done ++ [tied]) m = mergedSize sizes done m := by
        intro m
        refine congrArg sum (map_congr_left fun e he => ?_)
        rw [headOf, sharedOf, hgroup e.1 (mem_map_of_mem he), headOf, sharedOf]
      have hmerge : mergeTied (mergedModules sizes done) tied = mergedModules sizes done := by
        rw [mergeTied, hfind, hfirst]
      rw [hmerge, hheads]
      exact ⟨hkeys, fun m hm => (hget m hm).trans (congrArg some (hsize m).symm)⟩
    | some x =>
      obtain ⟨hleft, hval⟩ := mergeTied_spec (hfind.trans hfirst)
      rw [hkeys, ← h.headModules_concat hfirst] at hleft
      refine ⟨hleft, fun m hm => ?_⟩
      rw [hval m (hleft ▸ hm), h.mergedSize_concat hfirst hm]
      have hold : m ∈ headModules sizes done := by
        rw [h.headModules_concat hfirst] at hm
        exact mem_of_mem_filter hm
      by_cases hmx : m = x
      · subst hmx
        rw [if_pos rfl, if_pos rfl, hget m hold, getD_some, hkeys]
        congr 2
        have htaken : ((headModules sizes done).filter fun n => n ∈ tied.1 ∧ n ≠ m) =
            (sizes.entries.map fst).filter fun n => n ∈ tied.1 ∧ n ≠ m ∧ headOf sizes done n = n := by
          rw [headModules, List.filter_filter]
          exact filter_congr fun n _ => by simp [Bool.and_assoc]
        rw [htaken, sum_map_filter_fst]
        refine congrArg sum (map_congr_left fun e he => ?_)
        split
        · next hown =>
          -- what is taken in has its own size until then
          have hk : e.1 ∈ sizes.keys := mem_map_of_mem he
          have hunlisted := (h.headOf_eq_self_iff hfirst hk hown.1 hown.2.1).1 hown.2.2
          rw [hget e.1 (mem_filter.2 ⟨hk, by simpa using hown.2.2⟩), getD_some,
            mergedSize_of_none hunlisted (mem_entries_iff.1 he)]
        · rfl
      · rw [if_neg hmx, if_neg hmx, add_zero, hget m hold]

/-! ## The modules of a group -/

section Ties

variable {δ : Type} {placement placed : Dict String δ} {tiedGroups : List String} {x : String} {d : δ}

/-- The modules of a group get the device of a module of it. -/
theorem get?_tieTo (hx : x ∈ tiedGroups) (hd : placement.get? x = some d) (m : String) :
    (tieTo tiedGroups placement x).get? m = if m ∈ tiedGroups then some d else placement.get? m := by
  rw [tieTo, if_pos hx]
  clear hx
  induction tiedGroups generalizing placement with
  | nil => simp
  | cons n tiedGroups ih =>
    rw [foldl_cons]
    by_cases hn : n = x
    · subst hn
      rw [if_neg (not_not.2 rfl), ih hd]
      grind
    · simp only [hd, ne_eq, hn, not_false_eq_true, if_true]
      rw [ih (by rw [get?_set_of_ne _ _ (Ne.symm hn), hd]), get?_set]
      grind

/-- A module outside of the group stays where it is, and no module leaves its place in the order. -/
theorem tieTo_frame (tiedGroups : List String) (placement : Dict String δ) (x : String) :
    (∀ m ∉ tiedGroups, (tieTo tiedGroups placement x).get? m = placement.get? m) ∧
      placement.keys <+: (tieTo tiedGroups placement x).keys := by
  unfold tieTo
  split
  · next hx =>
    clear hx
    induction tiedGroups generalizing placement with
    | nil => exact ⟨fun _ _ => rfl, prefix_rfl⟩
    | cons n tiedGroups ih =>
      rw [foldl_cons]
      have hset : ∀ device, placement.keys <+: (placement.set n device).keys := by
        intro device
        rw [keys_set]
        split
        · exact prefix_rfl
        · exact prefix_append _ _
      refine ⟨fun m hm => ?_, IsPrefix.trans ?_ (ih _).2⟩
      · obtain ⟨hne, hm⟩ := not_or.1 (mem_cons.not.1 hm)
        rw [(ih _).1 m hm]
        split
        · split
          · rfl
          · exact get?_set_of_ne _ _ hne
        · rfl
      · split
        · split
          · exact prefix_rfl
          · exact hset _
        · exact prefix_rfl
  · exact ⟨fun _ _ => rfl, prefix_rfl⟩

theorem reassignTied_frame (placement : Dict String δ) (tied : TiedGroup) :
    (∀ m ∉ tied.1, (reassignTied placement tied).get? m = placement.get? m) ∧
      placement.keys <+: (reassignTied placement tied).keys := by
  have hrun : ∀ (l : List String) (p : Dict String δ), (∀ m ∉ tied.1, (l.foldl (tieTo tied.1) p).get? m = p.get? m) ∧
      p.keys <+: (l.foldl (tieTo tied.1) p).keys := by
    intro l
    induction l with
    | nil => exact fun p => ⟨fun _ _ => rfl, prefix_rfl⟩
    | cons y l ih =>
      intro p
      obtain ⟨hget, hkeys⟩ := tieTo_frame tied.1 p y
      obtain ⟨hget', hkeys'⟩ := ih (tieTo tied.1 p y)
      exact ⟨fun m hm => (hget' m hm).trans (hget m hm), hkeys.trans hkeys'⟩
  exact hrun placement.keys placement

/-- When the first module of the order that the group lists is placed, all of the group get its device. -/
theorem get?_reassignTied {first extra : List String} {tied : TiedGroup}
    (hkeys : placement.keys = first ++ extra) (hx : x ∈ first)
    (hxt : x ∈ tied.1) (hd : placement.get? x = some d) (honly : ∀ y ∈ first, y ∈ tied.1 → y = x) (hm : m ∈ tied.1) :
    (reassignTied placement tied).get? m = some d := by
  -- from then on the whole group has the device
  have hkeep : ∀ (l : List String) (p : Dict String δ), (∀ n ∈ tied.1, p.get? n = some d) →
      ∀ n ∈ tied.1, (l.foldl (tieTo tied.1) p).get? n = some d := by
    intro l
    induction l with
    | nil => exact fun p hp => hp
    | cons y l ih =>
      intro p hp
      refine ih _ fun n hn => ?_
      by_cases hy : y ∈ tied.1
      · rw [get?_tieTo hy (hp y hy), if_pos hn]
      · rw [tieTo, if_neg hy, hp n hn]
  have hrun : ∀ (l : List String) (p : Dict String δ), (∀ y ∈ l, y ∈ tied.1 → y = x) → p.get? x = some d → x ∈ l →
      ∀ n ∈ tied.1, (l.foldl (tieTo tied.1) p).get? n = some d := by
    intro l
    induction l with
    | nil => exact fun p _ _ hx => absurd hx not_mem_nil
    | cons y l ih =>
      intro p hl hp hx
      rw [foldl_cons]
      by_cases hy : y ∈ tied.1
      · obtain rfl := hl y mem_cons_self hy
        exact hkeep l _ fun n hn => by rw [get?_tieTo hy hp, if_pos hn]
      · rw [tieTo, if_neg hy]
        refine ih p (fun z hz => hl z (mem_cons_of_mem _ hz)) hp ((mem_cons.1 hx).resolve_left ?_)
        rintro rfl
        exact hy hxt
  rw [reassignTied, hkeys, foldl_append]
  exact hkeep extra _ (hrun first placement honly hd hx) m hm

/-- After some of the groups, a module that one of them lists has the device of its head, and any other has kept its own. -/
theorem SameFirst.get?_reassigned (h : SameFirst sizes tiedModules) (hplaced : placed.keys = headModules sizes tiedModules)
    {groups : List TiedGroup} (hgroups : ∀ tied ∈ groups, tied ∈ tiedModules) (hkeys : placed.keys <+: placement.keys)
    (hget : ∀ y ∈ placed.keys, placement.get? y = placed.get? y) (hm : m ∈ sizes.keys) :
    (groups.foldl reassignTied placement).get? m =
      if firstGroup groups m ≠ none then placed.get? (headOf sizes tiedModules m) else placement.get? m := by
  induction groups generalizing placement with
  | nil => rfl
  | cons tied groups ih =>
    obtain ⟨hframe, hpre⟩ := reassignTied_frame placement tied
    have htied : tied ∈ tiedModules := hgroups tied mem_cons_self
    have hrest : ∀ t ∈ groups, t ∈ tiedModules := fun t ht => hgroups t (mem_cons_of_mem _ ht)
    -- the input modules of the group go to the device of the head
    have hgroup : ∀ n ∈ sizes.keys, n ∈ tied.1 →
      (reassignTied placement tied).get? n = placed.get? (headOf sizes tiedModules n) := by
      intro n hn hnt
      have hfirst := h.firstOf_eq hn htied hnt
      have hhead : headOf sizes tiedModules n ∈ placed.keys := hplaced ▸ h.headOf_mem hn
      obtain ⟨d, hd⟩ := mem_keys_iff.1 hhead
      obtain ⟨extra, hextra⟩ := hkeys
      rw [hd]
      refine get?_reassignTied hextra.symm hhead (h.headOf_first htied hfirst).2.1 ((hget _ hhead).trans hd) ?_ hnt
      intro y hy hyt
      rw [hplaced] at hy
      obtain ⟨hyk, hself⟩ := mem_filter.1 hy
      have hfirst' := h.firstOf_eq hyk htied hyt
      rw [of_decide_eq_true hself] at hfirst'
      exact some.inj (hfirst'.symm.trans hfirst)
    rw [foldl_cons, ih hrest (hkeys.trans hpre)]
    · have hcons : firstGroup (tied :: groups) m = if m ∈ tied.1 then some tied else firstGroup groups m := by
        by_cases hmt : m ∈ tied.1 <;> simp [firstGroup, hmt]
      by_cases hmt : m ∈ tied.1
      · rw [hcons, if_pos hmt, hgroup m hm hmt, ite_self]
        rfl
      · rw [hcons, if_neg hmt, hframe m hmt]
    · intro y hy
      by_cases hyt : y ∈ tied.1
      · obtain ⟨hyk, hself⟩ := mem_filter.1 (hplaced ▸ hy)
        rw [hgroup y hyk hyt, of_decide_eq_true hself]
      · rw [hframe y hyt, hget y hy]

end Ties

/-! ## The loop -/

theorem takeWhile_run {memory : Int} {run rest : List (Int × Int)} (hrun : ∀ m ∈ run, m.1 ≤ memory)
    (hrest : ∀ m ∈ rest.head?, memory < m.1) : (run ++ rest).takeWhile (fun m => m.1 ≤ memory) = run := by
  rw [takeWhile_append_of_pos (by simpa using hrun)]
  cases rest with
  | nil => simp
  | cons m rest => rw [takeWhile_cons_of_neg (by simpa using hrest m rfl), append_nil]

/-- The run of a memory is the longest one whose modules are not larger. -/
theorem cutsToFit_append {memory : Int} {memories : List Int} {run rest : List (Int × Int)} (hrun : ∀ m ∈ run, m.1 ≤ memory)
    (hrest : ∀ m ∈ rest.head?, memory < m.1) :
    CutsToFit (memory :: memories) (run ++ rest) ↔ (run.map snd).sum ≤ memory ∧ CutsToFit memories rest := by
  constructor
  · rintro ⟨run', rest', hspl, hrun', hrest', hsum, hcuts⟩
    obtain rfl : run = run' := by rw [← takeWhile_run hrun hrest, hspl, takeWhile_run hrun' hrest']
    obtain rfl := append_cancel_left hspl
    exact ⟨hsum, hcuts⟩
  · rintro ⟨hsum, hcuts⟩
    exact ⟨run, rest, rfl, hrun, hrest, hsum, hcuts⟩

variable {deviceMemory : List Int}

/-- The loop places the modules one by one, none before the current device, and moves none that is placed. -/
theorem sequentialLoop_frame {l : List (String × Int)} {currentDevice : Nat} {map result : DeviceMap}
    (hnd : (map.keys ++ l.map fst).Nodup) (h : sequentialLoop deviceMemory l currentDevice map = .ok result) :
    result.keys = map.keys ++ l.map fst ∧ (∀ name ∈ map.keys, result.get? name = map.get? name) ∧
      ∀ e ∈ l, ∃ d, currentDevice ≤ d ∧ result.get? e.1 = some d := by
  induction l generalizing currentDevice map with
  | nil =>
    obtain rfl : map = result := ok.inj h
    exact ⟨by simp, fun _ _ => rfl, by simp⟩
  | cons entry l ih =>
    obtain ⟨module, size⟩ := entry
    simp only [sequentialLoop] at h
    split at h
    · cases h
    · split at h
      · have hnew : module ∉ map.keys := fun hmem => (nodup_append.1 hnd).2.2 module hmem module (by simp) rfl
        have hks : (map.set module (nextDevice deviceMemory size currentDevice)).keys = map.keys ++ [module] := by
          rw [keys_set, if_neg hnew]
        have hcur : currentDevice ≤ nextDevice deviceMemory size currentDevice := Nat.le_add_right _ _
        obtain ⟨hkeys, hget, hlater⟩ := ih (by rw [hks]; simpa using hnd) h
        rw [hks] at hkeys hget
        refine ⟨by simpa using hkeys, ?_, ?_⟩
        · intro name hname
          rw [hget name (by simp [hname]), get?_set_of_ne]
          rintro rfl
          exact hnew hname
        · intro e he
          rcases mem_cons.1 he with rfl | he
          · exact ⟨_, hcur, by rw [hget module (by simp), get?_set_self]⟩
          · obtain ⟨d, hd, hed⟩ := hlater e he
            exact ⟨d, hcur.trans hd, hed⟩
      · cases h

/-- A run of modules that are not larger than the memory of the current device goes there. -/
theorem sequentialLoop_run {currentDevice : Nat} {memory : Int} (hmemory : deviceMemory[currentDevice]? = some memory)
    {run rest : List (String × Int)} (hrun : ∀ e ∈ run, e.2 ≤ memory) (hrest : ∀ e ∈ rest.head?, memory < e.2)
      (map : DeviceMap) :
    sequentialLoop deviceMemory (run ++ rest) currentDevice map = sequentialLoop deviceMemory rest (currentDevice + 1)
      ((run.map fun e => (e.1, currentDevice)).foldl (fun map e => map.set e.1 e.2) map) := by
  have hdrop : deviceMemory.drop currentDevice = memory :: deviceMemory.drop (currentDevice + 1) := by
    obtain ⟨hlt, rfl⟩ := List.getElem?_eq_some_iff.1 hmemory
    exact drop_eq_getElem_cons hlt
  induction run generalizing map with
  | nil =>
    cases rest with
    | nil => rfl
    | cons e rest =>
      have hlarge : memory < e.2 := hrest e rfl
      have hnext : nextDevice deviceMemory e.2 currentDevice = nextDevice deviceMemory e.2 (currentDevice + 1) := by
        rw [nextDevice, hdrop, takeWhile_cons_of_pos (by simpa using hlarge), nextDevice, length_cons]
        omega
      rw [nil_append, sequentialLoop, sequentialLoop, hnext]
      rfl
  | cons e run ih =>
    have hfit : e.2 ≤ memory := hrun e mem_cons_self
    have hnext : nextDevice deviceMemory e.2 currentDevice = currentDevice := by
      rw [nextDevice, hdrop, takeWhile_cons_of_neg (by simpa using hfit), length_nil, Nat.add_zero]
    rw [cons_append, sequentialLoop, hnext, hmemory]
    simp only [if_pos hfit]
    rw [ih (fun e he => hrun e (mem_cons_of_mem _ he)), map_cons, foldl_cons]

/-- What the loop puts on the devices from the current one on fits them exactly when the modules are cut into runs that do. -/
theorem sequentialLoop_fits_iff (need : String → Int) {memories : List Int} {l : List (String × Int)} {currentDevice : Nat}
    {map result : DeviceMap} (hdrop : deviceMemory.drop currentDevice = memories) (hnd : (map.keys ++ l.map fst).Nodup)
    (h : sequentialLoop deviceMemory l currentDevice map = .ok result) :
    (∀ d memory, currentDevice ≤ d → deviceMemory[d]? = some memory →
        ((l.filter fun e => result.get? e.1 = some d).map fun e => need e.1).sum ≤ memory) ↔
      CutsToFit memories (l.map fun e => (e.2, need e.1)) := by
  induction memories generalizing currentDevice l map with
  | nil =>
    have hlen : deviceMemory.length ≤ currentDevice := drop_eq_nil_iff.1 hdrop
    have hnone : ∀ d, currentDevice ≤ d → deviceMemory[d]? = none := fun d hd => getElem?_eq_none (hlen.trans hd)
    have hempty : l = [] := by
      cases l with
      | nil => rfl
      | cons e l =>
        have hnext : deviceMemory[nextDevice deviceMemory e.2 currentDevice]? = none := hnone _ (Nat.le_add_right _ _)
        rw [sequentialLoop, hnext] at h
        cases h
    subst hempty
    simp only [CutsToFit, map_nil, iff_true]
    intro d memory hd hmemory
    simp [hnone d hd] at hmemory
  | cons memory memories ih =>
    have hmemory : deviceMemory[currentDevice]? = some memory := by
      have := congrArg (fun l => l[0]?) hdrop
      simpa using this
    have hdrop' : deviceMemory.drop (currentDevice + 1) = memories := by
      rw [← drop_drop, hdrop, drop_one, tail_cons]
    obtain ⟨run, rest, rfl, hrun, hrest⟩ : ∃ run rest, l = run ++ rest ∧ (∀ e ∈ run, e.2 ≤ memory) ∧ ∀ e ∈ rest.head?,
      memory < e.2 := by
      refine ⟨l.takeWhile fun e => e.2 ≤ memory, l.dropWhile fun e => e.2 ≤ memory, takeWhile_append_dropWhile.symm, ?_, ?_⟩
      · exact fun e he => by simpa using mem_takeWhile_imp he
      · intro e he
        have := head?_dropWhile_not (fun e : String × Int => decide (e.2 ≤ memory)) l
        simp only [mem_def.1 he] at this
        simpa using this
    rw [sequentialLoop_run hmemory hrun hrest] at h
    rw [map_append, ← append_assoc] at hnd
    have hfst : (run.map fun e => (e.1, currentDevice)).map fst = run.map fst := by
      rw [List.map_map]
      rfl
    have hentries := entries_foldl_set (l := run.map fun e => (e.1, currentDevice)) (d := map)
      (by rw [hfst]; exact hnd.sublist (sublist_append_left _ _))
    generalize (run.map fun e => (e.1, currentDevice)).foldl (fun map e => map.set e.1 e.2) map = map' at h hentries
    have hkeys : map'.keys = map.keys ++ run.map fst := by
      rw [Dict.keys, hentries, map_append, hfst]
      rfl
    rw [← hkeys] at hnd
    obtain ⟨-, hkept, hlater⟩ := sequentialLoop_frame hnd h
    have hhere : ∀ e ∈ run, result.get? e.1 = some currentDevice := by
      intro e he
      have hmem : (e.1, currentDevice) ∈ map'.entries := by
        rw [hentries]
        exact mem_append_right _ (mem_map_of_mem he)
      rw [hkept e.1 (mem_map_of_mem hmem), mem_entries_iff.1 hmem]
    -- the first device has the run, and those behind it have the rest
    have hfirst : ((run ++ rest).filter fun e => result.get? e.1 = some currentDevice) = run := by
      rw [filter_append, filter_eq_self.2 fun e he => by simpa using hhere e he, filter_eq_nil_iff.2, append_nil]
      intro e he
      obtain ⟨d, hd, hget⟩ := hlater e he
      simp only [hget, some.injEq, decide_eq_true_eq]
      omega
    have hbehind : ∀ d, currentDevice + 1 ≤ d → ((run ++ rest).filter fun e => result.get? e.1 = some d) =
        rest.filter fun e => result.get? e.1 = some d := by
      intro d hd
      rw [filter_append, filter_eq_nil_iff.2, nil_append]
      intro e he
      simp only [hhere e he, some.injEq, decide_eq_true_eq]
      omega
    have hrun' : ∀ m ∈ run.map fun e => (e.2, need e.1), m.1 ≤ memory := by
      intro m hm
      obtain ⟨e, he, rfl⟩ := mem_map.1 hm
      exact hrun e he
    have hrest' : ∀ m ∈ (rest.map fun e => (e.2, need e.1)).head?, memory < m.1 := by
      intro m hm
      rw [head?_map] at hm
      obtain ⟨e, he, rfl⟩ := map_eq_some_iff.1 hm
      exact hrest e he
    rw [map_append, cutsToFit_append hrun' hrest', ← ih hdrop' hnd h, List.map_map]
    constructor
    · intro hfits
      refine ⟨?_, fun d memory' hd hmemory' => ?_⟩
      · have hsum := hfits currentDevice memory le_rfl hmemory
        rw [hfirst] at hsum
        exact hsum
      · rw [← hbehind d hd]
        exact hfits d memory' (by omega) hmemory'
    · rintro ⟨hsum, hfits⟩ d memory' hd hmemory'
      rcases Nat.eq_or_lt_of_le hd with rfl | hd
      · obtain rfl : memory = memory' := some.inj (hmemory.symm.trans hmemory')
        rw [hfirst]
        exact hsum
      · rw [hbehind d hd]
        exact hfits d memory' hd hmemory'

/-! ## What the function returns -/

variable {maxMemory : List Int}

/-- No device is dropped unless all are: the first module fits the first device or none. -/
theorem dropDevices_eq (first : Option Int) (maxMemory : List Int) :
    dropDevices first maxMemory maxMemory.length = match first, maxMemory.head? with
      | some size, some memory => if size > memory then .error .stopIteration else .ok maxMemory
      | _, _ => .error .stopIteration := by
  cases first with
  | none => cases maxMemory <;> rfl
  | some size =>
    cases maxMemory with
    | nil => rfl
    | cons memory rest =>
      by_cases hgt : size > memory
      · -- a first module that is too large stays so
        have hlrg : ∀ n, dropDevices (some size) (memory :: rest) n = .error .stopIteration := by
          intro n
          induction n with
          | zero => rfl
          | succ n ih => simp [dropDevices, hgt, ih]
        simp [hlrg, hgt]
      · simp [dropDevices, hgt]

theorem dropDevices_ok {first : Option Int} {left : List Int}
    (h : dropDevices first maxMemory maxMemory.length = .ok left) : left = maxMemory := by
  rw [dropDevices_eq] at h
  split at h
  · split at h
    · cases h
    · exact (ok.inj h).symm
  · cases h

theorem sequentialLoop_of_placement {modules : ModuleSizes} {placed : DeviceMap}
    (h : getSequentialPlacement modules maxMemory = .ok (some placed)) :
    sequentialLoop maxMemory modules.entries 0 .empty = .ok placed := by
  unfold getSequentialPlacement at h
  dsimp only at h
  split at h
  · cases h
  · split at h
    · cases h
    · cases hloop : sequentialLoop maxMemory modules.entries 0 .empty with
      | error e => simp [hloop] at h
      | ok result => simpa [hloop] using h

/-- A placement that is returned is what the loop says of the merged modules, with the groups put together. -/
theorem placed_of_sequential {placement : DeviceMap}
    (h : computeDevicePlacementFromMapFast maxMemory sizes tiedModules (.named "sequential") = .ok placement) :
    ∃ placed, sequentialLoop maxMemory (mergedModules sizes tiedModules).entries 0 .empty = .ok placed ∧
      placement = tiedModules.foldl reassignTied placed := by
  unfold computeDevicePlacementFromMapFast at h
  dsimp only at h
  rw [if_neg (by decide)] at h
  cases hdrop : dropDevices ((tiedModules.foldl mergeTied sizes).entries.head?.map Prod.snd) maxMemory maxMemory.length with
  | error e =>
    simp only [hdrop, bind, Except.bind] at h
    cases h
  | ok left =>
    obtain rfl := dropDevices_ok hdrop
    simp only [hdrop, bind, Except.bind] at h
    split at h
    · cases h
    · rw [if_neg (by decide), if_neg (by decide)] at h
      cases hseq : getSequentialPlacement (tiedModules.foldl mergeTied sizes) left with
      | error e => simp [hseq] at h
      | ok result =>
        cases result with
        | none => simp [hseq] at h
        | some placed =>
          simp only [hseq] at h
          exact ⟨placed, sequentialLoop_of_placement hseq, (Except.ok.inj h).symm⟩

/-- Where groups that list the same module have the same first one, the memories are kept exactly when the runs fit. -/
theorem keepsMemory_iff {placement : DeviceMap} (h : SameFirst sizes tiedModules)
    (hok : computeDevicePlacementFromMapFast maxMemory sizes tiedModules (.named "sequential") = .ok placement) :
    KeepsMemory maxMemory sizes tiedModules placement ↔ CutsToFit maxMemory
      ((headModules sizes tiedModules).map fun m => (mergedSize sizes tiedModules m, needWith sizes tiedModules m)) := by
  obtain ⟨placed, hloop, rfl⟩ := placed_of_sequential hok
  obtain ⟨hkeys, hsizes⟩ := h.mergedModules_spec
  have hnd : (Dict.keys (.empty : DeviceMap) ++ (mergedModules sizes tiedModules).entries.map Prod.fst).Nodup := by
    simpa [Dict.keys] using (mergedModules sizes tiedModules).nodup
  have hplaced : placed.keys = headModules sizes tiedModules := (sequentialLoop_frame hnd hloop).1.trans hkeys
  -- every module has the device of its head
  have hget : ∀ m ∈ sizes.keys, (tiedModules.foldl reassignTied placed).get? m = placed.get? (headOf sizes tiedModules m) := by
    intro m hm
    rw [h.get?_reassigned hplaced (fun _ ht => ht) prefix_rfl (fun _ _ => rfl) hm]
    split
    · rfl
    · next hnone => rw [headOf_of_none (not_not.1 hnone)]
  have hentries : (mergedModules sizes tiedModules).entries =
      (headModules sizes tiedModules).map fun m => (m, mergedSize sizes tiedModules m) := by
    rw [← hkeys, Dict.keys, List.map_map]
    refine (map_id _).symm.trans (map_congr_left fun e he => Prod.ext rfl ?_)
    have hm : e.1 ∈ headModules sizes tiedModules := hkeys ▸ mem_map_of_mem he
    exact Option.some.inj ((Dict.mem_entries_iff.1 he).symm.trans (hsizes e.1 hm))
  have hneed : ∀ d, needOn sizes tiedModules (fun m => (tiedModules.foldl reassignTied placed).get? m = some d) =
      (((mergedModules sizes tiedModules).entries.filter fun e => placed.get? e.1 = some d).map
        fun e => needWith sizes tiedModules e.1).sum := by
    intro d
    have hheads : ((headModules sizes tiedModules).filter fun m => placed.get? m = some d).Nodup :=
      (sizes.nodup.filter _).filter _
    rw [hentries, List.filter_map, List.map_map]
    refine (needOn_congr sizes tiedModules fun m hm => ?_).trans (needOn_heads h hheads)
    rw [hget m hm, mem_filter, and_iff_right (h.headOf_mem hm)]
    exact decide_eq_true_iff.symm
  have hcuts := sequentialLoop_fits_iff (needWith sizes tiedModules) (drop_zero : maxMemory.drop 0 = maxMemory) hnd hloop
  rw [hentries, List.map_map] at hcuts
  refine Iff.trans ⟨fun hk d memory _ hmemory => ?_, fun hfits => ⟨fun m hm => ?_, ?_, fun d memory hmemory => ?_⟩⟩ hcuts
  · rw [← hentries, ← hneed d]
    exact hk.memory d memory hmemory
  · refine count_eq_one_of_mem (tiedModules.foldl reassignTied placed).nodup (Dict.mem_keys_iff.2 ?_)
    rw [hget m hm]
    exact Dict.mem_keys_iff.1 (hplaced ▸ h.headOf_mem hm)
  · intro tied htied m hm m' hm' hms hms'
    rw [hget m hms, hget m' hms', Option.some.inj ((h.firstOf_eq hms htied hm).symm.trans (h.firstOf_eq hms' htied hm'))]
  · rw [hneed d, hentries]
    exact hfits d memory (Nat.zero_le d) hmemory

/-- For every input on which the sequential placement returns: it keeps the memories and the ties where the groups agree on
their first modules and the runs fit; and where the groups agree, it does so only if the runs fit. -/
theorem sequential_keeps_memory_iff (maxMemory : List Int) (sizes : ModuleSizes) (tiedModules : List TiedGroup)
    (placement : DeviceMap)
    (h : computeDevicePlacementFromMapFast maxMemory sizes tiedModules (.named "sequential") = .ok placement) :
    (SequentialFits maxMemory sizes tiedModules → KeepsMemory maxMemory sizes tiedModules placement) ∧
      (SameFirst sizes tiedModules → KeepsMemory maxMemory sizes tiedModules placement →
        SequentialFits maxMemory sizes tiedModules) :=
  ⟨fun hfits => (keepsMemory_iff hfits.sameFirst h).2 hfits.cuts, fun hsame hk => ⟨hsame, (keepsMemory_iff hsame h).1 hk⟩⟩

/-- An embedding that is tied to a head and to an output, with a layer between them. -/
def tiedSizes : ModuleSizes := ⟨[("embed", 4), ("layer", 6), ("head", 4), ("out", 3)], by decide⟩

theorem sequential_keeps_memory_tied :
    KeepsMemory [5, 8] tiedSizes [(["embed", "head"], 4), (["out", "embed"], 2)]
      ⟨[("embed", 0), ("layer", 1), ("head", 0), ("out", 0)], by decide⟩ := by
  refine (sequential_keeps_memory_iff [5, 8] tiedSizes [(["embed", "head"], 4), (["out", "embed"], 2)] _ (by decide +kernel)).1
    ⟨by decide, [(5, 5)], [(6, 6)], by decide, by decide, by decide, by decide, [(6, 6)], [], rfl, ?_⟩
  exact ⟨by decide, by decide, by decide, rfl⟩

/-- Two modules of three bytes stand on one device of four. -/
theorem sequential_overfills :
    ¬∀ (maxMemory : List Int) (sizes : ModuleSizes) (tiedModules : List TiedGroup) (placement : DeviceMap),
      computeDevicePlacementFromMapFast maxMemory sizes tiedModules (.named "sequential") = .ok placement →
        KeepsMemory maxMemory sizes tiedModules placement := by
  intro hall
  have hkps := hall [4, 4] ⟨[("a", 3), ("b", 3)], by decide⟩ [] ⟨[("a", 0), ("b", 0)], by decide⟩ (by decide +kernel)
  exact absurd (hkps.memory 0 4 rfl) (by decide)

/-- The second group takes the first module of the first one away, and its other module is lost. -/
example : computeDevicePlacementFromMapFast [9] ⟨[("x", 1), ("a", 1), ("b", 1)], by decide⟩ [(["a", "b"], 0), (["x", "a"], 0)]
    (.named "sequential") = .ok ⟨[("x", 0), ("a", 0)], by decide⟩ := by decide +kernel

end ServerlessLLM
