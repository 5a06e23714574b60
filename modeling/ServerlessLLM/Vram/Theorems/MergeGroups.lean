import ServerlessLLM.Vram.MergeGroups
import Mathlib.Algebra.Order.BigOperators.Group.List
import Mathlib.Algebra.Order.Group.Nat

/-!
# Where the tensors of merged groups are

The loops cut the groups into runs: a group that is large enough is alone, a smaller one takes in the next ones until the sum
reaches `min_size`.
-/

namespace ServerlessLLM

open TensorGroupIndex List Function

def sumSizes (groups : List TensorGroupIndex) : Nat := (groups.map TensorGroupIndex.size).sum

@[simp] theorem sumSizes_nil : sumSizes [] = 0 := rfl

@[simp] theorem sumSizes_cons (g : TensorGroupIndex) (l : List TensorGroupIndex) : sumSizes (g :: l) = g.size + sumSizes l := by
  simp [sumSizes]

@[simp] theorem sumSizes_append (l l' : List TensorGroupIndex) : sumSizes (l ++ l') = sumSizes l + sumSizes l' := by
  simp [sumSizes]

/-- Each group starts where the one before it ends, the first one at `offset`. -/
def ContiguousFrom : Nat → List TensorGroupIndex → Prop
  | _, [] => True
  | offset, g :: rest => g.fileOffset = offset ∧ ContiguousFrom (offset + g.size) rest

theorem contiguousFrom_append {offset : Nat} {l l' : List TensorGroupIndex} :
    ContiguousFrom offset (l ++ l') ↔ ContiguousFrom offset l ∧ ContiguousFrom (offset + sumSizes l) l' := by
  induction l generalizing offset with
  | nil => simp [ContiguousFrom]
  | cons g l ih => simp [ContiguousFrom, ih, and_assoc, Nat.add_assoc]

/-- The tensors of a group in the file: their names, absolute positions and sizes. -/
def placesOf (g : TensorGroupIndex) : List (String × Nat × Nat) :=
  g.tensorIndexes.map fun t => (t.name, g.fileOffset + t.offset, t.size)

/-! ## Runs -/

abbrev GroupRun := TensorGroupIndex × List TensorGroupIndex

namespace GroupRun

def groups (run : GroupRun) : List TensorGroupIndex := run.1 :: run.2

def merged (run : GroupRun) : TensorGroupIndex := run.2.foldl (combine run.1.size) run.1

end GroupRun

open GroupRun

def runsFrom (minSize : Nat) : GroupRun → List TensorGroupIndex → List GroupRun
  | run, [] => [run]
  | run, next :: rest =>
    if sumSizes run.groups < minSize then runsFrom minSize (run.1, run.2 ++ [next]) rest
    else run :: runsFrom minSize (next, []) rest

def runsOf (minSize : Nat) : List TensorGroupIndex → List GroupRun
  | [] => []
  | g :: rest => runsFrom minSize (g, []) rest

variable (shift : Nat) (l : List TensorGroupIndex) (g : TensorGroupIndex) (run : GroupRun) (minSize : Nat)
  {offset : Nat}

theorem foldl_combine_fileOffset : (l.foldl (combine shift) g).fileOffset = g.fileOffset := by
  induction l generalizing g with
  | nil => rfl
  | cons h l ih => exact ih (combine shift g h)

theorem foldl_combine_size : (l.foldl (combine shift) g).size = g.size + sumSizes l := by
  induction l generalizing g with
  | nil => simp
  | cons h l ih => simp [ih, combine, Nat.add_assoc]

theorem foldl_combine_tensorIndexes :
    (l.foldl (combine shift) g).tensorIndexes = g.tensorIndexes ++ l.flatMap fun h => h.tensorIndexes.map (adjust shift) := by
  induction l generalizing g with
  | nil => simp
  | cons h l ih => simp [ih, combine]

@[simp] theorem GroupRun.merged_fileOffset : run.merged.fileOffset = run.1.fileOffset := foldl_combine_fileOffset _ _ _

@[simp] theorem GroupRun.merged_size : run.merged.size = sumSizes run.groups := by
  simp [merged, groups, foldl_combine_size]

theorem GroupRun.merged_concat (g : TensorGroupIndex) :
    merged (run.1, run.2 ++ [g]) = combine run.1.size run.merged g := by simp [merged]

theorem flatMap_runsFrom (run : GroupRun) (l : List TensorGroupIndex) :
    (runsFrom minSize run l).flatMap groups = run.groups ++ l := by
  induction l generalizing run with
  | nil => simp [runsFrom]
  | cons g l ih =>
    rw [runsFrom]
    split
    · simp [ih, groups]
    · simp [ih, groups]

theorem flatMap_runsOf (l : List TensorGroupIndex) : (runsOf minSize l).flatMap groups = l := by
  cases l with
  | nil => rfl
  | cons g l => exact flatMap_runsFrom minSize (g, []) l

theorem runsFrom_ne_nil (run : GroupRun) (l : List TensorGroupIndex) : runsFrom minSize run l ≠ [] := by
  induction l generalizing run with
  | nil => simp [runsFrom]
  | cons g l ih =>
    rw [runsFrom]
    split
    · exact ih _
    · simp

theorem le_of_mem_dropLast {minSize : Nat} {run : GroupRun} {l : List TensorGroupIndex} :
    ∀ r ∈ (runsFrom minSize run l).dropLast, minSize ≤ sumSizes r.groups := by
  induction l generalizing run with
  | nil => simp [runsFrom]
  | cons g l ih =>
    rw [runsFrom]
    split
    · exact ih
    · rename_i hlt
      rw [dropLast_cons_of_ne_nil (runsFrom_ne_nil _ _ _)]
      intro r hr
      rcases mem_cons.1 hr with rfl | hr
      · exact not_lt.1 hlt
      · exact ih r hr

/-! ## The loops cut the groups into runs -/

theorem foldNext_spec (run : GroupRun) (l : List TensorGroupIndex) :
    ∃ taken rest, l = taken ++ rest ∧ foldNext minSize run.1.size l run.merged =
      (merged (run.1, run.2 ++ taken), rest) ∧
      runsFrom minSize run l = (run.1, run.2 ++ taken) :: runsOf minSize rest ∧
      (rest = [] ∨ minSize ≤ sumSizes (run.groups ++ taken)) ∧ (sumSizes run.groups < minSize → l ≠ [] → taken ≠ []) := by
  induction l generalizing run with
  | nil => exact ⟨[], [], rfl, by simp [foldNext], by simp [runsFrom, runsOf], .inl rfl, by simp⟩
  | cons g l ih =>
    by_cases hlt : sumSizes run.groups < minSize
    · obtain ⟨taken, rest, rfl, hfold, hruns, hend, -⟩ := ih (run.1, run.2 ++ [g])
      refine ⟨g :: taken, rest, rfl, ?_, ?_, ?_, by simp⟩
      · rw [foldNext, merged_size, if_pos hlt, ← merged_concat, hfold]
        simp
      · rw [runsFrom, if_pos hlt, hruns]
        simp
      · simpa [groups] using hend
    · refine ⟨[], g :: l, rfl, ?_, ?_, .inr ?_, fun h => absurd h hlt⟩
      · rw [foldNext, merged_size, if_neg hlt]
        simp
      · rw [runsFrom, if_neg hlt]
        simp [runsOf]
      · simpa using hlt

theorem mergePass_of_le {minSize : Nat} {g : TensorGroupIndex} (h : minSize ≤ g.size) (fuel : Nat) (l : List TensorGroupIndex)
    (flag : Bool) : mergePass minSize (fuel + 1) (g :: l) flag =
      (mergePass minSize fuel l flag).map fun r => (g :: r.1, r.2) := by
  cases l <;> simp [mergePass, h]

theorem mergePass_of_lt {minSize : Nat} {g : TensorGroupIndex} (h : ¬minSize ≤ g.size) (fuel : Nat) (next : TensorGroupIndex)
    (l : List TensorGroupIndex) (flag : Bool) : mergePass minSize (fuel + 1) (g :: next :: l) flag =
      mergePass minSize fuel ((foldNext minSize g.size (next :: l) g).1 :: (foldNext minSize g.size (next :: l) g).2) true := by
  simp [mergePass, h]

theorem mergePass_spec {minSize n : Nat} {l : List TensorGroupIndex} (hn : l.length ≤ n) {fuel : Nat} (hfuel : 2 * n + 1 ≤ fuel)
    (flag : Bool) : mergePass minSize fuel l flag =
      some ((runsOf minSize l).map merged, flag || (runsOf minSize l).any fun run => run.2 ≠ []) := by
  induction n generalizing l fuel flag with
  | zero =>
    obtain rfl := length_eq_zero_iff.1 (Nat.le_zero.1 hn)
    obtain ⟨fuel, rfl⟩ := Nat.exists_eq_add_of_le' hfuel
    simp [mergePass, runsOf]
  | succ n ih =>
    obtain ⟨fuel, rfl⟩ : ∃ f, fuel = f + 2 := ⟨fuel - 2, by omega⟩
    cases l with
    | nil => simp [mergePass, runsOf]
    | cons g l =>
      rw [length_cons] at hn
      by_cases hle : minSize ≤ g.size
      · rw [mergePass_of_le hle, ih (by omega) (by omega)]
        cases l with
        | nil => simp [runsOf, runsFrom, merged]
        | cons h l =>
          have hlt : ¬sumSizes (groups (g, [])) < minSize := by simpa [groups] using hle
          simp [runsOf, runsFrom, hlt, merged]
      · cases l with
        | nil => simp [mergePass, hle, runsOf, runsFrom, merged]
        | cons h l =>
          obtain ⟨taken, rest, hl, hfold, hruns, hend, htaken⟩ := foldNext_spec minSize (g, []) (h :: l)
          have hne : taken ≠ [] := htaken (by simpa [groups] using hle) (by simp)
          have hfold' : foldNext minSize g.size (h :: l) g = (merged (g, taken), rest) :=
            by simpa [merged] using hfold
          have hlen : rest.length ≤ n := by
            have := congrArg length hl
            have := length_pos_iff.2 hne
            simp at *
            omega
          rw [mergePass_of_lt hle, hfold']
          have hruns' : runsOf minSize (g :: h :: l) = (g, taken) :: runsOf minSize rest := by simpa [runsOf] using hruns
          rw [hruns']
          by_cases hsz : minSize ≤ (merged (g, taken)).size
          · rw [mergePass_of_le hsz, ih hlen (by omega)]
            simp [hne]
          · -- the run ends with the list
            obtain rfl : rest = [] := by
              rcases hend with h | h
              · exact h
              · exact absurd (by simpa [groups] using h) hsz
            rw [merged_size] at hsz
            simp [mergePass, hsz, runsOf, hne]

theorem runsOf_of_large {minSize : Nat} {l : List TensorGroupIndex} (h : ∀ g ∈ l.dropLast, minSize ≤ g.size) :
    runsOf minSize l = l.map fun g => (g, []) := by
  induction l with
  | nil => rfl
  | cons g l ih =>
    cases l with
    | nil => rfl
    | cons g' l =>
      rw [dropLast_cons_of_ne_nil (by simp)] at h
      have hlt : ¬sumSizes (groups (g, [])) < minSize := by simpa [groups] using h g (by simp)
      have hrec := ih fun a ha => h a (mem_cons_of_mem _ ha)
      simp only [runsOf, map_cons] at hrec
      simp [runsOf, runsFrom, hlt, hrec]

theorem le_of_mem_dropLast_runsOf {n : Nat} {l : List TensorGroupIndex} :
    ∀ r ∈ (runsOf n l).dropLast, n ≤ sumSizes r.groups := by
  cases l with
  | nil => simp [runsOf]
  | cons g l => exact le_of_mem_dropLast

theorem length_runsOf_le (l : List TensorGroupIndex) : (runsOf minSize l).length ≤ l.length := by
  have h := congrArg length (flatMap_runsOf minSize l)
  rw [length_flatMap] at h
  have hle : ((runsOf minSize l).map fun _ => 1).sum ≤ ((runsOf minSize l).map fun r => r.groups.length).sum :=
    sum_le_sum fun r _ => by simp [groups]
  simp at hle
  omega

theorem mergePasses_spec {minSize : Nat} {l : List TensorGroupIndex} {fuel : Nat} (hfuel : 2 * l.length + 2 ≤ fuel) :
    mergePasses minSize fuel l = some ((runsOf minSize l).map merged) := by
  obtain ⟨fuel, rfl⟩ : ∃ f, fuel = f + 2 := ⟨fuel - 2, by omega⟩
  rw [mergePasses, mergePass_spec le_rfl (by omega)]
  by_cases hany : (runsOf minSize l).any fun run => run.2 ≠ []
  · have hlrg : ∀ g ∈ ((runsOf minSize l).map merged).dropLast, minSize ≤ g.size := by
      rw [← map_dropLast]
      intro g hg
      obtain ⟨r, hr, rfl⟩ := mem_map.1 hg
      rw [merged_size]
      exact le_of_mem_dropLast_runsOf r hr
    have hlen := length_runsOf_le minSize l
    simp only [hany, Bool.or_true, if_true]
    rw [mergePasses, mergePass_spec (n := l.length) (by simpa using hlen) (by omega), runsOf_of_large hlrg]
    simp [merged, comp_def]
  · rw [Bool.not_eq_true] at hany
    simp only [hany]
    simp

/-! ## What the merged groups keep -/

theorem mergeLast_concat (front : List TensorGroupIndex) (g h : TensorGroupIndex) :
    mergeLast minSize (front ++ [g, h]) =
      if h.size < minSize then front ++ [combine (g.size + h.size) g h] else front ++ [g, h] := by
  induction front with
  | nil => simp [mergeLast]
  | cons a front ih =>
    have hcons : mergeLast minSize (a :: (front ++ [g, h])) = a :: mergeLast minSize (front ++ [g, h]) := by
      match front with
      | [] => rfl
      | [_] => rfl
      | _ :: _ :: _ => rfl
    rw [cons_append, hcons, ih]
    split <;> rfl

def ShortTail (minSize : Nat) (groups : List TensorGroupIndex) : Prop :=
  2 ≤ (runsOf minSize groups).length ∧ ∃ run ∈ (runsOf minSize groups).getLast?, sumSizes run.groups < minSize

theorem mergeLast_cases (groups : List TensorGroupIndex) :
    (¬ShortTail minSize groups ∧ mergeLast minSize ((runsOf minSize groups).map merged) =
      (runsOf minSize groups).map merged ∧
        ((runsOf minSize groups).length ≤ 1 ∨ ∀ run ∈ runsOf minSize groups, minSize ≤ sumSizes run.groups)) ∨
    (ShortTail minSize groups ∧ ∃ front r r', runsOf minSize groups = front ++ [r, r'] ∧
      mergeLast minSize ((runsOf minSize groups).map merged) =
        front.map merged ++ [combine (sumSizes r.groups + sumSizes r'.groups) r.merged r'.merged]) := by
  have hlrg := le_of_mem_dropLast_runsOf (n := minSize) (l := groups)
  unfold ShortTail
  generalize runsOf minSize groups = runs at *
  rcases eq_nil_or_concat' runs with rfl | ⟨front, r', rfl⟩
  · exact .inl ⟨by simp, rfl, .inl (by simp)⟩
  · rcases eq_nil_or_concat' front with rfl | ⟨front, r, rfl⟩
    · exact .inl ⟨by simp, rfl, .inl (by simp)⟩
    · have hmap : (front ++ [r] ++ [r']).map merged = front.map merged ++ [r.merged, r'.merged] := by simp
      rw [hmap, mergeLast_concat, merged_size, merged_size]
      by_cases hlt : sumSizes r'.groups < minSize
      · rw [if_pos hlt]
        exact .inr ⟨by simp [hlt], front, r, r', by simp, rfl⟩
      · rw [if_neg hlt]
        refine .inl ⟨by simp [hlt], rfl, .inr ?_⟩
        intro run hrun
        rw [dropLast_concat] at hlrg
        rcases mem_append.1 hrun with hrun | hrun
        · exact hlrg run hrun
        · obtain rfl := mem_singleton.1 hrun
          exact not_lt.1 hlt

/-- What holds of the merged groups for all inputs: the file is cut at fewer places, no group is small unless it is alone, and
the tensors are there in their order, with their sizes. -/
structure Regroups (minSize : Nat) (groups groups' : List TensorGroupIndex) : Prop where
  contiguous : ∀ offset, ContiguousFrom offset groups → ContiguousFrom offset groups'
  first : groups'.head?.map fileOffset = groups.head?.map fileOffset
  total : sumSizes groups' = sumSizes groups
  tensors : (groups'.flatMap tensorIndexes).map (fun t => (t.name, t.size)) =
    (groups.flatMap tensorIndexes).map fun t => (t.name, t.size)
  large : groups'.length ≤ 1 ∨ ∀ g ∈ groups', minSize ≤ g.size

theorem map_adjust (l : List TensorIndex) :
    (l.map (adjust shift)).map (fun t => (t.name, t.size)) = l.map fun t => (t.name, t.size) := by
  simp [adjust, comp_def]

theorem GroupRun.merged_tensors : run.merged.tensorIndexes.map (fun t => (t.name, t.size)) =
    (run.groups.flatMap tensorIndexes).map fun t => (t.name, t.size) := by
  rw [merged, foldl_combine_tensorIndexes, groups, flatMap_cons, map_append, map_append, map_flatMap, map_flatMap]
  simp only [map_adjust]

theorem regroups_runs (runs : List GroupRun) :
    (∀ offset, ContiguousFrom offset (runs.flatMap groups) → ContiguousFrom offset (runs.map merged)) ∧
      sumSizes (runs.map merged) = sumSizes (runs.flatMap groups) ∧
      ((runs.map merged).flatMap tensorIndexes).map (fun t => (t.name, t.size)) =
        ((runs.flatMap groups).flatMap tensorIndexes).map fun t => (t.name, t.size) := by
  induction runs with
  | nil => exact ⟨fun _ _ => trivial, rfl, rfl⟩
  | cons run runs ih =>
    obtain ⟨hcont, hsum, htns⟩ := ih
    refine ⟨?_, ?_, ?_⟩
    · intro offset h
      rw [flatMap_cons, contiguousFrom_append] at h
      refine ⟨?_, ?_⟩
      · rw [merged_fileOffset]
        exact h.1.1
      · rw [merged_size]
        exact hcont _ h.2
    · simp [hsum]
    · rw [map_cons, flatMap_cons, flatMap_cons, map_append, htns, merged_tensors, flatMap_append, map_append]

theorem mergeLast_regroups (groups : List TensorGroupIndex) :
    Regroups minSize groups (mergeLast minSize ((runsOf minSize groups).map merged)) := by
  obtain ⟨hcont, hsum, htns⟩ := regroups_runs (runsOf minSize groups)
  have hflat := flatMap_runsOf minSize groups
  rw [hflat] at hcont hsum htns
  have hfst : ((runsOf minSize groups).map merged).head?.map fileOffset = groups.head?.map fileOffset := by
    conv_rhs => rw [← hflat]
    cases runsOf minSize groups with
    | nil => rfl
    | cons run runs => simp [GroupRun.groups]
  rcases mergeLast_cases minSize groups with ⟨-, heq, hlrg⟩ | ⟨-, front, r, r', hruns, heq⟩
  · rw [heq]
    refine ⟨hcont, hfst, hsum, htns, ?_⟩
    rw [length_map]
    refine hlrg.imp id ?_
    intro h g hg
    obtain ⟨run, hrun, rfl⟩ := mem_map.1 hg
    rw [merged_size]
    exact h run hrun
  · rw [heq]
    have hlrg := le_of_mem_dropLast_runsOf (n := minSize) (l := groups)
    rw [hruns] at hcont hsum htns hfst hlrg
    have hdrop : (front ++ [r, r']).dropLast = front ++ [r] := by simp
    rw [hdrop] at hlrg
    rw [map_append] at hcont hsum htns hfst
    refine ⟨?_, ?_, ?_, ?_, .inr ?_⟩
    · intro offset h
      have := contiguousFrom_append.1 (hcont offset h)
      simp only [map_cons, map_nil, ContiguousFrom, and_true] at this
      exact contiguousFrom_append.2 ⟨this.1, this.2.1, trivial⟩
    · rw [← hfst]
      cases front <;> rfl
    · rw [← hsum]
      simp [combine]
    · rw [← htns]
      simp [combine, adjust, comp_def]
    · intro g hg
      rcases mem_append.1 hg with hg | hg
      · obtain ⟨run, hrun, rfl⟩ := mem_map.1 hg
        rw [merged_size]
        exact hlrg run (mem_append_left _ hrun)
      · obtain rfl := mem_singleton.1 hg
        have := hlrg r (by simp)
        simp only [combine, merged_size]
        omega

/-! ## When the tensors keep their places -/

/-- Between the first group of a run and a later one with tensors, there is no data. -/
def InnerEmpty (run : GroupRun) : Prop :=
  ∀ mid g back, run.2 = mid ++ g :: back → g.tensorIndexes ≠ [] → sumSizes mid = 0

/-- A group with tensors has no data, like the groups behind it and the first group of the run. -/
def TailEmpty (run : GroupRun) : Prop :=
  ∀ front g back, run.groups = front ++ g :: back → g.tensorIndexes ≠ [] → sumSizes (front.take 1 ++ g :: back) = 0

structure KeepsOffsets (minSize : Nat) (groups : List TensorGroupIndex) : Prop where
  inner : ∀ run ∈ (runsOf minSize groups).dropLast, InnerEmpty run
  last : ¬ShortTail minSize groups → ∀ run ∈ (runsOf minSize groups).getLast?, InnerEmpty run
  tail : ShortTail minSize groups → ∀ run ∈ (runsOf minSize groups).getLast?, TailEmpty run

/-- The tensors of a group, counted from `base`. -/
def placesFrom (base : Nat) (g : TensorGroupIndex) : List (String × Nat × Nat) :=
  g.tensorIndexes.map fun t => (t.name, base + t.offset, t.size)

theorem placesFrom_eq_iff {base : Nat} {g : TensorGroupIndex} :
    placesFrom base g = placesOf g ↔ g.tensorIndexes ≠ [] → base = g.fileOffset := by
  unfold placesFrom placesOf
  cases g.tensorIndexes with
  | nil => simp
  | cons t l =>
    constructor
    · intro h _
      have := congrArg head? h
      simp only [map_cons, head?_cons, Option.some.injEq, Prod.mk.injEq] at this
      omega
    · intro h
      rw [h (by simp)]

theorem flatMap_eq_iff {α β : Type} {l : List α} {f g : α → List β} (hlen : ∀ x ∈ l, (f x).length = (g x).length) :
    l.flatMap f = l.flatMap g ↔ ∀ x ∈ l, f x = g x := by
  induction l with
  | nil => simp
  | cons a l ih =>
    have hl := ih fun x hx => hlen x (mem_cons_of_mem _ hx)
    rw [flatMap_cons, flatMap_cons, forall_mem_cons, ← hl]
    constructor
    · intro h
      exact append_inj h (hlen a mem_cons_self)
    · rintro ⟨h, h'⟩
      rw [h, h']

theorem ContiguousFrom.fileOffset_eq {l : List TensorGroupIndex} (h : ContiguousFrom offset l)
    {front back : List TensorGroupIndex} {g : TensorGroupIndex} (hl : l = front ++ g :: back) :
    g.fileOffset = offset + sumSizes front := by
  rw [hl, contiguousFrom_append] at h
  exact h.2.1

theorem flatMap_placesFrom_iff {base : Nat} {l : List TensorGroupIndex} (h : ContiguousFrom offset l) :
    l.flatMap (placesFrom base) = l.flatMap placesOf ↔
      ∀ front g back, l = front ++ g :: back → g.tensorIndexes ≠ [] → base = offset + sumSizes front := by
  rw [flatMap_eq_iff fun g _ => by simp [placesFrom, placesOf]]
  constructor
  · intro heq front g back hl hne
    rw [← h.fileOffset_eq hl]
    exact placesFrom_eq_iff.1 (heq g (by simp [hl])) hne
  · intro heq g hg
    obtain ⟨front, back, hl⟩ := append_of_mem hg
    refine placesFrom_eq_iff.2 fun hne => ?_
    rw [h.fileOffset_eq hl]
    exact heq front g back hl hne

theorem map_adjust_places (base shift : Nat) (l : List TensorIndex) :
    (l.map (adjust shift)).map (fun t => (t.name, base + t.offset, t.size)) =
      l.map fun t => (t.name, base + shift + t.offset, t.size) := by
  simp only [map_map, comp_def, adjust, Nat.add_assoc, Nat.add_comm shift]

theorem placesFrom_merged (base : Nat) (run : GroupRun) :
    placesFrom base run.merged = placesFrom base run.1 ++ run.2.flatMap (placesFrom (base + run.1.size)) := by
  unfold placesFrom
  rw [merged, foldl_combine_tensorIndexes, map_append, map_flatMap]
  simp only [map_adjust_places]

theorem placesOf_merged_iff {run : GroupRun} (h : ContiguousFrom offset run.groups) :
    placesOf run.merged = run.groups.flatMap placesOf ↔ InnerEmpty run := by
  have hfst : placesOf run.merged = placesFrom run.1.fileOffset run.merged := by simp [placesOf, placesFrom]
  have hoff : run.1.fileOffset = offset := h.1
  rw [hfst, placesFrom_merged, groups, flatMap_cons, placesFrom_eq_iff.2 fun _ => rfl, append_cancel_left_eq,
    hoff, flatMap_placesFrom_iff h.2]
  unfold InnerEmpty
  constructor
  · intro h' mid g back hl hne
    have := h' mid g back hl hne
    omega
  · intro h' mid g back hl hne
    have := h' mid g back hl hne
    omega

theorem placesFrom_tail_iff {run : GroupRun} (h : ContiguousFrom offset run.groups) :
    placesFrom (offset + sumSizes run.groups) run.merged = run.groups.flatMap placesOf ↔ TailEmpty run := by
  have hlen : (placesFrom (offset + sumSizes run.groups) run.1).length = (placesOf run.1).length :=
    by simp [placesFrom, placesOf]
  have hsum : sumSizes run.groups = run.1.size + sumSizes run.2 := by simp [groups]
  have hoff : run.1.fileOffset = offset := h.1
  have hflat : run.groups.flatMap placesOf = placesOf run.1 ++ run.2.flatMap placesOf := by simp [groups]
  rw [placesFrom_merged, hflat]
  unfold TailEmpty
  constructor
  · intro heq front g back hl hne
    obtain ⟨h1, h2⟩ := append_inj heq hlen
    cases front with
    | nil =>
      obtain ⟨hg, hback⟩ : run.1 = g ∧ run.2 = back := cons.inj hl
      have hba := placesFrom_eq_iff.1 h1 (by rwa [hg])
      rw [take_nil, nil_append, ← hback, ← hg, sumSizes_cons]
      omega
    | cons c mid =>
      obtain ⟨hc, hl⟩ : run.1 = c ∧ run.2 = mid ++ g :: back := cons.inj hl
      have hba := (flatMap_placesFrom_iff h.2).1 h2 mid g back hl hne
      rw [hl, sumSizes_append, sumSizes_cons] at hsum
      simp only [take_succ_cons, take_zero, sumSizes_append, sumSizes_cons, sumSizes_nil, ← hc]
      omega
  · intro htail
    have h1 : placesFrom (offset + sumSizes run.groups) run.1 = placesOf run.1 := by
      refine placesFrom_eq_iff.2 fun hne => ?_
      have := htail [] run.1 run.2 rfl hne
      rw [take_nil, nil_append, sumSizes_cons] at this
      omega
    have h2 : run.2.flatMap (placesFrom (offset + sumSizes run.groups + run.1.size)) = run.2.flatMap placesOf := by
      refine (flatMap_placesFrom_iff h.2).2 fun mid g back hl hne => ?_
      have := htail (run.1 :: mid) g back (by rw [groups, hl, cons_append]) hne
      simp only [take_succ_cons, take_zero, sumSizes_append, sumSizes_cons, sumSizes_nil] at this
      rw [hl, sumSizes_append, sumSizes_cons] at hsum
      omega
    rw [h1, h2]

theorem length_placesOf_merged : (placesOf run.merged).length = (run.groups.flatMap placesOf).length := by
  have h := congrArg length (merged_tensors run)
  simp only [length_map, length_flatMap] at h
  simp only [placesOf, length_map, length_flatMap, h]

theorem places_runs_iff {runs : List GroupRun} (h : ContiguousFrom offset (runs.flatMap groups)) :
    (runs.map merged).flatMap placesOf = (runs.flatMap groups).flatMap placesOf ↔
      ∀ run ∈ runs, InnerEmpty run := by
  rw [flatMap_map, flatMap_assoc, flatMap_eq_iff fun run _ => length_placesOf_merged run]
  refine forall₂_congr fun run hrun => ?_
  obtain ⟨front, back, rfl⟩ := append_of_mem hrun
  rw [flatMap_append, flatMap_cons, contiguousFrom_append, contiguousFrom_append] at h
  exact placesOf_merged_iff h.2.1

theorem mergeLast_places_iff {groups : List TensorGroupIndex} (h : ContiguousFrom offset groups) (minSize : Nat) :
    (mergeLast minSize ((runsOf minSize groups).map merged)).flatMap placesOf = groups.flatMap placesOf ↔
      KeepsOffsets minSize groups := by
  have hflat := flatMap_runsOf minSize groups
  rcases mergeLast_cases minSize groups with ⟨hshort, heq, -⟩ | ⟨hshort, front, r, r', hruns, heq⟩
  · rw [heq]
    have hall : groups.flatMap placesOf = ((runsOf minSize groups).flatMap GroupRun.groups).flatMap placesOf := by rw [hflat]
    rw [hall, places_runs_iff (by rwa [hflat])]
    constructor
    · intro hruns
      exact ⟨fun run hrun => hruns run (mem_of_mem_dropLast hrun),
        fun _ run hrun => hruns run (mem_of_getLast? hrun), fun hs => absurd hs hshort⟩
    · intro hk run hrun
      have hne := ne_nil_of_mem hrun
      rw [← dropLast_concat_getLast hne, mem_append, mem_singleton] at hrun
      rcases hrun with hrun | rfl
      · exact hk.inner run hrun
      · exact hk.last hshort _ (getLast?_eq_some_getLast hne)
  · have hdrop : (runsOf minSize groups).dropLast = front ++ [r] := by simp [hruns]
    have hla : (runsOf minSize groups).getLast? = some r' := by simp [hruns]
    have hgps : groups = (front ++ [r]).flatMap GroupRun.groups ++ r'.groups := by
      rw [← hflat, hruns]
      simp
    have hcont := h
    rw [hgps, contiguousFrom_append] at hcont
    have hr' : r'.1.fileOffset = offset + sumSizes ((front ++ [r]).flatMap GroupRun.groups) := hcont.2.1
    have hr : r.1.fileOffset + sumSizes r.groups = offset + sumSizes ((front ++ [r]).flatMap GroupRun.groups) := by
      have := (contiguousFrom_append.1 (by simpa using hcont.1 :
        ContiguousFrom offset (front.flatMap GroupRun.groups ++ r.groups))).2.1
      rw [this]
      simp [Nat.add_assoc]
    have hcombine : placesOf (combine (sumSizes r.groups + sumSizes r'.groups) r.merged r'.merged) =
        placesOf r.merged ++ placesFrom (r'.1.fileOffset + sumSizes r'.groups) r'.merged := by
      simp only [placesOf, placesFrom, combine, map_append, merged_fileOffset, map_adjust_places]
      rw [hr', ← hr, Nat.add_assoc]
    have hleft : (mergeLast minSize ((runsOf minSize groups).map merged)).flatMap placesOf =
        ((front ++ [r]).map merged).flatMap placesOf ++
          placesFrom (r'.1.fileOffset + sumSizes r'.groups) r'.merged := by
      rw [heq]
      simp [hcombine]
    have hlen : (((front ++ [r]).map merged).flatMap placesOf).length =
        (((front ++ [r]).flatMap GroupRun.groups).flatMap placesOf).length := by
      rw [flatMap_map, flatMap_assoc, length_flatMap, length_flatMap]
      simp only [length_placesOf_merged]
    have hright : groups.flatMap placesOf =
        ((front ++ [r]).flatMap GroupRun.groups).flatMap placesOf ++ r'.groups.flatMap placesOf := by
      rw [← flatMap_append, ← hgps]
    rw [hleft, hright, hr']
    constructor
    · intro heq'
      obtain ⟨h1, h2⟩ := append_inj heq' hlen
      refine ⟨?_, fun hs => absurd hshort hs, ?_⟩
      · rw [hdrop]
        exact (places_runs_iff hcont.1).1 h1
      · intro _ run hrun
        rw [hla] at hrun
        obtain rfl := Option.some.inj hrun
        exact (placesFrom_tail_iff hcont.2).1 h2
    · intro hk
      have h1 := (places_runs_iff hcont.1).2 fun run hrun => hk.inner run (by rwa [hdrop])
      have h2 := (placesFrom_tail_iff hcont.2).2 (hk.tail hshort r' hla)
      rw [h1, h2]

/-! ## The result -/

structure MergesInPlace (minSize : Nat) (groups groups' : List TensorGroupIndex) : Prop extends
    Regroups minSize groups groups' where
  places : groups'.flatMap placesOf = groups.flatMap placesOf

/-- For all contiguous groups and every `min_size`: the merging ends, and it keeps every tensor where it is exactly when the
runs are empty between their first group and their tensors, and a short last run from its tensors on. -/
theorem mergeTGs_inPlace_iff (m : RegisteredModel) (minSize offset : Nat) (h : ContiguousFrom offset m.tensorGroupIndexes) :
    ∃ m', (∀ fuel, 2 * m.tensorGroupIndexes.length + 2 ≤ fuel → m.mergeTGs minSize fuel = some m') ∧
      Regroups minSize m.tensorGroupIndexes m'.tensorGroupIndexes ∧
      (MergesInPlace minSize m.tensorGroupIndexes m'.tensorGroupIndexes ↔ KeepsOffsets minSize m.tensorGroupIndexes) := by
  have hregroups := mergeLast_regroups minSize m.tensorGroupIndexes
  generalize hgps : mergeLast minSize ((runsOf minSize m.tensorGroupIndexes).map merged) = groups at hregroups
  refine ⟨{ m with tensorGroupIndexes := groups, tensorGroupHostPtr := replicate groups.length none }, ?_, hregroups, ?_⟩
  · intro fuel hfuel
    rw [RegisteredModel.mergeTGs, mergePasses_spec hfuel, Option.map_some, hgps]
  · rw [← mergeLast_places_iff h minSize, hgps]
    exact ⟨fun hp => hp.places, fun hp => ⟨hregroups, hp⟩⟩

/-- A model with three groups of these sizes, with a tensor in each. -/
def threeGroups (a b c : Nat) : RegisteredModel where
  modelPath := "model"
  tensorGroupIndexes := [⟨0, a, "A", [⟨"a", 0, a⟩]⟩, ⟨a, b, "B", [⟨"b", 0, b⟩]⟩, ⟨a + b, c, "C", [⟨"c", 0, c⟩]⟩]
  tensorGroupHostPtr := [none, none, none]
  loadSensitive := 0

/-- Two small groups become one as large as the third. -/
theorem mergeTGs_inPlace_twoSmall :
    ContiguousFrom 0 (threeGroups 4 4 8).tensorGroupIndexes ∧
      ∃ m', (threeGroups 4 4 8).mergeTGs 8 8 = some m' ∧
        MergesInPlace 8 (threeGroups 4 4 8).tensorGroupIndexes m'.tensorGroupIndexes := by
  have hcont : ContiguousFrom 0 (threeGroups 4 4 8).tensorGroupIndexes := by simp [threeGroups, ContiguousFrom]
  obtain ⟨m', hm', -, hiff⟩ := mergeTGs_inPlace_iff (threeGroups 4 4 8) 8 0 hcont
  refine ⟨hcont, m', hm' 8 (by decide), hiff.2 ?_⟩
  have hruns : runsOf 8 (threeGroups 4 4 8).tensorGroupIndexes =
      [(⟨0, 4, "A", [⟨"a", 0, 4⟩]⟩, [⟨4, 4, "B", [⟨"b", 0, 4⟩]⟩]), (⟨8, 8, "C", [⟨"c", 0, 8⟩]⟩, [])] := rfl
  refine ⟨?_, ?_, ?_⟩
  · rw [hruns]
    intro run hrun mid g back hl _
    obtain rfl := mem_singleton.1 hrun
    cases mid with
    | nil => rfl
    | cons _ mid => simp at hl
  · rw [hruns]
    intro _ run hrun mid g back hl
    obtain rfl := Option.some.inj hrun
    simp at hl
  · rintro ⟨-, run, hrun, hlt⟩
    rw [hruns] at hrun
    obtain rfl := Option.some.inj hrun
    exact absurd hlt (by decide)

/-- In a run of three, the third tensor ends up where the second one is. -/
theorem mergeTGs_moves_third :
    ContiguousFrom 0 (threeGroups 1 1 1).tensorGroupIndexes ∧
      ∃ m', (threeGroups 1 1 1).mergeTGs 3 8 = some m' ∧
        m'.tensorGroupIndexes.flatMap placesOf = [("a", 0, 1), ("b", 1, 1), ("c", 1, 1)] ∧
        ¬MergesInPlace 3 (threeGroups 1 1 1).tensorGroupIndexes m'.tensorGroupIndexes := by
  refine ⟨by simp [threeGroups, ContiguousFrom], _, rfl, by decide, ?_⟩
  intro h
  exact absurd h.places (by decide)

end ServerlessLLM
