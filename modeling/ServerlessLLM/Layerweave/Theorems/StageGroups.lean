import Mathlib.Data.List.SplitBy
import ServerlessLLM.Layerweave.StageGroups
import ServerlessLLM.Library.Cutting

/-!
# What the groups of stages are

`merge_stages` cuts every run of stages with one flag as `Library.Cutting` does.
-/

namespace ServerlessLLM.Layerweave

open Cutting List RuntimeStage

/-! ## Runs of stages -/

/-- The maximal runs of stages with equal flags. -/
def runs (stages : List RuntimeStage) : List (List RuntimeStage) := stages.splitBy fun s s' => s.observed == s'.observed

/-- The lists have one flag each, and neighbours have different ones. -/
structure RunList (rs : List (List RuntimeStage)) : Prop where
  ne_nil : ∀ l ∈ rs, l ≠ []
  uniform : ∀ l ∈ rs, ∃ f, ∀ s ∈ l, s.observed = f
  differ : rs.IsChain fun l l' => ∀ s ∈ l, ∀ s' ∈ l', s.observed ≠ s'.observed

theorem uniform_of_isChain {l : List RuntimeStage} (h : l.IsChain fun s s' => s.observed == s'.observed) :
    ∃ f, ∀ s ∈ l, s.observed = f := by
  induction l with
  | nil => exact ⟨true, by simp⟩
  | cons s l ih =>
    refine ⟨s.observed, forall_mem_cons.2 ⟨rfl, ?_⟩⟩
    cases l with
    | nil => simp
    | cons s' l =>
      rw [isChain_cons_cons, beq_iff_eq] at h
      obtain ⟨f, hf⟩ := ih h.2
      intro x hx
      rw [h.1, hf x hx, hf s' mem_cons_self]

theorem runList_runs (stages : List RuntimeStage) : RunList (runs stages) := by
  have hne : ∀ l ∈ runs stages, l ≠ [] := fun l hl => ne_nil_of_mem_splitBy hl
  have huni : ∀ l ∈ runs stages, ∃ f, ∀ s ∈ l, s.observed = f := fun l hl => uniform_of_isChain (isChain_of_mem_splitBy hl)
  have hborder := isChain_getLast_head_splitBy (fun s s' : RuntimeStage => s.observed == s'.observed) stages
  refine ⟨hne, huni, ?_⟩
  refine List.IsChain.imp_of_mem_imp ?_ hborder
  rintro l l' hl hl' ⟨ha, hb, hdif⟩ s hs s' hs' heq
  obtain ⟨f, hf⟩ := huni l hl
  obtain ⟨f', hf'⟩ := huni l' hl'
  rw [beq_eq_false_iff_ne] at hdif
  refine hdif ?_
  rw [hf _ (getLast_mem ha), hf' _ (head_mem hb), ← hf s hs, ← hf' s' hs', heq]

theorem flatten_runs (stages : List RuntimeStage) : (runs stages).flatten = stages := flatten_splitBy _ _

/-! ## The loop -/

def toGroups (pieces : List (List RuntimeStage)) : List StageGroup :=
    pieces.mapIdx fun i p => stageGroup i p (total RuntimeStage.bytes p)

@[simp] theorem length_toGroups (pieces : List (List RuntimeStage)) : (toGroups pieces).length = pieces.length := length_mapIdx

theorem toGroups_concat (pieces : List (List RuntimeStage)) (p : List RuntimeStage) :
    toGroups (pieces ++ [p]) = toGroups pieces ++ [stageGroup pieces.length p (total bytes p)] := mapIdx_concat

/-- The variables when pieces have become groups and some stages are pending. -/
def mergingOf (pieces : List (List RuntimeStage)) (pending : List RuntimeStage) : Merging :=
  ⟨toGroups pieces, pending, total bytes pending⟩

/-- What is left over, as a piece of its own. -/
def rest (pending : List RuntimeStage) : List (List RuntimeStage) := if pending = [] then [] else [pending]

section

variable {minimum : Nat} {pieces : List (List RuntimeStage)} {pending : List RuntimeStage} {stage : RuntimeStage}

theorem close_mergingOf : (mergingOf pieces pending).close = mergingOf (pieces ++ [pending]) [] := by
  unfold Merging.close mergingOf
  rw [toGroups_concat, length_toGroups]
  rfl

variable {w : Merging} {f : Bool} {p : List RuntimeStage}

theorem turn_eq_self (h : ∀ last ∈ w.pending.getLast?, last.observed = stage.observed) : w.turn stage = w := by
  unfold Merging.turn
  cases hla : w.pending.getLast? with
  | none => rfl
  | some last => exact if_neg (not_not.2 (h last hla))

theorem turn_eq_close (hne : w.pending ≠ []) (h : ∀ last ∈ w.pending.getLast?, last.observed ≠ stage.observed) :
    w.turn stage = w.close := by
  unfold Merging.turn
  cases hla : w.pending.getLast? with
  | none => exact absurd (getLast?_eq_none_iff.1 hla) hne
  | some last => exact if_pos (h last hla)

theorem add_mergingOf (h : ∀ last ∈ pending.getLast?, last.observed = stage.observed) :
    (mergingOf pieces pending).add minimum stage =
      if minimum ≤ total bytes (pending ++ [stage]) then mergingOf (pieces ++ [pending ++ [stage]]) []
      else mergingOf pieces (pending ++ [stage]) := by
  have hsta : (⟨toGroups pieces, pending ++ [stage], total bytes pending + stage.bytes⟩ : Merging) =
      mergingOf pieces (pending ++ [stage]) := by
    rw [mergingOf, total_append]
    rfl
  have hadd : (mergingOf pieces pending).add minimum stage =
      let w := mergingOf pieces (pending ++ [stage]); if minimum ≤ w.pendingBytes then w.close else w := by
    unfold Merging.add
    rw [turn_eq_self h, ← hsta]
    rfl
  rw [hadd, ← close_mergingOf]
  rfl

theorem add_mergingOf_of_ne (hne : pending ≠ []) (h : ∀ last ∈ pending.getLast?, last.observed ≠ stage.observed) :
    (mergingOf pieces pending).add minimum stage = (mergingOf (pieces ++ [pending]) []).add minimum stage := by
  unfold Merging.add
  rw [turn_eq_close hne h, turn_eq_self (w := mergingOf (pieces ++ [pending]) []) (by simp [mergingOf]), close_mergingOf]

theorem foldl_add_uniform {l : List RuntimeStage} (h : ∀ s ∈ pending ++ l, s.observed = f) :
    l.foldl (Merging.add minimum) (mergingOf pieces pending) = mergingOf (pieces ++ (cut bytes minimum pending l).1)
      (cut bytes minimum pending l).2 := by
  induction l generalizing pieces pending with
  | nil => rw [cut, append_nil, foldl_nil]
  | cons s l ih =>
    have hs : s.observed = f := h s (mem_append_right _ mem_cons_self)
    have hla : ∀ last ∈ pending.getLast?, last.observed = s.observed := fun last hl =>
      (h last (mem_append_left _ (mem_of_getLast? hl))).trans hs.symm
    rw [foldl_cons, add_mergingOf hla, cut]
    split
    · rw [ih (fun x hx => h x (mem_append_right _ (mem_cons_of_mem _ hx))), append_assoc]
      rfl
    · rw [ih (by rwa [append_assoc, singleton_append])]

theorem foldl_add_run {l : List RuntimeStage} (hne : l ≠ []) (h : ∀ s ∈ l, s.observed = f)
    (hla : ∀ last ∈ pending.getLast?, last.observed ≠ f) : l.foldl (Merging.add minimum) (mergingOf pieces pending) =
      mergingOf (pieces ++ rest pending ++ (cut bytes minimum [] l).1) (cut bytes minimum [] l).2 := by
  unfold rest
  split
  · rename_i hnil
    rw [hnil, foldl_add_uniform (f := f) (by simpa using h), append_nil]
  · rename_i hpen
    cases l with
    | nil => exact absurd rfl hne
    | cons s l =>
      have hs := h s mem_cons_self
      rw [foldl_cons, add_mergingOf_of_ne hpen (hs ▸ hla), ← foldl_cons, foldl_add_uniform (f := f) (by simpa using h)]

/-- The pieces of a run that is not the last one. -/
def whole (minimum : Nat) (l : List RuntimeStage) : List (List RuntimeStage) :=
  (cut bytes minimum [] l).1 ++ rest (cut bytes minimum [] l).2

theorem mem_of_mem_cut {l : List RuntimeStage} {s : RuntimeStage}
    (h : s ∈ (cut RuntimeStage.bytes minimum [] l).2) : s ∈ l := by
  have hflt := @flatten_cut RuntimeStage bytes minimum [] l
  rw [nil_append] at hflt
  exact hflt ▸ mem_append_right _ h

theorem foldl_add_runs {rs : List (List RuntimeStage)} {l : List RuntimeStage} (h : RunList (rs ++ [l]))
    (hla : ∀ last ∈ pending.getLast?, ∀ r ∈ (rs ++ [l]).head?, ∀ s ∈ r, last.observed ≠ s.observed) :
    (rs ++ [l]).flatten.foldl (Merging.add minimum) (mergingOf pieces pending) =
      mergingOf (pieces ++ rest pending ++ rs.flatMap (whole minimum) ++ (cut bytes minimum [] l).1)
        (cut bytes minimum [] l).2 := by
  induction rs generalizing pieces pending with
  | nil =>
    have hne := h.ne_nil l mem_cons_self
    obtain ⟨f, hf⟩ := h.uniform l mem_cons_self
    have hturn : ∀ last ∈ pending.getLast?, last.observed ≠ f := by
      intro last hl
      rw [← hf _ (head_mem hne)]
      exact hla last hl l rfl _ (head_mem hne)
    rw [nil_append, flatten_cons, flatten_nil, append_nil, foldl_add_run hne hf hturn, flatMap_nil, append_nil]
  | cons r rs ih =>
    have hne := h.ne_nil r mem_cons_self
    obtain ⟨f, hf⟩ := h.uniform r mem_cons_self
    have hturn : ∀ last ∈ pending.getLast?, last.observed ≠ f := by
      intro last hl
      rw [← hf _ (head_mem hne)]
      exact hla last hl r rfl _ (head_mem hne)
    have hrs : RunList (rs ++ [l]) := ⟨fun x hx => h.ne_nil x (mem_cons_of_mem _ hx),
      fun x hx => h.uniform x (mem_cons_of_mem _ hx), h.differ.tail⟩
    have hnx : ∀ r' ∈ (rs ++ [l]).head?, ∀ s ∈ r, ∀ s' ∈ r', s.observed ≠ s'.observed := (isChain_cons.1 h.differ).1
    rw [cons_append, flatten_cons, foldl_append, foldl_add_run hne hf hturn, ih hrs]
    · simp only [flatMap_cons, whole, append_assoc]
    · intro last hl r' hr' s' hs'
      exact hnx r' hr' last (mem_of_mem_cut (mem_of_getLast? hl)) s' hs'

def joinLast (pieces : List (List RuntimeStage)) (left : List RuntimeStage) : List (List RuntimeStage) :=
  if left = [] then pieces
  else
    match pieces.getLast? with
    | none => [left]
    | some p => pieces.dropLast ++ [p ++ left]

def lastPieces (minimum : Nat) (l : List RuntimeStage) : List (List RuntimeStage) :=
  joinLast (cut bytes minimum [] l).1 (cut bytes minimum [] l).2

theorem all_eq_of_uniform {l : List RuntimeStage} (hne : l ≠ []) (h : ∀ s ∈ l, s.observed = f) :
    l.all RuntimeStage.observed = f := by
  cases f with
  | true => exact all_eq_true.2 fun s hs => h s hs
  | false =>
    rw [all_eq_false]
    obtain ⟨s, hs⟩ := exists_mem_of_ne_nil l hne
    exact ⟨s, hs, by simp [h s hs]⟩

theorem finish_of_nil : (mergingOf pieces []).finish = toGroups pieces := if_pos rfl

theorem finish_of_eq (hne : pending ≠ []) (hp : p ≠ []) (h : ∀ s ∈ p ++ pending, s.observed = f) :
    (mergingOf (pieces ++ [p]) pending).finish = toGroups (pieces ++ [p ++ pending]) := by
  have hpen : pending.all observed = f := all_eq_of_uniform hne fun s hs => h s (mem_append_right _ hs)
  have hpiece : p.all observed = f := all_eq_of_uniform hp fun s hs => h s (mem_append_left _ hs)
  have hgps : (mergingOf (pieces ++ [p]) pending).groups = toGroups pieces ++ [stageGroup pieces.length p (total bytes p)] :=
    toGroups_concat pieces p
  unfold Merging.finish
  rw [if_neg (by exact hne), hgps, getLast?_concat]
  show (if p.all observed = pending.all observed then _ else _) = _
  rw [if_pos (hpiece.trans hpen.symm), dropLast_concat, toGroups_concat]
  simp [stageGroup, mergingOf, total_append]

theorem finish_of_ne (hne : pending ≠ []) (hpcs : pieces ≠ []) (h : ∀ s ∈ pending, s.observed = f)
    (hla : ∀ p ∈ pieces.getLast?, p ≠ [] ∧ ∀ s ∈ p, s.observed ≠ f) :
    (mergingOf pieces pending).finish = toGroups pieces ++ [stageGroup 0 pending (total bytes pending)] := by
  obtain ⟨pieces, p, rfl⟩ := (eq_nil_or_concat' pieces).resolve_left hpcs
  obtain ⟨hp, hother⟩ := hla p getLast?_concat
  have hpiece : p.all observed = !f := all_eq_of_uniform hp fun s hs => Bool.eq_not_of_ne (hother s hs)
  have hpen : pending.all observed = f := all_eq_of_uniform hne h
  have hgps : (mergingOf (pieces ++ [p]) pending).groups = toGroups pieces ++ [stageGroup pieces.length p (total bytes p)] :=
    toGroups_concat pieces p
  unfold Merging.finish
  rw [if_neg (by exact hne), hgps, getLast?_concat]
  show (if p.all observed = pending.all observed then _ else _) = _
  rw [if_neg (by rw [hpiece, hpen]; cases f <;> decide), toGroups_concat]
  rfl

theorem flatten_rest (pending : List RuntimeStage) : (rest pending).flatten = pending := by
  unfold rest
  split
  · rename_i h
    rw [h, flatten_nil]
  · simp

theorem flatten_whole (l : List RuntimeStage) : (whole minimum l).flatten = l := by
  rw [whole, flatten_append, flatten_rest, flatten_cut, nil_append]

theorem ne_nil_of_mem_rest (h : p ∈ rest pending) : p ≠ [] := by
  unfold rest at h
  split at h
  · cases h
  · rename_i hne
    exact mem_singleton.1 h ▸ hne

theorem ne_nil_of_mem_whole (hmin : 0 < minimum) {l : List RuntimeStage} (h : p ∈ whole minimum l) : p ≠ [] := by
  rcases mem_append.1 h with h | h
  · exact ((cut_spec hmin [] hmin l).1 p h).ne_nil
  · exact ne_nil_of_mem_rest h

theorem flatten_joinLast (pieces : List (List RuntimeStage)) (left : List RuntimeStage) :
    (joinLast pieces left).flatten = pieces.flatten ++ left := by
  unfold joinLast
  split
  · rename_i hnil
    rw [hnil, append_nil]
  · split
    · rename_i hno
      rw [getLast?_eq_none_iff.1 hno]
      simp
    · rename_i p hso
      obtain ⟨pieces, rfl⟩ := getLast?_eq_some_iff.1 hso
      rw [dropLast_concat]
      simp

theorem flatten_lastPieces (l : List RuntimeStage) : (lastPieces minimum l).flatten = l := by
  rw [lastPieces, flatten_joinLast, flatten_cut, nil_append]

theorem mem_joinLast {left : List RuntimeStage} (h : p ∈ joinLast pieces left) :
    (∃ q ∈ pieces, q <+: p) ∨ pieces = [] ∧ left ≠ [] ∧ p = left := by
  unfold joinLast at h
  split at h
  · exact .inl ⟨p, h, prefix_rfl⟩
  · rename_i hne
    split at h
    · rename_i hno
      exact .inr ⟨getLast?_eq_none_iff.1 hno, hne, mem_singleton.1 h⟩
    · rename_i q hso
      rcases mem_append.1 h with h | h
      · exact .inl ⟨p, (dropLast_sublist _).subset h, prefix_rfl⟩
      · rw [mem_singleton.1 h]
        exact .inl ⟨q, mem_of_getLast? hso, prefix_append _ _⟩

theorem ne_nil_of_mem_lastPieces (hmin : 0 < minimum) {l : List RuntimeStage} (h : p ∈ lastPieces minimum l) : p ≠ [] := by
  rcases mem_joinLast h with ⟨q, hq, hpfx⟩ | ⟨-, hne, rfl⟩
  · rintro rfl
    exact ((cut_spec hmin [] hmin l).1 q hq).ne_nil (prefix_nil.1 hpfx)
  · exact hne

theorem getLast_whole (hmin : 0 < minimum) {rs : List (List RuntimeStage)} {l : List RuntimeStage} (h : RunList (rs ++ [l]))
    (hf : ∀ s ∈ l, s.observed = f) : ∀ p ∈ (rs.flatMap (whole minimum)).getLast?, p ≠ [] ∧ ∀ s ∈ p, s.observed ≠ f := by
  intro p hp
  rcases eq_nil_or_concat' rs with rfl | ⟨rs, r, rfl⟩
  · cases hp
  · have hwhole : whole minimum r ≠ [] := by
      intro hnil
      have hflt := @flatten_whole minimum r
      rw [hnil] at hflt
      exact h.ne_nil r (by simp) hflt.symm
    rw [flatMap_append, flatMap_singleton, getLast?_append_of_ne_nil _ hwhole] at hp
    have hmem := mem_of_getLast? hp
    refine ⟨ne_nil_of_mem_whole hmin hmem, fun s hs => ?_⟩
    have hr : s ∈ r := @flatten_whole minimum r ▸ mem_flatten.2 ⟨p, hmem, hs⟩
    have hne := h.ne_nil l (by simp)
    have hdif := (isChain_append.1 h.differ).2.2 r (by simp) l rfl s hr _ (head_mem hne)
    rwa [hf _ (head_mem hne)] at hdif

theorem mergeStages_eq (hmin : 0 < minimum) {rs : List (List RuntimeStage)} {l : List RuntimeStage} (h : RunList (rs ++ [l])) :
    mergeStages (rs ++ [l]).flatten minimum =
      if rs ≠ [] ∧ (cut bytes minimum [] l).1 = [] then
        toGroups (rs.flatMap (whole minimum)) ++ [stageGroup 0 l (total bytes l)]
      else toGroups (rs.flatMap (whole minimum) ++ lastPieces minimum l) := by
  have hl := h.ne_nil l (mem_append_right _ (mem_singleton.2 rfl))
  obtain ⟨f, hf⟩ := h.uniform l (mem_append_right _ (mem_singleton.2 rfl))
  have hrun := @foldl_add_runs minimum [] [] rs l h (by simp)
  have hflt := @flatten_cut RuntimeStage bytes minimum [] l
  have htight := (@cut_spec _ bytes minimum hmin [] hmin l).1
  have hla := getLast_whole hmin h hf
  unfold mergeStages
  show ((rs ++ [l]).flatten.foldl (Merging.add minimum) (mergingOf [] [])).finish = _
  rw [hrun, nil_append, rest, if_pos rfl, nil_append]
  unfold lastPieces
  generalize cut bytes minimum [] l = c at hflt htight ⊢
  obtain ⟨pieces, left⟩ := c
  simp only [nil_append] at hflt htight ⊢
  unfold joinLast
  by_cases hleft : left = []
  · have hpcs : pieces ≠ [] := by
      rintro rfl
      rw [hleft] at hflt
      exact hl hflt.symm
    rw [if_neg fun h => hpcs h.2, if_pos hleft, hleft, finish_of_nil]
  rw [if_neg hleft]
  rcases eq_nil_or_concat' pieces with rfl | ⟨pieces, p, rfl⟩
  · rw [flatten_nil, nil_append] at hflt
    subst hflt
    rw [append_nil]
    by_cases hrs : rs = []
    · rw [if_neg fun h => h.1 hrs, hrs]
      exact if_neg hleft
    · have hwhole : rs.flatMap (whole minimum) ≠ [] := by
        obtain ⟨r, hr⟩ := exists_mem_of_ne_nil rs hrs
        intro hnil
        have hflat := @flatten_whole minimum r
        rw [flatMap_eq_nil_iff.1 hnil r hr] at hflat
        exact h.ne_nil r (mem_append_left _ hr) hflat.symm
      rw [if_pos ⟨hrs, rfl⟩, finish_of_ne hl hwhole hf hla]
  · have huni : ∀ s ∈ p ++ left, s.observed = f := by
      intro s hs
      refine hf s ?_
      rw [← hflt, flatten_append, flatten_singleton, append_assoc]
      exact mem_append_right _ hs
    rw [if_neg fun h => append_ne_nil_of_right_ne_nil _ (cons_ne_nil _ _) h.2, getLast?_concat, dropLast_concat,
      ← append_assoc, finish_of_eq hleft (htight p (by simp)).ne_nil huni, append_assoc]

end

/-! ## Usable groups -/

/-- An entry of weights and flags has the minimum, or neighbours with the other flag. -/
def Large (minimum : Nat) (l : List (Nat × Bool)) : Prop := ∀ before e after, l = before ++ e :: after →
  minimum ≤ e.1 ∨ (∀ e' ∈ before.getLast?, e'.2 ≠ e.2) ∧ ∀ e' ∈ after.head?, e'.2 ≠ e.2

structure IsGroupOf (piece : List RuntimeStage) (group : StageGroup) : Prop where
  ne_nil : piece ≠ []
  stages : group.stages = piece.map stageName
  parameters : group.parameters = piece.flatMap parameters
  observed : ∀ s ∈ piece, s.observed = group.observed
  logicalBytes : group.logicalBytes = total bytes piece

/-- The groups are made of the stages in their order, their ids are their places, and only one that has its run for itself is
small. -/
structure Usable (minimum : Nat) (stages : List RuntimeStage) (groups : List StageGroup) : Prop where
  pieces : ∃ pieces, pieces.flatten = stages ∧ List.Forall₂ IsGroupOf pieces groups
  ids : groups.map StageGroup.groupId = range groups.length
  large : Large minimum (groups.map fun g => (g.logicalBytes, g.observed))

theorem large_of_le {minimum : Nat} {l : List (Nat × Bool)} (h : ∀ e ∈ l, minimum ≤ e.1) : Large minimum l :=
  fun _ e _ heq => .inl (h e (by rw [heq]; simp))

theorem large_singleton (minimum : Nat) (e : Nat × Bool) : Large minimum [e] := by
  intro before e' after heq
  cases before with
  | nil =>
    cases heq
    exact .inr ⟨by simp, by simp⟩
  | cons x before => cases before <;> cases heq

theorem large_append {minimum : Nat} {l l' : List (Nat × Bool)} (h : Large minimum l) (h' : Large minimum l')
    (hborder : ∀ e ∈ l.getLast?, ∀ e' ∈ l'.head?, e.2 ≠ e'.2) : Large minimum (l ++ l') := by
  intro before e after heq
  rcases append_eq_append_iff.1 heq with ⟨front, rfl, hl'⟩ | ⟨back, rfl, hback⟩
  · refine (h' front e after hl').imp_right fun hdif => ⟨?_, hdif.2⟩
    rcases eq_nil_or_concat' front with rfl | ⟨front, x, rfl⟩
    · rw [append_nil]
      exact fun x hx => hborder x hx e (by rw [hl']; rfl)
    · rw [getLast?_append_of_ne_nil _ (by simp)]
      exact hdif.1
  · cases back with
    | nil =>
      rw [nil_append] at hback
      refine (h' [] e after hback.symm).imp_right fun hdif => ⟨fun x hx => ?_, hdif.2⟩
      rw [append_nil] at hborder
      exact hborder x hx e (by rw [← hback]; rfl)
    | cons x back =>
      obtain ⟨rfl, rfl⟩ := cons.inj hback
      refine (h before e back rfl).imp_right fun hdif => ⟨hdif.1, fun x hx => ?_⟩
      cases back with
      | nil =>
        have hla := hborder e (by simp) x hx
        exact fun heq => hla heq.symm
      | cons y back => exact hdif.2 x hx

/-- What `Large` looks at in a piece. -/
def weightAndFlag (p : List RuntimeStage) : Nat × Bool := (total RuntimeStage.bytes p, p.all RuntimeStage.observed)

theorem flag_of_piece {ps : List (List RuntimeStage)} {p : List RuntimeStage}
    (h : ∃ f, ∀ s ∈ ps.flatten, s.observed = f) (hne : p ≠ [])
    (hp : p ∈ ps) : ∃ s ∈ ps.flatten, p.all observed = s.observed := by
  obtain ⟨f, hf⟩ := h
  obtain ⟨s, hs⟩ := exists_mem_of_ne_nil p hne
  have hmem : ∀ s ∈ p, s ∈ ps.flatten := fun s hs => mem_flatten.2 ⟨p, hp, hs⟩
  exact ⟨s, hmem s hs, (all_eq_of_uniform hne fun s hs => hf s (hmem s hs)).trans (hf s (hmem s hs)).symm⟩

theorem large_of_runs {minimum : Nat} {pieceLists : List (List (List RuntimeStage))} (h : RunList (pieceLists.map flatten))
    (hpcs : ∀ ps ∈ pieceLists, ∀ p ∈ ps, p ≠ []) (hlrg : ∀ ps ∈ pieceLists, Large minimum (ps.map weightAndFlag)) :
    Large minimum (pieceLists.flatten.map weightAndFlag) := by
  induction pieceLists with
  | nil => exact large_of_le (by simp)
  | cons ps pieceLists ih =>
    rw [map_cons] at h
    have hrs : RunList (pieceLists.map flatten) := ⟨fun x hx => h.ne_nil x (mem_cons_of_mem _ hx),
      fun x hx => h.uniform x (mem_cons_of_mem _ hx), h.differ.tail⟩
    rw [flatten_cons, map_append]
    refine large_append (hlrg ps mem_cons_self)
      (ih hrs (fun x hx => hpcs x (mem_cons_of_mem _ hx)) fun x hx => hlrg x (mem_cons_of_mem _ hx)) ?_
    intro e he e' he'
    cases pieceLists with
    | nil => cases he'
    | cons qs pieceLists =>
      have hqs : qs ≠ [] := by
        rintro rfl
        exact h.ne_nil [] (by simp) rfl
      obtain ⟨q, hq⟩ := exists_mem_of_ne_nil qs hqs
      rw [flatten_cons, map_append, head?_append_of_ne_nil _ (by simpa using hqs)] at he'
      obtain ⟨p, hp, rfl⟩ := mem_map.1 (mem_of_getLast? he)
      obtain ⟨q, hq, rfl⟩ := mem_map.1 (mem_of_mem_head? he')
      obtain ⟨s, hs, hflag⟩ := flag_of_piece (h.uniform _ mem_cons_self) (hpcs _ mem_cons_self p hp) hp
      obtain ⟨s', hs', hflag'⟩ := flag_of_piece (h.uniform _ (mem_cons_of_mem _ mem_cons_self))
        (hpcs _ (mem_cons_of_mem _ mem_cons_self) q hq) hq
      show p.all observed ≠ q.all observed
      rw [hflag, hflag']
      exact (isChain_cons_cons.1 h.differ).1 s hs s' hs'

/-! ## The groups of `merge_stages` -/

theorem isGroupOf_stageGroup {i : Nat} {p : List RuntimeStage} (hne : p ≠ []) (h : ∃ f, ∀ s ∈ p, s.observed = f) :
    IsGroupOf p (stageGroup i p (total bytes p)) := by
  obtain ⟨f, hf⟩ := h
  exact ⟨hne, rfl, rfl, fun s hs => (hf s hs).trans (all_eq_of_uniform hne hf).symm, rfl⟩

theorem forall₂_toGroups {pieces : List (List RuntimeStage)} (hne : ∀ p ∈ pieces, p ≠ [])
    (huni : ∀ p ∈ pieces, ∃ f, ∀ s ∈ p, s.observed = f) : List.Forall₂ IsGroupOf pieces (toGroups pieces) := by
  induction pieces using reverseRecOn with
  | nil => exact .nil
  | append_singleton pieces p ih =>
    rw [forall_mem_append] at hne huni
    rw [toGroups_concat]
    exact rel_append (ih hne.1 huni.1) (.cons (isGroupOf_stageGroup (hne.2 p (by simp)) (huni.2 p (by simp))) .nil)

theorem map_groupId_toGroups (pieces : List (List RuntimeStage)) :
    (toGroups pieces).map StageGroup.groupId = range pieces.length := by
  induction pieces using reverseRecOn with
  | nil => rfl
  | append_singleton pieces p ih =>
    rw [toGroups_concat, map_append, ih, length_append, length_singleton, range_succ]
    rfl

theorem map_weightAndFlag_toGroups (pieces : List (List RuntimeStage)) :
    (toGroups pieces).map (fun g => (g.logicalBytes, g.observed)) = pieces.map weightAndFlag := by
  induction pieces using reverseRecOn with
  | nil => rfl
  | append_singleton pieces p ih =>
    rw [toGroups_concat, map_append, ih, map_append]
    rfl

section

variable {minimum : Nat} {rs : List (List RuntimeStage)} {l : List RuntimeStage}

theorem lastPieces_of_nil (h : (cut RuntimeStage.bytes minimum [] l).1 = []) (hne : l ≠ []) : lastPieces minimum l = [l] := by
  have hflt := @flatten_cut RuntimeStage bytes minimum [] l
  rw [h, flatten_nil, nil_append, nil_append] at hflt
  rw [lastPieces, h, hflt, joinLast, if_neg hne]
  rfl

theorem large_lastPieces (hmin : 0 < minimum) (hne : l ≠ []) : Large minimum ((lastPieces minimum l).map weightAndFlag) := by
  by_cases hnil : (cut bytes minimum [] l).1 = []
  · rw [lastPieces_of_nil hnil hne]
    exact large_singleton _ _
  · refine large_of_le fun e he => ?_
    obtain ⟨p, hp, rfl⟩ := mem_map.1 he
    rcases mem_joinLast hp with ⟨q, hq, t, rfl⟩ | ⟨hpcs, -⟩
    · have hle := ((@cut_spec _ bytes minimum hmin [] hmin l).1 q hq).le
      exact hle.trans ((Nat.le_add_right _ _).trans_eq (total_append q t).symm)
    · exact absurd hpcs hnil

theorem large_whole (hmin : 0 < minimum)
    (h : (cut bytes minimum [] l).1 = [] ∨ (cut bytes minimum [] l).2 = []) :
    Large minimum ((whole minimum l).map weightAndFlag) := by
  unfold whole rest
  rcases h with h | h
  · rw [h, nil_append]
    split
    · exact large_of_le (by simp)
    · exact large_singleton _ _
  · rw [if_pos h, append_nil]
    refine large_of_le fun e he => ?_
    obtain ⟨p, hp, rfl⟩ := mem_map.1 he
    exact ((cut_spec hmin [] hmin l).1 p hp).le

theorem map_flatten_pieceLists : (rs.map (whole minimum) ++ [lastPieces minimum l]).map flatten = rs ++ [l] := by
  have hwhole : (flatten ∘ whole minimum : List RuntimeStage → List RuntimeStage) = id := funext flatten_whole
  rw [map_append, map_map, hwhole, map_id, map_singleton, flatten_lastPieces]

theorem ne_nil_of_mem_pieceLists (hmin : 0 < minimum) :
    ∀ ps ∈ rs.map (whole minimum) ++ [lastPieces minimum l], ∀ p ∈ ps, p ≠ [] := by
  intro ps hps p hp
  rcases mem_append.1 hps with hps | hps
  · obtain ⟨r, -, rfl⟩ := mem_map.1 hps
    exact ne_nil_of_mem_whole hmin hp
  · rw [mem_singleton.1 hps] at hp
    exact ne_nil_of_mem_lastPieces hmin hp

theorem mergeStages_pieces (hmin : 0 < minimum) (h : RunList (rs ++ [l])) :
    List.Forall₂ IsGroupOf (rs.map (whole minimum) ++ [lastPieces minimum l]).flatten
      (mergeStages (rs ++ [l]).flatten minimum) ∧
      (mergeStages (rs ++ [l]).flatten minimum).map (fun g => (g.logicalBytes, g.observed)) =
        (rs.map (whole minimum) ++ [lastPieces minimum l]).flatten.map weightAndFlag := by
  have hl := h.ne_nil l (mem_append_right _ (mem_singleton.2 rfl))
  have hpcs : (rs.map (whole minimum) ++ [lastPieces minimum l]).flatten = rs.flatMap (whole minimum) ++
    lastPieces minimum l := by
    rw [flatten_append, flatten_singleton, flatMap_def]
  have hruns : RunList ((rs.map (whole minimum) ++ [lastPieces minimum l]).map flatten) := map_flatten_pieceLists.symm ▸ h
  have hne : ∀ p ∈ (rs.map (whole minimum) ++ [lastPieces minimum l]).flatten, p ≠ [] := by
    intro p hp
    obtain ⟨ps, hps, hp⟩ := mem_flatten.1 hp
    exact ne_nil_of_mem_pieceLists hmin ps hps p hp
  have huni : ∀ p ∈ (rs.map (whole minimum) ++ [lastPieces minimum l]).flatten, ∃ f, ∀ s ∈ p, s.observed = f := by
    intro p hp
    obtain ⟨ps, hps, hp⟩ := mem_flatten.1 hp
    obtain ⟨f, hf⟩ := hruns.uniform _ (mem_map_of_mem hps)
    exact ⟨f, fun s hs => hf s (mem_flatten.2 ⟨p, hp, hs⟩)⟩
  rw [hpcs] at hne huni ⊢
  rw [mergeStages_eq hmin h]
  split
  · rename_i hla
    rw [lastPieces_of_nil hla.2 hl] at hne huni ⊢
    rw [forall_mem_append] at hne huni
    refine ⟨rel_append (forall₂_toGroups hne.1 huni.1)
      (.cons (isGroupOf_stageGroup (hne.2 l (by simp)) (huni.2 l (by simp))) .nil), ?_⟩
    rw [map_append, map_weightAndFlag_toGroups, map_append]
    rfl
  · exact ⟨forall₂_toGroups hne huni, map_weightAndFlag_toGroups _⟩

theorem mergeStages_ids (hmin : 0 < minimum) (h : RunList (rs ++ [l])) :
    (mergeStages (rs ++ [l]).flatten minimum).map StageGroup.groupId = range (mergeStages (rs ++ [l]).flatten minimum).length ↔
      (rs = [] ∨ (cut bytes minimum [] l).1 ≠ []) := by
  rw [mergeStages_eq hmin h]
  split
  · rename_i hla
    refine iff_of_false ?_ (fun hor => hor.elim hla.1 fun hne => hne hla.2)
    intro hids
    rw [map_append, map_groupId_toGroups, length_append, length_toGroups, length_singleton, range_succ] at hids
    have hzero : 0 = (rs.flatMap (whole minimum)).length := singleton_inj.1 (append_cancel_left hids)
    obtain ⟨r, hr⟩ := exists_mem_of_ne_nil rs hla.1
    have hflat := @flatten_whole minimum r
    rw [flatMap_eq_nil_iff.1 (length_eq_zero_iff.1 hzero.symm) r hr] at hflat
    exact h.ne_nil r (mem_append_left _ hr) hflat.symm
  · rename_i hnot
    refine iff_of_true (by rw [map_groupId_toGroups, length_toGroups]) ?_
    by_cases hrs : rs = []
    · exact .inl hrs
    · exact .inr fun hnil => hnot ⟨hrs, hnil⟩

theorem mergeStages_large (hmin : 0 < minimum) (h : RunList (rs ++ [l])) :
    Large minimum ((mergeStages (rs ++ [l]).flatten minimum).map fun g => (g.logicalBytes, g.observed)) ↔
      ∀ r ∈ rs, (cut bytes minimum [] r).1 = [] ∨ (cut bytes minimum [] r).2 = [] := by
  rw [(mergeStages_pieces hmin h).2]
  constructor
  · intro hlrg r hr
    by_contra hboth
    push Not at hboth
    obtain ⟨rs, rs', rfl⟩ := append_of_mem hr
    obtain ⟨pieces, p, hp⟩ := (eq_nil_or_concat' _).resolve_left hboth.1
    obtain ⟨f, hf⟩ := h.uniform r (by simp)
    have hflt := @flatten_cut RuntimeStage bytes minimum [] r
    obtain ⟨htight, hsml⟩ := @cut_spec _ bytes minimum hmin [] hmin r
    have hwhole : whole minimum r = pieces ++ [p] ++ [(cut bytes minimum [] r).2] := by
      rw [whole, hp, rest, if_neg hboth.2]
    rw [nil_append, hp, flatten_append, flatten_singleton, append_assoc] at hflt
    have hflag : p.all observed = (cut bytes minimum [] r).2.all observed := by
      rw [all_eq_of_uniform (htight p (by simp [hp])).ne_nil fun s hs => hf s (hflt ▸ by simp [hs]),
        all_eq_of_uniform hboth.2 fun s hs => hf s (hflt ▸ by simp [hs])]
    have hplace : (((rs ++ r :: rs').map (whole minimum) ++ [lastPieces minimum l]).flatten.map weightAndFlag) =
        (((rs.map (whole minimum)).flatten ++ pieces).map weightAndFlag ++ [weightAndFlag p]) ++
          weightAndFlag (cut bytes minimum [] r).2 ::
            ((rs'.map (whole minimum)).flatten ++ lastPieces minimum l).map weightAndFlag := by
      simp [hwhole]
    rcases hlrg _ _ _ hplace with hle | ⟨hbef, -⟩
    · exact absurd hle (Nat.not_le.2 hsml)
    · exact hbef _ getLast?_concat hflag
  · intro hcut
    refine large_of_runs (map_flatten_pieceLists.symm ▸ h) (ne_nil_of_mem_pieceLists hmin) fun ps hps => ?_
    rcases mem_append.1 hps with hps | hps
    · obtain ⟨r, hr, rfl⟩ := mem_map.1 hps
      exact large_whole hmin (hcut r hr)
    · rw [mem_singleton.1 hps]
      exact large_lastPieces hmin (h.ne_nil l (by simp))

end

/-- The groups are usable exactly when every run but the last is lighter than the minimum or made of tight pieces, and the last
run is the only one or has the minimum. -/
theorem mergeStages_usable_iff (stages : List RuntimeStage) {minimum : Nat} (hminimum : 1 ≤ minimum) :
    Usable minimum stages (mergeStages stages minimum) ↔
      (∀ run ∈ (runs stages).dropLast, total bytes run < minimum ∨ Tiled bytes minimum run) ∧
      ∀ run ∈ (runs stages).getLast?, (runs stages).length = 1 ∨ minimum ≤ total bytes run := by
  have hruns := runList_runs stages
  have hflt := flatten_runs stages
  generalize runs stages = all at hruns hflt ⊢
  subst hflt
  rcases eq_nil_or_concat' all with rfl | ⟨rs, l, rfl⟩
  · exact iff_of_true ⟨⟨[], rfl, .nil⟩, rfl, large_of_le (by simp [mergeStages, Merging.finish])⟩ ⟨by simp, by simp⟩
  · obtain ⟨hpcs, -⟩ := mergeStages_pieces hminimum hruns
    have hprs : Usable minimum (rs ++ [l]).flatten (mergeStages (rs ++ [l]).flatten minimum) ↔
        (∀ r ∈ rs, (cut bytes minimum [] r).1 = [] ∨ (cut bytes minimum [] r).2 = []) ∧
          (rs = [] ∨ (cut bytes minimum [] l).1 ≠ []) := by
      rw [← mergeStages_large hminimum hruns, ← mergeStages_ids hminimum hruns]
      refine ⟨fun h => ⟨h.large, h.ids⟩, fun h => ⟨⟨_, ?_, hpcs⟩, h.2, h.1⟩⟩
      rw [flatten_flatten, map_flatten_pieceLists]
    rw [hprs, dropLast_concat]
    refine and_congr (forall₂_congr fun r _ => or_congr (cut_fst_eq_nil_iff hminimum r) (cut_snd_eq_nil_iff hminimum r)) ?_
    simp [cut_fst_eq_nil_iff hminimum]

def seenStages : List RuntimeStage := [⟨"embed", [], 12, true⟩, ⟨"norm", [], 3, true⟩]

def mixedStages : List RuntimeStage :=
  [⟨"__unobserved__", [], 2, false⟩, ⟨"layer0", [], 10, true⟩, ⟨"__unobserved__", [], 4, false⟩] ++ seenStages

theorem mergeStages_usable_iff_mixedStages : Usable 10 mixedStages (mergeStages mixedStages 10) := by
  refine (mergeStages_usable_iff mixedStages (by decide)).2 ⟨fun run hrun => ?_, by decide⟩
  have hruns : (runs mixedStages).dropLast =
      [[⟨"__unobserved__", [], 2, false⟩], [⟨"layer0", [], 10, true⟩], [⟨"__unobserved__", [], 4, false⟩]] := by decide
  rw [hruns] at hrun
  simp only [mem_cons, not_mem_nil, or_false] at hrun
  rcases hrun with rfl | rfl | rfl
  · exact .inl (by decide)
  · exact .inr ((cut_snd_eq_nil_iff (by decide) _).1 (by decide))
  · exact .inl (by decide)

/-- With a stage that was not seen, the second group is small beside the first, and the third has the id of the first. -/
theorem leftover_not_usable :
    ¬ Usable 10 (seenStages ++ [⟨"__unobserved__", [], 2, false⟩])
      (mergeStages (seenStages ++ [⟨"__unobserved__", [], 2, false⟩]) 10) :=
  fun h => absurd h.ids (by decide)

end ServerlessLLM.Layerweave
