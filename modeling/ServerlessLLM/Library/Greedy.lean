import Mathlib.Data.List.Perm.Basic
import ServerlessLLM.Library.Tiling

/-!
# Taking from the front of an ordered list until enough is taken

A greedy loop goes through candidates in the order of a strict comparison and takes them one by one until the units they are
worth reach a need. `takeUntil` is what it takes; a candidate is taken exactly when the candidates before it do not reach the
need. The candidates stand in a list without equal entries, as an ordered set keeps them (`insertBy`).
-/

namespace Greedy

open List Tiling

variable {α : Type}

/-! ## Ordered insertion -/

/-- Insert into an ordered list; an entry that the comparison cannot tell from one of the list is dropped. -/
def insertBy (lt : α → α → Bool) (e : α) : List α → List α
  | [] => [e]
  | x :: l => if lt e x then e :: x :: l else if lt x e then x :: insertBy lt e l else x :: l

theorem insertBy_spec {lt : α → α → Bool} (htrans : ∀ x y z, lt x y → lt y z → lt x z) {e : α} {l : List α}
    (hl : l.Pairwise fun x y => lt x y) (he : ∀ x ∈ l, lt e x ∨ lt x e) :
    (insertBy lt e l).Pairwise (fun x y => lt x y) ∧ (insertBy lt e l).Perm (e :: l) := by
  induction l with
  | nil => simp [insertBy]
  | cons x l ih =>
    obtain ⟨h1, h2⟩ := pairwise_cons.1 hl
    unfold insertBy
    by_cases hex : lt e x
    · rw [if_pos hex]
      refine ⟨pairwise_cons.2 ⟨?_, hl⟩, List.Perm.refl _⟩
      intro y hy
      rcases mem_cons.1 hy with rfl | hy
      · exact hex
      · exact htrans _ _ _ hex (h1 y hy)
    · have hxe : lt x e := (he x (by simp)).resolve_left hex
      obtain ⟨h3, h4⟩ := ih h2 fun y hy => he y (by simp [hy])
      rw [if_neg hex, if_pos hxe]
      refine ⟨pairwise_cons.2 ⟨?_, h3⟩, (h4.cons x).trans (List.Perm.swap _ _ _)⟩
      intro y hy
      rcases mem_cons.1 (h4.subset hy) with rfl | hy
      · exact hxe
      · exact h1 y hy

/-! ## Taking until enough is taken -/

/-- The entries taken from the front of a list, when `taken` units were taken before and `need` are needed. -/
def takeUntil (units : α → Nat) (need : Nat) : Nat → List α → List α
  | _, [] => []
  | taken, x :: l => if taken < need then x :: takeUntil units need (taken + units x) l else []

variable {units : α → Nat} {need : Nat}

theorem takeUntil_subset (taken : Nat) (l : List α) : takeUntil units need taken l ⊆ l := by
  induction l generalizing taken with
  | nil => simp [takeUntil]
  | cons x l ih =>
    unfold takeUntil
    split
    · exact cons_subset_cons _ (ih _)
    · simp

theorem takeUntil_prefix (taken : Nat) (l : List α) : takeUntil units need taken l <+: l := by
  induction l generalizing taken with
  | nil => exact prefix_rfl
  | cons x l ih =>
    unfold takeUntil
    split
    · exact (prefix_cons_inj x).2 (ih _)
    · exact nil_prefix

variable {taken : Nat} {l : List α} {x : α} {lt : α → α → Bool}

theorem takeUntil_last {init : List α} (h : takeUntil units need taken l = init ++ [x]) :
    taken + total units init < need := by
  induction l generalizing taken init with
  | nil => simp [takeUntil] at h
  | cons y l ih =>
    unfold takeUntil at h
    split at h
    · cases init with
      | nil => simpa
      | cons z init =>
        obtain ⟨rfl, hrs⟩ := List.cons.inj (h.trans cons_append)
        have := ih hrs
        rw [total_cons]
        omega
    · simp at h

theorem mem_takeUntil_iff :
    x ∈ takeUntil units need taken l ↔ ∃ before after, l = before ++ x :: after ∧ taken + total units before < need := by
  induction l generalizing taken with
  | nil => simp [takeUntil]
  | cons y l ih =>
    unfold takeUntil
    constructor
    · intro h
      split at h
      · rcases mem_cons.1 h with rfl | h
        · exact ⟨[], l, rfl, by simpa⟩
        · obtain ⟨before, after, rfl, hlt⟩ := ih.1 h
          exact ⟨y :: before, after, rfl, by rw [total_cons]; omega⟩
      · simp at h
    · rintro ⟨before, after, hl, hlt⟩
      rw [if_pos (by omega)]
      cases before with
      | nil =>
        obtain ⟨rfl, -⟩ : y = x ∧ l = after := by simpa using hl
        simp
      | cons z before =>
        obtain ⟨rfl, rfl⟩ : y = z ∧ l = before ++ x :: after := by simpa using hl
        rw [total_cons] at hlt
        exact mem_cons_of_mem _ (ih.2 ⟨before, after, rfl, by omega⟩)

theorem takeUntil_eq_self (h : taken + Tiling.total units (takeUntil units need taken l) < need) :
    takeUntil units need taken l = l := by
  induction l generalizing taken with
  | nil => rfl
  | cons x l ih =>
    have hlt : taken < need := by omega
    rw [takeUntil, if_pos hlt] at h ⊢
    rw [total_cons] at h
    rw [ih (by omega)]

theorem filter_before (hirr : ∀ x, lt x x = false) (hasym : ∀ x y, lt x y → lt y x = false)
    {before after : List α} (hl : (before ++ x :: after).Pairwise fun y z => lt y z) :
    (before ++ x :: after).filter (fun y => lt y x) = before := by
  obtain ⟨-, h2, h3⟩ := pairwise_append.1 hl
  rw [filter_append, filter_cons, hirr x, filter_eq_self.2 fun y hy => h3 y hy x (by simp)]
  have : after.filter (fun y => lt y x) = [] := by
    rw [filter_eq_nil_iff]
    intro y hy
    simp [hasym x y ((pairwise_cons.1 h2).1 y hy)]
  simp [this]

theorem mem_takeUntil_iff_filter (hirr : ∀ x, lt x x = false)
    (hasym : ∀ x y, lt x y → lt y x = false) (hl : l.Pairwise fun y z => lt y z) (hx : x ∈ l) :
    x ∈ takeUntil units need 0 l ↔ total units (l.filter fun y => lt y x) < need := by
  rw [mem_takeUntil_iff]
  constructor
  · rintro ⟨before, after, rfl, hlt⟩
    rw [filter_before hirr hasym hl]
    omega
  · intro hlt
    obtain ⟨before, after, rfl⟩ := append_of_mem hx
    rw [filter_before hirr hasym hl] at hlt
    exact ⟨before, after, rfl, by omega⟩

end Greedy
