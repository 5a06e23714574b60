import Mathlib.Algebra.GroupWithZero.Nat
import Mathlib.Algebra.Order.BigOperators.Group.List

/-!
# Cutting a list where a weight is reached

A list is cut behind the first entry at which the pending entries weigh the minimum, and so on; what remains at the end is left
over. The pieces are tight: without its last entry a piece is too light. There is one way to cut a list into tight pieces
(`cut_flatten`).
-/

namespace Cutting

open List

variable {α : Type}

def total (weight : α → ℕ) (l : List α) : ℕ := (l.map weight).sum

/-- A piece has the minimum, but not without its last entry. -/
def Tight (weight : α → ℕ) (minimum : ℕ) (piece : List α) : Prop :=
  ∃ l x, piece = l ++ [x] ∧ total weight l < minimum ∧ minimum ≤ total weight piece

def Tiled (weight : α → ℕ) (minimum : ℕ) (l : List α) : Prop :=
  ∃ pieces : List (List α), pieces.flatten = l ∧ ∀ p ∈ pieces, Tight weight minimum p

/-- The pieces and what is left over, when some entries are pending. -/
def cut (weight : α → ℕ) (minimum : ℕ) (pending : List α) : List α → List (List α) × List α
  | [] => ([], pending)
  | x :: l =>
    if minimum ≤ total weight (pending ++ [x]) then
      let c := cut weight minimum [] l
      ((pending ++ [x]) :: c.1, c.2)
    else cut weight minimum (pending ++ [x]) l

variable {weight : α → ℕ} {minimum : ℕ}

@[simp] theorem total_nil : total weight [] = 0 := rfl

theorem total_append (l l' : List α) : total weight (l ++ l') = total weight l + total weight l' := by
  unfold total
  rw [map_append, sum_append]

theorem Tight.ne_nil {piece : List α} (h : Tight weight minimum piece) : piece ≠ [] := by
  obtain ⟨l, x, rfl, -⟩ := h
  simp

theorem Tight.le {piece : List α} (h : Tight weight minimum piece) : minimum ≤ total weight piece := by
  obtain ⟨l, x, -, -, h⟩ := h
  exact h

theorem flatten_cut (pending l : List α) :
    (cut weight minimum pending l).1.flatten ++ (cut weight minimum pending l).2 = pending ++ l := by
  induction l generalizing pending with
  | nil => simp [cut]
  | cons x l ih =>
    unfold cut
    split
    · rw [flatten_cons, append_assoc, ih, nil_append, append_assoc]
      rfl
    · rw [ih, append_assoc]
      rfl

theorem cut_spec (h : 0 < minimum) (pending : List α) (hpen : total weight pending < minimum) (l : List α) :
    (∀ p ∈ (cut weight minimum pending l).1, Tight weight minimum p) ∧
      total weight (cut weight minimum pending l).2 < minimum := by
  induction l generalizing pending with
  | nil => exact ⟨fun _ h => absurd h not_mem_nil, hpen⟩
  | cons x l ih =>
    unfold cut
    split
    · rename_i hle
      obtain ⟨htight, hsml⟩ := ih [] h
      exact ⟨forall_mem_cons.2 ⟨⟨pending, x, rfl, hpen, hle⟩, htight⟩, hsml⟩
    · rename_i hlt
      exact ih _ (Nat.lt_of_not_le hlt)

theorem cut_append (pending l l' : List α) (h : total weight (pending ++ l) < minimum) :
    cut weight minimum pending (l ++ l') = cut weight minimum (pending ++ l) l' := by
  induction l generalizing pending with
  | nil => rw [nil_append, append_nil]
  | cons x l ih =>
    rw [append_cons] at h
    have hx : ¬ minimum ≤ total weight (pending ++ [x]) := by
      rw [total_append] at h
      omega
    rw [cons_append, cut, if_neg hx, ih _ h, ← append_cons]

theorem cut_flatten {pieces : List (List α)} (h : ∀ p ∈ pieces, Tight weight minimum p) :
    cut weight minimum [] pieces.flatten = (pieces, []) := by
  induction pieces with
  | nil => rfl
  | cons p pieces ih =>
    obtain ⟨l, x, rfl, hlt, hle⟩ := h p mem_cons_self
    rw [flatten_cons, append_assoc, cut_append [] l _ hlt, nil_append, singleton_append, cut, if_pos hle,
      ih fun p hp => h p (mem_cons_of_mem _ hp)]

theorem cut_snd_eq_nil_iff (h : 0 < minimum) (l : List α) : (cut weight minimum [] l).2 = [] ↔ Tiled weight minimum l := by
  constructor
  · intro hnil
    refine ⟨(cut weight minimum [] l).1, ?_, (cut_spec h [] h l).1⟩
    have hflt := @flatten_cut α weight minimum [] l
    rwa [hnil, append_nil, nil_append] at hflt
  · rintro ⟨pieces, rfl, htight⟩
    rw [cut_flatten htight]

theorem cut_fst_eq_nil_iff (h : 0 < minimum) (l : List α) : (cut weight minimum [] l).1 = [] ↔ total weight l < minimum := by
  constructor
  · intro hnil
    have hflt := @flatten_cut α weight minimum [] l
    rw [hnil, flatten_nil, nil_append, nil_append] at hflt
    exact hflt ▸ (cut_spec h [] h l).2
  · intro hlt
    have hcut := @cut_append α weight minimum [] l [] hlt
    rw [append_nil] at hcut
    rw [hcut, cut]

end Cutting
