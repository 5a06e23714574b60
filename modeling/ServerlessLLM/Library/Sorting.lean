import Mathlib.Algebra.BigOperators.Group.Finset.Piecewise
import Mathlib.Algebra.Order.BigOperators.Group.Finset
import Mathlib.Data.Finset.Max
import Mathlib.Data.List.Sort

/-!
# Sorted lists and buckets

If one list is nowhere above another, then it is not when both are sorted.

Items with natural numbers as keys, sorted into a list for each key. Items are added at the end of their bucket, and whoever
takes the buckets one by one, in any order, gets every item once.
-/

namespace Buckets

open List

variable {α : Type}

/-- The items with a key, in their order. -/
def items (l : List (Nat × α)) (k : Nat) : List (Nat × α) := l.filter fun e => e.1 = k

theorem mem_items {l : List (Nat × α)} {k : Nat} {e : Nat × α} : e ∈ items l k ↔ e ∈ l ∧ e.1 = k := by
  simp [items]

/-- The buckets of the keys below a bound. -/
def buckets (n : Nat) (l : List (Nat × α)) : List (List α) := (range n).map fun k => (items l k).map Prod.snd

theorem buckets_nil (n : Nat) : buckets n ([] : List (Nat × α)) = replicate n [] := by
  simp [buckets, items, map_const']

theorem getElem?_buckets {n k : Nat} (h : k < n) (l : List (Nat × α)) : (buckets n l)[k]? =
    some ((items l k).map Prod.snd) := by
  simp [buckets, h]

theorem set_buckets {n k : Nat} (h : k < n) (l : List (Nat × α)) (a : α) :
    (buckets n l).set k ((items l k).map Prod.snd ++ [a]) = buckets n (l ++ [(k, a)]) := by
  refine ext_getElem? ?_
  intro i
  rw [getElem?_set]
  split
  · rename_i hi
    subst hi
    rw [getElem?_buckets h]
    simp [buckets, items, h]
  · rename_i hi
    rcases Nat.lt_or_ge i n with hlt | hge
    · rw [getElem?_buckets hlt, getElem?_buckets hlt]
      simp [items, hi]
    · simp [buckets, hge]

theorem flatMap_items_perm {keys : List Nat} (hnd : keys.Nodup) {l : List (Nat × α)} (h : ∀ e ∈ l, e.1 ∈ keys) :
    (keys.flatMap (items l)).Perm l := by
  induction keys generalizing l with
  | nil =>
    cases l with
    | nil => exact List.Perm.nil
    | cons e l => exact absurd (h e mem_cons_self) not_mem_nil
  | cons k keys ih =>
    rw [nodup_cons] at hnd
    -- the other keys do not see the items of this one
    have hoth : keys.flatMap (items l) = keys.flatMap (items (l.filter fun e => !decide (e.1 = k))) := by
      refine flatMap_congr ?_
      intro k' hk'
      have hne : k' ≠ k := fun heq => hnd.1 (heq ▸ hk')
      rw [items, items, filter_filter]
      refine filter_congr ?_
      intro e _
      by_cases he : e.1 = k'
      · simp [he, hne]
      · simp [he]
    have hrs : ∀ e ∈ l.filter fun e => !decide (e.1 = k), e.1 ∈ keys := by
      intro e he
      simp only [mem_filter, Bool.not_eq_eq_eq_not, Bool.not_true, decide_eq_false_iff_not] at he
      exact (mem_cons.1 (h e he.1)).resolve_left he.2
    rw [flatMap_cons, hoth]
    exact ((ih hnd.2 hrs).append_left _).trans (filter_append_perm _ l)

end Buckets

namespace Sorting

variable {α : Type} [LinearOrder α] {a b : α} {l l' : List α}

theorem orderedInsert_head (h : (a :: l).Pairwise (· ≤ ·)) : l.orderedInsert (· ≤ ·) a = a :: l := by
  cases l with
  | nil => rfl
  | cons b l => exact List.orderedInsert_cons_of_le _ _ (List.rel_of_pairwise_cons h List.mem_cons_self)

theorem forall₂_orderedInsert (hab : a ≤ b) (h : List.Forall₂ (· ≤ ·) l l') (hl : l.Pairwise (· ≤ ·))
    (hl' : l'.Pairwise (· ≤ ·)) :
    List.Forall₂ (· ≤ ·) (l.orderedInsert (· ≤ ·) a) (l'.orderedInsert (· ≤ ·) b) := by
  induction h generalizing a b with
  | nil => exact .cons hab .nil
  | @cons c d l l' hcd htail ih =>
    have ih := fun {a b : α} (hab : a ≤ b) => ih (a := a) (b := b) hab hl.of_cons hl'.of_cons
    by_cases hac : a ≤ c
    · rw [List.orderedInsert_cons_of_le _ _ hac]
      by_cases hbd : b ≤ d
      · rw [List.orderedInsert_cons_of_le _ _ hbd]
        exact .cons hab (.cons hcd htail)
      · rw [List.orderedInsert_of_not_le _ _ hbd]
        refine .cons (hac.trans hcd) ?_
        rw [← orderedInsert_head hl]
        exact ih (hcd.trans (not_le.1 hbd).le)
    · rw [List.orderedInsert_of_not_le _ _ hac]
      by_cases hbd : b ≤ d
      · rw [List.orderedInsert_cons_of_le _ _ hbd]
        refine .cons ((not_le.1 hac).le.trans hab) ?_
        rw [← orderedInsert_head hl']
        exact ih (hab.trans hbd)
      · rw [List.orderedInsert_of_not_le _ _ hbd]
        exact .cons hcd (ih hab)

theorem forall₂_insertionSort (h : List.Forall₂ (· ≤ ·) l l') :
    List.Forall₂ (· ≤ ·) (l.insertionSort (· ≤ ·)) (l'.insertionSort (· ≤ ·)) := by
  induction h with
  | nil => exact .nil
  | cons hab _ ih =>
    rw [List.insertionSort_cons, List.insertionSort_cons]
    exact forall₂_orderedInsert hab ih (List.pairwise_insertionSort _ _) (List.pairwise_insertionSort _ _)

theorem getD_le_getD {d : α} (h : List.Forall₂ (· ≤ ·) l l') (i : Nat) : l.getD i d ≤ l'.getD i d := by
  induction h generalizing i with
  | nil => exact le_rfl
  | cons hab _ ih =>
    cases i with
    | zero => exact hab
    | succ i => exact ih i

theorem pairwise_zipIdx {β : Type} (items : List β) : items.zipIdx.Pairwise fun e f => e.2 < f.2 := by
  have hlt := List.pairwise_lt_range' (s := 0) (n := items.length)
  rw [← List.zipIdx_map_snd] at hlt
  exact List.pairwise_map.1 hlt

/-! ## The least elements -/

section

variable {α : Type} [LinearOrder α] {l l' : List α}

theorem insertionSort_append_of_le (h : ∀ a ∈ l, ∀ b ∈ l', a ≤ b) :
    (l ++ l').insertionSort (· ≤ ·) = l.insertionSort (· ≤ ·) ++ l'.insertionSort (· ≤ ·) := by
  refine List.Perm.eq_of_pairwise (fun _ _ _ _ hab hba => le_antisymm hab hba) (List.pairwise_insertionSort _ _) ?_ ?_
  · refine List.pairwise_append.2 ⟨List.pairwise_insertionSort _ _, List.pairwise_insertionSort _ _, ?_⟩
    intro a ha b hb
    exact h a ((List.mem_insertionSort _).1 ha) b ((List.mem_insertionSort _).1 hb)
  · exact (List.perm_insertionSort _ _).trans ((List.perm_insertionSort _ _).append (List.perm_insertionSort _ _)).symm

theorem insertionSort_perm {a b : List α} (h : a.Perm b) : a.insertionSort (· ≤ ·) = b.insertionSort (· ≤ ·) :=
  List.Perm.eq_of_pairwise (fun _ _ _ _ hab hba => le_antisymm hab hba) (List.pairwise_insertionSort _ _)
    (List.pairwise_insertionSort _ _)
    (((List.perm_insertionSort _ _).trans h).trans (List.perm_insertionSort _ _).symm)

end

section

variable {α M : Type} [DecidableEq α] [AddCommMonoid M] [LinearOrder M] [IsOrderedAddMonoid M] {E T : Finset α} {V : α → M}

theorem sum_le_sum_of_least (hcard : E.card = T.card) (h : ∀ a ∈ E, ∀ b ∈ T, b ∉ E → V a ≤ V b) : ∑ a ∈ E,
    V a ≤ ∑ b ∈ T, V b := by
  have hdiff : (E \ T).card = (T \ E).card := by
    have h1 := Finset.card_sdiff_add_card_inter E T
    have h2 := Finset.card_sdiff_add_card_inter T E
    rw [Finset.inter_comm] at h2
    omega
  have hle : ∑ a ∈ E \ T, V a ≤ ∑ b ∈ T \ E, V b := by
    rcases (T \ E).eq_empty_or_nonempty with hemp | hne
    · rw [hemp, Finset.card_empty, Finset.card_eq_zero] at hdiff
      rw [hemp, hdiff]
    · obtain ⟨c, hc, hleast⟩ := Finset.exists_min_image (T \ E) V hne
      obtain ⟨hcT, hcE⟩ := Finset.mem_sdiff.1 hc
      calc ∑ a ∈ E \ T, V a ≤ (E \ T).card • V c :=
            Finset.sum_le_card_nsmul _ _ _ fun a ha => h a (Finset.mem_sdiff.1 ha).1 c hcT hcE
        _ = (T \ E).card • V c := by rw [hdiff]
        _ ≤ ∑ b ∈ T \ E, V b := Finset.card_nsmul_le_sum _ _ _ hleast
  calc ∑ a ∈ E, V a = ∑ a ∈ E \ T, V a + ∑ a ∈ E ∩ T, V a := by rw [add_comm, Finset.sum_inter_add_sum_sdiff]
    _ ≤ ∑ b ∈ T \ E, V b + ∑ b ∈ T ∩ E, V b := by
      rw [Finset.inter_comm T E]
      exact add_le_add_left hle _
    _ = ∑ b ∈ T, V b := by rw [add_comm, Finset.sum_inter_add_sum_sdiff]

end

end Sorting
