import Mathlib.Algebra.BigOperators.Field
import Mathlib.Algebra.BigOperators.Fin
import Mathlib.Data.Matrix.Mul
import Mathlib.Tactic.Ring

/-!
# Gauss–Jordan elimination

Rows with a right-hand side behind them. A row `r` stands for the equation `r ⬝ᵥ z = 0`, so a solution `c` of the system is the
vector `c` with `-1` behind it. `Reached` says where the elimination stands: what is left of a row is the row of the system that
it came from, for vectors that satisfy the rows that are done.
-/

open Matrix Finset

namespace Elimination

variable {K : Type} [Field K] {w : ℕ}

/-- The row with the pivot is put in its place and divided, and the column is cleared in the others. -/
def pivotOn (m : Fin w → Fin (w + 1) → K) (column pivot : Fin w) : Fin w → Fin (w + 1) → K :=
  let swapped := fun row => m (Equiv.swap column pivot row)
  let divided := fun index => swapped column index / swapped column column.castSucc
  fun row => if row = column then divided else fun index => swapped row index - swapped row column.castSucc * divided index

/-- Where the elimination of `a` stands, with `k` columns done. -/
structure Reached (a m : Fin w → Fin (w + 1) → K) (k : ℕ) : Prop where
  unit : ∀ j : Fin w, (j : ℕ) < k → ∀ i, m i j.castSucc = if i = j then 1 else 0
  solves : ∀ z, (∀ i, a i ⬝ᵥ z = 0) → ∀ i, m i ⬝ᵥ z = 0
  rows : ∃ σ : Equiv.Perm (Fin w), ∀ z, (∀ j : Fin w, (j : ℕ) < k → m j ⬝ᵥ z = 0) →
    ∀ i : Fin w, a (σ i) ⬝ᵥ z = if (i : ℕ) < k then 0 else m i ⬝ᵥ z

variable {a m : Fin w → Fin (w + 1) → K}

theorem reached_zero (a : Fin w → Fin (w + 1) → K) : Reached a a 0 :=
  ⟨fun _ h => absurd h (Nat.not_lt_zero _), fun _ h => h, .refl _, fun _ _ _ => rfl⟩

section

variable {column pivot : Fin w}

theorem pivotOn_self (m : Fin w → Fin (w + 1) → K) (column pivot : Fin w) (index : Fin (w + 1)) :
    pivotOn m column pivot column index = m pivot index / m pivot column.castSucc := by
  simp [pivotOn]

theorem pivotOn_of_ne {row : Fin w} (h : row ≠ column) (m : Fin w → Fin (w + 1) → K) (pivot : Fin w) (index : Fin (w + 1)) :
    pivotOn m column pivot row index = m (Equiv.swap column pivot row) index -
      m (Equiv.swap column pivot row) column.castSucc * (m pivot index / m pivot column.castSucc) := by
  simp [pivotOn, h]

theorem pivotOn_self_dotProduct (m : Fin w → Fin (w + 1) → K) (column pivot : Fin w) (z : Fin (w + 1) → K) :
    pivotOn m column pivot column ⬝ᵥ z = m pivot ⬝ᵥ z / m pivot column.castSucc := by
  rw [dotProduct, dotProduct, sum_div]
  exact sum_congr rfl fun j _ => by rw [pivotOn_self, div_mul_eq_mul_div]

theorem pivotOn_dotProduct {row : Fin w} (h : row ≠ column) (m : Fin w → Fin (w + 1) → K) (pivot : Fin w)
    (z : Fin (w + 1) → K) :
    pivotOn m column pivot row ⬝ᵥ z = m (Equiv.swap column pivot row) ⬝ᵥ z -
      m (Equiv.swap column pivot row) column.castSucc * (pivotOn m column pivot column ⬝ᵥ z) := by
  rw [dotProduct, dotProduct, dotProduct, mul_sum, ← sum_sub_distrib]
  refine sum_congr rfl fun j _ => ?_
  rw [pivotOn_of_ne h, pivotOn_self]
  ring

theorem swap_of_lt {k : ℕ} (hcolumn : (column : ℕ) = k) (hpivot : k ≤ pivot) {row : Fin w} (h : (row : ℕ) < k) :
    Equiv.swap column pivot row = row := by
  refine Equiv.swap_apply_of_ne_of_ne ?_ ?_
  · rintro rfl
    omega
  · rintro rfl
    omega

theorem Reached.pivotOn {k : ℕ} (h : Reached a m k) (hcolumn : (column : ℕ) = k) (hpivot : k ≤ pivot)
    (hne : m pivot column.castSucc ≠ 0) : Reached a (pivotOn m column pivot) (k + 1) := by
  refine ⟨fun j hj i => ?_, fun z hz i => ?_, ?_⟩
  · by_cases hla : j = column
    · subst hla
      by_cases hi : i = j
      · rw [hi, pivotOn_self, if_pos rfl, div_self hne]
      · rw [pivotOn_of_ne hi, if_neg hi, div_self hne, mul_one, sub_self]
    · have hlt : (j : ℕ) < k := by
        have hval := Fin.val_ne_of_ne hla
        omega
      have hzero : m pivot j.castSucc = 0 := by
        rw [h.unit j hlt, if_neg]
        rintro rfl
        omega
      by_cases hi : i = column
      · rw [hi, pivotOn_self, hzero, zero_div, if_neg (Ne.symm hla)]
      · rw [pivotOn_of_ne hi, hzero, zero_div, mul_zero, sub_zero, h.unit j hlt]
        refine if_congr ?_ rfl rfl
        rw [Equiv.swap_apply_eq_iff, swap_of_lt hcolumn hpivot hlt]
  · have hm := h.solves z hz
    have hself : Elimination.pivotOn m column pivot column ⬝ᵥ z = 0 := by
      rw [pivotOn_self_dotProduct, hm, zero_div]
    by_cases hi : i = column
    · rw [hi, hself]
    · rw [pivotOn_dotProduct hi, hself, hm, mul_zero, sub_zero]
  · obtain ⟨σ, hσ⟩ := h.rows
    refine ⟨(Equiv.swap column pivot).trans σ, fun z hz i => ?_⟩
    have hself := hz column (by omega)
    have hpivotRow : m pivot ⬝ᵥ z = 0 := by
      rw [pivotOn_self_dotProduct, div_eq_zero_iff] at hself
      exact hself.resolve_right hne
    have hrow : ∀ i, i ≠ column → Elimination.pivotOn m column pivot i ⬝ᵥ z = m (Equiv.swap column pivot i) ⬝ᵥ z := by
      intro i hi
      rw [pivotOn_dotProduct hi, hself, mul_zero, sub_zero]
    have hdone : ∀ j : Fin w, (j : ℕ) < k → m j ⬝ᵥ z = 0 := by
      intro j hj
      have hne : j ≠ column := by
        rintro rfl
        omega
      have hrow := hrow j hne
      rw [swap_of_lt hcolumn hpivot hj] at hrow
      exact hrow.symm.trans (hz j (by omega))
    rw [Equiv.trans_apply, hσ z hdone]
    by_cases hi : i = column
    · rw [hi, Equiv.swap_apply_left, hpivotRow, ite_self, hself, ite_self]
    · rw [hrow i hi]
      have hval := Fin.val_ne_of_ne hi
      by_cases hlt : (i : ℕ) < k
      · rw [swap_of_lt hcolumn hpivot hlt, if_pos hlt, if_pos (by omega)]
      · have hswap : ¬ ((Equiv.swap column pivot i : Fin w) : ℕ) < k := by
          by_cases hp : i = pivot
          · rw [hp, Equiv.swap_apply_right]
            omega
          · rwa [Equiv.swap_apply_of_ne_of_ne hi hp]
        rw [if_neg hswap, if_neg (by omega)]

end

/-! ## What the elimination yields -/

theorem snoc_dotProduct (r : Fin (w + 1) → K) (v : Fin w → K) (x : K) :
    r ⬝ᵥ (Fin.snoc v x : Fin (w + 1) → K) = ∑ j : Fin w, r j.castSucc * v j + r (Fin.last w) * x := by
  rw [dotProduct, Fin.sum_univ_castSucc]
  simp

theorem Reached.solution (h : Reached a m w) (c : Fin w → K) :
    (∀ i, a i ⬝ᵥ (Fin.snoc c (-1) : Fin (w + 1) → K) = 0) ↔ c = fun row => m row (Fin.last w) := by
  have hrow : ∀ i, m i ⬝ᵥ (Fin.snoc c (-1) : Fin (w + 1) → K) = c i - m i (Fin.last w) := by
    intro i
    rw [snoc_dotProduct]
    have hsum : ∑ j : Fin w, m i j.castSucc * c j = c i := by
      rw [sum_congr rfl fun j _ => by rw [h.unit j j.isLt, ite_mul, one_mul, zero_mul]]
      rw [sum_ite_eq, if_pos (mem_univ i)]
    rw [hsum, mul_neg, mul_one, sub_eq_add_neg]
  constructor
  · intro hz
    funext i
    exact sub_eq_zero.1 ((hrow i).symm.trans (h.solves _ hz i))
  · rintro rfl i
    obtain ⟨σ, hσ⟩ := h.rows
    have hdone : ∀ j : Fin w, (j : ℕ) < w → m j ⬝ᵥ (Fin.snoc (fun row => m row (Fin.last w)) (-1) : Fin (w + 1) → K) = 0 :=
      fun j _ => (hrow j).trans (sub_self _)
    have hzero := hσ _ hdone (σ.symm i)
    rwa [Equiv.apply_symm_apply, if_pos (σ.symm i).isLt] at hzero

theorem Reached.exists_image {column : Fin w} (h : Reached a m column) : ∃ v : Fin w → K, v column = 1 ∧
    ∃ σ : Equiv.Perm (Fin w), ∀ i, a (σ i) ⬝ᵥ (Fin.snoc v 0 : Fin (w + 1) → K) = if i <
      column then 0 else m i column.castSucc := by
  obtain ⟨σ, hσ⟩ := h.rows
  let v : Fin w → K := fun j => if j < column then -m j column.castSucc else if j = column then 1 else 0
  have hrow : ∀ i, m i ⬝ᵥ (Fin.snoc v 0 : Fin (w + 1) → K) = if i < column then 0 else m i column.castSucc := by
    intro i
    have hterm : ∀ j, m i j.castSucc * v j =
        (if i = j then (if j < column then -m j column.castSucc else 0) else 0) + if j =
          column then m i column.castSucc else 0 := by
      intro j
      show m i j.castSucc * (if j < column then _ else if j = column then _ else _) = _
      by_cases hlt : j < column
      · rw [if_pos hlt, if_pos hlt, if_neg hlt.ne, add_zero, h.unit j hlt, ite_mul, one_mul, zero_mul]
      · rw [if_neg hlt, if_neg hlt, ite_self, zero_add, mul_ite, mul_one, mul_zero]
        exact ite_congr rfl (fun hj => by rw [hj]) fun _ => rfl
    rw [snoc_dotProduct, mul_zero, add_zero, sum_congr rfl fun j _ => hterm j, sum_add_distrib, sum_ite_eq,
      if_pos (mem_univ i), sum_ite_eq', if_pos (mem_univ column)]
    by_cases hlt : i < column
    · rw [if_pos hlt, if_pos hlt, neg_add_cancel]
    · rw [if_neg hlt, if_neg hlt, zero_add]
  refine ⟨v, ?_, σ, fun i => ?_⟩
  · show (if column < column then _ else if column = column then _ else _) = _
    rw [if_neg (lt_irrefl _), if_pos rfl]
  · rw [hσ _ fun j hj => (hrow j).trans (if_pos hj), hrow]
    show (if i < column then 0 else if i < column then 0 else _) = _
    by_cases hlt : i < column
    · rw [if_pos hlt, if_pos hlt]
    · rw [if_neg hlt, if_neg hlt]

end Elimination
