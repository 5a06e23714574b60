import Mathlib.Algebra.Order.BigOperators.Ring.Finset
import Mathlib.Tactic.Linarith
import Mathlib.Tactic.Positivity
import ServerlessLLM.Layerweave.Estimator
import ServerlessLLM.Library.Elimination

/-!
# The fit solves its system

`ridge_fit` eliminates the columns of `Library.Elimination`. The regularization keeps the matrix from shrinking a vector below
a bound (`regularization_le`).
-/

namespace ServerlessLLM.Layerweave

open Matrix Elimination List

variable {width : Nat} {samples : List (Sample width)} {regularization : ℚ}

/-! ## The pivots -/

theorem pivotRow_spec (matrix : Augmented width) (column : Fin width) : column ≤ pivotRow matrix column ∧
    ∀ row, column ≤ row → |matrix row column.castSucc| ≤ |matrix (pivotRow matrix column) column.castSucc| := by
  have hmem : ∀ {row}, column ≤ row → row ∈ (finRange width).filter (column ≤ ·) :=
    fun h => mem_filter.2 ⟨mem_finRange _, decide_eq_true h⟩
  unfold pivotRow
  cases h : ((finRange width).filter (column ≤ ·)).argmax fun row => |matrix row column.castSucc| with
  | none =>
    rw [argmax_eq_none] at h
    exact absurd (hmem le_rfl) (h ▸ not_mem_nil)
  | some pivot =>
    refine ⟨of_decide_eq_true (mem_filter.1 (argmax_mem h)).2, fun row hrow => ?_⟩
    exact le_of_mem_argmax (f := fun row => |matrix row column.castSucc|) (hmem hrow) h

theorem eliminateColumn_of_not_skips {matrix : Augmented width} {column : Fin width} (h : ¬ Skips matrix column) :
    eliminateColumn matrix column = pivotOn matrix column (pivotRow matrix column) := if_neg h

theorem pivot_ne_zero {matrix : Augmented width} {column : Fin width} (h : ¬ Skips matrix column) :
    matrix (pivotRow matrix column) column.castSucc ≠ 0 := by
  intro hzero
  refine h ?_
  rw [Skips, hzero, abs_zero]
  positivity

/-! ## The matrix -/

def Sample.value (s : Sample width) (v : Fin width → ℚ) : ℚ := ∑ column, s.1 column * v column

theorem sum_mul_list_sum {ι : Type} {n : Nat} (l : List ι) (f : ι → Fin n → ℚ) (v : Fin n → ℚ) :
    ∑ j, (l.map fun s => f s j).sum * v j = (l.map fun s => ∑ j, f s j * v j).sum := by
  induction l with
  | nil => simp
  | cons s l ih =>
    simp only [map_cons, sum_cons, add_mul, Finset.sum_add_distrib]
    rw [ih]

theorem normalMatrix_dotProduct (v : Fin width → ℚ) (x : ℚ) (row : Fin width) :
    normalMatrix samples regularization row ⬝ᵥ (Fin.snoc v x : Fin (width + 1) → ℚ) =
      (samples.map fun s => s.1 row * s.value v).sum + regularization * v row +
        (samples.map fun s => s.1 row * s.2).sum * x := by
  rw [snoc_dotProduct]
  simp only [normalMatrix, Fin.snoc_castSucc, Fin.snoc_last, add_mul, Finset.sum_add_distrib, ite_mul, zero_mul,
    Finset.sum_ite_eq,
    Finset.mem_univ, if_true]
  rw [sum_mul_list_sum]
  simp only [Sample.value, Finset.mul_sum, mul_assoc]

theorem energy_eq (v : Fin width → ℚ) :
    ∑ row, (normalMatrix samples regularization row ⬝ᵥ (Fin.snoc v 0 : Fin (width + 1) → ℚ)) * v row =
      (samples.map fun s => s.value v ^ 2).sum + regularization * ∑ row, v row ^ 2 := by
  simp only [normalMatrix_dotProduct, mul_zero, add_zero, add_mul, Finset.sum_add_distrib]
  congr 1
  · rw [sum_mul_list_sum]
    refine congrArg sum (map_congr_left fun s _ => ?_)
    rw [pow_two]
    conv_rhs => lhs; rw [Sample.value]
    rw [Finset.sum_mul]
    exact Finset.sum_congr rfl fun j _ => by ring
  · rw [Finset.mul_sum]
    exact Finset.sum_congr rfl fun j _ => by ring

theorem regularization_le (h : 0 ≤ regularization) (v : Fin width → ℚ) : regularization ^ 2 * ∑ row, v row ^ 2 ≤
    ∑ row, (normalMatrix samples regularization row ⬝ᵥ (Fin.snoc v 0 : Fin (width + 1) → ℚ)) ^ 2 := by
  have hnorm : 0 ≤ ∑ row, v row ^ 2 := Finset.sum_nonneg fun _ _ => sq_nonneg _
  rcases hnorm.eq_or_lt with hzero | hpos
  · rw [← hzero, mul_zero]
    exact Finset.sum_nonneg fun _ _ => sq_nonneg _
  have henergy := @energy_eq _ samples regularization v
  have hsamples : 0 ≤ (samples.map fun s => s.value v ^ 2).sum := by
    refine sum_nonneg fun x hx => ?_
    obtain ⟨s, -, rfl⟩ := mem_map.1 hx
    exact sq_nonneg _
  have hle : regularization * ∑ row, v row ^ 2 ≤
      ∑ row, (normalMatrix samples regularization row ⬝ᵥ (Fin.snoc v 0 : Fin (width + 1) → ℚ)) * v row := by
    rw [henergy]
    exact le_add_of_nonneg_left hsamples
  have hcauchy := Finset.sum_mul_sq_le_sq_mul_sq Finset.univ
    (fun row => normalMatrix samples regularization row ⬝ᵥ (Fin.snoc v 0 : Fin (width + 1) → ℚ)) v
  have hsquare : (regularization * ∑ row, v row ^ 2) ^ 2 ≤ (∑ row, (normalMatrix samples regularization row ⬝ᵥ
      (Fin.snoc v 0 : Fin (width + 1) → ℚ)) * v row) ^ 2 := pow_le_pow_left₀ (mul_nonneg h hnorm) hle 2
  refine le_of_mul_le_mul_right ?_ hpos
  calc regularization ^ 2 * (∑ row, v row ^ 2) * ∑ row, v row ^ 2
      = (regularization * ∑ row, v row ^ 2) ^ 2 := by ring
    _ ≤ _ := hsquare.trans hcauchy

/-! ## The elimination -/

theorem not_skips_of_reached {matrix : Augmented width} {column : Fin width}
    (h : Reached (normalMatrix samples regularization) matrix column)
    (hwidth : width ≤ 5) (hlam : 1 / 10 ^ 6 ≤ regularization) : ¬ Skips matrix column := by
  intro hskip
  obtain ⟨v, hone, σ, himage⟩ := h.exists_image
  have hsml : ∀ row, ((if row < column then 0 else matrix row column.castSucc) : ℚ) ^ 2 ≤ (1 / 10 ^ 12) ^ 2 := by
    intro row
    split
    · positivity
    · rename_i hlt
      rw [← sq_abs]
      exact pow_le_pow_left₀ (abs_nonneg _) (((pivotRow_spec matrix column).2 row (not_lt.1 hlt)).trans hskip.le) 2
  have hnorm : 1 ≤ ∑ row, v row ^ 2 := by
    have hterm := Finset.single_le_sum (f := fun row => v row ^ 2) (fun row _ => sq_nonneg _) (Finset.mem_univ column)
    simpa [hone] using hterm
  have himageNorm : ∑ row, (normalMatrix samples regularization row ⬝ᵥ (Fin.snoc v 0 : Fin (width + 1) → ℚ)) ^ 2 ≤
      width * (1 / 10 ^ 12) ^ 2 := by
    rw [← Equiv.sum_comp σ]
    refine (Finset.sum_le_card_nsmul _ _ _ fun row _ => (congrArg (· ^ 2) (himage row)).trans_le (hsml row)).trans_eq ?_
    rw [Finset.card_univ, Fintype.card_fin, nsmul_eq_mul]
  have hreg : (1 / 10 ^ 6) ^ 2 ≤ regularization ^ 2 := pow_le_pow_left₀ (by positivity) hlam 2
  have hlower := (@regularization_le _ samples _ (le_trans (by positivity) hlam) v).trans himageNorm
  have hupper : (width : ℚ) * (1 / 10 ^ 12) ^ 2 ≤ 5 * (1 / 10 ^ 12) ^ 2 :=
    mul_le_mul_of_nonneg_right (by exact_mod_cast hwidth) (by positivity)
  have hproduct : (1 / 10 ^ 6) ^ 2 * 1 ≤ regularization ^ 2 * ∑ row, v row ^ 2 :=
    mul_le_mul hreg hnorm zero_le_one (sq_nonneg _)
  have hcontra := (hproduct.trans hlower).trans hupper
  norm_num at hcontra

theorem take_finRange (column : Fin width) :
    (finRange width).take (column + 1) = (finRange width).take column ++ [column] := by
  rw [take_succ_eq_append_getElem (by simp)]
  simp

theorem reached_eliminated (hwidth : width ≤ 5) (hlam : 1 / 10 ^ 6 ≤ regularization) {k : Nat} (h : k ≤ width) :
    Reached (normalMatrix samples regularization) (eliminated samples regularization k) k := by
  induction k with
  | zero => exact reached_zero _
  | succ k ih =>
    have hrch := ih (Nat.le_of_succ_le h)
    obtain ⟨column, rfl⟩ : ∃ column : Fin width, (column : ℕ) = k := ⟨⟨k, h⟩, rfl⟩
    have hskips := not_skips_of_reached hrch hwidth hlam
    have hst := hrch.pivotOn rfl (Fin.le_def.1 (pivotRow_spec _ column).1) (pivot_ne_zero hskips)
    rw [← eliminateColumn_of_not_skips hskips] at hst
    unfold eliminated at hst ⊢
    rwa [take_finRange, foldl_append]

/-! ## The solution -/

def features (samples : List (Sample width)) : Matrix (Fin samples.length) (Fin width) ℚ := .of fun i j => samples[i].1 j

def values (samples : List (Sample width)) : Fin samples.length → ℚ := fun i => samples[i].2

theorem normalMatrix_eq (c : Fin width → ℚ) (row : Fin width) :
    normalMatrix samples regularization row ⬝ᵥ (Fin.snoc c (-1) : Fin (width + 1) → ℚ) =
      (((features samples)ᵀ * features samples + regularization • 1) *ᵥ c) row -
        ((features samples)ᵀ *ᵥ values samples) row := by
  have hval : features samples *ᵥ c = fun i : Fin samples.length => samples[i].value c := rfl
  have hgram : ((features samples)ᵀ *ᵥ (features samples *ᵥ c)) row = (samples.map fun s => s.1 row * s.value c).sum := by
    rw [hval]
    exact Fin.sum_univ_fun_getElem samples fun s => s.1 row * s.value c
  have hrhs : ((features samples)ᵀ *ᵥ values samples) row = (samples.map fun s => s.1 row * s.2).sum :=
    Fin.sum_univ_fun_getElem samples fun s => s.1 row * s.2
  rw [normalMatrix_dotProduct, add_mulVec, Pi.add_apply, ← mulVec_mulVec, hgram, hrhs, smul_mulVec, one_mulVec,
    Pi.smul_apply, smul_eq_mul]
  ring

/-- The coefficients of the fit are the only solution of the regularized normal equations, and no column is skipped. -/
theorem ridgeFit_solves (hsamples : samples ≠ []) (hwidth : width ≤ 5) (hregularization : 1 / 10 ^ 6 ≤ regularization) :
    (∃ c, ridgeFit samples regularization = ofFn c ∧ ∀ c',
      ((features samples)ᵀ * features samples + regularization • 1) *ᵥ c' = (features samples)ᵀ *ᵥ values samples ↔ c' = c) ∧
    ∀ column : Fin width, ¬ Skips (eliminated samples regularization column) column := by
  refine ⟨⟨fun row => eliminated samples regularization width row (Fin.last width), ?_, fun c' => ?_⟩, fun column => ?_⟩
  · cases samples with
    | nil => exact absurd rfl hsamples
    | cons sample samples => rfl
  · rw [← (reached_eliminated hwidth hregularization le_rfl).solution c', funext_iff]
    exact forall_congr' fun row => by rw [normalMatrix_eq, sub_eq_zero]
  · exact not_skips_of_reached (reached_eliminated hwidth hregularization column.isLt.le) hwidth hregularization

/-- A fit of a line through two points. -/
theorem ridgeFit_solves_line : ∃ c, ridgeFit [(![1, 0], 1), (![1, 1], 3)] (1 / 10 : ℚ) = ofFn c ∧ ∀ c',
    ((features [(![1, 0], 1), (![1, 1], 3)])ᵀ * features [(![1, 0], 1), (![1, 1], 3)] + (1 / 10 : ℚ) • 1) *ᵥ c' =
      (features [(![1, 0], 1), (![1, 1], 3)])ᵀ *ᵥ values [(![1, 0], 1), (![1, 1], 3)] ↔ c' = c :=
  (ridgeFit_solves (cons_ne_nil _ _) (by decide) (by norm_num)).1

end ServerlessLLM.Layerweave
