import Mathlib
import BondSvd.Proofs.Exact.Scaling

namespace BondSvd.DenseMatrix
variable {A : DenseMatrix ℝ} {bound : ℝ} {i j : ℕ}

theorem normSq_entry_scale (A : DenseMatrix ℝ) (factor : ℝ) (i j : ℕ) :
    ((A.scale factor).entry i j).normSq = factor ^ 2 * (A.entry i j).normSq := by
  by_cases inside : i < A.rows ∧ j < A.cols
  · rw [entry_scale A factor inside.1 inside.2, Cplx.normSq_scale]
  · have outside : (A.scale factor).entry i j = 0 := entry_outside inside
    rw [outside, entry_outside inside, Cplx.normSq_zero, mul_zero]

theorem columnNormSq_exact (A : DenseMatrix ℝ) (j : ℕ) :
    A.columnNormSq j = ∑ i ∈ Finset.range A.rows, (A.entry i j).normSq := by
  rw [columnNormSq, sumFrom_exact]
  simp only [Nat.zero_add]

theorem columnNormSq_le (col : j < A.cols) : A.columnNormSq j ≤ A.maxColumnNormSq :=
  Scalar.le_foldl_larger_of_mem (List.mem_range.mpr col) _ 0

theorem maxColumnNormSq_nonneg (A : DenseMatrix ℝ) : 0 ≤ A.maxColumnNormSq := Scalar.le_foldl_larger _ _ 0

theorem maxColumnNormSq_scale (A : DenseMatrix ℝ) (factor : ℝ) :
    (A.scale factor).maxColumnNormSq = factor ^ 2 * A.maxColumnNormSq := by
  have column (j : ℕ) : (A.scale factor).columnNormSq j = factor ^ 2 * A.columnNormSq j := by
    have rows : (A.scale factor).rows = A.rows := rfl
    rw [columnNormSq_exact, columnNormSq_exact, Finset.mul_sum, rows]
    exact Finset.sum_congr rfl fun i _ => normSq_entry_scale A factor i j
  have cols : (A.scale factor).cols = A.cols := rfl
  rw [maxColumnNormSq, maxColumnNormSq, cols, ← Scalar.foldl_larger_mul _ _ _ (sq_nonneg factor), mul_zero]
  simp only [column]

theorem normSq_entry_le (row : i < A.rows) (col : j < A.cols) : (A.entry i j).normSq ≤ A.maxColumnNormSq := by
  refine le_trans ?_ (columnNormSq_le col)
  rw [columnNormSq_exact]
  exact Finset.single_le_sum (f := fun i => (A.entry i j).normSq) (fun _ _ => Cplx.normSq_nonneg _)
    (Finset.mem_range.mpr row)

theorem maxColumnNormSq_le_of_entries (nonneg : 0 ≤ bound)
    (each : ∀ i < A.rows, ∀ j < A.cols, (A.entry i j).normSq ≤ bound) : A.maxColumnNormSq ≤ A.rows * bound := by
  refine Scalar.foldl_larger_le (mul_nonneg (Nat.cast_nonneg _) nonneg) fun j member => ?_
  rw [columnNormSq_exact]
  refine (Finset.sum_le_card_nsmul _ _ bound fun i row => ?_).trans_eq (by rw [Finset.card_range, nsmul_eq_mul])
  exact each i (Finset.mem_range.mp row) j (List.mem_range.mp member)

theorem adjoint_scale (A : DenseMatrix ℝ) (factor : ℝ) : (A.scale factor).adjoint = A.adjoint.scale factor := by
  refine ext rfl rfl fun i j row col => Cplx.toComplex_inj ?_
  rw [entry_adjoint (A.scale factor) row col, entry_scale A factor col row, entry_scale A.adjoint factor row col,
    entry_adjoint A row col, Cplx.toComplex_conj, Cplx.toComplex_scale, Cplx.toComplex_scale, Cplx.toComplex_conj,
    star_mul', Complex.star_def, Complex.conj_ofReal]

end BondSvd.DenseMatrix
