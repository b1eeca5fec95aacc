import Mathlib
import BondSvd.Proofs.Exact.Matrix

namespace BondSvd
universe u
open scoped Matrix Matrix.Norms.Frobenius

namespace Scalar

/-- Repeated squaring multiplies by the power; the exponent is halved in each step. -/
theorem powAcc_exact (base acc : ℝ) (exponent : ℕ) : powAcc base acc exponent = acc * base ^ exponent := by
  induction exponent using Nat.strongRecOn generalizing base acc with
  | ind exponent ih =>
    rcases Nat.eq_zero_or_pos exponent with rfl | positive
    · rw [powAcc_zero, pow_zero, mul_one]
    · have digits : 2 * (exponent / 2) + exponent % 2 = exponent := Nat.div_add_mod exponent 2
      rw [powAcc_pos base acc positive, ih (exponent / 2) (by omega), ← pow_two, ← pow_mul]
      split
      · next odd =>
        rw [mul_assoc, ← pow_succ', ← odd, digits]
      · next even =>
        rw [show 2 * (exponent / 2) = exponent by omega]

theorem powInt_exact (base : ℝ) (exponent : ℕ) : powInt base exponent = base ^ exponent := by
  rw [powInt, if_neg (by omega), Int.natAbs_natCast, powAcc_exact, one_mul]

end Scalar

namespace DenseMatrix
variable {A : DenseMatrix ℝ} {m n : ℕ}

/-- The Frobenius norm. -/
def norm {α : Type u} [Scalar α] (A : DenseMatrix α) : α :=
  Scalar.sqrt (sumFrom 0 A.rows fun i => sumFrom 0 A.cols fun j => (A.entry i j).normSq)

theorem norm_exact (shape : A.shape = (m, n)) : A.norm = ‖A.toMatrix m n‖ := by
  have total : (sumFrom 0 A.rows fun i => sumFrom 0 A.cols fun j => (A.entry i j).normSq) =
      ‖A.toMatrix m n‖ ^ 2 := by
    rw [frobenius_sq, sumFrom_exact, rows_of_shape shape, cols_of_shape shape, Finset.sum_range]
    refine Finset.sum_congr rfl fun i _ => ?_
    rw [sumFrom_exact, Finset.sum_range]
    refine Finset.sum_congr rfl fun j _ => ?_
    simp only [Nat.zero_add, Cplx.normSq_exact, toMatrix_apply]
  rw [norm, total, Scalar.sqrt_exact, Real.sqrt_sq (norm_nonneg _)]

theorem toMatrix_scale (shape : A.shape = (m, n)) (factor : ℝ) :
    (A.scale factor).toMatrix m n = (factor : ℂ) • A.toMatrix m n := by
  ext i j
  have row : (i : ℕ) < A.rows := (rows_of_shape shape).symm ▸ i.isLt
  have col : (j : ℕ) < A.cols := (cols_of_shape shape).symm ▸ j.isLt
  rw [toMatrix_apply, entry_scale A factor row col, Cplx.toComplex_scale, Matrix.smul_apply, smul_eq_mul, mul_comm,
    toMatrix_apply]

theorem scale_one (A : DenseMatrix ℝ) : A.scale 1 = A := by
  refine ext rfl rfl fun i j row col => Cplx.toComplex_inj ?_
  rw [entry_scale A 1 row col, Cplx.toComplex_scale, Complex.ofReal_one, mul_one]

theorem scale_scale (A : DenseMatrix ℝ) (first second : ℝ) :
    (A.scale first).scale second = A.scale (first * second) := by
  refine ext rfl rfl fun i j row col => Cplx.toComplex_inj ?_
  rw [entry_scale (A.scale first) second row col, entry_scale A first row col, entry_scale A _ row col,
    Cplx.toComplex_scale, Cplx.toComplex_scale, Cplx.toComplex_scale, Complex.ofReal_mul, mul_assoc]

private theorem toMatrix_diagonal_div (values : List ℝ) (divisor : ℝ) :
    (diagonal (values.map (· / divisor)) m n).toMatrix m n = (divisor⁻¹ : ℂ) • (diagonal values m n).toMatrix m n := by
  rw [toMatrix_diagonal, toMatrix_diagonal]
  ext i j
  simp only [Matrix.smul_apply, Matrix.of_apply, smul_eq_mul, List.getElem?_map]
  split
  · cases values[(i : ℕ)]? with
    | none => simp
    | some value => simp [div_eq_inv_mul]
  · simp

end DenseMatrix

namespace Decomposition

/-- Values divided by one number divide the product. -/
theorem toMatrix_rebuild_div (r : Decomposition ℝ) {m n k l : ℕ} (left : r.left.shape = (m, k))
    (right : r.rightAdjoint.shape = (l, n)) (divisor : ℝ) :
    ({ r with values := r.values.map (· / divisor) } : Decomposition ℝ).rebuild.toMatrix m n =
      (divisor⁻¹ : ℂ) • r.rebuild.toMatrix m n := by
  have middle (values : List ℝ) : ({ r with values := values } : Decomposition ℝ).middle = .diagonal values k l := by
    rw [Decomposition.middle]
    exact congrArg₂ (DenseMatrix.diagonal values) (DenseMatrix.cols_of_shape left) (DenseMatrix.rows_of_shape right)
  rw [toMatrix_rebuild { r with values := r.values.map (· / divisor) } left right, middle,
    DenseMatrix.toMatrix_diagonal_div, toMatrix_rebuild r left right]
  have plain : r.middle = .diagonal r.values k l := middle r.values
  rw [plain, Matrix.mul_smul, Matrix.smul_mul]
  rfl

end Decomposition
end BondSvd
