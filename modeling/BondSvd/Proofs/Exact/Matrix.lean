import Mathlib
import BondSvd.Decomposition.Basic
import BondSvd.Proofs.Exact.Scalar

namespace BondSvd
universe u
open scoped Matrix Matrix.Norms.Frobenius

namespace DenseMatrix

/-- The sum of the squared moduli by which entries differ, over the extents of the first. -/
def squaredDistance {α : Type u} [Scalar α] (A B : DenseMatrix α) : α :=
  sumFrom 0 A.rows fun i => sumFrom 0 A.cols fun j => (A.entry i j - B.entry i j).normSq

/-- The Frobenius distance of two matrices of one shape. -/
def distance {α : Type u} [Scalar α] (A B : DenseMatrix α) : α := Scalar.sqrt (A.squaredDistance B)

/-- A square matrix whose adjoint is its inverse on either side. -/
structure Unitary {α : Type u} [Scalar α] (A : DenseMatrix α) (size : Nat) : Prop where
  shape : A.shape = (size, size)
  adjoint_mul : A.adjoint.mul A = identity size
  mul_adjoint : A.mul A.adjoint = identity size

/-- The entries as a matrix of complex numbers; positions outside the shape hold zero. -/
noncomputable def toMatrix (A : DenseMatrix ℝ) (m n : ℕ) : Matrix (Fin m) (Fin n) ℂ :=
  Matrix.of fun i j => (A.entry i j).toComplex

variable {A B : DenseMatrix ℝ} {m n l : ℕ}

theorem toMatrix_apply (A : DenseMatrix ℝ) (i : Fin m) (j : Fin n) :
    A.toMatrix m n i j = (A.entry i j).toComplex := rfl

theorem rows_of_shape {α : Type u} {A : DenseMatrix α} (shape : A.shape = (m, n)) : A.rows = m :=
  congrArg Prod.fst shape

theorem cols_of_shape {α : Type u} {A : DenseMatrix α} (shape : A.shape = (m, n)) : A.cols = n :=
  congrArg Prod.snd shape

theorem shape_eq {α : Type u} {A : DenseMatrix α} (rows : A.rows = m) (cols : A.cols = n) :
    A.shape = (m, n) := Prod.ext rows cols

theorem shape_mul {α : Type u} [Scalar α] {A B : DenseMatrix α} {l' : ℕ} (left : A.shape = (m, l))
    (right : B.shape = (l', n)) : (A.mul B).shape = (m, n) :=
  shape_eq ((rows_mul A B).trans (rows_of_shape left)) ((cols_mul A B).trans (cols_of_shape right))

theorem shape_adjoint {α : Type u} [Scalar α] {A : DenseMatrix α} (shape : A.shape = (m, n)) :
    A.adjoint.shape = (n, m) :=
  shape_eq ((rows_adjoint A).trans (cols_of_shape shape)) ((cols_adjoint A).trans (rows_of_shape shape))

theorem toMatrix_inj (left : A.shape = (m, n)) (right : B.shape = (m, n))
    (same : A.toMatrix m n = B.toMatrix m n) : A = B := by
  refine ext ((rows_of_shape left).trans (rows_of_shape right).symm)
    ((cols_of_shape left).trans (cols_of_shape right).symm) ?_
  intro i j row col
  rw [rows_of_shape left] at row
  rw [cols_of_shape left] at col
  exact Cplx.toComplex_inj (congrFun (congrFun same ⟨i, row⟩) ⟨j, col⟩)

theorem toMatrix_mul (left : A.shape = (m, l)) (right : B.shape = (l, n)) :
    (A.mul B).toMatrix m n = A.toMatrix m l * B.toMatrix l n := by
  ext i j
  have row : (i : ℕ) < A.rows := (rows_of_shape left).symm ▸ i.isLt
  have col : (j : ℕ) < B.cols := (cols_of_shape right).symm ▸ j.isLt
  rw [toMatrix_apply, entry_mul A B row col, toComplex_sumFrom, cols_of_shape left,
    Finset.sum_range, Matrix.mul_apply]
  simp [toMatrix_apply]

theorem toMatrix_adjoint (shape : A.shape = (m, n)) :
    A.adjoint.toMatrix n m = (A.toMatrix m n)ᴴ := by
  ext i j
  have row : (i : ℕ) < A.cols := (cols_of_shape shape).symm ▸ i.isLt
  have col : (j : ℕ) < A.rows := (rows_of_shape shape).symm ▸ j.isLt
  rw [toMatrix_apply, entry_adjoint A row col, Cplx.toComplex_conj]
  rfl

theorem toMatrix_identity : (identity n : DenseMatrix ℝ).toMatrix n n = 1 := by
  ext i j
  rw [toMatrix_apply, entry_identity i.isLt j.isLt, Matrix.one_apply]
  by_cases same : i = j
  · simp [same]
  · rw [if_neg (fun eq => same (Fin.ext eq)), if_neg same, Cplx.toComplex_zero]

theorem toMatrix_diagonal (values : List ℝ) :
    (diagonal values m n).toMatrix m n =
      Matrix.of fun (i : Fin m) (j : Fin n) =>
        ((if (i : ℕ) = j then values[(i : ℕ)]?.getD 0 else 0 : ℝ) : ℂ) := by
  ext i j
  rw [toMatrix_apply, entry_diagonal values i.isLt j.isLt, Matrix.of_apply]
  split <;> simp

theorem unitary_iff : A.Unitary n ↔ A.shape = (n, n) ∧ A.toMatrix n n ∈ Matrix.unitaryGroup (Fin n) ℂ := by
  constructor
  · intro unitary
    refine ⟨unitary.shape, Matrix.mem_unitaryGroup_iff'.mpr ?_⟩
    rw [Matrix.star_eq_conjTranspose, ← toMatrix_adjoint unitary.shape,
      ← toMatrix_mul (shape_adjoint unitary.shape) unitary.shape, unitary.adjoint_mul, toMatrix_identity]
  · rintro ⟨shape, member⟩
    refine ⟨shape, ?_, ?_⟩
    · apply toMatrix_inj (shape_mul (shape_adjoint shape) shape) rfl
      rw [toMatrix_mul (shape_adjoint shape) shape, toMatrix_adjoint shape, toMatrix_identity]
      exact Matrix.mem_unitaryGroup_iff'.mp member
    · apply toMatrix_inj (shape_mul shape (shape_adjoint shape)) rfl
      rw [toMatrix_mul shape (shape_adjoint shape), toMatrix_adjoint shape, toMatrix_identity]
      exact Matrix.mem_unitaryGroup_iff.mp member

end DenseMatrix

section Frobenius
variable {m n : ℕ}

theorem frobenius_sq (M : Matrix (Fin m) (Fin n) ℂ) : ‖M‖ ^ 2 = ∑ i, ∑ j, ‖M i j‖ ^ 2 := by
  have total : 0 ≤ ∑ i, ∑ j, ‖M i j‖ ^ 2 :=
    Finset.sum_nonneg fun i _ => Finset.sum_nonneg fun j _ => sq_nonneg _
  have norm : ‖M‖ = √(∑ i, ∑ j, ‖M i j‖ ^ 2) := by
    rw [Matrix.frobenius_norm_def, Real.sqrt_eq_rpow]
    simp
  rw [norm, Real.sq_sqrt total]

private theorem frobenius_sq_eq_trace (M : Matrix (Fin m) (Fin n) ℂ) : ((‖M‖ ^ 2 : ℝ) : ℂ) = (Mᴴ * M).trace := by
  rw [frobenius_sq, Matrix.trace, Finset.sum_comm]
  push_cast
  refine Finset.sum_congr rfl fun j _ => ?_
  rw [Matrix.diag_apply, Matrix.mul_apply]
  refine Finset.sum_congr rfl fun i _ => ?_
  rw [Matrix.conjTranspose_apply, Complex.star_def, Complex.conj_mul']

theorem frobenius_unitary_mul {U : Matrix (Fin m) (Fin m) ℂ} (unitary : U ∈ Matrix.unitaryGroup (Fin m) ℂ)
    (M : Matrix (Fin m) (Fin n) ℂ) : ‖U * M‖ = ‖M‖ := by
  have same : ((‖U * M‖ ^ 2 : ℝ) : ℂ) = ((‖M‖ ^ 2 : ℝ) : ℂ) := by
    have inverse : Uᴴ * U = 1 := Matrix.mem_unitaryGroup_iff'.mp unitary
    rw [frobenius_sq_eq_trace, frobenius_sq_eq_trace, Matrix.conjTranspose_mul, Matrix.mul_assoc,
      ← Matrix.mul_assoc Uᴴ, inverse, Matrix.one_mul]
  exact (sq_eq_sq₀ (norm_nonneg _) (norm_nonneg _)).mp (Complex.ofReal_injective same)

theorem conjTranspose_mem_unitary {U : Matrix (Fin n) (Fin n) ℂ} (unitary : U ∈ Matrix.unitaryGroup (Fin n) ℂ) :
    Uᴴ ∈ Matrix.unitaryGroup (Fin n) ℂ := Unitary.star_mem unitary

theorem frobenius_mul_unitary {V : Matrix (Fin n) (Fin n) ℂ} (unitary : V ∈ Matrix.unitaryGroup (Fin n) ℂ)
    (M : Matrix (Fin m) (Fin n) ℂ) : ‖M * V‖ = ‖M‖ := by
  rw [← Matrix.frobenius_norm_conjTranspose, Matrix.conjTranspose_mul,
    frobenius_unitary_mul (conjTranspose_mem_unitary unitary), Matrix.frobenius_norm_conjTranspose]

end Frobenius

namespace DenseMatrix
variable {A B : DenseMatrix ℝ} {m n : ℕ}

theorem squaredDistance_exact (shape : A.shape = (m, n)) :
    A.squaredDistance B = ‖A.toMatrix m n - B.toMatrix m n‖ ^ 2 := by
  rw [frobenius_sq, squaredDistance, sumFrom_exact, rows_of_shape shape, cols_of_shape shape, Finset.sum_range]
  refine Finset.sum_congr rfl fun i _ => ?_
  rw [sumFrom_exact, Finset.sum_range]
  refine Finset.sum_congr rfl fun j _ => ?_
  simp only [Nat.zero_add, Cplx.normSq_exact, Cplx.toComplex_sub, Matrix.sub_apply, toMatrix_apply]

theorem distance_exact (shape : A.shape = (m, n)) :
    A.distance B = ‖A.toMatrix m n - B.toMatrix m n‖ := by
  rw [distance, squaredDistance_exact shape, Scalar.sqrt_exact, Real.sqrt_sq (norm_nonneg _)]

end DenseMatrix

namespace Decomposition

/-- What the factors multiply to, as a product of matrices over the complex field. -/
theorem toMatrix_rebuild (r : Decomposition ℝ) {m n k l : ℕ} (left : r.left.shape = (m, k))
    (right : r.rightAdjoint.shape = (l, n)) :
    r.rebuild.toMatrix m n =
      r.left.toMatrix m k * r.middle.toMatrix k l * r.rightAdjoint.toMatrix l n := by
  have middle : r.middle.shape = (k, l) :=
    DenseMatrix.shape_eq (DenseMatrix.cols_of_shape left) (DenseMatrix.rows_of_shape right)
  rw [rebuild, DenseMatrix.toMatrix_mul (DenseMatrix.shape_mul left middle) right,
    DenseMatrix.toMatrix_mul left middle]

end Decomposition
end BondSvd
