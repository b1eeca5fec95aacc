import Mathlib
import BondSvd.Bidiagonal.Iteration
import BondSvd.Proofs.Exact.OrthogonalBlock

namespace BondSvd.Iteration
open scoped Matrix Matrix.Norms.Frobenius
variable {m n : ℕ} {st : Iteration ℝ} {p q : ℕ} {cos sin : ℝ}

/-- The extents of an iteration on `n` values, between orthogonal factors of `m` and `n` rows. -/
structure Regular (m n : ℕ) (st : Iteration ℝ) : Prop where
  diagSize : st.diag.size = n
  superSize : st.superDiag.size = n
  left : OrthogonalBlock st.left m n
  right : OrthogonalBlock st.right n n

/-- The product of the factors around the values `F i j`. -/
noncomputable def assembled (m n : ℕ) (st : Iteration ℝ) (F : ℕ → ℕ → ℝ) : Matrix (Fin m) (Fin n) ℂ :=
  st.left.toMatrix m m * gridMatrix m n F * (st.right.toMatrix n n)ᴴ

theorem Regular.setD (regular : st.Regular m n) (k : ℕ) (x : ℝ) : (st.setD k x).Regular m n :=
  { regular with diagSize := (Array.size_setIfInBounds ..).trans regular.diagSize }

theorem Regular.setE (regular : st.Regular m n) (k : ℕ) (x : ℝ) : (st.setE k x).Regular m n :=
  { regular with superSize := (Array.size_setIfInBounds ..).trans regular.superSize }

theorem Regular.countDegenerate (regular : st.Regular m n) (count : ℕ) :
    Regular m n { st with degenerate := count } := { regular with }

theorem assembled_setD (k : ℕ) (x : ℝ) (F : ℕ → ℕ → ℝ) : (st.setD k x).assembled m n F = st.assembled m n F := rfl
theorem assembled_setE (k : ℕ) (x : ℝ) (F : ℕ → ℕ → ℝ) : (st.setE k x).assembled m n F = st.assembled m n F := rfl

theorem Regular.rotateLeft (regular : st.Regular m n) (first : p < n) (second : q < n) (distinct : p ≠ q)
    (unit : cos * cos + sin * sin = 1) : (st.rotateLeft p q cos sin).Regular m n :=
  { regular with
    left := by
      rw [Iteration.rotateLeft, regular.diagSize]
      exact regular.left.rotate first second distinct unit }

theorem Regular.rotateRight (regular : st.Regular m n) (first : p < n) (second : q < n) (distinct : p ≠ q)
    (unit : cos * cos + sin * sin = 1) : (st.rotateRight p q cos sin).Regular m n :=
  { regular with
    right := by
      rw [Iteration.rotateRight, regular.diagSize]
      exact regular.right.rotate first second distinct unit }

theorem Regular.assembled_rotateLeft (regular : st.Regular m n) (first : p < n) (second : q < n)
    (distinct : p ≠ q) (unit : cos * cos + sin * sin = 1) (F : ℕ → ℕ → ℝ) :
    (st.rotateLeft p q cos sin).assembled m n (rotateGridRows p q cos sin F) = st.assembled m n F := by
  have fits := regular.left.lead_le
  have top := first.trans_le fits
  have low := second.trans_le fits
  have inverse : planeRotation ⟨p, top⟩ ⟨q, low⟩ cos sin * (planeRotation ⟨p, top⟩ ⟨q, low⟩ cos sin)ᴴ = 1 :=
    Matrix.mem_unitaryGroup_iff.mp (planeRotation_mem_unitary (by simpa using distinct) unit)
  rw [assembled, assembled, gridMatrix_rotateGridRows top low distinct, Iteration.rotateLeft, regular.diagSize,
    regular.left.toMatrix_rotate first second distinct, Matrix.mul_assoc (st.left.toMatrix m m),
    ← Matrix.mul_assoc (planeRotation _ _ cos sin), inverse, Matrix.one_mul]

theorem Regular.assembled_rotateRight (regular : st.Regular m n) (first : p < n) (second : q < n)
    (distinct : p ≠ q) (unit : cos * cos + sin * sin = 1) (F : ℕ → ℕ → ℝ) :
    (st.rotateRight p q cos sin).assembled m n (rotateGridCols p q cos sin F) = st.assembled m n F := by
  have inverse : planeRotation ⟨p, first⟩ ⟨q, second⟩ cos sin *
      (planeRotation ⟨p, first⟩ ⟨q, second⟩ cos sin)ᴴ = 1 :=
    Matrix.mem_unitaryGroup_iff.mp (planeRotation_mem_unitary (by simpa using distinct) unit)
  rw [assembled, assembled, gridMatrix_rotateGridCols first second distinct, Iteration.rotateRight,
    regular.diagSize, regular.right.toMatrix_rotate first second distinct, Matrix.conjTranspose_mul,
    ← Matrix.mul_assoc (st.left.toMatrix m m), Matrix.mul_assoc, ← Matrix.mul_assoc (planeRotation _ _ cos sin),
    inverse, Matrix.one_mul]

theorem Regular.norm_assembled_sub (regular : st.Regular m n) (F G : ℕ → ℕ → ℝ) :
    ‖st.assembled m n F - st.assembled m n G‖ = ‖gridMatrix m n F - gridMatrix m n G‖ := by
  rw [assembled, assembled, ← Matrix.sub_mul, ← Matrix.mul_sub,
    frobenius_mul_unitary (conjTranspose_mem_unitary regular.right.unitary),
    frobenius_unitary_mul regular.left.unitary]

end BondSvd.Iteration
