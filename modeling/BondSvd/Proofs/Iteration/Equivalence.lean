import Mathlib
import BondSvd.Proofs.Iteration.Convergence

namespace BondSvd
open scoped Matrix Matrix.Norms.Frobenius
variable {m n : ℕ}

/-- Leading rows have no larger norm than the matrix. -/
theorem frobenius_leading_le (fits : n ≤ m) (X : Matrix (Fin m) (Fin n) ℂ) :
    ‖X.submatrix (Fin.castLE fits) id‖ ≤ ‖X‖ := by
  refine (sq_le_sq₀ (norm_nonneg _) (norm_nonneg _)).mp ?_
  rw [frobenius_sq, frobenius_sq]
  have rows := Finset.sum_map Finset.univ (Fin.castLEEmb fits) fun i => ∑ j, ‖X i j‖ ^ 2
  exact rows.symm.trans_le
    (Finset.sum_le_univ_sum_of_nonneg fun i => Finset.sum_nonneg fun j _ => sq_nonneg _)

namespace DenseMatrix
variable {A : DenseMatrix ℝ}

/-- The real parts of the leading entries. -/
noncomputable def realPart (A : DenseMatrix ℝ) (m n : ℕ) : Matrix (Fin m) (Fin n) ℝ :=
  Matrix.of fun i j => (A.entry i j).re

/-- A square matrix of real numbers whose transpose is its inverse. -/
structure RealOrthogonal (A : DenseMatrix ℝ) (size : ℕ) : Prop where
  shape : A.shape = (size, size)
  real : ∀ i j, (A.entry i j).im = 0
  orthogonal : A.realPart size size ∈ Matrix.orthogonalGroup (Fin size) ℝ

private theorem toMatrix_of_real (real : ∀ i j, (A.entry i j).im = 0) (m n : ℕ) :
    A.toMatrix m n = (A.realPart m n).map (algebraMap ℝ ℂ) := by
  ext i j
  exact Complex.ext rfl (real i j)

end DenseMatrix

namespace OrthogonalBlock
variable {A : DenseMatrix ℝ} {size lead : ℕ}

private theorem real_everywhere (block : OrthogonalBlock A size lead) (i j : ℕ) : (A.entry i j).im = 0 := by
  by_cases inside : i < size ∧ j < size
  · by_cases leading : i < lead ∧ j < lead
    · exact block.real i j leading.1 leading.2
    · rw [block.outside i j inside.1 inside.2 (by omega)]
      split <;> rfl
  · rw [DenseMatrix.entry_outside (by rwa [block.rows, block.cols])]
    rfl

private theorem realOrthogonal (block : OrthogonalBlock A size lead) : A.RealOrthogonal size := by
  refine ⟨block.shape, block.real_everywhere, ?_⟩
  have unitary := Matrix.mem_unitaryGroup_iff.mp block.unitary
  rw [DenseMatrix.toMatrix_of_real block.real_everywhere] at unitary
  have lifted : (A.realPart size size * (A.realPart size size)ᵀ).map (algebraMap ℝ ℂ) =
      (1 : Matrix (Fin size) (Fin size) ℝ).map (algebraMap ℝ ℂ) := by
    rw [Matrix.map_mul, Matrix.map_one _ (map_zero _) (map_one _), ← unitary]
    congr 1
    ext i j
    exact (Complex.conj_ofReal _).symm
  rw [Matrix.mem_orthogonalGroup_iff]
  exact Matrix.map_injective (algebraMap ℝ ℂ).injective lifted

end OrthogonalBlock

namespace Iteration
variable {s t : Array ℝ} {st : Iteration ℝ} {tolerance : ℝ}

/-- The upper bidiagonal matrix with diagonal `s`, whose column `j` is coupled to the one before it by
`t[j]`; the first coupling has no place in it. -/
noncomputable def upperBidiagonal (s t : Array ℝ) : Matrix (Fin s.size) (Fin s.size) ℝ :=
  Matrix.of fun i j => if i = j then s.getD j 0 else if (i : ℕ) + 1 = j then t.getD j 0 else 0

/-- The state that the iteration on `s` and `t` starts from, with a left factor of `m` rows. -/
noncomputable def between (m : ℕ) (s t : Array ℝ) : Iteration ℝ :=
  { diag := s, superDiag := t, left := .identity m, right := .identity s.size }

private theorem between_regular (same : t.size = s.size) (fits : s.size ≤ m) : (between m s t).Regular m s.size :=
  ⟨rfl, same, .identity fits, .identity le_rfl⟩

private theorem assembled_between (fits : s.size ≤ m) (i j : Fin s.size) :
    (between m s t).assembled m s.size ((between m s t).bidiagonal s.size) (Fin.castLE fits i) j =
      (upperBidiagonal s t i j : ℂ) := by
  have start : (between m s t).assembled m s.size ((between m s t).bidiagonal s.size) =
      gridMatrix m s.size ((between m s t).bidiagonal s.size) := by
    rw [assembled, between, DenseMatrix.toMatrix_identity, DenseMatrix.toMatrix_identity, Matrix.one_mul,
      Matrix.conjTranspose_one, Matrix.mul_one]
  rw [start, gridMatrix, Matrix.of_apply, bidiagonal, upperBidiagonal, Matrix.of_apply]
  simp only [Fin.val_castLE, j.isLt, and_true, Fin.ext_iff]
  rfl

private theorem Regular.assembled_settled (regular : st.Regular m n) (i j : Fin n) :
    st.assembled m n (st.bidiagonal 0) (Fin.castLE regular.left.lead_le i) j =
      ((st.left.realPart n n * Matrix.diagonal (fun k : Fin n => st.d k) * (st.right.realPart n n)ᵀ) i j : ℝ) := by
  have fits := regular.left.lead_le
  have values (k : Fin n) : (st.left.toMatrix m m * gridMatrix m n (st.bidiagonal 0)) (Fin.castLE fits i) k =
      (st.left.realPart n n i k * st.d k : ℝ) := by
    rw [Matrix.mul_apply, Finset.sum_eq_single (Fin.castLE fits k)]
    · rw [DenseMatrix.toMatrix_apply, gridMatrix, Matrix.of_apply, bidiagonal, Complex.ofReal_mul]
      simp only [Fin.val_castLE, if_true]
      rw [regular.left.entry_real i.isLt k.isLt]
      rfl
    · intro l _ other
      have off : (l : ℕ) ≠ k := fun same => other (Fin.ext same)
      simp [gridMatrix, bidiagonal, off]
    · intro absent
      exact absurd (Finset.mem_univ _) absent
  rw [assembled, Matrix.mul_apply, Matrix.mul_apply, Complex.ofReal_sum]
  refine Finset.sum_congr rfl fun k _ => ?_
  rw [values, Matrix.mul_diagonal, Matrix.conjTranspose_apply, Matrix.transpose_apply,
    DenseMatrix.toMatrix_apply, regular.right.entry_real j.isLt k.isLt, Complex.star_def, Complex.conj_ofReal]
  exact (Complex.ofReal_mul ..).symm

/-- A distance between products in the leading rows is no larger than the one of all rows. -/
theorem norm_upperBidiagonal_sub_le (regular : st.Regular m s.size) :
    ‖upperBidiagonal s t - st.left.realPart s.size s.size * Matrix.diagonal (fun k : Fin s.size => st.d k) *
        (st.right.realPart s.size s.size)ᵀ‖ ≤
      ‖(between m s t).assembled m s.size ((between m s t).bidiagonal s.size) -
        st.assembled m s.size (st.bidiagonal 0)‖ := by
  have fits := regular.left.lead_le
  refine le_trans (le_of_eq ?_) (frobenius_leading_le fits _)
  rw [← Matrix.frobenius_norm_map_eq _ (algebraMap ℝ ℂ) Complex.norm_real]
  congr 1
  ext i j
  rw [Matrix.submatrix_apply, Matrix.sub_apply, id, assembled_between fits, regular.assembled_settled,
    Matrix.map_apply, Matrix.sub_apply, map_sub]
  rfl

/-- The iteration is an orthogonal equivalence up to what it neglects: it ends with real orthogonal
factors, the left one the identity outside its leading block, and with values that are not negative.
Around these the factors multiply to the bidiagonal matrix, up to three times the tolerance for each
coupling and twice the sign tolerance for each degenerate rotation; exactly, if there is neither. -/
theorem diagonalize_equivalent (same : t.size = s.size) (fits : s.size ≤ m) (nonneg : 0 ≤ tolerance) {sweeps : ℕ}
    (done : (between m s t).diagonalize tolerance sweeps = .ok st) :
    st.left.RealOrthogonal m ∧ st.right.RealOrthogonal s.size ∧
      (∀ i j, i < m → j < m → s.size ≤ i ∨ s.size ≤ j → st.left.entry i j = if i = j then 1 else 0) ∧
      st.diag.size = s.size ∧ (∀ k, k < s.size → 0 ≤ st.d k) ∧
      ‖upperBidiagonal s t - st.left.realPart s.size s.size * Matrix.diagonal (fun k : Fin s.size => st.d k) *
          (st.right.realPart s.size s.size)ᵀ‖ ≤
        3 * (s.size - 1 : ℕ) * tolerance + 2 * Tolerance.sign * st.degenerate ∧
      (tolerance = 0 → st.degenerate = 0 →
        upperBidiagonal s t = st.left.realPart s.size s.size * Matrix.diagonal (fun k : Fin s.size => st.d k) *
          (st.right.realPart s.size s.size)ᵀ) := by
  obtain ⟨regular, settled, near⟩ := diagonalize_sound (between_regular same fits) nonneg done
  have fresh : (between m s t).degenerate = 0 := rfl
  rw [fresh, Nat.cast_zero, sub_zero] at near
  have bound := norm_upperBidiagonal_sub_le (t := t) regular
  refine ⟨regular.left.realOrthogonal, regular.right.realOrthogonal, regular.left.outside, regular.diagSize, settled,
    by linarith, fun exact regularRotations => ?_⟩
  rw [exact, regularRotations, Nat.cast_zero, mul_zero, mul_zero, zero_mul, add_zero] at near
  exact sub_eq_zero.mp (norm_le_zero_iff.mp (bound.trans near))

/-- A vanishing diagonal entry before a coupling that does not vanish is chased out without a sweep. -/
theorem diagonalize_equivalent_vanishing :
    ∃ st : Iteration ℝ, (between 3 #[0, 1] #[0, 1]).diagonalize 0 1 = .ok st ∧ st.left.RealOrthogonal 3 ∧
      st.right.RealOrthogonal 2 ∧ (∀ k, k < 2 → 0 ≤ st.d k) ∧
      (st.degenerate = 0 → upperBidiagonal #[0, 1] #[0, 1] =
        st.left.realPart 2 2 * Matrix.diagonal (fun k : Fin 2 => st.d k) * (st.right.realPart 2 2)ᵀ) := by
  have split : ((between 3 #[0, 1] #[0, 1]).split 0 1).start = 1 := by
    rw [Iteration.split]
    split
    · rfl
    · have vanishes : Scalar.abs ((between 3 #[0, 1] #[0, 1]).d 0) ≤ 0 := by
        rw [Scalar.abs_exact]
        exact abs_zero.le
      rw [if_pos vanishes]
  have done := diagonalize_pair rfl split 1
  obtain ⟨left, right, -, -, settled, -, exact⟩ :=
    diagonalize_equivalent (m := 3) (s := #[0, 1]) (t := #[0, 1]) rfl (by decide) le_rfl done
  exact ⟨_, done, left, right, settled, exact rfl⟩

end Iteration
end BondSvd
