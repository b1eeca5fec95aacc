import Mathlib
import BondSvd.DenseMatrix.Columns
import BondSvd.Proofs.Exact.Matrix

namespace BondSvd
open scoped Matrix Matrix.Norms.Frobenius

section PlaneRotation
variable {m n : ℕ}

/-- The matrix that combines columns `p` and `q` of a left factor as a plane rotation. -/
def planeRotation (p q : Fin n) (cos sin : ℝ) : Matrix (Fin n) (Fin n) ℂ :=
  Matrix.of fun i j =>
    if j = q then (if i = q then (cos : ℂ) else if i = p then -(sin : ℂ) else 0)
    else if j = p then (if i = p then (cos : ℂ) else if i = q then (sin : ℂ) else 0)
    else if i = j then 1 else 0

theorem mul_planeRotation_apply {p q : Fin n} (distinct : p ≠ q) (cos sin : ℝ)
    (M : Matrix (Fin m) (Fin n) ℂ) (i : Fin m) (j : Fin n) :
    (M * planeRotation p q cos sin) i j =
      if j = q then M i q * cos - M i p * sin
      else if j = p then M i p * cos + M i q * sin
      else M i j := by
  rw [Matrix.mul_apply]
  by_cases last : j = q
  · rw [if_pos last, Fintype.sum_eq_add p q distinct]
    · simp [planeRotation, last, distinct]
      ring
    · rintro k ⟨notP, notQ⟩
      simp [planeRotation, last, notP, notQ]
  · by_cases first : j = p
    · rw [if_neg last, if_pos first, Fintype.sum_eq_add p q distinct]
      · simp [planeRotation, first, distinct, distinct.symm]
      · rintro k ⟨notP, notQ⟩
        simp [planeRotation, first, distinct, notP, notQ]
    · rw [if_neg last, if_neg first, Fintype.sum_eq_single j]
      · simp [planeRotation, last, first]
      · intro k other
        simp [planeRotation, last, first, other]

private theorem planeRotation_conjTranspose_mul_apply {p q : Fin m} (distinct : p ≠ q) (cos sin : ℝ)
    (M : Matrix (Fin m) (Fin n) ℂ) (i : Fin m) (j : Fin n) :
    ((planeRotation p q cos sin)ᴴ * M) i j =
      if i = q then M q j * cos - M p j * sin
      else if i = p then M p j * cos + M q j * sin
      else M i j := by
  have turned : (planeRotation p q cos sin)ᴴ * M = (Mᴴ * planeRotation p q cos sin)ᴴ := by
    rw [Matrix.conjTranspose_mul, Matrix.conjTranspose_conjTranspose]
  rw [turned, Matrix.conjTranspose_apply, mul_planeRotation_apply distinct]
  split_ifs <;> simp

theorem planeRotation_mem_unitary {p q : Fin n} (distinct : p ≠ q) {cos sin : ℝ}
    (unit : cos * cos + sin * sin = 1) : planeRotation p q cos sin ∈ Matrix.unitaryGroup (Fin n) ℂ := by
  have unit' : (cos : ℂ) * cos + sin * sin = 1 := by exact_mod_cast unit
  rw [Matrix.mem_unitaryGroup_iff', Matrix.star_eq_conjTranspose]
  ext i j
  rw [planeRotation_conjTranspose_mul_apply distinct, Matrix.one_apply]
  by_cases iq : i = q
  · subst iq
    by_cases jq : j = i
    · simp [planeRotation, jq, distinct, unit']
    · by_cases jp : j = p
      · simp [planeRotation, jp, distinct, distinct.symm, mul_comm]
      · simp [planeRotation, jq, jp, Ne.symm jq, Ne.symm jp]
  · by_cases ip : i = p
    · subst ip
      by_cases jq : j = q
      · simp [planeRotation, jq, distinct, mul_comm]
      · by_cases jp : j = i
        · simp [planeRotation, jp, distinct, distinct.symm, unit']
        · simp [planeRotation, jq, jp, Ne.symm jq, Ne.symm jp, distinct]
    · by_cases jq : j = q
      · simp [planeRotation, jq, iq, ip]
      · by_cases jp : j = p
        · simp [planeRotation, jp, iq, ip, distinct]
        · simp [planeRotation, jq, jp, iq, ip]

end PlaneRotation

section Grid
variable {m n : ℕ}

/-- The matrix of the real values `F i j`. -/
def gridMatrix (m n : ℕ) (F : ℕ → ℕ → ℝ) : Matrix (Fin m) (Fin n) ℂ :=
  Matrix.of fun i j => (F i j : ℂ)

/-- A plane rotation of two columns of values. -/
def rotateGridCols (p q : ℕ) (cos sin : ℝ) (F : ℕ → ℕ → ℝ) (i j : ℕ) : ℝ :=
  if j = q then F i q * cos - F i p * sin
  else if j = p then F i p * cos + F i q * sin
  else F i j

/-- A plane rotation of two rows of values. -/
def rotateGridRows (p q : ℕ) (cos sin : ℝ) (F : ℕ → ℕ → ℝ) (i j : ℕ) : ℝ :=
  if i = q then F q j * cos - F p j * sin
  else if i = p then F p j * cos + F q j * sin
  else F i j

private theorem gridMatrix_congr {F G : ℕ → ℕ → ℝ} (same : ∀ i j, i < m → j < n → F i j = G i j) :
    gridMatrix m n F = gridMatrix m n G := by
  ext i j
  exact congrArg Complex.ofReal (same i j i.isLt j.isLt)

private theorem gridMatrix_sub (F G : ℕ → ℕ → ℝ) :
    gridMatrix m n (fun i j => F i j - G i j) = gridMatrix m n F - gridMatrix m n G := by
  ext i j
  simp [gridMatrix]

theorem gridMatrix_rotateGridCols {p q : ℕ} (left : p < n) (right : q < n) (distinct : p ≠ q)
    (cos sin : ℝ) (F : ℕ → ℕ → ℝ) :
    gridMatrix m n (rotateGridCols p q cos sin F) =
      gridMatrix m n F * planeRotation ⟨p, left⟩ ⟨q, right⟩ cos sin := by
  ext i j
  rw [mul_planeRotation_apply (by simpa using distinct)]
  simp only [gridMatrix, Matrix.of_apply, rotateGridCols, Fin.ext_iff]
  split_ifs <;> push_cast <;> rfl

theorem gridMatrix_rotateGridRows {p q : ℕ} (top : p < m) (low : q < m) (distinct : p ≠ q)
    (cos sin : ℝ) (F : ℕ → ℕ → ℝ) :
    gridMatrix m n (rotateGridRows p q cos sin F) =
      (planeRotation ⟨p, top⟩ ⟨q, low⟩ cos sin)ᴴ * gridMatrix m n F := by
  ext i j
  rw [planeRotation_conjTranspose_mul_apply (by simpa using distinct)]
  simp only [gridMatrix, Matrix.of_apply, rotateGridRows, Fin.ext_iff]
  split_ifs <;> push_cast <;> rfl

/-- Values in two places of one column only. -/
def columnPair (p q c : ℕ) (x y : ℝ) (i j : ℕ) : ℝ :=
  if j = c then if i = p then x else if i = q then y else 0 else 0

private theorem norm_columnPair_le (m n p q c : ℕ) (x y : ℝ) :
    ‖gridMatrix m n (columnPair p q c x y)‖ ^ 2 ≤ x ^ 2 + y ^ 2 := by
  let row (i : ℕ) : ℝ := (if i = p then x ^ 2 else 0) + if i = q then y ^ 2 else 0
  have nonneg (i : ℕ) : 0 ≤ row i :=
    add_nonneg (by split_ifs <;> positivity) (by split_ifs <;> positivity)
  have entry (i : Fin m) (j : Fin n) : ‖gridMatrix m n (columnPair p q c x y) i j‖ ^ 2 ≤
      if (j : ℕ) = c then row i else 0 := by
    simp only [gridMatrix, Matrix.of_apply, columnPair, Complex.norm_real, Real.norm_eq_abs, sq_abs, row]
    split_ifs <;> simp [sq_nonneg]
  have column (i : Fin m) : ∑ j : Fin n, ‖gridMatrix m n (columnPair p q c x y) i j‖ ^ 2 ≤ row i := by
    refine (Finset.sum_le_sum fun j _ => entry i j).trans ?_
    rw [← Finset.sum_range fun j => if j = c then row i else 0, Finset.sum_ite_eq']
    split
    · exact le_rfl
    · exact nonneg i
  have single (k : ℕ) (z : ℝ) : ∑ i : Fin m, (if (i : ℕ) = k then z ^ 2 else 0) ≤ z ^ 2 := by
    rw [← Finset.sum_range fun i => if i = k then z ^ 2 else 0, Finset.sum_ite_eq']
    split
    · exact le_rfl
    · exact sq_nonneg z
  calc ‖gridMatrix m n (columnPair p q c x y)‖ ^ 2
      = ∑ i : Fin m, ∑ j : Fin n, ‖gridMatrix m n (columnPair p q c x y) i j‖ ^ 2 := frobenius_sq _
    _ ≤ ∑ i : Fin m, row i := Finset.sum_le_sum fun i _ => column i
    _ ≤ x ^ 2 + y ^ 2 := by
      rw [Finset.sum_add_distrib]
      exact add_le_add (single p x) (single q y)

theorem norm_gridMatrix_sub_le_pair {F G : ℕ → ℕ → ℝ} (p q c : ℕ) {x y bound : ℝ} (nonneg : 0 ≤ bound)
    (differ : ∀ i j, i < m → j < n → F i j - G i j = columnPair p q c x y i j)
    (small : x ^ 2 + y ^ 2 ≤ bound ^ 2) : ‖gridMatrix m n F - gridMatrix m n G‖ ≤ bound := by
  rw [← gridMatrix_sub, gridMatrix_congr differ]
  exact (sq_le_sq₀ (norm_nonneg _) nonneg).mp ((norm_columnPair_le m n p q c x y).trans small)

theorem norm_gridMatrix_sub_le {F G : ℕ → ℕ → ℝ} (r c : ℕ) {bound : ℝ} (near : |F r c - G r c| ≤ bound)
    (same : ∀ i j, i < m → j < n → ¬(i = r ∧ j = c) → F i j = G i j) :
    ‖gridMatrix m n F - gridMatrix m n G‖ ≤ bound := by
  have nonneg : 0 ≤ bound := (abs_nonneg _).trans near
  refine norm_gridMatrix_sub_le_pair r r c (x := F r c - G r c) (y := 0) nonneg ?_ ?_
  · intro i j row col
    by_cases here : i = r ∧ j = c
    · obtain ⟨rfl, rfl⟩ := here
      simp [columnPair]
    · rw [same i j row col here, sub_self, columnPair]
      split_ifs with atCol atRow
      · exact absurd ⟨atRow, atCol⟩ here
      · rfl
      · rfl
  · rw [zero_pow two_ne_zero, add_zero]
    exact sq_le_sq.mpr (near.trans (le_abs_self bound))

end Grid
end BondSvd
