import Mathlib
import BondSvd.DenseMatrix.Reflection
import BondSvd.Proofs.Exact.Matrix

namespace BondSvd
open scoped Matrix Matrix.Norms.Frobenius
variable {m n : ℕ}

/-- The matrix that subtracts from each column its weight times `w`. -/
noncomputable def householder (w : Fin m → ℂ) (divisor : ℝ) : Matrix (Fin m) (Fin m) ℂ :=
  1 - (divisor : ℂ)⁻¹ • Matrix.vecMulVec w (star w)

theorem householder_mul_apply (w : Fin m → ℂ) (divisor : ℝ) (M : Matrix (Fin m) (Fin n) ℂ) (i : Fin m) (j : Fin n) :
    (householder w divisor * M) i j = M i j - (∑ l, star (w l) * M l j) / divisor * w i := by
  rw [householder, Matrix.sub_mul, Matrix.one_mul, Matrix.sub_apply, Matrix.smul_mul, Matrix.smul_apply,
    Matrix.mul_apply, smul_eq_mul]
  simp only [Matrix.vecMulVec_apply, Pi.star_apply, mul_assoc]
  rw [← Finset.mul_sum]
  ring

theorem householder_conjTranspose (w : Fin m → ℂ) (divisor : ℝ) :
    (householder w divisor)ᴴ = householder w divisor := by
  rw [householder, Matrix.conjTranspose_sub, Matrix.conjTranspose_one, Matrix.conjTranspose_smul,
    Matrix.conjTranspose_vecMulVec, star_star, star_inv₀, Complex.star_def, Complex.conj_ofReal]

private theorem mul_householder_apply (w : Fin n → ℂ) (divisor : ℝ) (M : Matrix (Fin m) (Fin n) ℂ) (i : Fin m) (j : Fin n) :
    (M * householder w divisor) i j = M i j - (∑ l, M i l * w l) / divisor * star (w j) := by
  have turned : M * householder w divisor = (householder w divisor * Mᴴ)ᴴ := by
    rw [Matrix.conjTranspose_mul, Matrix.conjTranspose_conjTranspose, householder_conjTranspose]
  rw [turned, Matrix.conjTranspose_apply, householder_mul_apply]
  simp [mul_comm]

/-- A reflection undoes itself, when it divides by half the squared length of its vector. -/
theorem householder_mul_self {w : Fin m → ℂ} {divisor : ℝ} (half : ∑ i, ‖w i‖ ^ 2 = 2 * divisor)
    (present : divisor ≠ 0) : householder w divisor * householder w divisor = 1 := by
  have length : ∑ l, star (w l) * w l = 2 * (divisor : ℂ) := by
    rw [← Complex.ofReal_ofNat, ← Complex.ofReal_mul, ← half, Complex.ofReal_sum]
    refine Finset.sum_congr rfl fun l _ => ?_
    rw [Complex.star_def, Complex.conj_mul']
    push_cast
    rfl
  have nonzero : (divisor : ℂ) ≠ 0 := Complex.ofReal_ne_zero.mpr present
  ext i j
  rw [householder_mul_apply]
  have weight : ∑ l, star (w l) * householder w divisor l j = -star (w j) := by
    have once := mul_householder_apply w divisor (Matrix.of fun (_ : Fin 1) l => star (w l)) 0 j
    rw [Matrix.mul_apply] at once
    simp only [Matrix.of_apply] at once
    rw [once, length]
    field_simp
    ring
  rw [weight, householder, Matrix.sub_apply, Matrix.smul_apply, Matrix.vecMulVec_apply, Pi.star_apply, smul_eq_mul]
  field_simp
  ring

private theorem householder_mem_unitary {w : Fin m → ℂ} {divisor : ℝ} (half : ∑ i, ‖w i‖ ^ 2 = 2 * divisor)
    (present : divisor ≠ 0) : householder w divisor ∈ Matrix.unitaryGroup (Fin m) ℂ := by
  rw [Matrix.mem_unitaryGroup_iff', Matrix.star_eq_conjTranspose, householder_conjTranspose,
    householder_mul_self half present]

/-- The matrix that multiplies row `p` by `z`. -/
def phaseChange (m p : ℕ) (z : ℂ) : Matrix (Fin m) (Fin m) ℂ :=
  Matrix.diagonal fun i => if (i : ℕ) = p then z else 1

private theorem phaseChange_mul_apply (p : ℕ) (z : ℂ) (M : Matrix (Fin m) (Fin n) ℂ) (i : Fin m) (j : Fin n) :
    (phaseChange m p z * M) i j = if (i : ℕ) = p then z * M i j else M i j := by
  rw [phaseChange, Matrix.diagonal_mul]
  split
  · rfl
  · exact one_mul _

private theorem mul_phaseChange_apply (p : ℕ) (z : ℂ) (M : Matrix (Fin m) (Fin n) ℂ) (i : Fin m) (j : Fin n) :
    (M * phaseChange n p z) i j = if (j : ℕ) = p then M i j * z else M i j := by
  rw [phaseChange, Matrix.mul_diagonal]
  split
  · rfl
  · exact mul_one _

private theorem phaseChange_conjTranspose (p : ℕ) (z : ℂ) : (phaseChange m p z)ᴴ = phaseChange m p (star z) := by
  rw [phaseChange, Matrix.diagonal_conjTranspose, phaseChange]
  congr 1
  funext i
  rw [Pi.star_apply]
  split <;> simp

private theorem phaseChange_mem_unitary (p : ℕ) {z : ℂ} (unit : ‖z‖ = 1) :
    phaseChange m p z ∈ Matrix.unitaryGroup (Fin m) ℂ := by
  rw [Matrix.mem_unitaryGroup_iff', Matrix.star_eq_conjTranspose, phaseChange_conjTranspose, phaseChange,
    phaseChange, Matrix.diagonal_mul_diagonal, ← Matrix.diagonal_one]
  congr 1
  funext i
  split
  · rw [Complex.star_def, Complex.conj_mul', unit]
    simp
  · exact one_mul 1

/-- The entries of a vector from index `p` on. -/
def tailFrom (size p : ℕ) (w : ℕ → ℂ) (i : Fin size) : ℂ := if p ≤ (i : ℕ) then w i else 0

section Weights
variable {size p : ℕ} {w : ℕ → ℂ} {f g : Fin size → ℂ}

/-- The weight of a column along a vector that starts at `p` depends on the rows from `p` on only. -/
theorem sum_star_tailFrom_congr (same : ∀ l : Fin size, p ≤ (l : ℕ) → f l = g l) :
    ∑ l, star (tailFrom size p w l) * f l = ∑ l, star (tailFrom size p w l) * g l := by
  refine Finset.sum_congr rfl fun l _ => ?_
  unfold tailFrom
  split
  · next reached => rw [same l reached]
  · simp

theorem sum_mul_tailFrom_congr (same : ∀ l : Fin size, p ≤ (l : ℕ) → f l = g l) :
    ∑ l, f l * tailFrom size p w l = ∑ l, g l * tailFrom size p w l := by
  refine Finset.sum_congr rfl fun l _ => ?_
  unfold tailFrom
  split
  · next reached => rw [same l reached]
  · simp

end Weights

private theorem norm_tailFrom_sq (size p : ℕ) (w : ℕ → ℂ) :
    ∑ i, ‖tailFrom size p w i‖ ^ 2 = ∑ i : Fin size, if p ≤ (i : ℕ) then ‖w i‖ ^ 2 else 0 := by
  refine Finset.sum_congr rfl fun i _ => ?_
  unfold tailFrom
  split <;> simp

/-- The phase that follows the reflection at index `p`, and the reflection; without a length
there is neither. -/
noncomputable def reflector (size : ℕ) (w : ℕ → ℂ) (p : ℕ) (length : ℝ) : Matrix (Fin size) (Fin size) ℂ :=
  if length ≤ Tolerance.zero then 1
  else householder (tailFrom size p w) (‖w p‖ * length) * phaseChange size p (-w p / ‖w p‖)

section Reflector
variable {size p : ℕ} {w : ℕ → ℂ} {length : ℝ}

private theorem reflector_mem_unitary (pivot : w p ≠ 0)
    (half : ∑ i : Fin size, (if p ≤ (i : ℕ) then ‖w i‖ ^ 2 else 0) = 2 * (‖w p‖ * length)) :
    reflector size w p length ∈ Matrix.unitaryGroup (Fin size) ℂ := by
  unfold reflector
  split
  · exact one_mem _
  · next large =>
    have positive : 0 < length := Tolerance.zero_pos.trans (not_le.mp large)
    refine mul_mem (householder_mem_unitary ?_ ?_) (phaseChange_mem_unitary p ?_)
    · rw [norm_tailFrom_sq, half]
    · exact mul_ne_zero (norm_ne_zero_iff.mpr pivot) positive.ne'
    · rw [norm_div, norm_neg, Complex.norm_real, norm_norm, div_self (norm_ne_zero_iff.mpr pivot)]

theorem reflector_conjTranspose_mul_apply (kept : Tolerance.zero < length) (M : Matrix (Fin size) (Fin n) ℂ)
    (i : Fin size) (j : Fin n) :
    ((reflector size w p length)ᴴ * M) i j =
      if (i : ℕ) = p then
        star (-w p / ‖w p‖) *
          (M i j - (∑ l, star (tailFrom size p w l) * M l j) / (‖w p‖ * length : ℝ) * tailFrom size p w i)
      else M i j - (∑ l, star (tailFrom size p w l) * M l j) / (‖w p‖ * length : ℝ) * tailFrom size p w i := by
  rw [reflector, if_neg (not_le.mpr kept), Matrix.conjTranspose_mul, householder_conjTranspose,
    phaseChange_conjTranspose, Matrix.mul_assoc, phaseChange_mul_apply, householder_mul_apply]

theorem mul_reflector_apply (kept : Tolerance.zero < length) (M : Matrix (Fin m) (Fin size) ℂ)
    (i : Fin m) (j : Fin size) :
    (M * reflector size w p length) i j =
      if (j : ℕ) = p then
        (M i j - (∑ l, M i l * tailFrom size p w l) / (‖w p‖ * length : ℝ) * star (tailFrom size p w j)) *
          (-w p / ‖w p‖)
      else M i j - (∑ l, M i l * tailFrom size p w l) / (‖w p‖ * length : ℝ) * star (tailFrom size p w j) := by
  rw [reflector, if_neg (not_le.mpr kept), ← Matrix.mul_assoc, mul_phaseChange_apply, mul_householder_apply]

/-- A reflector leaves the columns before its pivot alone. -/
theorem mul_reflector_apply_of_lt (M : Matrix (Fin m) (Fin size) ℂ) (i : Fin m) {j : Fin size} (before : (j : ℕ) < p) :
    (M * reflector size w p length) i j = M i j := by
  by_cases small : length ≤ Tolerance.zero
  · rw [reflector, if_pos small, Matrix.mul_one]
  · rw [mul_reflector_apply (not_le.mp small), if_neg before.ne, tailFrom, if_neg before.not_ge, star_zero, mul_zero,
      sub_zero]

theorem reflector_conjTranspose_apply_of_lt {i l : Fin size} (low : p ≤ (i : ℕ)) (high : (l : ℕ) < p) :
    (reflector size w p length)ᴴ i l = 0 := by
  have distinct : i ≠ l := fun same => absurd high (not_lt.mpr (same ▸ low))
  by_cases small : length ≤ Tolerance.zero
  · rw [reflector, if_pos small, Matrix.conjTranspose_one, Matrix.one_apply_ne distinct]
  · have column : ∑ l', star (tailFrom size p w l') * (1 : Matrix (Fin size) (Fin size) ℂ) l' l = 0 := by
      rw [Finset.sum_eq_single l]
      · simp [tailFrom, Nat.not_le.mpr high]
      · intro l' _ other
        simp [other]
      · intro absent
        exact absurd (Finset.mem_univ l) absent
    rw [← Matrix.mul_one (reflector size w p length)ᴴ, reflector_conjTranspose_mul_apply (not_le.mp small),
      column, Matrix.one_apply_ne distinct]
    simp

/-- The vector `w` reflects the entries of `a` from index `p` on, of this length, onto the axis
of index `p`: it is `a` with the length added to its pivot, in the direction of `u`. -/
structure Reflects (size p : ℕ) (u : ℂ) (a w : ℕ → ℂ) (length : ℝ) : Prop where
  inside : p < size
  positive : 0 < length
  total : ∑ i : Fin size, (if p ≤ (i : ℕ) then ‖a i‖ ^ 2 else 0) = length ^ 2
  same : ∀ i, i ≠ p → w i = a i
  unit : ‖u‖ = 1
  pivot : w p = u * (length + ‖a p‖ : ℝ)

section Reflects
variable {u : ℂ} {a : ℕ → ℂ} (reflects : Reflects size p u a w length)
include reflects

theorem Reflects.norm_pivot : ‖w p‖ = length + ‖a p‖ := by
  rw [reflects.pivot, norm_mul, reflects.unit, one_mul, Complex.norm_real, Real.norm_eq_abs,
    abs_of_pos (add_pos_of_pos_of_nonneg reflects.positive (norm_nonneg _))]

theorem Reflects.norm_pivot_pos : 0 < ‖w p‖ := by
  rw [reflects.norm_pivot]
  exact add_pos_of_pos_of_nonneg reflects.positive (norm_nonneg _)

theorem Reflects.half : ∑ i : Fin size, (if p ≤ (i : ℕ) then ‖w i‖ ^ 2 else 0) = 2 * (‖w p‖ * length) := by
  have entry (i : Fin size) : (if p ≤ (i : ℕ) then ‖w i‖ ^ 2 else 0) =
      (if p ≤ (i : ℕ) then ‖a i‖ ^ 2 else 0) + if i = ⟨p, reflects.inside⟩ then ‖w p‖ ^ 2 - ‖a p‖ ^ 2 else 0 := by
    by_cases here : (i : ℕ) = p
    · simp [here, Fin.ext_iff]
    · simp [here, Fin.ext_iff, reflects.same i here]
  rw [Finset.sum_congr rfl fun i _ => entry i, Finset.sum_add_distrib, reflects.total, Finset.sum_ite_eq',
    if_pos (Finset.mem_univ _), reflects.norm_pivot]
  ring

theorem Reflects.mem_unitary : reflector size w p length ∈ Matrix.unitaryGroup (Fin size) ℂ :=
  reflector_mem_unitary (norm_pos_iff.mp reflects.norm_pivot_pos) reflects.half

/-- The same vector reflects the entries that have their pivot turned into the direction of `u`. -/
theorem Reflects.straightened : Reflects size p u (Function.update a p (u * (‖a p‖ : ℝ))) w length := by
  have modulus : ‖u * ((‖a p‖ : ℝ) : ℂ)‖ = ‖a p‖ := by
    rw [norm_mul, reflects.unit, one_mul, Complex.norm_real, norm_norm]
  refine ⟨reflects.inside, reflects.positive, ?_, fun i off => ?_, reflects.unit, ?_⟩
  · rw [← reflects.total]
    refine Finset.sum_congr rfl fun i _ => ?_
    by_cases here : (i : ℕ) = p
    · rw [here, Function.update_self, modulus]
    · rw [Function.update_of_ne here]
  · rw [Function.update_of_ne off, reflects.same i off]
  · rw [Function.update_self, modulus, reflects.pivot]

/-- Where `u` is the direction of the pivot, the weight of `a` itself is one. -/
theorem Reflects.weight (aligned : u * (‖a p‖ : ℝ) = a p) :
    ∑ i, star (tailFrom size p w i) * tailFrom size p a i = (‖w p‖ * length : ℝ) := by
  have cross : star (w p) * a p = ((length + ‖a p‖) * ‖a p‖ : ℝ) := by
    have square : star u * u = 1 := by
      rw [Complex.star_def, Complex.conj_mul', reflects.unit]
      simp
    rw [reflects.pivot, ← aligned, norm_mul, reflects.unit, Complex.norm_real, norm_norm, one_mul, star_mul,
      Complex.star_def, Complex.conj_ofReal]
    rw [Complex.star_def] at square
    push_cast
    linear_combination (length + ‖a p‖ : ℂ) * ‖a p‖ * square
  have entry (i : Fin size) : star (tailFrom size p w i) * tailFrom size p a i =
      ((if p ≤ (i : ℕ) then ‖a i‖ ^ 2 else 0 : ℝ) : ℂ) +
        if i = ⟨p, reflects.inside⟩ then ((length * ‖a p‖ : ℝ) : ℂ) else 0 := by
    by_cases here : (i : ℕ) = p
    · simp only [tailFrom, here, le_refl, if_true, Fin.ext_iff]
      rw [cross]
      push_cast
      ring
    · simp only [tailFrom, reflects.same i here, Fin.ext_iff, here, if_false, add_zero]
      split
      · rw [Complex.star_def, Complex.conj_mul']
        push_cast
        rfl
      · simp
  rw [Finset.sum_congr rfl fun i _ => entry i, Finset.sum_add_distrib, ← Complex.ofReal_sum, reflects.total,
    Finset.sum_ite_eq', if_pos (Finset.mem_univ _), reflects.norm_pivot]
  push_cast
  ring

theorem Reflects.weight_star (aligned : u * (‖a p‖ : ℝ) = a p) :
    ∑ i, star (tailFrom size p a i) * tailFrom size p w i = (‖w p‖ * length : ℝ) := by
  rw [← Complex.conj_ofReal, ← reflects.weight aligned, map_sum]
  refine Finset.sum_congr rfl fun i _ => ?_
  rw [map_mul, Complex.star_def, Complex.conj_conj, mul_comm]

/-- Where `u` is the direction of the pivot, the reflection turns it around and gives it the length. -/
theorem Reflects.sub_pivot (aligned : u * (‖a p‖ : ℝ) = a p) : a p - w p = -u * length := by
  rw [reflects.pivot]
  push_cast
  linear_combination -aligned

/-- The phase turns the reflected pivot into the length. -/
theorem Reflects.unit_cancel (x : ℝ) : star (-u) * (-u * x) = x := by
  have square : star u * u = 1 := by
    rw [Complex.star_def, Complex.conj_mul', reflects.unit]
    simp
  rw [star_neg]
  linear_combination (x : ℂ) * square

theorem Reflects.phase : -w p / ‖w p‖ = -u := by
  have positive : ((length + ‖a p‖ : ℝ) : ℂ) ≠ 0 := by
    rw [← reflects.norm_pivot]
    exact Complex.ofReal_ne_zero.mpr reflects.norm_pivot_pos.ne'
  rw [reflects.norm_pivot, reflects.pivot, neg_div, mul_div_assoc, div_self positive, mul_one]

end Reflects
end Reflector

namespace DenseMatrix
variable {A : DenseMatrix ℝ}

theorem columnWeight_exact (rows : A.rows = m) (w : ℕ → Cplx ℝ) (divisor : ℝ) (top j : ℕ) :
    (A.columnWeight w divisor top j).toComplex =
      (∑ l : Fin m, star (tailFrom m top (fun i => (w i).toComplex) l) * (A.entry l j).toComplex) / divisor := by
  rw [columnWeight, Cplx.toComplex_unscale, toComplex_sumFrom, rows,
    sum_tail top m fun i => ((w i).conj * A.entry i j).toComplex]
  congr 1
  refine Finset.sum_congr rfl fun l _ => ?_
  unfold tailFrom
  split <;> simp

theorem rowWeight_exact (cols : A.cols = n) (w : ℕ → Cplx ℝ) (divisor : ℝ) (first i : ℕ) :
    (A.rowWeight w divisor first i).toComplex =
      (∑ l : Fin n, (A.entry i l).toComplex * tailFrom n first (fun j => star (w j).toComplex) l) / divisor := by
  rw [rowWeight, Cplx.toComplex_unscale, toComplex_sumFrom, cols,
    sum_tail first n fun j => ((w j).conj * A.entry i j).toComplex]
  congr 1
  refine Finset.sum_congr rfl fun l _ => ?_
  unfold tailFrom
  split <;> simp [mul_comm]

theorem toMatrix_reflectLeft (shape : A.shape = (m, n)) (w : ℕ → Cplx ℝ) (divisor : ℝ) (top : ℕ) :
    (A.reflectLeft w divisor top 0).toMatrix m n =
      householder (tailFrom m top fun i => (w i).toComplex) divisor * A.toMatrix m n := by
  ext i j
  have row : (i : ℕ) < A.rows := (rows_of_shape shape).symm ▸ i.isLt
  have col : (j : ℕ) < A.cols := (cols_of_shape shape).symm ▸ j.isLt
  rw [householder_mul_apply, toMatrix_apply, entry_reflectLeft A w divisor top 0 row col]
  simp only [toMatrix_apply]
  rw [← columnWeight_exact (rows_of_shape shape)]
  by_cases low : top ≤ (i : ℕ)
  · simp [low, tailFrom]
  · simp [low, tailFrom]

theorem toMatrix_scaleRow (shape : A.shape = (m, n)) (row : ℕ) (z : Cplx ℝ) :
    (A.scaleRow row 0 z).toMatrix m n = phaseChange m row z.toComplex * A.toMatrix m n := by
  ext i j
  have inside : (i : ℕ) < A.rows := (rows_of_shape shape).symm ▸ i.isLt
  have col : (j : ℕ) < A.cols := (cols_of_shape shape).symm ▸ j.isLt
  rw [phaseChange_mul_apply, toMatrix_apply, entry_scaleRow A row 0 z inside col, toMatrix_apply]
  by_cases here : (i : ℕ) = row
  · simp [here]
  · simp [here]

end DenseMatrix
end BondSvd
