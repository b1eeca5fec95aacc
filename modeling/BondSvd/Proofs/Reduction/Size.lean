import Mathlib
import BondSvd.Proofs.Reduction.Residue

namespace BondSvd
open scoped Matrix Matrix.Norms.Frobenius
variable {m n : ℕ}

private theorem frobenius_le_of_part {X Y : Matrix (Fin m) (Fin n) ℂ} (part : ∀ i j, X i j = 0 ∨ X i j = Y i j) :
    ‖X‖ ≤ ‖Y‖ := by
  refine (sq_le_sq₀ (norm_nonneg _) (norm_nonneg _)).mp ?_
  rw [frobenius_sq, frobenius_sq]
  refine Finset.sum_le_sum fun i _ => Finset.sum_le_sum fun j _ => ?_
  rcases part i j with zero | same
  · rw [zero, norm_zero, zero_pow two_ne_zero]
    exact sq_nonneg _
  · rw [same]

/-- What lies in the block of a factorization is no larger than the product. -/
theorem FactorsTo.norm_block_le {M W X : Matrix (Fin m) (Fin n) ℂ} {left : Matrix (Fin m) (Fin m) ℂ}
    {right : Matrix (Fin n) (Fin n) ℂ} {top first : ℕ} {lost : ℝ} (factors : FactorsTo M left W right top first lost)
    (leftUnitary : left ∈ Matrix.unitaryGroup (Fin m) ℂ) (rightUnitary : right ∈ Matrix.unitaryGroup (Fin n) ℂ)
    (block : ∀ (i : Fin m) (j : Fin n), X i j = 0 ∨ top ≤ (i : ℕ) ∧ first ≤ (j : ℕ) ∧ X i j = W i j) : ‖X‖ ≤ ‖M‖ := by
  obtain ⟨E, product, zero, -⟩ := factors
  rw [product, frobenius_mul_unitary (conjTranspose_mem_unitary rightUnitary), frobenius_unitary_mul leftUnitary]
  refine frobenius_le_of_part fun i j => ?_
  rcases block i j with none | ⟨row, col, same⟩
  · exact .inl none
  · exact .inr (by rw [Matrix.add_apply, zero i j row col, add_zero, same])

namespace Reduction
variable {rule : NormFloor ℝ} {A : DenseMatrix ℝ} {r r' : Reduction ℝ} {k : ℕ} {M : Matrix (Fin m) (Fin n) ℂ}
  {left : Matrix (Fin m) (Fin m) ℂ} {right : Matrix (Fin n) (Fin n) ℂ} {lost bound : ℝ}

/-- No entry of either diagonal is above `bound`. -/
def DiagonalsLe (r : Reduction ℝ) (bound : ℝ) : Prop :=
  ∀ j, r.diag.getD j 0 ≤ bound ∧ r.superDiag.getD j 0 ≤ bound

private theorem columnPart_diagonalsLe (before : r.DiagonalsLe ‖M‖)
    (factors : FactorsTo M left (r.workMatrix m n k k) right k k lost)
    (leftUnitary : left ∈ Matrix.unitaryGroup (Fin m) ℂ) (rightUnitary : right ∈ Matrix.unitaryGroup (Fin n) ℂ)
    (sized : r.Sized m n) (tall : n ≤ m) (inside : k < n) (done : r.columnPart rule k = some r') :
    r'.DiagonalsLe ‖M‖ := by
  obtain ⟨-, rfl⟩ | ⟨-, -, kept⟩ := columnPart_cases sized tall inside done
  · exact before
  · intro j
    rw [kept.diag, kept.superDiag]
    refine ⟨?_, (before j).2⟩
    split
    · rw [Scalar.sqrt_exact, ← norm_columnTail_sq sized inside, Real.sqrt_sq (norm_nonneg _)]
      refine factors.norm_block_le leftUnitary rightUnitary fun i c => ?_
      by_cases here : k ≤ (i : ℕ) ∧ (c : ℕ) = k
      · refine .inr ⟨here.1, here.2.ge, ?_⟩
        rw [columnTail, Matrix.of_apply, if_pos here, workMatrix, Matrix.of_apply, work_inside here.1 here.2.ge]
      · exact .inl (by rw [columnTail, Matrix.of_apply, if_neg here])
    · exact (before j).1

private theorem rowPart_diagonalsLe (before : r.DiagonalsLe ‖M‖)
    (factors : FactorsTo M left (r.workMatrix m n k (k + 1)) right k (k + 1) lost)
    (leftUnitary : left ∈ Matrix.unitaryGroup (Fin m) ℂ) (rightUnitary : right ∈ Matrix.unitaryGroup (Fin n) ℂ)
    (sized : r.Sized m n) (tall : n ≤ m) (inside : k + 1 < n) (done : r.rowPart rule k = some r') :
    r'.DiagonalsLe ‖M‖ := by
  obtain ⟨-, rfl⟩ | ⟨-, -, kept⟩ := rowPart_cases sized tall inside done
  · exact before
  · intro j
    rw [kept.diag, kept.superDiag]
    refine ⟨(before j).1, ?_⟩
    split
    · rw [Scalar.sqrt_exact, ← norm_rowTail_sq sized (inside.trans_le' (Nat.le_succ k) |>.trans_le tall),
        Real.sqrt_sq (norm_nonneg _)]
      refine factors.norm_block_le leftUnitary rightUnitary fun i c => ?_
      by_cases here : (i : ℕ) = k ∧ k + 1 ≤ (c : ℕ)
      · refine .inr ⟨here.1.ge, here.2, ?_⟩
        rw [rowTail, Matrix.of_apply, if_pos here, workMatrix, Matrix.of_apply, work_inside here.1.ge here.2]
      · exact .inl (by rw [rowTail, Matrix.of_apply, if_neg here])
    · exact (before j).2

/-- No entry of the bidiagonal form is larger than the norm of the input. -/
theorem upTo_diagonalsLe (enough : Tolerance.zero ^ 2 ≤ rule.floor) (shape : A.shape = (m, n)) (tall : n ≤ m)
    (inside : k ≤ n) (done : upTo rule A k = some r) : r.DiagonalsLe ‖A.toMatrix m n‖ := by
  have floor : 0 ≤ rule.floor := (sq_nonneg _).trans enough
  induction k generalizing r with
  | zero =>
    cases done
    exact fun j => ⟨(start_getD A j).1.trans_le (norm_nonneg _), (start_getD A j).2.trans_le (norm_nonneg _)⟩
  | succ k ih =>
    obtain ⟨before, reached, stepped⟩ := Option.bind_eq_some_iff.mp done
    obtain ⟨middle, columns, part⟩ := step_parts stepped
    have sized := upTo_sized shape tall (Nat.le_of_lt inside) reached
    have sized' := columnPart_sized sized tall inside columns
    have pending := (upTo_pending shape tall (Nat.le_of_lt inside) reached).1 k le_rfl
    have factors := upTo_factorsTo enough shape tall (Nat.le_of_lt inside) reached
    obtain ⟨lefts, rights⟩ := factors_unitary floor shape tall (Nat.le_of_lt inside) reached
    have leftUnitary := productBelow_mem_unitary lefts
    have rightUnitary := productBelow_mem_unitary rights
    have half := columnPart_diagonalsLe (ih (Nat.le_of_lt inside) reached) factors leftUnitary rightUnitary
      sized tall inside columns
    obtain ⟨more, rows⟩ | ⟨-, rfl⟩ := part
    · have factors' := columnPart_factorsTo factors enough sized tall inside pending columns
      exact rowPart_diagonalsLe half factors'
        (mul_mem leftUnitary (columnPart_factor_unitary floor sized tall inside pending columns)) rightUnitary
        sized' tall (sized'.cols ▸ more) rows
    · exact half

end Reduction
end BondSvd
