import Mathlib
import BondSvd.Proofs.Descending.Attempt
import BondSvd.Reference.Retry

namespace BondSvd
universe u
variable {α : Type u} [Scalar α]

/-- A decomposition with the shapes of `A` that keeps the right vectors as columns and has not been cut. -/
structure Decomposition.Fitting (r : Decomposition α) (A : DenseMatrix α) : Prop where
  left : r.left.shape = (A.rows, A.rows)
  right : r.right.shape = (A.cols, A.cols)
  length : r.values.length = min A.rows A.cols
  columns : r.convention = .columns
  untouched : r.truncation = none

namespace Reference
variable {policy : Policy α} {rule : FloorRule} {A : DenseMatrix α} {result : Decomposition α}

private theorem rows_rescaled (policy : Policy α) (A : DenseMatrix α) (tries : ℕ) : (rescaled policy A tries).rows = A.rows := by
  induction tries with
  | zero => rfl
  | succ tries ih => exact ih

private theorem cols_rescaled (policy : Policy α) (A : DenseMatrix α) (tries : ℕ) : (rescaled policy A tries).cols = A.cols := by
  induction tries with
  | zero => rfl
  | succ tries ih => exact ih

section Fitting
variable [Ordered α]

private theorem attempt_fitting (done : attempt policy rule A = .ok result) : result.Fitting A := by
  obtain ⟨r, st, run, rfl⟩ := attempt_run done
  obtain ⟨left, right, size, -⟩ := run.assembled (shape_tallForm A) min_le_max
  obtain ⟨left, right⟩ := factors_oriented (P := fun n U => U.shape = (n, n)) left right
  refine ⟨left, right, ?_, convention_oriented A _, truncation_oriented A _⟩
  rw [values_oriented]
  exact size

theorem decompose_fitting (done : decompose policy A = .ok result) : result.Fitting A := by
  obtain ⟨rule, tries, r, -, attempted, rfl⟩ := decompose_attempt done
  obtain ⟨left, right, length, columns, untouched⟩ := attempt_fitting attempted
  rw [rows_rescaled] at left
  rw [cols_rescaled] at right
  rw [rows_rescaled, cols_rescaled] at length
  split
  · exact ⟨left, right, length, columns, untouched⟩
  · exact ⟨left, right, (List.length_map _).trans length, columns, untouched⟩

end Fitting

private theorem tall_empty (bare : A.cols = 0) :
    tall policy rule A = .ok ⟨#[], .identity A.rows, .identity A.cols⟩ := by
  have reduced : A.bidiagonalize (normFloor policy rule A) = some ⟨A, #[], #[]⟩ := by
    rw [DenseMatrix.bidiagonalize, bare, Reduction.upTo_zero, Reduction.start, bare]
    rfl
  have settled (tolerance : α) (sweeps : ℕ) :
      (iteration A ⟨A, #[], #[]⟩).diagonalize tolerance sweeps = .ok (iteration A ⟨A, #[], #[]⟩) := rfl
  have left (U : DenseMatrix α) : (⟨A, #[], #[]⟩ : Reduction α).accumulateLeft U = U := by
    rw [Reduction.accumulateLeft, bare]
    rfl
  have right (V : DenseMatrix α) : (⟨A, #[], #[]⟩ : Reduction α).accumulateRight V = V := by
    rw [Reduction.accumulateRight, bare]
    rfl
  rw [tall, reduced]
  dsimp only
  rw [settled]
  dsimp only
  rw [if_pos (by simp [iteration]), assemble, left, right]
  rfl

private theorem attempt_empty (empty : min A.rows A.cols = 0) :
    attempt policy rule A = .ok ⟨.identity A.rows, [], .identity A.cols, .columns, none⟩ := by
  unfold attempt
  split
  · next wide =>
    rw [tall_empty (A := A.adjoint) (by rw [DenseMatrix.cols_adjoint]; omega)]
    rfl
  · next tall =>
    rw [tall_empty (by omega)]
    rfl

theorem decompose_empty (empty : min A.rows A.cols = 0) :
    decompose policy A = .ok ⟨.identity A.rows, [], .identity A.cols, .columns, none⟩ := by
  rw [decompose, attempt_empty empty, attempt_empty empty]
  split <;> rfl

end Reference
end BondSvd
