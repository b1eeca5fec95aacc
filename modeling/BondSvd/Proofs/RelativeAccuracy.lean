import Mathlib
import BondSvd.Proofs.Attempt
import BondSvd.Proofs.Descending.Attempt
import BondSvd.Proofs.Exact.Lengths
import BondSvd.Proofs.Reduction.Size
import BondSvd.Proofs.Retry
import BondSvd.Proofs.Spectrum.Mass

/-! The accuracy of a decomposition with retries, in exact arithmetic. What an attempt floors and what
its iteration neglects is small beside the copy that it works on, and the copy is a multiple of the
input. So the error is small beside the input, however small that is and however often it was rescaled. -/
namespace BondSvd
open scoped Matrix Matrix.Norms.Frobenius
variable {m n : ℕ} {A : DenseMatrix ℝ}

/-- A column is no longer than the matrix. -/
theorem DenseMatrix.maxColumnNormSq_le (shape : A.shape = (m, n)) : A.maxColumnNormSq ≤ ‖A.toMatrix m n‖ ^ 2 := by
  refine Scalar.foldl_larger_le (sq_nonneg _) fun j member => ?_
  have col : j < n := by simpa [cols_of_shape shape] using member
  have column : A.columnNormSq j = ∑ i : Fin m, ‖A.toMatrix m n i ⟨j, col⟩‖ ^ 2 := by
    rw [columnNormSq, sumFrom_exact, rows_of_shape shape, Finset.sum_range]
    simp only [Nat.zero_add, Cplx.normSq_exact, toMatrix_apply]
  rw [column, frobenius_sq, Finset.sum_comm]
  exact Finset.single_le_sum (f := fun c => ∑ i, ‖A.toMatrix m n i c‖ ^ 2)
    (fun c _ => Finset.sum_nonneg fun i _ => sq_nonneg _) (Finset.mem_univ (⟨j, col⟩ : Fin n))

namespace Reference
variable {policy : Policy ℝ} {rule : FloorRule} {r : Reduction ℝ} {st : Iteration ℝ} {found : Decomposition ℝ}

/-- No pivot of a norm that is kept is so small that its direction is not taken. -/
def Clear (policy : Policy ℝ) (rule : FloorRule) (A : DenseMatrix ℝ) : Prop :=
  ∀ judgement ∈ Reduction.judgements (normFloor policy rule (tallForm A)) (tallForm A) (tallForm A).cols,
    (normFloor policy rule (tallForm A)).judge judgement.normSq = .keep → ¬judgement.Faint

theorem negligible_le {bound : ℝ} (nonneg : 0 ≤ bound) (eta : 0 ≤ policy.convergenceEta)
    (diagonals : r.DiagonalsLe bound) :
    negligible policy r ≤ 2 * bound * policy.convergenceEta := by
  refine mul_le_mul_of_nonneg_right (Scalar.foldl_larger_le (by linarith) fun k _ => ?_) eta
  obtain ⟨diag, superDiag⟩ := diagonals k
  linarith

private theorem sqrt_flushBound_le (shape : A.shape = (m, n)) (eta : 0 ≤ policy.convergenceEta) :
    √(flushBound policy .refuse A) ≤ ‖A.toMatrix m n‖ * policy.convergenceEta := by
  refine Real.sqrt_le_iff.mpr ⟨mul_nonneg (norm_nonneg _) eta, ?_⟩
  calc flushBound policy .refuse A ≤ A.maxColumnNormSq * policy.convergenceEta ^ 2 := min_le_right _ _
    _ ≤ ‖A.toMatrix m n‖ ^ 2 * policy.convergenceEta ^ 2 := by
      gcongr
      exact DenseMatrix.maxColumnNormSq_le shape
    _ = (‖A.toMatrix m n‖ * policy.convergenceEta) ^ 2 := (mul_pow ..).symm

theorem sqrt_judged_le (n : ℕ) : √(2 * n - 1 : ℕ) ≤ 2 * n := by
  refine Real.sqrt_le_iff.mpr ⟨by positivity, ?_⟩
  have few : 2 * n - 1 ≤ (2 * n) ^ 2 := by nlinarith [Nat.sub_le (2 * n) 1]
  exact_mod_cast few

/-- What a run loses on the way, beside the size of its input. -/
theorem Run.norm_sub_product_le (run : Run policy .refuse A r st) (shape : A.shape = (m, n)) (tall : n ≤ m)
    (enough : Tolerance.zero ^ 2 ≤ policy.normFloor) (eta : 0 ≤ policy.convergenceEta)
    (clear : ∀ judgement ∈ Reduction.judgements (normFloor policy .refuse A) A n,
      (normFloor policy .refuse A).judge judgement.normSq = .keep → ¬judgement.Faint) :
    ‖A.toMatrix m n - (assemble r st).product m n‖ ≤
      8 * n * policy.convergenceEta * ‖A.toMatrix m n‖ + 2 * Tolerance.sign * st.degenerate := by
  have near := Reference.norm_sub_product_le run shape tall enough eta clear
  have diagonals := Reduction.upTo_diagonalsLe enough shape tall le_rfl (run.upTo shape)
  have small := negligible_le (norm_nonneg _) eta diagonals
  have flushed := sqrt_flushBound_le shape eta
  have size : 0 ≤ ‖A.toMatrix m n‖ * policy.convergenceEta := mul_nonneg (norm_nonneg _) eta
  have norms := sqrt_judged_le n
  have couplings : ((n - 1 : ℕ) : ℝ) ≤ n := by exact_mod_cast Nat.sub_le n 1
  have floored : √(2 * n - 1 : ℕ) * √(flushBound policy .refuse A) ≤
      2 * n * (‖A.toMatrix m n‖ * policy.convergenceEta) :=
    mul_le_mul norms flushed (Real.sqrt_nonneg _) (by positivity)
  have neglected : 3 * ((n - 1 : ℕ) : ℝ) * negligible policy r ≤
      3 * n * (2 * ‖A.toMatrix m n‖ * policy.convergenceEta) :=
    mul_le_mul (by linarith) small (negligible_nonneg eta r) (by positivity)
  linarith

theorem norm_tallForm (A : DenseMatrix ℝ) : (tallForm A).norm = A.norm := by
  have shape : A.shape = (A.rows, A.cols) := rfl
  unfold tallForm
  split
  · rw [DenseMatrix.norm_exact (DenseMatrix.shape_adjoint shape), DenseMatrix.toMatrix_adjoint shape,
      Matrix.frobenius_norm_conjTranspose, DenseMatrix.norm_exact shape]
  · rfl

/-- A successful attempt in either orientation misses its input by what its run loses. -/
theorem attempt_distance_eq (done : attempt policy rule A = .ok found) :
    ∃ r st, Run policy rule (tallForm A) r st ∧ found.left.shape = (A.rows, A.rows) ∧
      found.rightAdjoint.shape = (A.cols, A.cols) ∧ isDescending found.values = true ∧
      A.distance found.rebuild =
        ‖(tallForm A).toMatrix (max A.rows A.cols) (min A.rows A.cols) -
          (assemble r st).product (max A.rows A.cols) (min A.rows A.cols)‖ := by
  obtain ⟨r, st, run, rfl⟩ := attempt_run done
  obtain ⟨left, right, -, -, descending⟩ := run.assembled (shape_tallForm A) min_le_max
  obtain ⟨-, distance⟩ := distance_oriented A left right
  obtain ⟨left, right⟩ := factors_oriented (P := fun n U => U.shape = (n, n)) left right
  refine ⟨r, st, run, left, ?_, ?_, distance⟩
  · rw [Decomposition.rightAdjoint, convention_oriented]
    exact DenseMatrix.shape_adjoint right
  · rw [values_oriented]
    exact descending

/-- A run loses no more than a share of the size of its input, but for its degenerate rotations. -/
theorem attempt_distance_norm_le (enough : Tolerance.zero ^ 2 ≤ policy.normFloor) (eta : 0 ≤ policy.convergenceEta)
    (run : Run policy .refuse (tallForm A) r st) (clear : Clear policy .refuse A) :
    ‖(tallForm A).toMatrix (max A.rows A.cols) (min A.rows A.cols) -
        (assemble r st).product (max A.rows A.cols) (min A.rows A.cols)‖ ≤
      8 * (min A.rows A.cols : ℕ) * policy.convergenceEta * A.norm + 2 * Tolerance.sign * st.degenerate := by
  have shape := shape_tallForm A
  have cols : (tallForm A).cols = min A.rows A.cols := DenseMatrix.cols_of_shape shape
  rw [Clear, cols] at clear
  rw [← norm_tallForm A, DenseMatrix.norm_exact shape]
  exact run.norm_sub_product_le shape min_le_max enough eta clear

section Rescaling

theorem rescaled_exact (policy : Policy ℝ) (A : DenseMatrix ℝ) (tries : ℕ) :
    rescaled policy A tries = A.scale (policy.rescaleFactor ^ tries) := by
  induction tries with
  | zero => rw [rescaled, pow_zero, DenseMatrix.scale_one]
  | succ tries ih => rw [rescaled, ih, DenseMatrix.scale_scale, pow_succ]

theorem compensation_exact (policy : Policy ℝ) {tries : ℕ} (few : tries < 2 ^ 31) :
    compensation policy tries = policy.rescaleFactor ^ tries := by
  rw [compensation, Int32.toInt_ofNat_of_lt few, Scalar.powInt_exact]

theorem toNat_double {retries : UInt64} (few : retries.toNat < 2 ^ 63) : (2 * retries).toNat = 2 * retries.toNat := by
  rw [UInt64.toNat_mul]
  exact Nat.mod_eq_of_lt (by simp; omega)

theorem reachExponent_of_lt {retries : UInt64} (few : retries.toNat < 2 ^ 63) :
    reachExponent retries = min (2 * retries.toNat) (2 ^ 31 - 1) :=
  congrArg (min · (2 ^ 31 - 1)) (toNat_double few)

theorem belowReach_exact :
    belowReach policy A = true ↔
      0 < A.maxColumnNormSq ∧
        A.maxColumnNormSq * policy.rescaleFactor ^ reachExponent policy.maxRetries ≤ policy.normFloor := by
  rw [belowReach, Scalar.powInt_exact, Bool.and_eq_true, decide_eq_true_iff, decide_eq_true_iff]

theorem compensated_exact (policy : Policy ℝ) {tries : ℕ} (few : tries < 2 ^ 31) (found : Decomposition ℝ) :
    (if tries = 0 then found else compensate policy tries found) =
      { found with values := found.values.map (· / policy.rescaleFactor ^ tries) } := by
  split
  · next none =>
    have same : found.values.map (· / policy.rescaleFactor ^ tries) = found.values := by simp [none]
    rw [same]
  · rw [compensate, compensation_exact policy few]

/-- Dividing the values divides the distance to the input that was multiplied. -/
theorem distance_rebuild_div {factor : ℝ} (positive : 0 < factor) (left : found.left.shape = (A.rows, A.rows))
    (right : found.rightAdjoint.shape = (A.cols, A.cols)) :
    A.distance ({ found with values := found.values.map (· / factor) } : Decomposition ℝ).rebuild =
      (A.scale factor).distance found.rebuild / factor := by
  have shape : A.shape = (A.rows, A.cols) := rfl
  have scaled : (A.scale factor).shape = (A.rows, A.cols) := rfl
  have nonzero : (factor : ℂ) ≠ 0 := Complex.ofReal_ne_zero.mpr positive.ne'
  rw [DenseMatrix.distance_exact shape, DenseMatrix.distance_exact scaled,
    Decomposition.toMatrix_rebuild_div found left right, DenseMatrix.toMatrix_scale shape]
  have factored : (factor : ℂ) • A.toMatrix A.rows A.cols - found.rebuild.toMatrix A.rows A.cols =
      (factor : ℂ) • (A.toMatrix A.rows A.cols - (factor⁻¹ : ℂ) • found.rebuild.toMatrix A.rows A.cols) := by
    rw [smul_sub, smul_smul, mul_inv_cancel₀ nonzero, one_smul]
  rw [factored, norm_smul, Complex.norm_real, Real.norm_of_nonneg positive.le, mul_div_cancel_left₀ _ positive.ne']

theorem norm_scale {factor : ℝ} (positive : 0 < factor) (A : DenseMatrix ℝ) :
    (A.scale factor).norm = factor * A.norm := by
  have shape : A.shape = (A.rows, A.cols) := rfl
  have scaled : (A.scale factor).shape = (A.rows, A.cols) := rfl
  rw [DenseMatrix.norm_exact shape, DenseMatrix.norm_exact scaled, DenseMatrix.toMatrix_scale shape, norm_smul,
    Complex.norm_real, Real.norm_of_nonneg positive.le]

/-- The error of a compensated decomposition is relative to the input that was not rescaled. -/
theorem distance_compensated_le {factor : ℝ} (positive : 0 < factor) (enough : Tolerance.zero ^ 2 ≤ policy.normFloor)
    (eta : 0 ≤ policy.convergenceEta) (done : attempt policy .refuse (A.scale factor) = .ok found) :
    ∃ r st, Run policy .refuse (tallForm (A.scale factor)) r st ∧
      isDescending (found.values.map (· / factor)) = true ∧
      (Clear policy .refuse (A.scale factor) →
        ({ found with values := found.values.map (· / factor) } : Decomposition ℝ).rebuild.shape = A.shape ∧
          A.distance ({ found with values := found.values.map (· / factor) } : Decomposition ℝ).rebuild ≤
            8 * (min A.rows A.cols : ℕ) * policy.convergenceEta * A.norm +
              2 * Tolerance.sign * st.degenerate / factor) := by
  obtain ⟨r, st, run, left, right, descending, distance⟩ := attempt_distance_eq done
  replace left : found.left.shape = (A.rows, A.rows) := left
  replace right : found.rightAdjoint.shape = (A.cols, A.cols) := right
  refine ⟨r, st, run, isDescending_map_div positive descending, fun clear => ⟨?_, ?_⟩⟩
  · rw [Decomposition.rebuild_shape]
    exact Prod.ext (DenseMatrix.rows_of_shape left) (DenseMatrix.cols_of_shape right)
  · have near := attempt_distance_norm_le enough eta run clear
    rw [← distance, norm_scale positive] at near
    rw [distance_rebuild_div positive left right, div_le_iff₀ positive, add_mul, div_mul_cancel₀ _ positive.ne']
    refine near.trans_eq ?_
    have rows : (A.scale factor).rows = A.rows := rfl
    have cols : (A.scale factor).cols = A.cols := rfl
    rw [rows, cols]
    ring

end Rescaling

/-- Within reach, the retries are exhausted exactly if every allowed multiple of the input breaks
down. Otherwise the first multiple that is decomposed gives the factors, and its values over the power
of the factor: non-negative, non-increasing, and off the input by a share of its own size and by what
the degenerate rotations left behind. -/
theorem decompose_reachable (growing : 1 < policy.rescaleFactor) (eta : 0 ≤ policy.convergenceEta)
    (enough : Tolerance.zero ^ 2 ≤ policy.normFloor) (few : policy.maxRetries.toNat < 2 ^ 30)
    (reachable : belowReach policy A = false) :
    (decompose policy A = .error (.retryExhausted policy.maxRetries.toNat) ↔
      ∀ j, j ≤ policy.maxRetries.toNat → Fails policy (A.scale (policy.rescaleFactor ^ j))) ∧
    ∀ j, j ≤ policy.maxRetries.toNat → (∀ i, i < j → Fails policy (A.scale (policy.rescaleFactor ^ i))) →
      ∀ found, attempt policy .refuse (A.scale (policy.rescaleFactor ^ j)) = .ok found →
        ∃ result r st, decompose policy A = .ok result ∧
          result = { found with values := found.values.map (· / policy.rescaleFactor ^ j) } ∧
          isDescending result.values = true ∧
          Run policy .refuse (tallForm (A.scale (policy.rescaleFactor ^ j))) r st ∧
          (Clear policy .refuse (A.scale (policy.rescaleFactor ^ j)) →
            result.rebuild.shape = A.shape ∧
              A.distance result.rebuild ≤
                8 * (min A.rows A.cols : ℕ) * policy.convergenceEta * A.norm +
                  2 * Tolerance.sign * st.degenerate / policy.rescaleFactor ^ j) := by
  simp only [← rescaled_exact]
  refine ⟨decompose_eq_error_iff reachable, fun j within earlier found done => ?_⟩
  have positive : 0 < policy.rescaleFactor ^ j := pow_pos (zero_lt_one.trans growing) j
  have result := decompose_eq_ok reachable within earlier done
  rw [compensated_exact policy (by omega)] at result
  rw [rescaled_exact] at done ⊢
  obtain ⟨r, st, run, descending, near⟩ := distance_compensated_le positive enough eta done
  exact ⟨_, r, st, result, rfl, descending, run, near⟩

section TinyBlock
variable {c : ℝ}

private theorem evenBlock_fails (positive : 0 < c) (below : c ^ 2 ≤ 1.5e-34) : Fails {} (flatBlock c c) := by
  have refused : (normFloor {} .refuse (flatBlock c c)).judge (c ^ 2) = .refuse := by
    have weighty : c ^ 2 * 1e-10 * 1e-10 < c ^ 2 := by nlinarith [pow_pos positive 2]
    have notKept : ¬(1.5e-34 : ℝ) < c ^ 2 := not_lt.mpr below
    rw [NormFloor.judge, normFloor]
    dsimp only
    rw [if_neg notKept, maxColumnNormSq_flatBlock, max_self, if_pos weighty]
  refine ⟨.flooredNorm, ?_⟩
  rw [attempt_eq_tall, tallForm_flatBlock, Reference.tall, Reduction.bidiagonalize_flatBlock_of_refuse refused]
  rfl

/-- A block so small that it takes one rescaling. -/
noncomputable def tinyBlock : DenseMatrix ℝ := flatBlock 1e-18 1e-18

theorem tinyBlock_reachable : belowReach {} tinyBlock = false := by
  have exponent : reachExponent ({} : Policy ℝ).maxRetries = 30 := by decide
  rw [← Bool.not_eq_true, belowReach_exact, exponent, tinyBlock, maxColumnNormSq_flatBlock]
  norm_num

theorem tinyBlock_retried : Fails {} tinyBlock ∧ ∃ found, attempt {} .refuse (tinyBlock.scale 1e2) = .ok found := by
  refine ⟨evenBlock_fails (by norm_num) (by norm_num), ?_⟩
  rw [tinyBlock, scale_flatBlock]
  exact evenBlock_attempt (by norm_num) (by norm_num)

theorem decompose_reachable_tinyBlock :
    1 < ({} : Policy ℝ).rescaleFactor ∧ 0 ≤ ({} : Policy ℝ).convergenceEta ∧
      Tolerance.zero ^ 2 ≤ ({} : Policy ℝ).normFloor ∧ ({} : Policy ℝ).maxRetries.toNat < 2 ^ 30 ∧
      belowReach {} tinyBlock = false ∧ Fails {} (tinyBlock.scale (1e2 ^ 0)) ∧
      ∃ result r st, decompose {} tinyBlock = .ok result ∧ isDescending result.values = true ∧
        Run {} .refuse (tallForm (tinyBlock.scale (1e2 ^ 1))) r st ∧
        tinyBlock.distance result.rebuild ≤
          8 * (2 : ℕ) * 1e-10 * tinyBlock.norm + 2 * Tolerance.sign * st.degenerate / 1e2 ^ 1 := by
  have growing : (1 : ℝ) < 1e2 := by norm_num
  have eta : (0 : ℝ) ≤ 1e-10 := by norm_num
  have enough : (Tolerance.zero : ℝ) ^ 2 ≤ 1.5e-34 := by
    unfold Tolerance.zero
    norm_num
  have few : ({} : Policy ℝ).maxRetries.toNat < 2 ^ 30 := by decide
  obtain ⟨first, found, second⟩ := tinyBlock_retried
  have unscaled : tinyBlock.scale ((1e2 : ℝ) ^ 0) = tinyBlock := by rw [pow_zero, DenseMatrix.scale_one]
  have scaled : (1e2 : ℝ) = 1e2 ^ 1 := (pow_one _).symm
  rw [← unscaled] at first
  rw [scaled] at second
  have earlier (i : ℕ) (before : i < 1) : Fails {} (tinyBlock.scale ((1e2 : ℝ) ^ i)) := by
    rw [Nat.lt_one_iff.mp before]
    exact first
  have clear : Clear {} .refuse (tinyBlock.scale ((1e2 : ℝ) ^ 1)) := by
    rw [tinyBlock, scale_flatBlock]
    exact evenBlock_clear (by norm_num) (by norm_num)
  obtain ⟨result, r, st, done, -, descending, run, near⟩ :=
    (decompose_reachable growing eta enough few tinyBlock_reachable).2 1 (by decide) earlier found second
  exact ⟨growing, eta, enough, few, tinyBlock_reachable, first, result, r, st, done, descending, run, (near clear).2⟩

end TinyBlock

end Reference
end BondSvd
