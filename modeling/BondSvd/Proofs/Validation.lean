import Mathlib
import BondSvd.Backend
import BondSvd.Proofs.Iteration.Count
import BondSvd.Proofs.RelativeAccuracy
import BondSvd.Proofs.Shapes

/-! When the reference decomposition passes the comparison with its own input, in exact arithmetic. It
neglects entries relative to the largest one of the bidiagonal form, but is compared entry by entry with
an absolute tolerance. So it passes where the input is small enough beside that tolerance, and a matrix
of large entries with a small one among them need not pass. -/
namespace BondSvd
open scoped Matrix Matrix.Norms.Frobenius
variable {m n : ℕ} {A : DenseMatrix ℝ}

private theorem frobenius_entry_le (X : Matrix (Fin m) (Fin n) ℂ) (i : Fin m) (j : Fin n) : ‖X i j‖ ≤ ‖X‖ := by
  refine (sq_le_sq₀ (norm_nonneg _) (norm_nonneg _)).mp ?_
  rw [frobenius_sq]
  calc ‖X i j‖ ^ 2 ≤ ∑ c, ‖X i c‖ ^ 2 :=
        Finset.single_le_sum (f := fun c => ‖X i c‖ ^ 2) (fun c _ => sq_nonneg _) (Finset.mem_univ j)
    _ ≤ ∑ l, ∑ c, ‖X l c‖ ^ 2 :=
        Finset.single_le_sum (f := fun l => ∑ c, ‖X l c‖ ^ 2)
          (fun l _ => Finset.sum_nonneg fun c _ => sq_nonneg _) (Finset.mem_univ i)

section Comparison
variable {B : DenseMatrix ℝ} {r : Decomposition ℝ}

private theorem almostEqual_of_near {x y slack : ℝ} (near : |x - y| ≤ slack) : almostEqual x y slack = true := by
  rw [almostEqual, Scalar.abs_exact, decide_eq_true near, Bool.true_or]

/-- Matrices within the tolerance of each other, as a whole, are almost equal in each entry. -/
theorem DenseMatrix.firstMismatch_of_near (near : A.distance B ≤ Tolerance.drift) : A.firstMismatch B = none := by
  rw [firstMismatch, List.find?_eq_none]
  rintro ⟨i, j⟩ member
  obtain ⟨row, col⟩ := mem_positions.mp member
  have shape : A.shape = (A.rows, A.cols) := rfl
  rw [distance_exact shape] at near
  have entry : ‖(A.entry i j).toComplex - (B.entry i j).toComplex‖ ≤ Tolerance.drift :=
    (frobenius_entry_le (A.toMatrix A.rows A.cols - B.toMatrix A.rows A.cols) ⟨i, row⟩ ⟨j, col⟩).trans near
  have real : |(A.entry i j).re - (B.entry i j).re| ≤ Tolerance.drift := (Complex.abs_re_le_norm _).trans entry
  have imaginary : |(A.entry i j).im - (B.entry i j).im| ≤ Tolerance.drift := (Complex.abs_im_le_norm _).trans entry
  simp only [Cplx.almostEqual, almostEqual_of_near real, almostEqual_of_near imaginary]
  decide

private theorem Decomposition.validate_of_near (shape : r.rebuild.shape = A.shape)
    (near : A.distance r.rebuild ≤ Tolerance.drift) : r.validate A = .ok () := by
  rw [validate, if_pos shape, DenseMatrix.firstMismatch_of_near near]

end Comparison

namespace Reference
variable {policy : Policy ℝ} {rule : FloorRule} {r : Reduction ℝ} {st : Iteration ℝ} {result found : Decomposition ℝ}

/-- With each norm that is judged no more than the floor is lost. -/
theorem Run.sum_loss_le (run : Run policy rule A r st) (shape : A.shape = (m, n)) (tall : n ≤ m)
    (enough : (2 * Tolerance.zero) ^ 2 ≤ policy.normFloor) :
    ((Reduction.judgements (normFloor policy rule A) A n).map (Judgement.loss (normFloor policy rule A))).sum ≤
      (2 * n - 1 : ℕ) * policy.normFloor := by
  have floor : 0 ≤ policy.normFloor := (sq_nonneg _).trans enough
  have few := Reduction.length_judgements_le shape tall le_rfl (run.upTo shape)
  rw [if_neg (lt_irrefl n)] at few
  have each : ∀ loss ∈ (Reduction.judgements (normFloor policy rule A) A n).map
      (Judgement.loss (normFloor policy rule A)), loss ≤ policy.normFloor := by
    intro loss member
    obtain ⟨judgement, -, rfl⟩ := List.mem_map.mp member
    cases verdict : (normFloor policy rule A).judge judgement.normSq with
    | keep =>
      rw [Judgement.loss_kept verdict]
      exact (pow_le_pow_left₀ (norm_nonneg _) (Cplx.norm_skew_le _) 2).trans enough
    | flush =>
      rw [Judgement.loss_flushed verdict]
      refine not_lt.mp fun large => ?_
      have kept := ((normFloor policy rule A).judge_eq_keep_iff judgement.normSq).mpr large
      rw [verdict] at kept
      cases kept
    | refuse =>
      rw [Judgement.loss, verdict]
      exact floor
  refine (List.sum_le_card_nsmul _ _ each).trans ?_
  rw [nsmul_eq_mul, List.length_map]
  gcongr

/-- What a run loses on a matrix with no more than `n` columns: the floor of each norm, three times the
tolerance of the iteration for each coupling, and twice the sign tolerance for each degenerate rotation. -/
noncomputable def runLoss (policy : Policy ℝ) (n : ℕ) (r : Reduction ℝ) (st : Iteration ℝ) : ℝ :=
  √(2 * n - 1 : ℕ) * √policy.normFloor + 3 * (n - 1 : ℕ) * negligible policy r + 2 * Tolerance.sign * st.degenerate

private theorem Run.norm_sub_product_le_runLoss (run : Run policy rule A r st) (shape : A.shape = (m, n)) (tall : n ≤ m)
    (enough : (2 * Tolerance.zero) ^ 2 ≤ policy.normFloor) (eta : 0 ≤ policy.convergenceEta) :
    ‖A.toMatrix m n - (assemble r st).product m n‖ ≤ runLoss policy n r st := by
  have zero : (0 : ℝ) ≤ Tolerance.zero := Tolerance.zero_pos.le
  have near := norm_sub_product_le_loss run shape tall (by nlinarith) eta
  have lost := Real.sqrt_le_sqrt (run.sum_loss_le shape tall enough)
  rw [Real.sqrt_mul (Nat.cast_nonneg _)] at lost
  rw [runLoss]
  linarith

/-- Every run is on a multiple of the input, and its losses are bounded by the size of that. -/
theorem Run.runLoss_le (run : Run policy rule A r st) (shape : A.shape = (m, n)) (tall : n ≤ m)
    (enough : Tolerance.zero ^ 2 ≤ policy.normFloor) (eta : 0 ≤ policy.convergenceEta) :
    runLoss policy n r st ≤ 2 * n * √policy.normFloor + 6 * (n - 1 : ℕ) * policy.convergenceEta * A.norm +
      Tolerance.sign * (policy.maxSweeps.toNat * (n * (n - 1)) : ℕ) := by
  have diagonals := Reduction.upTo_diagonalsLe enough shape tall le_rfl (run.upTo shape)
  have small := negligible_le (norm_nonneg _) eta diagonals
  have counted := Iteration.diagonalize_count run.settled
  have sized := Reduction.upTo_sized shape tall le_rfl (run.upTo shape)
  have size : (iteration A r).diag.size = n := sized.diagSize
  have fresh : (iteration A r).degenerate = 0 := rfl
  rw [size, fresh, mul_zero, zero_add] at counted
  have degenerate : (2 * st.degenerate : ℝ) ≤ (policy.maxSweeps.toNat * (n * (n - 1)) : ℕ) := by exact_mod_cast counted
  rw [DenseMatrix.norm_exact shape, runLoss]
  have floored : √(2 * n - 1 : ℕ) * √policy.normFloor ≤ 2 * n * √policy.normFloor :=
    mul_le_mul_of_nonneg_right (sqrt_judged_le n) (Real.sqrt_nonneg _)
  have neglected : 3 * ((n - 1 : ℕ) : ℝ) * negligible policy r ≤
      3 * (n - 1 : ℕ) * (2 * ‖A.toMatrix m n‖ * policy.convergenceEta) :=
    mul_le_mul_of_nonneg_left small (by positivity)
  have rotated := mul_le_mul_of_nonneg_left degenerate Tolerance.sign_pos.le
  linarith

/-- A decomposition comes from a run on a multiple of the input, and misses the input by what that loses,
over the multiple. -/
theorem decompose_distance_le (positive : 0 < policy.rescaleFactor) (few : policy.maxRetries.toNat < 2 ^ 31)
    (enough : (2 * Tolerance.zero) ^ 2 ≤ policy.normFloor) (eta : 0 ≤ policy.convergenceEta)
    (done : decompose policy A = .ok result) :
    ∃ rule tries r st, tries ≤ policy.maxRetries.toNat ∧
      Run policy rule (tallForm (A.scale (policy.rescaleFactor ^ tries))) r st ∧ result.rebuild.shape = A.shape ∧
      A.distance result.rebuild ≤ runLoss policy (min A.rows A.cols) r st / policy.rescaleFactor ^ tries := by
  obtain ⟨rule, tries, found, within, attempted, rfl⟩ := decompose_attempt done
  have scaling : 0 < policy.rescaleFactor ^ tries := pow_pos positive tries
  rw [rescaled_exact] at attempted
  rw [compensated_exact policy (by omega)]
  obtain ⟨r, st, run, left, right, -, distance⟩ := attempt_distance_eq attempted
  replace left : found.left.shape = (A.rows, A.rows) := left
  replace right : found.rightAdjoint.shape = (A.cols, A.cols) := right
  refine ⟨rule, tries, r, st, within, run, ?_, ?_⟩
  · rw [Decomposition.rebuild_shape]
    exact Prod.ext (DenseMatrix.rows_of_shape left) (DenseMatrix.cols_of_shape right)
  · rw [distance_rebuild_div scaling left right, distance]
    gcongr
    exact run.norm_sub_product_le_runLoss (shape_tallForm _) min_le_max enough eta

/-- The most that the default policy may let a decomposition of `A` miss: six times its relative tolerance
for each coupling, and next to nothing for norms below the floor and for degenerate rotations. -/
noncomputable def missBound (A : DenseMatrix ℝ) : ℝ :=
  6e-10 * (min A.rows A.cols - 1 : ℕ) * A.norm + 1e-11 * (min A.rows A.cols * (min A.rows A.cols - 1) : ℕ) +
    3e-17 * (min A.rows A.cols : ℕ)

private theorem runLoss_le_missBound {checked : Bool} {tries : ℕ}
    (run : Run { validate := checked } rule (tallForm (A.scale (1e2 ^ tries))) r st) :
    runLoss { validate := checked } (min A.rows A.cols) r st / 1e2 ^ tries ≤ missBound A := by
  unfold missBound
  have growing : (1 : ℝ) ≤ 1e2 ^ tries := one_le_pow₀ (by norm_num)
  have enough : (Tolerance.zero : ℝ) ^ 2 ≤ 1.5e-34 := by
    unfold Tolerance.zero
    norm_num
  have root : √(1.5e-34 : ℝ) ≤ 1.25e-17 := Real.sqrt_le_iff.mpr (by norm_num)
  have eta : (0 : ℝ) ≤ 1e-10 := by norm_num
  have sweeps : ({ validate := checked } : Policy ℝ).maxSweeps.toNat = 100 := rfl
  have bound := run.runLoss_le (shape_tallForm _) min_le_max enough eta
  rw [norm_tallForm, norm_scale (by positivity), sweeps] at bound
  have rows : (A.scale (1e2 ^ tries)).rows = A.rows := rfl
  have cols : (A.scale (1e2 ^ tries)).cols = A.cols := rfl
  rw [rows, cols] at bound
  generalize min A.rows A.cols = p at bound
  have few : (0 : ℝ) ≤ p := Nat.cast_nonneg p
  have pairs : (0 : ℝ) ≤ (p * (p - 1) : ℕ) := Nat.cast_nonneg _
  have floored : 2 * p * √(1.5e-34 : ℝ) ≤ 3e-17 * p := by nlinarith
  have rotated : Tolerance.sign * ((100 * (p * (p - 1)) : ℕ) : ℝ) = 1e-11 * (p * (p - 1) : ℕ) := by
    unfold Tolerance.sign
    push_cast
    ring
  have floored' : 3e-17 * (p : ℝ) ≤ 3e-17 * p * 1e2 ^ tries := le_mul_of_one_le_right (by positivity) growing
  have rotated' : 1e-11 * ((p * (p - 1) : ℕ) : ℝ) ≤ 1e-11 * (p * (p - 1) : ℕ) * 1e2 ^ tries :=
    le_mul_of_one_le_right (by positivity) growing
  rw [div_le_iff₀ (by positivity)]
  linarith

theorem reference_result (policy : Policy ℝ) (A : DenseMatrix ℝ) :
    (Backend.reference.decompose policy A).result = (decompose policy A).bind (Backend.finish policy A) := rfl

/-- The default policy has no cutoff, so a decomposition that passes the comparison is handed on as it is. -/
theorem finish_of_valid (checked : Bool) (valid : result.validate A = .ok ()) :
    Backend.finish { validate := checked } A result = .ok result := by
  have checks : Backend.check { validate := checked } A result = .ok () := by
    unfold Backend.check
    split
    · exact valid
    · rfl
  have inactive : (Cutoff.ofPolicy { validate := checked } : Cutoff ℝ).isActive = false := by
    simp [Cutoff.isActive, Cutoff.ofPolicy]
  rw [Backend.finish, checks, Backend.applyCutoff, inactive]
  rfl

/-- What the default policy makes of a decomposition that its run leaves within the tolerance. -/
theorem decompose_passes (checked : Bool) (done : decompose { validate := checked } A = .ok result) :
    ∃ rule tries r st, tries ≤ 15 ∧ Run { validate := checked } rule (tallForm (A.scale (1e2 ^ tries))) r st ∧
      result.rebuild.shape = A.shape ∧
      A.distance result.rebuild ≤ runLoss { validate := checked } (min A.rows A.cols) r st / 1e2 ^ tries ∧
      runLoss { validate := checked } (min A.rows A.cols) r st / 1e2 ^ tries ≤ missBound A ∧
      (runLoss { validate := checked } (min A.rows A.cols) r st / 1e2 ^ tries ≤ Tolerance.drift →
        result.validate A = .ok () ∧
          (Backend.reference.decompose { validate := checked } A).result = .ok result) := by
  have enough : (2 * Tolerance.zero : ℝ) ^ 2 ≤ 1.5e-34 := by
    unfold Tolerance.zero
    norm_num
  have eta : (0 : ℝ) ≤ 1e-10 := by norm_num
  have few : (15 : UInt64).toNat < 2 ^ 31 := by decide
  obtain ⟨rule, tries, r, st, within, run, shape, near⟩ := decompose_distance_le (by norm_num) few enough eta done
  refine ⟨rule, tries, r, st, within, run, shape, near, runLoss_le_missBound run, fun small => ?_⟩
  have valid := Decomposition.validate_of_near shape (near.trans small)
  refine ⟨valid, ?_⟩
  rw [reference_result, done]
  exact finish_of_valid checked valid

private theorem decompose_of_above (above : policy.normFloor < A.maxColumnNormSq) (growing : 1 ≤ policy.rescaleFactor)
    (done : attempt policy .refuse A = .ok result) : decompose policy A = .ok result := by
  have lifted : policy.normFloor <
      A.maxColumnNormSq * Scalar.powInt policy.rescaleFactor (reachExponent policy.maxRetries) := by
    rw [Scalar.powInt_exact]
    refine above.trans_le (le_mul_of_one_le_right (Scalar.le_foldl_larger _ _ 0) ?_)
    exact_mod_cast one_le_pow₀ growing
  have reachable : belowReach policy A = false := by
    rw [belowReach, decide_eq_false (not_le.mpr lifted), Bool.and_false]
  rw [decompose, reachable, done]
  rfl

/-- A decomposition under the default policy misses its input by what its run loses, over the rescaling.
Where that is within the tolerance, the comparison with the input passes, and the decomposition is handed
on. It is where the bound is, and then no mismatch is ever reported. -/
theorem decompose_validates (checked : Bool) (A : DenseMatrix ℝ) :
    (∀ result, decompose { validate := checked } A = .ok result →
      ∃ rule tries r st, tries ≤ 15 ∧ Run { validate := checked } rule (tallForm (A.scale (1e2 ^ tries))) r st ∧
        result.rebuild.shape = A.shape ∧
        A.distance result.rebuild ≤ runLoss { validate := checked } (min A.rows A.cols) r st / 1e2 ^ tries ∧
        runLoss { validate := checked } (min A.rows A.cols) r st / 1e2 ^ tries ≤ missBound A ∧
        (runLoss { validate := checked } (min A.rows A.cols) r st / 1e2 ^ tries ≤ Tolerance.drift →
          result.validate A = .ok () ∧
            (Backend.reference.decompose { validate := checked } A).result = .ok result)) ∧
    (missBound A ≤ Tolerance.drift → ∀ i j expected actual,
      (Backend.reference.decompose { validate := checked } A).result ≠
        .error (.validationMismatch i j expected actual)) := by
  refine ⟨fun result done => decompose_passes checked done, fun small i j expected actual mismatch => ?_⟩
  cases done : decompose { validate := checked } A with
  | ok result =>
    obtain ⟨rule, tries, r, st, within, run, shape, near, bound, passes⟩ := decompose_passes checked done
    rw [(passes (bound.trans small)).2] at mismatch
    cases mismatch
  | error error =>
    obtain ⟨attempts, rfl⟩ := decompose_error done
    rw [reference_result, done] at mismatch
    cases mismatch

private theorem missBound_evenBlock : missBound (flatBlock 1 1) ≤ Tolerance.drift := by
  have extent : min (flatBlock 1 1).rows (flatBlock 1 1).cols = 2 := rfl
  have root : √(2 : ℝ) ≤ 1.5 := Real.sqrt_le_iff.mpr (by norm_num)
  rw [missBound, extent, norm_flatBlock, Tolerance.drift]
  norm_num
  linarith

theorem decompose_validates_evenBlock :
    missBound (flatBlock 1 1) ≤ Tolerance.drift ∧ ∃ result, decompose { validate := true } (flatBlock 1 1) = .ok result ∧
      result.validate (flatBlock 1 1) = .ok () ∧
      (Backend.reference.decompose { validate := true } (flatBlock 1 1)).result = .ok result ∧
      ∀ i j expected actual, (Backend.reference.decompose { validate := true } (flatBlock 1 1)).result ≠
        .error (.validationMismatch i j expected actual) := by
  have small := missBound_evenBlock
  obtain ⟨result, attempted⟩ := evenBlock_attempt one_pos (by norm_num)
  have done : decompose { validate := true } (flatBlock 1 1) = .ok result := by
    refine decompose_of_above ?_ (by norm_num) attempted
    rw [maxColumnNormSq_flatBlock]
    norm_num
  obtain ⟨passing, quiet⟩ := decompose_validates true (flatBlock 1 1)
  obtain ⟨rule, tries, r, st, within, run, shape, near, bound, passes⟩ := passing result done
  exact ⟨small, result, done, (passes (bound.trans small)).1, (passes (bound.trans small)).2, quiet small⟩

section SteepBlock

/-- A large entry and a small one beside it, over an empty row. -/
noncomputable def steepBlock : DenseMatrix ℝ := .ofFn 2 2 fun i j => if i = 0 then if j = 0 then ⟨1e10, 0⟩ else 1 else 0

private theorem steepBlock_eq : steepBlock = flatBlock 1e10 1 := rfl

private theorem steepBlock_bidiagonalize :
    ∃ r, steepBlock.bidiagonalize (normFloor { validate := true } .refuse steepBlock) = some r ∧ r.Sized 2 2 ∧
      r.diag.getD 0 0 = 1e10 ∧ r.diag.getD 1 0 = 0 ∧ r.superDiag.getD 0 0 = 0 ∧ r.superDiag.getD 1 0 = 1 := by
  have floor : (normFloor { validate := true } .refuse steepBlock).floor < 1 := by
    change (1.5e-34 : ℝ) < 1
    norm_num
  have nothing : (normFloor { validate := true } .refuse steepBlock).judge 0 = .flush :=
    judge_zero (by norm_num) .refuse steepBlock
  rw [steepBlock_eq] at *
  obtain ⟨r, -, reduced, sized, ⟨first, second⟩, ⟨outside, coupling⟩, -⟩ :=
    Reduction.bidiagonalize_flatBlock (a := 1e10) (b := 1) (by norm_num) (floor.trans (by norm_num)) one_pos
      (floor.trans_eq (one_pow 2).symm) nothing
  exact ⟨r, reduced, sized, first, second, outside, coupling⟩

/-- Beside the large entry the small one is negligible, so the iteration has nothing to do. -/
theorem steepBlock_run :
    ∃ r, Run { validate := true } .refuse steepBlock r (iteration steepBlock r) ∧
      r.diag.size = 2 ∧ r.diag.getD 0 0 = 1e10 ∧ r.diag.getD 1 0 = 0 := by
  obtain ⟨r, reduced, sized, first, second, none, coupling⟩ := steepBlock_bidiagonalize
  have size : (iteration steepBlock r).diag.size = 2 := sized.diagSize
  have tolerance : negligible { validate := true } r = 1 := by
    have folded : negligible { validate := true } r =
        ([0, 1].foldl (fun best k => Scalar.larger best (r.diag.getD k 0 + r.superDiag.getD k 0)) 0) * 1e-10 := by
      rw [negligible, sized.diagSize]
      rfl
    rw [folded, List.foldl_cons, List.foldl_cons, List.foldl_nil, first, second, none, coupling, Scalar.larger_exact,
      Scalar.larger_exact]
    norm_num
  have split : ((iteration steepBlock r).split 1 1) = ⟨1, false⟩ := by
    have small : Scalar.abs ((iteration steepBlock r).e 1) ≤ 1 := by
      have value : (iteration steepBlock r).e 1 = 1 := coupling
      rw [value, Scalar.abs_exact, abs_one]
    rw [Iteration.split, if_pos small]
  have isolated : ((iteration steepBlock r).isolate 1 1).2 = iteration steepBlock r := by
    rw [Iteration.isolate, split]
    rfl
  have last : (iteration steepBlock r).makeNonNegative 1 = iteration steepBlock r := if_neg second.not_lt
  have large : (iteration steepBlock r).makeNonNegative 0 = iteration steepBlock r := by
    have value : (iteration steepBlock r).d 0 = 1e10 := first
    refine if_neg ?_
    rw [value]
    norm_num
  have settled := Iteration.diagonalize_pair size (congrArg Iteration.Split.start split) 100
  rw [isolated, last, large] at settled
  refine ⟨r, ⟨reduced, ?_, Array.all_eq_true.mpr fun _ _ => rfl⟩, sized.diagSize, first, second⟩
  rw [tolerance]
  exact settled

private theorem steepBlock_attempt :
    ∃ result, attempt { validate := true } .refuse steepBlock = .ok result ∧ result.truncation = none ∧
      result.rebuild.shape = steepBlock.shape ∧ (result.rebuild.entry 0 1).toComplex = 0 := by
  obtain ⟨r, run, size, first, second⟩ := steepBlock_run
  have eta : (0 : ℝ) ≤ 1e-10 := by norm_num
  have later (k : ℕ) (after : 0 < k) : r.diag.getD k 0 = 0 := by
    rcases Nat.eq_or_lt_of_le (Nat.succ_le_of_lt after) with rfl | beyond
    · exact second
    · rw [Array.getD_eq_getD_getElem?, Array.getElem?_eq_none (size.trans_le (Nat.succ_le_of_lt beyond))]
      rfl
  have kept : SingularTriples.sorted ⟨r.diag, .identity 2, .identity 2⟩ =
      (⟨r.diag, .identity 2, .identity 2⟩ : SingularTriples ℝ) := by
    have nonneg (k : ℕ) : 0 ≤ r.diag.getD k 0 := by
      rcases Nat.eq_zero_or_pos k with rfl | after
      · rw [first]
        norm_num
      · rw [later k after]
    exact SingularTriples.sorted_of_descending nonneg fun k i beyond => (later i (by omega)).trans_le (nonneg k)
  obtain ⟨⟨leftShape, -⟩, rightShape, rightProduct⟩ := assemble_factors (m := 2) (n := 2) run rfl le_rfl eta
  have values : (assemble r (iteration steepBlock r)).values = r.diag := congrArg SingularTriples.values kept
  have right : (SingularTriples.sorted ⟨(iteration steepBlock r).diag, (iteration steepBlock r).left,
      (iteration steepBlock r).right⟩).right = .identity 2 := congrArg SingularTriples.right kept
  have done : attempt { validate := true } .refuse steepBlock =
      .ok ⟨(assemble r (iteration steepBlock r)).left, (assemble r (iteration steepBlock r)).values.toList,
        (assemble r (iteration steepBlock r)).right, .columns, none⟩ :=
    Run.attempt_eq run
  rw [right, DenseMatrix.toMatrix_identity, Matrix.mul_one] at rightProduct
  refine ⟨_, done, rfl, ?_, ?_⟩
  · rw [Decomposition.rebuild_shape]
    exact Prod.ext (DenseMatrix.rows_of_shape leftShape) (DenseMatrix.rows_of_shape rightShape)
  · have product := congrFun (congrFun (SingularTriples.rebuild_toMatrix leftShape rightShape) 0) 1
    have apart : (assemble r (iteration steepBlock r)).right.toMatrix 2 2 1 0 = 0 := by
      rw [rightProduct, Reduction.rightProduct_first]
      exact Matrix.one_apply_ne one_ne_zero
    have empty (l : Fin 2) :
        gridMatrix 2 2 (SingularTriples.diagonalGrid (assemble r (iteration steepBlock r)).values) l 1 = 0 := by
      rw [values, gridMatrix, Matrix.of_apply, SingularTriples.diagonalGrid, Fin.val_one, second, ite_self,
        Complex.ofReal_zero]
    rw [SingularTriples.product, Matrix.mul_apply, Fin.sum_univ_two, Matrix.conjTranspose_apply, apart, star_zero,
      mul_zero, zero_add, Matrix.mul_apply, Fin.sum_univ_two, empty, empty, mul_zero, mul_zero, add_zero,
      zero_mul] at product
    exact product

/-- The small entry is lost beside the large one, which the comparison with the input does not let pass. -/
theorem decompose_mismatch_steepBlock :
    ∃ result, decompose { validate := true } steepBlock = .ok result ∧
      ∃ i j expected actual,
        result.validate steepBlock = .error (.validationMismatch i j expected actual) ∧
        (Backend.reference.decompose { validate := true } steepBlock).result =
          .error (.validationMismatch i j expected actual) := by
  obtain ⟨result, attempted, whole, shape, lost⟩ := steepBlock_attempt
  have done : decompose { validate := true } steepBlock = .ok result := by
    refine decompose_of_above ?_ (by norm_num) attempted
    rw [steepBlock_eq, maxColumnNormSq_flatBlock]
    norm_num
  have mismatch : (steepBlock.firstMismatch result.rebuild).isSome = true := by
    have apart : (steepBlock.entry 0 1).almostEqual (result.rebuild.entry 0 1) Tolerance.drift = false := by
      have gone : (result.rebuild.entry 0 1).re = 0 := congrArg Complex.re lost
      have present : (steepBlock.entry 0 1).re = 1 := congrArg Cplx.re (flatBlock_entry 1e10 1).2.1
      rw [Cplx.almostEqual, gone, present, almostEqual, Scalar.abs_exact, Scalar.abs_exact, Scalar.abs_exact,
        Scalar.larger_exact]
      unfold Tolerance.drift Tolerance.epsilon
      norm_num
    rw [DenseMatrix.firstMismatch, List.find?_isSome]
    exact ⟨(0, 1), mem_positions.mpr ⟨Nat.two_pos, Nat.one_lt_two⟩, by dsimp only; rw [apart]; rfl⟩
  obtain ⟨⟨i, j⟩, found⟩ := Option.isSome_iff_exists.mp mismatch
  have refused : result.validate steepBlock =
      .error (.validationMismatch i j (steepBlock.entry i j) (result.rebuild.entry i j)) := by
    rw [Decomposition.validate, if_pos shape, found]
  refine ⟨result, done, i, j, _, _, refused, ?_⟩
  have checks : Backend.check { validate := true } steepBlock result = result.validate steepBlock := by
    have compared : Backend.skipsValidation result = false := by
      rw [Backend.skipsValidation, whole]
    rw [Backend.check, compared]
    rfl
  rw [reference_result, done, Except.bind, Backend.finish, checks, refused]
  rfl

end SteepBlock

end Reference
end BondSvd
