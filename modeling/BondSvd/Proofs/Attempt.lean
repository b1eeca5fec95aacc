import Mathlib
import BondSvd.Proofs.FlatBlock
import BondSvd.Proofs.Ordering
import BondSvd.Proofs.Run

/-! What a successful attempt returns, in exact arithmetic: unitary factors, and a product that
is off the input by no more than what was floored, what the iteration neglected and what its
degenerate rotations left behind. -/
namespace BondSvd
open scoped Matrix Matrix.Norms.Frobenius
variable {m n : ℕ} {policy : Policy ℝ} {rule : FloorRule} {A : DenseMatrix ℝ}

namespace SingularTriples
variable {t : SingularTriples ℝ}

private theorem diagonal_toMatrix (values : Array ℝ) :
    (DenseMatrix.diagonal values.toList m n).toMatrix m n = gridMatrix m n (diagonalGrid values) := by
  rw [DenseMatrix.toMatrix_diagonal]
  ext i j
  simp only [gridMatrix, Matrix.of_apply, diagonalGrid]
  split
  · next same => simp [same, Array.getD_eq_getD_getElem?]
  · rfl

private theorem diagonalGrid_conjTranspose (values : Array ℝ) :
    (gridMatrix m n (diagonalGrid values))ᴴ = gridMatrix n m (diagonalGrid values) := by
  ext i j
  simp only [gridMatrix, Matrix.conjTranspose_apply, Matrix.of_apply, diagonalGrid, Complex.star_def,
    Complex.conj_ofReal]
  by_cases same : (i : ℕ) = j
  · simp [same]
  · simp [same, Ne.symm same]

theorem rebuild_toMatrix (left : t.left.shape = (m, m)) (right : t.right.shape = (n, n)) :
    (Decomposition.rebuild ⟨t.left, t.values.toList, t.right, .columns, none⟩).toMatrix m n = t.product m n := by
  have adjoint : t.right.adjoint.shape = (n, n) := DenseMatrix.shape_adjoint right
  have middle : Decomposition.middle ⟨t.left, t.values.toList, t.right, .columns, none⟩ =
      DenseMatrix.diagonal t.values.toList m n := by
    rw [Decomposition.middle, Decomposition.rightAdjoint]
    dsimp only
    rw [DenseMatrix.cols_of_shape left, DenseMatrix.rows_of_shape adjoint]
  rw [Decomposition.toMatrix_rebuild ⟨t.left, t.values.toList, t.right, .columns, none⟩ left adjoint, middle,
    diagonal_toMatrix, Decomposition.rightAdjoint, DenseMatrix.toMatrix_adjoint right]
  rfl

/-- With the factors exchanged they multiply to its adjoint. -/
theorem rebuild_exchanged_toMatrix (left : t.left.shape = (m, m)) (right : t.right.shape = (n, n)) :
    (Decomposition.rebuild ⟨t.right, t.values.toList, t.left, .columns, none⟩).toMatrix n m =
      (t.product m n)ᴴ := by
  have exchanged := rebuild_toMatrix (t := ⟨t.values, t.right, t.left⟩) right left
  rw [exchanged, product, product, Matrix.conjTranspose_mul, Matrix.conjTranspose_mul,
    Matrix.conjTranspose_conjTranspose, diagonalGrid_conjTranspose, Matrix.mul_assoc]

end SingularTriples

namespace Reference

/-- The triples of the tall orientation miss that as far as they miss `A` as a decomposition of it. -/
theorem distance_oriented (A : DenseMatrix ℝ) {t : SingularTriples ℝ}
    (left : t.left.shape = (max A.rows A.cols, max A.rows A.cols))
    (right : t.right.shape = (min A.rows A.cols, min A.rows A.cols)) :
    (oriented A t).rebuild.shape = A.shape ∧
      A.distance (oriented A t).rebuild =
        ‖(tallForm A).toMatrix (max A.rows A.cols) (min A.rows A.cols) -
          t.product (max A.rows A.cols) (min A.rows A.cols)‖ := by
  have shape : A.shape = (A.rows, A.cols) := rfl
  unfold oriented tallForm
  split
  · next wide =>
    rw [max_eq_right wide.le] at left ⊢
    rw [min_eq_left wide.le] at right ⊢
    refine ⟨?_, ?_⟩
    · rw [Decomposition.rebuild_shape]
      exact Prod.ext (DenseMatrix.rows_of_shape right) (DenseMatrix.rows_of_shape left)
    · rw [DenseMatrix.distance_exact shape, SingularTriples.rebuild_exchanged_toMatrix left right,
        ← Matrix.frobenius_norm_conjTranspose, Matrix.conjTranspose_sub, Matrix.conjTranspose_conjTranspose,
        ← DenseMatrix.toMatrix_adjoint shape]
  · next tall =>
    rw [max_eq_left (not_lt.mp tall)] at left ⊢
    rw [min_eq_right (not_lt.mp tall)] at right ⊢
    refine ⟨?_, ?_⟩
    · rw [Decomposition.rebuild_shape]
      exact Prod.ext (DenseMatrix.rows_of_shape left) (DenseMatrix.rows_of_shape right)
    · rw [DenseMatrix.distance_exact shape, SingularTriples.rebuild_toMatrix left right]

/-- The bound on the squared norms that an attempt floors. -/
noncomputable def flushBound (policy : Policy ℝ) (rule : FloorRule) (A : DenseMatrix ℝ) : ℝ :=
  match rule with
  | .refuse => min policy.normFloor (A.maxColumnNormSq * policy.convergenceEta ^ 2)
  | .flush => policy.normFloor

theorem negligible_nonneg (nonneg : 0 ≤ policy.convergenceEta) (r : Reduction ℝ) : 0 ≤ negligible policy r :=
  mul_nonneg (Scalar.le_foldl_larger _ _ 0) nonneg

private theorem floor_bound (rule : FloorRule) (A : DenseMatrix ℝ) (floor : 0 ≤ policy.normFloor) :
    0 ≤ flushBound policy rule A ∧
      ∀ normSq, (normFloor policy rule A).judge normSq = .flush → normSq ≤ flushBound policy rule A := by
  have largest : 0 ≤ A.maxColumnNormSq := Scalar.le_foldl_larger _ _ 0
  unfold flushBound normFloor NormFloor.judge
  cases rule with
  | flush =>
    refine ⟨floor, fun normSq flushed => ?_⟩
    dsimp only at flushed ⊢
    split at flushed
    · cases flushed
    · next small => exact not_lt.mp small
  | refuse =>
    refine ⟨le_min floor (mul_nonneg largest (sq_nonneg _)), fun normSq flushed => ?_⟩
    dsimp only at flushed ⊢
    split at flushed
    · cases flushed
    · next small =>
      split at flushed
      · cases flushed
      · next light =>
        refine le_min (not_lt.mp small) ?_
        rw [sq, ← mul_assoc]
        exact not_lt.mp light

/-- What vanishes is flushed under either rule. -/
theorem judge_zero (floor : 0 ≤ policy.normFloor) (rule : FloorRule) (A : DenseMatrix ℝ) :
    (normFloor policy rule A).judge 0 = .flush := by
  have small : ¬(normFloor policy rule A).floor < 0 := not_lt.mpr floor
  have largest : 0 ≤ A.maxColumnNormSq := Scalar.le_foldl_larger _ _ 0
  rw [NormFloor.judge, if_neg small]
  cases rule with
  | flush => rfl
  | refuse =>
    refine if_neg (not_lt.mpr ?_)
    rw [mul_assoc]
    exact mul_nonneg largest (mul_self_nonneg _)

section Run
variable {r : Reduction ℝ} {st : Iteration ℝ}

theorem iteration_regular (sized : r.Sized m n) (shape : A.shape = (m, n)) (tall : n ≤ m) :
    (iteration A r).Regular m n where
  diagSize := sized.diagSize
  superSize := sized.superSize
  left := by
    rw [iteration, DenseMatrix.rows_of_shape shape]
    exact .identity tall
  right := by
    rw [iteration, DenseMatrix.cols_of_shape shape]
    exact .identity le_rfl

/-- The iteration starts from the bidiagonal matrix of the reduction. -/
theorem assembled_iteration (shape : A.shape = (m, n)) :
    (iteration A r).assembled m n ((iteration A r).bidiagonal n) = r.workMatrix m n n n := by
  rw [Iteration.assembled, iteration, DenseMatrix.rows_of_shape shape, DenseMatrix.cols_of_shape shape,
    DenseMatrix.toMatrix_identity, DenseMatrix.toMatrix_identity, Matrix.one_mul, Matrix.conjTranspose_one,
    Matrix.mul_one]
  ext i j
  rw [gridMatrix, Matrix.of_apply, Reduction.workMatrix, Matrix.of_apply, Reduction.work_border (by omega),
    Iteration.bidiagonal]
  simp only [j.isLt, and_true]
  rfl

/-- What the factors of the iteration contribute, in the order of the sorted values. -/
theorem sorted_settled (run : Run policy rule A r st) (shape : A.shape = (m, n)) (tall : n ≤ m)
    (eta : 0 ≤ policy.convergenceEta) :
    let t := SingularTriples.sorted ⟨st.diag, st.left, st.right⟩
    t.left.shape = (m, m) ∧ t.left.toMatrix m m ∈ Matrix.unitaryGroup (Fin m) ℂ ∧
      t.right.shape = (n, n) ∧ t.right.toMatrix n n ∈ Matrix.unitaryGroup (Fin n) ℂ ∧
      ‖r.workMatrix m n n n - t.product m n‖ ≤
        3 * negligible policy r * (n - 1 : ℕ) + 2 * Tolerance.sign * st.degenerate := by
  have reduced := run.upTo shape
  have sized := Reduction.upTo_sized shape tall le_rfl reduced
  obtain ⟨regular, -, near⟩ := Iteration.diagonalize_sound (iteration_regular sized shape tall)
    (negligible_nonneg eta r) run.settled
  have leftCols : n ≤ st.left.cols := tall.trans_eq regular.left.cols.symm
  obtain ⟨p, moved⟩ := SingularTriples.sorted_rearranges (t := ⟨st.diag, st.left, st.right⟩)
    (regular.diagSize.trans_le leftCols) (regular.diagSize.trans_le regular.right.cols.ge)
  rw [regular.diagSize] at moved
  refine ⟨moved.leftShape.trans regular.left.shape, ?_, moved.rightShape.trans regular.right.shape, ?_, ?_⟩
  · rw [moved.toMatrix_left tall]
    exact SingularTriples.submatrix_mem_unitary regular.left.unitary _
  · rw [moved.toMatrix_right le_rfl]
    exact SingularTriples.submatrix_mem_unitary regular.right.unitary _
  · have final : st.assembled m n (st.bidiagonal 0) =
        SingularTriples.product ⟨st.diag, st.left, st.right⟩ m n := by
      have values : st.bidiagonal 0 = SingularTriples.diagonalGrid st.diag := by
        funext i j
        simp only [Iteration.bidiagonal, Nat.not_lt_zero, and_false, if_false, SingularTriples.diagonalGrid]
        rfl
      rw [Iteration.assembled, SingularTriples.product, values]
    rw [moved.product_eq tall, ← final, ← assembled_iteration shape]
    simpa [iteration] using near

/-- The vectors of a successful attempt, as the replayed reflections of those of the iteration. -/
theorem assemble_factors (run : Run policy rule A r st) (shape : A.shape = (m, n)) (tall : n ≤ m)
    (eta : 0 ≤ policy.convergenceEta) :
    let t := SingularTriples.sorted ⟨st.diag, st.left, st.right⟩
    ((assemble r st).left.shape = (m, m) ∧
      (assemble r st).left.toMatrix m m = Reduction.productBelow (r.leftFactor m) n * t.left.toMatrix m m) ∧
    (assemble r st).right.shape = (n, n) ∧
      (assemble r st).right.toMatrix n n = Reduction.productBelow (r.rightFactor n) n * t.right.toMatrix n n := by
  have reduced := run.upTo shape
  have sized := Reduction.upTo_sized shape tall le_rfl reduced
  obtain ⟨leftShape, -, rightShape, -, -⟩ := sorted_settled run shape tall eta
  exact ⟨Reduction.toMatrix_accumulateLeft sized leftShape, Reduction.toMatrix_accumulateRight sized rightShape⟩

private theorem assemble_unitary (run : Run policy rule A r st) (shape : A.shape = (m, n)) (tall : n ≤ m)
    (floor : 0 ≤ policy.normFloor) (eta : 0 ≤ policy.convergenceEta) :
    (assemble r st).left.Unitary m ∧ (assemble r st).right.Unitary n := by
  have reduced := run.upTo shape
  obtain ⟨left, right⟩ := Reduction.factors_unitary floor shape tall le_rfl reduced
  obtain ⟨-, sortedLeft, -, sortedRight, -⟩ := sorted_settled run shape tall eta
  obtain ⟨⟨leftShape, leftProduct⟩, rightShape, rightProduct⟩ := assemble_factors run shape tall eta
  constructor
  · rw [DenseMatrix.unitary_iff, leftProduct]
    exact ⟨leftShape, mul_mem (Reduction.productBelow_mem_unitary left) sortedLeft⟩
  · rw [DenseMatrix.unitary_iff, rightProduct]
    exact ⟨rightShape, mul_mem (Reduction.productBelow_mem_unitary right) sortedRight⟩

private theorem floored_sum_le (reduced : Reduction.upTo (normFloor policy rule A) A n = some r) (shape : A.shape = (m, n))
    (tall : n ≤ m) (floor : 0 ≤ policy.normFloor) :
    (Reduction.floored (normFloor policy rule A) (Reduction.judgements (normFloor policy rule A) A n)).sum ≤
      (2 * n - 1 : ℕ) * flushBound policy rule A := by
  obtain ⟨nonneg, bound⟩ := floor_bound rule A floor
  have few := Reduction.length_judgements_le shape tall le_rfl reduced
  rw [if_neg (lt_irrefl n)] at few
  have each : ∀ normSq ∈ Reduction.floored (normFloor policy rule A)
      (Reduction.judgements (normFloor policy rule A) A n), normSq ≤ flushBound policy rule A := by
    intro normSq member
    obtain ⟨judgement, kept, rfl⟩ := List.mem_map.mp member
    exact bound _ (by simpa using (List.mem_filter.mp kept).2)
  have count : (Reduction.floored (normFloor policy rule A)
      (Reduction.judgements (normFloor policy rule A) A n)).length ≤ 2 * n - 1 := by
    rw [Reduction.floored, List.length_map]
    exact (List.length_filter_le _ _).trans few
  refine (List.sum_le_card_nsmul _ _ each).trans ?_
  rw [nsmul_eq_mul]
  gcongr

/-- What an attempt on a matrix with no more columns than rows loses on the way. -/
theorem norm_sub_product_le_loss (run : Run policy rule A r st) (shape : A.shape = (m, n)) (tall : n ≤ m)
    (enough : Tolerance.zero ^ 2 ≤ policy.normFloor) (eta : 0 ≤ policy.convergenceEta) :
    ‖A.toMatrix m n - (assemble r st).product m n‖ ≤
      √((Reduction.judgements (normFloor policy rule A) A n).map (Judgement.loss (normFloor policy rule A))).sum +
        3 * (n - 1 : ℕ) * negligible policy r + 2 * Tolerance.sign * st.degenerate := by
  have floor : 0 ≤ policy.normFloor := (sq_nonneg _).trans enough
  have reduced := run.upTo shape
  obtain ⟨left, right⟩ := Reduction.factors_unitary floor shape tall le_rfl reduced
  obtain ⟨E, factors, -, norm⟩ := Reduction.upTo_factorsTo enough shape tall le_rfl reduced
  obtain ⟨-, -, -, -, near⟩ := sorted_settled run shape tall eta
  obtain ⟨⟨-, leftProduct⟩, -, rightProduct⟩ := assemble_factors run shape tall eta
  have residue := Real.le_sqrt_of_sq_le norm.le
  have whole : A.toMatrix m n - (assemble r st).product m n =
      Reduction.productBelow (r.leftFactor m) n *
        (r.workMatrix m n n n + E - (SingularTriples.sorted ⟨st.diag, st.left, st.right⟩).product m n) *
        (Reduction.productBelow (r.rightFactor n) n)ᴴ := by
    rw [Matrix.mul_sub, Matrix.sub_mul, ← factors, SingularTriples.product, leftProduct, rightProduct,
      SingularTriples.product, Matrix.conjTranspose_mul]
    simp only [Matrix.mul_assoc]
    rfl
  rw [whole, frobenius_mul_unitary (conjTranspose_mem_unitary (Reduction.productBelow_mem_unitary right)),
    frobenius_unitary_mul (Reduction.productBelow_mem_unitary left), add_sub_right_comm]
  refine (norm_add_le _ _).trans ?_
  linarith

/-- Without faint pivots, all that a reduction loses is floored. -/
theorem norm_sub_product_le (run : Run policy rule A r st) (shape : A.shape = (m, n)) (tall : n ≤ m)
    (enough : Tolerance.zero ^ 2 ≤ policy.normFloor) (eta : 0 ≤ policy.convergenceEta)
    (clear : ∀ judgement ∈ Reduction.judgements (normFloor policy rule A) A n,
      (normFloor policy rule A).judge judgement.normSq = .keep → ¬judgement.Faint) :
    ‖A.toMatrix m n - (assemble r st).product m n‖ ≤
      √(2 * n - 1 : ℕ) * √(flushBound policy rule A) + 3 * (n - 1 : ℕ) * negligible policy r +
        2 * Tolerance.sign * st.degenerate := by
  have near := norm_sub_product_le_loss run shape tall enough eta
  have bound := Real.sqrt_le_sqrt (floored_sum_le (run.upTo shape) shape tall ((sq_nonneg _).trans enough))
  rw [Real.sqrt_mul (Nat.cast_nonneg _)] at bound
  rw [Reduction.sum_loss_of_clear clear] at near
  linarith

end Run

theorem Run.attempt_eq {r : Reduction ℝ} {st : Iteration ℝ} (run : Run policy rule (tallForm A) r st) :
    attempt policy rule A = .ok (oriented A (assemble r st)) := by
  rw [attempt_eq_tall, run.tall_eq]
  rfl

section EvenBlock
variable {c : ℝ}

theorem tallForm_flatBlock (a b : ℝ) : tallForm (flatBlock a b) = flatBlock a b := if_neg (lt_irrefl 2)

theorem visible_of_above (positive : 0 < c) (above : 1.5e-34 < c ^ 2) : Tolerance.zero < c := by
  unfold Tolerance.zero
  nlinarith

/-- Equal entries above the floor are kept, and next to each other neither is negligible. -/
theorem evenBlock_reduction (positive : 0 < c) (above : 1.5e-34 < c ^ 2) :
    ∃ r p, (flatBlock c c).bidiagonalize (normFloor {} .refuse (flatBlock c c)) = some r ∧ r.Sized 2 2 ∧
      (iteration (flatBlock c c) r).Even c ∧ (0 ≤ negligible {} r ∧ negligible {} r < c) ∧ ‖p.toComplex‖ = c ∧
      Reduction.judgements (normFloor {} .refuse (flatBlock c c)) (flatBlock c c) 2 =
        [⟨c ^ 2, ⟨c, 0⟩⟩, ⟨c ^ 2, p⟩, ⟨0, 0⟩] := by
  have nothing : (normFloor {} .refuse (flatBlock c c)).judge 0 = .flush := judge_zero (by norm_num) .refuse _
  obtain ⟨r, p, reduced, sized, ⟨first, second⟩, ⟨outside, coupling⟩, length, judged⟩ :=
    Reduction.bidiagonalize_flatBlock positive above positive above nothing
  have tolerance : negligible {} r = c * 1e-10 := by
    have folded : negligible {} r =
        ([0, 1].foldl (fun best k => Scalar.larger best (r.diag.getD k 0 + r.superDiag.getD k 0)) 0) * 1e-10 := by
      rw [negligible, sized.diagSize]
      rfl
    rw [folded, List.foldl_cons, List.foldl_cons, List.foldl_nil, first, second, outside, coupling, Scalar.larger_exact,
      Scalar.larger_exact, add_zero, zero_add, max_eq_right positive.le, max_self]
  refine ⟨r, p, reduced, sized, ⟨sized.diagSize, sized.superSize, first, second, outside, coupling⟩, ⟨?_, ?_⟩, length,
    judged⟩
  · rw [tolerance]
    positivity
  · rw [tolerance]
    linarith

private theorem evenBlock_run (positive : 0 < c) (above : 1.5e-34 < c ^ 2) :
    ∃ r st, Run {} .refuse (flatBlock c c) r st := by
  obtain ⟨r, p, reduced, -, even, ⟨nonneg, small⟩, -⟩ := evenBlock_reduction positive above
  obtain ⟨st, -, -, -, -, settled⟩ := even.settle positive (visible_of_above positive above) nonneg small 99
  exact ⟨r, st, reduced, settled, Array.all_eq_true.mpr fun _ _ => rfl⟩

theorem evenBlock_attempt (positive : 0 < c) (above : 1.5e-34 < c ^ 2) :
    ∃ result, attempt {} .refuse (flatBlock c c) = .ok result := by
  obtain ⟨r, st, run⟩ := evenBlock_run positive above
  exact ⟨_, Run.attempt_eq (tallForm_flatBlock c c ▸ run)⟩

/-- The pivots are as large as the entries, but for the last one, which is not kept. -/
theorem evenBlock_clear (positive : 0 < c) (above : 1.5e-34 < c ^ 2) :
    ∀ judgement ∈ Reduction.judgements (normFloor {} .refuse (tallForm (flatBlock c c))) (tallForm (flatBlock c c))
        (tallForm (flatBlock c c)).cols,
      (normFloor {} .refuse (tallForm (flatBlock c c))).judge judgement.normSq = .keep → ¬judgement.Faint := by
  have visible := visible_of_above positive above
  have direct {normSq : ℝ} {pivot : Cplx ℝ} (length : ‖pivot.toComplex‖ = c) :
      ¬(⟨normSq, pivot⟩ : Judgement ℝ).Faint := by
    rintro ⟨-, faint⟩
    rw [Cplx.modulus_exact, length] at faint
    exact absurd visible (not_lt.mpr faint)
  obtain ⟨r, p, -, -, -, -, length, judged⟩ := evenBlock_reduction positive above
  rw [tallForm_flatBlock]
  have cols : (flatBlock c c).cols = 2 := rfl
  rw [cols, judged]
  have corner : ‖(⟨c, 0⟩ : Cplx ℝ).toComplex‖ = c := by
    have real : (⟨c, 0⟩ : Cplx ℝ).toComplex = c := rfl
    rw [real, Complex.norm_real, Real.norm_of_nonneg positive.le]
  simp only [List.forall_mem_cons]
  refine ⟨fun _ => direct corner, fun _ => direct length, fun kept => ?_, fun _ absent => absurd absent List.not_mem_nil⟩
  rw [judge_zero (by norm_num)] at kept
  cases kept

end EvenBlock

/-- Both factors of a successful attempt are unitary, whatever was floored, neglected or
degenerate on the way, and however small the pivots were. -/
theorem attempt_unitary {result : Decomposition ℝ} (floor : 0 ≤ policy.normFloor)
    (eta : 0 ≤ policy.convergenceEta) (done : attempt policy rule A = .ok result) :
    result.left.Unitary A.rows ∧ result.right.Unitary A.cols := by
  obtain ⟨r, st, run, rfl⟩ := attempt_run done
  obtain ⟨left, right⟩ := assemble_unitary run (shape_tallForm A) min_le_max floor eta
  exact factors_oriented (P := fun n U => U.Unitary n) left right

theorem attempt_unitary_evenBlock :
    0 ≤ ({} : Policy ℝ).normFloor ∧ 0 ≤ ({} : Policy ℝ).convergenceEta ∧
      ∃ result, attempt {} .refuse (flatBlock 1 1) = .ok result ∧ result.left.Unitary 2 ∧ result.right.Unitary 2 := by
  have floor : (0 : ℝ) ≤ 1.5e-34 := by norm_num
  have eta : (0 : ℝ) ≤ 1e-10 := by norm_num
  obtain ⟨result, done⟩ := evenBlock_attempt one_pos (by norm_num)
  exact ⟨floor, eta, result, done, attempt_unitary floor eta done⟩

/-- The product of a successful attempt is off its input by no more than the floored norms, three
times the tolerance of the iteration for each coupling, and twice the sign tolerance for each
degenerate rotation. -/
theorem attempt_distance_le {result : Decomposition ℝ} (enough : Tolerance.zero ^ 2 ≤ policy.normFloor)
    (eta : 0 ≤ policy.convergenceEta) (done : attempt policy rule A = .ok result)
    (clear : ∀ judgement ∈ Reduction.judgements (normFloor policy rule (tallForm A)) (tallForm A) (tallForm A).cols,
      (normFloor policy rule (tallForm A)).judge judgement.normSq = .keep → ¬judgement.Faint) :
    ∃ r st, Run policy rule (tallForm A) r st ∧ result.rebuild.shape = A.shape ∧
      A.distance result.rebuild ≤
        √(2 * min A.rows A.cols - 1 : ℕ) * √(flushBound policy rule (tallForm A)) +
          3 * (min A.rows A.cols - 1 : ℕ) * negligible policy r + 2 * Tolerance.sign * st.degenerate := by
  obtain ⟨r, st, run, rfl⟩ := attempt_run done
  have extents := shape_tallForm A
  have cols : (tallForm A).cols = min A.rows A.cols := DenseMatrix.cols_of_shape extents
  rw [cols] at clear
  obtain ⟨left, right⟩ := assemble_unitary run extents min_le_max ((sq_nonneg _).trans enough) eta
  obtain ⟨shape, distance⟩ := distance_oriented A left.shape right.shape
  refine ⟨r, st, run, shape, distance.trans_le ?_⟩
  exact norm_sub_product_le run extents min_le_max enough eta clear

theorem attempt_distance_le_evenBlock :
    ∃ result r st, attempt {} .refuse (flatBlock 1 1) = .ok result ∧
      Run {} .refuse (flatBlock 1 1) r st ∧ result.rebuild.shape = (2, 2) ∧
      (flatBlock 1 1).distance result.rebuild ≤
        √(3 : ℕ) * √(flushBound {} .refuse (flatBlock 1 1)) + 3 * (1 : ℕ) * negligible {} r +
          2 * Tolerance.sign * st.degenerate := by
  have enough : (Tolerance.zero : ℝ) ^ 2 ≤ 1.5e-34 := by
    unfold Tolerance.zero
    norm_num
  have eta : (0 : ℝ) ≤ 1e-10 := by norm_num
  have above : (1.5e-34 : ℝ) < 1 ^ 2 := by norm_num
  obtain ⟨result, done⟩ := evenBlock_attempt one_pos above
  obtain ⟨r, st, run, shape, near⟩ := attempt_distance_le enough eta done (evenBlock_clear one_pos above)
  rw [tallForm_flatBlock] at run near
  exact ⟨result, r, st, done, run, shape, near⟩

end Reference
end BondSvd
