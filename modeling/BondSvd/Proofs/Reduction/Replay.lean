import Mathlib
import BondSvd.Proofs.Exact.Scaling
import BondSvd.Proofs.Reduction.Residue

/-! A reduction and its replay undo each other. The replayed reflectors around the bidiagonal matrix
give the input back up to the norms that were floored, whose squares are exactly what is missing; and
what is floored is lost to the bidiagonal matrix, so that its norm never exceeds that of the input. -/
namespace BondSvd
universe u
open scoped Matrix Matrix.Norms.Frobenius

namespace Reduction
section Definitions
variable {α : Type u} [Scalar α]

/-- The bidiagonal matrix of a reduction, in the shape of the input. -/
def form (r : Reduction α) : DenseMatrix α :=
  .ofFn r.reflectors.rows r.reflectors.cols fun i j =>
    if i = j then .ofScalar (r.diag.getD j 0)
    else if i + 1 = j then .ofScalar (r.superDiag.getD j 0) else 0

/-- The replayed reflectors around the bidiagonal matrix. -/
def replay (r : Reduction α) : DenseMatrix α :=
  ((r.accumulateLeft (.identity r.reflectors.rows)).mul r.form).mul
    (r.accumulateRight (.identity r.reflectors.cols)).adjoint

end Definitions

variable {rule : NormFloor ℝ} {A : DenseMatrix ℝ} {r r' : Reduction ℝ} {m n k top first : ℕ}

theorem form_shape (sized : r.Sized m n) : r.form.shape = (m, n) := Prod.ext sized.rows sized.cols

private theorem toMatrix_form (sized : r.Sized m n) : r.form.toMatrix m n = r.workMatrix m n n n := by
  ext i j
  have entry : r.form.entry i j = if (i : ℕ) = j then .ofScalar (r.diag.getD j 0)
      else if (i : ℕ) + 1 = j then .ofScalar (r.superDiag.getD j 0) else 0 :=
    DenseMatrix.entry_ofFn _ (sized.rows.symm ▸ i.isLt) (sized.cols.symm ▸ j.isLt)
  rw [DenseMatrix.toMatrix_apply, workMatrix, Matrix.of_apply, work_border (by omega), entry]
  split_ifs <;> rfl

private theorem toMatrix_replay (sized : r.Sized m n) :
    r.replay.shape = (m, n) ∧
      r.replay.toMatrix m n =
        productBelow (r.leftFactor m) n * r.workMatrix m n n n * (productBelow (r.rightFactor n) n)ᴴ := by
  have square (size : ℕ) : (DenseMatrix.identity size : DenseMatrix ℝ).shape = (size, size) := rfl
  obtain ⟨leftShape, left⟩ := toMatrix_accumulateLeft sized (square m)
  obtain ⟨rightShape, right⟩ := toMatrix_accumulateRight sized (square n)
  rw [DenseMatrix.toMatrix_identity, Matrix.mul_one] at left right
  have adjoint := DenseMatrix.shape_adjoint rightShape
  have half := DenseMatrix.shape_mul leftShape (form_shape sized)
  rw [replay, sized.rows, sized.cols]
  refine ⟨DenseMatrix.shape_mul half adjoint, ?_⟩
  rw [DenseMatrix.toMatrix_mul half adjoint, DenseMatrix.toMatrix_mul leftShape (form_shape sized),
    DenseMatrix.toMatrix_adjoint rightShape, left, right, toMatrix_form sized]

section Energy

/-- Taking the direction of a pivot for the pivot itself does not change its modulus. -/
theorem norm_sub_pivotSkew {row col : ℕ} (low : top ≤ row) (right : first ≤ col) :
    ‖r.workMatrix m n top first - r.pivotSkew m n row col‖ = ‖r.workMatrix m n top first‖ := by
  refine (sq_eq_sq₀ (norm_nonneg _) (norm_nonneg _)).mp ?_
  rw [frobenius_sq, frobenius_sq]
  refine Finset.sum_congr rfl fun i _ => Finset.sum_congr rfl fun j _ => ?_
  by_cases corner : (i : ℕ) = row ∧ (j : ℕ) = col
  · obtain ⟨rfl, rfl⟩ := corner
    rw [Matrix.sub_apply, workMatrix, Matrix.of_apply, work_inside low right, pivotSkew, Matrix.of_apply,
      if_pos ⟨rfl, rfl⟩, Cplx.sub_skew, norm_mul, norm_phase, one_mul, Complex.norm_real, norm_norm]
  · rw [workMatrix_sub_pivotSkew i j corner]
    rfl

/-- What a column part takes from the square of the norm is what it floors. -/
theorem columnPart_norm_sq (enough : Tolerance.zero ^ 2 ≤ rule.floor) (sized : r.Sized m n) (tall : n ≤ m)
    (inside : k < n) (pending : r.diag.getD k 0 = 0) (done : r.columnPart rule k = some r') :
    ‖r.workMatrix m n k k‖ ^ 2 =
      ‖r'.workMatrix m n k (k + 1)‖ ^ 2 +
        (floored rule [⟨r.columnTailNormSq k, r.reflectors.entry k k⟩]).sum := by
  have row : k < m := inside.trans_le tall
  obtain ⟨verdict, rfl⟩ | ⟨verdict, -, kept⟩ := columnPart_cases sized tall inside done
  · rw [floored_flushed verdict, List.sum_singleton, workMatrix_columnTail pending, frobenius_add_sq,
      norm_columnTail_sq sized inside]
    intro i j
    by_cases here : k ≤ (i : ℕ) ∧ (j : ℕ) = k
    · refine .inl ?_
      rw [workMatrix, Matrix.of_apply, work_border (by omega), here.2, pending, if_neg (by omega : ¬(i : ℕ) + 1 = k),
        ite_self, Complex.ofReal_zero]
    · exact .inr (if_neg here)
  · obtain ⟨positive, large⟩ := lt_sqrt_of_keep enough verdict
    have length : Tolerance.zero < r'.diag.getD k 0 := kept.length ▸ large
    have unitary := columnPart_factor_unitary ((sq_nonneg _).trans enough) sized tall inside pending done
    rw [floored_kept verdict, List.sum_nil, add_zero, ← kept.image sized row positive length,
      frobenius_unitary_mul (conjTranspose_mem_unitary unitary), norm_sub_pivotSkew le_rfl le_rfl]

private theorem rowPart_norm_sq (enough : Tolerance.zero ^ 2 ≤ rule.floor) (sized : r.Sized m n) (tall : n ≤ m)
    (inside : k + 1 < n) (pending : r.superDiag.getD (k + 1) 0 = 0) (done : r.rowPart rule k = some r') :
    ‖r.workMatrix m n k (k + 1)‖ ^ 2 =
      ‖r'.workMatrix m n (k + 1) (k + 1)‖ ^ 2 +
        (floored rule [⟨r.rowTailNormSq k, r.reflectors.entry k (k + 1)⟩]).sum := by
  have row : k < m := (Nat.lt_of_succ_lt inside).trans_le tall
  obtain ⟨verdict, rfl⟩ | ⟨verdict, -, kept⟩ := rowPart_cases sized tall inside done
  · rw [floored_flushed verdict, List.sum_singleton, workMatrix_rowTail pending, frobenius_add_sq,
      norm_rowTail_sq sized row]
    intro i j
    by_cases here : (i : ℕ) = k ∧ k + 1 ≤ (j : ℕ)
    · refine .inl ?_
      rw [workMatrix, Matrix.of_apply, work_border (by omega), if_neg (by omega)]
      split
      · next same => rw [← same, here.1, pending, Complex.ofReal_zero]
      · rw [Complex.ofReal_zero]
    · exact .inr (if_neg here)
  · obtain ⟨positive, large⟩ := lt_sqrt_of_keep enough verdict
    have length : Tolerance.zero < r'.superDiag.getD (k + 1) 0 := kept.length ▸ large
    have unitary := rowPart_factor_unitary ((sq_nonneg _).trans enough) sized tall inside pending done
    rw [floored_kept verdict, List.sum_nil, add_zero, ← kept.image sized inside positive length,
      frobenius_mul_unitary unitary, norm_sub_pivotSkew le_rfl le_rfl]

/-- However many norms were floored and however small the pivots were, the squares of the working
matrix and of what was floored sum up to the square of the input. -/
theorem upTo_norm_sq (enough : Tolerance.zero ^ 2 ≤ rule.floor) (shape : A.shape = (m, n)) (tall : n ≤ m)
    (inside : k ≤ n) (done : upTo rule A k = some r) :
    ‖A.toMatrix m n‖ ^ 2 = ‖r.workMatrix m n k k‖ ^ 2 + (floored rule (judgements rule A k)).sum := by
  induction k generalizing r with
  | zero =>
    cases done
    have whole : (start A).workMatrix m n 0 0 = A.toMatrix m n := by
      ext i j
      rw [workMatrix, Matrix.of_apply, work_inside (Nat.zero_le _) (Nat.zero_le _)]
      rfl
    rw [whole]
    exact (add_zero _).symm
  | succ k ih =>
    obtain ⟨before, reached, stepped⟩ := Option.bind_eq_some_iff.mp done
    obtain ⟨middle, columns, part⟩ := step_parts stepped
    have sized := upTo_sized shape tall (Nat.le_of_lt inside) reached
    have sized' := columnPart_sized sized tall inside columns
    obtain ⟨diag, superDiag⟩ := upTo_pending shape tall (Nat.le_of_lt inside) reached
    have half := columnPart_norm_sq enough sized tall inside (diag k le_rfl) columns
    rw [judgements_succ reached, stepJudgements_of_columnPart columns, ← List.singleton_append, floored_append,
      floored_append, List.sum_append, List.sum_append, ih (Nat.le_of_lt inside) reached, half]
    obtain ⟨more, rows⟩ | ⟨last, rfl⟩ := part
    · have inside' : k + 1 < n := sized'.cols ▸ more
      have pending : middle.superDiag.getD (k + 1) 0 = 0 := by
        rw [columnPart_superDiag sized tall inside columns, superDiag (k + 1) (Nat.lt_succ_self k)]
      have judged : middle.rowJudgements k = [⟨middle.rowTailNormSq k, middle.reflectors.entry k (k + 1)⟩] :=
        if_pos more
      rw [judged, rowPart_norm_sq enough sized' tall inside' pending rows]
      ring
    · have judged : r.rowJudgements k = [] := if_neg last
      have final : n ≤ k + 1 := not_lt.mp (sized'.cols ▸ last)
      have empty : (floored rule ([] : List (Judgement ℝ))).sum = 0 := rfl
      rw [judged, empty, workMatrix_last final]
      ring

end Energy

private theorem le_of_floored {judged : List (Judgement ℝ)} {normSq : ℝ} (member : normSq ∈ floored rule judged) :
    normSq ≤ rule.floor ∧ ∀ limit, rule.limit = some limit → normSq ≤ limit := by
  obtain ⟨judgement, flushed, rfl⟩ := List.mem_map.mp member
  have verdict : rule.judge judgement.normSq = .flush := by simpa using (List.mem_filter.mp flushed).2
  unfold NormFloor.judge at verdict
  split at verdict
  · cases verdict
  · next small =>
    refine ⟨not_lt.mp small, fun limit bounded => ?_⟩
    rw [bounded] at verdict
    dsimp only at verdict
    split at verdict
    · cases verdict
    · next light => exact not_lt.mp light

private theorem nonneg_of_judged {judgement : Judgement ℝ} (member : judgement ∈ judgements rule A k) :
    0 ≤ judgement.normSq := by
  induction k with
  | zero => cases member
  | succ k ih =>
    rw [judgements] at member
    split at member
    · exact ih (by simpa using member)
    · next before _ =>
      obtain earlier | here := List.mem_append.mp member
      · exact ih earlier
      · rw [stepJudgements] at here
        obtain rfl | row := List.mem_cons.mp here
        · exact (tailNormSq_nonneg before k).1
        · split at row
          · cases row
          · next middle _ =>
            rw [rowJudgements] at row
            split at row
            · obtain rfl := List.mem_singleton.mp row
              exact (tailNormSq_nonneg middle k).2
            · cases row

/-- What is floored lies at or below the floor and is lost to the bidiagonal matrix, whose norm is at most
that of the input. Unless a pivot was too faint to be turned right, replaying the reduction around that
matrix gives the input back up to just what was floored, and so exactly where only zeros were. -/
theorem replay_accounted (enough : Tolerance.zero ^ 2 ≤ rule.floor) (tall : A.cols ≤ A.rows)
    (done : A.bidiagonalize rule = some r) :
    r.replay.shape = A.shape ∧
      (∀ normSq ∈ floored rule (judgements rule A A.cols),
        normSq ≤ rule.floor ∧ ∀ limit, rule.limit = some limit → normSq ≤ limit) ∧
      r.form.norm ^ 2 + (floored rule (judgements rule A A.cols)).sum = A.norm ^ 2 ∧ r.form.norm ≤ A.norm ∧
      ((∀ judgement ∈ judgements rule A A.cols, rule.judge judgement.normSq = .keep → ¬judgement.Faint) →
        A.squaredDistance r.replay = (floored rule (judgements rule A A.cols)).sum ∧
          ((∀ normSq ∈ floored rule (judgements rule A A.cols), normSq = 0) → r.replay = A)) := by
  have shape : A.shape = (A.rows, A.cols) := rfl
  have floor : 0 ≤ rule.floor := (sq_nonneg _).trans enough
  have sized := upTo_sized shape tall le_rfl done
  obtain ⟨replayed, product⟩ := toMatrix_replay sized
  have energy : r.form.norm ^ 2 + (floored rule (judgements rule A A.cols)).sum = A.norm ^ 2 := by
    rw [DenseMatrix.norm_exact (form_shape sized), DenseMatrix.norm_exact shape, toMatrix_form sized,
      upTo_norm_sq enough shape tall le_rfl done]
  have smaller : r.form.norm ≤ A.norm := by
    have lost : 0 ≤ (floored rule (judgements rule A A.cols)).sum :=
      List.sum_nonneg fun normSq member => by
        obtain ⟨judgement, flushed, rfl⟩ := List.mem_map.mp member
        exact nonneg_of_judged (List.mem_filter.mp flushed).1
    refine le_of_sq_le_sq ?_ (Real.sqrt_nonneg _)
    linarith
  refine ⟨replayed, fun normSq member => le_of_floored member, energy, smaller, fun clear => ?_⟩
  have missing : A.squaredDistance r.replay = (floored rule (judgements rule A A.cols)).sum := by
    obtain ⟨lefts, rights⟩ := factors_unitary floor shape tall le_rfl done
    obtain ⟨E, factors, -, norm⟩ := upTo_factorsTo enough shape tall le_rfl done
    have rest : A.toMatrix A.rows A.cols - r.replay.toMatrix A.rows A.cols =
        productBelow (r.leftFactor A.rows) A.cols * E * (productBelow (r.rightFactor A.cols) A.cols)ᴴ := by
      rw [factors, product, Matrix.mul_add, Matrix.add_mul, add_sub_cancel_left]
    rw [DenseMatrix.squaredDistance_exact shape, rest,
      frobenius_mul_unitary (conjTranspose_mem_unitary (productBelow_mem_unitary rights)),
      frobenius_unitary_mul (productBelow_mem_unitary lefts), norm, sum_loss_of_clear clear]
  refine ⟨missing, fun vanish => ?_⟩
  rw [List.sum_eq_zero vanish, DenseMatrix.squaredDistance_exact shape] at missing
  have same := sub_eq_zero.mp (norm_eq_zero.mp (pow_eq_zero_iff two_ne_zero |>.mp missing))
  exact DenseMatrix.toMatrix_inj replayed shape same.symm

/-- A column to be reflected, beside one that is next to nothing. -/
noncomputable def faintBeside : DenseMatrix ℝ :=
  .ofFn 2 2 fun i j => if j = 0 then if i = 0 then ⟨3.0, 0⟩ else ⟨0, 4.0⟩ else if i = 0 then ⟨0, 0⟩ else ⟨1e-20, 0⟩

theorem faintBeside_entry : faintBeside.entry 0 0 = ⟨3.0, 0⟩ ∧ faintBeside.entry 1 0 = ⟨0, 4.0⟩ ∧
    faintBeside.entry 0 1 = ⟨0, 0⟩ ∧ faintBeside.entry 1 1 = ⟨1e-20, 0⟩ := by
  refine ⟨?_, ?_, ?_, ?_⟩ <;> rw [faintBeside, DenseMatrix.entry_ofFn _ (by decide) (by decide)] <;> rfl

theorem faintBeside_column : (start faintBeside).columnTailNormSq 0 = 25 := by
  obtain ⟨first, second, -, -⟩ := faintBeside_entry
  have sum : (start faintBeside).columnTailNormSq 0 =
      0 + (faintBeside.entry 0 0).normSq + (faintBeside.entry 1 0).normSq := rfl
  rw [sum, first, second, Cplx.normSq, Cplx.normSq]
  norm_num

/-- The first reflection leaves next to nothing beside the pivot and below it. -/
theorem faintBeside_columnPart :
    ∃ r, (start faintBeside).columnPart ⟨1.5e-34, none⟩ 0 = some r ∧ r.Sized 2 2 ∧
      r.rowTailNormSq 0 ≤ 1e-40 ∧ r.columnTailNormSq 1 ≤ 1e-40 := by
  have sized : (start faintBeside).Sized 2 2 := start_sized rfl
  have enough : (Tolerance.zero : ℝ) ^ 2 ≤ 1.5e-34 := by
    unfold Tolerance.zero
    norm_num
  have verdict : NormFloor.judge ⟨1.5e-34, none⟩ ((start faintBeside).columnTailNormSq 0) = .keep := by
    rw [NormFloor.judge_eq_keep_iff, faintBeside_column]
    norm_num
  obtain ⟨r, part, sized', kept⟩ := columnPart_of_keep sized le_rfl Nat.two_pos verdict
  have energy := columnPart_norm_sq enough sized le_rfl Nat.two_pos (start_getD faintBeside 0).1 part
  rw [floored_kept verdict, List.sum_nil, add_zero] at energy
  have whole : ‖(start faintBeside).workMatrix 2 2 0 0‖ ^ 2 = 25 + 1e-40 := by
    obtain ⟨first, second, third, fourth⟩ := faintBeside_entry
    have entry (i j : Fin 2) : (start faintBeside).workMatrix 2 2 0 0 i j = (faintBeside.entry i j).toComplex := by
      rw [workMatrix, Matrix.of_apply, work_inside (Nat.zero_le _) (Nat.zero_le _)]
      rfl
    simp only [frobenius_sq, Fin.sum_univ_two, entry, Fin.val_zero, Fin.val_one, first, second, third, fourth,
      ← Cplx.normSq_exact, Cplx.normSq]
    norm_num
  have parts : ‖r.workMatrix 2 2 0 1‖ ^ 2 = 25 + r.rowTailNormSq 0 + r.columnTailNormSq 1 := by
    have corner : ‖r.workMatrix 2 2 0 1 0 0‖ ^ 2 = 25 := by
      have length : r.work 0 1 0 0 = (r.diag.getD 0 0 : ℝ) := work_border (by decide)
      rw [workMatrix, Matrix.of_apply, Fin.val_zero, length, Complex.norm_real, Real.norm_eq_abs, sq_abs,
        kept.length, faintBeside_column, Real.sq_sqrt (by norm_num)]
    have below : r.workMatrix 2 2 0 1 1 0 = 0 := by
      have border : r.work 0 1 1 0 = ((0 : ℝ) : ℂ) := work_border (by decide)
      rw [workMatrix, Matrix.of_apply, Fin.val_zero, Fin.val_one, border, Complex.ofReal_zero]
    have beside (i : Fin 2) : r.workMatrix 2 2 0 1 i 1 = (r.reflectors.entry i 1).toComplex := by
      rw [workMatrix, Matrix.of_apply, Fin.val_one, work_inside (Nat.zero_le _) le_rfl]
    rw [frobenius_sq, rowTailNormSq_exact sized', columnTailNormSq_exact sized']
    simp only [Fin.sum_univ_two, corner, below, beside, rowVector, columnVector, norm_star, Fin.val_zero, Fin.val_one]
    norm_num
  have row := (tailNormSq_nonneg r 0).2
  have column := (tailNormSq_nonneg r 1).1
  exact ⟨r, part, sized', by linarith, by linarith⟩

/-- Of the norms that are judged the first one is kept, and the others are floored. -/
theorem faintBeside_bidiagonalize :
    ∃ r, faintBeside.bidiagonalize ⟨1.5e-34, none⟩ = some r ∧
      judgements ⟨1.5e-34, none⟩ faintBeside 2 = [⟨25, ⟨3.0, 0⟩⟩, ⟨r.rowTailNormSq 0, r.reflectors.entry 0 1⟩,
        ⟨r.columnTailNormSq 1, r.reflectors.entry 1 1⟩] ∧
      floored ⟨1.5e-34, none⟩ (judgements ⟨1.5e-34, none⟩ faintBeside 2) =
        [r.rowTailNormSq 0, r.columnTailNormSq 1] := by
  obtain ⟨r, part, sized, row, column⟩ := faintBeside_columnPart
  generalize unlimited : (⟨1.5e-34, none⟩ : NormFloor ℝ) = rule at part ⊢
  have flushed {normSq : ℝ} (small : normSq ≤ 1e-40) : rule.judge normSq = .flush := by
    rw [← unlimited, NormFloor.judge, if_neg (by norm_num; linarith)]
  have first : (start faintBeside).step rule 0 = some r := by
    rw [step, part, Option.bind_some, sized.cols, if_pos Nat.one_lt_two, rowPart, flushed row]
  have last : r.columnPart rule 1 = some r := by rw [columnPart, flushed column]
  have reached : upTo rule faintBeside 1 = some r := by rw [upTo_succ, upTo_zero, Option.bind_some, first]
  have judged : judgements rule faintBeside 2 = [⟨25, ⟨3.0, 0⟩⟩, ⟨r.rowTailNormSq 0, r.reflectors.entry 0 1⟩,
      ⟨r.columnTailNormSq 1, r.reflectors.entry 1 1⟩] := by
    rw [judgements_succ reached, judgements_succ (upTo_zero _ _), stepJudgements_of_columnPart part,
      stepJudgements_of_columnPart last, rowJudgements, rowJudgements, sized.cols, if_pos Nat.one_lt_two,
      if_neg (lt_irrefl 2), faintBeside_column, ← faintBeside_entry.1]
    rfl
  have kept : rule.judge 25 = .keep := by
    rw [NormFloor.judge_eq_keep_iff, ← unlimited]
    norm_num
  refine ⟨r, ?_, judged, ?_⟩
  · have cols : faintBeside.cols = 2 := rfl
    rw [DenseMatrix.bidiagonalize, cols, upTo_succ, reached, Option.bind_some, step, last, Option.bind_some, sized.cols,
      if_neg (lt_irrefl 2)]
  · rw [judged, floored]
    simp [kept, flushed row, flushed column]

theorem replay_accounted_faintBeside :
    (Tolerance.zero : ℝ) ^ 2 ≤ 1.5e-34 ∧ faintBeside.cols ≤ faintBeside.rows ∧
      ∃ r, faintBeside.bidiagonalize ⟨1.5e-34, none⟩ = some r ∧ r.replay.shape = (2, 2) ∧
        r.rowTailNormSq 0 ≤ 1.5e-34 ∧ r.form.norm ≤ faintBeside.norm ∧
        faintBeside.squaredDistance r.replay = r.rowTailNormSq 0 + r.columnTailNormSq 1 := by
  have enough : (Tolerance.zero : ℝ) ^ 2 ≤ 1.5e-34 := by
    unfold Tolerance.zero
    norm_num
  obtain ⟨r, done, judged, floored⟩ := faintBeside_bidiagonalize
  obtain ⟨shape, light, -, smaller, missing⟩ := replay_accounted enough le_rfl done
  have cols : faintBeside.cols = 2 := rfl
  rw [cols, floored] at light missing
  rw [judged] at missing
  have clear : ∀ judgement ∈ ([⟨25, ⟨3.0, 0⟩⟩, ⟨r.rowTailNormSq 0, r.reflectors.entry 0 1⟩,
      ⟨r.columnTailNormSq 1, r.reflectors.entry 1 1⟩] : List (Judgement ℝ)),
      NormFloor.judge ⟨1.5e-34, none⟩ judgement.normSq = .keep → ¬judgement.Faint := by
    intro judgement member kept faint
    rw [NormFloor.judge_eq_keep_iff] at kept
    obtain rfl | rfl | rfl : judgement = _ ∨ judgement = _ ∨ judgement = _ := by simpa using member
    · have modulus : Cplx.modulus (⟨3.0, 0⟩ : Cplx ℝ) = 3.0 := by
        rw [Cplx.modulus_exact]
        exact (Complex.norm_real 3.0).trans (by norm_num)
      have small := faint.2
      rw [modulus, Tolerance.zero] at small
      norm_num at small
    · exact absurd kept (not_lt.mpr (light _ (by simp)).1)
    · exact absurd kept (not_lt.mpr (light _ (by simp)).1)
  refine ⟨enough, le_rfl, r, done, shape, (light _ (by simp)).1, smaller, ?_⟩
  rw [(missing clear).1]
  simp

end Reduction
end BondSvd
