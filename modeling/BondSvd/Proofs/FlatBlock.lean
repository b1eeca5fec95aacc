import Mathlib
import BondSvd.Proofs.Exact.Scaling
import BondSvd.Proofs.Iteration.Convergence
import BondSvd.Proofs.Reduction.Residue

namespace BondSvd
variable {a b : ℝ}

/-- The entries `a` and `b` over an empty row. -/
noncomputable def flatBlock (a b : ℝ) : DenseMatrix ℝ :=
  .ofFn 2 2 fun i j => if i = 0 then if j = 0 then ⟨a, 0⟩ else ⟨b, 0⟩ else 0

theorem flatBlock_entry (a b : ℝ) : (flatBlock a b).entry 0 0 = ⟨a, 0⟩ ∧ (flatBlock a b).entry 0 1 = ⟨b, 0⟩ ∧
    (flatBlock a b).entry 1 0 = 0 ∧ (flatBlock a b).entry 1 1 = 0 := by
  refine ⟨?_, ?_, ?_, ?_⟩ <;> rw [flatBlock, DenseMatrix.entry_ofFn _ (by decide) (by decide)] <;> rfl

theorem flatBlock_columns (a b : ℝ) :
    (flatBlock a b).columnNormSq 0 = a ^ 2 ∧ (flatBlock a b).columnNormSq 1 = b ^ 2 := by
  obtain ⟨first, second, third, fourth⟩ := flatBlock_entry a b
  have sum (j : ℕ) : (flatBlock a b).columnNormSq j =
      0 + ((flatBlock a b).entry 0 j).normSq + ((flatBlock a b).entry 1 j).normSq := rfl
  rw [sum, sum, first, second, third, fourth, Cplx.normSq_zero, Cplx.normSq, Cplx.normSq]
  constructor <;> ring

theorem maxColumnNormSq_flatBlock (a b : ℝ) : (flatBlock a b).maxColumnNormSq = max (a ^ 2) (b ^ 2) := by
  obtain ⟨first, second⟩ := flatBlock_columns a b
  have both : (flatBlock a b).maxColumnNormSq =
      Scalar.larger (Scalar.larger 0 ((flatBlock a b).columnNormSq 0)) ((flatBlock a b).columnNormSq 1) := rfl
  rw [both, first, second, Scalar.larger_exact, Scalar.larger_exact, max_eq_right (sq_nonneg a)]

theorem norm_flatBlock (a b : ℝ) : (flatBlock a b).norm = √(a ^ 2 + b ^ 2) := by
  obtain ⟨first, second, third, fourth⟩ := flatBlock_entry a b
  have sum : (flatBlock a b).norm = √(0 + (0 + ((flatBlock a b).entry 0 0).normSq + ((flatBlock a b).entry 0 1).normSq) +
      (0 + ((flatBlock a b).entry 1 0).normSq + ((flatBlock a b).entry 1 1).normSq)) := rfl
  rw [sum, first, second, third, fourth, Cplx.normSq_zero, Cplx.normSq, Cplx.normSq]
  congr 1
  ring

theorem scale_flatBlock (a b c : ℝ) : (flatBlock a b).scale c = flatBlock (a * c) (b * c) := by
  refine DenseMatrix.ext rfl rfl fun i j row col => ?_
  replace row : i < 2 := row
  replace col : j < 2 := col
  have scaled : ((flatBlock a b).scale c).entry i j = ((flatBlock a b).entry i j).scale c :=
    DenseMatrix.entry_scale _ c row col
  rw [scaled, flatBlock, DenseMatrix.entry_ofFn _ row col, flatBlock, DenseMatrix.entry_ofFn _ row col]
  split
  · split <;> simp [Cplx.scale]
  · simp [Cplx.scale, Cplx.zero_re, Cplx.zero_im]
    rfl

namespace Reduction
variable {rule : NormFloor ℝ}

theorem bidiagonalize_flatBlock_of_refuse (refused : rule.judge (a ^ 2) = .refuse) :
    (flatBlock a b).bidiagonalize rule = none := by
  have norm : (start (flatBlock a b)).columnTailNormSq 0 = a ^ 2 := (flatBlock_columns a b).1
  have stopped : (start (flatBlock a b)).step rule 0 = none := by
    rw [step, columnPart, norm, refused]
    rfl
  have cols : (flatBlock a b).cols = 2 := rfl
  rw [DenseMatrix.bidiagonalize, cols, upTo_succ, upTo_succ, upTo_zero, Option.bind_some, stopped]
  rfl

/-- The first column is clear below its pivot, so reflecting it only turns the entry beside it. -/
private theorem columnPart_flatBlock (positive : 0 < a) (large : rule.floor < a ^ 2) (nonneg : 0 ≤ b) :
    ∃ r, (start (flatBlock a b)).columnPart rule 0 = some r ∧ r.Sized 2 2 ∧
      KeptColumn 0 (start (flatBlock a b)) r ∧ r.reflectors.entry 1 1 = 0 ∧
      ‖(r.reflectors.entry 0 1).toComplex‖ = b := by
  obtain ⟨-, beside, below, last⟩ := flatBlock_entry a b
  have sized : (start (flatBlock a b)).Sized 2 2 := start_sized rfl
  have norm : (start (flatBlock a b)).columnTailNormSq 0 = a ^ 2 := (flatBlock_columns a b).1
  have visible : 0 < (start (flatBlock a b)).columnTailNormSq 0 := norm ▸ pow_pos positive 2
  have clear (i : ℕ) (under : 0 < i) : (start (flatBlock a b)).reflectors.entry i 0 = 0 := by
    by_cases row : i < 2
    · obtain rfl : i = 1 := by omega
      exact below
    · exact DenseMatrix.entry_outside fun inside => row inside.1
  obtain ⟨r, part, sized', kept⟩ := columnPart_of_keep sized le_rfl Nat.two_pos
    ((rule.judge_eq_keep_iff _).mpr (norm ▸ large))
  refine ⟨r, part, sized', kept, ?_, ?_⟩
  · exact (kept.entry_of_clear sized Nat.one_pos Nat.one_pos Nat.one_lt_two Nat.one_lt_two visible below).trans last
  · have start : (start (flatBlock a b)).reflectors.entry 0 1 = ⟨b, 0⟩ := beside
    have real : (⟨b, 0⟩ : Cplx ℝ).toComplex = b := rfl
    rw [kept.norm_entry_of_clear sized Nat.two_pos Nat.one_pos Nat.one_lt_two visible clear, start, real,
      Complex.norm_real, Real.norm_of_nonneg nonneg]

/-- A row with nothing under it is reflected without touching what is below, so the last column has vanished. -/
private theorem rowPart_of_empty {r : Reduction ℝ} (sized : r.Sized 2 2) (corner : r.reflectors.entry 1 1 = 0)
    (length : ‖(r.reflectors.entry 0 1).toComplex‖ = b) (positive : 0 < b) (coupled : rule.floor < b ^ 2) :
    r.rowTailNormSq 0 = b ^ 2 ∧ ∃ r', r.rowPart rule 0 = some r' ∧ r'.Sized 2 2 ∧ KeptRow 0 r r' ∧
      r'.reflectors.entry 1 1 = 0 ∧ r'.columnTailNormSq 1 = 0 := by
  have norm : r.rowTailNormSq 0 = b ^ 2 := by
    rw [rowTailNormSq_exact sized, Fin.sum_univ_two, Fin.val_zero, Fin.val_one, if_neg (by decide), if_pos le_rfl,
      zero_add, rowVector, norm_star, length]
  have empty (l : ℕ) (right : 0 < l) : r.reflectors.entry 1 l = 0 := by
    by_cases col : l < 2
    · obtain rfl : l = 1 := by omega
      exact corner
    · exact DenseMatrix.entry_outside fun inside => col (sized.cols ▸ inside.2)
  obtain ⟨r', part, sized', kept⟩ := rowPart_of_keep sized le_rfl Nat.one_lt_two
    ((rule.judge_eq_keep_iff _).mpr (norm ▸ coupled))
  have corner' : r'.reflectors.entry 1 1 = 0 :=
    kept.entry_of_empty sized Nat.one_pos Nat.one_pos Nat.one_lt_two Nat.one_lt_two (norm ▸ pow_pos positive 2) empty
  refine ⟨norm, r', part, sized', kept, corner', ?_⟩
  rw [columnTailNormSq_exact sized', Fin.sum_univ_two, Fin.val_zero, Fin.val_one, if_neg (by decide), if_pos le_rfl,
    zero_add, columnVector, corner', Cplx.toComplex_zero, norm_zero, zero_pow two_ne_zero]

/-- The diagonal holds the first entry, and the coupling is the second one. -/
theorem bidiagonalize_flatBlock (positive : 0 < a) (large : rule.floor < a ^ 2) (positive' : 0 < b)
    (coupled : rule.floor < b ^ 2) (nothing : rule.judge 0 = .flush) :
    ∃ r p, (flatBlock a b).bidiagonalize rule = some r ∧ r.Sized 2 2 ∧
      (r.diag.getD 0 0 = a ∧ r.diag.getD 1 0 = 0) ∧ (r.superDiag.getD 0 0 = 0 ∧ r.superDiag.getD 1 0 = b) ∧
      ‖p.toComplex‖ = b ∧ judgements rule (flatBlock a b) 2 = [⟨a ^ 2, ⟨a, 0⟩⟩, ⟨b ^ 2, p⟩, ⟨0, 0⟩] := by
  obtain ⟨pendingDiag, -⟩ := start_getD (flatBlock a b) 1
  obtain ⟨-, pendingSuper⟩ := start_getD (flatBlock a b) 0
  have columnNorm : (start (flatBlock a b)).columnTailNormSq 0 = a ^ 2 := (flatBlock_columns a b).1
  obtain ⟨r₁, column, sized₁, kept₁, corner₁, length⟩ := columnPart_flatBlock positive large positive'.le
  obtain ⟨rowNorm, r₂, row, sized₂, kept₂, corner₂, vanished⟩ := rowPart_of_empty sized₁ corner₁ length positive' coupled
  have flushed : r₂.columnPart rule 1 = some r₂ := by
    rw [columnPart, vanished, nothing]
  have first : upTo rule (flatBlock a b) 1 = some r₂ := by
    rw [upTo_succ, upTo_zero, Option.bind_some, step, column, Option.bind_some, sized₁.cols, if_pos Nat.one_lt_two, row]
  have second : r₂.step rule 1 = some r₂ := by
    rw [step, flushed, Option.bind_some, sized₂.cols, if_neg (by decide)]
  refine ⟨r₂, r₁.reflectors.entry 0 1, ?_, sized₂, ⟨?_, ?_⟩, ⟨?_, ?_⟩, length, ?_⟩
  · have cols : (flatBlock a b).cols = 2 := rfl
    rw [DenseMatrix.bidiagonalize, cols, upTo_succ, first, Option.bind_some, second]
  · rw [kept₂.diag, kept₁.diag, if_pos rfl, columnNorm, Scalar.sqrt_exact, Real.sqrt_sq positive.le]
  · rw [kept₂.diag, kept₁.diag, if_neg zero_ne_one, pendingDiag]
  · rw [kept₂.superDiag, if_neg (by decide), kept₁.superDiag, pendingSuper]
  · rw [kept₂.superDiag, if_pos rfl, rowNorm, Scalar.sqrt_exact, Real.sqrt_sq positive'.le]
  · have pivot : (start (flatBlock a b)).reflectors.entry 0 0 = ⟨a, 0⟩ := (flatBlock_entry a b).1
    rw [judgements_succ first, judgements_succ (upTo_zero rule _), judgements, stepJudgements_of_columnPart column,
      stepJudgements_of_columnPart flushed, rowJudgements, rowJudgements, sized₁.cols, sized₂.cols,
      if_pos Nat.one_lt_two, if_neg (by decide), columnNorm, pivot, rowNorm, vanished, corner₂]
    rfl

end Reduction

namespace Iteration
variable {st : Iteration ℝ} {tolerance c : ℝ}

/-- A value and a coupling of the same size before a second value that vanishes. -/
structure Even (st : Iteration ℝ) (c : ℝ) : Prop where
  diagSize : st.diag.size = 2
  superSize : st.superDiag.size = 2
  first : st.d 0 = c
  second : st.d 1 = 0
  outside : st.e 0 = 0
  coupling : st.e 1 = c

theorem Even.split (even : st.Even c) (small : tolerance < c) : st.split tolerance 1 = ⟨0, false⟩ := by
  have positive : tolerance < |c| := small.trans_le (le_abs_self c)
  rw [Iteration.split, even.coupling, Scalar.abs_exact, if_neg (not_le.mpr positive), even.first, Scalar.abs_exact,
    if_neg (not_le.mpr positive), Iteration.split]

/-- The shift is the value itself. -/
theorem Even.shift (even : st.Even c) (positive : 0 < c) : st.shift 0 1 = c := by
  have length : (Scalar.hypot 0 1 : ℝ) = 1 := by simp [Scalar.hypot]
  have ratio : ((c - 0) * (c + 0) + (0 - c) * (0 + c)) / (2.0 * c * c) = 0 := by
    rw [sub_zero, add_zero, zero_sub, zero_add, neg_mul, add_neg_cancel, zero_div]
  have sign : ¬(0 : ℝ) < -Tolerance.sign := not_lt.mpr (neg_nonpos.mpr Tolerance.sign_pos.le)
  unfold Iteration.shift
  rw [Nat.sub_self, even.first, even.second, even.outside, even.coupling]
  dsimp only
  rw [ratio, length, if_neg sign]
  field_simp
  ring

section Rotation
variable (positive : 0 < c)
include positive

/-- The first rotation is by half a right angle, so that the second one has nothing left to turn. -/
theorem even_rotation : 0 < Scalar.hypot c c ∧ c ≤ Scalar.hypot c c ∧
    c * (c / Scalar.hypot c c) + c * (c / Scalar.hypot c c) = Scalar.hypot c c := by
  have length := Scalar.hypot_mul_self c c
  have some := Scalar.hypot_pos positive.ne' c
  refine ⟨some, ?_, ?_⟩
  · nlinarith
  · field_simp
    linarith

theorem hypot_zero_left : Scalar.hypot 0 (Scalar.hypot c c) = Scalar.hypot c c := by
  have some := Scalar.hypot_pos positive.ne' c
  have length : Scalar.hypot 0 (Scalar.hypot c c) = √(0 * 0 + Scalar.hypot c c * Scalar.hypot c c) := rfl
  rw [length, zero_mul, zero_add, Real.sqrt_mul_self some.le]

/-- The step leaves nothing to be carried on. -/
theorem Even.chaseStep (even : st.Even c) (visible : Tolerance.zero < c) :
    Iteration.chaseStep 1 ⟨c, c, 1, 1⟩ st =
      .ok (⟨0, 0, 1, 0⟩, (((st.setE 0 (Scalar.hypot c c)).rotateRight 0 1 (c / Scalar.hypot c c)
        (c / Scalar.hypot c c)).setD 0 (Scalar.hypot c c)).rotateLeft 0 1 1 0) := by
  obtain ⟨some, above, turned⟩ := even_rotation positive
  have long : ¬Scalar.hypot c c ≤ Tolerance.zero := not_le.mpr (visible.trans_le above)
  have large : ¬Scalar.abs (Scalar.hypot c c) ≤ Tolerance.zero := by
    rwa [Scalar.abs_exact, abs_of_pos some]
  have sound (h x cos g sin : ℝ) : isDegenerate (Scalar.hypot c c) h x cos g sin = false := by
    rw [isDegenerate, decide_eq_false large, Bool.and_false, Bool.false_and]
  have closed : closeRotation (Scalar.hypot c c) 0 false = .ok (Scalar.hypot c c, 1, 0) := by
    rw [closeRotation, hypot_zero_left positive, if_neg Bool.false_ne_true, if_neg long, div_self some.ne', zero_div]
  unfold Iteration.chaseStep
  dsimp only
  rw [even.coupling, even.second]
  simp only [one_mul, mul_one, zero_mul, mul_zero, sub_self, add_zero, turned, sound, closed, if_neg long]
  rfl

/-- One sweep settles both values. -/
theorem Even.sweep (even : st.Even c) (visible : Tolerance.zero < c) :
    ∃ st', Iteration.sweep 0 1 st = .ok st' ∧ st'.diag.size = 2 ∧ st'.d 0 = Scalar.hypot c c ∧ st'.d 1 = 0 ∧
      st'.e 1 = 0 := by
  have chased := even.chaseStep positive visible
  generalize stepped : (((st.setE 0 (Scalar.hypot c c)).rotateRight 0 1 (c / Scalar.hypot c c)
    (c / Scalar.hypot c c)).setD 0 (Scalar.hypot c c)).rotateLeft 0 1 1 0 = st₁ at chased
  have diag : st₁.diag = st.diag.setIfInBounds 0 (Scalar.hypot c c) := by rw [← stepped]; rfl
  have superDiag : st₁.superDiag = st.superDiag.setIfInBounds 0 (Scalar.hypot c c) := by rw [← stepped]; rfl
  have size : st₁.diag.size = 2 := by rw [diag, Array.size_setIfInBounds, even.diagSize]
  have superSize : st₁.superDiag.size = 2 := by rw [superDiag, Array.size_setIfInBounds, even.superSize]
  have done : Iteration.sweep 0 1 st = .ok (((st₁.setE 0 0).setE 1 0).setD 1 0) := by
    rw [Iteration.sweep, even.shift positive, even.first, Nat.sub_zero, chase, chased]
    rfl
  refine ⟨_, done, ?_, ?_, ?_, ?_⟩
  · exact Array.size_setIfInBounds.trans size
  · rw [d_setD _ (by exact size.symm ▸ Nat.one_lt_two), if_neg (by decide), d_setE, d_setE, d, diag,
      getD_setIfInBounds _ (even.diagSize.symm ▸ Nat.two_pos), if_pos rfl]
  · rw [d_setD _ (by exact size.symm ▸ Nat.one_lt_two), if_pos rfl]
  · rw [e_setD, e_setE _ (by rw [setE, Array.size_setIfInBounds, superSize]; exact Nat.one_lt_two), if_pos rfl]

/-- So the last value is settled after one sweep, and the first one as it is. -/
theorem Even.settle (even : st.Even c) (visible : Tolerance.zero < c) (nonneg : 0 ≤ tolerance) (small : tolerance < c)
    (sweeps : ℕ) :
    ∃ st', Iteration.sweep 0 1 st = .ok st' ∧ st.isolate tolerance 1 = (0, st) ∧
      st'.isolate tolerance 1 = (1, st') ∧ st.settle tolerance 1 (sweeps + 1) = .ok st' ∧
      st.diagonalize tolerance (sweeps + 1) = .ok st' := by
  obtain ⟨st', swept, size, first, second, gone⟩ := even.sweep positive visible
  have isolated : st.isolate tolerance 1 = (0, st) := by
    rw [isolate, even.split small]
    rfl
  have alone : st'.split tolerance 1 = ⟨1, false⟩ := by
    rw [Iteration.split, gone, Scalar.abs_exact, abs_zero, if_pos nonneg]
  have untouched : st'.isolate tolerance 1 = (1, st') := by
    rw [isolate, alone]
    rfl
  have stays : st'.makeNonNegative 1 = st' := if_neg second.not_lt
  have stays' : st'.makeNonNegative 0 = st' := by
    refine if_neg (not_lt.mpr ?_)
    rw [first]
    exact Real.sqrt_nonneg _
  have settled : st.settle tolerance 1 (sweeps + 1) = .ok st' := by
    rw [Iteration.settle, isolated]
    dsimp only
    rw [if_neg zero_ne_one, swept]
    dsimp only
    have start : (st'.split tolerance 1).start = 1 := congrArg Split.start alone
    rw [settle_alone start, untouched, stays]
  refine ⟨st', swept, isolated, untouched, settled, ?_⟩
  rw [Iteration.diagonalize, even.diagSize, Iteration.settleAll, settled]
  dsimp only
  rw [Iteration.settleAll, settle_first, stays']
  rfl

end Rotation

end Iteration
end BondSvd
