import Mathlib
import BondSvd.Proofs.Exact.Reflection
import BondSvd.Proofs.Reduction.Run

namespace BondSvd
open scoped Matrix
variable {m n k l : ℕ}

theorem norm_phase (x : Cplx ℝ) : ‖(phase x x.modulus).toComplex‖ = 1 := by
  unfold phase
  split
  · simp
  · next large =>
    have positive : 0 < ‖x.toComplex‖ := by
      rw [← Cplx.modulus_exact]
      exact Tolerance.zero_pos.trans (not_le.mp large)
    rw [Cplx.toComplex_unscale, Cplx.modulus_exact, norm_div, Complex.norm_real, norm_norm, div_self positive.ne']

/-- The phase is the direction, unless the pivot is faint. -/
theorem phase_aligned {x : Cplx ℝ} (clear : ¬(0 < x.modulus ∧ x.modulus ≤ Tolerance.zero)) :
    (phase x x.modulus).toComplex * (‖x.toComplex‖ : ℝ) = x.toComplex := by
  unfold phase
  split
  · next small =>
    have gone : ‖x.toComplex‖ = 0 := by
      rw [Cplx.modulus_exact] at clear small
      exact le_antisymm (not_lt.mp fun positive => clear ⟨positive, small⟩) (norm_nonneg _)
    rw [gone, norm_eq_zero.mp gone]
    simp
  · next large =>
    have positive : 0 < ‖x.toComplex‖ := by
      rw [← Cplx.modulus_exact]
      exact Tolerance.zero_pos.trans (not_le.mp large)
    rw [Cplx.toComplex_unscale, Cplx.modulus_exact,
      div_mul_cancel₀ _ (Complex.ofReal_ne_zero.mpr positive.ne')]

/-- What a number is off the direction that is taken for it. -/
noncomputable def Cplx.skew (x : Cplx ℝ) : ℂ :=
  x.toComplex - (phase x x.modulus).toComplex * (‖x.toComplex‖ : ℝ)

theorem Cplx.sub_skew (x : Cplx ℝ) : x.toComplex - x.skew = (phase x x.modulus).toComplex * (‖x.toComplex‖ : ℝ) :=
  sub_sub_cancel ..

theorem Cplx.skew_of_clear {x : Cplx ℝ} (clear : ¬(0 < x.modulus ∧ x.modulus ≤ Tolerance.zero)) : x.skew = 0 :=
  sub_eq_zero.mpr (phase_aligned clear).symm

/-- Only a faint number is off its direction, and no further than twice what counts as zero. -/
theorem Cplx.norm_skew_le (x : Cplx ℝ) : ‖x.skew‖ ≤ 2 * Tolerance.zero := by
  by_cases faint : 0 < x.modulus ∧ x.modulus ≤ Tolerance.zero
  · have taken : ‖(phase x x.modulus).toComplex * (‖x.toComplex‖ : ℝ)‖ = ‖x.toComplex‖ := by
      rw [norm_mul, norm_phase, one_mul, Complex.norm_real, norm_norm]
    have small := faint.2
    rw [Cplx.modulus_exact] at small
    have apart := norm_sub_le x.toComplex ((phase x x.modulus).toComplex * (‖x.toComplex‖ : ℝ))
    rw [Cplx.skew]
    linarith
  · rw [Cplx.skew_of_clear faint, norm_zero]
    exact mul_nonneg zero_le_two Tolerance.zero_pos.le

namespace Reduction
variable {rule : NormFloor ℝ} {A U V : DenseMatrix ℝ} {r r' : Reduction ℝ}

/-- The vector of the left reflection of step `k`. -/
noncomputable def columnVector (r : Reduction ℝ) (k i : ℕ) : ℂ := (r.reflectors.entry i k).toComplex

/-- The vector of the right reflection of step `k`. -/
noncomputable def rowVector (r : Reduction ℝ) (k j : ℕ) : ℂ := star (r.reflectors.entry k j).toComplex

/-- What replaying the left reflection of step `k` multiplies by. -/
noncomputable def leftFactor (m : ℕ) (r : Reduction ℝ) (k : ℕ) : Matrix (Fin m) (Fin m) ℂ :=
  reflector m (r.columnVector k) k (r.diag.getD k 0)

/-- What replaying the right reflection of step `k` multiplies by. -/
noncomputable def rightFactor (n : ℕ) (r : Reduction ℝ) (k : ℕ) : Matrix (Fin n) (Fin n) ℂ :=
  reflector n (r.rowVector k) (k + 1) (r.superDiag.getD (k + 1) 0)

/-- The product of the factors below `count`, the first one leftmost. -/
noncomputable def productBelow {size : ℕ} (f : ℕ → Matrix (Fin size) (Fin size) ℂ) : ℕ → Matrix (Fin size) (Fin size) ℂ
  | 0 => 1
  | k + 1 => productBelow f k * f k

theorem productBelow_congr {size : ℕ} {f g : ℕ → Matrix (Fin size) (Fin size) ℂ} {count : ℕ}
    (same : ∀ k, k < count → f k = g k) : productBelow f count = productBelow g count := by
  induction count with
  | zero => rfl
  | succ k ih =>
    rw [productBelow, productBelow, ih fun j below => same j (Nat.lt_succ_of_lt below), same k (Nat.lt_succ_self k)]

theorem productBelow_mem_unitary {size : ℕ} {f : ℕ → Matrix (Fin size) (Fin size) ℂ} {count : ℕ}
    (unitary : ∀ k, k < count → f k ∈ Matrix.unitaryGroup (Fin size) ℂ) :
    productBelow f count ∈ Matrix.unitaryGroup (Fin size) ℂ := by
  induction count with
  | zero => exact one_mem _
  | succ k ih =>
    exact mul_mem (ih fun j below => unitary j (Nat.lt_succ_of_lt below)) (unitary k (Nat.lt_succ_self k))

private theorem toMatrix_applyLeft (shape : U.shape = (m, l)) (r : Reduction ℝ) (k : ℕ) :
    (r.applyLeft k U).toMatrix m l = r.leftFactor m k * U.toMatrix m l := by
  have scaled (z : Cplx ℝ) : (U.scaleRow k 0 z).shape = (m, l) := shape
  unfold applyLeft leftFactor reflector
  split
  · rw [Matrix.one_mul]
  · dsimp only
    rw [DenseMatrix.toMatrix_reflectLeft (scaled _), DenseMatrix.toMatrix_scaleRow shape, ← Matrix.mul_assoc,
      Cplx.modulus_exact, Cplx.toComplex_unscale, Cplx.toComplex_neg]
    rfl

theorem toComplex_turn (x : Cplx ℝ) : (turn x).toComplex = -star x.toComplex / (‖star x.toComplex‖ : ℝ) := by
  rw [turn, Cplx.toComplex_unscale, Cplx.toComplex_neg, Cplx.toComplex_conj, Cplx.modulus_exact, norm_star]

private theorem toMatrix_applyRight (shape : V.shape = (n, l)) (r : Reduction ℝ) (k : ℕ) :
    (r.applyRight k V).toMatrix n l = r.rightFactor n k * V.toMatrix n l := by
  have scaled (z : Cplx ℝ) : (V.scaleRow (k + 1) 0 z).shape = (n, l) := shape
  unfold applyRight rightFactor reflector
  split
  · rw [Matrix.one_mul]
  · dsimp only
    rw [DenseMatrix.toMatrix_reflectLeft (scaled _), DenseMatrix.toMatrix_scaleRow shape, ← Matrix.mul_assoc,
      Cplx.modulus_exact, toComplex_turn]
    simp only [rowVector, norm_star, Cplx.toComplex_conj]
    rfl

/-- Applying the factors backwards multiplies by their product. -/
theorem toMatrix_backwards {size : ℕ} {f : ℕ → DenseMatrix ℝ → DenseMatrix ℝ}
    {g : ℕ → Matrix (Fin size) (Fin size) ℂ} (shapes : ∀ k U, (f k U).shape = U.shape)
    (each : ∀ k U, U.shape = (size, l) → (f k U).toMatrix size l = g k * U.toMatrix size l)
    (count : ℕ) (shape : U.shape = (size, l)) :
    (backwards f count U).shape = (size, l) ∧
      (backwards f count U).toMatrix size l = productBelow g count * U.toMatrix size l := by
  induction count generalizing U with
  | zero => exact ⟨shape, (Matrix.one_mul _).symm⟩
  | succ k ih =>
    obtain ⟨shape', product⟩ := ih ((shapes k U).trans shape)
    refine ⟨shape', ?_⟩
    rw [backwards, product, each k U shape, productBelow, Matrix.mul_assoc]

theorem columnTailNormSq_exact (sized : r.Sized m n) (k : ℕ) :
    r.columnTailNormSq k = ∑ i : Fin m, if k ≤ (i : ℕ) then ‖r.columnVector k i‖ ^ 2 else 0 := by
  rw [columnTailNormSq, sumFrom_exact, sized.rows, sum_tail k m fun i => (r.reflectors.entry i k).normSq]
  simp only [Cplx.normSq_exact, columnVector]

theorem rowTailNormSq_exact (sized : r.Sized m n) (k : ℕ) :
    r.rowTailNormSq k = ∑ j : Fin n, if k + 1 ≤ (j : ℕ) then ‖r.rowVector k j‖ ^ 2 else 0 := by
  rw [rowTailNormSq, sumFrom_exact, sized.cols, sum_tail (k + 1) n fun j => (r.reflectors.entry k j).normSq]
  simp only [Cplx.normSq_exact, rowVector, norm_star]

theorem tailNormSq_nonneg (r : Reduction ℝ) (k : ℕ) : 0 ≤ r.columnTailNormSq k ∧ 0 ≤ r.rowTailNormSq k := by
  rw [columnTailNormSq, rowTailNormSq, sumFrom_exact, sumFrom_exact]
  exact ⟨Finset.sum_nonneg fun _ _ => Cplx.normSq_nonneg _, Finset.sum_nonneg fun _ _ => Cplx.normSq_nonneg _⟩

theorem KeptColumn.length (kept : KeptColumn k r r') : r'.diag.getD k 0 = √(r.columnTailNormSq k) := by
  rw [kept.diag, if_pos rfl]
  rfl

theorem KeptRow.length (kept : KeptRow k r r') : r'.superDiag.getD (k + 1) 0 = √(r.rowTailNormSq k) := by
  rw [kept.superDiag, if_pos rfl]
  rfl

theorem KeptColumn.reflects (kept : KeptColumn k r r') (sized : r.Sized m n) (inside : k < m)
    (positive : 0 < r.columnTailNormSq k) :
    Reflects m k (phase (r.reflectors.entry k k) (r.reflectors.entry k k).modulus).toComplex (r.columnVector k)
      (r'.columnVector k) (r'.diag.getD k 0) := by
  rw [kept.length]
  refine ⟨inside, Real.sqrt_pos.mpr positive, ?_, ?_, norm_phase _, ?_⟩
  · rw [Real.sq_sqrt positive.le, columnTailNormSq_exact sized]
  · intro i off
    rw [columnVector, columnVector, kept.column i off]
  · rw [columnVector, columnVector, kept.pivot, Cplx.toComplex_scale, Cplx.modulus_exact]
    rfl

theorem KeptRow.reflects (kept : KeptRow k r r') (sized : r.Sized m n) (inside : k + 1 < n)
    (positive : 0 < r.rowTailNormSq k) :
    Reflects n (k + 1)
      (star (phase (r.reflectors.entry k (k + 1)) (r.reflectors.entry k (k + 1)).modulus).toComplex)
      (r.rowVector k) (r'.rowVector k) (r'.superDiag.getD (k + 1) 0) := by
  rw [kept.length]
  refine ⟨inside, Real.sqrt_pos.mpr positive, ?_, ?_, ?_, ?_⟩
  · rw [Real.sq_sqrt positive.le, rowTailNormSq_exact sized]
  · intro j off
    rw [rowVector, rowVector, kept.row j off]
  · rw [norm_star, norm_phase]
  · rw [rowVector, rowVector, kept.pivot, Cplx.toComplex_scale, star_mul', Cplx.modulus_exact, norm_star,
      Complex.star_def, Complex.conj_ofReal]
    rfl

theorem leftFactor_congr {j : ℕ} (kept : Preserved k r r') (before : j < k) : r'.leftFactor m j = r.leftFactor m j := by
  have vector : r'.columnVector j = r.columnVector j := by
    funext i
    rw [columnVector, columnVector, kept.entry i j (by omega)]
  rw [leftFactor, leftFactor, vector, kept.diag j before.ne]

theorem rightFactor_congr {j : ℕ} (kept : Preserved k r r') (before : j < k) :
    r'.rightFactor n j = r.rightFactor n j := by
  have vector : r'.rowVector j = r.rowVector j := by
    funext i
    rw [rowVector, rowVector, kept.entry j i (by omega)]
  rw [rightFactor, rightFactor, vector, kept.superDiag (j + 1) (by omega)]

/-- The right reflections start beyond the first column. -/
theorem rightProduct_first (r : Reduction ℝ) (count : ℕ) (i : Fin (n + 1)) :
    productBelow (r.rightFactor (n + 1)) count i 0 = (1 : Matrix (Fin (n + 1)) (Fin (n + 1)) ℂ) i 0 := by
  induction count with
  | zero => rfl
  | succ k ih => rw [productBelow, rightFactor, mul_reflector_apply_of_lt _ _ (Nat.succ_pos k), ih]

theorem leftFactor_of_zero (zero : r.diag.getD k 0 = 0) : r.leftFactor m k = 1 :=
  if_pos (zero.trans_le Tolerance.zero_pos.le)

theorem rightFactor_of_zero (zero : r.superDiag.getD (k + 1) 0 = 0) : r.rightFactor n k = 1 :=
  if_pos (zero.trans_le Tolerance.zero_pos.le)

theorem toMatrix_accumulateLeft (sized : r.Sized m n) (shape : U.shape = (m, l)) :
    (r.accumulateLeft U).shape = (m, l) ∧
      (r.accumulateLeft U).toMatrix m l = productBelow (r.leftFactor m) n * U.toMatrix m l := by
  rw [accumulateLeft, sized.cols]
  exact toMatrix_backwards r.shape_applyLeft (fun k U => r.toMatrix_applyLeft (k := k) (U := U)) n shape

/-- The factor of the last column, which has no row part, is the identity. -/
theorem toMatrix_accumulateRight (sized : r.Sized m n) (shape : V.shape = (n, l)) :
    (r.accumulateRight V).shape = (n, l) ∧
      (r.accumulateRight V).toMatrix n l = productBelow (r.rightFactor n) n * V.toMatrix n l := by
  have last : productBelow (r.rightFactor n) (n - 1) = productBelow (r.rightFactor n) n := by
    cases n with
    | zero => rfl
    | succ k =>
      have beyond : r.superDiag.getD (k + 1) 0 = 0 := by
        simp [Array.getD_eq_getD_getElem?, sized.superSize.le]
      rw [Nat.add_sub_cancel, productBelow, rightFactor_of_zero beyond, Matrix.mul_one]
  rw [accumulateRight, sized.cols, ← last]
  exact toMatrix_backwards r.shape_applyRight (fun k V => r.toMatrix_applyRight (k := k) (V := V)) (n - 1) shape

theorem columnPart_factor_unitary (nonneg : 0 ≤ rule.floor) (sized : r.Sized m n) (tall : n ≤ m) (inside : k < n)
    (pending : r.diag.getD k 0 = 0) (done : r.columnPart rule k = some r') :
    r'.leftFactor m k ∈ Matrix.unitaryGroup (Fin m) ℂ := by
  obtain ⟨-, rfl⟩ | ⟨verdict, -, kept⟩ := columnPart_cases sized tall inside done
  · rw [leftFactor_of_zero pending]
    exact one_mem _
  · have positive := nonneg.trans_lt ((rule.judge_eq_keep_iff _).mp verdict)
    exact (kept.reflects sized (inside.trans_le tall) positive).mem_unitary

theorem rowPart_factor_unitary (nonneg : 0 ≤ rule.floor) (sized : r.Sized m n) (tall : n ≤ m) (inside : k + 1 < n)
    (pending : r.superDiag.getD (k + 1) 0 = 0) (done : r.rowPart rule k = some r') :
    r'.rightFactor n k ∈ Matrix.unitaryGroup (Fin n) ℂ := by
  obtain ⟨-, rfl⟩ | ⟨verdict, -, kept⟩ := rowPart_cases sized tall inside done
  · rw [rightFactor_of_zero pending]
    exact one_mem _
  · have positive := nonneg.trans_lt ((rule.judge_eq_keep_iff _).mp verdict)
    exact (kept.reflects sized inside positive).mem_unitary

theorem rowPart_leftFactor (sized : r.Sized m n) (tall : n ≤ m) (inside : k + 1 < n)
    (done : r.rowPart rule k = some r') : r'.leftFactor m k = r.leftFactor m k := by
  obtain ⟨entry, diag, -⟩ := rowPart_preserved sized tall inside done
  have vector : r'.columnVector k = r.columnVector k := by
    funext i
    rw [columnVector, columnVector, entry i k (by omega)]
  rw [leftFactor, leftFactor, vector, diag]

private theorem step_factors_unitary (nonneg : 0 ≤ rule.floor) (sized : r.Sized m n) (tall : n ≤ m) (inside : k < n)
    (diag : r.diag.getD k 0 = 0) (superDiag : r.superDiag.getD (k + 1) 0 = 0) (done : r.step rule k = some r') :
    r'.leftFactor m k ∈ Matrix.unitaryGroup (Fin m) ℂ ∧ r'.rightFactor n k ∈ Matrix.unitaryGroup (Fin n) ℂ := by
  obtain ⟨middle, columns, part⟩ := step_parts done
  have sized' := columnPart_sized sized tall inside columns
  have left := columnPart_factor_unitary nonneg sized tall inside diag columns
  have pending : middle.superDiag.getD (k + 1) 0 = 0 := by
    rw [columnPart_superDiag sized tall inside columns, superDiag]
  obtain ⟨more, rows⟩ | ⟨-, rfl⟩ := part
  · have inside' : k + 1 < n := sized'.cols ▸ more
    rw [rowPart_leftFactor sized' tall inside' rows]
    exact ⟨left, rowPart_factor_unitary nonneg sized' tall inside' pending rows⟩
  · rw [rightFactor_of_zero pending]
    exact ⟨left, one_mem _⟩

theorem factors_unitary (nonneg : 0 ≤ rule.floor) (shape : A.shape = (m, n)) (tall : n ≤ m) (inside : k ≤ n)
    (done : upTo rule A k = some r) :
    (∀ j, j < k → r.leftFactor m j ∈ Matrix.unitaryGroup (Fin m) ℂ) ∧
      ∀ j, j < k → r.rightFactor n j ∈ Matrix.unitaryGroup (Fin n) ℂ := by
  induction k generalizing r with
  | zero => exact ⟨fun j below => absurd below (Nat.not_lt_zero j), fun j below => absurd below (Nat.not_lt_zero j)⟩
  | succ k ih =>
    obtain ⟨before, reached, stepped⟩ := Option.bind_eq_some_iff.mp done
    have sized := upTo_sized shape tall (Nat.le_of_lt inside) reached
    obtain ⟨left, right⟩ := ih (Nat.le_of_lt inside) reached
    obtain ⟨diag, superDiag⟩ := upTo_pending shape tall (Nat.le_of_lt inside) reached
    have kept := step_preserved sized tall inside stepped
    obtain ⟨here, there⟩ := step_factors_unitary nonneg sized tall inside (diag k le_rfl)
      (superDiag (k + 1) (Nat.lt_succ_self k)) stepped
    refine ⟨fun j below => ?_, fun j below => ?_⟩
    · rcases Nat.lt_or_eq_of_le (Nat.le_of_lt_succ below) with earlier | rfl
      · rw [leftFactor_congr kept earlier]
        exact left j earlier
      · exact here
    · rcases Nat.lt_or_eq_of_le (Nat.le_of_lt_succ below) with earlier | rfl
      · rw [rightFactor_congr kept earlier]
        exact right j earlier
      · exact there

end Reduction
end BondSvd
