import Mathlib
import BondSvd.Proofs.Exact.Lengths
import BondSvd.Proofs.RelativeAccuracy

/-! Which inputs are out of reach of every rescaling, in exact arithmetic. As long as no norm of the tall
orientation is lifted above the floor, nothing is reflected, and an attempt breaks down at the first norm
that is significant. The test for the reach looks at the columns of the input alone, and so goes by less
than an attempt meets: a wide input has longer columns in its tall orientation, and a row may be longer
than every column. -/
namespace BondSvd
universe u

namespace Reduction
variable {α : Type u} [Scalar α] {rule : NormFloor α} {A : DenseMatrix α} {k count : ℕ} {normSq : α}

/-- What step `k` judges of a matrix that nothing has reflected: column `k` from the diagonal down, and
row `k` right of the diagonal unless that was the last column. -/
def stepTails (A : DenseMatrix α) (k : ℕ) : List α :=
  (start A).columnTailNormSq k :: if k + 1 < A.cols then [(start A).rowTailNormSq k] else []

/-- The squared norms that a reduction judges where it reflects nothing. -/
def tails (A : DenseMatrix α) : List α := (List.range A.cols).flatMap (stepTails A)

theorem mem_tails : normSq ∈ tails A ↔ ∃ k < A.cols, normSq ∈ stepTails A k := by
  simp [tails]

theorem mem_stepTails :
    normSq ∈ stepTails A k ↔
      normSq = (start A).columnTailNormSq k ∨ k + 1 < A.cols ∧ normSq = (start A).rowTailNormSq k := by
  rw [stepTails, List.mem_cons]
  split <;> simp [*]

private theorem step_of_flushed (flushed : ∀ normSq ∈ stepTails A k, rule.judge normSq = .flush) :
    (start A).step rule k = some (start A) := by
  have column := flushed _ (mem_stepTails.mpr (.inl rfl))
  rw [step, columnPart, column, Option.bind_some]
  have cols : (start A).reflectors.cols = A.cols := rfl
  split
  · next more => rw [rowPart, flushed _ (mem_stepTails.mpr (.inr ⟨cols ▸ more, rfl⟩))]
  · rfl

/-- A step is refused at either norm, whatever becomes of the other, as long as nothing is kept. -/
theorem step_of_refused (light : ∀ normSq ∈ stepTails A k, rule.judge normSq ≠ .keep)
    (member : normSq ∈ stepTails A k) (refused : rule.judge normSq = .refuse) : (start A).step rule k = none := by
  have column := light _ (mem_stepTails.mpr (.inl rfl))
  have cols : (start A).reflectors.cols = A.cols := rfl
  rw [step, columnPart]
  split
  · rfl
  · next flushed =>
    obtain rfl | ⟨more, rfl⟩ := mem_stepTails.mp member
    · rw [flushed] at refused
      cases refused
    · rw [Option.bind_some, if_pos (cols.symm ▸ more), rowPart, refused]
  · next kept => exact absurd kept column

private theorem upTo_of_flushed (flushed : ∀ k < count, ∀ normSq ∈ stepTails A k, rule.judge normSq = .flush) :
    upTo rule A count = some (start A) := by
  induction count with
  | zero => rfl
  | succ count ih =>
    rw [upTo_succ, ih fun k below => flushed k (Nat.lt_succ_of_lt below), Option.bind_some,
      step_of_flushed (flushed count (Nat.lt_succ_self count))]

private theorem upTo_of_refused (light : ∀ k < count, ∀ normSq ∈ stepTails A k, rule.judge normSq ≠ .keep)
    (refused : ∃ k < count, ∃ normSq ∈ stepTails A k, rule.judge normSq = .refuse) : upTo rule A count = none := by
  induction count with
  | zero =>
    obtain ⟨k, below, -⟩ := refused
    exact absurd below (Nat.not_lt_zero k)
  | succ count ih =>
    have lightBefore (k : ℕ) (below : k < count) := light k (Nat.lt_succ_of_lt below)
    by_cases earlier : ∃ k < count, ∃ normSq ∈ stepTails A k, rule.judge normSq = .refuse
    · rw [upTo_succ, ih lightBefore earlier, Option.bind_none]
    · have flushed : ∀ k < count, ∀ normSq ∈ stepTails A k, rule.judge normSq = .flush := by
        intro k below normSq member
        cases verdict : rule.judge normSq with
        | keep => exact absurd verdict (lightBefore k below normSq member)
        | flush => rfl
        | refuse => exact absurd ⟨k, below, normSq, member, verdict⟩ earlier
      obtain ⟨k, below, normSq, member, verdict⟩ := refused
      obtain rfl : k = count :=
        (Nat.lt_succ_iff_lt_or_eq.mp below).resolve_left fun before => earlier ⟨k, before, normSq, member, verdict⟩
      rw [upTo_succ, upTo_of_flushed flushed, Option.bind_some, step_of_refused (light k below) member verdict]

private theorem bidiagonalize_of_flushed (flushed : ∀ normSq ∈ tails A, rule.judge normSq = .flush) :
    A.bidiagonalize rule = some (start A) :=
  upTo_of_flushed fun k below normSq member => flushed normSq (mem_tails.mpr ⟨k, below, member⟩)

private theorem bidiagonalize_of_refused (light : ∀ normSq ∈ tails A, rule.judge normSq ≠ .keep)
    (refused : ∃ normSq ∈ tails A, rule.judge normSq = .refuse) : A.bidiagonalize rule = none := by
  obtain ⟨normSq, member, verdict⟩ := refused
  obtain ⟨k, below, member⟩ := mem_tails.mp member
  exact upTo_of_refused (fun k below normSq member => light normSq (mem_tails.mpr ⟨k, below, member⟩))
    ⟨k, below, normSq, member, verdict⟩

end Reduction

namespace Reference
open Reduction
variable {policy : Policy ℝ} {rule : FloorRule} {A : DenseMatrix ℝ}

/-- Where every norm is flushed, all values are zero from the start. -/
theorem tall_of_flushed (eta : 0 ≤ policy.convergenceEta)
    (flushed : ∀ normSq ∈ tails A, (normFloor policy rule A).judge normSq = .flush) :
    tall policy rule A = .ok (assemble (start A) (iteration A (start A))) := by
  have zeros := start_getD A
  refine Run.tall_eq ⟨bidiagonalize_of_flushed flushed, Iteration.settleAll_decoupled (fun k => ?_) (fun k => ?_) _ _,
    Array.all_eq_true.mpr fun _ _ => rfl⟩
  · have coupling : (iteration A (start A)).e (k + 1) = 0 := (zeros (k + 1)).2
    rw [coupling, Scalar.abs_exact, abs_zero]
    exact negligible_nonneg eta _
  · have value : (iteration A (start A)).d k = 0 := (zeros k).1
    exact value.symm.not_gt

private theorem tall_of_refused (light : ∀ normSq ∈ tails A, (normFloor policy rule A).judge normSq ≠ .keep)
    (refused : ∃ normSq ∈ tails A, (normFloor policy rule A).judge normSq = .refuse) :
    tall policy rule A = .error .flooredNorm := by
  rw [tall, bidiagonalize_of_refused light refused]

private theorem fails_iff_tall : Fails policy A ↔ ∃ breakdown, tall policy .refuse (tallForm A) = .error breakdown := by
  rw [Fails, attempt_eq_tall]
  cases Reference.tall policy .refuse (tallForm A) <;> simp [Except.map]

/-- Below the floor an attempt breaks down just where a norm is significant beside the largest column. -/
theorem fails_iff_of_light (eta : 0 ≤ policy.convergenceEta)
    (light : ∀ normSq ∈ tails (tallForm A), normSq ≤ policy.normFloor) :
    Fails policy A ↔
      ∃ normSq ∈ tails (tallForm A), (tallForm A).maxColumnNormSq * policy.convergenceEta ^ 2 < normSq := by
  have verdict (normSq : ℝ) (member : normSq ∈ tails (tallForm A)) :
      (normFloor policy .refuse (tallForm A)).judge normSq =
        if (tallForm A).maxColumnNormSq * policy.convergenceEta ^ 2 < normSq then .refuse else .flush := by
    have small : ¬(normFloor policy .refuse (tallForm A)).floor < normSq := not_lt.mpr (light normSq member)
    rw [NormFloor.judge, if_neg small, sq, ← mul_assoc]
    rfl
  rw [fails_iff_tall]
  constructor
  · rintro ⟨breakdown, failed⟩
    by_contra insignificant
    have flushed : ∀ normSq ∈ tails (tallForm A), (normFloor policy .refuse (tallForm A)).judge normSq = .flush :=
      fun normSq member => by rw [verdict normSq member, if_neg fun large => insignificant ⟨normSq, member, large⟩]
    rw [tall_of_flushed eta flushed] at failed
    cases failed
  · rintro ⟨normSq, member, large⟩
    refine ⟨.flooredNorm, tall_of_refused (fun other inside => ?_) ⟨normSq, member, ?_⟩⟩
    · rw [verdict other inside]
      split <;> exact FloorVerdict.noConfusion
    · rw [verdict normSq member, if_pos large]

end Reference

namespace Reduction
variable {A : DenseMatrix ℝ} {bound normSq : ℝ} {k : ℕ}

theorem columnTail_sum (A : DenseMatrix ℝ) (k : ℕ) :
    (start A).columnTailNormSq k = ∑ i ∈ Finset.Ico k A.rows, (A.entry i k).normSq := by
  rw [columnTailNormSq, sumFrom_exact, Finset.sum_Ico_eq_sum_range]
  rfl

theorem rowTail_sum (A : DenseMatrix ℝ) (k : ℕ) :
    (start A).rowTailNormSq k = ∑ j ∈ Finset.Ico (k + 1) A.cols, (A.entry k j).normSq := by
  rw [rowTailNormSq, sumFrom_exact, Finset.sum_Ico_eq_sum_range]
  rfl

private theorem tails_scale (A : DenseMatrix ℝ) (factor : ℝ) : tails (A.scale factor) = (tails A).map (factor ^ 2 * ·) := by
  have rows : (A.scale factor).rows = A.rows := rfl
  have cols : (A.scale factor).cols = A.cols := rfl
  have step : stepTails (A.scale factor) = fun k => (stepTails A k).map (factor ^ 2 * ·) := by
    funext k
    rw [stepTails, stepTails, List.map_cons, columnTail_sum, columnTail_sum, rowTail_sum, rowTail_sum, rows, cols,
      Finset.mul_sum]
    simp only [DenseMatrix.normSq_entry_scale]
    split
    · rw [List.map_singleton, Finset.mul_sum]
    · rfl
  rw [tails, tails, List.map_flatMap, cols, step]

private theorem columnTail_le (col : k < A.cols) : (start A).columnTailNormSq k ≤ A.maxColumnNormSq := by
  refine le_trans ?_ (DenseMatrix.columnNormSq_le col)
  rw [columnTail_sum, DenseMatrix.columnNormSq_exact]
  refine Finset.sum_le_sum_of_subset_of_nonneg (fun i inside => ?_) fun i _ _ => Cplx.normSq_nonneg _
  exact Finset.mem_range.mpr (Finset.mem_Ico.mp inside).2

/-- A norm sums no more than a column of entries. -/
theorem tail_le (tall : A.cols ≤ A.rows) (nonneg : 0 ≤ bound)
    (each : ∀ i < A.rows, ∀ j < A.cols, (A.entry i j).normSq ≤ bound) (member : normSq ∈ tails A) :
    normSq ≤ A.rows * bound := by
  have part {f : ℕ → ℝ} {low high : ℕ} (small : ∀ i < high, f i ≤ bound) (fits : high ≤ A.rows) :
      ∑ i ∈ Finset.Ico low high, f i ≤ A.rows * bound := by
    refine (Finset.sum_le_card_nsmul _ _ bound fun i inside => small i (Finset.mem_Ico.mp inside).2).trans ?_
    rw [Nat.card_Ico, nsmul_eq_mul]
    exact mul_le_mul_of_nonneg_right (Nat.cast_le.mpr ((Nat.sub_le _ _).trans fits)) nonneg
  obtain ⟨k, below, member⟩ := mem_tails.mp member
  obtain rfl | ⟨-, rfl⟩ := mem_stepTails.mp member
  · rw [columnTail_sum]
    exact part (fun i row => each i row k below) le_rfl
  · rw [rowTail_sum]
    exact part (fun j col => each k (below.trans_le tall) j col) tall

/-- With one or two columns, a row has at most one entry beside its pivot. -/
theorem tail_le_of_narrow (tall : A.cols ≤ A.rows) (narrow : A.cols ≤ 2) (member : normSq ∈ tails A) :
    normSq ≤ A.maxColumnNormSq := by
  obtain ⟨k, below, member⟩ := mem_tails.mp member
  obtain rfl | ⟨more, rfl⟩ := mem_stepTails.mp member
  · exact columnTail_le below
  · obtain ⟨rfl, two⟩ : k = 0 ∧ A.cols = 2 := by omega
    rw [rowTail_sum, two, Nat.Ico_succ_singleton, Finset.sum_singleton]
    exact DenseMatrix.normSq_entry_le (below.trans_le tall) more

private theorem tails_nonneg (member : normSq ∈ tails A) : 0 ≤ normSq := by
  obtain ⟨k, -, member⟩ := mem_tails.mp member
  obtain rfl | ⟨-, rfl⟩ := mem_stepTails.mp member
  · exact (tailNormSq_nonneg _ k).1
  · exact (tailNormSq_nonneg _ k).2

/-- Each column consists of its own tail and of one entry in each of the rows above that. -/
theorem maxColumnNormSq_le_of_tails (tall : A.cols ≤ A.rows) (nonneg : 0 ≤ bound)
    (each : ∀ normSq ∈ tails A, normSq ≤ bound) : A.maxColumnNormSq ≤ A.cols * bound := by
  refine Scalar.foldl_larger_le (mul_nonneg (Nat.cast_nonneg _) nonneg) fun k member => ?_
  have col : k < A.cols := List.mem_range.mp member
  have row : k ≤ A.rows := (col.trans_le tall).le
  have above (i : ℕ) (before : i < k) : (A.entry i k).normSq ≤ bound := by
    have more : i + 1 < A.cols := (Nat.succ_le_of_lt before).trans_lt col
    refine le_trans ?_ (each _ (mem_tails.mpr ⟨i, before.trans col, mem_stepTails.mpr (.inr ⟨more, rfl⟩)⟩))
    rw [rowTail_sum]
    exact Finset.single_le_sum (f := fun j => (A.entry i j).normSq) (fun _ _ => Cplx.normSq_nonneg _)
      (Finset.mem_Ico.mpr ⟨Nat.succ_le_of_lt before, col⟩)
  have tail := each _ (mem_tails.mpr ⟨k, col, mem_stepTails.mpr (.inl rfl)⟩)
  rw [columnTail_sum] at tail
  have pieces : (k + 1 : ℝ) ≤ A.cols := by exact_mod_cast col
  calc A.columnNormSq k = ∑ i ∈ Finset.range k, (A.entry i k).normSq + ∑ i ∈ Finset.Ico k A.rows, (A.entry i k).normSq := by
        rw [DenseMatrix.columnNormSq_exact, Finset.sum_range_add_sum_Ico _ row]
    _ ≤ k * bound + bound := by
        refine add_le_add ?_ tail
        refine (Finset.sum_le_card_nsmul _ _ bound fun i before => above i (Finset.mem_range.mp before)).trans_eq ?_
        rw [Finset.card_range, nsmul_eq_mul]
    _ = (k + 1) * bound := by ring
    _ ≤ A.cols * bound := mul_le_mul_of_nonneg_right pieces nonneg

end Reduction

namespace Reference
open Reduction
variable {policy : Policy ℝ} {A : DenseMatrix ℝ} {factor length : ℝ} {j : ℕ}

theorem tallForm_scale (A : DenseMatrix ℝ) (factor : ℝ) : tallForm (A.scale factor) = (tallForm A).scale factor := by
  have rows : (A.scale factor).rows = A.rows := rfl
  have cols : (A.scale factor).cols = A.cols := rfl
  rw [tallForm, tallForm, rows, cols]
  split
  · exact DenseMatrix.adjoint_scale A factor
  · rfl

theorem tallForm_extents (A : DenseMatrix ℝ) :
    (tallForm A).rows = max A.rows A.cols ∧ (tallForm A).cols = min A.rows A.cols ∧
      (tallForm A).cols ≤ (tallForm A).rows := by
  have rows := DenseMatrix.rows_of_shape (shape_tallForm A)
  have cols := DenseMatrix.cols_of_shape (shape_tallForm A)
  exact ⟨rows, cols, by rw [rows, cols]; exact min_le_max⟩

/-- Turning a matrix takes its entries along, so each orientation bounds those of the other. -/
theorem entry_tallForm_le (A : DenseMatrix ℝ) :
    (∀ i < (tallForm A).rows, ∀ j < (tallForm A).cols, ((tallForm A).entry i j).normSq ≤ A.maxColumnNormSq) ∧
      ∀ i < A.rows, ∀ j < A.cols, (A.entry i j).normSq ≤ (tallForm A).maxColumnNormSq := by
  unfold tallForm
  split
  · refine ⟨fun i row j col => ?_, fun i row j col => ?_⟩
    · rw [DenseMatrix.entry_adjoint A row col, Cplx.normSq_conj]
      exact DenseMatrix.normSq_entry_le col row
    · rw [← Cplx.normSq_conj, ← DenseMatrix.entry_adjoint A col row]
      exact DenseMatrix.normSq_entry_le (A := A.adjoint) col row
  · exact ⟨fun i row j col => DenseMatrix.normSq_entry_le row col, fun i row j col => DenseMatrix.normSq_entry_le row col⟩

/-- Below the floor nothing is left of an input that is flushed. -/
theorem attempt_of_light (eta : 0 ≤ policy.convergenceEta)
    (light : ∀ normSq ∈ tails (tallForm A), normSq ≤ policy.normFloor) :
    ∃ result, attempt policy .flush A = .ok result ∧ ∀ value ∈ result.values, value = 0 := by
  have flushed : ∀ normSq ∈ tails (tallForm A), (normFloor policy .flush (tallForm A)).judge normSq = .flush :=
    fun normSq member => if_neg (not_lt.mpr (light normSq member))
  refine ⟨_, by rw [attempt_eq_tall, tall_of_flushed eta flushed, Except.map], fun value member => ?_⟩
  have inside : value ∈ (assemble (start (tallForm A)) (iteration (tallForm A) (start (tallForm A)))).values := by
    rw [values_oriented] at member
    exact Array.mem_toList_iff.mp member
  refine SingularTriples.forall_sorted (P := fun x : ℝ => x = 0) rfl (fun zero replicated => ?_) value inside
  exact (Array.mem_replicate.mp replicated).2

/-- Which norms are significant does not change with a rescaling, as long as none is lifted above the
floor. -/
theorem fails_scale_iff (eta : 0 ≤ policy.convergenceEta) (positive : 0 < factor)
    (light : ∀ normSq ∈ tails (tallForm A), normSq * factor ^ 2 ≤ policy.normFloor) :
    Fails policy (A.scale factor) ↔
      ∃ normSq ∈ tails (tallForm A), (tallForm A).maxColumnNormSq * policy.convergenceEta ^ 2 < normSq := by
  have square : 0 < factor ^ 2 := pow_pos positive 2
  have scaled : tails (tallForm (A.scale factor)) = (tails (tallForm A)).map (factor ^ 2 * ·) := by
    rw [tallForm_scale, tails_scale]
  rw [fails_iff_of_light eta, scaled, tallForm_scale, DenseMatrix.maxColumnNormSq_scale]
  · simp only [List.mem_map, exists_exists_and_eq_and, mul_assoc, mul_lt_mul_iff_right₀ square]
  · rw [scaled, List.forall_mem_map]
    exact fun normSq member => (mul_comm _ _).trans_le (light normSq member)

/-- With few retries the exponent of the reach is neither wrapped nor capped. -/
theorem belowReach_iff (few : policy.maxRetries.toNat < 2 ^ 30) :
    belowReach policy A = true ↔
      0 < A.maxColumnNormSq ∧
        A.maxColumnNormSq * policy.rescaleFactor ^ (2 * policy.maxRetries.toNat) ≤ policy.normFloor := by
  have exponent : reachExponent policy.maxRetries = 2 * policy.maxRetries.toNat := by
    rw [reachExponent_of_lt (by omega)]
    exact Nat.min_eq_left (by omega)
  rw [belowReach_exact, exponent]

/-- Some norm is significant where the tolerance is small beside the number of columns. -/
theorem exists_significant (present : 0 < A.maxColumnNormSq)
    (sharp : (min A.rows A.cols : ℕ) * policy.convergenceEta ^ 2 < 1) :
    ∃ normSq ∈ tails (tallForm A), (tallForm A).maxColumnNormSq * policy.convergenceEta ^ 2 < normSq := by
  obtain ⟨-, cols, tall⟩ := tallForm_extents A
  have positive : 0 < (tallForm A).maxColumnNormSq := by
    refine (DenseMatrix.maxColumnNormSq_nonneg _).lt_of_ne fun vanishes => present.not_ge ?_
    have nothing := DenseMatrix.maxColumnNormSq_le_of_entries (DenseMatrix.maxColumnNormSq_nonneg _) (entry_tallForm_le A).2
    rwa [← vanishes, mul_zero] at nothing
  by_contra none
  push Not at none
  have pieces := maxColumnNormSq_le_of_tails tall (mul_nonneg positive.le (sq_nonneg policy.convergenceEta)) none
  rw [cols] at pieces
  nlinarith

/-- What is no longer than the largest column stays below the floor in every allowed rescaling. -/
theorem lifted_le (growing : 1 ≤ policy.rescaleFactor) (nonneg : 0 ≤ length) (short : length ≤ A.maxColumnNormSq)
    (out : A.maxColumnNormSq * policy.rescaleFactor ^ (2 * policy.maxRetries.toNat) ≤ policy.normFloor)
    (within : j ≤ policy.maxRetries.toNat) : length * policy.rescaleFactor ^ (2 * j) ≤ policy.normFloor := by
  refine le_trans ?_ out
  exact mul_le_mul short (pow_le_pow_right₀ growing (by omega)) (pow_nonneg (by linarith) _) (nonneg.trans short)

/-- Rescalings by less than what the extents could make up for lift no norm above the floor. -/
theorem tails_lifted_le (growing : 1 ≤ policy.rescaleFactor) (present : 0 < A.maxColumnNormSq)
    (out : A.maxColumnNormSq * policy.rescaleFactor ^ (2 * policy.maxRetries.toNat) ≤ policy.normFloor)
    {s : ℕ} (within : j + s ≤ policy.maxRetries.toNat) (small : (max A.rows A.cols : ℕ) ≤ policy.rescaleFactor ^ (2 * s))
    (member : length ∈ tails (tallForm A)) : length * policy.rescaleFactor ^ (2 * j) ≤ policy.normFloor := by
  obtain ⟨rows, -, tall⟩ := tallForm_extents A
  have base : 0 ≤ policy.rescaleFactor := one_pos.le.trans growing
  have short := tail_le tall present.le (entry_tallForm_le A).1 member
  rw [rows] at short
  calc length * policy.rescaleFactor ^ (2 * j)
      ≤ policy.rescaleFactor ^ (2 * s) * A.maxColumnNormSq * policy.rescaleFactor ^ (2 * j) := by
        refine mul_le_mul_of_nonneg_right (short.trans ?_) (pow_nonneg base _)
        exact mul_le_mul_of_nonneg_right small present.le
    _ = A.maxColumnNormSq * policy.rescaleFactor ^ (2 * (j + s)) := by ring
    _ ≤ policy.normFloor := lifted_le growing present.le le_rfl out within

/-- The flush leaves nothing of an input that is out of reach, unless the extents make up for all rescalings. -/
theorem decompose_flushed (growing : 1 ≤ policy.rescaleFactor) (eta : 0 ≤ policy.convergenceEta)
    (few : policy.maxRetries.toNat < 2 ^ 30) (below : belowReach policy A = true)
    (small : (max A.rows A.cols : ℕ) ≤ policy.rescaleFactor ^ (2 * policy.maxRetries.toNat)) :
    ∃ result, decompose policy A = .ok result ∧ ∀ value ∈ result.values, value = 0 := by
  obtain ⟨present, out⟩ := (belowReach_iff few).mp below
  have light : ∀ normSq ∈ tails (tallForm A), normSq ≤ policy.normFloor := fun normSq member => by
    simpa using tails_lifted_le growing present out (j := 0) (Nat.zero_add _).le small member
  obtain ⟨result, done, zeros⟩ := attempt_of_light eta light
  refine ⟨result, ?_, zeros⟩
  rw [decompose, if_pos below, done]
  rfl

/-- Of what is taken for out of reach, only a norm that is longer than the largest column can be lifted
above the floor. -/
theorem fails_iff_of_belowReach (growing : 1 ≤ policy.rescaleFactor) (eta : 0 ≤ policy.convergenceEta)
    (few : policy.maxRetries.toNat < 2 ^ 30) (below : belowReach policy A = true) (within : j ≤ policy.maxRetries.toNat)
    (light : ∀ normSq ∈ tails (tallForm A),
      normSq ≤ A.maxColumnNormSq ∨ normSq * policy.rescaleFactor ^ (2 * j) ≤ policy.normFloor) :
    Fails policy (A.scale (policy.rescaleFactor ^ j)) ↔
      ∃ normSq ∈ tails (tallForm A), (tallForm A).maxColumnNormSq * policy.convergenceEta ^ 2 < normSq := by
  refine fails_scale_iff eta (pow_pos (one_pos.trans_le growing) j) fun normSq member => ?_
  rw [← pow_mul, mul_comm j 2]
  obtain short | low := light normSq member
  · exact lifted_le growing (tails_nonneg member) short ((belowReach_iff few).mp below).2 within
  · exact low

/-- An input that is taken for out of reach fails at every allowed rescaling that lifts no norm of the tall
orientation above the floor, unless no norm is significant at all; and then only a tolerance that is large
beside the number of columns can be the reason. This holds of all rescalings for one or two columns, and in
any shape of all but the last few, which outgrow the extents. The flush leaves nothing of such an input. -/
theorem belowReach_fails_iff (growing : 1 ≤ policy.rescaleFactor) (eta : 0 ≤ policy.convergenceEta)
    (few : policy.maxRetries.toNat < 2 ^ 30) (below : belowReach policy A = true) :
    (∀ j ≤ policy.maxRetries.toNat,
      (∀ normSq ∈ tails (tallForm A),
        normSq ≤ A.maxColumnNormSq ∨ normSq * policy.rescaleFactor ^ (2 * j) ≤ policy.normFloor) →
      (Fails policy (A.scale (policy.rescaleFactor ^ j)) ↔
        ∃ normSq ∈ tails (tallForm A), (tallForm A).maxColumnNormSq * policy.convergenceEta ^ 2 < normSq)) ∧
    ((min A.rows A.cols : ℕ) * policy.convergenceEta ^ 2 < 1 →
      (A.cols ≤ A.rows → A.cols ≤ 2 →
        ∀ j ≤ policy.maxRetries.toNat, Fails policy (A.scale (policy.rescaleFactor ^ j))) ∧
      ∀ j s, j + s ≤ policy.maxRetries.toNat → (max A.rows A.cols : ℕ) ≤ policy.rescaleFactor ^ (2 * s) →
        Fails policy (A.scale (policy.rescaleFactor ^ j))) ∧
    ((max A.rows A.cols : ℕ) ≤ policy.rescaleFactor ^ (2 * policy.maxRetries.toNat) →
      ∃ result, decompose policy A = .ok result ∧ ∀ value ∈ result.values, value = 0) := by
  obtain ⟨present, out⟩ := (belowReach_iff few).mp below
  refine ⟨fun j within => fails_iff_of_belowReach growing eta few below within, fun sharp => ?_,
    decompose_flushed growing eta few below⟩
  have significant := exists_significant present sharp
  refine ⟨fun tall narrow j within => ?_, fun j s within small => ?_⟩
  · have stays : tallForm A = A := if_neg (not_lt.mpr tall)
    refine (fails_iff_of_belowReach growing eta few below within fun normSq member => .inl ?_).mpr significant
    rw [stays] at member
    exact tail_le_of_narrow tall narrow member
  · refine (fails_iff_of_belowReach growing eta few below (by omega) fun normSq member => .inr ?_).mpr significant
    exact tails_lifted_le growing present out within small member

private theorem tall_single_column (policy : Policy ℝ) (rule : FloorRule) (single : A.cols = 1) (tall : 1 ≤ A.rows)
    (usable : (normFloor policy rule A).judge ((Reduction.start A).columnTailNormSq 0) ≠ .refuse) :
    ∃ t, Reference.tall policy rule A = .ok t := by
  obtain ⟨r, part⟩ : ∃ r, (Reduction.start A).columnPart (normFloor policy rule A) 0 = some r := by
    unfold Reduction.columnPart
    split
    · next refused => exact absurd refused usable
    · exact ⟨_, rfl⟩
    · exact ⟨_, rfl⟩
  have shape : A.shape = (A.rows, 1) := Prod.ext rfl single
  have sized := Reduction.columnPart_sized (Reduction.start_sized shape) tall Nat.one_pos part
  have reduced : A.bidiagonalize (normFloor policy rule A) = some r := by
    rw [DenseMatrix.bidiagonalize, single, Reduction.upTo_succ, Reduction.upTo_zero, Option.bind_some,
      Reduction.step, part, Option.bind_some, if_neg (by rw [sized.cols]; omega)]
  have settled : (iteration A r).diagonalize (negligible policy r) policy.maxSweeps.toNat =
      .ok ((iteration A r).makeNonNegative 0) := by
    have size : (iteration A r).diag.size = 1 := sized.diagSize
    rw [Iteration.diagonalize, size, Iteration.settleAll, Iteration.settle_first]
    rfl
  exact ⟨_, Run.tall_eq ⟨reduced, settled, Array.all_eq_true.mpr fun _ _ => rfl⟩⟩

section Row
variable {factor : ℝ}

/-- A row of two entries, one of them imaginary. -/
noncomputable def sampleRow : DenseMatrix ℝ := .ofFn 1 2 fun _ j => if j = 0 then ⟨1, 0⟩ else ⟨0, 1⟩

private theorem scaledRow_entry (factor : ℝ) :
    (sampleRow.scale factor).adjoint.entry 0 0 = ⟨factor, 0⟩ ∧
      (sampleRow.scale factor).adjoint.entry 1 0 = ⟨0, -factor⟩ := by
  have rows : sampleRow.rows = 1 := rfl
  have cols : sampleRow.cols = 2 := rfl
  have first : sampleRow.entry 0 0 = ⟨1, 0⟩ := DenseMatrix.entry_ofFn _ Nat.one_pos Nat.two_pos
  have second : sampleRow.entry 0 1 = ⟨0, 1⟩ := DenseMatrix.entry_ofFn _ Nat.one_pos Nat.one_lt_two
  constructor
  · rw [DenseMatrix.entry_adjoint (sampleRow.scale factor) Nat.two_pos Nat.one_pos,
      DenseMatrix.entry_scale sampleRow factor Nat.one_pos Nat.two_pos, first]
    simp [Cplx.scale, Cplx.conj]
  · rw [DenseMatrix.entry_adjoint (sampleRow.scale factor) Nat.one_lt_two Nat.one_pos,
      DenseMatrix.entry_scale sampleRow factor Nat.one_pos Nat.one_lt_two, second]
    simp [Cplx.scale, Cplx.conj]

private theorem scaledRow_norm (factor : ℝ) :
    (Reduction.start (sampleRow.scale factor).adjoint).columnTailNormSq 0 = 2 * factor ^ 2 := by
  obtain ⟨first, second⟩ := scaledRow_entry factor
  have sum : (Reduction.start (sampleRow.scale factor).adjoint).columnTailNormSq 0 =
      0 + ((sampleRow.scale factor).adjoint.entry 0 0).normSq +
        ((sampleRow.scale factor).adjoint.entry 1 0).normSq := rfl
  rw [sum, first, second, Cplx.normSq, Cplx.normSq]
  ring

private theorem scaledRow_limit (factor : ℝ) : (sampleRow.scale factor).adjoint.maxColumnNormSq = 2 * factor ^ 2 := by
  have only : (sampleRow.scale factor).adjoint.maxColumnNormSq =
      Scalar.larger 0 ((Reduction.start (sampleRow.scale factor).adjoint).columnTailNormSq 0) := rfl
  rw [only, scaledRow_norm, Scalar.larger_exact]
  exact max_eq_right (by positivity)

private theorem scaledRow_attempt (above : 1.5e-34 < 2 * factor ^ 2) :
    ∃ found, attempt {} .refuse (sampleRow.scale factor) = .ok found := by
  have kept : (normFloor {} .refuse (sampleRow.scale factor).adjoint).judge (2 * factor ^ 2) = .keep :=
    (NormFloor.judge_eq_keep_iff _ _).mpr above
  obtain ⟨t, decomposed⟩ := tall_single_column {} .refuse (A := (sampleRow.scale factor).adjoint) rfl
    (Nat.le_succ 1) (by rw [scaledRow_norm, kept]; exact FloorVerdict.noConfusion)
  refine ⟨⟨t.right, t.values.toList, t.left, .columns, none⟩, ?_⟩
  have wide : (sampleRow.scale factor).rows < (sampleRow.scale factor).cols := Nat.one_lt_two
  rw [attempt, if_pos wide, decomposed]
  rfl

private theorem sampleRow_columns : sampleRow.maxColumnNormSq = 1 := by
  have column (j : ℕ) (col : j < 2) : sampleRow.columnNormSq j = 1 := by
    have single : sampleRow.columnNormSq j = 0 + (sampleRow.entry 0 j).normSq := rfl
    rw [single, sampleRow, DenseMatrix.entry_ofFn _ Nat.one_pos col]
    split <;> norm_num [Cplx.normSq]
  have both : sampleRow.maxColumnNormSq =
      Scalar.larger (Scalar.larger 0 (sampleRow.columnNormSq 0)) (sampleRow.columnNormSq 1) := rfl
  rw [both, column 0 Nat.two_pos, column 1 Nat.one_lt_two, Scalar.larger_exact, Scalar.larger_exact]
  norm_num

private theorem scaledRow_belowReach_iff (factor : ℝ) :
    belowReach {} (sampleRow.scale factor) = true ↔ 0 < factor ^ 2 ∧ factor ^ 2 * 1e2 ^ 30 ≤ 1.5e-34 := by
  have exponent : reachExponent ({} : Policy ℝ).maxRetries = 30 := by decide
  rw [belowReach_exact, exponent, DenseMatrix.maxColumnNormSq_scale, sampleRow_columns, mul_one]

end Row

theorem belowReach_fails_iff_scaledColumn :
    1 ≤ ({} : Policy ℝ).rescaleFactor ∧ 0 ≤ ({} : Policy ℝ).convergenceEta ∧
      ({} : Policy ℝ).maxRetries.toNat < 2 ^ 30 ∧ belowReach {} (sampleRow.scale 1e-48).adjoint = true ∧
      (∀ j ≤ 15, Fails {} ((sampleRow.scale 1e-48).adjoint.scale (1e2 ^ j))) ∧
      ∃ result, decompose {} (sampleRow.scale 1e-48).adjoint = .ok result ∧ ∀ value ∈ result.values, value = 0 := by
  have growing : (1 : ℝ) ≤ 1e2 := by norm_num
  have eta : (0 : ℝ) ≤ 1e-10 := by norm_num
  have few : ({} : Policy ℝ).maxRetries.toNat < 2 ^ 30 := by decide
  have retries : ({} : Policy ℝ).maxRetries.toNat = 15 := rfl
  have below : belowReach {} (sampleRow.scale 1e-48).adjoint = true := by
    rw [belowReach_iff few, scaledRow_limit, retries]
    norm_num
  obtain ⟨-, fails, flushed⟩ := belowReach_fails_iff growing eta few below
  have extents : ((min (sampleRow.scale 1e-48).adjoint.rows (sampleRow.scale 1e-48).adjoint.cols : ℕ) : ℝ) = 1 :=
    Nat.cast_one
  have extent : ((max (sampleRow.scale 1e-48).adjoint.rows (sampleRow.scale 1e-48).adjoint.cols : ℕ) : ℝ) = 2 :=
    Nat.cast_two
  refine ⟨growing, eta, few, below, (fails ?_).1 (Nat.le_succ 1) (Nat.le_succ 1), flushed ?_⟩
  · rw [extents]
    norm_num
  · rw [extent, retries]
    norm_num

/-- The columns of a row are shorter than the row, which the last rescaling lifts above the floor. It is
flushed all the same. -/
theorem belowReach_rescued :
    1 < ({} : Policy ℝ).rescaleFactor ∧ 0 < ({} : Policy ℝ).normFloor ∧ 0 < ({} : Policy ℝ).convergenceEta ∧
      ({} : Policy ℝ).convergenceEta < 1 ∧ ({} : Policy ℝ).maxRetries.toNat < 2 ^ 30 ∧
      belowReach {} (sampleRow.scale 1e-47) = true ∧ 15 ≤ ({} : Policy ℝ).maxRetries.toNat ∧
      ¬Fails {} ((sampleRow.scale 1e-47).scale (1e2 ^ 15)) ∧
      ∃ result, decompose {} (sampleRow.scale 1e-47) = .ok result ∧ ∀ value ∈ result.values, value = 0 := by
  have growing : (1 : ℝ) < 1e2 := by norm_num
  have eta : (0 : ℝ) < 1e-10 := by norm_num
  have few : ({} : Policy ℝ).maxRetries.toNat < 2 ^ 30 := by decide
  have retries : ({} : Policy ℝ).maxRetries.toNat = 15 := rfl
  have below : belowReach {} (sampleRow.scale 1e-47) = true := by
    rw [scaledRow_belowReach_iff]
    norm_num
  have rescued : ¬Fails {} ((sampleRow.scale 1e-47).scale ((1e2 : ℝ) ^ 15)) := by
    rintro ⟨breakdown, failed⟩
    have above : (1.5e-34 : ℝ) < 2 * (1e-47 * 1e2 ^ 15) ^ 2 := by norm_num
    obtain ⟨found, done⟩ := scaledRow_attempt above
    rw [DenseMatrix.scale_scale, done] at failed
    cases failed
  have extent : ((max (sampleRow.scale 1e-47).rows (sampleRow.scale 1e-47).cols : ℕ) : ℝ) = 2 := Nat.cast_two
  refine ⟨growing, by norm_num, eta, by norm_num, few, below, le_rfl, rescued, ?_⟩
  refine decompose_flushed growing.le eta.le few below ?_
  rw [extent, retries]
  norm_num

end Reference
end BondSvd
