import Mathlib
import BondSvd.Proofs.Finite.Laws
import BondSvd.Proofs.Reduction.Run

namespace BondSvd
universe u
variable {α : Type u} [Scalar α]

def Judgement.Finite (judgement : Judgement α) : Prop := Scalar.isFinite judgement.normSq = true

/-- What the weights of a reflection are divided by. -/
def Judgement.divisor (judgement : Judgement α) : α :=
  Scalar.sqrt judgement.normSq * (Scalar.sqrt judgement.normSq + judgement.pivot.modulus)

/-- A norm that the rule keeps is finite. -/
def Judgement.FiniteIfKept (rule : NormFloor α) (judgement : Judgement α) : Prop :=
  rule.floor < judgement.normSq → judgement.Finite

namespace Reduction
variable {rule : NormFloor α} {A : DenseMatrix α} {m n k : Nat} {r r' r'' : Reduction α}

/-- The entries from row `top` and column `first` on are finite. -/
def FiniteFrom (top first : Nat) (r : Reduction α) : Prop :=
  ∀ i j, top ≤ i → first ≤ j → i < r.reflectors.rows → j < r.reflectors.cols → (r.reflectors.entry i j).Finite

/-- Both diagonals found so far are finite. -/
def FiniteDiagonals (r : Reduction α) : Prop :=
  (∀ j, Scalar.isFinite (r.diag.getD j 0) = true) ∧ ∀ j, Scalar.isFinite (r.superDiag.getD j 0) = true

/-- What a reduction divides its pivots by, and the weights of its reflections. The last column has nothing to its
right that would be reflected. -/
def divisors (rule : NormFloor α) (A : DenseMatrix α) : List α :=
  ((judgements rule A A.cols).filter fun judgement => decide (rule.floor < judgement.normSq)).map (·.pivot.modulus) ++
    ((judgements rule A A.cols).dropLast.filter fun judgement => decide (rule.floor < judgement.normSq)).map
      Judgement.divisor

variable [Propagating α]

private theorem columnTail_finite {i : Nat} (finite : Scalar.isFinite (r.columnTailNormSq k) = true) (low : k ≤ i)
    (inside : i < r.reflectors.rows) : (r.reflectors.entry i k).Finite :=
  Cplx.Finite.of_normSq (finite_of_sumFrom finite low (by omega))

private theorem rowTail_finite {j : Nat} (finite : Scalar.isFinite (r.rowTailNormSq k) = true) (high : k + 1 ≤ j)
    (inside : j < r.reflectors.cols) : (r.reflectors.entry k j).Finite :=
  Cplx.Finite.of_normSq (finite_of_sumFrom finite high (by omega))

/-- A judged norm and its root are finite together, as the norm is a sum of squares. -/
theorem sqrt_columnTail_finite_iff :
    Scalar.isFinite (Scalar.sqrt (r.columnTailNormSq k)) = true ↔ Scalar.isFinite (r.columnTailNormSq k) = true :=
  ⟨Propagating.root, fun finite => Propagating.sqrt (sumFrom_normSq_nonneg (Propagating.le_self finite)) finite⟩

private theorem sqrt_rowTail_finite_iff :
    Scalar.isFinite (Scalar.sqrt (r.rowTailNormSq k)) = true ↔ Scalar.isFinite (r.rowTailNormSq k) = true :=
  ⟨Propagating.root, fun finite => Propagating.sqrt (sumFrom_normSq_nonneg (Propagating.le_self finite)) finite⟩

private theorem finite_update_iff {f g : Nat → α} {x : α} (pending : g k = 0) (update : ∀ j, f j = if k = j then x else g j) :
    (∀ j, Scalar.isFinite (f j) = true) ↔ (∀ j, Scalar.isFinite (g j) = true) ∧ Scalar.isFinite x = true := by
  constructor
  · intro finite
    refine ⟨fun j => ?_, ?_⟩
    · by_cases own : k = j
      · rw [← own, pending]
        exact Propagating.zero
      · have value := finite j
        rwa [update, if_neg own] at value
    · have value := finite k
      rwa [update, if_pos rfl] at value
  · rintro ⟨others, value⟩ j
    rw [update]
    split
    · exact value
    · exact others j

/-- A reflected column passes on what the block right of it held. -/
theorem columnPart_finiteFrom (sized : r.Sized m n) (tall : n ≤ m) (inside : k < n)
    (done : r.columnPart rule k = some r') (norm : Scalar.isFinite (r.columnTailNormSq k) = true)
    (finite : r'.FiniteFrom k (k + 1)) : r.FiniteFrom k k := by
  intro i j low first row col
  by_cases own : j = k
  · rw [own]
    exact columnTail_finite norm low row
  · obtain ⟨-, rfl⟩ | ⟨-, sized', kept⟩ := columnPart_cases sized tall inside done
    · exact finite i j low (by omega) row col
    · have entry := finite i j low (by omega) (by rwa [sized'.rows, ← sized.rows]) (by rwa [sized'.cols, ← sized.cols])
      rw [kept.block i j low (by omega) row col] at entry
      split at entry
      · exact entry.of_mul.2.of_sub.1
      · exact entry.of_sub.1

private theorem rowPart_finiteFrom (sized : r.Sized m n) (tall : n ≤ m) (inside : k + 1 < n)
    (done : r.rowPart rule k = some r') (norm : Scalar.isFinite (r.rowTailNormSq k) = true)
    (finite : r'.FiniteFrom (k + 1) (k + 1)) : r.FiniteFrom k (k + 1) := by
  intro i j low first row col
  by_cases own : i = k
  · rw [own]
    exact rowTail_finite norm first col
  · obtain ⟨-, rfl⟩ | ⟨-, sized', kept⟩ := rowPart_cases sized tall inside done
    · exact finite i j (by omega) first row col
    · have entry := finite i j (by omega) first (by rwa [sized'.rows, ← sized.rows]) (by rwa [sized'.cols, ← sized.cols])
      rw [kept.block i j (by omega) first row col] at entry
      split at entry
      · exact entry.of_mul.1.of_sub.1
      · exact entry.of_sub.1

/-- One step passes on every entry, if the norms it judges are finite. -/
theorem step_finiteFrom (sized : r.Sized m n) (tall : n ≤ m) (inside : k < n) (done : r.step rule k = some r'')
    (norms : ∀ judgement ∈ r.stepJudgements rule k, judgement.Finite) (finite : r''.FiniteFrom (k + 1) (k + 1)) :
    r.FiniteFrom k k := by
  obtain ⟨r', columns, part⟩ := step_parts done
  have sized' := columnPart_sized sized tall inside columns
  rw [stepJudgements_of_columnPart columns] at norms
  refine columnPart_finiteFrom sized tall inside columns (norms _ List.mem_cons_self) ?_
  obtain ⟨more, rows⟩ | ⟨last, rfl⟩ := part
  · have judged : r'.rowJudgements k = [⟨r'.rowTailNormSq k, r'.reflectors.entry k (k + 1)⟩] := if_pos more
    rw [judged] at norms
    have norm : Scalar.isFinite (r'.rowTailNormSq k) = true :=
      norms ⟨r'.rowTailNormSq k, r'.reflectors.entry k (k + 1)⟩ (by simp)
    exact rowPart_finiteFrom sized' tall (sized'.cols ▸ more) rows norm finite
  · intro i j _ high _ col
    omega

/-- If all judged norms are finite, what is not finite in the block left at some step is still in the one left at
the end. -/
theorem upTo_finiteFrom (shape : A.shape = (m, n)) (tall : n ≤ m) (inside : k ≤ n) (done : upTo rule A k = some r)
    (norms : ∀ judgement ∈ judgements rule A k, judgement.Finite) (finite : r.FiniteFrom k k) :
    ∀ l ≤ k, ∀ before, upTo rule A l = some before → before.FiniteFrom l l := by
  induction k generalizing r with
  | zero =>
    intro l low before reached
    obtain rfl := Nat.le_zero.mp low
    obtain rfl := Option.some.inj (done.symm.trans reached)
    exact finite
  | succ k ih =>
    -- The induction runs backwards: what the last step left is read back to what it met.
    intro l low before reached
    obtain ⟨last, started, stepped⟩ := Option.bind_eq_some_iff.mp done
    rw [judgements_succ started, List.forall_mem_append] at norms
    have sized := upTo_sized shape tall (Nat.le_of_lt inside) started
    have earlier := ih (Nat.le_of_lt inside) started norms.1 (step_finiteFrom sized tall inside stepped norms.2 finite)
    rcases Nat.lt_or_eq_of_le low with below | rfl
    · exact earlier l (Nat.le_of_lt_succ below) before reached
    · obtain rfl := Option.some.inj (done.symm.trans reached)
      exact finite

/-- A complete reduction of finite norms met only finite blocks, the first of which is the input. -/
theorem blocks_of_judgements (shape : A.shape = (m, n)) (tall : n ≤ m) (done : upTo rule A n = some r)
    (norms : ∀ judgement ∈ judgements rule A n, judgement.Finite) :
    ∀ l ≤ n, ∀ before, upTo rule A l = some before → before.FiniteFrom l l := by
  refine upTo_finiteFrom shape tall (Nat.le_refl n) done norms fun i j _ first _ col => ?_
  rw [(upTo_sized shape tall (Nat.le_refl n) done).cols] at col
  omega

/-- A column part adds the root of a kept norm to the diagonal, and nothing else. -/
theorem columnPart_finiteDiagonals (sized : r.Sized m n) (tall : n ≤ m) (inside : k < n)
    (pending : r.diag.getD k 0 = 0) (done : r.columnPart rule k = some r') :
    r'.FiniteDiagonals ↔
      r.FiniteDiagonals ∧ Judgement.FiniteIfKept rule ⟨r.columnTailNormSq k, r.reflectors.entry k k⟩ := by
  unfold Judgement.FiniteIfKept
  rw [← rule.judge_eq_keep_iff]
  obtain ⟨verdict, rfl⟩ | ⟨verdict, -, kept⟩ := columnPart_cases sized tall inside done
  · simp [verdict]
  · rw [FiniteDiagonals, kept.superDiag, finite_update_iff pending kept.diag, sqrt_columnTail_finite_iff, and_right_comm]
    simp [verdict, FiniteDiagonals, Judgement.Finite]

private theorem rowPart_finiteDiagonals (sized : r.Sized m n) (tall : n ≤ m) (inside : k + 1 < n)
    (pending : r.superDiag.getD (k + 1) 0 = 0) (done : r.rowPart rule k = some r') :
    r'.FiniteDiagonals ↔
      r.FiniteDiagonals ∧ Judgement.FiniteIfKept rule ⟨r.rowTailNormSq k, r.reflectors.entry k (k + 1)⟩ := by
  unfold Judgement.FiniteIfKept
  rw [← rule.judge_eq_keep_iff]
  obtain ⟨verdict, rfl⟩ | ⟨verdict, -, kept⟩ := rowPart_cases sized tall inside done
  · simp [verdict]
  · rw [FiniteDiagonals, kept.diag, finite_update_iff pending kept.superDiag, sqrt_rowTail_finite_iff, ← and_assoc]
    simp [verdict, FiniteDiagonals, Judgement.Finite]

theorem upTo_finiteDiagonals (shape : A.shape = (m, n)) (tall : n ≤ m) (inside : k ≤ n)
    (done : upTo rule A k = some r) :
    r.FiniteDiagonals ↔ ∀ judgement ∈ judgements rule A k, judgement.FiniteIfKept rule := by
  induction k generalizing r with
  | zero =>
    cases done
    refine iff_of_true ⟨fun j => ?_, fun j => ?_⟩ fun _ member => absurd member List.not_mem_nil
    · rw [(start_getD A j).1]
      exact Propagating.zero
    · rw [(start_getD A j).2]
      exact Propagating.zero
  | succ k ih =>
    obtain ⟨before, reached, stepped⟩ := Option.bind_eq_some_iff.mp done
    obtain ⟨r', columns, part⟩ := step_parts stepped
    have sized := upTo_sized shape tall (Nat.le_of_lt inside) reached
    have sized' := columnPart_sized sized tall inside columns
    obtain ⟨diag, superDiag⟩ := upTo_pending shape tall (Nat.le_of_lt inside) reached
    have column := columnPart_finiteDiagonals sized tall inside (diag k (Nat.le_refl k)) columns
    rw [ih (Nat.le_of_lt inside) reached] at column
    rw [judgements_succ reached, stepJudgements_of_columnPart columns, List.forall_mem_append, List.forall_mem_cons,
      ← and_assoc, ← column]
    obtain ⟨more, rows⟩ | ⟨last, rfl⟩ := part
    · have pending : r'.superDiag.getD (k + 1) 0 = 0 := by
        rw [columnPart_superDiag sized tall inside columns, superDiag (k + 1) (Nat.lt_succ_self k)]
      rw [rowPart_finiteDiagonals sized' tall (sized'.cols ▸ more) pending rows, rowJudgements, if_pos more,
        List.forall_mem_singleton]
    · rw [rowJudgements, if_neg last]
      exact (and_iff_left fun _ member => absurd member List.not_mem_nil).symm

private theorem judgements_nonneg {judgement : Judgement α} (member : judgement ∈ judgements rule A k)
    (number : judgement.normSq ≤ judgement.normSq) : 0 ≤ judgement.normSq := by
  induction k with
  | zero => exact absurd member List.not_mem_nil
  | succ k ih =>
    rw [judgements, List.mem_append] at member
    rcases member with earlier | last
    · exact ih earlier
    · split at last
      · exact absurd last List.not_mem_nil
      · next r _ =>
        rw [stepJudgements, List.mem_cons] at last
        rcases last with rfl | row
        · exact sumFrom_normSq_nonneg number
        · split at row
          · exact absurd row List.not_mem_nil
          · next r' _ =>
            unfold rowJudgements at row
            split at row
            · rw [List.mem_singleton.mp row] at number ⊢
              exact sumFrom_normSq_nonneg number
            · exact absurd row List.not_mem_nil

/-- Under a finite floor only a norm that is no number is taken for zero without being finite. -/
theorem kept_of_not_finite {judgement : Judgement α} (member : judgement ∈ judgements rule A k)
    (floor : Scalar.isFinite rule.floor = true) (infinite : ¬judgement.Finite) :
    rule.floor < judgement.normSq ∨ ¬judgement.normSq ≤ judgement.normSq := by
  by_cases number : judgement.normSq ≤ judgement.normSq
  · exact .inl (Propagating.lt (judgements_nonneg member number) infinite floor)
  · exact .inr number

end Reduction
end BondSvd
