import Mathlib
import BondSvd.Proofs.Descending.Attempt
import BondSvd.Proofs.Finite.Iteration
import BondSvd.Proofs.Finite.Reduction
import BondSvd.Proofs.Finite.Replay

/-! What a successful decomposition says about values that are infinite or no number. Only the settled values
are tested. A norm that is no number lies above no floor and below no limit, an infinite one makes every
coupling negligible, and an infinite divisor undoes a reflection or a shift: none of these ends an attempt. -/
namespace BondSvd
universe u

/-- Every entry of either factor and every value is finite. -/
structure Decomposition.Finite {α : Type u} [Scalar α] (r : Decomposition α) : Prop where
  left : r.left.Finite
  values : ∀ x ∈ r.values, Scalar.isFinite x = true
  right : r.right.Finite

namespace Reference

section Propagating
variable {α : Type u} [Scalar α] {policy : Policy α} {rule : FloorRule} {A : DenseMatrix α}
  {r : Reduction α} {st : Iteration α} {t : SingularTriples α}

/-- The norms that an attempt judges. -/
def judged (policy : Policy α) (rule : FloorRule) (A : DenseMatrix α) : List (Judgement α) :=
  Reduction.judgements (normFloor policy rule (tallForm A)) (tallForm A) (tallForm A).cols

/-- The rounds of the iteration that an attempt with reduction `r` runs. -/
def attemptRounds (policy : Policy α) (A : DenseMatrix α) (r : Reduction α) : List (Iteration.Round α) :=
  (iteration (tallForm A) r).rounds (negligible policy r) policy.maxSweeps.toNat r.diag.size

/-- The numbers among which an infinite or undefined one gets lost: those that an attempt judges, those that it
judges by, and those that it divides by. -/
structure InRange (policy : Policy α) (rule : FloorRule) (A : DenseMatrix α) (r : Reduction α) : Prop where
  norms : ∀ judgement ∈ judged policy rule A, judgement.Finite
  limit : ∀ limit, (normFloor policy rule (tallForm A)).limit = some limit → Scalar.isFinite limit = true
  tolerance : Scalar.isFinite (negligible policy r) = true
  reduction : ∀ x ∈ Reduction.divisors (normFloor policy rule (tallForm A)) (tallForm A), Scalar.isFinite x = true
  iteration : ∀ round ∈ attemptRounds policy A r, ∀ x ∈ round.divisors (negligible policy r), Scalar.isFinite x = true
  replay : ∀ x ∈ r.replayDivisors, Scalar.isFinite x = true

/-- A decomposition that met nothing infinite and nothing undefined: not in its input or a rescaled copy of it, nor
in what each step of the last attempt left to be reduced, in the bidiagonal form, in the state that a round of the
iteration began with, in the stored reflectors or in the answer, and not in what it judged, judged by or divided by. -/
structure Clean (policy : Policy α) (rule : FloorRule) (A : DenseMatrix α) (tries : Nat) (r : Reduction α)
    (result : Decomposition α) : Prop extends InRange policy rule (rescaled policy A tries) r where
  copies : ∀ k ≤ tries, (rescaled policy A k).Finite
  blocks : ∀ k ≤ (tallForm (rescaled policy A tries)).cols, ∀ before,
    Reduction.upTo (normFloor policy rule (tallForm (rescaled policy A tries))) (tallForm (rescaled policy A tries)) k =
      some before → before.FiniteFrom k k
  diagonals : r.FiniteDiagonals
  rounds : ∀ round ∈ attemptRounds policy (rescaled policy A tries) r, round.Clean (negligible policy r)
  reflectors : r.FiniteReflectors
  compensation : tries ≠ 0 → Scalar.isFinite (compensation policy tries) = true
  result : result.Finite

private theorem finite_of_oriented (left : (oriented A t).left.Finite) (right : (oriented A t).right.Finite) :
    t.left.Finite ∧ t.right.Finite := by
  unfold oriented at left right
  split at left
  · next wide =>
    rw [if_pos wide] at right
    exact ⟨right, left⟩
  · next tall =>
    rw [if_neg tall] at right
    exact ⟨left, right⟩

variable [Propagating α]

private theorem finite_of_tallForm (finite : (tallForm A).Finite) : A.Finite := by
  unfold tallForm at finite
  split at finite
  · exact finite.of_adjoint
  · exact finite

/-- A finite multiple is one of a finite matrix, so all copies up to a finite one are finite. -/
theorem finite_of_rescaled {tries : Nat} (finite : (rescaled policy A tries).Finite) :
    ∀ k ≤ tries, (rescaled policy A k).Finite := by
  induction tries with
  | zero =>
    intro k none
    obtain rfl := Nat.le_zero.mp none
    exact finite
  | succ tries ih =>
    intro k low
    rcases Nat.lt_or_eq_of_le low with below | rfl
    · exact ih finite.of_scale k (Nat.le_of_lt_succ below)
    · exact finite

private theorem Run.finite_settled (run : Run policy rule A r st) : st.FiniteValues :=
  finite_getD_iff.mpr (Array.all_eq_true_iff_forall_mem.mp run.finite)

/-- The test of the settled values covers the diagonal of the bidiagonal form. -/
theorem Run.finite_diag (run : Run policy rule A r st) (j : Nat) : Scalar.isFinite (r.diag.getD j 0) = true :=
  Iteration.settleAll_values (Nat.le_refl _) run.settled run.finite_settled j

private theorem Run.finite_values (run : Run policy rule A r st) :
    ∀ x ∈ (assemble r st).values, Scalar.isFinite x = true :=
  SingularTriples.forall_sorted (P := fun x => Scalar.isFinite x = true) (t := ⟨st.diag, st.left, st.right⟩)
    Propagating.zero (Array.all_eq_true_iff_forall_mem.mp run.finite)

section Run
variable {m n : ℕ}

/-- Finite norms are norms of finite blocks, and make finite diagonals. -/
theorem Run.finite_reduction (run : Run policy rule A r st) (shape : A.shape = (m, n)) (tall : n ≤ m)
    (norms : ∀ judgement ∈ Reduction.judgements (normFloor policy rule A) A n, judgement.Finite) :
    (∀ k ≤ n, ∀ before, Reduction.upTo (normFloor policy rule A) A k = some before → before.FiniteFrom k k) ∧
      A.Finite ∧ r.FiniteDiagonals := by
  have reduced := run.upTo shape
  have blocks := Reduction.blocks_of_judgements shape tall reduced norms
  refine ⟨blocks, fun i j row col => ?_, ?_⟩
  · exact blocks 0 (Nat.zero_le n) _ rfl i j (Nat.zero_le i) (Nat.zero_le j) row col
  · exact (Reduction.upTo_finiteDiagonals shape tall le_rfl reduced).mpr fun judgement member _ => norms judgement member

/-- Finite factors are made of finite rotations by finite reflectors. -/
theorem Run.finite_factors [Ordered α] (run : Run policy rule A r st) (shape : A.shape = (m, n)) (tall : n ≤ m)
    (left : (assemble r st).left.Finite) (right : (assemble r st).right.Finite) :
    st.left.FiniteReal ∧ st.right.FiniteReal ∧ r.FiniteReflectors := by
  have sized := Reduction.upTo_sized shape tall le_rfl (run.upTo shape)
  obtain ⟨leftShape, rightShape, size, -⟩ := run.settled_nonneg shape tall
  have leftCols : st.left.cols = m := congrArg Prod.snd leftShape
  have rightCols : st.right.cols = n := congrArg Prod.snd rightShape
  have fitsLeft : st.diag.size ≤ st.left.cols := by omega
  have fitsRight : st.diag.size ≤ st.right.cols := by omega
  obtain ⟨p, moved⟩ := SingularTriples.sorted_rearranges (t := ⟨st.diag, st.left, st.right⟩) fitsLeft fitsRight
  obtain ⟨before, before', reflectors⟩ := Reduction.finite_of_accumulate
    (by rw [moved.leftShape, leftShape, sized.rows]) (by rw [moved.rightShape, rightShape, sized.cols]) left right
  obtain ⟨settled, settled'⟩ := SingularTriples.finite_of_sorted (t := ⟨st.diag, st.left, st.right⟩) fitsLeft fitsRight
    before before'
  exact ⟨settled.real, settled'.real, reflectors⟩

end Run

/-- An attempt hides nothing but what gets lost in its norms, thresholds and divisors. -/
theorem Run.clean_iff [Ordered α] {tries : ℕ} {found result : Decomposition α}
    (run : Run policy rule (tallForm (rescaled policy A tries)) r st)
    (oriented : found = oriented (rescaled policy A tries) (assemble r st))
    (compensated : result = if tries = 0 then found else compensate policy tries found) :
    Clean policy rule A tries r result ↔
      InRange policy rule (rescaled policy A tries) r ∧
        (tries ≠ 0 → Scalar.isFinite (compensation policy tries) = true) ∧ result.Finite := by
  refine ⟨fun clean => ⟨clean.toInRange, clean.compensation, clean.result⟩, fun ⟨inRange, compensation, finite⟩ => ?_⟩
  have extents := shape_tallForm (rescaled policy A tries)
  have cols := DenseMatrix.cols_of_shape extents
  have norms := inRange.norms
  rw [judged, cols] at norms
  obtain ⟨blocks, input, diagonals⟩ := run.finite_reduction extents min_le_max norms
  have factors : found.left.Finite ∧ found.right.Finite := by
    subst compensated
    split at finite <;> exact ⟨finite.left, finite.right⟩
  rw [oriented] at factors
  obtain ⟨left, right⟩ := finite_of_oriented factors.1 factors.2
  obtain ⟨settled, settled', reflectors⟩ := run.finite_factors extents min_le_max left right
  have rounds := Iteration.rounds_clean inRange.tolerance run.settled run.finite_settled settled settled'
    inRange.iteration
  rw [← cols] at blocks
  exact ⟨inRange, finite_of_rescaled (finite_of_tallForm input), blocks, diagonals, rounds, reflectors, compensation,
    finite⟩

end Propagating

variable {policy : Policy Float} {A : DenseMatrix Float}

/-- A successful decomposition in binary64 comes from a successful attempt at the input or at a rescaled copy, with
finite values and a finite diagonal. It met nothing infinite and nothing undefined exactly if all that it judges,
judges by and divides by is finite, the power that its values are divided by included, and so is its answer. Finite
norms alone are enough for the input and the bidiagonal form; under a finite floor a norm that is not finite either
reached that form or was NaN and taken for zero. -/
theorem success_clean_iff {result : Decomposition Float}
    (done : (∃ rule, attempt policy rule A = .ok result) ∨ decompose policy A = .ok result) :
    ∃ rule tries found r st, attempt policy rule (rescaled policy A tries) = .ok found ∧
      (result = if tries = 0 then found else compensate policy tries found) ∧
      Run policy rule (tallForm (rescaled policy A tries)) r st ∧
      (∀ x ∈ found.values, x.isFinite = true) ∧ (∀ j, (r.diag.getD j 0).isFinite = true) ∧
      (Clean policy rule A tries r result ↔
        InRange policy rule (rescaled policy A tries) r ∧
          (tries ≠ 0 → (compensation policy tries).isFinite = true) ∧ result.Finite) ∧
      ((∀ judgement ∈ judged policy rule (rescaled policy A tries), judgement.Finite) → A.Finite ∧ r.FiniteDiagonals) ∧
      (policy.normFloor.isFinite = true → ∀ judgement ∈ judged policy rule (rescaled policy A tries),
        judgement.Finite ∨ policy.normFloor < judgement.normSq ∨ judgement.normSq.isNaN = true) := by
  have attempted : ∃ rule tries found, attempt policy rule (rescaled policy A tries) = .ok found ∧
      result = if tries = 0 then found else compensate policy tries found := by
    rcases done with ⟨rule, direct⟩ | retried
    · exact ⟨rule, 0, result, direct, rfl⟩
    · obtain ⟨rule, tries, found, -, attempted, compensated⟩ := decompose_attempt retried
      exact ⟨rule, tries, found, attempted, compensated⟩
  obtain ⟨rule, tries, found, attempted, compensated⟩ := attempted
  obtain ⟨r, st, run, oriented⟩ := attempt_run attempted
  refine ⟨rule, tries, found, r, st, attempted, compensated, run, ?_, run.finite_diag, run.clean_iff oriented compensated,
    fun norms => ?_, fun floor judgement member => ?_⟩
  · intro x member
    rw [oriented, values_oriented] at member
    exact run.finite_values x (Array.mem_toList_iff.mp member)
  · have extents := shape_tallForm (rescaled policy A tries)
    rw [judged, DenseMatrix.cols_of_shape extents] at norms
    obtain ⟨-, input, diagonals⟩ := run.finite_reduction extents min_le_max norms
    exact ⟨finite_of_rescaled (finite_of_tallForm input) 0 (Nat.zero_le tries), diagonals⟩
  · by_cases finite : judgement.Finite
    · exact .inl finite
    · rcases Reduction.kept_of_not_finite member floor finite with large | undefined
      · exact .inr (.inl large)
      · refine .inr (.inr ?_)
        rw [Binary64.le_self_iff] at undefined
        exact Bool.eq_true_of_not_eq_false undefined

/-- A matrix that takes a sweep. -/
def crossed : DenseMatrix Float := .ofFn 2 2 fun i j => ⟨if i = 0 then (if j = 0 then 3 else 1) else (if j = 0 then 0 else 2), 0⟩

theorem success_clean_iff_crossed :
    ∃ result rule tries found r st, decompose {} crossed = .ok result ∧
      attempt {} rule (rescaled {} crossed tries) = .ok found ∧
      (result = if tries = 0 then found else compensate {} tries found) ∧
      Run {} rule (tallForm (rescaled {} crossed tries)) r st ∧
      (∀ x ∈ found.values, x.isFinite = true) ∧ (∀ j, (r.diag.getD j 0).isFinite = true) ∧
      (Clean {} rule crossed tries r result ↔
        InRange {} rule (rescaled {} crossed tries) r ∧
          (tries ≠ 0 → (compensation {} tries : Float).isFinite = true) ∧ result.Finite) := by
  have success : (decompose {} crossed).isOk = true := by decide +kernel
  cases done : decompose {} crossed with
  | error fault =>
    rw [done] at success
    cases success
  | ok result =>
    obtain ⟨rule, tries, found, r, st, attempted, compensated, run, values, diag, clean, -⟩ :=
      success_clean_iff (.inr done)
    exact ⟨result, rule, tries, found, r, st, rfl, attempted, compensated, run, values, diag, clean⟩

/-- A matrix whose only entry is no number. -/
def undefinedEntry : DenseMatrix Float := .ofFn 1 1 fun _ _ => ⟨0.0 / 0.0, 0⟩

/-- NaN is decomposed as if it were zero, by a single attempt as well as with retries. -/
theorem decompose_undefinedEntry :
    ¬undefinedEntry.Finite ∧ (attempt {} .refuse undefinedEntry).toOption.map (·.values) = some [0] ∧
      (decompose {} undefinedEntry).toOption.map (·.values) = some [0] := by
  refine ⟨fun finite => ?_, by decide +kernel, by decide +kernel⟩
  have entry := finite 0 0 Nat.one_pos Nat.one_pos
  revert entry
  decide +kernel

/-- A finite matrix with a row whose squared length is out of range. -/
def overflowingRow : DenseMatrix Float :=
  .ofFn 3 3 fun i j => if i = 0 then ⟨if j = 0 then 1 else 1.2e154, 0⟩ else 0

theorem decompose_overflowingRow :
    overflowingRow.Finite ∧
      (decompose {} overflowingRow).toOption.map (fun result => (result.right.entry 1 0).re.isNaN) = some true := by
  refine ⟨fun i j row col => ?_, by decide +kernel⟩
  have place : overflowingRow.entry i j = if i = 0 then ⟨if j = 0 then 1 else 1.2e154, 0⟩ else 0 :=
    DenseMatrix.entry_ofFn _ row col
  rw [place]
  split
  · split <;> decide +kernel
  · decide +kernel

/-- A single entry whose square is just in range. -/
def largeEntry : DenseMatrix Float := .ofFn 1 1 fun _ _ => ⟨1e154, 0⟩

/-- Its norm is finite, but the replay divides by infinity and makes no reflection, so the sign of the entry is lost
in an answer that is finite itself. -/
theorem decompose_largeEntry :
    (∀ judgement ∈ judged {} .refuse largeEntry, judgement.normSq.isFinite = true) ∧
      (largeEntry.bidiagonalize (normFloor {} .refuse largeEntry)).map (fun r => r.replayDivisors.map Float.isInf) =
        some [true] ∧
      (decompose {} largeEntry).toOption.map (fun result => (result.rebuild.entry 0 0).re) = some (-1e154) := by
  decide +kernel

end Reference
end BondSvd
