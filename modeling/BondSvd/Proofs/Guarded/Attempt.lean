import Mathlib
import BondSvd.Proofs.Guarded.Iteration
import BondSvd.Proofs.Guarded.Reduction
import BondSvd.Proofs.RelativeAccuracy
import BondSvd.Proofs.Retry

namespace BondSvd.Guarded
open Reference (reachExponent)

section Definitions
variable {α : Type} [Scalar α]

/-- A value and its index, replaced by a strictly larger one. -/
def champion (values : Array α) (best : Nat × α) (i : Nat) : Guarded (Nat × α) := do
  let value ← read values i
  return if best.2 < value then (i, value) else best

/-- The first largest value from index `k` on, with its index. -/
def largestFrom (values : Array α) (k : Nat) : Guarded (Nat × α) :=
  (List.range' k (values.size - k)).foldlM (champion values) (k, -1)

/-- Exchanges value `j` for `largest` at place `k`, and the vectors with it. -/
def exchange (t : SingularTriples α) (k j : Nat) (largest : α) : Guarded (SingularTriples α) := do
  let values ← write t.values j (← read t.values k)
  return {
    values := ← write values k largest
    left := ← swapColumns t.left j k
    right := ← swapColumns t.right j k }

/-- Brings the largest remaining value to place `k`. -/
def place (t : SingularTriples α) (k : Nat) : Guarded (SingularTriples α) := do
  let (j, largest) ← largestFrom t.values k
  if j = k then return t else exchange t k j largest

def sorted (t : SingularTriples α) : Guarded (SingularTriples α) := (List.range t.values.size).foldlM place t

/-- The floor that `rule` puts under the norms of `A`. -/
def normFloor (policy : Policy α) (rule : FloorRule) (A : DenseMatrix α) : Guarded (NormFloor α) := do
  match rule with
  | .refuse =>
    let largest ← maxColumnNormSq A
    return ⟨policy.normFloor, some (largest * policy.convergenceEta * policy.convergenceEta)⟩
  | .flush => return ⟨policy.normFloor, none⟩

/-- Bidiagonal entries up to this are negligible. -/
def negligible (policy : Policy α) (r : Reduction α) : Guarded α := do
  let largest ← (List.range r.diag.size).foldlM
    (fun best k => do return Scalar.larger best ((← read r.diag k) + (← read r.superDiag k))) 0
  return largest * policy.convergenceEta

/-- Sorts the settled values and applies the reflections to the rotations. -/
def assemble (r : Reduction α) (st : Iteration α) : Guarded (SingularTriples α) := do
  let t ← sorted ⟨st.diag, st.left, st.right⟩
  return { t with left := ← accumulateLeft r t.left, right := ← accumulateRight r t.right }

/-- The attempt on a matrix with at least as many rows as columns. -/
def tall (policy : Policy α) (rule : FloorRule) (A : DenseMatrix α) :
    Guarded (Except Breakdown (SingularTriples α)) := do
  match ← upTo (← normFloor policy rule A) A A.cols with
  | none => return .error .flooredNorm
  | some r =>
    match ← diagonalize (Reference.iteration A r) (← negligible policy r) policy.maxSweeps.toNat with
    | .error breakdown => return .error breakdown
    | .ok st => if st.diag.all Scalar.isFinite then return .ok (← assemble r st) else return .error .nonFinite

/-- The orientation with no more columns than rows. -/
def tallForm (A : DenseMatrix α) : Guarded (DenseMatrix α) := if A.rows < A.cols then adjoint A else .ok A

/-- One attempt, on either orientation. -/
def attempt (policy : Policy α) (rule : FloorRule) (A : DenseMatrix α) :
    Guarded (Except Breakdown (Decomposition α)) := do
  return (← tall policy rule (← tallForm A)).map (Reference.oriented A)

/-- An integer power; a negative exponent inverts the positive power. -/
def powInt (base : α) (exponent : Int) : Guarded α :=
  let power := Scalar.powAcc base 1 exponent.natAbs
  if exponent < 0 then divide 1 power else .ok power

/-- No allowed rescaling lifts the largest column above the floor. -/
def belowReach (policy : Policy α) (A : DenseMatrix α) : Guarded Bool := do
  let largest ← maxColumnNormSq A
  let power ← powInt policy.rescaleFactor (reachExponent policy.maxRetries)
  return decide (0 < largest) && decide (largest * power ≤ policy.normFloor)

/-- The decomposition of an input, from one of its copy after `tries` rescalings. -/
def compensate (policy : Policy α) (tries : Nat) (r : Decomposition α) : Guarded (Decomposition α) := do
  let compensation ← powInt policy.rescaleFactor (Int32.ofNat tries).toInt
  return { r with values := ← r.values.mapM fun value => divide value compensation }

/-- Up to `left` further attempts, each on the input rescaled once more. -/
def retry (policy : Policy α) : (left tries : Nat) → DenseMatrix α → Guarded (Option (Decomposition α))
  | 0, _, _ => .ok none
  | left + 1, tries, A => do
    let scaled ← scale A policy.rescaleFactor
    match ← attempt policy .refuse scaled with
    | .ok r => return some (← compensate policy (tries + 1) r)
    | .error _ => retry policy left (tries + 1) scaled

/-- The decomposition by as many attempts as the policy allows. -/
def decompose (policy : Policy α) (A : DenseMatrix α) : Guarded (Except (Error α) (Decomposition α)) := do
  if ← belowReach policy A then
    return (← attempt policy .flush A).mapError fun _ => .retryExhausted 0
  else match ← attempt policy .refuse A with
    | .ok r => return .ok r
    | .error _ =>
      match ← retry policy policy.maxRetries.toNat 0 A with
      | some r => return .ok r
      | none => return .error (.retryExhausted policy.maxRetries.toNat)

end Definitions

section Sorting
variable {n k : ℕ} {t : SingularTriples ℝ}

private theorem largestFrom_eq (values : Array ℝ) (k : ℕ) :
    largestFrom values k = .ok (SingularTriples.largestFrom values k) := by
  apply foldlM_eq_of_forall
  intro i member best
  rw [List.mem_range'_1] at member
  rw [champion, read_eq (by omega)]
  rfl

private theorem exchange_eq (left : t.values.size ≤ t.left.cols) (right : t.values.size ≤ t.right.cols) {j : ℕ}
    (first : j < t.values.size) (second : k < t.values.size) (largest : ℝ) :
    exchange t k j largest = .ok (t.exchange k j largest) := by
  rw [exchange, read_eq second, ok_bind, write_eq first, ok_bind, write_eq (by simpa using second), ok_bind,
    swapColumns_eq (first.trans_le left) (second.trans_le left), ok_bind,
    swapColumns_eq (first.trans_le right) (second.trans_le right)]
  rfl

theorem place_eq (left : t.values.size ≤ t.left.cols) (right : t.values.size ≤ t.right.cols)
    (inside : k < t.values.size) : place t k = .ok (t.place k) := by
  rw [place, largestFrom_eq, ok_bind, SingularTriples.place_eq]
  dsimp only
  split
  · rfl
  · next elsewhere =>
    have bound := (SingularTriples.largestFrom_mem t.values inside).resolve_left elsewhere
    exact exchange_eq left right bound.1 inside _

private theorem sorted_eq (left : t.values.size ≤ t.left.cols) (right : t.values.size ≤ t.right.cols) :
    sorted t = .ok t.sorted := by
  -- placing a value keeps the extents, so the next one is exchanged within them
  apply foldlM_eq
    (P := fun t' => t'.values.size = t.values.size ∧ t.values.size ≤ t'.left.cols ∧ t.values.size ≤ t'.right.cols)
    ⟨rfl, left, right⟩
  rintro k member t' ⟨size, left', right'⟩
  have inside : k < t.values.size := List.mem_range.mp member
  obtain ⟨p, moved⟩ := SingularTriples.place_rearranges size left' right' inside
  refine ⟨place_eq (size ▸ left') (size ▸ right') (size ▸ inside), moved.size.trans size, ?_, ?_⟩
  · exact left'.trans_eq (congrArg Prod.snd moved.leftShape).symm
  · exact right'.trans_eq (congrArg Prod.snd moved.rightShape).symm

end Sorting

section Attempts
variable {m n : ℕ} {policy : Policy ℝ} {rule : FloorRule} {A : DenseMatrix ℝ}

private theorem normFloor_eq (policy : Policy ℝ) (rule : FloorRule) (A : DenseMatrix ℝ) :
    normFloor policy rule A = .ok (Reference.normFloor policy rule A) := by
  cases rule with
  | refuse =>
    rw [normFloor, maxColumnNormSq_eq]
    rfl
  | flush => rfl

private theorem negligible_eq {r : Reduction ℝ} (sized : r.Sized m n) (policy : Policy ℝ) :
    negligible policy r = .ok (Reference.negligible policy r) := by
  have largest : (List.range r.diag.size).foldlM
      (fun best k => do return Scalar.larger best ((← read r.diag k) + (← read r.superDiag k))) 0 =
        (.ok ((List.range r.diag.size).foldl
          (fun best k => Scalar.larger best (r.diag.getD k 0 + r.superDiag.getD k 0)) 0) : Guarded ℝ) := by
    apply foldlM_eq_of_forall
    intro k member best
    have inside : k < r.diag.size := List.mem_range.mp member
    rw [read_eq inside, read_eq (by rwa [sized.superSize, ← sized.diagSize])]
    rfl
  rw [negligible, largest]
  rfl

private theorem assemble_eq {r : Reduction ℝ} {st : Iteration ℝ} (pivoted : r.Pivoted) (sized : r.Sized m n) (tall : n ≤ m)
    (regular : st.Regular m n) : assemble r st = .ok (Reference.assemble r st) := by
  have left : st.diag.size ≤ st.left.cols := by rwa [regular.diagSize, regular.left.cols]
  have right : st.diag.size ≤ st.right.cols := by rw [regular.diagSize, regular.right.cols]
  obtain ⟨p, moved⟩ := SingularTriples.sorted_rearranges (t := ⟨st.diag, st.left, st.right⟩) left right
  rw [assemble, sorted_eq left right, ok_bind,
    accumulateLeft_eq pivoted sized tall (moved.leftShape.trans regular.left.shape), ok_bind,
    accumulateRight_eq pivoted sized tall (moved.rightShape.trans regular.right.shape)]
  rfl

theorem tall_eq (floor : 0 ≤ policy.normFloor) (eta : 0 ≤ policy.convergenceEta) (rule : FloorRule)
    (upright : A.cols ≤ A.rows) : tall policy rule A = .ok (Reference.tall policy rule A) := by
  have shape : A.shape = (A.rows, A.cols) := rfl
  have floor' : 0 ≤ (Reference.normFloor policy rule A).floor := floor
  rw [tall, normFloor_eq, ok_bind, upTo_eq floor' shape upright le_rfl, ok_bind, Reference.tall,
    DenseMatrix.bidiagonalize]
  cases reduced : Reduction.upTo (Reference.normFloor policy rule A) A A.cols with
  | none => rfl
  | some r =>
    have sized := Reduction.upTo_sized shape upright le_rfl reduced
    have pivoted := Reduction.upTo_pivoted floor' shape upright le_rfl reduced
    have regular := Reference.iteration_regular sized shape upright
    have nonneg := Reference.negligible_nonneg eta r
    dsimp only
    rw [negligible_eq sized, ok_bind, diagonalize_eq regular nonneg, ok_bind]
    cases settled : (Reference.iteration A r).diagonalize (Reference.negligible policy r) policy.maxSweeps.toNat with
    | error breakdown => rfl
    | ok st =>
      have regular' := (Iteration.diagonalize_sound regular nonneg settled).1
      dsimp only
      split
      · rw [assemble_eq pivoted sized upright regular']
        rfl
      · rfl

private theorem tallForm_eq (A : DenseMatrix ℝ) : tallForm A = .ok (Reference.tallForm A) := by
  rw [tallForm, Reference.tallForm]
  split
  · exact adjoint_eq A
  · rfl

theorem attempt_eq (floor : 0 ≤ policy.normFloor) (eta : 0 ≤ policy.convergenceEta) (rule : FloorRule)
    (A : DenseMatrix ℝ) : attempt policy rule A = .ok (Reference.attempt policy rule A) := by
  have extents := Reference.shape_tallForm A
  have upright : (Reference.tallForm A).cols ≤ (Reference.tallForm A).rows := by
    rw [DenseMatrix.rows_of_shape extents, DenseMatrix.cols_of_shape extents]
    exact min_le_max
  rw [attempt, tallForm_eq, ok_bind, tall_eq floor eta rule upright, Reference.attempt_eq_tall]
  rfl

end Attempts

section Retries
variable {policy : Policy ℝ}

theorem power_pos {base : ℝ} (positive : 0 < base) (exponent : ℕ) : 0 < Scalar.powAcc base 1 exponent := by
  rw [Scalar.powAcc_exact, one_mul]
  exact pow_pos positive exponent

private theorem powInt_eq {base : ℝ} (positive : 0 < base) (exponent : ℤ) :
    powInt base exponent = .ok (Scalar.powInt base exponent) := by
  unfold powInt Scalar.powInt
  dsimp only
  split
  · exact divide_eq (power_pos positive _).ne'
  · rfl

/-- What the values are divided by is positive, also where the exponent has wrapped. -/
theorem compensation_pos (factor : 0 < policy.rescaleFactor) (tries : ℕ) :
    0 < Reference.compensation policy tries := by
  unfold Reference.compensation Scalar.powInt
  dsimp only
  split
  · exact one_div_pos.mpr (power_pos factor _)
  · exact power_pos factor _

private theorem belowReach_eq (factor : 0 < policy.rescaleFactor) (A : DenseMatrix ℝ) :
    belowReach policy A = .ok (Reference.belowReach policy A) := by
  rw [belowReach, maxColumnNormSq_eq, ok_bind, powInt_eq factor]
  rfl

private theorem compensate_eq (factor : 0 < policy.rescaleFactor) (tries : ℕ) (r : Decomposition ℝ) :
    compensate policy tries r = .ok (Reference.compensate policy tries r) := by
  rw [compensate, powInt_eq factor, ok_bind,
    mapM_eq (g := fun value => value / Reference.compensation policy tries)]
  · rfl
  · intro value _
    exact divide_eq (compensation_pos factor tries).ne'

private theorem retry_eq (floor : 0 ≤ policy.normFloor) (eta : 0 ≤ policy.convergenceEta) (factor : 0 < policy.rescaleFactor)
    (left tries : ℕ) (A : DenseMatrix ℝ) :
    retry policy left tries A = .ok (Reference.retry policy left tries A) := by
  induction left generalizing tries A with
  | zero => rfl
  | succ left ih =>
    rw [retry, scale_eq, ok_bind, attempt_eq floor eta, ok_bind, Reference.retry]
    cases Reference.attempt policy .refuse (A.scale policy.rescaleFactor) with
    | ok r =>
      dsimp only
      rw [compensate_eq factor]
      rfl
    | error breakdown => exact ih (tries + 1) (A.scale policy.rescaleFactor)

theorem decompose_eq (floor : 0 ≤ policy.normFloor) (eta : 0 ≤ policy.convergenceEta)
    (factor : 0 < policy.rescaleFactor) (A : DenseMatrix ℝ) :
    decompose policy A = .ok (Reference.decompose policy A) := by
  rw [decompose, belowReach_eq factor, ok_bind, Reference.decompose]
  split
  · rw [attempt_eq floor eta]
    rfl
  · rw [attempt_eq floor eta, ok_bind]
    cases Reference.attempt policy .refuse A with
    | ok r => rfl
    | error breakdown =>
      dsimp only
      rw [retry_eq floor eta factor, ok_bind]
      cases Reference.retry policy policy.maxRetries.toNat 0 A <;> rfl

/-- With a floor and a convergence threshold that are not negative and a positive rescaling factor, no
attempt divides by zero or leaves the range of an array or a matrix: neither at the input nor at any
rescaled copy, whichever rule the floor follows. Nor does the whole run, which also divides by what the
rescalings multiplied by. -/
theorem decompose_faultless {policy : Policy ℝ} (floor : 0 ≤ policy.normFloor) (eta : 0 ≤ policy.convergenceEta)
    (factor : 0 < policy.rescaleFactor) (A : DenseMatrix ℝ) :
    (∀ rule tries, attempt policy rule (Reference.rescaled policy A tries) =
        .ok (Reference.attempt policy rule (Reference.rescaled policy A tries))) ∧
      decompose policy A = .ok (Reference.decompose policy A) :=
  ⟨fun rule tries => attempt_eq floor eta rule (Reference.rescaled policy A tries), decompose_eq floor eta factor A⟩

/-- The tiny block is refused at first and decomposed after one rescaling, both without a fault. -/
theorem decompose_faultless_tinyBlock :
    0 ≤ ({} : Policy ℝ).normFloor ∧ 0 ≤ ({} : Policy ℝ).convergenceEta ∧ 0 < ({} : Policy ℝ).rescaleFactor ∧
      ∃ breakdown found, attempt {} .refuse (Reference.rescaled {} Reference.tinyBlock 0) = .ok (.error breakdown) ∧
        attempt {} .refuse (Reference.rescaled {} Reference.tinyBlock 1) = .ok (.ok found) ∧
        decompose {} Reference.tinyBlock = .ok (.ok (Reference.compensate {} 1 found)) := by
  have floor : (0 : ℝ) ≤ 1.5e-34 := by norm_num
  have eta : (0 : ℝ) ≤ 1e-10 := by norm_num
  have factor : (0 : ℝ) < 1e2 := by norm_num
  obtain ⟨attempts, run⟩ : _ ∧ decompose {} Reference.tinyBlock = _ :=
    decompose_faultless floor eta factor Reference.tinyBlock
  obtain ⟨⟨breakdown, first⟩, found, second⟩ := Reference.tinyBlock_retried
  have done := Reference.decompose_eq_ok Reference.tinyBlock_reachable (by decide)
    (fun j before => Nat.lt_one_iff.mp before ▸ ⟨breakdown, first⟩) second
  refine ⟨floor, eta, factor, breakdown, found, ?_, ?_, ?_⟩
  · exact (attempts .refuse 0).trans (congrArg _ first)
  · exact (attempts .refuse 1).trans (congrArg _ second)
  · rw [run, done]
    rfl

end Retries

end BondSvd.Guarded
