import Mathlib
import BondSvd.Proofs.Backend
import BondSvd.Proofs.Binary64.Comparison
import BondSvd.Proofs.Binary64.NonFinite
import BondSvd.Proofs.Descending.Laws

/-! What the checks accept in binary64. A comparison that accepts a small gap rejects a gap that is no
number, and one that rejects a large defect accepts a defect that is no number. The gap of an infinity
to another number is infinite, and so is the slack that is granted beside an infinity. -/
namespace BondSvd.Binary64
open Float.Model (UnpackedFloat Format)

section Unpacked
variable {u v : UnpackedFloat}

/-- A difference is undefined where a side is, and between an infinity and itself. -/
theorem unpacked_sub_cases (u v : UnpackedFloat) :
    (u.isFinite = true ∧ v.isFinite = true) ∨
      (UnpackedFloat.sub Format.binary64 u v = .notANumber ∧ u.lt v = false ∧ v.lt u = false) ∨
      ((∃ s, UnpackedFloat.sub Format.binary64 u v = .infinity s) ∧ (u.isInf = true ∨ v.isInf = true) ∧
        u.isNaN = false ∧ v.isNaN = false ∧ (u.lt v = true ∨ v.lt u = true)) := by
  rcases u with (_ | _) | _ | (_ | _) | ⟨_ | _, m, e, _⟩ <;> rcases v with (_ | _) | _ | (_ | _) | ⟨_ | _, n, f, _⟩
  all_goals first
    | exact .inl ⟨rfl, rfl⟩
    | exact .inr (.inl ⟨rfl, rfl, rfl⟩)
    | exact .inr (.inr ⟨⟨_, rfl⟩, .inl rfl, rfl, rfl, .inl rfl⟩)
    | exact .inr (.inr ⟨⟨_, rfl⟩, .inl rfl, rfl, rfl, .inr rfl⟩)
    | exact .inr (.inr ⟨⟨_, rfl⟩, .inr rfl, rfl, rfl, .inl rfl⟩)
    | exact .inr (.inr ⟨⟨_, rfl⟩, .inr rfl, rfl, rfl, .inr rfl⟩)

end Unpacked

variable {x y slack : Float}

section Infinite
variable {s : UnpackedFloat.Sign}

private theorem neg_isFinite (finite : x.isFinite = true) : (-x).isFinite = true := by
  change x.toModel.unpack.isFinite = true at finite
  change (Float.Model.pack x.toModel.unpack.neg).unpack.isFinite = true
  cases unpacked : x.toModel.unpack with
  | infinity s => rw [unpacked] at finite; cases finite
  | notANumber => rw [unpacked] at finite; cases finite
  | zero s => cases s <;> rfl
  | finite s m e positive =>
    obtain ⟨-, small, -⟩ := unpack_canonical unpacked
    rw [UnpackedFloat.neg]
    obtain ⟨-, large⟩ | zero | ⟨n, f, positive', stored⟩ := @unpack_pack_finite (-s) m e positive
    · omega
    · rw [zero]; rfl
    · rw [stored]; rfl

private theorem abs_isFinite (finite : x.isFinite = true) : (Scalar.abs x).isFinite = true := by
  unfold Scalar.abs
  split
  · exact neg_isFinite finite
  · exact finite

theorem unpack_abs_of_infinite (infinite : x.toModel.unpack = .infinity s) :
    (Scalar.abs x).toModel.unpack = .infinity .positive := by
  have zero : (0 : Float).toModel.unpack = .zero .positive := rfl
  unfold Scalar.abs
  cases s with
  | negative =>
    have below : x < (0 : Float) := by
      rw [lt_iff, infinite, zero]
      rfl
    rw [if_pos below]
    change (Float.Model.pack x.toModel.unpack.neg).unpack = _
    rw [infinite]
    rfl
  | positive =>
    have above : ¬x < (0 : Float) := by
      rw [lt_iff, infinite, zero]
      exact Bool.false_ne_true
    rw [if_neg above, infinite]

private theorem isInf_iff : x.isInf = true ↔ ∃ s, x.toModel.unpack = .infinity s := by
  change x.toModel.unpack.isInf = true ↔ _
  cases x.toModel.unpack <;> simp [UnpackedFloat.isInf]

private theorem isFinite_of_number (number : x.isNaN = false) (bounded : ¬x.isInf = true) : x.isFinite = true :=
  isFinite_iff.mpr ⟨Bool.eq_false_iff.mpr bounded, number⟩

private theorem unpack_larger_of_infinite (infinite : x.isInf = true ∨ y.isInf = true) (number : x.isNaN = false) :
    (Scalar.larger (Scalar.abs x) (Scalar.abs y)).toModel.unpack = .infinity .positive := by
  unfold Scalar.larger
  by_cases first : x.isInf = true
  · obtain ⟨s, unpacked⟩ := isInf_iff.mp first
    have top := unpack_abs_of_infinite unpacked
    have above : ¬Scalar.abs x < Scalar.abs y := by
      rw [lt_iff, top]
      cases (Scalar.abs y).toModel.unpack with
      | infinity s => cases s <;> exact Bool.false_ne_true
      | _ => exact Bool.false_ne_true
    have reflexive : Scalar.abs x ≤ Scalar.abs x := by
      rw [le_iff, top]
      rfl
    rw [if_neg above, if_pos reflexive, top]
  · obtain ⟨s, unpacked⟩ := isInf_iff.mp (infinite.resolve_left first)
    have top := unpack_abs_of_infinite unpacked
    have below : Scalar.abs x < Scalar.abs y := by
      rw [lt_iff, top]
      exact lt_of_infinite rfl Bool.false_ne_true (abs_isFinite (isFinite_of_number number first))
    rw [if_pos below, top]

/-- The slack granted beside an infinity is infinite. -/
theorem unpack_slack_of_infinite (infinite : x.isInf = true ∨ y.isInf = true) (number : x.isNaN = false) :
    (Scalar.larger (Scalar.abs x) (Scalar.abs y) * Tolerance.epsilon * 4.0).toModel.unpack = .infinity .positive := by
  have top := unpack_larger_of_infinite infinite number
  generalize Scalar.larger (Scalar.abs x) (Scalar.abs y) = largest at top
  have scaled : (largest * Tolerance.epsilon).toModel.unpack = .infinity .positive := by
    change (Float.Model.pack (UnpackedFloat.mul Format.binary64 largest.toModel.unpack
      (Tolerance.epsilon : Float).toModel.unpack)).unpack = _
    rw [top]
    rfl
  change (Float.Model.pack (UnpackedFloat.mul Format.binary64 (largest * Tolerance.epsilon).toModel.unpack
    (4.0 : Float).toModel.unpack)).unpack = _
  rw [scaled]
  rfl

end Infinite

/-- The gap between two finite numbers is within the slack, or within four units in the last place of the larger. -/
def Near (x y slack : Float) : Prop :=
  x.isFinite = true ∧ y.isFinite = true ∧
    (Scalar.abs (x - y) ≤ slack ∨
      Scalar.abs (x - y) ≤ Scalar.larger (Scalar.abs x) (Scalar.abs y) * Tolerance.epsilon * 4.0)

/-- Two different numbers of which one is infinite. -/
def Unbounded (x y : Float) : Prop := (x.isInf = true ∨ y.isInf = true) ∧ (x < y ∨ y < x)

private theorem not_le_of_isNaN (undefined : x.toModel.unpack = .notANumber) : ¬x ≤ y := by
  rw [le_iff, undefined]
  exact Bool.false_ne_true

private theorem unpack_abs_of_isNaN (undefined : x.toModel.unpack = .notANumber) :
    (Scalar.abs x).toModel.unpack = .notANumber := by
  have above : ¬x < (0 : Float) := by
    rw [lt_iff, undefined]
    exact Bool.false_ne_true
  rw [Scalar.abs, if_neg above, undefined]

private theorem unpack_sub (x y : Float) : (x - y).toModel.unpack =
    (Float.Model.pack (UnpackedFloat.sub Format.binary64 x.toModel.unpack y.toModel.unpack)).unpack := rfl

/-- Two numbers are almost equal where they are near, and also where they differ and one is infinite. -/
theorem almostEqual_iff : almostEqual x y slack = true ↔ Near x y slack ∨ Unbounded x y := by
  have accepted : almostEqual x y slack = true ↔ Scalar.abs (x - y) ≤ slack ∨
      Scalar.abs (x - y) ≤ Scalar.larger (Scalar.abs x) (Scalar.abs y) * Tolerance.epsilon * 4.0 := by
    simp only [almostEqual, Bool.or_eq_true, decide_eq_true_eq]
  rw [accepted, Near, Unbounded, lt_iff, lt_iff]
  rcases unpacked_sub_cases x.toModel.unpack y.toModel.unpack with
    ⟨left, right⟩ | ⟨undefined, notLess, notMore⟩ | ⟨⟨s, gap⟩, infinite, left, right, apart⟩
  · have left' : x.isFinite = true := left
    have right' : y.isFinite = true := right
    simp [left', right', (isFinite_iff.mp left').1, (isFinite_iff.mp right').1]
  · have none : (x - y).toModel.unpack = .notANumber := by
      rw [unpack_sub, undefined]
      rfl
    have refused (bound : Float) : ¬Scalar.abs (x - y) ≤ bound := not_le_of_isNaN (unpack_abs_of_isNaN none)
    simp [refused, notLess, notMore]
  · have wide : (x - y).toModel.unpack = .infinity s := by
      rw [unpack_sub, gap]
      cases s <;> rfl
    have within : Scalar.abs (x - y) ≤ Scalar.larger (Scalar.abs x) (Scalar.abs y) * Tolerance.epsilon * 4.0 := by
      rw [le_iff, unpack_abs_of_infinite wide, unpack_slack_of_infinite infinite left]
      rfl
    exact iff_of_true (.inr within) (.inr ⟨infinite, apart⟩)

/-- Matrices agree at a position where both parts of the entries are near or unbounded. -/
theorem agreesAt_iff {A B : DenseMatrix Float} {i j : ℕ} : A.AgreesAt B i j ↔
    (Near (A.entry i j).re (B.entry i j).re Tolerance.drift ∨ Unbounded (A.entry i j).re (B.entry i j).re) ∧
      (Near (A.entry i j).im (B.entry i j).im Tolerance.drift ∨ Unbounded (A.entry i j).im (B.entry i j).im) := by
  rw [DenseMatrix.AgreesAt, Cplx.almostEqual, Bool.and_eq_true, almostEqual_iff, almostEqual_iff]

private theorem not_lt_iff (number : y ≤ y) : ¬y < x ↔ x ≤ y ∨ x.isNaN = true := by
  constructor
  · intro notAbove
    cases undefined : x.isNaN with
    | false => exact .inl (le_of_not_lt number (le_self_iff.mpr undefined) notAbove)
    | true => exact .inr rfl
  · rintro (below | undefined) above
    · rw [lt_iff, lt_iff_rank] at above
      rw [le_iff, le_iff_rank] at below
      exact absurd above.2.2 (not_lt.mpr below.2.2)
    · rw [lt_iff, lt_iff_rank] at above
      exact absurd undefined (Bool.eq_false_iff.mp above.2.1)

private theorem isUnitary_iff {q : DenseMatrix Float} {tolerance : Float} (nonneg : 0 ≤ tolerance) :
    q.isUnitary tolerance = true ↔ ∀ i j, i < q.cols → j < q.cols →
      (q.orthonormalDefect i j).modulus ≤ tolerance ∨ (q.orthonormalDefect i j).modulus.isNaN = true := by
  have number : tolerance ≤ tolerance := le_self_right nonneg
  have each (i j : ℕ) : (!decide (tolerance < (q.orthonormalDefect i j).modulus)) = true ↔
      (q.orthonormalDefect i j).modulus ≤ tolerance ∨ (q.orthonormalDefect i j).modulus.isNaN = true := by
    rw [← not_lt_iff number, Bool.not_eq_true', decide_eq_false_iff_not]
  simp only [DenseMatrix.isUnitary, List.all_eq_true, List.mem_range, each]
  exact ⟨fun all i j row col => all i row j col, fun all i row j col => all i j row col⟩

/-- What the checks of a decomposition accept in binary64. No entry that is no number passes the comparison
with the input, but an infinite one passes beside any other number. Orthonormality accepts defects that are
no numbers. The check of the values accepts numbers only. -/
theorem checks_iff (A : DenseMatrix Float) (r : Decomposition Float) (q : DenseMatrix Float) {tolerance : Float}
    (nonneg : 0 ≤ tolerance) (values : List Float) :
    (r.validate A = .ok () ↔ r.rebuild.shape = A.shape ∧ ∀ i j, i < A.rows → j < A.cols →
      (Near (A.entry i j).re (r.rebuild.entry i j).re Tolerance.drift ∨
        Unbounded (A.entry i j).re (r.rebuild.entry i j).re) ∧
      (Near (A.entry i j).im (r.rebuild.entry i j).im Tolerance.drift ∨
        Unbounded (A.entry i j).im (r.rebuild.entry i j).im)) ∧
    (q.isUnitary tolerance = true ↔ ∀ i j, i < q.cols → j < q.cols →
      (q.orthonormalDefect i j).modulus ≤ tolerance ∨ (q.orthonormalDefect i j).modulus.isNaN = true) ∧
    (isDescending values = true ↔
      (∀ x ∈ values, x.isNaN = false ∧ 0 ≤ x) ∧ values.Pairwise fun x y => y ≤ x) := by
  refine ⟨?_, isUnitary_iff nonneg, ?_⟩
  · rw [Decomposition.validate_eq_ok_iff]
    simp only [agreesAt_iff]
  · rw [isDescending_iff_pairwise]
    have number (x : Float) : 0 ≤ x ↔ x.isNaN = false ∧ 0 ≤ x :=
      ⟨fun above => ⟨le_self_iff.mp (le_self_right above), above⟩, And.right⟩
    simp only [← number]

theorem checks_iff_zero :
    (0 : Float) ≤ 0 ∧ ((DenseMatrix.identity 1 : DenseMatrix Float).isUnitary 0 = true ↔
      ∀ i j, i < 1 → j < 1 →
        ((DenseMatrix.identity 1 : DenseMatrix Float).orthonormalDefect i j).modulus ≤ 0 ∨
          ((DenseMatrix.identity 1 : DenseMatrix Float).orthonormalDefect i j).modulus.isNaN = true) :=
  ⟨by decide +kernel,
    (checks_iff (.identity 1) ⟨.identity 1, [1], .identity 1, .columns, none⟩ (.identity 1)
      (by decide +kernel) [1]).2.1⟩

/-- A matrix with an infinite entry, and a decomposition of zero. -/
def infiniteEntry : DenseMatrix Float := .ofFn 1 1 fun _ _ => ⟨1.0 / 0.0, 0⟩

def zeroAnswer : Decomposition Float := ⟨.identity 1, [0], .identity 1, .columns, none⟩

/-- A column whose only entry is no number. -/
def undefinedColumn : DenseMatrix Float := .ofFn 1 1 fun _ _ => ⟨0.0 / 0.0, 0⟩

/-- Zero passes as the decomposition of an infinite entry, and NaN passes as a column of unit length. -/
theorem checks_accept_nonFinite :
    (zeroAnswer.validate infiniteEntry = .ok () ∧ (infiniteEntry.entry 0 0).re.isInf = true ∧
      (zeroAnswer.rebuild.entry 0 0).re.isFinite = true) ∧
    undefinedColumn.isUnitary 1e-6 = true ∧ ¬(undefinedColumn.orthonormalDefect 0 0).modulus ≤ 1e-6 := by
  have passes : infiniteEntry.firstMismatch zeroAnswer.rebuild = none :=
    Option.isNone_iff_eq_none.mp (by decide +kernel)
  have shape : zeroAnswer.rebuild.shape = infiniteEntry.shape := by decide +kernel
  have validated : zeroAnswer.validate infiniteEntry = .ok () := by
    rw [Decomposition.validate, if_pos shape, passes]
  have infinite : (infiniteEntry.entry 0 0).re.isInf = true := by decide +kernel
  have finite : (zeroAnswer.rebuild.entry 0 0).re.isFinite = true := by decide +kernel
  have unitary : undefinedColumn.isUnitary 1e-6 = true := by decide +kernel
  have undefined : decide ((undefinedColumn.orthonormalDefect 0 0).modulus ≤ 1e-6) = false := by decide +kernel
  exact ⟨⟨validated, infinite, finite⟩, unitary, of_decide_eq_false undefined⟩

end BondSvd.Binary64
