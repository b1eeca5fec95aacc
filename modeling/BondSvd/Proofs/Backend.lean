import Mathlib.Data.List.Basic
import BondSvd.Backend

/-! What is made of the answer of a backend, whatever it answers. The comparison with the input lets an
answer pass or names the first entry that is off; it changes nothing, and the cutoff comes after it. -/
namespace BondSvd
universe u

private theorem positions_pairwise (rows cols : Nat) :
    (positions rows cols).Pairwise (Prod.Lex (· < ·) (· < ·)) := by
  rw [positions, List.pairwise_flatMap]
  constructor
  · intro i _
    rw [List.pairwise_map]
    exact List.pairwise_lt_range.imp fun less => Prod.Lex.right _ less
  · refine List.pairwise_lt_range.imp fun less => ?_
    simp only [List.mem_map, List.mem_range]
    rintro _ ⟨j, -, rfl⟩ _ ⟨j', -, rfl⟩
    exact Prod.Lex.left _ _ less

private theorem asymm_lex (p q : Nat × Nat) (before : Prod.Lex (· < ·) (· < ·) p q) : ¬Prod.Lex (· < ·) (· < ·) q p := by
  rw [Prod.lex_def] at *
  omega

/-- A search along an ordered list finds the first element that it accepts. -/
theorem find?_eq_some_iff_first {β : Type u} {before : β → β → Prop} (asymm : ∀ x y, before x y → ¬before y x)
    {values : List β} (ordered : values.Pairwise before) {accepts : β → Bool} {x : β} :
    values.find? accepts = some x ↔ x ∈ values ∧ accepts x = true ∧ ∀ y ∈ values, before y x → accepts y = false := by
  rw [List.find?_eq_some_iff_append]
  constructor
  · rintro ⟨accepted, front, back, rfl, refused⟩
    obtain ⟨-, behind, -⟩ := List.pairwise_append.mp ordered
    refine ⟨by simp, accepted, fun y member earlier => ?_⟩
    rcases List.mem_append.mp member with inFront | rest
    · simpa using refused y inFront
    · rcases List.mem_cons.mp rest with rfl | inBack
      · exact absurd earlier (asymm _ _ earlier)
      · exact absurd earlier (asymm _ _ ((List.pairwise_cons.mp behind).1 y inBack))
  · rintro ⟨member, accepted, refused⟩
    obtain ⟨front, back, rfl⟩ := List.append_of_mem member
    refine ⟨accepted, front, back, rfl, fun y inFront => ?_⟩
    have earlier : before y x := (List.pairwise_append.mp ordered).2.2 y inFront x (List.mem_cons_self ..)
    simpa using refused y (List.mem_append_left _ inFront) earlier

variable {α : Type u} [Scalar α] {A B : DenseMatrix α} {i j : Nat}

namespace DenseMatrix

/-- The entries of two matrices at a position agree within the tolerance of the comparison. -/
def AgreesAt (A B : DenseMatrix α) (i j : Nat) : Prop :=
  (A.entry i j).almostEqual (B.entry i j) Tolerance.drift = true

/-- Two matrices are apart at a position, and agree at all that come before it row by row. -/
structure FirstApart (A B : DenseMatrix α) (i j : Nat) : Prop where
  row : i < A.rows
  col : j < A.cols
  apart : ¬A.AgreesAt B i j
  before : ∀ i' j', i' < A.rows → j' < A.cols → i' < i ∨ i' = i ∧ j' < j → A.AgreesAt B i' j'

private theorem firstMismatch_eq_some_iff : A.firstMismatch B = some (i, j) ↔ A.FirstApart B i j := by
  rw [firstMismatch, find?_eq_some_iff_first asymm_lex (positions_pairwise A.rows A.cols), mem_positions]
  simp only [Bool.not_eq_eq_eq_not, Bool.not_true, Bool.not_false]
  constructor
  · rintro ⟨⟨row, col⟩, apart, before⟩
    refine ⟨row, col, Bool.eq_false_iff.mp apart, fun i' j' row' col' earlier => ?_⟩
    exact before (i', j') (mem_positions.mpr ⟨row', col'⟩) (Prod.lex_def.mpr earlier)
  · intro first
    refine ⟨⟨first.row, first.col⟩, Bool.eq_false_iff.mpr first.apart, ?_⟩
    rintro ⟨i', j'⟩ member earlier
    obtain ⟨row, col⟩ := mem_positions.mp member
    exact first.before i' j' row col (Prod.lex_def.mp earlier)

private theorem firstMismatch_eq_none_iff :
    A.firstMismatch B = none ↔ ∀ i j, i < A.rows → j < A.cols → A.AgreesAt B i j := by
  rw [firstMismatch, List.find?_eq_none]
  constructor
  · intro agree i j row col
    have same := agree (i, j) (mem_positions.mpr ⟨row, col⟩)
    simpa only [Bool.not_eq_true, Bool.not_eq_false', AgreesAt] using same
  · rintro agree ⟨i, j⟩ member
    obtain ⟨row, col⟩ := mem_positions.mp member
    have same : (A.entry i j).almostEqual (B.entry i j) Tolerance.drift = true := agree i j row col
    simp [same]

end DenseMatrix

namespace Decomposition
variable {r : Decomposition α} {expected actual : Cplx α}

/-- An answer passes where it rebuilds a matrix of the shape of the input that agrees with it everywhere. -/
theorem validate_eq_ok_iff : r.validate A = .ok () ↔
    r.rebuild.shape = A.shape ∧ ∀ i j, i < A.rows → j < A.cols → A.AgreesAt r.rebuild i j := by
  rw [← DenseMatrix.firstMismatch_eq_none_iff, validate]
  by_cases shape : r.rebuild.shape = A.shape
  · rw [if_pos shape]
    cases A.firstMismatch r.rebuild <;> simp [shape]
  · simp [shape]

/-- A mismatch is reported for the first entry that is apart, with what stands there on both sides. -/
theorem validate_eq_mismatch_iff : r.validate A = .error (.validationMismatch i j expected actual) ↔
    r.rebuild.shape = A.shape ∧ A.FirstApart r.rebuild i j ∧
      expected = A.entry i j ∧ actual = r.rebuild.entry i j := by
  rw [← DenseMatrix.firstMismatch_eq_some_iff, validate]
  by_cases shape : r.rebuild.shape = A.shape
  · rw [if_pos shape]
    cases found : A.firstMismatch r.rebuild with
    | none => simp
    | some position =>
      simp only [Except.error.injEq, Error.validationMismatch.injEq, Option.some.injEq, shape, true_and]
      constructor
      · rintro ⟨rfl, rfl, rfl, rfl⟩
        exact ⟨rfl, rfl, rfl⟩
      · rintro ⟨rfl, rfl, rfl⟩
        exact ⟨rfl, rfl, rfl, rfl⟩
  · simp [shape]

/-- A wrong shape is reported for the outer extents of the factors only. -/
theorem validate_eq_shape_iff {fault : ShapeFault} : r.validate A = .error (.shapeMismatch fault) ↔
    (r.left.rows ≠ A.rows ∨ r.rightAdjoint.cols ≠ A.cols) ∧
      fault = .rebuilt (r.left.rows, r.rightAdjoint.cols) A.shape := by
  have same : r.rebuild.shape = A.shape ↔ r.left.rows = A.rows ∧ r.rightAdjoint.cols = A.cols :=
    iff_of_eq (Prod.mk.injEq ..)
  rw [validate, ← not_and_or, ← same]
  by_cases shape : r.rebuild.shape = A.shape
  · rw [if_pos shape]
    cases A.firstMismatch r.rebuild <;> simp [shape]
  · rw [if_neg shape, and_iff_right shape, rebuild_shape, Except.error.injEq, Error.shapeMismatch.injEq, eq_comm]

end Decomposition

/-- The same policy with the comparison switched on or off. -/
def Policy.comparing (policy : Policy α) (compares : Bool) : Policy α := { policy with validate := compares }

namespace Backend
variable {backend : Backend α} {policy : Policy α} {compares : Bool} {answer result : Decomposition α}
  {error : Error α}

/-- An answer with the record of a cut that removed something is not compared with the input. -/
def Shortened (answer : Decomposition α) : Prop :=
  ∃ record, answer.truncation = some record ∧ record.reducedExtent < record.fullExtent

/-- There is a bound on the size of the values. -/
def HasCutoff (policy : Policy α) : Prop := 0 < policy.absCutoff ∨ 0 < policy.relCutoff

omit [Scalar α] in
private theorem skipsValidation_iff : skipsValidation answer = true ↔ Shortened answer := by
  unfold skipsValidation Shortened
  cases answer.truncation <;> simp [TruncationRecord.isTruncated]

private theorem isActive_ofPolicy_iff : (Cutoff.ofPolicy policy).isActive = true ↔ HasCutoff policy := by
  rw [Cutoff.isActive, Bool.or_eq_true, decide_eq_true_iff, decide_eq_true_iff]
  rfl

private theorem applyCutoff_of_kept (kept : answer.truncation.isSome = true ∨ ¬HasCutoff policy) :
    applyCutoff policy answer = answer := by
  rw [← isActive_ofPolicy_iff] at kept
  refine if_neg fun cutting => ?_
  obtain ⟨active, whole⟩ := Bool.and_eq_true_iff.mp cutting
  rcases kept with recorded | inactive
  · rw [← Option.not_isSome, recorded] at whole
    cases whole
  · exact inactive active

private theorem applyCutoff_of_cut (whole : answer.truncation = none) (active : HasCutoff policy) :
    applyCutoff policy answer =
      { (answer.cut (Cutoff.ofPolicy policy)).1 with
        truncation := some (answer.cut (Cutoff.ofPolicy policy)).2 } := by
  have cutting : ((Cutoff.ofPolicy policy).isActive && answer.truncation.isNone) = true := by
    rw [isActive_ofPolicy_iff.mpr active, whole]
    rfl
  exact if_pos cutting

private theorem finish_off : finish (policy.comparing false) A answer = .ok (applyCutoff policy answer) := rfl

private theorem finish_of_shortened (shortened : Shortened answer) :
    finish (policy.comparing compares) A answer = .ok (applyCutoff policy answer) := by
  have skipped : check (policy.comparing compares) A answer = .ok () := by
    rw [check, skipsValidation_iff.mpr shortened, Bool.not_true, Bool.and_false]
    rfl
  rw [finish, skipped]
  rfl

private theorem finish_of_compared (compared : ¬Shortened answer) :
    finish (policy.comparing true) A answer = (answer.validate A).map fun _ => applyCutoff policy answer := by
  have checked : check (policy.comparing true) A answer = answer.validate A := by
    rw [check, Bool.eq_false_iff.mpr (mt skipsValidation_iff.mp compared)]
    rfl
  rw [finish, checked]
  rfl

/-- Whatever passes comes out as it would without the comparison. -/
theorem eq_applyCutoff_of_finish (done : finish (policy.comparing compares) A answer = .ok result) :
    result = applyCutoff policy answer := by
  rw [finish] at done
  cases checked : check (policy.comparing compares) A answer with
  | ok =>
    rw [checked] at done
    exact (Except.ok.inj done).symm
  | error =>
    rw [checked] at done
    cases done

theorem decompose_of_answer (answered : (backend.run policy A).result = .ok answer) :
    (backend.decompose policy A).result = finish policy A answer := by
  rw [decompose, Recorded.result_andThen, answered]
  rfl

private theorem decompose_of_error (refused : (backend.run policy A).result = .error error) :
    (backend.decompose policy A).result = .error error := by
  rw [decompose, Recorded.result_andThen, refused]
  rfl

/-- The comparison is a filter in front of the cutoff, whatever the backend is. An error of the backend
stays what it is. An answer is compared as it came, unless it is shortened already, and the comparison's
verdict decides; a mismatch names the first entry that is off. What passes comes out as it would without
the comparison: as it is, or cut once with the record of that cut. -/
theorem decompose_filters (backend : Backend α) (policy : Policy α) (A : DenseMatrix α) :
    (∀ compares error, (backend.run (policy.comparing compares) A).result = .error error →
      (backend.decompose (policy.comparing compares) A).result = .error error) ∧
    (∀ answer, (backend.run (policy.comparing true) A).result = .ok answer → ¬Shortened answer →
      ((∃ result, (backend.decompose (policy.comparing true) A).result = .ok result) ↔ answer.validate A = .ok ()) ∧
      (∀ error, (backend.decompose (policy.comparing true) A).result = .error error ↔
        answer.validate A = .error error) ∧
      ∀ i j expected actual, (backend.decompose (policy.comparing true) A).result =
          .error (.validationMismatch i j expected actual) ↔
        answer.rebuild.shape = A.shape ∧ A.FirstApart answer.rebuild i j ∧
          expected = A.entry i j ∧ actual = answer.rebuild.entry i j) ∧
    (∀ answer, (backend.run (policy.comparing true) A).result = .ok answer → Shortened answer →
      (backend.decompose (policy.comparing true) A).result = .ok answer) ∧
    (∀ answer result, (backend.run (policy.comparing true) A).result = .ok answer →
      (backend.decompose (policy.comparing true) A).result = .ok result →
      (answer.truncation.isSome = true ∨ ¬HasCutoff policy → result = answer) ∧
      (answer.truncation = none → HasCutoff policy →
        result = { (answer.cut (Cutoff.ofPolicy policy)).1 with
          truncation := some (answer.cut (Cutoff.ofPolicy policy)).2 }) ∧
      ((backend.run (policy.comparing false) A).result = .ok answer →
        (backend.decompose (policy.comparing false) A).result = .ok result)) := by
  refine ⟨fun compares error refused => decompose_of_error refused, fun answer answered compared => ?_,
    fun answer answered shortened => ?_, fun answer result answered done => ?_⟩
  · have verdict : ∀ error, (backend.decompose (policy.comparing true) A).result = .error error ↔
        answer.validate A = .error error := by
      intro error
      rw [decompose_of_answer answered, finish_of_compared compared]
      cases answer.validate A <;> simp [Except.map]
    refine ⟨?_, verdict, fun i j expected actual => ?_⟩
    · rw [decompose_of_answer answered, finish_of_compared compared]
      cases answer.validate A <;> simp [Except.map]
    · rw [verdict, Decomposition.validate_eq_mismatch_iff]
  · obtain ⟨record, recorded, -⟩ := id shortened
    have kept : answer.truncation.isSome = true := by rw [recorded, Option.isSome_some]
    rw [decompose_of_answer answered, finish_of_shortened shortened, applyCutoff_of_kept (.inl kept)]
  · rw [decompose_of_answer answered] at done
    obtain rfl := eq_applyCutoff_of_finish done
    exact ⟨applyCutoff_of_kept, applyCutoff_of_cut, fun answered => by rw [decompose_of_answer answered, finish_off]⟩

/-- An answer of extents one by one, with or without the record of a cut. -/
def scriptedAnswer (truncation : Option (TruncationRecord Float)) : Decomposition Float :=
  ⟨.identity 1, [1], .identity 1, .columns, truncation⟩

/-- A backend with the same answer to every input. -/
def scripted (truncation : Option (TruncationRecord Float)) : Backend Float :=
  ⟨"scripted", .columns, fun _ _ => .pure (scriptedAnswer truncation)⟩

/-- An answer of another shape than the input is refused, unless its record says that it is shortened. -/
theorem decompose_filters_scripted :
    ((scripted none).decompose (Policy.comparing {} true) (.identity 2)).result =
        .error (.shapeMismatch (.rebuilt (1, 1) (2, 2))) ∧
      ((scripted (some ⟨2, 1, 0⟩)).decompose (Policy.comparing {} true) (.identity 2)).result =
        .ok (scriptedAnswer (some ⟨2, 1, 0⟩)) := by
  have whole : ¬Shortened (scriptedAnswer none) := fun ⟨_, recorded, _⟩ => nomatch recorded
  have apart : (scriptedAnswer none).rebuild.shape ≠ (DenseMatrix.identity 2 : DenseMatrix Float).shape := by
    decide
  have refused : (scriptedAnswer none).validate (.identity 2) = .error (.shapeMismatch (.rebuilt (1, 1) (2, 2))) := by
    rw [Decomposition.validate, if_neg apart]
    rfl
  exact ⟨(((decompose_filters (scripted none) {} (.identity 2)).2.1 _ rfl whole).2.1 _).mpr refused,
    (decompose_filters (scripted (some ⟨2, 1, 0⟩)) {} (.identity 2)).2.2.1 _ rfl ⟨_, rfl, by decide⟩⟩

end Backend
end BondSvd
