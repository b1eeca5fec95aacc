import Mathlib
import BondSvd.Proofs.Spectrum.Kept

namespace BondSvd
universe u

section Above
variable {values : List ℝ}

/-- In a descending list the values above a bound come first. -/
theorem takeWhile_above (sorted : values.Pairwise (· ≥ ·)) (bound : ℝ) :
    (values.takeWhile fun x => decide (bound < x)).length = values.countP fun x => decide (bound < x) := by
  induction values with
  | nil => rfl
  | cons x rest ih =>
    obtain ⟨largest, sorted⟩ := List.pairwise_cons.mp sorted
    by_cases above : bound < x
    · rw [List.takeWhile_cons_of_pos (by simpa using above), List.countP_cons_of_pos (by simpa using above),
        List.length_cons, ih sorted]
    · have below : rest.countP (fun y => decide (bound < y)) = 0 :=
        List.countP_eq_zero.mpr fun y member => by simpa using (largest y member).trans (not_lt.mp above)
      rw [List.takeWhile_cons_of_neg (by simpa using above), List.countP_cons_of_neg (by simpa using above), below]
      rfl

/-- The values above a bound are still all there after the others have been dropped. -/
theorem countP_take_above (sorted : values.Pairwise (· ≥ ·)) (bound : ℝ) :
    let above := fun x => decide (bound < x)
    max 1 ((values.take (max 1 (values.countP above))).countP above) = max 1 (values.countP above) := by
  intro above
  rcases Nat.eq_zero_or_pos (values.countP above) with none | some
  · have fewer := (List.take_sublist (max 1 (values.countP above)) values).countP_le (p := above)
    omega
  · have front : values.take (values.countP above) = values.takeWhile above := by
      rw [← takeWhile_above sorted]
      exact (List.prefix_iff_eq_take.mp (List.takeWhile_prefix above)).symm
    have all : (values.takeWhile above).countP above = (values.takeWhile above).length :=
      List.countP_eq_length.mpr fun x member => List.mem_takeWhile_imp member
    have positive : max 1 (values.countP above) = values.countP above := max_eq_right some
    rw [positive, front, all, takeWhile_above sorted, positive]

end Above

namespace Cutoff
variable {c : Cutoff ℝ} {values : List ℝ}

private theorem threshold_exact (c : Cutoff ℝ) (first : ℝ) : c.threshold first = max c.abs (c.rel * first) :=
  Scalar.larger_exact c.abs (c.rel * first)

private theorem isActive_iff : c.isActive = true ↔ 0 < c.abs ∨ 0 < c.rel := by
  rw [isActive, Bool.or_eq_true, decide_eq_true_eq, decide_eq_true_eq]

/-- An active cutoff retains the values above its threshold, and one where there is none. -/
theorem retained_of_active (active : c.isActive = true) (sorted : values.Pairwise (· ≥ ·)) (present : values ≠ []) :
    c.retained values = max 1 (values.countP fun x => decide (c.threshold (values.getD 0 0) < x)) := by
  obtain ⟨first, rest, rfl⟩ := List.exists_cons_of_ne_nil present
  have unfolded : c.retained (first :: rest) =
      max ((first :: rest).takeWhile fun x => decide (c.threshold first < x)).length 1 := if_pos active
  rw [unfolded, takeWhile_above sorted, max_comm]
  rfl

/-- What a cutoff has retained it retains once more. -/
theorem retained_take (active : c.isActive = true) (sorted : values.Pairwise (· ≥ ·)) (present : values ≠ []) :
    c.retained (values.take (c.retained values)) = c.retained values := by
  have kept := c.retained_pos present
  have some : values.take (c.retained values) ≠ [] := by
    rw [Ne, List.take_eq_nil_iff]
    exact not_or.mpr ⟨kept.ne', present⟩
  have first : (values.take (c.retained values)).getD 0 0 = values.getD 0 0 := by
    simp [List.getD_eq_getElem?_getD, kept]
  rw [retained_of_active active (sorted.sublist (List.take_sublist _ _)) some, first,
    retained_of_active active sorted present]
  exact countP_take_above sorted _

end Cutoff

private theorem TruncationRecord.ofSpectrum_all (values : List ℝ) :
    ofSpectrum values values.length = ⟨values.length, values.length, 0⟩ := by
  simp [ofSpectrum]

namespace Decomposition
variable {r : Decomposition ℝ} {c : Cutoff ℝ}

theorem cut_of_fewer {α : Type u} [Scalar α] {r : Decomposition α} {c : Cutoff α}
    (fewer : c.retained r.values < r.values.length) : (r.cut c).1 = r.take (c.retained r.values) := by
  have truncated : (TruncationRecord.ofSpectrum r.values (c.retained r.values)).isTruncated = true :=
    decide_eq_true ((min_le_left _ _).trans_lt fewer)
  exact if_pos truncated

theorem cut_of_all {α : Type u} [Scalar α] {r : Decomposition α} {c : Cutoff α}
    (all : c.retained r.values = r.values.length) : (r.cut c).1 = r := by
  have whole : ¬(TruncationRecord.ofSpectrum r.values (c.retained r.values)).isTruncated = true :=
    fun truncated => (of_decide_eq_true truncated).ne (all ▸ min_self r.values.length)
  exact if_neg whole

theorem values_cut {α : Type u} [Scalar α] (r : Decomposition α) (c : Cutoff α) :
    (r.cut c).1.values = r.values.take (c.retained r.values) := by
  rcases (c.retained_le r.values).lt_or_eq with fewer | all
  · rw [cut_of_fewer fewer]
    rfl
  · rw [cut_of_all all, all, List.take_length]

private theorem length_cut {α : Type u} [Scalar α] (r : Decomposition α) (c : Cutoff α) :
    (r.cut c).1.values.length = c.retained r.values := by
  rw [values_cut, List.length_take_of_le (c.retained_le r.values)]

private theorem record_cut {α : Type u} [Scalar α] (r : Decomposition α) (c : Cutoff α) :
    (r.cut c).2 = TruncationRecord.ofSpectrum r.values (c.retained r.values) := rfl

private theorem cut_cut (active : c.isActive = true) (sorted : r.values.Pairwise (· ≥ ·)) (present : r.values ≠ []) :
    (r.cut c).1.cut c = ((r.cut c).1, ⟨c.retained r.values, c.retained r.values, 0⟩) := by
  have all : c.retained (r.cut c).1.values = (r.cut c).1.values.length := by
    rw [values_cut, Cutoff.retained_take active sorted present, List.length_take_of_le (c.retained_le r.values)]
  refine Prod.ext (cut_of_all all) ?_
  rw [record_cut, all, TruncationRecord.ofSpectrum_all, length_cut]

/-- An active cutoff keeps the leading values above its threshold, at least one, with their vectors on both
sides, or everything where nothing is below. Its record counts the values before and after, and gives back
the mass of those that were removed. To cut once more with the same bounds changes nothing. -/
theorem cut_accounted (descending : isDescending r.values = true) (present : r.values ≠ [])
    (left : r.values.length ≤ r.left.cols) (right : r.values.length ≤ r.rightAdjoint.rows)
    (active : 0 < c.abs ∨ 0 < c.rel) :
    let bound := max c.abs (c.rel * r.values.getD 0 0)
    let k := max 1 (r.values.countP fun x => decide (bound < x))
    let kept := (r.cut c).1
    let record := (r.cut c).2
    kept.values = r.values.take k ∧ kept.values.length = k ∧
      ((k = r.values.length ∧ kept = r) ∨
        (k < r.values.length ∧ kept.left.IsLeadingCols r.left k ∧
          (match r.convention with
          | .columns => kept.right.IsLeadingCols r.right k
          | .adjoint => kept.right.IsLeadingRows r.right k) ∧
          kept.convention = r.convention ∧ kept.truncation = r.truncation)) ∧
      record.fullExtent = r.values.length ∧ record.reducedExtent = kept.values.length ∧
      record.discardedMass kept.values = mass (r.values.drop k) ∧
      kept.cut c = (kept, ⟨k, k, 0⟩) := by
  intro bound k kept record
  obtain ⟨-, sorted⟩ := isDescending_iff.mp descending
  have active := Cutoff.isActive_iff.mpr active
  have retained : c.retained r.values = k := by
    rw [Cutoff.retained_of_active active sorted present, Cutoff.threshold_exact]
  have inside : k ≤ r.values.length := retained ▸ c.retained_le r.values
  have values : kept.values = r.values.take k := retained ▸ values_cut r c
  have length : kept.values.length = k := retained ▸ length_cut r c
  refine ⟨values, length, ?_, rfl, ?_, ?_, ?_⟩
  · rcases inside.lt_or_eq with fewer | all
    · have taken : kept = r.take k := by
        rw [← retained]
        exact cut_of_fewer (retained.trans_lt fewer)
      obtain ⟨leftPart, rightPart⟩ := r.take_isLeading (fewer.le.trans left) (fewer.le.trans right)
      rw [taken]
      exact .inr ⟨fewer, leftPart, rightPart, rfl, rfl⟩
    · exact .inl ⟨all, cut_of_all (retained.trans all)⟩
  · rw [length, ← retained]
    exact min_eq_left (c.retained_le r.values)
  · have recorded : record = .ofSpectrum r.values k := retained ▸ record_cut r c
    rw [recorded, values]
    exact TruncationRecord.discardedMass_ofSpectrum descending (Nat.lt_of_lt_of_le Nat.one_pos (le_max_left _ _))
  · rw [← retained]
    exact cut_cut active sorted present

/-- Three values of which the last one lies on the bound of a cutoff. -/
noncomputable def graded : Decomposition ℝ := ⟨.identity 3, [4.0, 2.0, 1], .identity 3, .adjoint, none⟩

theorem cut_accounted_graded :
    isDescending graded.values = true ∧ graded.values ≠ [] ∧ graded.values.length ≤ graded.left.cols ∧
      graded.values.length ≤ graded.rightAdjoint.rows ∧ ((0 : ℝ) < 1 ∨ (0 : ℝ) < 1 / 4) ∧
      (graded.cut ⟨1, 1 / 4⟩).1.values = [4.0, 2.0] ∧
      (graded.cut ⟨1, 1 / 4⟩).1.left.IsLeadingCols graded.left 2 ∧
      (graded.cut ⟨1, 1 / 4⟩).1.right.IsLeadingRows graded.right 2 ∧
      (graded.cut ⟨1, 1 / 4⟩).2.discardedMass (graded.cut ⟨1, 1 / 4⟩).1.values = 1 ∧
      (graded.cut ⟨1, 1 / 4⟩).1.cut ⟨1, 1 / 4⟩ = ((graded.cut ⟨1, 1 / 4⟩).1, ⟨2, 2, 0⟩) := by
  have values : graded.values = [4.0, 2.0, 1] := rfl
  have descending : isDescending graded.values = true := by
    rw [isDescending_iff, values]
    norm_num
  have present : graded.values ≠ [] := List.cons_ne_nil _ _
  have active : (0 : ℝ) < 1 ∨ (0 : ℝ) < 1 / 4 := .inl one_pos
  have two : max 1 (graded.values.countP fun x => decide (max 1 (1 / 4 * graded.values.getD 0 0) < x)) = 2 := by
    rw [values]
    norm_num [List.countP_cons]
  obtain ⟨kept, -, whole | ⟨-, left, right, -, -⟩, -, -, mass, again⟩ :=
    @cut_accounted graded ⟨1, 1 / 4⟩ descending present le_rfl le_rfl active
  · exact absurd (two.symm.trans whole.1) (by decide)
  · rw [two] at kept left right mass again
    refine ⟨descending, present, le_rfl, le_rfl, active, kept, left, right, mass.trans ?_, again⟩
    rw [values]
    norm_num

end Decomposition
end BondSvd
