import Mathlib
import BondSvd.Proofs.Spectrum.Truncation

/-! What a truncation keeps: of all prefixes of the spectrum that lose less than the threshold below the
cap, the shortest one, although the scan from the cap downwards stops at the first value that it must
keep. -/
namespace BondSvd
universe u
variable {values : List ℝ} {threshold : ℝ} {low high extent cap : ℕ}

/-- The sum of the squares of the values from index `low` to below `high`. -/
noncomputable def massBetween (values : List ℝ) (low high : ℕ) : ℝ := ∑ i ∈ Finset.Ico low high, values.getD i 0 ^ 2

theorem massBetween_self (values : List ℝ) (k : ℕ) : massBetween values k k = 0 := by
  rw [massBetween, Finset.Ico_self, Finset.sum_empty]

theorem massBetween_succ (inside : low < high) :
    massBetween values low high = massBetween values (low + 1) high + values.getD low 0 ^ 2 := by
  rw [massBetween, massBetween, Finset.sum_eq_sum_Ico_succ_bot inside, add_comm]

/-- The earlier a prefix ends, the more it leaves out. -/
theorem massBetween_anti (values : List ℝ) (high : ℕ) : Antitone fun low => massBetween values low high :=
  fun _ _ later => Finset.sum_le_sum_of_subset_of_nonneg (Finset.Ico_subset_Ico_left later) fun _ _ _ => sq_nonneg _

theorem mass_drop_take (values : List ℝ) (low high : ℕ) :
    mass ((values.take high).drop low) = massBetween values low high := by
  have fits : ((values.take high).drop low).length ≤ high - low := by
    rw [List.length_drop, List.length_take]
    omega
  rw [mass_eq_sum_range fits, massBetween, Finset.sum_Ico_eq_sum_range]
  refine Finset.sum_congr rfl fun l inside => ?_
  have below : low + l < high := by
    rw [Finset.mem_range] at inside
    omega
  rw [List.getD_eq_getElem?_getD, List.getElem?_drop, List.getElem?_take_of_lt below, ← List.getD_eq_getElem?_getD]

/-- The prefixes up to `extent` that leave out less than the threshold, or as little as they can. -/
def sparing (values : List ℝ) (threshold : ℝ) (extent cap : ℕ) : Set ℕ :=
  {k | 1 ≤ k ∧ k ≤ extent ∧ (k = extent ∨ massBetween values k cap < threshold)}

/-- The scan finds the shortest of them: where it stops, every shorter one leaves out at least as much as
the value that it had to keep. -/
theorem tailStart_isLeast (present : 0 < extent) (inside : extent ≤ cap) :
    IsLeast (sparing values threshold extent cap)
      (tailStart values threshold extent (massBetween values extent cap)) := by
  generalize start : massBetween values extent cap = dropped
  fun_induction tailStart values threshold extent dropped with
  | case1 => cases present
  | case2 => exact ⟨⟨le_rfl, le_rfl, .inl rfl⟩, fun k member => member.1⟩
  | case3 i dropped more light ih =>
    have reached : massBetween values (i + 1) cap = more := by
      rw [massBetween_succ inside, start, ← Scalar.square_exact]
    obtain ⟨⟨positive, within, spared⟩, least⟩ := ih (Nat.succ_pos i) (Nat.le_of_succ_le inside) reached
    refine ⟨⟨positive, Nat.le_succ_of_le within, .inr ?_⟩, fun k member => ?_⟩
    · obtain last | small := spared
      · rw [last, reached]
        exact light
      · exact small
    · obtain ⟨atLeast, below, small⟩ := member
      by_cases shorter : k ≤ i + 1
      · exact least ⟨atLeast, shorter, .inr (small.resolve_left (by omega))⟩
      · exact within.trans (Nat.le_of_not_le shorter)
  | case4 i dropped more heavy =>
    have reached : massBetween values (i + 1) cap = more := by
      rw [massBetween_succ inside, start, ← Scalar.square_exact]
    refine ⟨⟨Nat.succ_pos _, le_rfl, .inl rfl⟩, fun k member => not_lt.mp fun shorter => heavy ?_⟩
    obtain ⟨-, -, small⟩ := member
    rw [← reached]
    exact (massBetween_anti values cap (Nat.le_of_lt_succ shorter)).trans_lt (small.resolve_left shorter.ne)

namespace DenseMatrix
variable {α : Type u} [Scalar α]

/-- The first `count` columns of a matrix and nothing else. -/
def IsLeadingCols (part A : DenseMatrix α) (count : ℕ) : Prop :=
  part.shape = (A.rows, count) ∧ ∀ i j, j < count → part.entry i j = A.entry i j

/-- The first `count` rows of a matrix and nothing else. -/
def IsLeadingRows (part A : DenseMatrix α) (count : ℕ) : Prop :=
  part.shape = (count, A.cols) ∧ ∀ i j, i < count → part.entry i j = A.entry i j

private theorem leadingCols_isLeading {A : DenseMatrix α} {count : ℕ} (inside : count ≤ A.cols) :
    (A.leadingCols count).IsLeadingCols A count := by
  refine ⟨Prod.ext rfl (Nat.min_eq_left inside), fun i j col => ?_⟩
  by_cases row : i < A.rows
  · exact entry_leadingCols A row (lt_min col (col.trans_le inside))
  · have outside : ¬(i < A.rows ∧ j < A.cols) := fun both => row both.1
    rw [entry_outside outside]
    exact entry_outside fun both => row both.1

private theorem leadingRows_isLeading {A : DenseMatrix α} {count : ℕ} (inside : count ≤ A.rows) :
    (A.leadingRows count).IsLeadingRows A count := by
  refine ⟨Prod.ext (Nat.min_eq_left inside) rfl, fun i j row => ?_⟩
  by_cases col : j < A.cols
  · exact entry_leadingRows A (lt_min row (row.trans_le inside)) col
  · have outside : ¬(i < A.rows ∧ j < A.cols) := fun both => col both.2
    rw [entry_outside outside]
    exact entry_outside fun both => col both.2

end DenseMatrix

namespace Decomposition
variable {r : Decomposition ℝ} {maxExtent : ℕ}

theorem significantExtent_eq (present : r.values ≠ []) :
    r.significantExtent = max 1 (r.values.countP fun x => decide (Tolerance.zero < x ^ 2)) := by
  have one : min r.values.length 1 = 1 := min_eq_right (List.length_pos_iff.mpr present)
  rw [significantExtent, significantCount, one, max_comm]
  simp only [Scalar.square_exact]

theorem take_isLeading {k : ℕ} (left : k ≤ r.left.cols) (right : k ≤ r.rightAdjoint.rows) :
    (r.take k).left.IsLeadingCols r.left k ∧
      match r.convention with
      | .columns => (r.take k).right.IsLeadingCols r.right k
      | .adjoint => (r.take k).right.IsLeadingRows r.right k := by
  obtain ⟨U, values, V, convention, truncation⟩ := r
  refine ⟨DenseMatrix.leadingCols_isLeading left, ?_⟩
  cases convention with
  | columns => exact DenseMatrix.leadingCols_isLeading right
  | adjoint => exact DenseMatrix.leadingRows_isLeading right

/-- The values that renormalization leaves are the given ones times one positive factor, which is one for
values whose mass is one within the drift. -/
theorem renormalize_factor (values : List ℝ) :
    ∃ factor : ℝ, 0 < factor ∧ renormalize values = values.map (factor * ·) ∧
      (|1 - mass values| ≤ Tolerance.drift → factor = 1) := by
  refine ⟨(renormFactor values)⁻¹, inv_pos.mpr (renormFactor_pos values), ?_, fun settled => ?_⟩
  · rw [renormalize_eq]
    exact List.map_congr_left fun x _ => div_eq_inv_mul x _
  · rw [renormFactor, if_neg fun drifted => drifted.1.not_ge settled, inv_one]

/-- A truncation keeps the shortest prefix below the cap that spares the threshold, in the values and on
the shared side of both factors. It reports the squares of the significant values that it drops, and gives
the kept ones unit mass by one common factor. -/
theorem truncate_isLeast {threshold : ℝ} (descending : isDescending r.values = true) (present : r.values ≠ [])
    (left : r.values.length ≤ r.left.cols) (right : r.values.length ≤ r.rightAdjoint.rows) (room : 1 ≤ maxExtent) :
    let significant := max 1 (r.values.countP fun x => decide (Tolerance.zero < x ^ 2))
    let cap := min maxExtent significant
    let kept := (r.truncate maxExtent threshold).1
    let k := kept.values.length
    IsLeast (sparing r.values threshold cap cap) k ∧
      (massBetween r.values k cap = 0 ∨ massBetween r.values k cap < threshold) ∧
      (r.truncate maxExtent threshold).2 = massBetween r.values k significant ∧
      (r.truncate maxExtent threshold).2 =
        mass ((r.values.drop k).filter fun x => decide (Tolerance.zero < x ^ 2)) ∧
      kept.left.IsLeadingCols r.left k ∧
      (match r.convention with
      | .columns => kept.right.IsLeadingCols r.right k
      | .adjoint => kept.right.IsLeadingRows r.right k) ∧
      kept.convention = r.convention ∧ kept.truncation = r.truncation ∧
      ∃ factor : ℝ, 0 < factor ∧ kept.values = (r.values.take k).map (factor * ·) ∧
        (|1 - mass (r.values.take k)| ≤ Tolerance.drift → factor = 1) ∧
        ((∀ x ∈ kept.values, x = 0) ∨ |1 - mass kept.values| ≤ Tolerance.drift) := by
  intro significant cap kept k
  have some : 0 < r.values.length := List.length_pos_iff.mpr present
  have extent : k = r.keptExtent maxExtent threshold := r.values_truncate_length maxExtent threshold
  have scan : k = tailStart r.values threshold cap (massBetween r.values cap cap) := by
    rw [extent, keptExtent, massBetween_self, significantExtent_eq present, min_comm]
  have least : IsLeast (sparing r.values threshold cap cap) k := by
    rw [scan]
    exact tailStart_isLeast (lt_min room (Nat.lt_of_lt_of_le Nat.one_pos (le_max_left _ _))) le_rfl
  have fits : k ≤ r.values.length := least.1.2.1.trans ((min_le_right _ _).trans
    ((significantExtent_eq present).symm.trans_le r.significantExtent_le))
  obtain ⟨leftPart, rightPart⟩ := r.take_isLeading (fits.trans left) (fits.trans right)
  obtain ⟨factor, positive, scaled, settled⟩ := renormalize_factor (r.values.take k)
  have values : kept.values = renormalize (r.values.take k) := by rw [extent]; rfl
  rw [← values] at scaled
  have removed : (r.truncate maxExtent threshold).2 = r.removedMass maxExtent threshold := rfl
  refine ⟨least, ?_, ?_, ?_, ?_, ?_, rfl, rfl, factor, positive, scaled, settled, ?_⟩
  · exact least.1.2.2.imp_left fun last => (congrArg (massBetween r.values · cap) last).trans (massBetween_self _ _)
  · rw [removed, removedMass, mass_drop_take, significantExtent_eq present, ← extent]
  · rw [removed, removedMass_significant descending some room, ← extent]
    simp only [Scalar.square_exact]
  · rw [extent] at leftPart ⊢
    exact leftPart
  · rw [extent] at rightPart ⊢
    exact rightPart
  · rw [values]
    obtain vanish | unit := mass_renormalize (r.values.take k)
    · refine .inl fun x member => ?_
      rw [← values, scaled] at member
      obtain ⟨y, taken, rfl⟩ := List.mem_map.mp member
      rw [vanish y taken, mul_zero]
    · exact .inr unit

/-- A spectrum with a weak third value and a fourth one that does not count. -/
noncomputable def tailed : Decomposition ℝ := ⟨.identity 4, [3.0, 1, 0.1, 1e-30], .identity 4, .columns, none⟩

theorem truncate_isLeast_tailed :
    isDescending tailed.values = true ∧ tailed.values ≠ [] ∧ tailed.values.length ≤ tailed.left.cols ∧
      tailed.values.length ≤ tailed.rightAdjoint.rows ∧ 1 ≤ 3 ∧
      (tailed.truncate 3 (1 / 50)).1.values.length = 2 ∧ (tailed.truncate 3 (1 / 50)).2 = 1 / 100 ∧
      (tailed.truncate 3 (1 / 50)).1.left.IsLeadingCols tailed.left 2 ∧
      (tailed.truncate 3 (1 / 50)).1.right.IsLeadingCols tailed.right 2 ∧
      ∃ factor : ℝ, 0 < factor ∧ (tailed.truncate 3 (1 / 50)).1.values = [factor * 3.0, factor * 1] := by
  have values : tailed.values = [3.0, 1, 0.1, 1e-30] := rfl
  have descending : isDescending tailed.values = true := by
    rw [isDescending_iff, values]
    norm_num
  have significant : max 1 (tailed.values.countP fun x => decide (Tolerance.zero < x ^ 2)) = 3 := by
    rw [values, Tolerance.zero]
    norm_num [List.countP_cons]
  have atTwo : IsLeast (sparing tailed.values (1 / 50) 3 3) 2 := by
    refine ⟨⟨by decide, by decide, .inr ?_⟩, fun k member => not_lt.mp fun shorter => ?_⟩
    · rw [massBetween_succ (by decide), massBetween_self, values]
      norm_num
    · obtain ⟨atLeast, -, small⟩ := member
      obtain rfl : k = 1 := by omega
      have light := small.resolve_left (by decide)
      rw [massBetween_succ (by decide), massBetween_succ (by decide), massBetween_self, values] at light
      norm_num at light
  obtain ⟨least, -, mass, -, left, right, -, -, factor, positive, scaled, -, -⟩ :=
    @truncate_isLeast tailed 3 (1 / 50) descending (List.cons_ne_nil _ _) le_rfl le_rfl (by decide)
  rw [significant, min_self] at least
  have two := least.unique atTwo
  rw [two] at left right
  rw [two, significant, massBetween_succ (by decide), massBetween_self, values] at mass
  rw [two, values] at scaled
  refine ⟨descending, List.cons_ne_nil _ _, le_rfl, le_rfl, by decide, two, ?_, left, right, factor, positive, ?_⟩
  · rw [mass]
    norm_num
  · rw [scaled]
    rfl

end Decomposition
end BondSvd
