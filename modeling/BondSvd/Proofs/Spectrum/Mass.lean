import Mathlib
import BondSvd.Decomposition.Truncation
import BondSvd.Decomposition.Validation
import BondSvd.Proofs.Descending.Laws

namespace BondSvd
variable {values : List ℝ}

theorem mass_exact (values : List ℝ) : mass values = (values.map (· ^ 2)).sum := by
  rw [mass, total_exact]
  exact congrArg List.sum (List.map_congr_left fun x _ => Scalar.square_exact x)

@[simp] theorem mass_nil : mass ([] : List ℝ) = 0 := mass_exact []

@[simp] theorem mass_cons (x : ℝ) (rest : List ℝ) : mass (x :: rest) = x ^ 2 + mass rest := by
  simp [mass_exact]

theorem mass_eq_sum_range {extent : ℕ} (fits : values.length ≤ extent) :
    mass values = ∑ l ∈ Finset.range extent, values.getD l 0 ^ 2 := by
  induction values generalizing extent with
  | nil => simp
  | cons x rest ih =>
    obtain ⟨extent, rfl⟩ := Nat.exists_eq_add_one_of_ne_zero (by simpa using (Nat.zero_lt_of_lt fits).ne')
    rw [mass_cons, ih (by simpa using fits), Finset.sum_range_succ', add_comm]
    simp

theorem mass_append (xs ys : List ℝ) : mass (xs ++ ys) = mass xs + mass ys := by
  simp [mass_exact]

theorem mass_nonneg (values : List ℝ) : 0 ≤ mass values := by
  induction values with
  | nil => exact mass_nil.ge
  | cons x rest ih => exact (mass_cons x rest).symm ▸ add_nonneg (sq_nonneg x) ih

/-- Nothing is lost between what a cut keeps and what it drops. -/
theorem mass_take_add_mass_drop (values : List ℝ) (k : ℕ) :
    mass (values.take k) + mass (values.drop k) = mass values := by
  rw [← mass_append, List.take_append_drop]

theorem mass_filter_add (values : List ℝ) (keep : ℝ → Bool) :
    mass (values.filter keep) + mass (values.filter fun x => !keep x) = mass values := by
  induction values with
  | nil => simp
  | cons x rest ih =>
    cases kept : keep x <;> simp [kept] <;> linarith

private theorem sq_le_mass {x : ℝ} (member : x ∈ values) : x ^ 2 ≤ mass values := by
  rw [mass_exact]
  refine List.single_le_sum ?_ _ (List.mem_map_of_mem member)
  intro y square
  obtain ⟨z, -, rfl⟩ := List.mem_map.mp square
  exact sq_nonneg z

theorem mass_eq_zero_iff : mass values = 0 ↔ ∀ x ∈ values, x = 0 := by
  constructor
  · intro vanishes x member
    have small : x ^ 2 ≤ 0 := (sq_le_mass member).trans_eq vanishes
    exact pow_eq_zero_iff two_ne_zero |>.mp (le_antisymm small (sq_nonneg x))
  · intro zeros
    induction values with
    | nil => exact mass_nil
    | cons x rest ih =>
      rw [mass_cons, zeros x List.mem_cons_self, ih fun y member => zeros y (List.mem_cons_of_mem x member)]
      norm_num

theorem mass_le_length_mul {bound : ℝ} (small : ∀ x ∈ values, x ^ 2 ≤ bound) :
    mass values ≤ values.length * bound := by
  rw [mass_exact]
  refine (List.sum_le_card_nsmul _ bound ?_).trans_eq (by rw [List.length_map, nsmul_eq_mul])
  intro y square
  obtain ⟨x, member, rfl⟩ := List.mem_map.mp square
  exact small x member

theorem mass_map_div (values : List ℝ) (divisor : ℝ) :
    mass (values.map (· / divisor)) = mass values / divisor ^ 2 := by
  induction values with
  | nil => simp
  | cons x rest ih => rw [List.map_cons, mass_cons, mass_cons, ih, div_pow, add_div]

theorem isDescending_iff :
    isDescending values = true ↔ (∀ x ∈ values, 0 ≤ x) ∧ values.Pairwise (· ≥ ·) :=
  isDescending_iff_pairwise

theorem isDescending_sublist {shorter : List ℝ} (part : shorter.Sublist values)
    (descending : isDescending values = true) : isDescending shorter = true := by
  obtain ⟨nonneg, sorted⟩ := isDescending_iff.mp descending
  exact isDescending_iff.mpr ⟨fun x member => nonneg x (part.subset member), sorted.sublist part⟩

theorem isDescending_map_div {divisor : ℝ} (positive : 0 < divisor) (descending : isDescending values = true) :
    isDescending (values.map (· / divisor)) = true := by
  obtain ⟨nonneg, sorted⟩ := isDescending_iff.mp descending
  refine isDescending_iff.mpr ⟨?_, List.pairwise_map.mpr (sorted.imp fun less => ?_)⟩
  · intro y member
    obtain ⟨x, inside, rfl⟩ := List.mem_map.mp member
    exact div_nonneg (nonneg x inside) positive.le
  · exact div_le_div_of_nonneg_right less positive.le

theorem mass_take_pos {k : ℕ} (descending : isDescending values = true) (present : 0 < k)
    (massive : 0 < mass values) : 0 < mass (values.take k) := by
  obtain ⟨nonneg, sorted⟩ := isDescending_iff.mp descending
  refine (mass_nonneg _).lt_of_ne' fun vanishes => massive.ne' (mass_eq_zero_iff.mpr ?_)
  cases values with
  | nil => simp
  | cons first rest =>
    have zero : first = 0 := by
      refine mass_eq_zero_iff.mp vanishes first ?_
      rw [List.take_cons present]
      exact List.mem_cons_self
    intro x member
    have below : x ≤ first := by
      rcases List.mem_cons.mp member with rfl | later
      · exact le_rfl
      · exact (List.pairwise_cons.mp sorted).1 x later
    exact le_antisymm (below.trans_eq zero) (nonneg x member)

/-- In a descending list the significant values come first, also after some have been dropped. -/
theorem drop_take_significantCount {threshold : ℝ} (descending : isDescending values = true) (k : ℕ) :
    (values.take (significantCount values threshold)).drop k =
      (values.drop k).filter fun x => decide (threshold < Scalar.square x) := by
  obtain ⟨nonneg, sorted⟩ := isDescending_iff.mp descending
  clear descending
  unfold significantCount
  induction values generalizing k with
  | nil => simp
  | cons x rest ih =>
    obtain ⟨largest, sorted⟩ := List.pairwise_cons.mp sorted
    by_cases significant : threshold < Scalar.square x
    · have onRest (k : ℕ) := ih k (fun y member => nonneg y (List.mem_cons_of_mem x member)) sorted
      rw [List.countP_cons_of_pos (by simpa using significant), List.take_succ_cons]
      cases k with
      | zero =>
        rw [List.drop_zero, List.drop_zero, List.filter_cons_of_pos (by simpa using significant)]
        exact congrArg (x :: ·) (onRest 0)
      | succ k => exact onRest k
    · -- What follows an insignificant value is no larger than it.
      have others : ∀ y ∈ x :: rest, ¬ decide (threshold < Scalar.square y) = true := by
        intro y member
        have below : y ≤ x := by
          rcases List.mem_cons.mp member with rfl | later
          · exact le_rfl
          · exact largest y later
        have squares : Scalar.square y ≤ Scalar.square x := mul_self_le_mul_self (nonneg y member) below
        simpa using squares.trans (not_lt.mp significant)
      rw [List.countP_eq_zero.mpr others, List.take_zero, List.drop_nil, eq_comm, List.filter_eq_nil_iff]
      exact fun y member => others y (List.mem_of_mem_drop member)

end BondSvd
