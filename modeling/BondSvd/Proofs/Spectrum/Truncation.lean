import Mathlib
import BondSvd.Proofs.Spectrum.Mass

namespace BondSvd

/-- The number that renormalization divides by. -/
noncomputable def renormFactor (values : List ℝ) : ℝ :=
  if Tolerance.drift < |1 - mass values| ∧ 0 < mass values then √(mass values) else 1

theorem renormalize_eq (values : List ℝ) : renormalize values = values.map (· / renormFactor values) := by
  unfold renormalize renormFactor
  rw [Scalar.abs_exact]
  split
  · rfl
  · simp

theorem renormFactor_pos (values : List ℝ) : 0 < renormFactor values := by
  unfold renormFactor
  split
  · next drifted => exact Real.sqrt_pos.mpr drifted.2
  · exact one_pos

theorem mass_renormalize (values : List ℝ) :
    (∀ x ∈ values, x = 0) ∨ |1 - mass (renormalize values)| ≤ Tolerance.drift := by
  rcases (mass_nonneg values).eq_or_lt with vanishes | massive
  · exact .inl (mass_eq_zero_iff.mp vanishes.symm)
  · right
    rw [renormalize_eq, mass_map_div]
    by_cases drifted : Tolerance.drift < |1 - mass values|
    · rw [renormFactor, if_pos ⟨drifted, massive⟩, Real.sq_sqrt massive.le, div_self massive.ne', sub_self, abs_zero]
      exact Tolerance.drift_pos.le
    · rw [renormFactor, if_neg fun both => drifted both.1, one_pow, div_one]
      exact not_lt.mp drifted

theorem Cutoff.retained_of_inactive (c : Cutoff ℝ) (inactive : ¬c.isActive = true) (values : List ℝ) :
    c.retained values = values.length := by
  cases values with
  | nil => rfl
  | cons first rest => exact if_neg inactive

namespace TruncationRecord

/-- The record of a cut that keeps something gives back the mass of what it dropped, although
it stores a share of the whole only. -/
theorem discardedMass_ofSpectrum {values : List ℝ} {extent : ℕ} (descending : isDescending values = true)
    (kept : 0 < extent) :
    (ofSpectrum values extent).discardedMass (values.take extent) = mass (values.drop extent) := by
  have parts := mass_take_add_mass_drop values extent
  have dropped := mass_nonneg (values.drop extent)
  have cut : values.drop (min extent values.length) = values.drop extent := by
    rcases le_total extent values.length with inside | beyond
    · rw [min_eq_left inside]
    · rw [min_eq_right beyond, List.drop_length, List.drop_eq_nil_of_le beyond]
  rw [discardedMass, ofSpectrum]
  simp only [cut]
  rcases (mass_nonneg values).eq_or_lt with vanishes | massive
  · rw [if_neg vanishes.not_lt, if_pos (.inl le_rfl)]
    linarith [mass_nonneg (values.take extent)]
  · have remains := mass_take_pos descending kept massive
    rw [if_pos massive]
    by_cases nothing : mass (values.drop extent) = 0
    · rw [nothing, if_pos (.inl (by rw [zero_div]))]
    · have share : 0 < mass (values.drop extent) / mass values :=
        div_pos (dropped.lt_of_ne' nothing) massive
      have partly : mass (values.drop extent) / mass values < 1 := (div_lt_one massive).mpr (by linarith)
      have rest : 1 - mass (values.drop extent) / mass values = mass (values.take extent) / mass values := by
        rw [eq_div_iff massive.ne', sub_mul, div_mul_cancel₀ _ massive.ne']
        linarith
      rw [if_neg, rest]
      · field_simp
      · rintro (none | all | empty)
        · exact share.not_ge none
        · exact partly.not_ge all
        · exact remains.ne' (beq_iff_eq.mp empty)

end TruncationRecord

/-- The mass of the values from `k` on whose square counts as zero. -/
noncomputable def faintMass (values : List ℝ) (k : ℕ) : ℝ :=
  mass ((values.drop k).filter fun x => decide (Scalar.square x ≤ Tolerance.zero))

theorem faintMass_nonneg (values : List ℝ) (k : ℕ) : 0 ≤ faintMass values k := mass_nonneg _

theorem faintMass_le (values : List ℝ) (k : ℕ) : faintMass values k ≤ values.length * Tolerance.zero := by
  have few : ((values.drop k).filter fun x => decide (Scalar.square x ≤ Tolerance.zero)).length ≤ values.length :=
    (List.filter_sublist.trans (List.drop_sublist k values)).length_le
  refine (mass_le_length_mul fun x member => ?_).trans
    (mul_le_mul_of_nonneg_right (Nat.cast_le.mpr few) Tolerance.zero_pos.le)
  have faint : Scalar.square x ≤ Tolerance.zero := by simpa using (List.mem_filter.mp member).2
  exact (Scalar.square_exact x).symm.trans_le faint

namespace Decomposition
variable {r : Decomposition ℝ} {maxExtent : ℕ}

theorem keptExtent_pos (present : 0 < r.values.length) (room : 0 < maxExtent) (threshold : ℝ) :
    0 < r.keptExtent maxExtent threshold := by
  refine tailStart_pos _ _ (lt_min ?_ room) _
  exact (lt_min present one_pos).trans_le (le_max_right _ _)

/-- A truncation reports the mass of the significant values that it drops. -/
theorem removedMass_significant (descending : isDescending r.values = true) (present : 0 < r.values.length)
    (room : 0 < maxExtent) (threshold : ℝ) :
    r.removedMass maxExtent threshold =
      mass ((r.values.drop (r.keptExtent maxExtent threshold)).filter fun x =>
        decide (Tolerance.zero < Scalar.square x)) := by
  set k := r.keptExtent maxExtent threshold with extent
  have kept : 0 < k := keptExtent_pos present room threshold
  -- The one value that is kept where none is significant lies below `k`.
  have floor : (r.values.take r.significantExtent).drop k =
      (r.values.take (significantCount r.values Tolerance.zero)).drop k := by
    rw [significantExtent]
    rcases Nat.eq_zero_or_pos (significantCount r.values Tolerance.zero) with none | some
    · rw [none, List.take_zero, List.drop_nil, List.drop_eq_nil_iff, List.length_take]
      omega
    · rw [max_eq_left (by omega)]
  rw [removedMass, ← extent, floor, drop_take_significantCount descending]

/-- What a truncation drops is the mass that it reports and the mass that is too faint to count. -/
theorem removedMass_add_faintMass (descending : isDescending r.values = true) (present : 0 < r.values.length)
    (room : 0 < maxExtent) (threshold : ℝ) :
    r.removedMass maxExtent threshold + faintMass r.values (r.keptExtent maxExtent threshold) =
      mass (r.values.drop (r.keptExtent maxExtent threshold)) := by
  rw [removedMass_significant descending present room, faintMass,
    ← mass_filter_add (r.values.drop _) fun x => decide (Tolerance.zero < Scalar.square x)]
  congr 2
  refine List.filter_congr fun x _ => ?_
  rw [← decide_not]
  exact decide_eq_decide.mpr not_lt.symm

end Decomposition
end BondSvd
