import Mathlib
import BondSvd.Proofs.Spectrum.Kept

namespace BondSvd
variable {values : List ℝ} {threshold threshold' : ℝ} {extent cap cap' k k' low : ℕ}

/-- The further out a part ends, the more mass it has. -/
theorem massBetween_mono (values : List ℝ) (low : ℕ) : Monotone (massBetween values low) := fun _ _ longer =>
  Finset.sum_le_sum_of_subset_of_nonneg (Finset.Ico_subset_Ico_right longer) fun _ _ _ => sq_nonneg _

/-- What spares a threshold spares any looser one. -/
theorem sparing_subset (looser : threshold ≤ threshold') :
    sparing values threshold extent cap ⊆ sparing values threshold' extent cap := fun _ member =>
  ⟨member.1, member.2.1, member.2.2.imp_right fun light => light.trans_le looser⟩

/-- A prefix below the smaller cap that leaves out little up to the larger one leaves out even less up to
the smaller, so the scan from the smaller cap stops no later. -/
theorem isLeast_sparing_mono (scan : IsLeast (sparing values threshold cap cap) k)
    (scan' : IsLeast (sparing values threshold cap' cap') k') (roomier : cap ≤ cap') : k ≤ k' := by
  obtain ⟨⟨positive, -, spared⟩, -⟩ := scan'
  by_cases below : k' < cap
  · have light : massBetween values k' cap' < threshold := spared.resolve_left (below.trans_le roomier).ne
    exact scan.2 ⟨positive, below.le, .inr ((massBetween_mono values k' roomier).trans_lt light)⟩
  · exact scan.1.2.1.trans (not_lt.mp below)

namespace Decomposition
variable {r : Decomposition ℝ} {maxExtent maxExtent' : ℕ}

theorem keptExtent_isLeast (room : 0 < min r.significantExtent maxExtent) (threshold : ℝ) :
    IsLeast (sparing r.values threshold (min r.significantExtent maxExtent) (min r.significantExtent maxExtent))
      (r.keptExtent maxExtent threshold) := by
  have scan : IsLeast _ (tailStart r.values threshold _ (massBetween r.values _ _)) := tailStart_isLeast room le_rfl
  rwa [massBetween_self] at scan

private theorem keptExtent_eq_zero (full : min r.significantExtent maxExtent = 0) (threshold : ℝ) :
    r.keptExtent maxExtent threshold = 0 := Nat.le_zero.mp (full ▸ r.keptExtent_le maxExtent threshold)

private theorem keptExtent_mono (r : Decomposition ℝ) (threshold : ℝ) : Monotone fun maxExtent => r.keptExtent maxExtent threshold := by
  intro maxExtent maxExtent' roomier
  have caps : min r.significantExtent maxExtent ≤ min r.significantExtent maxExtent' := min_le_min_left _ roomier
  rcases Nat.eq_zero_or_pos (min r.significantExtent maxExtent) with full | room
  · exact (keptExtent_eq_zero full threshold).trans_le (Nat.zero_le _)
  · exact isLeast_sparing_mono (keptExtent_isLeast room threshold) (keptExtent_isLeast (room.trans_le caps) threshold) caps

private theorem keptExtent_anti (r : Decomposition ℝ) (maxExtent : ℕ) : Antitone (r.keptExtent maxExtent) := by
  intro threshold threshold' looser
  rcases Nat.eq_zero_or_pos (min r.significantExtent maxExtent) with full | room
  · exact (keptExtent_eq_zero full threshold').trans_le (Nat.zero_le _)
  · exact (keptExtent_isLeast room threshold').2 (sparing_subset looser (keptExtent_isLeast room threshold).1)

private theorem removedMass_eq (r : Decomposition ℝ) (maxExtent : ℕ) (threshold : ℝ) :
    r.removedMass maxExtent threshold =
      massBetween r.values (r.keptExtent maxExtent threshold) r.significantExtent := mass_drop_take ..

/-- Every truncation renormalizes a prefix of the spectrum. More room keeps a longer prefix and removes no
more mass; a looser threshold keeps a shorter one and removes no less. -/
theorem truncate_monotone (r : Decomposition ℝ) {maxExtent maxExtent' : ℕ} {threshold threshold' : ℝ}
    (roomier : maxExtent ≤ maxExtent') (looser : threshold ≤ threshold') :
    let count (limit : ℕ) (bound : ℝ) := (r.truncate limit bound).1.values.length
    let kept (limit : ℕ) (bound : ℝ) := r.values.take (count limit bound)
    (∀ limit bound, (r.truncate limit bound).1.values = renormalize (kept limit bound)) ∧
      (count maxExtent threshold ≤ count maxExtent' threshold ∧
        kept maxExtent threshold <+: kept maxExtent' threshold ∧
        (r.truncate maxExtent' threshold).2 ≤ (r.truncate maxExtent threshold).2) ∧
      (count maxExtent threshold' ≤ count maxExtent threshold ∧
        kept maxExtent threshold' <+: kept maxExtent threshold ∧
        (r.truncate maxExtent threshold).2 ≤ (r.truncate maxExtent threshold').2) := by
  intro count kept
  have extent (limit : ℕ) (bound : ℝ) : count limit bound = r.keptExtent limit bound :=
    r.values_truncate_length limit bound
  have removed (limit : ℕ) (bound : ℝ) : (r.truncate limit bound).2 =
      massBetween r.values (count limit bound) r.significantExtent :=
    extent limit bound ▸ r.removedMass_eq limit bound
  -- What is kept and what is removed both follow from the number of kept values.
  have compare {limit limit' : ℕ} {bound bound' : ℝ} (fewer : count limit bound ≤ count limit' bound') :
      count limit bound ≤ count limit' bound' ∧ kept limit bound <+: kept limit' bound' ∧
        (r.truncate limit' bound').2 ≤ (r.truncate limit bound).2 := by
    refine ⟨fewer, List.take_prefix_take_left fewer, ?_⟩
    rw [removed, removed]
    exact massBetween_anti r.values r.significantExtent fewer
  refine ⟨fun limit bound => ?_, compare ?_, compare ?_⟩
  · rw [show kept limit bound = r.values.take (r.keptExtent limit bound) from congrArg r.values.take (extent limit bound)]
    rfl
  · rw [extent, extent]
    exact r.keptExtent_mono threshold roomier
  · rw [extent, extent]
    exact r.keptExtent_anti maxExtent looser

/-- Values out of order and of both signs. -/
noncomputable def scattered : Decomposition ℝ := ⟨.identity 3, [1, -3.0, 2.0], .identity 3, .columns, none⟩

theorem truncate_monotone_scattered :
    2 ≤ 3 ∧ (3 : ℝ) ≤ 10 ∧
      (scattered.truncate 2 3).1.values.length ≤ (scattered.truncate 3 3).1.values.length ∧
      (scattered.truncate 3 3).2 ≤ (scattered.truncate 2 3).2 ∧
      (scattered.truncate 2 10).1.values.length ≤ (scattered.truncate 2 3).1.values.length ∧
      (scattered.truncate 2 3).2 ≤ (scattered.truncate 2 10).2 ∧
      scattered.keptExtent 3 3 = 3 ∧ scattered.keptExtent 2 3 = 2 ∧ scattered.keptExtent 2 10 = 1 := by
  have looser : (3 : ℝ) ≤ 10 := by norm_num
  obtain ⟨-, ⟨more, -, lighter⟩, ⟨fewer, -, heavier⟩⟩ := scattered.truncate_monotone (show 2 ≤ 3 by decide) looser
  have values : scattered.values = [1, -3.0, 2.0] := rfl
  have significant : scattered.significantExtent = 3 := by
    rw [significantExtent, significantCount, values, Tolerance.zero]
    norm_num [List.countP_cons, Scalar.square_exact]
  have extent (limit : ℕ) (bound : ℝ) : scattered.keptExtent limit bound = tailStart [1, -3.0, 2.0] bound (min 3 limit) 0 := by
    rw [keptExtent, significant, values]
  refine ⟨by decide, looser, more, lighter, fewer, heavier, ?_, ?_, ?_⟩ <;> rw [extent] <;>
    norm_num [tailStart, Scalar.square_exact]

end Decomposition
end BondSvd
