import Mathlib
import BondSvd.Proofs.RelativeAccuracy

/-! Larger budgets of retries. For any numbers they change nothing about an input that a smaller budget
decomposes by an attempt, unless the test for the reach comes to hold. In exact arithmetic that takes a
budget whose double wraps around: the exponent of the reach then falls, and an input that a few rescalings
would do for is flushed instead. -/
namespace BondSvd
universe u

/-- The same policy with another number of retries. -/
def Policy.withRetries {α : Type u} [Scalar α] (policy : Policy α) (retries : UInt64) : Policy α :=
  { policy with maxRetries := retries }

namespace Reference

section AnyNumbers
variable {α : Type u} [Scalar α] {policy : Policy α} {A : DenseMatrix α} {retries : UInt64} {left tries : Nat}
  {found : Decomposition α}

/-- A single attempt knows nothing of the budget. -/
theorem attempt_withRetries (rule : FloorRule) : attempt (policy.withRetries retries) rule A = attempt policy rule A := rfl

private theorem retry_withRetries : retry (policy.withRetries retries) left tries A = retry policy left tries A := by
  induction left generalizing tries A with
  | zero => rfl
  | succ left ih =>
    have rescale : (policy.withRetries retries).rescaleFactor = policy.rescaleFactor := rfl
    rw [retry, retry, rescale, attempt_withRetries]
    split
    · rfl
    · exact ih

private theorem retry_more {budget : Nat} (more : left ≤ budget) (done : retry policy left tries A = some found) :
    retry policy budget tries A = some found := by
  induction left generalizing budget tries A with
  | zero => cases done
  | succ left ih =>
    obtain ⟨budget, rfl⟩ := Nat.exists_eq_add_one_of_ne_zero (Nat.ne_of_gt (Nat.lt_of_lt_of_le left.succ_pos more))
    rw [retry] at done ⊢
    split at done
    · exact done
    · exact ih (Nat.le_of_succ_le_succ more) done

/-- Unless the larger budget puts the input out of reach, what an attempt has found is found again. -/
theorem decompose_withRetries (more : policy.maxRetries ≤ retries) (reachable : belowReach policy A = false)
    (done : decompose policy A = .ok found) :
    decompose (policy.withRetries retries) A =
      if belowReach (policy.withRetries retries) A then (attempt policy .flush A).mapError fun _ => .retryExhausted 0
      else .ok found := by
  have budget : (policy.withRetries retries).maxRetries.toNat = retries.toNat := rfl
  have ordered : policy.maxRetries.toNat ≤ retries.toNat := UInt64.le_iff_toNat_le.mp more
  rw [decompose, if_neg (reachable ▸ Bool.false_ne_true)] at done
  rw [decompose, attempt_withRetries, attempt_withRetries, retry_withRetries, budget]
  split
  · rfl
  · split at done
    · exact done
    · split at done
      · next result retried =>
        rw [retry_more ordered retried]
        exact done
      · cases done

private theorem belowReach_withRetries (same : reachExponent retries = reachExponent policy.maxRetries) :
    belowReach (policy.withRetries retries) A = belowReach policy A := by
  have exponent : (policy.withRetries retries).maxRetries = retries := rfl
  rw [belowReach, exponent, same]
  rfl

private theorem reachExponent_mono {few more : UInt64} (larger : few ≤ more) (fits : more.toNat < 2 ^ 63) :
    reachExponent few ≤ reachExponent more := by
  have ordered : few.toNat ≤ more.toNat := UInt64.le_iff_toNat_le.mp larger
  rw [reachExponent_of_lt fits, reachExponent_of_lt (ordered.trans_lt fits)]
  exact min_le_min_right _ (by omega)

/-- Whatever a larger power of the factor does not lift above the floor, a smaller one does not either. -/
def Rising (policy : Policy α) (A : DenseMatrix α) : Prop :=
  ∀ lower higher : Nat, lower ≤ higher →
    A.maxColumnNormSq * Scalar.powInt policy.rescaleFactor higher ≤ policy.normFloor →
      A.maxColumnNormSq * Scalar.powInt policy.rescaleFactor lower ≤ policy.normFloor

/-- An exponent that does not fall leaves in reach what was in reach. -/
theorem reachable_withRetries (rising : Rising policy A)
    (longer : reachExponent policy.maxRetries ≤ reachExponent retries) (reachable : belowReach policy A = false) :
    belowReach (policy.withRetries retries) A = false := by
  have exponent : (policy.withRetries retries).maxRetries = retries := rfl
  rw [belowReach, Bool.and_eq_false_iff, decide_eq_false_iff_not, decide_eq_false_iff_not] at reachable ⊢
  exact reachable.imp_right fun high low => high (rising _ _ longer (exponent ▸ low))

end AnyNumbers

private theorem rising_exact {policy : Policy ℝ} {A : DenseMatrix ℝ} (growing : 1 ≤ policy.rescaleFactor) : Rising policy A := by
  intro lower higher order low
  rw [Scalar.powInt_exact] at low ⊢
  exact (mul_le_mul_of_nonneg_left (pow_le_pow_right₀ growing order) A.maxColumnNormSq_nonneg).trans low

/-- What an attempt has found under some budget, a larger one finds again, for any numbers, unless it is
flushed because the test for the reach has come to hold. As long as its double fits into a word, that does
not overflow and the exponent of the reach does not fall. So where powers are rising, as they are in exact
arithmetic, only a budget whose double wraps around can lose what was found. -/
theorem decompose_more_retries {α : Type u} [Scalar α] {policy : Policy α} {A : DenseMatrix α} {retries : UInt64}
    {found : Decomposition α} (more : policy.maxRetries ≤ retries) (reachable : belowReach policy A = false)
    (done : decompose policy A = .ok found) :
    decompose (policy.withRetries retries) A =
        (if belowReach (policy.withRetries retries) A then
          (attempt policy .flush A).mapError fun _ => .retryExhausted 0
        else .ok found) ∧
      (retries.toNat < 2 ^ 63 →
        (2 * retries).toNat = 2 * retries.toNat ∧ reachExponent policy.maxRetries ≤ reachExponent retries) ∧
      (decompose (policy.withRetries retries) A = .ok found ∨
        reachExponent retries ≠ reachExponent policy.maxRetries ∧
          (Rising policy A → 2 ^ 63 ≤ retries.toNat ∧ reachExponent retries < reachExponent policy.maxRetries)) ∧
      ∀ {real : Policy ℝ} {B : DenseMatrix ℝ}, 1 ≤ real.rescaleFactor → Rising real B := by
  have outcome := decompose_withRetries more reachable done
  refine ⟨outcome, fun fits => ⟨toNat_double fits, reachExponent_mono more fits⟩, ?_, rising_exact⟩
  cases reach : belowReach (policy.withRetries retries) A with
  | false =>
    rw [outcome, reach]
    exact .inl rfl
  | true =>
    have shorter (rising : Rising policy A) : reachExponent retries < reachExponent policy.maxRetries := by
      refine not_le.mp fun longer => ?_
      rw [reachable_withRetries rising longer reachable] at reach
      cases reach
    refine .inr ⟨fun same => ?_, fun rising => ⟨not_lt.mp fun fits => ?_, shorter rising⟩⟩
    · rw [belowReach_withRetries same, reachable] at reach
      cases reach
    · exact (shorter rising).not_ge (reachExponent_mono more fits)

theorem decompose_more_retries_tinyBlock :
    1 < ({} : Policy ℝ).rescaleFactor ∧ ({} : Policy ℝ).maxRetries ≤ 0x4000000000000000 ∧
      belowReach {} tinyBlock = false ∧ ∃ found, decompose {} tinyBlock = .ok found ∧
        decompose (Policy.withRetries {} 0x4000000000000000) tinyBlock = .ok found := by
  have growing : (1 : ℝ) < 1e2 := by norm_num
  have more : ({} : Policy ℝ).maxRetries ≤ 0x4000000000000000 := (by decide : (15 : UInt64) ≤ 0x4000000000000000)
  obtain ⟨refused, first, attempted⟩ := tinyBlock_retried
  have earlier (j : ℕ) (before : j < 1) : Fails {} (rescaled {} tinyBlock j) := by
    rw [Nat.lt_one_iff.mp before]
    exact refused
  have done := decompose_eq_ok tinyBlock_reachable (by decide) earlier attempted
  refine ⟨growing, more, tinyBlock_reachable, _, done, ?_⟩
  obtain ⟨-, -, kept, rising⟩ := decompose_more_retries more tinyBlock_reachable done
  exact kept.resolve_right fun lost => absurd (lost.2 (rising growing.le)).1 (by decide)

/-- A small entry that two rescalings lift above the floor. -/
def grain : DenseMatrix Float := .ofFn 1 1 fun _ _ => ⟨1e-20, 0⟩

/-- Twice the budget of 2 to the 63 wraps to no rescaling at all, and what the default budget finds is
flushed. -/
theorem decompose_grain :
    1 < ({} : Policy Float).rescaleFactor ∧ ({} : Policy Float).maxRetries ≤ 0x8000000000000000 ∧
      belowReach {} grain = false ∧
      (decompose {} grain).toOption.map (fun found => found.values.map fun value => decide (0 < value)) = some [true] ∧
      (decompose (Policy.withRetries {} 0x8000000000000000) grain).toOption.map (·.values) = some [0] := by
  refine ⟨by decide +kernel, by decide +kernel, by decide +kernel, by decide +kernel, by decide +kernel⟩

end Reference
end BondSvd
