import BondSvd.Proofs.Run

namespace BondSvd.Reference
universe u
variable {α : Type u} [Scalar α] {policy : Policy α} {A : DenseMatrix α} {left tries last : Nat}
  {found : Decomposition α}

/-- The attempt at `A` breaks down. -/
def Fails (policy : Policy α) (A : DenseMatrix α) : Prop :=
  ∃ breakdown, attempt policy .refuse A = .error breakdown

private theorem retry_succ_of_fails (failed : Fails policy (rescaled policy A (tries + 1))) :
    retry policy (left + 1) tries (rescaled policy A tries) =
      retry policy left (tries + 1) (rescaled policy A (tries + 1)) := by
  obtain ⟨breakdown, failed⟩ := failed
  rw [rescaled] at failed ⊢
  rw [retry, failed]

private theorem retry_eq_none (failed : ∀ j, tries < j → j ≤ tries + left → Fails policy (rescaled policy A j)) :
    retry policy left tries (rescaled policy A tries) = none := by
  induction left generalizing tries with
  | zero => rfl
  | succ left ih =>
    rw [retry_succ_of_fails (failed (tries + 1) (Nat.lt_succ_self tries) (by omega))]
    exact ih fun j after within => failed j (by omega) (by omega)

/-- The first success is compensated for as many rescalings as it took. -/
theorem retry_eq_some (after : tries < last) (within : last ≤ tries + left)
    (earlier : ∀ j, tries < j → j < last → Fails policy (rescaled policy A j))
    (done : attempt policy .refuse (rescaled policy A last) = .ok found) :
    retry policy left tries (rescaled policy A tries) = some (compensate policy last found) := by
  induction left generalizing tries with
  | zero => omega
  | succ left ih =>
    rcases Nat.lt_or_eq_of_le (Nat.succ_le_of_lt after) with later | rfl
    · rw [retry_succ_of_fails (earlier (tries + 1) (Nat.lt_succ_self tries) later)]
      exact ih later (by omega) fun j after before => earlier j (by omega) before
    · rw [rescaled] at done
      rw [retry, done]

private theorem decompose_eq_error (reachable : belowReach policy A = false)
    (failed : ∀ j, j ≤ policy.maxRetries.toNat → Fails policy (rescaled policy A j)) :
    decompose policy A = .error (.retryExhausted policy.maxRetries.toNat) := by
  obtain ⟨breakdown, first⟩ := failed 0 (Nat.zero_le _)
  have none : retry policy policy.maxRetries.toNat 0 (rescaled policy A 0) = .none :=
    retry_eq_none fun j _ within => failed j (by omega)
  rw [rescaled] at first none
  rw [decompose, reachable, first, none]
  rfl

/-- Within reach, the first copy that is decomposed gives the result. -/
theorem decompose_eq_ok (reachable : belowReach policy A = false) (within : last ≤ policy.maxRetries.toNat)
    (earlier : ∀ j, j < last → Fails policy (rescaled policy A j))
    (done : attempt policy .refuse (rescaled policy A last) = .ok found) :
    decompose policy A = .ok (if last = 0 then found else compensate policy last found) := by
  rcases Nat.eq_zero_or_pos last with rfl | positive
  · rw [rescaled] at done
    rw [decompose, reachable, done]
    rfl
  · obtain ⟨breakdown, first⟩ := earlier 0 positive
    have some : retry policy policy.maxRetries.toNat 0 (rescaled policy A 0) = .some (compensate policy last found) :=
      retry_eq_some positive (by omega) (fun j _ before => earlier j before) done
    rw [rescaled] at first some
    rw [decompose, reachable, if_neg Bool.false_ne_true, first, some, if_neg (Nat.ne_of_gt positive)]

/-- Within reach, the error says that every allowed copy breaks down. -/
theorem decompose_eq_error_iff (reachable : belowReach policy A = false) :
    decompose policy A = .error (.retryExhausted policy.maxRetries.toNat) ↔
      ∀ j, j ≤ policy.maxRetries.toNat → Fails policy (rescaled policy A j) := by
  refine ⟨fun exhausted j within => ?_, decompose_eq_error reachable⟩
  -- The induction finds the first copy that an attempt would decompose.
  induction j using Nat.strongRecOn with
  | ind j earlier =>
    cases done : attempt policy .refuse (rescaled policy A j) with
    | error breakdown => exact ⟨breakdown, done⟩
    | ok found =>
      rw [decompose_eq_ok reachable within (fun i before => earlier i before (by omega)) done] at exhausted
      cases exhausted

end BondSvd.Reference
