import BondSvd.Proofs.Reduction.Run
import BondSvd.Reference.Retry

namespace BondSvd.Reference
universe u
variable {α : Type u} [Scalar α] {policy : Policy α} {rule : FloorRule} {A : DenseMatrix α} {m n : Nat}

/-- The orientation of `A` with no more columns than rows. -/
def tallForm (A : DenseMatrix α) : DenseMatrix α := if A.rows < A.cols then A.adjoint else A

/-- The reduction and the iteration of a successful attempt. -/
structure Run (policy : Policy α) (rule : FloorRule) (A : DenseMatrix α) (r : Reduction α)
    (st : Iteration α) : Prop where
  reduced : A.bidiagonalize (normFloor policy rule A) = some r
  settled : (iteration A r).diagonalize (negligible policy r) policy.maxSweeps.toNat = .ok st
  finite : st.diag.all Scalar.isFinite = true

theorem Run.upTo {r : Reduction α} {st : Iteration α} (run : Run policy rule A r st) (shape : A.shape = (m, n)) :
    Reduction.upTo (normFloor policy rule A) A n = some r := by
  have cols : A.cols = n := congrArg Prod.snd shape
  rw [← cols]
  exact run.reduced

private theorem tall_run {t : SingularTriples α} (done : tall policy rule A = .ok t) :
    ∃ r st, Run policy rule A r st ∧ t = assemble r st := by
  unfold tall at done
  split at done
  · cases done
  · next r reduced =>
    split at done
    · cases done
    · next st settled =>
      split at done
      · next finite =>
        cases done
        exact ⟨r, st, ⟨reduced, settled, finite⟩, rfl⟩
      · cases done

theorem Run.tall_eq {r : Reduction α} {st : Iteration α} (run : Run policy rule A r st) :
    tall policy rule A = .ok (assemble r st) := by
  rw [tall, run.reduced]
  dsimp only
  rw [run.settled]
  exact if_pos run.finite

theorem shape_tallForm (A : DenseMatrix α) :
    (tallForm A).shape = (max A.rows A.cols, min A.rows A.cols) := by
  unfold tallForm
  split
  · next wide => exact Prod.ext (Nat.max_eq_right (Nat.le_of_lt wide)).symm (Nat.min_eq_left (Nat.le_of_lt wide)).symm
  · next tall =>
    rw [Nat.not_lt] at tall
    exact Prod.ext (Nat.max_eq_left tall).symm (Nat.min_eq_right tall).symm

/-- The triples of the tall orientation of `A`, as a decomposition of `A` itself. -/
def oriented (A : DenseMatrix α) (t : SingularTriples α) : Decomposition α :=
  if A.rows < A.cols then ⟨t.right, t.values.toList, t.left, .columns, none⟩
  else ⟨t.left, t.values.toList, t.right, .columns, none⟩

section Oriented
omit [Scalar α]
variable {t : SingularTriples α}

theorem values_oriented (A : DenseMatrix α) (t : SingularTriples α) : (oriented A t).values = t.values.toList := by
  unfold oriented
  split <;> rfl

theorem convention_oriented (A : DenseMatrix α) (t : SingularTriples α) : (oriented A t).convention = .columns := by
  unfold oriented
  split <;> rfl

theorem truncation_oriented (A : DenseMatrix α) (t : SingularTriples α) : (oriented A t).truncation = none := by
  unfold oriented
  split <;> rfl

/-- What the factors have along the longer and the shorter extent, they have along the extents of `A`. -/
theorem factors_oriented {P : Nat → DenseMatrix α → Prop} (left : P (max A.rows A.cols) t.left)
    (right : P (min A.rows A.cols) t.right) : P A.rows (oriented A t).left ∧ P A.cols (oriented A t).right := by
  unfold oriented
  split
  · next wide =>
    rw [Nat.max_eq_right (Nat.le_of_lt wide)] at left
    rw [Nat.min_eq_left (Nat.le_of_lt wide)] at right
    exact ⟨right, left⟩
  · next tall =>
    rw [Nat.max_eq_left (Nat.not_lt.mp tall)] at left
    rw [Nat.min_eq_right (Nat.not_lt.mp tall)] at right
    exact ⟨left, right⟩

end Oriented

theorem attempt_eq_tall (policy : Policy α) (rule : FloorRule) (A : DenseMatrix α) :
    attempt policy rule A = (tall policy rule (tallForm A)).map (oriented A) := by
  unfold attempt tallForm oriented
  split <;> rfl

theorem attempt_run {result : Decomposition α} (done : attempt policy rule A = .ok result) :
    ∃ r st, Run policy rule (tallForm A) r st ∧ result = oriented A (assemble r st) := by
  rw [attempt_eq_tall] at done
  cases decomposed : tall policy rule (tallForm A) with
  | error breakdown =>
    rw [decomposed] at done
    cases done
  | ok t =>
    rw [decomposed] at done
    cases done
    obtain ⟨r, st, run, rfl⟩ := tall_run decomposed
    exact ⟨r, st, run, rfl⟩

/-- The input after some rescalings. -/
def rescaled (policy : Policy α) (A : DenseMatrix α) : (tries : Nat) → DenseMatrix α
  | 0 => A
  | tries + 1 => (rescaled policy A tries).scale policy.rescaleFactor

/-- Retrying goes through the rescaled copies in turn, and ends with the first that is decomposed. -/
theorem retry_attempt {left tries : Nat} {result : Decomposition α}
    (found : retry policy left tries (rescaled policy A tries) = some result) :
    ∃ last r, tries < last ∧ last ≤ tries + left ∧ attempt policy .refuse (rescaled policy A last) = .ok r ∧
      result = compensate policy last r := by
  induction left generalizing tries with
  | zero => cases found
  | succ left ih =>
    unfold retry at found
    dsimp only at found
    split at found
    · next r done =>
      cases found
      exact ⟨tries + 1, r, Nat.lt_succ_self tries, by omega, done, rfl⟩
    · obtain ⟨last, r, after, within, done, compensated⟩ := ih found
      exact ⟨last, r, by omega, by omega, done, compensated⟩

/-- A decomposition comes from one successful attempt, at the input or at a rescaled copy. -/
theorem decompose_attempt {result : Decomposition α} (done : decompose policy A = .ok result) :
    ∃ rule tries r, tries ≤ policy.maxRetries.toNat ∧ attempt policy rule (rescaled policy A tries) = .ok r ∧
      result = if tries = 0 then r else compensate policy tries r := by
  unfold decompose at done
  split at done
  · cases attempted : attempt policy .flush A with
    | error breakdown =>
      rw [attempted] at done
      cases done
    | ok r =>
      rw [attempted] at done
      cases done
      exact ⟨.flush, 0, result, Nat.zero_le _, attempted, rfl⟩
  · split at done
    · next attempted =>
      cases done
      exact ⟨.refuse, 0, result, Nat.zero_le _, attempted, rfl⟩
    · split at done
      · next found =>
        cases done
        obtain ⟨last, r, after, within, attempted, compensated⟩ := retry_attempt (A := A) found
        refine ⟨.refuse, last, r, by omega, attempted, ?_⟩
        rw [if_neg (by omega), compensated]
      · cases done

/-- The only failure is that every attempt failed. -/
theorem decompose_error {error : Error α} (failed : decompose policy A = .error error) :
    ∃ attempts, error = .retryExhausted attempts := by
  unfold decompose at failed
  split at failed
  · cases attempted : attempt policy .flush A with
    | ok r =>
      rw [attempted] at failed
      cases failed
    | error breakdown =>
      rw [attempted] at failed
      cases failed
      exact ⟨0, rfl⟩
  · split at failed
    · cases failed
    · split at failed
      · cases failed
      · cases failed
        exact ⟨_, rfl⟩

end BondSvd.Reference
