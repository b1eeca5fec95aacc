import Mathlib
import BondSvd.Proofs.Iteration.Sweep

/-! A whole QR iteration is an orthogonal equivalence, up to what it neglects. Each coupling is
neglected at most once with a value other than zero, so the couplings still alive pay for all
splits and cancellations to come; degenerate rotations are accounted for one by one. -/
namespace BondSvd.Iteration
open scoped Matrix Matrix.Norms.Frobenius
variable {m n : ℕ} {st st' : Iteration ℝ} {tolerance budget : ℝ} {B : Matrix (Fin m) (Fin n) ℂ} {k : ℕ}

/-- The values from index `limit` on are settled, and the matrix `B` is no farther from the
product of the factors than the budget allows. -/
structure Accounted (tolerance : ℝ) (B : Matrix (Fin m) (Fin n) ℂ) (budget : ℝ) (limit : ℕ) (st : Iteration ℝ) :
    Prop where
  regular : st.Regular m n
  settled : ∀ j, limit ≤ j → j < n → 0 ≤ st.d j
  near : ‖B - st.assembled m n (st.bidiagonal limit)‖ + 3 * tolerance * st.live limit ≤
    budget + 2 * Tolerance.sign * st.degenerate

/-- A change of the state that pays for what it costs keeps the account. -/
theorem Accounted.change {limit : ℕ} (account : Accounted tolerance B budget limit st) (regular : st'.Regular m n)
    (settled : ∀ j, limit ≤ j → st'.d j = st.d j)
    (cost : ‖st.assembled m n (st.bidiagonal limit) - st'.assembled m n (st'.bidiagonal limit)‖ +
        3 * tolerance * st'.live limit ≤
      3 * tolerance * st.live limit + 2 * Tolerance.sign * (st'.degenerate - st.degenerate)) :
    Accounted tolerance B budget limit st' := by
  refine ⟨regular, ?_, ?_⟩
  · intro j above inside
    rw [settled j above]
    exact account.settled j above inside
  · have triangle := norm_sub_le_norm_sub_add_norm_sub B (st.assembled m n (st.bidiagonal limit))
      (st'.assembled m n (st'.bidiagonal limit))
    linarith [account.near]

/-- Once the coupling to the last value of the block is gone, the block is one shorter. -/
theorem bidiagonal_succ (bound : k < st.superDiag.size) :
    (st.setE k 0).bidiagonal (k + 1) = st.bidiagonal k := by
  funext r c
  simp only [bidiagonal, d_setE, e_setE st bound]
  split_ifs <;> first | rfl | omega

private theorem live_succ (bound : k < st.superDiag.size) : (st.setE k 0).live (k + 1) = st.live k := by
  have same : ((Finset.Ico 1 (k + 1)).filter fun j => (st.setE k 0).e j ≠ 0) =
      (Finset.Ico 1 k).filter fun j => st.e j ≠ 0 := by
    ext j
    simp only [Finset.mem_filter, Finset.mem_Ico, e_setE st bound]
    by_cases last : k = j
    · simp [last]
    · simp [last]
      omega
  rw [live, live, same]

theorem makeNonNegative_of_neg (negative : st.d k < 0) :
    st.makeNonNegative k =
      { st.setD k (-st.d k) with right := st.right.negateColumn st.diag.size k } := if_pos negative

theorem Regular.makeNonNegative (regular : st.Regular m n) (inside : k < n) : (st.makeNonNegative k).Regular m n := by
  by_cases negative : st.d k < 0
  · rw [makeNonNegative_of_neg negative, regular.diagSize]
    exact { regular.setD k (-st.d k) with right := regular.right.negate inside }
  · rwa [Iteration.makeNonNegative, if_neg negative]

private theorem d_makeNonNegative (regular : st.Regular m n) (inside : k < n) (j : ℕ) :
    (st.makeNonNegative k).d j = if k = j then |st.d k| else st.d j := by
  by_cases negative : st.d k < 0
  · rw [makeNonNegative_of_neg negative, abs_of_neg negative]
    exact d_setD st (regular.diagSize.symm ▸ inside) (-st.d k) j
  · rw [Iteration.makeNonNegative, if_neg negative, abs_of_nonneg (not_lt.mp negative)]
    split
    · next same => rw [same]
    · rfl

/-- The sign of a settled value moves into its right vector. -/
theorem assembled_makeNonNegative (regular : st.Regular m n) (inside : k < n) :
    (st.makeNonNegative k).assembled m n ((st.makeNonNegative k).bidiagonal k) =
      st.assembled m n (st.bidiagonal k) := by
  by_cases negative : st.d k < 0
  · have bound : k < st.diag.size := regular.diagSize.symm ▸ inside
    have values : (st.makeNonNegative k).bidiagonal k = (st.setD k (-st.d k)).bidiagonal k := by
      rw [makeNonNegative_of_neg negative]
      rfl
    have turned : gridMatrix m n ((st.setD k (-st.d k)).bidiagonal k) =
        gridMatrix m n (st.bidiagonal k) * signChange ⟨k, inside⟩ := by
      ext i j
      rw [signChange, Matrix.mul_diagonal]
      simp only [gridMatrix, Matrix.of_apply, bidiagonal, d_setD st bound, Fin.ext_iff]
      by_cases column : (j : ℕ) = k
      · by_cases diagonal : (i : ℕ) = j
        · simp [column, diagonal]
        · have off : (i : ℕ) ≠ k := fun same => diagonal (same.trans column.symm)
          simp [column, off]
      · simp [column, Ne.symm column]
        rfl
    rw [values, makeNonNegative_of_neg negative, assembled, turned, regular.diagSize,
      regular.right.toMatrix_negate inside, Matrix.conjTranspose_mul, signChange_conjTranspose, Matrix.mul_assoc,
      Matrix.mul_assoc, ← Matrix.mul_assoc (signChange _), signChange_mul_self, Matrix.one_mul, ← Matrix.mul_assoc]
    rfl
  · rw [Iteration.makeNonNegative, if_neg negative]

theorem settle_first (sweeps : ℕ) : st.settle tolerance 0 sweeps = .ok (st.makeNonNegative 0) := by
  cases sweeps <;> rfl

/-- A value that the scan splits from all before it needs no sweep. -/
theorem settle_alone (alone : (st.split tolerance k).start = k) (sweeps : ℕ) :
    st.settle tolerance k sweeps = .ok ((st.isolate tolerance k).2.makeNonNegative k) := by
  have start : (st.isolate tolerance k).1 = k := by
    unfold isolate
    dsimp only
    split <;> exact alone
  cases sweeps <;> rw [Iteration.settle] <;> exact if_pos start

theorem diagonalize_pair (size : st.diag.size = 2) (alone : (st.split tolerance 1).start = 1) (sweeps : ℕ) :
    st.diagonalize tolerance sweeps =
      .ok (((st.isolate tolerance 1).2.makeNonNegative 1).makeNonNegative 0) := by
  rw [diagonalize, size, Iteration.settleAll, settle_alone alone]
  dsimp only
  rw [Iteration.settleAll, settle_first]
  rfl

/-- Values that are settled already are left as they are. -/
theorem settleAll_decoupled (decoupled : ∀ k, Scalar.abs (st.e (k + 1)) ≤ tolerance) (nonneg : ∀ k, ¬st.d k < 0)
    (sweeps count : ℕ) : st.settleAll tolerance sweeps count = .ok st := by
  have stays (k : ℕ) : st.makeNonNegative k = st := if_neg (nonneg k)
  induction count with
  | zero => rfl
  | succ k ih =>
    have settled : st.settle tolerance k sweeps = .ok st := by
      cases k with
      | zero => rw [settle_first, stays]
      | succ l =>
        have split : st.split tolerance (l + 1) = ⟨l + 1, false⟩ := if_pos (decoupled l)
        have alone : (st.split tolerance (l + 1)).start = l + 1 := by rw [split]
        have untouched : (st.isolate tolerance (l + 1)).2 = st := by
          rw [Iteration.isolate, split]
          rfl
        rw [settle_alone alone, untouched, stays]
    rw [Iteration.settleAll, settled]
    exact ih

/-- The last value of a block of one is settled. -/
theorem Accounted.makeNonNegative (account : Accounted tolerance B budget (k + 1) st) (nonneg : 0 ≤ tolerance)
    (inside : k < n) (splits : k = 0 ∨ |st.e k| ≤ tolerance) :
    Accounted tolerance B budget k (st.makeNonNegative k) := by
  have bound : k < st.superDiag.size := account.regular.superSize.symm ▸ inside
  have dropped := norm_drop_le (m := m) (n := n) bound (Nat.lt_succ_self k) nonneg splits
  rw [bidiagonal_succ bound, live_succ bound, ← account.regular.norm_assembled_sub] at dropped
  refine ⟨account.regular.makeNonNegative inside, ?_, ?_⟩
  · intro j above within
    rw [d_makeNonNegative account.regular inside]
    split
    · exact abs_nonneg _
    · exact account.settled j (by omega) within
  · have triangle := norm_sub_le_norm_sub_add_norm_sub B (st.assembled m n (st.bidiagonal (k + 1)))
      (st.assembled m n (st.bidiagonal k))
    have live : (st.makeNonNegative k).live k = st.live k := by
      unfold Iteration.makeNonNegative
      split <;> rfl
    have count : (st.makeNonNegative k).degenerate = st.degenerate := by
      unfold Iteration.makeNonNegative
      split <;> rfl
    rw [assembled_makeNonNegative account.regular inside, live, count]
    linarith [account.near]

theorem Accounted.isolate {l : ℕ} (account : Accounted tolerance B budget (k + 1) st)
    (isolates : Isolates m n tolerance k st l st') : Accounted tolerance B budget (k + 1) st' := by
  refine account.change isolates.regular isolates.settled ?_
  rw [isolates.degenerate, sub_self, mul_zero, add_zero]
  exact isolates.cost

theorem Accounted.settle (account : Accounted tolerance B budget (k + 1) st) (nonneg : 0 ≤ tolerance)
    (inside : k < n) {sweeps : ℕ} (done : st.settle tolerance k sweeps = .ok st') :
    Accounted tolerance B budget k st' := by
  induction sweeps generalizing st with
  | zero =>
    have isolates := isolate_isolates account.regular nonneg inside
    rw [Iteration.settle] at done
    generalize st.isolate tolerance k = isolated at *
    obtain ⟨l, st₁⟩ := isolated
    dsimp only at done isolates
    split at done
    · next single =>
      cases done
      exact (account.isolate isolates).makeNonNegative nonneg inside (single ▸ isolates.splits)
    · cases done
  | succ sweeps ih =>
    have isolates := isolate_isolates account.regular nonneg inside
    rw [Iteration.settle] at done
    generalize st.isolate tolerance k = isolated at *
    obtain ⟨l, st₁⟩ := isolated
    dsimp only at done isolates
    have account₁ := account.isolate isolates
    split at done
    · next single =>
      cases done
      exact account₁.makeNonNegative nonneg inside (single ▸ isolates.splits)
    · next several =>
      split at done
      · cases done
      · next st₂ swept =>
        obtain ⟨regular, settled, cost⟩ := sweep_sound isolates.regular nonneg
          (lt_of_le_of_ne isolates.le several) inside isolates.splits isolates.coupled swept
        exact ih (account₁.change regular settled cost) done

theorem Accounted.settleAll (account : Accounted tolerance B budget k st) (nonneg : 0 ≤ tolerance) (inside : k ≤ n)
    {sweeps : ℕ} (done : st.settleAll tolerance sweeps k = .ok st') : Accounted tolerance B budget 0 st' := by
  induction k generalizing st with
  | zero =>
    cases done
    exact account
  | succ k ih =>
    rw [Iteration.settleAll] at done
    split at done
    · cases done
    · next st₁ settled => exact ih (account.settle nonneg inside settled) (Nat.le_of_lt inside) done

/-- What a run of the iteration ends with is the bidiagonal matrix that it started from, up to
three times the tolerance for each coupling and twice the sign tolerance for each degenerate
rotation. The values it ends with are not negative. -/
theorem diagonalize_sound (regular : st.Regular m n) (nonneg : 0 ≤ tolerance) {sweeps : ℕ}
    (done : st.diagonalize tolerance sweeps = .ok st') :
    st'.Regular m n ∧ (∀ j, j < n → 0 ≤ st'.d j) ∧
      ‖st.assembled m n (st.bidiagonal n) - st'.assembled m n (st'.bidiagonal 0)‖ ≤
        3 * tolerance * (n - 1 : ℕ) + 2 * Tolerance.sign * (st'.degenerate - st.degenerate) := by
  have start : Accounted tolerance (st.assembled m n (st.bidiagonal n))
      (3 * tolerance * (n - 1 : ℕ) - 2 * Tolerance.sign * st.degenerate) n st := by
    refine ⟨regular, fun j above below => absurd (above.trans_lt below) (lt_irrefl n), ?_⟩
    have few : st.live n ≤ n - 1 := (Finset.card_filter_le _ _).trans (Nat.card_Ico 1 n).le
    have paid : 3 * tolerance * (st.live n : ℝ) ≤ 3 * tolerance * (n - 1 : ℕ) := by
      gcongr
    rw [sub_self, norm_zero]
    linarith
  rw [diagonalize, regular.diagSize] at done
  have final := start.settleAll nonneg le_rfl done
  refine ⟨final.regular, fun j inside => final.settled j (Nat.zero_le j) inside, ?_⟩
  have alive : 0 ≤ 3 * tolerance * (st'.live 0 : ℝ) := by positivity
  linarith [final.near]

end BondSvd.Iteration
