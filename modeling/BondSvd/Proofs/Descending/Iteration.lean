import Mathlib
import BondSvd.Proofs.Descending.Laws
import BondSvd.Proofs.Iteration.Writes

namespace BondSvd.Iteration
universe u
variable {α : Type u} [Scalar α] {st st' st'' : Iteration α} {tolerance : α} {k count : Nat}

/-- Only values below `count` may differ; nothing changes its extent. -/
structure Confined (count : Nat) (st st' : Iteration α) : Prop where
  size : st'.diag.size = st.diag.size
  value : ∀ j, count ≤ j → st'.d j = st.d j
  left : st'.left.shape = st.left.shape
  right : st'.right.shape = st.right.shape

theorem Confined.refl (count : Nat) (st : Iteration α) : Confined count st st :=
  ⟨rfl, fun _ _ => rfl, rfl, rfl⟩

theorem Confined.trans (first : Confined count st st') (second : Confined count st' st'') : Confined count st st'' where
  size := second.size.trans first.size
  value j above := (second.value j above).trans (first.value j above)
  left := second.left.trans first.left
  right := second.right.trans first.right

theorem Confined.mono {more : Nat} (fewer : count ≤ more) (confined : Confined count st st') : Confined more st st' :=
  { confined with value := fun j above => confined.value j (Nat.le_trans fewer above) }

theorem Writes.confined {low high : Nat} (writes : Writes low high st st') : Confined (high + 1) st st' where
  size := writes.size_eq
  value := writes.frozen.value
  left := writes.shape_eq.1
  right := writes.shape_eq.2

variable [Ordered α]

/-- Making a value non-negative fails only where it is no number. -/
theorem makeNonNegative_nonneg (inside : k < st.diag.size)
    (finite : Scalar.isFinite ((st.makeNonNegative k).d k) = true) : 0 ≤ (st.makeNonNegative k).d k := by
  unfold makeNonNegative at finite ⊢
  split
  · next below =>
    have value : (st.setD k (-st.d k)).d k = -st.d k := by rw [d_setD st inside, if_pos rfl]
    change 0 ≤ (st.setD k (-st.d k)).d k
    rw [value]
    exact Ordered.neg_nonneg below
  · next notBelow =>
    rw [if_neg notBelow] at finite
    exact Ordered.nonneg_of_finite finite notBelow

/-- A value that is isolated is settled by its sign alone. -/
theorem isolate_makeNonNegative (tolerance : α) (inside : k < st.diag.size) :
    Confined (k + 1) st ((st.isolate tolerance k).2.makeNonNegative k) ∧
      (Scalar.isFinite (((st.isolate tolerance k).2.makeNonNegative k).d k) = true →
        0 ≤ ((st.isolate tolerance k).2.makeNonNegative k).d k) := by
  have isolated := (isolate_writes tolerance k st).confined
  exact ⟨isolated.trans (makeNonNegative_writes k _).confined, makeNonNegative_nonneg (isolated.size.symm ▸ inside)⟩

/-- A value is settled inside the block that it ends, and with its final sign. -/
theorem settle_nonneg {sweeps : Nat} (inside : k < st.diag.size) (done : st.settle tolerance k sweeps = .ok st') :
    Confined (k + 1) st st' ∧ (Scalar.isFinite (st'.d k) = true → 0 ≤ st'.d k) := by
  induction sweeps generalizing st with
  | zero =>
    unfold settle at done
    dsimp only at done
    split at done
    · cases done
      exact isolate_makeNonNegative tolerance inside
    · cases done
  | succ sweeps ih =>
    unfold settle at done
    dsimp only at done
    split at done
    · cases done
      exact isolate_makeNonNegative tolerance inside
    · split at done
      · cases done
      · next middle swept =>
        have moved := (isolate_writes tolerance k st).confined.trans
          (sweep_writes (isolate_start_le tolerance st k) swept).confined
        obtain ⟨rest, nonneg⟩ := ih (moved.size.symm ▸ inside) done
        exact ⟨moved.trans rest, nonneg⟩

/-- Settling the values from the last one up leaves each as it was settled. -/
theorem settleAll_nonneg {maxSweeps : Nat} (inside : count ≤ st.diag.size)
    (done : settleAll tolerance maxSweeps count st = .ok st') :
    Confined count st st' ∧ ∀ j, j < count → Scalar.isFinite (st'.d j) = true → 0 ≤ st'.d j := by
  induction count generalizing st with
  | zero =>
    cases done
    exact ⟨.refl 0 _, fun j below => absurd below (Nat.not_lt_zero j)⟩
  | succ k ih =>
    unfold settleAll at done
    split at done
    · cases done
    · next middle settled =>
      obtain ⟨first, last⟩ := settle_nonneg inside settled
      obtain ⟨rest, earlier⟩ := ih (first.size.symm ▸ Nat.le_of_lt inside) done
      refine ⟨first.trans (rest.mono (Nat.le_succ k)), fun j below finite => ?_⟩
      rcases Nat.lt_or_eq_of_le (Nat.le_of_lt_succ below) with earlier' | rfl
      · exact earlier j earlier' finite
      · rw [rest.value j (Nat.le_refl j)] at finite ⊢
        exact last finite

/-- An iteration keeps all extents, and its finite values come out at least zero. -/
theorem diagonalize_nonneg {maxSweeps : Nat} (done : st.diagonalize tolerance maxSweeps = .ok st') :
    Confined st.diag.size st st' ∧
      ∀ j, j < st.diag.size → Scalar.isFinite (st'.d j) = true → 0 ≤ st'.d j :=
  settleAll_nonneg (Nat.le_refl _) done

end BondSvd.Iteration
