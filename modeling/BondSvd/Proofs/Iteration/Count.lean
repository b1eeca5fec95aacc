import Mathlib.Tactic.Ring
import BondSvd.Bidiagonal.Iteration

namespace BondSvd.Iteration
universe u
variable {α : Type u} [Scalar α] {st st' : Iteration α} {tolerance : α} {k : Nat}

/-- Cancellation has no second rotation that could be degenerate. -/
theorem degenerate_cancel (pivot steps i : Nat) (cos sin : α) (st : Iteration α) :
    (st.cancel tolerance pivot steps i cos sin).degenerate = st.degenerate := by
  induction steps generalizing st i cos sin with
  | zero => rfl
  | succ steps ih =>
    unfold cancel
    dsimp only
    split
    · rfl
    · exact ih ..

private theorem degenerate_isolate (tolerance : α) (k : Nat) (st : Iteration α) :
    (st.isolate tolerance k).2.degenerate = st.degenerate := by
  unfold isolate
  dsimp only
  split
  · exact degenerate_cancel ..
  · rfl

private theorem degenerate_makeNonNegative (k : Nat) (st : Iteration α) :
    (st.makeNonNegative k).degenerate = st.degenerate := by
  unfold makeNonNegative
  split <;> rfl

private theorem chaseStep_count {i : Nat} {b b' : Bulge α} (done : chaseStep i b st = .ok (b', st')) :
    st'.degenerate ≤ st.degenerate + 1 := by
  unfold chaseStep at done
  dsimp only at done
  split at done
  · cases done
  · split at done
    · cases done
    · cases done
      dsimp only
      split
      · exact Nat.le_refl _
      · exact Nat.le_succ _

private theorem chase_count {steps i : Nat} {b b' : Bulge α} (done : chase steps i b st = .ok (b', st')) :
    st'.degenerate ≤ st.degenerate + steps := by
  induction steps generalizing st b i with
  | zero =>
    cases done
    exact Nat.le_refl _
  | succ steps ih =>
    unfold chase at done
    split at done
    · cases done
    · next moved middle stepped =>
      have first := chaseStep_count stepped
      have rest := ih done
      omega

private theorem sweep_count {l : Nat} (done : sweep l k st = .ok st') : st'.degenerate ≤ st.degenerate + k := by
  unfold sweep at done
  split at done
  · cases done
  · next b middle chased =>
    cases done
    have steps : middle.degenerate ≤ st.degenerate + (k - l) := chase_count chased
    exact Nat.le_trans steps (Nat.add_le_add_left (Nat.sub_le k l) _)

/-- Each sweep over the block that ends at `k` has at most `k` steps. -/
theorem settle_count {sweeps : Nat} (done : settle tolerance k sweeps st = .ok st') :
    st'.degenerate ≤ st.degenerate + sweeps * k := by
  have isolated := degenerate_isolate tolerance k st
  induction sweeps generalizing st with
  | zero =>
    unfold settle at done
    dsimp only at done
    split at done
    · cases done
      rw [degenerate_makeNonNegative, isolated]
      exact Nat.le_add_right _ _
    · cases done
  | succ sweeps ih =>
    unfold settle at done
    dsimp only at done
    split at done
    · cases done
      rw [degenerate_makeNonNegative, isolated]
      exact Nat.le_add_right _ _
    · split at done
      · cases done
      · next middle swept =>
        have first := sweep_count swept
        have rest := ih done (degenerate_isolate tolerance k middle)
        rw [isolated] at first
        rw [Nat.succ_mul]
        omega

private theorem settleAll_count {sweeps count : Nat} (done : settleAll tolerance sweeps count st = .ok st') :
    2 * st'.degenerate ≤ 2 * st.degenerate + sweeps * (count * (count - 1)) := by
  induction count generalizing st with
  | zero =>
    cases done
    exact Nat.le_add_right _ _
  | succ k ih =>
    unfold settleAll at done
    split at done
    · cases done
    · next middle settled =>
      have first := settle_count settled
      have rest := ih done
      have pairs : (k + 1) * k = 2 * k + k * (k - 1) := by
        cases k with
        | zero => rfl
        | succ k =>
          rw [Nat.add_sub_cancel]
          ring
      rw [Nat.add_sub_cancel, pairs, Nat.mul_add, Nat.mul_left_comm]
      omega

/-- A value takes at most the allowed sweeps, and each of them a step for every value before it. -/
theorem diagonalize_count {sweeps : Nat} (done : st.diagonalize tolerance sweeps = .ok st') :
    2 * st'.degenerate ≤ 2 * st.degenerate + sweeps * (st.diag.size * (st.diag.size - 1)) := settleAll_count done

end BondSvd.Iteration
