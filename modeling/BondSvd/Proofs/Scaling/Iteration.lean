import Mathlib
import BondSvd.Proofs.Scaling.Reduction

namespace BondSvd.Iteration
variable {c tolerance : ℝ} {st : Iteration ℝ} {i k l : ℕ}

noncomputable def multiple (st : Iteration ℝ) (c : ℝ) : Iteration ℝ :=
  { st with diag := st.diag.map (· * c), superDiag := st.superDiag.map (· * c) }

noncomputable def Bulge.multiple (b : Bulge ℝ) (c : ℝ) : Bulge ℝ := { b with f := b.f * c, x := b.x * c }

section Entries

@[simp] theorem d_multiple (st : Iteration ℝ) (c : ℝ) (k : ℕ) : (st.multiple c).d k = st.d k * c :=
  getD_multiple st.diag c k

@[simp] theorem e_multiple (st : Iteration ℝ) (c : ℝ) (k : ℕ) : (st.multiple c).e k = st.e k * c :=
  getD_multiple st.superDiag c k

theorem setD_multiple (st : Iteration ℝ) (c : ℝ) (k : ℕ) (x : ℝ) :
    (st.multiple c).setD k (x * c) = (st.setD k x).multiple c := by
  simp only [setD, multiple, Array.map_setIfInBounds]

theorem setE_multiple (st : Iteration ℝ) (c : ℝ) (k : ℕ) (x : ℝ) :
    (st.multiple c).setE k (x * c) = (st.setE k x).multiple c := by
  simp only [setE, multiple, Array.map_setIfInBounds]

private theorem rotateLeft_multiple (st : Iteration ℝ) (c : ℝ) (p q : ℕ) (cos sin : ℝ) :
    (st.multiple c).rotateLeft p q cos sin = (st.rotateLeft p q cos sin).multiple c := by
  simp only [rotateLeft, multiple, Array.size_map]

private theorem rotateRight_multiple (st : Iteration ℝ) (c : ℝ) (p q : ℕ) (cos sin : ℝ) :
    (st.multiple c).rotateRight p q cos sin = (st.rotateRight p q cos sin).multiple c := by
  simp only [rotateRight, multiple, Array.size_map]

end Entries

private theorem abs_le_multiple (positive : 0 < c) (x tolerance : ℝ) :
    Scalar.abs (x * c) ≤ tolerance * c ↔ Scalar.abs x ≤ tolerance := by
  rw [Scalar.abs_multiple positive, mul_le_mul_iff_left₀ positive]

section Isolation

private theorem split_multiple (positive : 0 < c) (tolerance : ℝ) (st : Iteration ℝ) (k : ℕ) :
    (st.multiple c).split (tolerance * c) k = st.split tolerance k := by
  induction k with
  | zero => rfl
  | succ l ih => simp only [split, e_multiple, d_multiple, abs_le_multiple positive, ih]

private theorem cancel_multiple (positive : 0 < c) (tolerance : ℝ) (pivot count i : ℕ) (cos sin : ℝ) (st : Iteration ℝ) :
    cancel (tolerance * c) pivot count i cos sin (st.multiple c) =
      (cancel tolerance pivot count i cos sin st).multiple c := by
  induction count generalizing i cos sin st with
  | zero => rfl
  | succ count ih =>
    have f : sin * (st.e i * c) = sin * st.e i * c := by ring
    have coupling : st.e i * c * cos = st.e i * cos * c := by ring
    simp only [cancel, e_multiple, f, coupling, setE_multiple, abs_le_multiple positive]
    split
    · rfl
    · have quotient (x y : ℝ) : x * c / (y * c) = x / y := mul_div_mul_right x y positive.ne'
      simp only [d_multiple, Scalar.hypot_multiple positive, ← neg_mul, quotient, setD_multiple, rotateLeft_multiple, ih]

private theorem isolate_multiple (positive : 0 < c) (tolerance : ℝ) (k : ℕ) (st : Iteration ℝ) :
    (st.multiple c).isolate (tolerance * c) k =
      ((st.isolate tolerance k).1, (st.isolate tolerance k).2.multiple c) := by
  simp only [isolate, split_multiple positive, cancel_multiple positive]
  split <;> rfl

end Isolation

section Sweep

/-- The quotient that the shift is found from does not change, and the shift itself grows with the entries. -/
theorem shift_multiple (positive : 0 < c) (l k : ℕ) (st : Iteration ℝ) :
    (st.multiple c).shift l k = st.shift l k * c := by
  have square : c * c ≠ 0 := mul_ne_zero positive.ne' positive.ne'
  have quotient (two y w g h : ℝ) : ((y * c - w * c) * (y * c + w * c) + (g * c - h * c) * (g * c + h * c)) /
      (two * (h * c) * (y * c)) = ((y - w) * (y + w) + (g - h) * (g + h)) / (two * h * y) := by
    rw [← mul_div_mul_right _ (two * h * y) square]
    congr 1 <;> ring
  have shifted (x w y h divisor : ℝ) :
      ((x * c - w * c) * (x * c + w * c) + (y * c / divisor - h * c) * (h * c)) / (x * c) =
        ((x - w) * (x + w) + (y / divisor - h) * h) / x * c := by
    rw [← mul_div_right_comm, ← mul_div_mul_right _ x positive.ne']
    congr 1
    ring
  simp only [shift, d_multiple, e_multiple, quotient, shifted]

private theorem degenerate_forces (c f h x cos g sin : ℝ) :
    Forces (degenerateOutcomes f h x cos g sin) (degenerateOutcomes (f * c) (h * c) (x * c) cos (g * c) sin)
      (isDegenerate (f * c) (h * c) (x * c) cos (g * c) sin = isDegenerate f h x cos g sin) := by
  unfold degenerateOutcomes
  refine .test fun zero => .test fun tinyH => ?_
  unfold isDegenerate
  rw [← zero, ← tinyH]
  rw [decide_eq_decide] at zero tinyH
  by_cases smallH : Scalar.abs h < Tolerance.sign
  · rw [if_pos smallH, if_pos (tinyH.mp smallH)]
    refine .test fun tinyF => ?_
    rw [← tinyF]
    rw [decide_eq_decide] at tinyF
    by_cases smallF : Scalar.abs f < Tolerance.sign ∧ Scalar.abs f ≤ Tolerance.zero
    · rw [if_pos smallF, if_pos ⟨tinyF.mp smallF.1, zero.mp smallF.2⟩]
      refine .test fun vanishes => .nothing ?_
      rw [vanishes]
    · rw [if_neg smallF, if_neg fun both => smallF ⟨tinyF.mpr both.1, zero.mpr both.2⟩]
      refine .nothing ?_
      rw [not_and_or] at smallF
      rcases smallF with large | large <;> simp [large]
  · rw [if_neg smallH, if_neg (mt tinyH.mpr smallH)]
    refine .nothing ?_
    simp [smallH]

private theorem closeRotation_multiple (positive : 0 < c) {f h : ℝ}
    (same : Scalar.hypot h f ≤ Tolerance.zero ↔ Scalar.hypot h f * c ≤ Tolerance.zero) (tiny : Bool) :
    closeRotation (f * c) (h * c) tiny =
      (closeRotation f h tiny).map fun rotation => (rotation.1 * c, rotation.2) := by
  have quotient (x y : ℝ) : x * c / (y * c) = x / y := mul_div_mul_right x y positive.ne'
  simp only [closeRotation, Scalar.hypot_multiple positive, ← same, quotient]
  split
  · rfl
  · split <;> rfl

private theorem chaseStep_forces (positive : 0 < c) (i : ℕ) (b : Bulge ℝ) (st : Iteration ℝ) :
    Forces (chaseStepOutcomes i b st) (chaseStepOutcomes i (b.multiple c) (st.multiple c))
      (chaseStep i (b.multiple c) (st.multiple c) =
        (chaseStep i b st).map fun moved => (moved.1.multiple c, moved.2.multiple c)) := by
  have quotient (x y : ℝ) : x * c / (y * c) = x / y := mul_div_mul_right x y positive.ne'
  have left (x y : ℝ) : x * (y * c) = x * y * c := (mul_assoc x y c).symm
  have right (x y : ℝ) : x * c * y = x * y * c := mul_right_comm x c y
  unfold chaseStepOutcomes chaseStep
  simp only [Bulge.multiple, d_multiple, e_multiple, left, right, Scalar.hypot_multiple positive, quotient,
    ← add_mul, ← sub_mul]
  generalize Scalar.hypot (b.sin * st.e i) b.f = w
  refine .test fun first => ?_
  rw [decide_eq_decide] at first
  by_cases none : w ≤ Tolerance.zero
  · rw [if_pos none, if_pos (first.mp none), if_pos none, if_pos (first.mp none)]
    exact .nothing rfl
  · rw [if_neg none, if_neg (mt first.mpr none), if_neg none, if_neg (mt first.mpr none)]
    generalize b.f / w = cos
    generalize b.sin * st.e i / w = sin
    generalize st.e i * b.cos = g
    refine (degenerate_forces c _ _ b.x cos g sin).append fun tiny => ?_
    refine .test fun second => .nothing ?_
    rw [decide_eq_decide] at second
    rw [tiny, closeRotation_multiple positive second]
    cases closeRotation (b.x * cos + g * sin) (st.d i * sin)
        (isDegenerate (b.x * cos + g * sin) (st.d i * sin) b.x cos g sin) with
    | error breakdown => rfl
    | ok rotation =>
      simp only [Except.map, setE_multiple, setD_multiple, rotateRight_multiple, rotateLeft_multiple]
      rfl

private theorem chase_forces (positive : 0 < c) (count i : ℕ) (b : Bulge ℝ) (st : Iteration ℝ) :
    Forces (chaseOutcomes count i b st) (chaseOutcomes count i (b.multiple c) (st.multiple c))
      (chase count i (b.multiple c) (st.multiple c) =
        (chase count i b st).map fun moved => (moved.1.multiple c, moved.2.multiple c)) := by
  induction count generalizing i b st with
  | zero => exact .nothing rfl
  | succ count ih =>
    unfold chaseOutcomes chase
    refine (chaseStep_forces positive i b st).append fun stepped => ?_
    rw [stepped]
    cases chaseStep i b st with
    | error breakdown => exact .nothing rfl
    | ok moved => exact ih (i + 1) moved.1 moved.2

private theorem sweep_forces (positive : 0 < c) (l k : ℕ) (st : Iteration ℝ) :
    Forces (sweepOutcomes l k st) (sweepOutcomes l k (st.multiple c))
      (sweep l k (st.multiple c) = (sweep l k st).map (·.multiple c)) := by
  have start : (⟨(st.multiple c).shift l k, (st.multiple c).d l, 1, 1⟩ : Bulge ℝ) =
      (⟨st.shift l k, st.d l, 1, 1⟩ : Bulge ℝ).multiple c := by
    rw [shift_multiple positive, d_multiple]
    rfl
  unfold sweepOutcomes sweep
  rw [start]
  refine (chase_forces positive (k - l) (l + 1) ⟨st.shift l k, st.d l, 1, 1⟩ st).mono fun chased => ?_
  rw [chased]
  cases chase (k - l) (l + 1) ⟨st.shift l k, st.d l, 1, 1⟩ st with
  | error breakdown => rfl
  | ok moved =>
    have zero : (moved.2.multiple c).setE l 0 = (moved.2.setE l 0).multiple c := by
      rw [← setE_multiple, zero_mul]
    simp only [Except.map, zero, Bulge.multiple, setE_multiple, setD_multiple]

end Sweep

section Settling

private theorem makeNonNegative_multiple (positive : 0 < c) (k : ℕ) (st : Iteration ℝ) :
    (st.multiple c).makeNonNegative k = (st.makeNonNegative k).multiple c := by
  have sign : st.d k * c < 0 ↔ st.d k < 0 := by
    rw [mul_neg_iff]
    simp [positive, positive.not_gt]
  unfold makeNonNegative
  simp only [d_multiple, sign]
  split
  · simp only [multiple, ← neg_mul, Array.map_setIfInBounds, Array.size_map]
  · rfl

/-- The sweeps for one value; the search for its block is relative. -/
theorem settle_forces (positive : 0 < c) (tolerance : ℝ) (k sweeps : ℕ) (st : Iteration ℝ) :
    Forces (settleOutcomes tolerance k sweeps st) (settleOutcomes (tolerance * c) k sweeps (st.multiple c))
      (settle (tolerance * c) k sweeps (st.multiple c) = (settle tolerance k sweeps st).map (·.multiple c)) := by
  induction sweeps generalizing st with
  | zero =>
    refine .nothing ?_
    unfold settle
    rw [isolate_multiple positive]
    dsimp only
    split
    · rw [makeNonNegative_multiple positive]
      rfl
    · rfl
  | succ sweeps ih =>
    unfold settle
    rw [settleOutcomes_succ, settleOutcomes_succ, isolate_multiple positive]
    dsimp only
    split
    · refine .nothing ?_
      rw [makeNonNegative_multiple positive]
      rfl
    · refine (sweep_forces positive (st.isolate tolerance k).1 k (st.isolate tolerance k).2).append fun swept => ?_
      rw [swept]
      cases sweep (st.isolate tolerance k).1 k (st.isolate tolerance k).2 with
      | error breakdown => exact .nothing rfl
      | ok st' => exact ih st'

theorem settleAll_forces (positive : 0 < c) (tolerance : ℝ) (maxSweeps count : ℕ) (st : Iteration ℝ) :
    Forces (settleAllOutcomes tolerance maxSweeps count st)
      (settleAllOutcomes (tolerance * c) maxSweeps count (st.multiple c))
      (settleAll (tolerance * c) maxSweeps count (st.multiple c) =
        (settleAll tolerance maxSweeps count st).map (·.multiple c)) := by
  induction count generalizing st with
  | zero => exact .nothing rfl
  | succ k ih =>
    unfold settleAll
    rw [settleAllOutcomes_succ, settleAllOutcomes_succ]
    refine (settle_forces positive tolerance k maxSweeps st).append fun settled => ?_
    rw [settled]
    cases settle tolerance k maxSweeps st with
    | error breakdown => exact .nothing rfl
    | ok st' => exact ih st'

end Settling

end BondSvd.Iteration
