import Mathlib
import BondSvd.Proofs.Iteration.Isolation

namespace BondSvd.Iteration
open scoped Matrix Matrix.Norms.Frobenius
variable {m n : ℕ} {st st' : Iteration ℝ} {b b' : Bulge ℝ} {p : ℕ}

/-- Rotations count nothing; the step counts its degenerate one itself. -/
private theorem degenerate_turned (p q : ℕ) (x y cos sin cos' sin' : ℝ) :
    ((((st.setE p x).rotateRight p q cos sin).setD p y).rotateLeft p q cos' sin').degenerate = st.degenerate := rfl

/-- A plane rotation, with the length that it leaves in the first of its two places. -/
structure Givens where
  length : ℝ
  cos : ℝ
  sin : ℝ

/-- The entry on the diagonal of column `p` between the two rotations of a step. -/
noncomputable def Givens.diagonal (right : Givens) (p : ℕ) (b : Bulge ℝ) (st : Iteration ℝ) : ℝ :=
  b.x * right.cos + st.e (p + 1) * b.cos * right.sin

/-- The entry below it. -/
noncomputable def Givens.below (right : Givens) (p : ℕ) (st : Iteration ℝ) : ℝ := st.d (p + 1) * right.sin

/-- The entry on the diagonal of the next column, and the one above it. -/
noncomputable def Givens.nextDiagonal (right : Givens) (p : ℕ) (st : Iteration ℝ) : ℝ := st.d (p + 1) * right.cos
noncomputable def Givens.coupling (right : Givens) (p : ℕ) (b : Bulge ℝ) (st : Iteration ℝ) : ℝ :=
  st.e (p + 1) * b.cos * right.cos - b.x * right.sin

/-- One step of the chase by its two rotations. -/
structure Turn (p : ℕ) (b : Bulge ℝ) (st : Iteration ℝ) (b' : Bulge ℝ) (st' : Iteration ℝ)
    (right left : Givens) : Prop where
  rightUnit : right.cos * right.cos + right.sin * right.sin = 1
  leftUnit : left.cos * left.cos + left.sin * left.sin = 1
  run : right.cos * right.length = b.f
  rise : right.sin * right.length = b.sin * st.e (p + 1)
  bulge : b' =
    ⟨left.cos * right.coupling p b st + left.sin * right.nextDiagonal p st,
      left.cos * right.nextDiagonal p st - left.sin * right.coupling p b st, left.cos, left.sin⟩
  factors : ∃ count, st' =
    { ((((st.setE p right.length).rotateRight p (p + 1) right.cos right.sin).setD p left.length).rotateLeft
        p (p + 1) left.cos left.sin) with degenerate := count }
  counted : st.degenerate ≤ st'.degenerate
  near : (right.diagonal p b st * left.cos + right.below p st * left.sin - left.length) ^ 2 +
      (right.below p st * left.cos - right.diagonal p b st * left.sin) ^ 2 ≤
    (2 * Tolerance.sign * (st'.degenerate - st.degenerate)) ^ 2

/-- A degenerate rotation leaves a residue of less than twice the sign tolerance. -/
theorem degenerate_residue {f h : ℝ} (tiny : |f| ≤ Tolerance.zero) (small : |h| < Tolerance.sign) :
    (f - Scalar.hypot h f) ^ 2 + h ^ 2 ≤ (2 * Tolerance.sign) ^ 2 := by
  have scale : 4 * (Tolerance.zero : ℝ) ^ 2 ≤ Tolerance.sign ^ 2 := by
    unfold Tolerance.zero Tolerance.sign
    norm_num
  have length : Scalar.hypot h f ^ 2 = h ^ 2 + f ^ 2 := by
    rw [sq, sq, sq]
    exact Scalar.hypot_mul_self h f
  have smallF : f ^ 2 ≤ Tolerance.zero ^ 2 := sq_le_sq.mpr (tiny.trans (le_abs_self _))
  have smallH : h ^ 2 ≤ Tolerance.sign ^ 2 := sq_le_sq.mpr (small.le.trans (le_abs_self _))
  calc (f - Scalar.hypot h f) ^ 2 + h ^ 2
      ≤ 2 * (f ^ 2 + Scalar.hypot h f ^ 2) + h ^ 2 := by
        gcongr
        linarith [sq_nonneg (f + Scalar.hypot h f)]
    _ = 4 * f ^ 2 + 3 * h ^ 2 := by
      rw [length]
      ring
    _ ≤ (2 * Tolerance.sign) ^ 2 := by
      rw [mul_pow]
      linarith

private theorem isDegenerate_small {f h x cos g sin : ℝ} (tiny : isDegenerate f h x cos g sin = true) :
    |f| ≤ Tolerance.zero ∧ |h| < Tolerance.sign := by
  simp only [isDegenerate, Bool.and_eq_true, decide_eq_true_eq, Scalar.abs_exact] at tiny
  exact ⟨tiny.1.2, tiny.1.1.1⟩

private theorem closeRotation_ok {f h length cos sin : ℝ} {tiny : Bool}
    (closed : closeRotation f h tiny = .ok (length, cos, sin)) :
    cos * cos + sin * sin = 1 ∧
      (tiny = true ∧ length = Scalar.hypot h f ∧ cos = 1 ∧ sin = 0 ∨
        f * cos + h * sin = length ∧ h * cos = f * sin) := by
  unfold closeRotation at closed
  cases tiny with
  | true =>
    simp only [if_true, Except.ok.injEq, Prod.mk.injEq] at closed
    obtain ⟨rfl, rfl, rfl⟩ := closed
    exact ⟨by norm_num, .inl ⟨rfl, rfl, rfl, rfl⟩⟩
  | false =>
    rw [if_neg Bool.false_ne_true] at closed
    split at closed
    · cases closed
    · next large =>
      simp only [Except.ok.injEq, Prod.mk.injEq] at closed
      obtain ⟨rfl, rfl, rfl⟩ := closed
      have positive : 0 < Scalar.hypot h f := Tolerance.zero_pos.trans (not_le.mp large)
      have square := Scalar.hypot_mul_self h f
      refine ⟨?_, .inr ⟨?_, ?_⟩⟩
      · linarith [Scalar.unit_of_hypot positive]
      · field_simp
        linarith
      · ring

theorem chaseStep_turn (done : chaseStep (p + 1) b st = .ok (b', st')) :
    ∃ right left, Turn p b st b' st' right left := by
  unfold chaseStep at done
  dsimp only at done
  split at done
  · cases done
  · next large =>
    have positive : 0 < Scalar.hypot (b.sin * st.e (p + 1)) b.f := Tolerance.zero_pos.trans (not_le.mp large)
    have unit := Scalar.unit_of_hypot positive
    generalize Scalar.hypot (b.sin * st.e (p + 1)) b.f = w at *
    split at done
    · cases done
    · next w' cos' sin' closed =>
      simp only [Except.ok.injEq, Prod.mk.injEq] at done
      obtain ⟨rfl, rfl⟩ := done
      refine ⟨⟨w, b.f / w, b.sin * st.e (p + 1) / w⟩, ⟨w', cos', sin'⟩, ?_⟩
      obtain ⟨leftUnit, closed⟩ := closeRotation_ok closed
      refine ⟨by linarith, leftUnit, div_mul_cancel₀ _ positive.ne', div_mul_cancel₀ _ positive.ne', rfl,
        ⟨_, rfl⟩, Nat.le_add_right .., ?_⟩
      rw [Givens.diagonal, Givens.below, degenerate_turned]
      rcases closed with ⟨tiny, rfl, rfl, rfl⟩ | ⟨onto, gone⟩
      · obtain ⟨smallF, smallH⟩ := isDegenerate_small tiny
        simpa [tiny] using degenerate_residue smallF smallH
      · rw [onto, gone, sub_self, sub_self, zero_pow two_ne_zero, add_zero]
        exact sq_nonneg _

/-- The values before step `i` of a sweep over the block from `l` to `k`: bidiagonal but for
the bulge above the couplings, and for what the bulge carries in place of the stored values. -/
noncomputable def bulging (l k i : ℕ) (b : Bulge ℝ) (st : Iteration ℝ) (r c : ℕ) : ℝ :=
  if r = c then if c + 1 = i then b.x else st.d c
  else if r + 1 = c ∧ c ≤ k ∧ c ≠ l then
    if c + 1 = i then b.f else if c = i then b.cos * st.e c else st.e c
  else if r + 2 = c ∧ c = i ∧ l + 1 < i ∧ i ≤ k then b.sin * st.e c
  else 0

section Rows
variable (l k : ℕ) (b st) {i : ℕ}

theorem bulging_far {r : ℕ} (above : r + 2 ≠ i) (last : r + 1 ≠ i) (c : ℕ) :
    bulging l k i b st r c =
      if c = r then st.d r else if c = r + 1 then if r + 1 ≤ k ∧ r + 1 ≠ l then st.e (r + 1) else 0 else 0 := by
  unfold bulging
  by_cases diagonal : c = r
  · simp [diagonal, last]
  · by_cases next : c = r + 1
    · subst next
      simp [above, last]
    · simp only [diagonal, next, Ne.symm diagonal, Ne.symm next, if_false, false_and]
      rw [if_neg (by omega)]

private theorem bulging_last (after : l ≤ p) (c : ℕ) :
    bulging l k (p + 1) b st p c =
      if c = p then b.x else if c = p + 1 then if p + 1 ≤ k then b.cos * st.e (p + 1) else 0 else 0 := by
  unfold bulging
  by_cases diagonal : c = p
  · simp [diagonal]
  · by_cases next : c = p + 1
    · subst next
      simp [show p + 1 ≠ l by omega]
    · simp only [diagonal, next, Ne.symm diagonal, Ne.symm next, if_false, false_and, and_false]

private theorem bulging_above (c : ℕ) :
    bulging l k (p + 2) b st p c =
      if c = p then st.d p
      else if c = p + 1 then if p + 1 ≤ k ∧ p + 1 ≠ l then b.f else 0
      else if c = p + 2 then if l < p + 1 ∧ p + 2 ≤ k then b.sin * st.e (p + 2) else 0 else 0 := by
  unfold bulging
  by_cases diagonal : c = p
  · simp [diagonal]
  · by_cases next : c = p + 1
    · subst next
      simp
    · by_cases beyond : c = p + 2
      · subst beyond
        simp
      · simp [diagonal, next, beyond, Ne.symm diagonal, Ne.symm next, Ne.symm beyond]

end Rows

section Turn
variable {l k : ℕ} {right left : Givens} (turn : Turn p b st b' st' right left)
include turn

theorem Turn.d_eq (bound : p < st.diag.size) (j : ℕ) : st'.d j = if p = j then left.length else st.d j := by
  obtain ⟨count, rfl⟩ := turn.factors
  exact d_setD ((st.setE p right.length).rotateRight p (p + 1) right.cos right.sin) bound left.length j

theorem Turn.e_eq (bound : p < st.superDiag.size) (j : ℕ) : st'.e j = if p = j then right.length else st.e j := by
  obtain ⟨count, rfl⟩ := turn.factors
  exact e_setE st bound right.length j

/-- In the rows that a step does not combine, its rotation from the right takes the bulge away. -/
theorem Turn.rotateGridCols_bulging (diagBound : p < st.diag.size) (superBound : p < st.superDiag.size)
    (after : l ≤ p) (inside : p < k) {r : ℕ} (notTop : r ≠ p) (notLow : r ≠ p + 1) (c : ℕ) :
    rotateGridCols p (p + 1) right.cos right.sin (bulging l k (p + 1) b st) r c = bulging l k (p + 2) b' st' r c := by
  have rightUnit := turn.rightUnit
  rw [bulging_far _ _ _ _ (by omega) (by omega), turn.d_eq diagBound, turn.e_eq superBound, if_neg notTop.symm]
  simp only [rotateGridCols]
  by_cases before : r + 1 = p
  · subst before
    have apart : r + 1 + 1 ≠ r := by omega
    simp only [bulging_above, ← turn.rise, ← turn.run]
    rcases eq_or_ne c (r + 1) with rfl | off
    · by_cases started : l = r + 1
      · simp [started, apart]
      · have within : l ≤ r ∧ r + 2 ≤ k := by omega
        simp [Ne.symm started, inside.le, apart, within]
        linear_combination right.length * rightUnit
    · rcases eq_or_ne c (r + 1 + 1) with rfl | off'
      · simp [apart]
        split_ifs <;> first | omega | ring
      · simp [off, off']
  · have far := bulging_far st b l k (i := p + 1) (r := r) (by omega) (by omega)
    have away : p ≠ r + 1 := fun same => before same.symm
    simp only [far, notTop.symm, notLow.symm, away, if_false]
    rcases eq_or_ne c (p + 1) with rfl | off
    · simp [notLow.symm, notTop.symm]
    · rcases eq_or_ne c p with rfl | off'
      · simp [notTop.symm, away]
      · simp [off, off']

/-- The two rotations of a step carry the bulge one place on, up to the residue. -/
theorem Turn.rotate_bulging (diagBound : p < st.diag.size) (superBound : p < st.superDiag.size) (after : l ≤ p)
    (inside : p < k) (r c : ℕ) :
    rotateGridRows p (p + 1) left.cos left.sin
          (rotateGridCols p (p + 1) right.cos right.sin (bulging l k (p + 1) b st)) r c -
        bulging l k (p + 2) b' st' r c =
      columnPair p (p + 1) p
        (right.diagonal p b st * left.cos + right.below p st * left.sin - left.length)
        (right.below p st * left.cos - right.diagonal p b st * left.sin) r c := by
  have top := bulging_last st b l k after
  have low := bulging_far st b l k (i := p + 1) (r := p + 1) (by omega) (by omega)
  have top' := bulging_above st' b' (p := p) l k
  have low' := bulging_last st' b' l k (p := p + 1) (after.trans (Nat.le_succ p))
  have apart : p ≠ p + 1 + 1 := by omega
  have ends : l < p + 1 := Nat.lt_succ_of_le after
  have inner : p + 1 ≤ k := inside
  have beyond : p + 1 + 1 ≠ l := by omega
  by_cases isLow : r = p + 1
  · subst isLow
    rw [low']
    simp only [rotateGridRows, rotateGridCols, columnPair, Givens.diagonal, Givens.below, low, top,
      turn.e_eq superBound, turn.bulge, Givens.nextDiagonal, Givens.coupling]
    rcases eq_or_ne c p with rfl | off
    · simp [inner, apart, mul_comm b.cos]
    · rcases eq_or_ne c (p + 1) with rfl | off'
      · simp [inner, apart]
        ring
      · rcases eq_or_ne c (p + 1 + 1) with rfl | off''
        · simp [beyond, apart, apart.symm]
          split_ifs <;> ring
        · simp [off, off', off'']
  · by_cases isTop : r = p
    · subst isTop
      rw [top']
      simp only [rotateGridRows, rotateGridCols, columnPair, Givens.diagonal, Givens.below, low, top,
        turn.e_eq superBound, turn.d_eq diagBound, turn.bulge, Givens.nextDiagonal, Givens.coupling]
      rcases eq_or_ne c r with rfl | off
      · simp [inner, apart, mul_comm b.cos]
      · rcases eq_or_ne c (r + 1) with rfl | off'
        · simp [inner, apart, ends.ne']
          ring
        · rcases eq_or_ne c (r + 1 + 1) with rfl | off''
          · simp [beyond, apart.symm, ends]
            split_ifs <;> first | omega | ring
          · simp [off, off', off'']
    · rw [rotateGridRows, if_neg isLow, if_neg isTop,
        turn.rotateGridCols_bulging diagBound superBound after inside isTop isLow, sub_self]
      simp [columnPair, isLow, isTop]

theorem Turn.regular (regular : st.Regular m n) (bound : p + 1 < n) : st'.Regular m n := by
  obtain ⟨count, rfl⟩ := turn.factors
  have first : p < n := Nat.lt_of_succ_lt bound
  have distinct : p ≠ p + 1 := (Nat.succ_ne_self p).symm
  exact ((((regular.setE p _).rotateRight first bound distinct turn.rightUnit).setD p _).rotateLeft first bound
    distinct turn.leftUnit).countDegenerate count

/-- A step keeps the product of the factors with the values, up to the residue. -/
theorem Turn.norm_assembled_sub_le (regular : st.Regular m n) (after : l ≤ p) (inside : p < k) (fits : k < n) :
    ‖st.assembled m n (bulging l k (p + 1) b st) - st'.assembled m n (bulging l k (p + 2) b' st')‖ ≤
      2 * Tolerance.sign * (st'.degenerate - st.degenerate) := by
  have first : p < n := inside.trans fits
  have second : p + 1 < n := (Nat.succ_le_of_lt inside).trans_lt fits
  have distinct : p ≠ p + 1 := (Nat.succ_ne_self p).symm
  have regular' := turn.regular regular second
  have before := (regular.setE p right.length).rotateRight first second distinct turn.rightUnit
  have rotated : st'.assembled m n (rotateGridRows p (p + 1) left.cos left.sin
      (rotateGridCols p (p + 1) right.cos right.sin (bulging l k (p + 1) b st))) =
        st.assembled m n (bulging l k (p + 1) b st) := by
    obtain ⟨count, same⟩ := turn.factors
    calc st'.assembled m n _
        = ((((st.setE p right.length).rotateRight p (p + 1) right.cos right.sin).setD p left.length).rotateLeft
            p (p + 1) left.cos left.sin).assembled m n _ := by rw [same]; rfl
      _ = ((st.setE p right.length).rotateRight p (p + 1) right.cos right.sin).assembled m n _ :=
        (before.setD p left.length).assembled_rotateLeft first second distinct turn.leftUnit _
      _ = st.assembled m n _ :=
        (regular.setE p right.length).assembled_rotateRight first second distinct turn.rightUnit _
  rw [← rotated, regular'.norm_assembled_sub]
  have counted : (st.degenerate : ℝ) ≤ st'.degenerate := by exact_mod_cast turn.counted
  refine norm_gridMatrix_sub_le_pair p (p + 1) p
    (mul_nonneg (mul_nonneg zero_le_two Tolerance.sign_pos.le) (sub_nonneg.mpr counted)) ?_ turn.near
  intro r c _ _
  exact turn.rotate_bulging (regular.diagSize.symm ▸ first) (regular.superSize.symm ▸ first) after inside r c

end Turn

/-- What the steps of a sweep from index `p + 1` on do. -/
structure Chased (m n l k p : ℕ) (b : Bulge ℝ) (st : Iteration ℝ) (b' : Bulge ℝ) (st' : Iteration ℝ) : Prop where
  regular : st'.Regular m n
  outside : ∀ j, j < p ∨ k ≤ j → st'.d j = st.d j ∧ st'.e j = st.e j
  near : ‖st.assembled m n (bulging l k (p + 1) b st) - st'.assembled m n (bulging l k (k + 1) b' st')‖ ≤
    2 * Tolerance.sign * (st'.degenerate - st.degenerate)

theorem chase_chased {l k count : ℕ} (regular : st.Regular m n) (after : l ≤ p) (reaches : p + count = k)
    (fits : k < n) (done : chase count (p + 1) b st = .ok (b', st')) : Chased m n l k p b st b' st' := by
  induction count generalizing p b st with
  | zero =>
    obtain rfl : p = k := reaches
    cases done
    refine ⟨regular, fun _ _ => ⟨rfl, rfl⟩, ?_⟩
    rw [sub_self, norm_zero, sub_self, mul_zero]
  | succ count ih =>
    rw [chase] at done
    split at done
    · cases done
    · next b₁ st₁ stepped =>
      obtain ⟨right, left, turn⟩ := chaseStep_turn stepped
      have inside : p < k := by omega
      have rest := ih (turn.regular regular (by omega)) (after.trans (Nat.le_succ p)) (by omega) done
      have diagBound : p < st.diag.size := regular.diagSize.symm ▸ inside.trans fits
      have superBound : p < st.superDiag.size := regular.superSize.symm ▸ inside.trans fits
      refine ⟨rest.regular, ?_, ?_⟩
      · intro j out
        obtain ⟨sameD, sameE⟩ := rest.outside j (by omega)
        rw [sameD, sameE, turn.d_eq diagBound, turn.e_eq superBound, if_neg (by omega), if_neg (by omega)]
        exact ⟨rfl, rfl⟩
      · have first := turn.norm_assembled_sub_le regular after inside fits
        have triangle := norm_sub_le_norm_sub_add_norm_sub (st.assembled m n (bulging l k (p + 1) b st))
          (st₁.assembled m n (bulging l k (p + 2) b₁ st₁)) (st'.assembled m n (bulging l k (k + 1) b' st'))
        linarith [rest.near]

section Sweep
variable {l k : ℕ}

private theorem bulging_start (bound : l < st.superDiag.size) (f : ℝ) :
    bulging l k (l + 1) ⟨f, st.d l, 1, 1⟩ st = (st.setE l 0).bidiagonal (k + 1) := by
  funext r c
  simp only [bulging, bidiagonal, d_setE, e_setE st bound, Nat.lt_succ_iff]
  by_cases diagonal : r = c
  · simp +contextual [diagonal]
  · by_cases same : c = l
    · subst same
      simp [diagonal]
    · by_cases first : c = l + 1
      · simp [first]
      · simp [diagonal, same, Ne.symm same, first]

private theorem bulging_end (below : l < k) (diagBound : k < st.diag.size) (superBound : k < st.superDiag.size) :
    bulging l k (k + 1) b st = (((st.setE l 0).setE k b.f).setD k b.x).bidiagonal (k + 1) := by
  have first : l < st.superDiag.size := below.trans superBound
  have sizes : k < (st.setE l 0).superDiag.size := by simpa [setE] using superBound
  funext r c
  simp only [bulging, bidiagonal, d_setD ((st.setE l 0).setE k b.f) diagBound, e_setD,
    e_setE (st.setE l 0) sizes, e_setE st first, d_setE, Nat.lt_succ_iff]
  by_cases diagonal : r = c
  · simp [diagonal, eq_comm]
  · by_cases last : c = k
    · subst last
      simp [diagonal, below.ne']
    · by_cases same : c = l
      · subst same
        simp [diagonal, below.ne']
      · have carried : (if c = k + 1 then b.cos * st.e c else st.e c) = st.e c ∨ k < c := by
          by_cases far : c = k + 1
          · exact .inr (by omega)
          · exact .inl (if_neg far)
        rcases carried with stays | far
        · simp [diagonal, last, same, Ne.symm last, Ne.symm same, stays]
        · simp [diagonal, Nat.not_le.mpr far]

/-- Dropping the coupling before a block is paid for by its being gone. -/
theorem norm_drop_le (bound : l < st.superDiag.size) (inside : l < k + 1) {tolerance : ℝ} (nonneg : 0 ≤ tolerance)
    (splits : l = 0 ∨ |st.e l| ≤ tolerance) :
    ‖gridMatrix m n (st.bidiagonal (k + 1)) - gridMatrix m n ((st.setE l 0).bidiagonal (k + 1))‖ +
      3 * tolerance * (st.setE l 0).live (k + 1) ≤ 3 * tolerance * st.live (k + 1) := by
  have kept (j : ℕ) (zero : st.e j = 0) : (st.setE l 0).e j = 0 := by
    rw [e_setE st bound, zero, ite_self]
  by_cases present : 0 < l ∧ st.e l ≠ 0
  · have fewer : ((st.setE l 0).live (k + 1) : ℝ) + 1 ≤ st.live (k + 1) := by
      exact_mod_cast live_lt kept present.1 inside present.2 (by rw [e_setE st bound, if_pos rfl])
    have apart : ‖gridMatrix m n (st.bidiagonal (k + 1)) - gridMatrix m n ((st.setE l 0).bidiagonal (k + 1))‖ ≤
        tolerance := by
      apply norm_gridMatrix_sub_le (l - 1) l
      · have small := splits.resolve_left present.1.ne'
        simpa [bidiagonal, show l - 1 ≠ l by omega, show l - 1 + 1 = l by omega, inside, e_setE st bound] using small
      · intro r c _ _ other
        have off : r + 1 = c → l ≠ c := fun next same => other ⟨by omega, same.symm⟩
        by_cases next : r + 1 = c
        · simp [bidiagonal, next, e_setE st bound, d_setE, off next]
        · simp [bidiagonal, next, d_setE]
    nlinarith
  · have same : (st.setE l 0).bidiagonal (k + 1) = st.bidiagonal (k + 1) := by
      funext r c
      have off : r + 1 = c → l = c → st.e c = 0 := by
        intro next here
        by_contra live
        exact present ⟨by omega, by rwa [here]⟩
      by_cases next : r + 1 = c
      · by_cases here : l = c
        · subst here
          simp [bidiagonal, next, e_setE st bound, d_setE, off next rfl]
        · simp [bidiagonal, next, e_setE st bound, d_setE, here]
      · simp [bidiagonal, next, d_setE]
    rw [same, sub_self, norm_zero, zero_add]
    gcongr
    exact live_le fun j _ => kept j

theorem sweep_sound (regular : st.Regular m n) {tolerance : ℝ} (nonneg : 0 ≤ tolerance) (below : l < k) (fits : k < n)
    (splits : l = 0 ∨ |st.e l| ≤ tolerance) (coupled : ∀ j, l < j → j ≤ k → st.e j ≠ 0)
    (done : sweep l k st = .ok st') :
    st'.Regular m n ∧ (∀ j, k < j → st'.d j = st.d j) ∧
      ‖st.assembled m n (st.bidiagonal (k + 1)) - st'.assembled m n (st'.bidiagonal (k + 1))‖ +
          3 * tolerance * st'.live (k + 1) ≤
        3 * tolerance * st.live (k + 1) + 2 * Tolerance.sign * (st'.degenerate - st.degenerate) := by
  rw [sweep] at done
  split at done
  · cases done
  · next b st₁ chased =>
    simp only [Except.ok.injEq] at done
    have start : l < st.superDiag.size := regular.superSize.symm ▸ below.trans fits
    have chased := chase_chased regular le_rfl (by omega) fits chased
    have diagBound : k < st₁.diag.size := chased.regular.diagSize.symm ▸ fits
    have superBound : k < st₁.superDiag.size := chased.regular.superSize.symm ▸ fits
    have d_eq (j : ℕ) : st'.d j = if k = j then b.x else st₁.d j := by
      rw [← done]
      exact d_setD ((st₁.setE l 0).setE k b.f) diagBound b.x j
    have e_eq (j : ℕ) : st'.e j = if k = j then b.f else if l = j then 0 else st₁.e j := by
      have sizes : k < (st₁.setE l 0).superDiag.size := by simpa [setE] using superBound
      rw [← done, e_setD, e_setE _ sizes, e_setE _ (below.trans superBound)]
    refine ⟨?_, ?_, ?_⟩
    · rw [← done]
      exact ((chased.regular.setE l 0).setE k b.f).setD k b.x
    · intro j above
      rw [d_eq, if_neg above.ne, (chased.outside j (.inr above.le)).1]
    · have dropped := norm_drop_le (m := m) (n := n) start (Nat.lt_succ_of_lt below) nonneg splits
      have fewer : st'.live (k + 1) ≤ (st.setE l 0).live (k + 1) := by
        apply live_le
        intro j inside zero
        rw [e_setE st start] at zero
        rw [e_eq]
        split_ifs with last first
        · exact absurd (by rwa [if_neg (by omega)] at zero) (coupled j (last ▸ below) (by omega))
        · rfl
        · by_cases within : l < j
          · exact absurd (by rwa [if_neg first] at zero) (coupled j within (by omega))
          · rw [(chased.outside j (.inl (by omega))).2]
            rwa [if_neg first] at zero
      have moved : st₁.assembled m n (st'.bidiagonal (k + 1)) = st'.assembled m n (st'.bidiagonal (k + 1)) := by
        rw [← done]
        rfl
      have count : st'.degenerate = st₁.degenerate := by
        rw [← done]
        rfl
      have near := chased.near
      rw [bulging_start start, bulging_end below diagBound superBound, done, moved, ← count] at near
      rw [← regular.norm_assembled_sub] at dropped
      have triangle := norm_sub_le_norm_sub_add_norm_sub (st.assembled m n (st.bidiagonal (k + 1)))
        (st.assembled m n ((st.setE l 0).bidiagonal (k + 1))) (st'.assembled m n (st'.bidiagonal (k + 1)))
      have counts : 3 * tolerance * (st'.live (k + 1) : ℝ) ≤ 3 * tolerance * ((st.setE l 0).live (k + 1) : ℝ) := by
        gcongr
      linarith

end Sweep
end BondSvd.Iteration
