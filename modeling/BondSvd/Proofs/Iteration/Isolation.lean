import Mathlib
import BondSvd.Proofs.Iteration.Factors

namespace BondSvd.Iteration
open scoped Matrix Matrix.Norms.Frobenius
variable {m n : ℕ} {st : Iteration ℝ} {tolerance : ℝ}

/-- The upper bidiagonal matrix of a state, with the couplings below `limit` only. -/
noncomputable def bidiagonal (st : Iteration ℝ) (limit r c : ℕ) : ℝ :=
  if r = c then st.d c else if r + 1 = c ∧ c < limit then st.e c else 0

/-- How many couplings below `limit` are not zero. -/
noncomputable def live (st : Iteration ℝ) (limit : ℕ) : ℕ :=
  ((Finset.Ico 1 limit).filter fun j => st.e j ≠ 0).card

/-- What a scan from index `k` down tells about the entries it passed. -/
structure Split.Describes (tolerance : ℝ) (st : Iteration ℝ) (k : ℕ) (split : Split) : Prop where
  le : split.start ≤ k
  coupled : ∀ j, split.start < j → j ≤ k → tolerance < |st.e j|
  large : ∀ j, split.start ≤ j → j < k → tolerance < |st.d j|
  cancels : split.cancels = true →
    0 < split.start ∧ tolerance < |st.e split.start| ∧ |st.d (split.start - 1)| ≤ tolerance
  splits : split.cancels = false → split.start = 0 ∨ |st.e split.start| ≤ tolerance

theorem split_describes (tolerance : ℝ) (st : Iteration ℝ) (k : ℕ) :
    (st.split tolerance k).Describes tolerance st k := by
  induction k with
  | zero =>
    exact ⟨le_rfl, by omega, by omega, Bool.noConfusion, fun _ => .inl rfl⟩
  | succ l ih =>
    rw [split]
    split
    · next negligible =>
      rw [Scalar.abs_exact] at negligible
      exact ⟨le_rfl, fun j above below => absurd (above.trans_le below) (lt_irrefl _),
        fun j above below => absurd (above.trans_lt below) (lt_irrefl _), Bool.noConfusion, fun _ => .inr negligible⟩
    · next coupled =>
      rw [Scalar.abs_exact, not_le] at coupled
      split
      · next small =>
        rw [Scalar.abs_exact] at small
        exact ⟨le_rfl, fun j above below => absurd (above.trans_le below) (lt_irrefl _),
          fun j above below => absurd (above.trans_lt below) (lt_irrefl _),
          fun _ => ⟨Nat.succ_pos l, coupled, small⟩, Bool.noConfusion⟩
      · next large =>
        rw [Scalar.abs_exact, not_le] at large
        refine ⟨ih.le.trans (Nat.le_succ l), ?_, ?_, ih.cancels, ih.splits⟩
        · intro j above below
          rcases Nat.lt_or_eq_of_le below with inner | rfl
          · exact ih.coupled j above (Nat.le_of_lt_succ inner)
          · exact coupled
        · intro j above below
          rcases Nat.lt_or_eq_of_le (Nat.le_of_lt_succ below) with inner | rfl
          · exact ih.large j above inner
          · exact large

/-- The values before step `i` of a cancellation: row `pivot` holds nothing but what is left to
be rotated out, and the coupling to column `i` is scaled by the cosine. -/
noncomputable def cancellation (st : Iteration ℝ) (limit pivot i : ℕ) (cos sin : ℝ) (r c : ℕ) : ℝ :=
  if r = pivot then if c = i ∧ i < limit then sin * st.e i else 0
  else if r = c then st.d c
  else if r + 1 = c ∧ c < limit then if c = i then st.e i * cos else st.e c
  else 0

/-- Past the last column nothing is left in the pivot row, whatever the angle. -/
theorem cancellation_limit (st : Iteration ℝ) (limit pivot : ℕ) (cos sin : ℝ) :
    st.cancellation limit pivot limit cos sin = st.cancellation limit pivot limit 0 0 := by
  funext r c
  simp only [cancellation, lt_irrefl, and_false, if_false]
  split_ifs <;> first | rfl | omega

section Step
variable {limit pivot i : ℕ} {cos sin : ℝ}

/-- The state after one rotation of a cancellation. -/
noncomputable def cancelStep (st : Iteration ℝ) (pivot i : ℕ) (cos sin : ℝ) : Iteration ℝ :=
  let f := sin * st.e i
  let w := Scalar.hypot f (st.d i)
  ((st.setE i (st.e i * cos)).setD i w).rotateLeft pivot i (st.d i / w) (-f / w)

theorem cancel_succ (count : ℕ) :
    st.cancel tolerance pivot (count + 1) i cos sin =
      if |sin * st.e i| ≤ tolerance then st.setE i (st.e i * cos)
      else (st.cancelStep pivot i cos sin).cancel tolerance pivot count (i + 1)
        (st.d i / Scalar.hypot (sin * st.e i) (st.d i))
        (-(sin * st.e i) / Scalar.hypot (sin * st.e i) (st.d i)) := by
  rw [cancel, Scalar.abs_exact]
  rfl

theorem d_cancelStep (bound : i < st.diag.size) (j : ℕ) :
    (st.cancelStep pivot i cos sin).d j =
      if i = j then Scalar.hypot (sin * st.e i) (st.d i) else st.d j :=
  d_setD (st.setE i (st.e i * cos)) bound _ j

theorem e_cancelStep (bound : i < st.superDiag.size) (j : ℕ) :
    (st.cancelStep pivot i cos sin).e j = if i = j then st.e i * cos else st.e j :=
  e_setE st bound _ j

theorem diagSize_cancelStep : (st.cancelStep pivot i cos sin).diag.size = st.diag.size :=
  Array.size_setIfInBounds ..

theorem superSize_cancelStep : (st.cancelStep pivot i cos sin).superDiag.size = st.superDiag.size :=
  Array.size_setIfInBounds ..

/-- The rotation of the pivot row with row `i` carries the values on to the next column. -/
theorem rotate_cancellation (diagBound : i < st.diag.size) (superBound : i < st.superDiag.size)
    (after : pivot < i) (inside : i < limit) (positive : 0 < Scalar.hypot (sin * st.e i) (st.d i)) :
    rotateGridRows pivot i (st.d i / Scalar.hypot (sin * st.e i) (st.d i))
        (-(sin * st.e i) / Scalar.hypot (sin * st.e i) (st.d i)) (st.cancellation limit pivot i cos sin) =
      (st.cancelStep pivot i cos sin).cancellation limit pivot (i + 1)
        (st.d i / Scalar.hypot (sin * st.e i) (st.d i))
        (-(sin * st.e i) / Scalar.hypot (sin * st.e i) (st.d i)) := by
  have length := Scalar.hypot_mul_self (sin * st.e i) (st.d i)
  generalize hypotenuse : Scalar.hypot (sin * st.e i) (st.d i) = w at positive length ⊢
  funext r c
  simp only [rotateGridRows, cancellation, d_cancelStep diagBound, e_cancelStep superBound, hypotenuse]
  by_cases low : r = i
  · subst low
    rcases eq_or_ne c r with rfl | off
    · simp [after.ne', inside]
      field_simp
      linarith
    · rcases eq_or_ne c (r + 1) with rfl | far
      · simp [after.ne']
      · simp [after.ne', off, off.symm, far.symm]
  · by_cases top : r = pivot
    · subst top
      rcases eq_or_ne c i with rfl | off
      · simp [low, Ne.symm low, inside]
        field_simp
        ring
      · rcases eq_or_ne c (i + 1) with rfl | far
        · simp [low, Ne.symm low]
          split_ifs <;> ring
        · simp [low, Ne.symm low, off, off.symm, far, far.symm]
    · rcases eq_or_ne c i with rfl | off
      · simp [low, top]
      · rcases eq_or_ne c (i + 1) with rfl | far
        · simp [low, top]
        · simp [low, top, off, off.symm, far]

theorem Regular.cancelStep (regular : st.Regular m n) (after : pivot < i) (bound : i < n)
    (positive : 0 < Scalar.hypot (sin * st.e i) (st.d i)) : (st.cancelStep pivot i cos sin).Regular m n :=
  ((regular.setE i _).setD i _).rotateLeft (after.trans bound) bound after.ne
    (Scalar.unit_of_hypot_turned positive)

private theorem Regular.assembled_cancelStep (regular : st.Regular m n) (after : pivot < i) (bound : i < n)
    (inside : i < limit) (positive : 0 < Scalar.hypot (sin * st.e i) (st.d i)) :
    (st.cancelStep pivot i cos sin).assembled m n
        ((st.cancelStep pivot i cos sin).cancellation limit pivot (i + 1)
          (st.d i / Scalar.hypot (sin * st.e i) (st.d i))
          (-(sin * st.e i) / Scalar.hypot (sin * st.e i) (st.d i))) =
      st.assembled m n (st.cancellation limit pivot i cos sin) := by
  rw [← rotate_cancellation (regular.diagSize.symm ▸ bound) (regular.superSize.symm ▸ bound) after inside positive,
    Iteration.cancelStep, ((regular.setE i _).setD i _).assembled_rotateLeft (after.trans bound) bound after.ne
      (Scalar.unit_of_hypot_turned positive), assembled_setD, assembled_setE]

variable (cos sin) in
/-- A cancellation is an exact rotation but for what it leaves behind when it stops. -/
theorem cancel_sound (regular : st.Regular m n) (nonneg : 0 ≤ tolerance) {count : ℕ} (after : pivot < i)
    (reaches : i + count = limit) (fits : limit ≤ n) :
    (st.cancel tolerance pivot count i cos sin).Regular m n ∧
      ‖st.assembled m n (st.cancellation limit pivot i cos sin) -
        (st.cancel tolerance pivot count i cos sin).assembled m n
          ((st.cancel tolerance pivot count i cos sin).cancellation limit pivot limit 0 0)‖ ≤ tolerance := by
  induction count generalizing i cos sin st with
  | zero =>
    obtain rfl : i = limit := reaches
    refine ⟨regular, ?_⟩
    rw [cancel, cancellation_limit, sub_self, norm_zero]
    exact nonneg
  | succ count ih =>
    have bound : i < n := by omega
    have superBound : i < st.superDiag.size := regular.superSize.symm ▸ bound
    rw [cancel_succ]
    split
    · next small =>
      refine ⟨regular.setE i _, ?_⟩
      rw [assembled_setE, regular.norm_assembled_sub]
      apply norm_gridMatrix_sub_le pivot i
      · simpa [cancellation, show i < limit by omega] using small
      · intro r c _ _ other
        by_cases top : r = pivot
        · have off : c ≠ i := fun here => other ⟨top, here⟩
          simp [cancellation, top, off]
        · by_cases inner : r + 1 = c ∧ c < limit
          · have off : c ≠ limit := inner.2.ne
            simp [cancellation, top, inner, off, d_setE, e_setE st superBound, @eq_comm _ i c]
          · simp [cancellation, top, inner, d_setE]
    · next large =>
      have present : sin * st.e i ≠ 0 := fun zero => large (by rw [zero, abs_zero]; exact nonneg)
      have positive := Scalar.hypot_pos present (st.d i)
      obtain ⟨regular', near⟩ :=
        ih _ _ (regular.cancelStep after bound positive) (Nat.lt_succ_of_lt after) (by omega)
      refine ⟨regular', ?_⟩
      rw [← regular.assembled_cancelStep after bound (by omega) positive]
      exact near

/-- What a cancellation in the rows from `i` up to `limit` keeps of the values. -/
structure Cancelled (i limit : ℕ) (st st' : Iteration ℝ) : Prop where
  outside : ∀ j, j < i ∨ limit ≤ j → st'.d j = st.d j
  vanished : ∀ j, st.e j = 0 → st'.e j = 0
  degenerate : st'.degenerate = st.degenerate

theorem cancel_cancelled {count : ℕ} (diagBound : i + count ≤ st.diag.size)
    (superBound : i + count ≤ st.superDiag.size) :
    Cancelled i (i + count) st (st.cancel tolerance pivot count i cos sin) := by
  induction count generalizing i cos sin st with
  | zero => exact ⟨fun _ _ => rfl, fun _ zero => zero, rfl⟩
  | succ count ih =>
    have scaled (j : ℕ) (zero : st.e j = 0) : (if i = j then st.e i * cos else st.e j) = 0 := by
      split
      · next same => rw [same, zero, zero_mul]
      · exact zero
    rw [cancel_succ]
    split
    · exact ⟨fun _ _ => rfl, fun j zero => (e_setE st (by omega) _ j).trans (scaled j zero), rfl⟩
    · have rest (cos' sin' : ℝ) : Cancelled (i + 1) (i + 1 + count) (st.cancelStep pivot i cos sin)
          ((st.cancelStep pivot i cos sin).cancel tolerance pivot count (i + 1) cos' sin') :=
        ih (by rw [diagSize_cancelStep]; omega) (by rw [superSize_cancelStep]; omega)
      refine ⟨?_, ?_, (rest _ _).degenerate⟩
      · intro j out
        rw [(rest _ _).outside j (by omega), d_cancelStep (by omega), if_neg (by omega)]
      · intro j zero
        apply (rest _ _).vanished
        rw [e_cancelStep (by omega)]
        exact scaled j zero

/-- A cancellation keeps the couplings that it scales, as long as no cosine vanishes. -/
theorem e_cancel_ne_zero {count : ℕ} (diagBound : i + count ≤ st.diag.size)
    (superBound : i + count ≤ st.superDiag.size) (nonneg : 0 ≤ tolerance) {j : ℕ} (inside : j < i + count)
    (upright : i = j → cos ≠ 0) (large : ∀ k, i ≤ k → k + 1 < i + count → st.d k ≠ 0)
    (present : st.e j ≠ 0) : (st.cancel tolerance pivot count i cos sin).e j ≠ 0 := by
  induction count generalizing i cos sin st with
  | zero => exact present
  | succ count ih =>
    have scaled : (if i = j then st.e i * cos else st.e j) ≠ 0 := by
      split
      · next same => exact mul_ne_zero (same ▸ present) (upright same)
      · exact present
    rw [cancel_succ]
    split
    · rw [e_setE st (by omega)]
      exact scaled
    · next much =>
      have turned : sin * st.e i ≠ 0 := fun zero => much (by rw [zero, abs_zero]; exact nonneg)
      have positive := Scalar.hypot_pos turned (st.d i)
      apply ih
      · rw [diagSize_cancelStep]
        omega
      · rw [superSize_cancelStep]
        omega
      · omega
      · intro following
        exact div_ne_zero (large i le_rfl (by omega)) positive.ne'
      · intro k after within
        rw [d_cancelStep (by omega), if_neg (by omega)]
        exact large k (by omega) (by omega)
      · rw [e_cancelStep (by omega)]
        exact scaled

/-- The coupling to the first row is rotated out altogether. -/
theorem e_cancel_first {count : ℕ} (diagBound : i + (count + 1) ≤ st.diag.size)
    (superBound : i + (count + 1) ≤ st.superDiag.size) :
    (st.cancel tolerance pivot (count + 1) i 0 sin).e i = 0 := by
  rw [cancel_succ]
  split
  · rw [e_setE st (by omega), if_pos rfl, mul_zero]
  · apply (cancel_cancelled (by rw [diagSize_cancelStep]; omega) (by rw [superSize_cancelStep]; omega)).vanished
    rw [e_cancelStep (by omega), if_pos rfl, mul_zero]

end Step

/-- The state `st'` comes from `st` by splitting off the block from `l` to `k`. What that costs
is paid for by the couplings that are gone. -/
structure Isolates (m n : ℕ) (tolerance : ℝ) (k : ℕ) (st : Iteration ℝ) (l : ℕ) (st' : Iteration ℝ) :
    Prop where
  le : l ≤ k
  regular : st'.Regular m n
  splits : l = 0 ∨ |st'.e l| ≤ tolerance
  coupled : ∀ j, l < j → j ≤ k → st'.e j ≠ 0
  cost : ‖st.assembled m n (st.bidiagonal (k + 1)) - st'.assembled m n (st'.bidiagonal (k + 1))‖ +
    3 * tolerance * st'.live (k + 1) ≤ 3 * tolerance * st.live (k + 1)
  settled : ∀ j, k < j → st'.d j = st.d j
  degenerate : st'.degenerate = st.degenerate

theorem live_le {st' : Iteration ℝ} {limit : ℕ} (vanished : ∀ j, j < limit → st.e j = 0 → st'.e j = 0) :
    st'.live limit ≤ st.live limit := by
  apply Finset.card_le_card
  intro j member
  obtain ⟨range, present⟩ := Finset.mem_filter.mp member
  exact Finset.mem_filter.mpr ⟨range, fun zero => present (vanished j (Finset.mem_Ico.mp range).2 zero)⟩

theorem live_lt {st' : Iteration ℝ} {limit j : ℕ} (vanished : ∀ j, st.e j = 0 → st'.e j = 0) (positive : 0 < j)
    (inside : j < limit) (present : st.e j ≠ 0) (gone : st'.e j = 0) : st'.live limit + 1 ≤ st.live limit := by
  apply Finset.card_lt_card
  refine ⟨?_, ?_⟩
  · exact Finset.monotone_filter_right _ fun i _ kept zero => kept (vanished i zero)
  · intro all
    have member : j ∈ (Finset.Ico 1 limit).filter fun j => st.e j ≠ 0 :=
      Finset.mem_filter.mpr ⟨Finset.mem_Ico.mpr ⟨positive, inside⟩, present⟩
    exact (Finset.mem_filter.mp (all member)).2 gone

/-- Taking a small diagonal entry for zero leaves the row above a block ready to be cancelled. -/
theorem bidiagonal_near_cancellation (limit : ℕ) {pivot : ℕ} (small : |st.d pivot| ≤ tolerance) (cos : ℝ) :
    ‖gridMatrix m n (st.bidiagonal limit) - gridMatrix m n (st.cancellation limit pivot (pivot + 1) cos 1)‖ ≤
      tolerance := by
  apply norm_gridMatrix_sub_le pivot pivot
  · simpa [bidiagonal, cancellation] using small
  · intro r c _ _ other
    by_cases top : r = pivot
    · subst top
      by_cases next : c = r + 1
      · simp [bidiagonal, cancellation, next]
      · have off : r ≠ c := fun here => other ⟨rfl, here.symm⟩
        simp [bidiagonal, cancellation, next, Ne.symm next, off]
    · by_cases inner : r + 1 = c
      · have off : c ≠ pivot + 1 := by omega
        simp [bidiagonal, cancellation, top, off]
      · simp [bidiagonal, cancellation, top, inner]

private theorem cancellation_near_bidiagonal (limit : ℕ) {pivot : ℕ} (small : |st.d pivot| ≤ tolerance)
    (gone : st.e (pivot + 1) = 0) :
    ‖gridMatrix m n (st.cancellation limit pivot limit 0 0) - gridMatrix m n (st.bidiagonal limit)‖ ≤
      tolerance := by
  apply norm_gridMatrix_sub_le pivot pivot
  · simpa [bidiagonal, cancellation] using small
  · intro r c _ _ other
    by_cases top : r = pivot
    · subst top
      have off : r ≠ c := fun here => other ⟨rfl, here.symm⟩
      by_cases next : r + 1 = c
      · subst next
        simp [bidiagonal, cancellation, gone]
      · simp [bidiagonal, cancellation, next, off]
    · by_cases inner : r + 1 = c ∧ c < limit
      · simp [bidiagonal, cancellation, top, inner, inner.2.ne]
      · simp [bidiagonal, cancellation, top, inner]

private theorem cancel_isolates (regular : st.Regular m n) (nonneg : 0 ≤ tolerance) {pivot k count : ℕ}
    (reaches : pivot + 1 + (count + 1) = k + 1) (inside : k < n) (joined : st.e (pivot + 1) ≠ 0)
    (small : |st.d pivot| ≤ tolerance) (coupled : ∀ j, pivot + 1 < j → j ≤ k → st.e j ≠ 0)
    (large : ∀ j, pivot + 1 ≤ j → j < k → st.d j ≠ 0) :
    Isolates m n tolerance k st (pivot + 1) (st.cancel tolerance pivot (count + 1) (pivot + 1) 0 1) := by
  have diagBound : pivot + 1 + (count + 1) ≤ st.diag.size := by
    rw [regular.diagSize]
    omega
  have superBound : pivot + 1 + (count + 1) ≤ st.superDiag.size := by
    rw [regular.superSize]
    omega
  obtain ⟨regular', near⟩ := cancel_sound 0 1 regular nonneg (Nat.lt_succ_self pivot)
    reaches inside
  have kept : Cancelled (pivot + 1) (k + 1) st (st.cancel tolerance pivot (count + 1) (pivot + 1) 0 1) :=
    reaches ▸ cancel_cancelled diagBound superBound
  have gone : (st.cancel tolerance pivot (count + 1) (pivot + 1) 0 1).e (pivot + 1) = 0 :=
    e_cancel_first diagBound superBound
  have couplings (j : ℕ) (after : pivot + 1 < j) (within : j ≤ k) :
      (st.cancel tolerance pivot (count + 1) (pivot + 1) 0 1).e j ≠ 0 :=
    e_cancel_ne_zero diagBound superBound nonneg (by omega) (by omega)
      (fun i low high => large i low (by omega)) (coupled j after within)
  generalize st.cancel tolerance pivot (count + 1) (pivot + 1) 0 1 = st' at *
  refine ⟨by omega, regular', .inr (by rw [gone, abs_zero]; exact nonneg), couplings, ?_,
    fun j above => kept.outside j (.inr above), kept.degenerate⟩
  have before := bidiagonal_near_cancellation (m := m) (n := n) (k + 1) small 0
  rw [← regular.norm_assembled_sub] at before
  have small' : |st'.d pivot| ≤ tolerance := by rwa [kept.outside pivot (.inl (Nat.lt_succ_self pivot))]
  have after := cancellation_near_bidiagonal (m := m) (n := n) (k + 1) small' gone
  rw [← regular'.norm_assembled_sub] at after
  have apart : ‖st.assembled m n (st.bidiagonal (k + 1)) - st'.assembled m n (st'.bidiagonal (k + 1))‖ ≤
      3 * tolerance := by
    have first := norm_sub_le_norm_sub_add_norm_sub (st.assembled m n (st.bidiagonal (k + 1)))
      (st.assembled m n (st.cancellation (k + 1) pivot (pivot + 1) 0 1))
      (st'.assembled m n (st'.bidiagonal (k + 1)))
    have second := norm_sub_le_norm_sub_add_norm_sub
      (st.assembled m n (st.cancellation (k + 1) pivot (pivot + 1) 0 1))
      (st'.assembled m n (st'.cancellation (k + 1) pivot (k + 1) 0 0))
      (st'.assembled m n (st'.bidiagonal (k + 1)))
    linarith
  have fewer : (st'.live (k + 1) : ℝ) + 1 ≤ st.live (k + 1) := by
    exact_mod_cast live_lt kept.vanished (Nat.succ_pos pivot) (by omega) joined gone
  nlinarith

theorem isolate_isolates (regular : st.Regular m n) (nonneg : 0 ≤ tolerance) {k : ℕ} (inside : k < n) :
    Isolates m n tolerance k st (st.isolate tolerance k).1 (st.isolate tolerance k).2 := by
  obtain ⟨le, coupled, large, cancels, splits⟩ := split_describes tolerance st k
  have present {x : ℝ} (above : tolerance < |x|) : x ≠ 0 := abs_pos.mp (nonneg.trans_lt above)
  rw [isolate]
  split
  · next must =>
    obtain ⟨positive, joined, small⟩ := cancels must
    generalize (st.split tolerance k).start = l at *
    obtain ⟨pivot, rfl⟩ : ∃ pivot, l = pivot + 1 := ⟨l - 1, by omega⟩
    obtain ⟨count, rest⟩ : ∃ count, k + 1 - (pivot + 1) = count + 1 := ⟨k - (pivot + 1), by omega⟩
    rw [rest]
    exact cancel_isolates regular nonneg (by omega) inside (present joined) small
      (fun j above below => present (coupled j above below)) (fun j above below => present (large j above below))
  · next stays =>
    refine ⟨le, regular, splits (by simpa using stays), fun j above below => present (coupled j above below), ?_,
      fun _ _ => rfl, rfl⟩
    rw [sub_self, norm_zero, zero_add]

end BondSvd.Iteration
