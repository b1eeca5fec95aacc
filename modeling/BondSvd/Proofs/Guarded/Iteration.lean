import Mathlib
import BondSvd.Proofs.Guarded.Matrix
import BondSvd.Proofs.Iteration.Convergence

/-! The guarded iteration. The shift divides by entries that the scan has found above the tolerance;
a cancellation in between replaces diagonal entries by lengths that are not zero and scales each
coupling by the cosine of an angle that is not right. The chase looks at its lengths itself. -/
namespace BondSvd

namespace Guarded
open Iteration (Split Bulge isDegenerate)

section Definitions
variable {α : Type} [Scalar α]

def d (st : Iteration α) (k : Nat) : Guarded α := read st.diag k
def e (st : Iteration α) (k : Nat) : Guarded α := read st.superDiag k

def setD (st : Iteration α) (k : Nat) (x : α) : Guarded (Iteration α) := do
  return { st with diag := ← write st.diag k x }

def setE (st : Iteration α) (k : Nat) (x : α) : Guarded (Iteration α) := do
  return { st with superDiag := ← write st.superDiag k x }

def rotateLeft (st : Iteration α) (p q : Nat) (cos sin : α) : Guarded (Iteration α) := do
  return { st with left := ← rotateColumns st.left st.diag.size p q cos sin }

def rotateRight (st : Iteration α) (p q : Nat) (cos sin : α) : Guarded (Iteration α) := do
  return { st with right := ← rotateColumns st.right st.diag.size p q cos sin }

/-- Scans from index `l` down for a negligible coupling or diagonal entry. -/
def split (tolerance : α) (st : Iteration α) : (l : Nat) → Guarded Split
  | 0 => .ok ⟨0, false⟩
  | l + 1 => do
    let coupling ← e st (l + 1)
    if Scalar.abs coupling ≤ tolerance then return ⟨l + 1, false⟩
    else
      let before ← d st l
      if Scalar.abs before ≤ tolerance then return ⟨l + 1, true⟩ else split tolerance st l

/-- Rotates the coupling to row `pivot` out of the block. -/
def cancel (tolerance : α) (pivot : Nat) :
    (count i : Nat) → (cos sin : α) → Iteration α → Guarded (Iteration α)
  | 0, _, _, _, st => .ok st
  | count + 1, i, cos, sin, st => do
    let coupling ← e st i
    let f := sin * coupling
    let st ← setE st i (coupling * cos)
    if Scalar.abs f ≤ tolerance then return st
    else
      let h ← d st i
      let w := Scalar.hypot f h
      let cos ← divide h w
      let sin ← divide (-f) w
      cancel tolerance pivot count (i + 1) cos sin (← rotateLeft (← setD st i w) pivot i cos sin)

/-- Splits off the block that ends at `k`. -/
def isolate (tolerance : α) (k : Nat) (st : Iteration α) : Guarded (Nat × Iteration α) := do
  let split ← split tolerance st k
  if split.cancels then
    let pivot ← predecessor split.start
    return (split.start, ← cancel tolerance pivot (k + 1 - split.start) split.start 0 1 st)
  else return (split.start, st)

/-- The first column of the shifted block. -/
def shift (l k : Nat) (st : Iteration α) : Guarded α := do
  let before ← predecessor k
  let x ← d st l
  let w ← d st k
  let y ← d st before
  let g ← e st before
  let h ← e st k
  let f ← divide ((y - w) * (y + w) + (g - h) * (g + h)) (2.0 * h * y)
  let root := Scalar.hypot f 1
  let signed := if f < -Tolerance.sign then -root else root
  divide ((x - w) * (x + w) + ((← divide y (f + signed)) - h) * h) x

/-- The second rotation of a step. -/
def closeRotation (f h : α) (tiny : Bool) : Guarded (Except Breakdown (α × α × α)) := do
  let w := Scalar.hypot h f
  if tiny then return .ok (w, 1, 0)
  else if w ≤ Tolerance.zero then return .error .vanishingRotation
  else return .ok (w, ← divide f w, ← divide h w)

/-- Moves the bulge past index `i`. -/
def chaseStep (i : Nat) (b : Bulge α) (st : Iteration α) : Guarded (Except Breakdown (Bulge α × Iteration α)) := do
  let before ← predecessor i
  let coupling ← e st i
  let h := b.sin * coupling
  let g := coupling * b.cos
  let y ← d st i
  let w := Scalar.hypot h b.f
  if w ≤ Tolerance.zero then return .error .vanishingRotation
  else
    let cos ← divide b.f w
    let sin ← divide h w
    let f := b.x * cos + g * sin
    let g' := g * cos - b.x * sin
    let h' := y * sin
    let y' := y * cos
    let tiny := isDegenerate f h' b.x cos g sin
    match ← closeRotation f h' tiny with
    | .error breakdown => return .error breakdown
    | .ok (w', cos', sin') =>
      let st ← rotateRight (← setE st before w) before i cos sin
      let st ← rotateLeft (← setD st before w') before i cos' sin'
      return .ok (⟨cos' * g' + sin' * y', cos' * y' - sin' * g', cos', sin'⟩,
        { st with degenerate := st.degenerate + if tiny then 1 else 0 })

/-- The steps of a sweep from index `i` on. -/
def chase : (count i : Nat) → Bulge α → Iteration α → Guarded (Except Breakdown (Bulge α × Iteration α))
  | 0, _, b, st => .ok (.ok (b, st))
  | count + 1, i, b, st => do
    match ← chaseStep i b st with
    | .error breakdown => return .error breakdown
    | .ok (b, st) => chase count (i + 1) b st

/-- One sweep over the block from `l` to `k`. -/
def sweep (l k : Nat) (st : Iteration α) : Guarded (Except Breakdown (Iteration α)) := do
  match ← chase (k - l) (l + 1) ⟨← shift l k st, ← d st l, 1, 1⟩ st with
  | .error breakdown => return .error breakdown
  | .ok (b, st) => return .ok (← setD (← setE (← setE st l 0) k b.f) k b.x)

/-- Makes a settled value non-negative. -/
def makeNonNegative (k : Nat) (st : Iteration α) : Guarded (Iteration α) := do
  let value ← d st k
  if value < 0 then
    return { st with
      diag := ← write st.diag k (-value)
      right := ← negateColumn st.right st.diag.size k }
  else return st

/-- Sweeps until the block that ends at `k` is that single entry. -/
def settle (tolerance : α) (k : Nat) : (sweeps : Nat) → Iteration α → Guarded (Except Breakdown (Iteration α))
  | 0, st => do
    let (l, st) ← isolate tolerance k st
    if l = k then return .ok (← makeNonNegative k st) else return .error .sweepLimit
  | sweeps + 1, st => do
    let (l, st) ← isolate tolerance k st
    if l = k then return .ok (← makeNonNegative k st)
    else match ← sweep l k st with
      | .error breakdown => return .error breakdown
      | .ok st => settle tolerance k sweeps st

/-- Settles the values below `count`, the last one first. -/
def settleAll (tolerance : α) (maxSweeps : Nat) :
    (count : Nat) → Iteration α → Guarded (Except Breakdown (Iteration α))
  | 0, st => .ok (.ok st)
  | k + 1, st => do
    match ← settle tolerance k maxSweeps st with
    | .error breakdown => return .error breakdown
    | .ok st => settleAll tolerance maxSweeps k st

def diagonalize (st : Iteration α) (tolerance : α) (maxSweeps : Nat) : Guarded (Except Breakdown (Iteration α)) :=
  settleAll tolerance maxSweeps st.diag.size st

end Definitions
end Guarded

namespace Iteration
variable {m n : ℕ} {st : Iteration ℝ} {tolerance : ℝ}

/-- What a cancellation puts on the diagonal is a length; the other entries stay. -/
theorem d_cancel_ne_zero {pivot count i j : ℕ} {cos sin : ℝ} (bound : i + count ≤ st.diag.size)
    (nonneg : 0 ≤ tolerance) (present : st.d j ≠ 0) : (st.cancel tolerance pivot count i cos sin).d j ≠ 0 := by
  induction count generalizing i cos sin st with
  | zero => exact present
  | succ count ih =>
    rw [cancel_succ]
    split
    · exact present
    · next much =>
      have turned : sin * st.e i ≠ 0 := fun zero => much (by rw [zero, abs_zero]; exact nonneg)
      apply ih
      · rw [diagSize_cancelStep]
        omega
      -- the rotated entry may have been zero before, so the length takes over from `present` there
      · rw [d_cancelStep (by omega)]
        split
        · exact (Scalar.hypot_pos turned (st.d i)).ne'
        · exact present

/-- A block has no zero on its diagonal, except perhaps as its last entry. -/
theorem d_isolate_ne_zero (regular : st.Regular m n) (nonneg : 0 ≤ tolerance) {k : ℕ} (inside : k < n) {j : ℕ}
    (low : (st.isolate tolerance k).1 ≤ j) (high : j < k) : (st.isolate tolerance k).2.d j ≠ 0 := by
  obtain ⟨le, -, large, -, -⟩ := split_describes tolerance st k
  have present {j : ℕ} (low : (st.split tolerance k).start ≤ j) (high : j < k) : st.d j ≠ 0 :=
    abs_pos.mp (nonneg.trans_lt (large j low high))
  rw [isolate] at low ⊢
  split
  · next must =>
    rw [if_pos must] at low
    apply d_cancel_ne_zero _ nonneg (present low high)
    rw [regular.diagSize]
    omega
  · next stays =>
    rw [if_neg stays] at low
    exact present low high

private theorem sweep_regular (regular : st.Regular m n) {l k : ℕ} (below : l < k) (inside : k < n) {st' : Iteration ℝ}
    (done : sweep l k st = .ok st') : st'.Regular m n := by
  rw [sweep] at done
  split at done
  · cases done
  · next b st₁ chased =>
    cases done
    exact (((chase_chased regular le_rfl (by omega) inside chased).regular.setE l 0).setE k b.f).setD k b.x

private theorem settle_regular (regular : st.Regular m n) (nonneg : 0 ≤ tolerance) {k sweeps : ℕ} (inside : k < n)
    {st' : Iteration ℝ} (done : st.settle tolerance k sweeps = .ok st') : st'.Regular m n := by
  induction sweeps generalizing st with
  | zero =>
    have isolates := isolate_isolates regular nonneg inside
    rw [settle] at done
    dsimp only at done
    split at done
    · cases done
      exact isolates.regular.makeNonNegative inside
    · cases done
  | succ sweeps ih =>
    have isolates := isolate_isolates regular nonneg inside
    rw [settle] at done
    dsimp only at done
    split at done
    · cases done
      exact isolates.regular.makeNonNegative inside
    · next several =>
      split at done
      · cases done
      · next swept => exact ih (sweep_regular isolates.regular (lt_of_le_of_ne isolates.le several) inside swept) done

end Iteration

namespace Guarded
open Iteration (Bulge)
variable {m n k l : ℕ} {st : Iteration ℝ} {tolerance : ℝ}

section Accesses
variable (regular : st.Regular m n)
include regular

theorem d_eq (inside : k < n) : d st k = .ok (st.d k) := read_eq (regular.diagSize.symm ▸ inside)

theorem e_eq (inside : k < n) : e st k = .ok (st.e k) := read_eq (regular.superSize.symm ▸ inside)

theorem setD_eq (inside : k < n) (x : ℝ) : setD st k x = .ok (st.setD k x) := by
  rw [setD, write_eq (regular.diagSize.symm ▸ inside)]
  rfl

theorem setE_eq (inside : k < n) (x : ℝ) : setE st k x = .ok (st.setE k x) := by
  rw [setE, write_eq (regular.superSize.symm ▸ inside)]
  rfl

private theorem rotateLeft_eq {p q : ℕ} (first : p < n) (second : q < n) (cos sin : ℝ) :
    rotateLeft st p q cos sin = .ok (st.rotateLeft p q cos sin) := by
  have fits := regular.left.lead_le
  rw [rotateLeft, rotateColumns_eq]
  · rfl
  · rwa [regular.diagSize, regular.left.rows]
  · rw [regular.left.cols]
    exact first.trans_le fits
  · rw [regular.left.cols]
    exact second.trans_le fits

private theorem rotateRight_eq {p q : ℕ} (first : p < n) (second : q < n) (cos sin : ℝ) :
    rotateRight st p q cos sin = .ok (st.rotateRight p q cos sin) := by
  rw [rotateRight, rotateColumns_eq]
  · rfl
  · rw [regular.diagSize, regular.right.rows]
  · rwa [regular.right.cols]
  · rwa [regular.right.cols]

private theorem split_eq (inside : k < n) : split tolerance st k = .ok (st.split tolerance k) := by
  induction k with
  | zero => rfl
  | succ l ih =>
    have before : l < n := Nat.lt_of_succ_lt inside
    simp only [split, e_eq regular inside, d_eq regular before, ih before, ok_bind, pure_eq, Iteration.split]
    split
    · rfl
    · split <;> rfl

end Accesses

/-- A cancellation divides by the length of a vector with one entry above the tolerance. -/
theorem cancel_eq (regular : st.Regular m n) (nonneg : 0 ≤ tolerance) {pivot count i : ℕ} (after : pivot < i)
    (fits : i + count ≤ n) (cos sin : ℝ) :
    cancel tolerance pivot count i cos sin st = .ok (st.cancel tolerance pivot count i cos sin) := by
  induction count generalizing i cos sin st with
  | zero => rfl
  | succ count ih =>
    have bound : i < n := by omega
    have scaled := regular.setE i (st.e i * cos)
    rw [cancel, e_eq regular bound, ok_bind, setE_eq regular bound, ok_bind, Iteration.cancel]
    split
    · rfl
    · next large =>
      have turned : sin * st.e i ≠ 0 := by
        intro zero
        rw [zero, Scalar.abs_exact, abs_zero] at large
        exact large nonneg
      have positive := Scalar.hypot_pos turned (st.d i)
      have length : Scalar.hypot (sin * st.e i) ((st.setE i (st.e i * cos)).d i) ≠ 0 := positive.ne'
      rw [d_eq scaled bound, ok_bind]
      dsimp only
      rw [divide_eq length, ok_bind, divide_eq length, ok_bind, setD_eq scaled bound, ok_bind,
        rotateLeft_eq (scaled.setD i _) (after.trans bound) bound, ok_bind]
      exact ih (regular.cancelStep after bound positive) (Nat.lt_succ_of_lt after) (by omega) _ _

private theorem isolate_eq (regular : st.Regular m n) (nonneg : 0 ≤ tolerance) (inside : k < n) :
    isolate tolerance k st = .ok (st.isolate tolerance k) := by
  rw [isolate, split_eq regular inside, ok_bind, Iteration.isolate]
  split
  · next cancels =>
    have start := Iteration.split_start_le tolerance st k
    obtain ⟨pivot, follows⟩ := Nat.exists_eq_succ_of_ne_zero (Iteration.split_start_pos cancels).ne'
    rw [follows] at start ⊢
    rw [predecessor_succ, ok_bind, cancel_eq regular nonneg (Nat.lt_succ_self pivot) (by omega)]
    rfl
  · rfl

/-- The root is longer than the number that it is added to or subtracted from. -/
theorem add_signed_root_ne_zero (f : ℝ) :
    f + (if f < -(Tolerance.sign : ℝ) then -Scalar.hypot f 1 else Scalar.hypot f 1) ≠ 0 := by
  have longer : |f| < Scalar.hypot f 1 := by
    apply Real.lt_sqrt_of_sq_lt
    rw [sq_abs, sq]
    linarith
  obtain ⟨low, high⟩ := abs_lt.mp longer
  split
  · linarith
  · linarith

theorem shift_eq (regular : st.Regular m n) (below : l < k) (inside : k < n) (first : st.d l ≠ 0)
    (before : st.d (k - 1) ≠ 0) (coupled : st.e k ≠ 0) : shift l k st = .ok (st.shift l k) := by
  obtain ⟨p, rfl⟩ := Nat.exists_eq_succ_of_ne_zero (Nat.ne_zero_of_lt below)
  rw [Nat.succ_eq_add_one, Nat.add_sub_cancel] at *
  have earlier : p < n := Nat.lt_of_succ_lt inside
  have corner : 2.0 * st.e (p + 1) * st.d p ≠ 0 := mul_ne_zero (mul_ne_zero (by norm_num) coupled) before
  simp only [shift, predecessor_succ, d_eq regular (below.trans inside), d_eq regular inside, d_eq regular earlier,
    e_eq regular earlier, e_eq regular inside, ok_bind, divide_eq corner, divide_eq (add_signed_root_ne_zero _),
    divide_eq first]
  rfl

/-- Without the coupling to the last entry there is no shift, which is why the scan comes first. -/
theorem shift_uncoupled (regular : st.Regular m n) (below : l < k) (inside : k < n) (gone : st.e k = 0) :
    shift l k st = .error .zeroDivisor := by
  obtain ⟨p, rfl⟩ := Nat.exists_eq_succ_of_ne_zero (Nat.ne_zero_of_lt below)
  rw [Nat.succ_eq_add_one] at *
  have earlier : p < n := Nat.lt_of_succ_lt inside
  have corner : 2.0 * st.e (p + 1) * st.d p = 0 := by rw [gone, mul_zero, zero_mul]
  simp only [shift, predecessor_succ, d_eq regular (below.trans inside), d_eq regular inside, d_eq regular earlier,
    e_eq regular earlier, e_eq regular inside, ok_bind, corner, divide_zero]
  rfl

private theorem closeRotation_eq (f h : ℝ) (tiny : Bool) :
    closeRotation f h tiny = .ok (Iteration.closeRotation f h tiny) := by
  unfold closeRotation Iteration.closeRotation
  dsimp only
  split
  · rfl
  · split
    · rfl
    · next large =>
      have length : Scalar.hypot h f ≠ 0 := (pos_of_visible large).ne'
      rw [divide_eq length, ok_bind, divide_eq length]
      rfl

private theorem chaseStep_eq (regular : st.Regular m n) {p : ℕ} (inside : p + 1 < n) (b : Bulge ℝ) :
    chaseStep (p + 1) b st = .ok (Iteration.chaseStep (p + 1) b st) := by
  have earlier : p < n := Nat.lt_of_succ_lt inside
  have distinct : p ≠ p + 1 := (Nat.succ_ne_self p).symm
  rw [chaseStep, predecessor_succ, ok_bind, e_eq regular inside, ok_bind, d_eq regular inside, ok_bind,
    Iteration.chaseStep]
  dsimp only
  split
  · rfl
  · next large =>
    have positive : 0 < Scalar.hypot (b.sin * st.e (p + 1)) b.f := pos_of_visible large
    have unit := (add_comm _ _).trans (Scalar.unit_of_hypot positive)
    rw [divide_eq positive.ne', ok_bind, divide_eq positive.ne', ok_bind, closeRotation_eq, ok_bind]
    generalize (Iteration.closeRotation _ _ _ : Except Breakdown (ℝ × ℝ × ℝ)) = closed
    cases closed with
    | error breakdown => rfl
    | ok rotation =>
      obtain ⟨w', cos', sin'⟩ := rotation
      dsimp only
      have first := regular.setE p (Scalar.hypot (b.sin * st.e (p + 1)) b.f)
      have turned := first.rotateRight earlier inside distinct unit
      rw [setE_eq regular earlier, ok_bind, rotateRight_eq first earlier inside, ok_bind, setD_eq turned earlier,
        ok_bind, rotateLeft_eq (turned.setD p w') earlier inside, ok_bind]
      rfl

private theorem chase_eq (regular : st.Regular m n) {p count : ℕ} (fits : p + count < n) (b : Bulge ℝ) :
    chase count (p + 1) b st = .ok (Iteration.chase count (p + 1) b st) := by
  induction count generalizing p b st with
  | zero => rfl
  | succ count ih =>
    have inside : p + 1 < n := by omega
    rw [chase, chaseStep_eq regular inside, ok_bind, Iteration.chase]
    cases stepped : Iteration.chaseStep (p + 1) b st with
    | error breakdown => rfl
    | ok next =>
      obtain ⟨b', st'⟩ := next
      obtain ⟨right, left, turn⟩ := Iteration.chaseStep_turn stepped
      exact ih (turn.regular regular inside) (by omega) b'

private theorem sweep_eq (regular : st.Regular m n) (below : l < k) (inside : k < n) (first : st.d l ≠ 0)
    (before : st.d (k - 1) ≠ 0) (coupled : st.e k ≠ 0) : sweep l k st = .ok (Iteration.sweep l k st) := by
  have start : l < n := below.trans inside
  rw [sweep, shift_eq regular below inside first before coupled, ok_bind, d_eq regular start, ok_bind,
    chase_eq regular (by omega), ok_bind, Iteration.sweep]
  cases chased : Iteration.chase (k - l) (l + 1) ⟨st.shift l k, st.d l, 1, 1⟩ st with
  | error breakdown => rfl
  | ok final =>
    obtain ⟨b, st'⟩ := final
    have regular' := (Iteration.chase_chased regular le_rfl (by omega) inside chased).regular
    dsimp only
    rw [setE_eq regular' start, ok_bind, setE_eq (regular'.setE l 0) inside, ok_bind,
      setD_eq ((regular'.setE l 0).setE k b.f) inside, ok_bind]
    rfl

private theorem makeNonNegative_eq (regular : st.Regular m n) (inside : k < n) :
    makeNonNegative k st = .ok (st.makeNonNegative k) := by
  rw [makeNonNegative, d_eq regular inside, ok_bind, Iteration.makeNonNegative]
  split
  · rw [write_eq (regular.diagSize.symm ▸ inside), ok_bind, negateColumn_eq]
    · rfl
    · rw [regular.diagSize, regular.right.rows]
    · rwa [regular.right.cols]
  · rfl

private theorem settle_eq (regular : st.Regular m n) (nonneg : 0 ≤ tolerance) (inside : k < n) (sweeps : ℕ) :
    settle tolerance k sweeps st = .ok (st.settle tolerance k sweeps) := by
  induction sweeps generalizing st with
  | zero =>
    have isolates := Iteration.isolate_isolates regular nonneg inside
    rw [settle, isolate_eq regular nonneg inside, ok_bind, Iteration.settle]
    dsimp only
    split
    · rw [makeNonNegative_eq isolates.regular inside]
      rfl
    · rfl
  | succ sweeps ih =>
    have isolates := Iteration.isolate_isolates regular nonneg inside
    have large {j : ℕ} := Iteration.d_isolate_ne_zero regular nonneg inside (j := j)
    rw [settle, isolate_eq regular nonneg inside, ok_bind, Iteration.settle]
    generalize st.isolate tolerance k = isolated at isolates large ⊢
    obtain ⟨l, st₁⟩ := isolated
    dsimp only at isolates large ⊢
    split
    · rw [makeNonNegative_eq isolates.regular inside]
      rfl
    · next several =>
      have below : l < k := lt_of_le_of_ne isolates.le several
      -- what the shift divides by is large in the state that the cancellation leaves, not only before it
      rw [sweep_eq isolates.regular below inside (large le_rfl below) (large (by omega) (by omega))
        (isolates.coupled k below le_rfl), ok_bind]
      cases swept : Iteration.sweep l k st₁ with
      | error breakdown => rfl
      | ok st₂ =>
        exact ih (Iteration.sweep_regular isolates.regular below inside swept)

private theorem split_of_negative (st : Iteration ℝ) (negative : tolerance < 0) (k : ℕ) :
    st.split tolerance k = ⟨0, false⟩ := by
  have above (x : ℝ) : ¬Scalar.abs x ≤ tolerance := by
    rw [Scalar.abs_exact, not_le]
    exact negative.trans_le (abs_nonneg x)
  induction k with
  | zero => rfl
  | succ l ih => rw [Iteration.split, if_neg (above _), if_neg (above _), ih]

/-- So the tolerance must not be negative: the block would be shifted although its last coupling is gone. -/
theorem settle_of_negative (regular : st.Regular m n) (negative : tolerance < 0) (several : 0 < k) (inside : k < n)
    (gone : st.e k = 0) (sweeps : ℕ) : settle tolerance k (sweeps + 1) st = .error .zeroDivisor := by
  have whole : isolate tolerance k st = .ok (0, st) := by
    rw [isolate, split_eq regular inside, split_of_negative st negative]
    rfl
  rw [settle, whole, ok_bind]
  dsimp only
  rw [if_neg several.ne, sweep, shift_uncoupled regular several inside gone]
  rfl

private theorem settleAll_eq (regular : st.Regular m n) (nonneg : 0 ≤ tolerance) {count : ℕ} (inside : count ≤ n)
    (maxSweeps : ℕ) : settleAll tolerance maxSweeps count st = .ok (st.settleAll tolerance maxSweeps count) := by
  induction count generalizing st with
  | zero => rfl
  | succ k ih =>
    rw [settleAll, settle_eq regular nonneg inside, ok_bind, Iteration.settleAll]
    cases settled : st.settle tolerance k maxSweeps with
    | error breakdown => rfl
    | ok st' =>
      apply ih _ (Nat.le_of_lt inside)
      exact Iteration.settle_regular regular nonneg inside settled

/-- An iteration runs into no fault. -/
theorem diagonalize_eq (regular : st.Regular m n) (nonneg : 0 ≤ tolerance) (maxSweeps : ℕ) :
    diagonalize st tolerance maxSweeps = .ok (st.diagonalize tolerance maxSweeps) :=
  settleAll_eq regular nonneg regular.diagSize.le maxSweeps

end Guarded
end BondSvd
