import BondSvd.DenseMatrix.Columns
import BondSvd.DoubleWord
import BondSvd.Tolerance

/-! Implicit-shift QR iteration on a real upper bidiagonal matrix. The values are settled
from the last one up: negligible entries split the matrix, a negligible diagonal entry is
chased out by cancellation, and sweeps of plane rotations drive the rest to zero. All
rotations are accumulated in the two factors. -/
namespace BondSvd
universe u

/-- The two diagonals, the rotations applied so far from either side, and how many of
them stood in for a degenerate one. Entry `k` of the superdiagonal couples the diagonal
entries `k - 1` and `k`. -/
structure Iteration (α : Type u) where
  diag : Array α
  superDiag : Array α
  left : DenseMatrix α
  right : DenseMatrix α
  degenerate : Nat := 0

/-- Why an attempt was given up. -/
inductive Breakdown
  /-- A norm too small to divide by still carried weight. -/
  | flooredNorm
  /-- A rotation had no length, and the second look could not save it. -/
  | vanishingRotation
  /-- Too many sweeps were needed for one value. -/
  | sweepLimit
  /-- A singular value came out infinite or as no number. -/
  | nonFinite
deriving DecidableEq, Repr

namespace Iteration
variable {α : Type u} [Scalar α]

@[inline] def d (st : Iteration α) (k : Nat) : α := st.diag.getD k 0
@[inline] def e (st : Iteration α) (k : Nat) : α := st.superDiag.getD k 0

@[inline] def setD (st : Iteration α) (k : Nat) (x : α) : Iteration α :=
  { st with diag := st.diag.setIfInBounds k x }

@[inline] def setE (st : Iteration α) (k : Nat) (x : α) : Iteration α :=
  { st with superDiag := st.superDiag.setIfInBounds k x }

theorem d_setD (st : Iteration α) {k : Nat} (bound : k < st.diag.size) (x : α) (j : Nat) :
    (st.setD k x).d j = if k = j then x else st.d j := getD_setIfInBounds st.diag bound x 0 j

theorem e_setE (st : Iteration α) {k : Nat} (bound : k < st.superDiag.size) (x : α) (j : Nat) :
    (st.setE k x).e j = if k = j then x else st.e j := getD_setIfInBounds st.superDiag bound x 0 j

theorem e_setD (st : Iteration α) (k : Nat) (x : α) (j : Nat) : (st.setD k x).e j = st.e j := rfl
theorem d_setE (st : Iteration α) (k : Nat) (x : α) (j : Nat) : (st.setE k x).d j = st.d j := rfl

def rotateLeft (st : Iteration α) (p q : Nat) (cos sin : α) : Iteration α :=
  { st with left := st.left.rotateColumns st.diag.size p q cos sin }

def rotateRight (st : Iteration α) (p q : Nat) (cos sin : α) : Iteration α :=
  { st with right := st.right.rotateColumns st.diag.size p q cos sin }

/-- Where the block that ends at some index begins, and whether the diagonal entry before
it is negligible while the coupling to it is not. -/
structure Split where
  start : Nat
  cancels : Bool
deriving DecidableEq, Repr

/-- Scans from index `l` down for a negligible coupling or diagonal entry. -/
def split (tolerance : α) (st : Iteration α) : (l : Nat) → Split
  | 0 => ⟨0, false⟩
  | l + 1 =>
    if Scalar.abs (st.e (l + 1)) ≤ tolerance then ⟨l + 1, false⟩
    else if Scalar.abs (st.d l) ≤ tolerance then ⟨l + 1, true⟩
    else split tolerance st l

theorem split_start_le (tolerance : α) (st : Iteration α) (k : Nat) :
    (st.split tolerance k).start ≤ k := by
  induction k with
  | zero => exact Nat.le_refl 0
  | succ l ih =>
    rw [split]
    split
    · exact Nat.le_refl _
    · split
      · exact Nat.le_refl _
      · exact Nat.le_succ_of_le ih

theorem split_start_pos {tolerance : α} {st : Iteration α} {k : Nat}
    (cancels : (st.split tolerance k).cancels = true) : 0 < (st.split tolerance k).start := by
  induction k with
  | zero => cases cancels
  | succ l ih =>
    rw [split] at cancels ⊢
    split
    · exact Nat.succ_pos l
    · next coupled =>
      rw [if_neg coupled] at cancels
      split
      · exact Nat.succ_pos l
      · next large =>
        rw [if_neg large] at cancels
        exact ih cancels

/-- Rotates the coupling to row `pivot` out of the block, one column at a time, until what
is left of it is negligible. -/
def cancel (tolerance : α) (pivot : Nat) :
    (count i : Nat) → (cos sin : α) → Iteration α → Iteration α
  | 0, _, _, _, st => st
  | count + 1, i, cos, sin, st =>
    let f := sin * st.e i
    let st := st.setE i (st.e i * cos)
    if Scalar.abs f ≤ tolerance then st
    else
      let h := st.d i
      let w := Scalar.hypot f h
      cancel tolerance pivot count (i + 1) (h / w) (-f / w)
        ((st.setD i w).rotateLeft pivot i (h / w) (-f / w))

/-- Splits off the block that ends at `k`, by cancellation where that is needed. -/
def isolate (tolerance : α) (k : Nat) (st : Iteration α) : Nat × Iteration α :=
  let split := st.split tolerance k
  if split.cancels then
    (split.start, st.cancel tolerance (split.start - 1) (k + 1 - split.start) split.start 0 1)
  else (split.start, st)

theorem isolate_start_le (tolerance : α) (st : Iteration α) (k : Nat) : (st.isolate tolerance k).1 ≤ k := by
  unfold isolate
  dsimp only
  split <;> exact split_start_le tolerance st k

/-- The first column of the shifted block, from the eigenvalue of its trailing corner. -/
def shift (l k : Nat) (st : Iteration α) : α :=
  let x := st.d l
  let w := st.d k
  let y := st.d (k - 1)
  let g := st.e (k - 1)
  let h := st.e k
  let f := ((y - w) * (y + w) + (g - h) * (g + h)) / (2.0 * h * y)
  let root := Scalar.hypot f 1
  let signed := if f < -Tolerance.sign then -root else root
  ((x - w) * (x + w) + (y / (f + signed) - h) * h) / x

/-- The entries that a sweep carries from one rotation to the next. -/
structure Bulge (α : Type u) where
  f : α
  x : α
  cos : α
  sin : α

/-- The second rotation of a step. A vanishing one is let through as the identity where
the magnified sum shows that it is only tiny. -/
def closeRotation (f h : α) (tiny : Bool) : Except Breakdown (α × α × α) :=
  let w := Scalar.hypot h f
  if tiny then .ok (w, 1, 0)
  else if w ≤ Tolerance.zero then .error .vanishingRotation
  else .ok (w, f / w, h / w)

/-- Whether a rotation by the terms `f` and `h` is degenerate: both are tiny, and the
magnified sum behind `f` does not vanish. -/
def isDegenerate (f h x cos g sin : α) : Bool :=
  decide (Scalar.abs h < Tolerance.sign) && decide (Scalar.abs f < Tolerance.sign) &&
    decide (Scalar.abs f ≤ Tolerance.zero) &&
    !(DoubleWord.rotationSum x cos g sin Tolerance.magnifier).isNegligible Tolerance.zero

/-- Moves the bulge past index `i` by one rotation from the right and one from the left. -/
def chaseStep (i : Nat) (b : Bulge α) (st : Iteration α) :
    Except Breakdown (Bulge α × Iteration α) :=
  let h := b.sin * st.e i
  let g := st.e i * b.cos
  let y := st.d i
  let w := Scalar.hypot h b.f
  if w ≤ Tolerance.zero then .error .vanishingRotation
  else
    let cos := b.f / w
    let sin := h / w
    let f := b.x * cos + g * sin
    let g' := g * cos - b.x * sin
    let h' := y * sin
    let y' := y * cos
    let tiny := isDegenerate f h' b.x cos g sin
    match closeRotation f h' tiny with
    | .error breakdown => .error breakdown
    | .ok (w', cos', sin') =>
      let st := (st.setE (i - 1) w).rotateRight (i - 1) i cos sin
      let st := (st.setD (i - 1) w').rotateLeft (i - 1) i cos' sin'
      .ok (⟨cos' * g' + sin' * y', cos' * y' - sin' * g', cos', sin'⟩,
        { st with degenerate := st.degenerate + if tiny then 1 else 0 })

/-- The steps of a sweep from index `i` on. -/
def chase : (count i : Nat) → Bulge α → Iteration α → Except Breakdown (Bulge α × Iteration α)
  | 0, _, b, st => .ok (b, st)
  | count + 1, i, b, st =>
    match chaseStep i b st with
    | .error breakdown => .error breakdown
    | .ok (b, st) => chase count (i + 1) b st

/-- One sweep over the block from `l` to `k`. -/
def sweep (l k : Nat) (st : Iteration α) : Except Breakdown (Iteration α) :=
  match chase (k - l) (l + 1) ⟨st.shift l k, st.d l, 1, 1⟩ st with
  | .error breakdown => .error breakdown
  | .ok (b, st) => .ok (((st.setE l 0).setE k b.f).setD k b.x)

/-- Makes a settled value non-negative, at the cost of its right vector's sign. -/
def makeNonNegative (k : Nat) (st : Iteration α) : Iteration α :=
  if st.d k < 0 then
    { st with
      diag := st.diag.setIfInBounds k (-st.d k)
      right := st.right.negateColumn st.diag.size k }
  else st

/-- Sweeps until the block that ends at `k` is that single entry. -/
def settle (tolerance : α) (k : Nat) : (sweeps : Nat) → Iteration α → Except Breakdown (Iteration α)
  | 0, st =>
    let (l, st) := st.isolate tolerance k
    if l = k then .ok (st.makeNonNegative k) else .error .sweepLimit
  | sweeps + 1, st =>
    let (l, st) := st.isolate tolerance k
    if l = k then .ok (st.makeNonNegative k)
    else match sweep l k st with
      | .error breakdown => .error breakdown
      | .ok st => settle tolerance k sweeps st

/-- Settles the values below `count`, the last one first. -/
def settleAll (tolerance : α) (maxSweeps : Nat) :
    (count : Nat) → Iteration α → Except Breakdown (Iteration α)
  | 0, st => .ok st
  | k + 1, st =>
    match settle tolerance k maxSweeps st with
    | .error breakdown => .error breakdown
    | .ok st => settleAll tolerance maxSweeps k st

/-- Settles every value. -/
def diagonalize (st : Iteration α) (tolerance : α) (maxSweeps : Nat) :
    Except Breakdown (Iteration α) :=
  settleAll tolerance maxSweeps st.diag.size st

end Iteration
end BondSvd
