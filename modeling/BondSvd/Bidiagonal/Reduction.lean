import BondSvd.DenseMatrix.Reflection
import BondSvd.Tolerance

/-! Reduction of a matrix with at least as many rows as columns to a real upper bidiagonal
one, by Householder reflections from both sides. Each reflection is followed by a phase, so
the two diagonals come out real and non-negative. The reflectors stay in the matrix where
they were formed, and are applied again when the unitary factors are built. -/
namespace BondSvd
universe u
variable {α : Type u} [Scalar α]

/-- What becomes of a squared norm that is too small to divide by. -/
inductive FloorVerdict
  | keep
  | flush
  | refuse
deriving DecidableEq, Repr

/-- Squared norms at or below `floor` are flushed to zero, except that one above `limit`
still carries weight and is refused. Without a limit nothing is refused. -/
structure NormFloor (α : Type u) where
  floor : α
  limit : Option α

def NormFloor.judge (rule : NormFloor α) (normSq : α) : FloorVerdict :=
  if rule.floor < normSq then .keep
  else match rule.limit with
    | some limit => if limit < normSq then .refuse else .flush
    | none => .flush

theorem NormFloor.judge_eq_keep_iff (rule : NormFloor α) (normSq : α) :
    rule.judge normSq = .keep ↔ rule.floor < normSq := by
  unfold judge
  split
  · next large => simp [large]
  · next small =>
    refine ⟨fun kept => ?_, fun large => absurd large small⟩
    split at kept
    · split at kept <;> cases kept
    · cases kept

/-- The unit complex number in the direction of `x`, or one where `x` vanishes. -/
def phase (x : Cplx α) (modulus : α) : Cplx α :=
  if modulus ≤ Tolerance.zero then 1 else x.unscale modulus

/-- A reduction under way: reflectors in the matrix, and the diagonals found so far. -/
structure Reduction (α : Type u) where
  reflectors : DenseMatrix α
  diag : Array α
  superDiag : Array α

namespace Reduction

def start (A : DenseMatrix α) : Reduction α :=
  ⟨A, Array.replicate A.cols 0, Array.replicate A.cols 0⟩

theorem start_getD (A : DenseMatrix α) (j : Nat) :
    (start A).diag.getD j 0 = 0 ∧ (start A).superDiag.getD j 0 = 0 := by
  have zero : (Array.replicate A.cols (0 : α)).getD j 0 = 0 := by
    rw [Array.getD_eq_getD_getElem?, Array.getElem?_replicate]
    split <;> rfl
  exact ⟨zero, zero⟩

/-- The squared length of column `k` from the diagonal down. -/
def columnTailNormSq (r : Reduction α) (k : Nat) : α :=
  sumFrom k (r.reflectors.rows - k) fun i => (r.reflectors.entry i k).normSq

/-- The squared length of row `k` right of the diagonal. -/
def rowTailNormSq (r : Reduction α) (k : Nat) : α :=
  sumFrom (k + 1) (r.reflectors.cols - (k + 1)) fun j => (r.reflectors.entry k j).normSq

/-- The opposite of the direction of `x`, conjugated. -/
def turn (x : Cplx α) : Cplx α := (-x.conj).unscale x.modulus

/-- Clears column `k` below the diagonal and makes its diagonal entry real. -/
def columnPart (rule : NormFloor α) (k : Nat) (r : Reduction α) : Option (Reduction α) :=
  match rule.judge (r.columnTailNormSq k) with
  | .refuse => none
  | .flush => some r
  | .keep =>
    let length := Scalar.sqrt (r.columnTailNormSq k)
    let pivot := r.reflectors.entry k k
    let modulus := pivot.modulus
    let A := r.reflectors.set k k ((phase pivot modulus).scale (length + modulus))
    let B := A.reflectLeft (fun i => A.entry i k) (length * (length + modulus)) k (k + 1)
    some { r with
      reflectors := B.scaleRow k (k + 1) (turn (B.entry k k))
      diag := r.diag.setIfInBounds k length }

/-- Clears row `k` beyond the superdiagonal and makes that entry real. -/
def rowPart (rule : NormFloor α) (k : Nat) (r : Reduction α) : Option (Reduction α) :=
  match rule.judge (r.rowTailNormSq k) with
  | .refuse => none
  | .flush => some r
  | .keep =>
    let length := Scalar.sqrt (r.rowTailNormSq k)
    let pivot := r.reflectors.entry k (k + 1)
    let modulus := pivot.modulus
    let A := r.reflectors.set k (k + 1) ((phase pivot modulus).scale (length + modulus))
    let B := A.reflectRight (fun j => A.entry k j) (length * (length + modulus)) (k + 1) (k + 1)
    some { r with
      reflectors := B.scaleColumn (k + 1) (k + 1) (turn (B.entry k (k + 1)))
      superDiag := r.superDiag.setIfInBounds (k + 1) length }

/-- The last column has no row part. -/
def step (rule : NormFloor α) (k : Nat) (r : Reduction α) : Option (Reduction α) :=
  (r.columnPart rule k).bind fun r =>
    if k + 1 < r.reflectors.cols then r.rowPart rule k else some r

/-- The reduction of the first `count` columns; none if a norm was refused. -/
def upTo (rule : NormFloor α) (A : DenseMatrix α) : (count : Nat) → Option (Reduction α)
  | 0 => some (start A)
  | k + 1 => (upTo rule A k).bind (step rule k)

/-- Replays the left reflection of step `k` on the rows of `U`. -/
def applyLeft (r : Reduction α) (k : Nat) (U : DenseMatrix α) : DenseMatrix α :=
  if r.diag.getD k 0 ≤ Tolerance.zero then U
  else
    let pivot := r.reflectors.entry k k
    let modulus := pivot.modulus
    (U.scaleRow k 0 ((-pivot).unscale modulus)).reflectLeft (fun i => r.reflectors.entry i k)
      (modulus * r.diag.getD k 0) k 0

/-- Replays the right reflection of step `k` on the rows of `V`. -/
def applyRight (r : Reduction α) (k : Nat) (V : DenseMatrix α) : DenseMatrix α :=
  if r.superDiag.getD (k + 1) 0 ≤ Tolerance.zero then V
  else
    let pivot := r.reflectors.entry k (k + 1)
    (V.scaleRow (k + 1) 0 (turn pivot)).reflectLeft (fun j => (r.reflectors.entry k j).conj)
      (pivot.modulus * r.superDiag.getD (k + 1) 0) (k + 1) 0

/-- Applies `f` for the indices below `count`, the last one first. -/
@[specialize] def backwards (f : Nat → DenseMatrix α → DenseMatrix α) :
    (count : Nat) → DenseMatrix α → DenseMatrix α
  | 0, A => A
  | k + 1, A => backwards f k (f k A)

def accumulateLeft (r : Reduction α) (U : DenseMatrix α) : DenseMatrix α :=
  backwards r.applyLeft r.reflectors.cols U

def accumulateRight (r : Reduction α) (V : DenseMatrix α) : DenseMatrix α :=
  backwards r.applyRight (r.reflectors.cols - 1) V

theorem shape_applyLeft (r : Reduction α) (k : Nat) (U : DenseMatrix α) : (r.applyLeft k U).shape = U.shape := by
  unfold applyLeft
  split <;> rfl

theorem shape_applyRight (r : Reduction α) (k : Nat) (V : DenseMatrix α) : (r.applyRight k V).shape = V.shape := by
  unfold applyRight
  split <;> rfl

omit [Scalar α] in
theorem shape_backwards {f : Nat → DenseMatrix α → DenseMatrix α} (shapes : ∀ k A, (f k A).shape = A.shape)
    (count : Nat) (A : DenseMatrix α) : (backwards f count A).shape = A.shape := by
  induction count generalizing A with
  | zero => rfl
  | succ k ih => exact (ih (f k A)).trans (shapes k A)

theorem upTo_zero (rule : NormFloor α) (A : DenseMatrix α) : upTo rule A 0 = some (start A) := rfl

theorem upTo_succ (rule : NormFloor α) (A : DenseMatrix α) (k : Nat) :
    upTo rule A (k + 1) = (upTo rule A k).bind (step rule k) := rfl

end Reduction

/-- Reduces all columns; none if the floor refuses a norm. -/
def DenseMatrix.bidiagonalize (A : DenseMatrix α) (rule : NormFloor α) : Option (Reduction α) :=
  Reduction.upTo rule A A.cols

end BondSvd
