import BondSvd.DenseMatrix.Basic
import BondSvd.Sum

namespace BondSvd
universe u
namespace DenseMatrix
variable {α : Type u} [Scalar α]

/-- The weights `wᴴ·A / divisor` of the columns from `first`, over the rows from `top`. -/
def columnWeight (A : DenseMatrix α) (w : Nat → Cplx α) (divisor : α) (top j : Nat) : Cplx α :=
  (sumFrom top (A.rows - top) fun i => (w i).conj * A.entry i j).unscale divisor

/-- The weights `A·w̄ / divisor` of the rows, over the columns from `first`. -/
def rowWeight (A : DenseMatrix α) (w : Nat → Cplx α) (divisor : α) (first i : Nat) : Cplx α :=
  (sumFrom first (A.cols - first) fun j => (w j).conj * A.entry i j).unscale divisor

/-- Subtracts from each column its weight times `w`, in the block of rows from `top` and
columns from `first`. -/
def reflectLeft (A : DenseMatrix α) (w : Nat → Cplx α) (divisor : α) (top first : Nat) :
    DenseMatrix α :=
  let weights := (Array.range A.cols).map fun j =>
    if first ≤ j then A.columnWeight w divisor top j else 0
  ofFn A.rows A.cols fun i j =>
    if top ≤ i ∧ first ≤ j then A.entry i j - weights.getD j 0 * w i else A.entry i j

/-- Subtracts from each row its weight times `w`, in the same kind of block. -/
def reflectRight (A : DenseMatrix α) (w : Nat → Cplx α) (divisor : α) (top first : Nat) :
    DenseMatrix α :=
  let weights := (Array.range A.rows).map fun i =>
    if top ≤ i then A.rowWeight w divisor first i else 0
  ofFn A.rows A.cols fun i j =>
    if top ≤ i ∧ first ≤ j then A.entry i j - weights.getD i 0 * w j else A.entry i j

/-- Multiplies one row by `factor`, in the columns from `first`. -/
def scaleRow (A : DenseMatrix α) (row first : Nat) (factor : Cplx α) : DenseMatrix α :=
  ofFn A.rows A.cols fun i j =>
    if i = row ∧ first ≤ j then factor * A.entry i j else A.entry i j

/-- Multiplies one column by `factor`, in the rows from `top`. -/
def scaleColumn (A : DenseMatrix α) (top column : Nat) (factor : Cplx α) : DenseMatrix α :=
  ofFn A.rows A.cols fun i j =>
    if top ≤ i ∧ j = column then A.entry i j * factor else A.entry i j

theorem entry_reflectLeft (A : DenseMatrix α) (w : Nat → Cplx α) (divisor : α) (top first : Nat)
    {i j : Nat} (row : i < A.rows) (col : j < A.cols) :
    (A.reflectLeft w divisor top first).entry i j =
      if top ≤ i ∧ first ≤ j then A.entry i j - A.columnWeight w divisor top j * w i
      else A.entry i j := by
  rw [reflectLeft, entry_ofFn _ row col]
  split
  · next inside => simp [Array.getD_eq_getD_getElem?, col, inside.2]
  · rfl

theorem entry_reflectRight (A : DenseMatrix α) (w : Nat → Cplx α) (divisor : α) (top first : Nat)
    {i j : Nat} (row : i < A.rows) (col : j < A.cols) :
    (A.reflectRight w divisor top first).entry i j =
      if top ≤ i ∧ first ≤ j then A.entry i j - A.rowWeight w divisor first i * w j
      else A.entry i j := by
  rw [reflectRight, entry_ofFn _ row col]
  split
  · next inside => simp [Array.getD_eq_getD_getElem?, row, inside.1]
  · rfl

theorem entry_reflectLeft_of_not (A : DenseMatrix α) (w : Nat → Cplx α) (divisor : α) {top first i j : Nat}
    (outside : ¬(top ≤ i ∧ first ≤ j)) : (A.reflectLeft w divisor top first).entry i j = A.entry i j := by
  by_cases inside : i < A.rows ∧ j < A.cols
  · rw [entry_reflectLeft A w divisor top first inside.1 inside.2, if_neg outside]
  · rw [entry_outside inside]
    exact entry_outside inside

theorem entry_reflectRight_of_not (A : DenseMatrix α) (w : Nat → Cplx α) (divisor : α) {top first i j : Nat}
    (outside : ¬(top ≤ i ∧ first ≤ j)) : (A.reflectRight w divisor top first).entry i j = A.entry i j := by
  by_cases inside : i < A.rows ∧ j < A.cols
  · rw [entry_reflectRight A w divisor top first inside.1 inside.2, if_neg outside]
  · rw [entry_outside inside]
    exact entry_outside inside

theorem entry_scaleRow (A : DenseMatrix α) (r first : Nat) (factor : Cplx α) {i j : Nat}
    (row : i < A.rows) (col : j < A.cols) :
    (A.scaleRow r first factor).entry i j =
      if i = r ∧ first ≤ j then factor * A.entry i j else A.entry i j := entry_ofFn _ row col

theorem entry_scaleColumn (A : DenseMatrix α) (top c : Nat) (factor : Cplx α) {i j : Nat}
    (row : i < A.rows) (col : j < A.cols) :
    (A.scaleColumn top c factor).entry i j =
      if top ≤ i ∧ j = c then A.entry i j * factor else A.entry i j := entry_ofFn _ row col

theorem entry_scaleRow_of_not (A : DenseMatrix α) {r first i j : Nat} (factor : Cplx α)
    (outside : ¬(i = r ∧ first ≤ j)) : (A.scaleRow r first factor).entry i j = A.entry i j := by
  by_cases inside : i < A.rows ∧ j < A.cols
  · rw [entry_scaleRow A r first factor inside.1 inside.2, if_neg outside]
  · rw [entry_outside inside]
    exact entry_outside inside

theorem entry_scaleColumn_of_not (A : DenseMatrix α) {top c i j : Nat} (factor : Cplx α)
    (outside : ¬(top ≤ i ∧ j = c)) : (A.scaleColumn top c factor).entry i j = A.entry i j := by
  by_cases inside : i < A.rows ∧ j < A.cols
  · rw [entry_scaleColumn A top c factor inside.1 inside.2, if_neg outside]
  · rw [entry_outside inside]
    exact entry_outside inside

end DenseMatrix
end BondSvd
