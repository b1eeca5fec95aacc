import BondSvd.DenseMatrix.Basic
import BondSvd.Sum

namespace BondSvd
universe u
namespace DenseMatrix
variable {α : Type u} [Scalar α]

/-- The conjugate transpose. -/
def adjoint (A : DenseMatrix α) : DenseMatrix α :=
  ofFn A.cols A.rows fun i j => (A.entry j i).conj

/-- The matrix with `values` on its main diagonal; those beyond the shorter extent do not
appear, and missing ones are zero. -/
def diagonal (values : List α) (rows cols : Nat) : DenseMatrix α :=
  let stored := values.toArray
  ofFn rows cols fun i j => if i = j then Cplx.ofScalar (stored.getD i 0) else 0

def identity (size : Nat) : DenseMatrix α :=
  ofFn size size fun i j => if i = j then 1 else 0

/-- The product over the columns of the left factor; see `mul?` for the extents. -/
def mul (A B : DenseMatrix α) : DenseMatrix α :=
  ofFn A.rows B.cols fun i j => sumFrom 0 A.cols fun k => A.entry i k * B.entry k j

/-- The product of two matrices whose inner extents agree. -/
def mul? (A B : DenseMatrix α) : Option (DenseMatrix α) :=
  if A.cols = B.rows then some (A.mul B) else none

/-- Every entry times a scalar. -/
def scale (A : DenseMatrix α) (factor : α) : DenseMatrix α :=
  ofFn A.rows A.cols fun i j => (A.entry i j).scale factor

/-- The first `count` columns, or all of them. -/
def leadingCols (A : DenseMatrix α) (count : Nat) : DenseMatrix α :=
  ofFn A.rows (min count A.cols) A.entry

/-- The first `count` rows, or all of them. -/
def leadingRows (A : DenseMatrix α) (count : Nat) : DenseMatrix α :=
  ofFn (min count A.rows) A.cols A.entry

/-- The squared length of column `j`. -/
def columnNormSq (A : DenseMatrix α) (j : Nat) : α :=
  sumFrom 0 A.rows fun i => (A.entry i j).normSq

/-- The largest squared column length; zero without columns. -/
def maxColumnNormSq (A : DenseMatrix α) : α :=
  (List.range A.cols).foldl (fun best j => Scalar.larger best (A.columnNormSq j)) 0

/-- The entry of `Aᴴ·A - 1` in row `i` and column `j`. -/
def orthonormalDefect (A : DenseMatrix α) (i j : Nat) : Cplx α :=
  let product := sumFrom 0 A.rows fun k => (A.entry k i).conj * A.entry k j
  ⟨product.re - (if i = j then 1 else 0), product.im⟩

/-- No entry of `Aᴴ·A - 1` has a modulus above the tolerance. -/
def isUnitary (A : DenseMatrix α) (tolerance : α) : Bool :=
  (List.range A.cols).all fun i => (List.range A.cols).all fun j =>
    !decide (tolerance < (A.orthonormalDefect i j).modulus)

theorem rows_adjoint (A : DenseMatrix α) : A.adjoint.rows = A.cols := rfl
theorem cols_adjoint (A : DenseMatrix α) : A.adjoint.cols = A.rows := rfl

theorem entry_adjoint (A : DenseMatrix α) {i j : Nat} (row : i < A.cols) (col : j < A.rows) :
    A.adjoint.entry i j = (A.entry j i).conj := entry_ofFn _ row col

theorem entry_identity {size i j : Nat} (row : i < size) (col : j < size) :
    (identity size : DenseMatrix α).entry i j = if i = j then 1 else 0 := entry_ofFn _ row col

theorem entry_diagonal (values : List α) {rows cols i j : Nat} (row : i < rows) (col : j < cols) :
    (diagonal values rows cols).entry i j =
      if i = j then Cplx.ofScalar (values[i]?.getD 0) else 0 := by
  simp [diagonal, entry_ofFn _ row col, Array.getD_eq_getD_getElem?]

theorem rows_mul (A B : DenseMatrix α) : (A.mul B).rows = A.rows := rfl
theorem cols_mul (A B : DenseMatrix α) : (A.mul B).cols = B.cols := rfl

theorem entry_mul (A B : DenseMatrix α) {i j : Nat} (row : i < A.rows) (col : j < B.cols) :
    (A.mul B).entry i j = sumFrom 0 A.cols fun k => A.entry i k * B.entry k j :=
  entry_ofFn _ row col

theorem entry_scale (A : DenseMatrix α) (factor : α) {i j : Nat} (row : i < A.rows)
    (col : j < A.cols) : (A.scale factor).entry i j = (A.entry i j).scale factor :=
  entry_ofFn _ row col

theorem entry_leadingCols (A : DenseMatrix α) {count i j : Nat} (row : i < A.rows)
    (col : j < min count A.cols) : (A.leadingCols count).entry i j = A.entry i j :=
  entry_ofFn _ row col

theorem entry_leadingRows (A : DenseMatrix α) {count i j : Nat} (row : i < min count A.rows)
    (col : j < A.cols) : (A.leadingRows count).entry i j = A.entry i j :=
  entry_ofFn _ row col

end DenseMatrix
end BondSvd
