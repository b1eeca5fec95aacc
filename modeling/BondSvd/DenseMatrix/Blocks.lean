import BondSvd.DenseMatrix.Algebra
import BondSvd.Error.Basic

/-! Putting matrices together and cutting them in halves along one axis. The four blocks of
a two-site tensor are packed as a square of blocks, and the factors of its decomposition
are cut in halves again. -/
namespace BondSvd
universe u

/-- Axis 0 runs over rows, axis 1 over columns. -/
inductive Axis
  | rows
  | cols
deriving DecidableEq, Repr

def Axis.ofCode {α : Type u} : Nat → Except (Error α) Axis
  | 0 => .ok .rows
  | 1 => .ok .cols
  | code => .error (.shapeMismatch (.axis code))

namespace DenseMatrix
variable {α : Type u} [Scalar α]

/-- The first matrix above the second. -/
def stack (A B : DenseMatrix α) : Except (Error α) (DenseMatrix α) :=
  if A.cols = B.cols then
    .ok (ofFn (A.rows + B.rows) A.cols fun i j =>
      if i < A.rows then A.entry i j else B.entry (i - A.rows) j)
  else .error (.shapeMismatch (.columnCounts A.shape B.shape))

/-- The first matrix to the left of the second. -/
def join (A B : DenseMatrix α) : Except (Error α) (DenseMatrix α) :=
  if A.rows = B.rows then
    .ok (ofFn A.rows (A.cols + B.cols) fun i j =>
      if j < A.cols then A.entry i j else B.entry i (j - A.cols))
  else .error (.shapeMismatch (.rowCounts A.shape B.shape))

/-- The two matrices one after the other along an axis. -/
def concat (A B : DenseMatrix α) : Axis → Except (Error α) (DenseMatrix α)
  | .rows => A.stack B
  | .cols => A.join B

/-- The upper and the lower half. -/
def rowHalves (A : DenseMatrix α) : Except (Error α) (DenseMatrix α × DenseMatrix α) :=
  if A.rows % 2 = 0 then
    .ok (ofFn (A.rows / 2) A.cols A.entry,
      ofFn (A.rows / 2) A.cols fun i j => A.entry (i + A.rows / 2) j)
  else .error (.shapeMismatch (.oddRows A.rows))

/-- The left and the right half. -/
def colHalves (A : DenseMatrix α) : Except (Error α) (DenseMatrix α × DenseMatrix α) :=
  if A.cols % 2 = 0 then
    .ok (ofFn A.rows (A.cols / 2) A.entry,
      ofFn A.rows (A.cols / 2) fun i j => A.entry i (j + A.cols / 2))
  else .error (.shapeMismatch (.oddColumns A.cols))

/-- The two halves along an axis. -/
def halves (A : DenseMatrix α) : Axis → Except (Error α) (DenseMatrix α × DenseMatrix α)
  | .rows => A.rowHalves
  | .cols => A.colHalves

end DenseMatrix

/-- The four blocks of a two-site tensor, named by their place in the packed matrix. -/
structure SiteBlocks (α : Type u) where
  upperLeft : DenseMatrix α
  upperRight : DenseMatrix α
  lowerLeft : DenseMatrix α
  lowerRight : DenseMatrix α

/-- One matrix made of the four blocks. -/
def SiteBlocks.pack {α : Type u} [Scalar α] (blocks : SiteBlocks α) :
    Except (Error α) (DenseMatrix α) :=
  match blocks.upperLeft.join blocks.upperRight with
  | .error fault => .error fault
  | .ok upper => match blocks.lowerLeft.join blocks.lowerRight with
    | .error fault => .error fault
    | .ok lower => upper.stack lower

end BondSvd
