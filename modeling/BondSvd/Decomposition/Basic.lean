import BondSvd.DenseMatrix.Algebra

namespace BondSvd
universe u

/-- The stored right factor is `V` itself or its adjoint. -/
inductive Convention
  | columns
  | adjoint
deriving DecidableEq, Repr

/-- What a cutoff removed: how many values there were, how many are left, and the share of
the squared norm that went with the rest. -/
structure TruncationRecord (α : Type u) where
  fullExtent : Nat
  reducedExtent : Nat
  discardedWeight : α

def TruncationRecord.isTruncated {α : Type u} (record : TruncationRecord α) : Bool :=
  decide (record.reducedExtent < record.fullExtent)

/-- The product of `left`, the diagonal of `values`, and the adjoint of the right vectors.
The extents need not fit together: a source of decompositions may hand over anything. -/
structure Decomposition (α : Type u) where
  left : DenseMatrix α
  values : List α
  right : DenseMatrix α
  convention : Convention
  truncation : Option (TruncationRecord α) := none

namespace Decomposition
variable {α : Type u} [Scalar α]

/-- The number of singular values. -/
def rank {α : Type u} (r : Decomposition α) : Nat := r.values.length

/-- The adjoint of the right vectors, whatever is stored. -/
def rightAdjoint (r : Decomposition α) : DenseMatrix α :=
  match r.convention with
  | .columns => r.right.adjoint
  | .adjoint => r.right

/-- The same decomposition with the right factor stored as `target` asks. -/
def withConvention (r : Decomposition α) (target : Convention) : Decomposition α :=
  if r.convention = target then r
  else { r with right := r.right.adjoint, convention := target }

/-- The diagonal factor, of the extents that the two outer factors leave. -/
def middle (r : Decomposition α) : DenseMatrix α :=
  .diagonal r.values r.left.cols r.rightAdjoint.rows

/-- The matrix that the factors multiply to. -/
def rebuild (r : Decomposition α) : DenseMatrix α :=
  (r.left.mul r.middle).mul r.rightAdjoint

/-- The first `count` values with their vectors on either side. -/
def take (r : Decomposition α) (count : Nat) : Decomposition α :=
  { r with
    left := r.left.leadingCols count
    values := r.values.take count
    right := match r.convention with
      | .columns => r.right.leadingCols count
      | .adjoint => r.right.leadingRows count }

theorem rebuild_shape (r : Decomposition α) :
    r.rebuild.shape = (r.left.rows, r.rightAdjoint.cols) := rfl

end Decomposition
end BondSvd
