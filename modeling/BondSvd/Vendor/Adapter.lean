import BondSvd.Binary64.Scalar
import BondSvd.Decomposition.Basic
import BondSvd.Recorded

/-! Decomposition through LAPACK routines. The matrix goes in and the factors come out
column by column; the right factor is stored as its adjoint. The divide-and-conquer driver
is first asked for the workspace that it wants. -/
namespace BondSvd.Vendor

/-- Both extents at least this large call for divide and conquer. -/
def divideMinExtent : Nat := 64

/-- Whether divide and conquer pays off. -/
def usesDivideAndConquer (rows cols : Nat) : Bool :=
  decide (divideMinExtent ≤ rows) && decide (divideMinExtent ≤ cols)

def chooseRoutine (rows cols : Nat) : Routine :=
  if usesDivideAndConquer rows cols then .zgesdd else .zgesvd

/-- Zero factors, and the matrix column by column. -/
def Buffers.ofMatrix (A : DenseMatrix Float) : Buffers Float A.rows A.cols :=
  { input := Vector.ofFn fun k => A.entry (k.val % A.rows) (k.val / A.rows)
    values := Vector.replicate _ 0
    left := Vector.replicate _ 0
    rightAdjoint := Vector.replicate _ 0 }

/-- The matrix whose columns lie one after the other in a buffer. -/
def ofColumnMajor {rows cols : Nat} (buffer : Vector (Cplx Float) (rows * cols)) :
    DenseMatrix Float :=
  .ofFn rows cols fun i j => buffer.getD (i + j * rows) 0

/-- The factors as the buffers hold them. -/
def Buffers.decomposition {m n : Nat} (buffers : Buffers Float m n) : Decomposition Float :=
  { left := ofColumnMajor buffers.left
    values := buffers.values.toList
    right := ofColumnMajor buffers.rightAdjoint
    convention := .adjoint }

/-- The call for an `m` by `n` matrix with a workspace of the given length. -/
def computeCall (routine : Routine) (m n workspace : Nat) : RoutineCall :=
  { routine
    jobs := match routine with
      | .zgesvd => ['A', 'A']
      | .zgesdd => ['A']
    rows := Int32.ofNat m
    cols := Int32.ofNat n
    lda := max (Int32.ofNat m) 1
    ldu := max (Int32.ofNat m) 1
    ldvt := max (Int32.ofNat n) 1
    lwork := Int32.ofNat workspace
    workspace }

/-- The call that asks for the length of the workspace. -/
def queryCall (m n : Nat) : RoutineCall :=
  { computeCall .zgesdd m n 1 with lwork := -1 }

/-- The workspace of the standard driver. -/
def standardWorkspace (m n : Nat) : Nat := max (2 * min m n + max m n) 1

/-- The workspace that a query was answered with: cut to a whole number, at least one. -/
def queriedWorkspace (answer : Float) : Nat := max answer.toUInt64.toNat 1

/-- Calls a provider's routine, after a query where the routine is divide and conquer. -/
def Provider.drive (provider : Provider Float) (routine : Routine) {m n : Nat}
    (buffers : Buffers Float m n) : List RoutineCall × Int32 × Buffers Float m n :=
  match routine with
  | .zgesvd =>
    let call := computeCall .zgesvd m n (standardWorkspace m n)
    let reply := provider call m n buffers
    ([call], reply.info, reply.buffers)
  | .zgesdd =>
    let query := provider (queryCall m n) m n buffers
    if query.info = 0 then
      let call := computeCall .zgesdd m n (queriedWorkspace query.firstWork)
      let reply := provider call m n query.buffers
      ([queryCall m n, call], reply.info, reply.buffers)
    else ([queryCall m n], query.info, query.buffers)

/-- A code other than zero is a failure of the routine. -/
def finish {m n : Nat} (routine : Routine) (info : Int32) (buffers : Buffers Float m n) :
    Except (Error Float) (Decomposition Float) :=
  if info = 0 then .ok buffers.decomposition else .error (.vendorFailure routine.name info)

/-- The decomposition of a matrix without entries, which needs no call. -/
def emptyDecomposition (A : DenseMatrix Float) : Decomposition Float :=
  { left := .identity A.rows
    values := []
    right := .identity A.cols
    convention := .adjoint }

/-- The largest extent that a routine can be told. -/
def maxExtent : Nat := Nat.pow 2 31 - 1

end BondSvd.Vendor
