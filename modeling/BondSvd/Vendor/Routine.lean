import BondSvd.Cplx

/-! Calls of LAPACK routines: 32-bit integers, column-major buffers, and an information
code that is zero on success. A provider is any function from a call and its buffers to a
reply; the buffers keep their lengths by type. -/
namespace BondSvd.Vendor
universe u

/-- The standard driver and the divide-and-conquer driver. -/
inductive Routine
  | zgesvd
  | zgesdd
deriving DecidableEq, Repr

def Routine.name : Routine → String
  | .zgesvd => "zgesvd"
  | .zgesdd => "zgesdd"

/-- The arguments of a call, and the length of the workspace that goes with it. The
divide-and-conquer driver takes one job for both factors. -/
structure RoutineCall where
  routine : Routine
  jobs : List Char
  rows : Int32
  cols : Int32
  lda : Int32
  ldu : Int32
  ldvt : Int32
  lwork : Int32
  workspace : Nat
deriving DecidableEq

/-- The memory of a call for a matrix of `m` rows and `n` columns. -/
structure Buffers (α : Type u) (m n : Nat) where
  input : Vector (Cplx α) (m * n)
  values : Vector α (min m n)
  left : Vector (Cplx α) (m * m)
  rightAdjoint : Vector (Cplx α) (n * n)

/-- What a call leaves behind; `firstWork` is the real part of the first workspace entry. -/
structure Reply (α : Type u) (m n : Nat) where
  info : Int32
  firstWork : α
  buffers : Buffers α m n

/-- Anything that answers calls of both routines. -/
abbrev Provider (α : Type u) :=
  RoutineCall → (m n : Nat) → Buffers α m n → Reply α m n

end BondSvd.Vendor
