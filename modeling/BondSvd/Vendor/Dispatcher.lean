import BondSvd.Bidiagonal.Ordering
import BondSvd.Vendor.Adapter

/-! The one registered provider of LAPACK routines. As long as none is installed, a linear-algebra
library stands in for it; what that computes is not part of this development. -/
namespace BondSvd.Vendor

/-- The decomposition of the library that is built in: full factors and values, or nothing where it
does not converge. -/
abbrev Library := DenseMatrix Float → Option (SingularTriples Float)

/-- The matrix that lies column by column in the input buffer. -/
def Buffers.toMatrix {m n : Nat} (buffers : Buffers Float m n) : DenseMatrix Float :=
  ofColumnMajor buffers.input

/-- Triples written into the buffers, the right vectors as rows. -/
def Buffers.store {m n : Nat} (buffers : Buffers Float m n) (t : SingularTriples Float) :
    Buffers Float m n :=
  { buffers with
    values := Vector.ofFn fun k => t.values.getD k.val 0
    left := Vector.ofFn fun k => t.left.entry (k.val % m) (k.val / m)
    rightAdjoint := Vector.ofFn fun k => (t.right.entry (k.val / n) (k.val % n)).conj }

/-- The library in the place of either routine. It makes no call, and code one stands for an input
on which it does not converge. -/
def Library.drive (library : Library) {m n : Nat} (buffers : Buffers Float m n) :
    Int32 × Buffers Float m n :=
  match library buffers.toMatrix with
  | some t => (0, buffers.store t)
  | none => (1, buffers)

/-- Whether `part` stands somewhere in a text. -/
def occursIn (part : List Char) : List Char → Bool
  | [] => part.isEmpty
  | c :: text => part.isPrefixOf (c :: text) || occursIn part text

/-- The library, and the provider that is installed in its place. -/
structure Dispatcher where
  library : Library
  active : Option (Provider Float) := none

namespace Dispatcher

def name (dispatcher : Dispatcher) : String :=
  match dispatcher.active with
  | some _ => "External LAPACK (LP64)"
  | none => "Faer (Pure Rust)"

/-- Whether the active provider is external, which its name tells. -/
def isExternal (dispatcher : Dispatcher) : Bool :=
  !occursIn "Faer".toList dispatcher.name.toList

/-- Of the two names, only that of the library holds its own. -/
theorem isExternal_eq (dispatcher : Dispatcher) : dispatcher.isExternal = dispatcher.active.isSome := by
  have external : occursIn "Faer".toList "External LAPACK (LP64)".toList = false := by decide +kernel
  have builtIn : occursIn "Faer".toList "Faer (Pure Rust)".toList = true := by decide +kernel
  match dispatcher with
  | ⟨_, some _⟩ => exact congrArg not external
  | ⟨_, none⟩ => exact congrArg not builtIn

def drive (dispatcher : Dispatcher) (routine : Routine) {m n : Nat} (buffers : Buffers Float m n) :
    List RoutineCall × Int32 × Buffers Float m n :=
  match dispatcher.active with
  | some provider => provider.drive routine buffers
  | none => ([], dispatcher.library.drive buffers)

end Dispatcher

/-- The decomposition through the active provider. -/
def decompose (dispatcher : Dispatcher) (A : DenseMatrix Float) :
    Recorded Float (Decomposition Float) :=
  if min A.rows A.cols = 0 then .pure (emptyDecomposition A)
  else if maxExtent < A.rows ∨ maxExtent < A.cols then
    .ofExcept (.error (.shapeMismatch (.wordSize A.rows A.cols)))
  else
    let routine := chooseRoutine A.rows A.cols
    let (calls, info, buffers) := dispatcher.drive routine (Buffers.ofMatrix A)
    ⟨finish routine info buffers, calls⟩

end BondSvd.Vendor
