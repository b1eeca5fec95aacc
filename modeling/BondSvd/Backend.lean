import BondSvd.Decomposition.Cutoff
import BondSvd.Decomposition.Validation
import BondSvd.Reference.Retry
import BondSvd.Vendor.Dispatcher

/-! Sources of decompositions behind one interface, and what is done with an answer of any
of them: it is compared with the input where the policy asks for that, and then cut off by
the policy's bounds, unless the source has a record of a cut of its own. -/
namespace BondSvd
universe u

/-- A source of decompositions, which may be any function. -/
structure Backend (α : Type u) [Scalar α] where
  name : String
  convention : Convention
  run : Policy α → DenseMatrix α → Recorded α (Decomposition α)

namespace Backend
variable {α : Type u} [Scalar α]

/-- A decomposition that its source has truncated is not compared with the input. -/
def skipsValidation (r : Decomposition α) : Bool :=
  match r.truncation with
  | some record => record.isTruncated
  | none => false

/-- The comparison with the input, where it is asked for and makes sense. -/
def check (policy : Policy α) (input : DenseMatrix α) (r : Decomposition α) :
    Except (Error α) Unit :=
  if policy.validate && !skipsValidation r then r.validate input else .ok ()

/-- The policy's cutoff, unless a record shows that the source has applied one. -/
def applyCutoff (policy : Policy α) (r : Decomposition α) : Decomposition α :=
  if (Cutoff.ofPolicy policy).isActive && r.truncation.isNone then
    let (kept, record) := r.cut (Cutoff.ofPolicy policy)
    { kept with truncation := some record }
  else r

/-- What is made of an answer: a check, then the cutoff. -/
def finish (policy : Policy α) (input : DenseMatrix α) (r : Decomposition α) :
    Except (Error α) (Decomposition α) :=
  (check policy input r).map fun _ => applyCutoff policy r

/-- A decomposition by the backend, checked and cut off. -/
def decompose (backend : Backend α) (policy : Policy α) (A : DenseMatrix α) :
    Recorded α (Decomposition α) :=
  (backend.run policy A).andThen (finish policy A)

/-- The reference algorithm with its retries. -/
def reference : Backend α :=
  { name := "reference (Householder + implicit QR)"
    convention := .columns
    run := fun policy A => .ofExcept (Reference.decompose policy A) }

/-- LAPACK routines of the provider that is active at the call. -/
def vendor (dispatcher : Vendor.Dispatcher) : Backend Float :=
  { name := "vendor LAPACK"
    convention := .adjoint
    run := fun _ A => Vendor.decompose dispatcher A }

end Backend

/-- The kinds of backend that can be asked for. -/
inductive BackendKind
  | reference
  | vendor
  | gpu
deriving DecidableEq, Repr

namespace BackendKind

/-- The caller's flag decides. -/
def select (useVendor : Bool) : BackendKind := if useVendor then .vendor else .reference

/-- The backend of a kind, unless no library for it is linked. It looks at the dispatcher only when it
is called, so it is made for any state of that. -/
def backend : BackendKind → Except (Error Float) (Vendor.Dispatcher → Backend Float)
  | .reference => .ok fun _ => .reference
  | .vendor => .ok .vendor
  | .gpu => .error (.invalidConfig .noTensorNetwork)

end BackendKind
end BondSvd
