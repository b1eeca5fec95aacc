import BondSvd.Error.Basic
import BondSvd.Reference.Attempt

/-! Attempts at rescaled inputs. Some tests of an attempt are absolute, so a matrix of tiny
entries can fail although its singular structure is ordinary. It is multiplied by a fixed
factor until an attempt succeeds, and the values are divided by the power of that factor.
Inputs that no allowed rescaling lifts above the floor are decomposed as they are, with
norms below the floor flushed to zero. -/
namespace BondSvd.Reference
universe u
variable {α : Type u} [Scalar α]

/-- The exponent of the largest rescaling of a squared norm: twice the retries in 64-bit
arithmetic, no more than the largest 32-bit integer. -/
def reachExponent (maxRetries : UInt64) : Nat := min (2 * maxRetries).toNat (Nat.pow 2 31 - 1)

/-- No allowed rescaling lifts the largest column above the floor. -/
def belowReach (policy : Policy α) (A : DenseMatrix α) : Bool :=
  decide (0 < A.maxColumnNormSq) &&
    decide (A.maxColumnNormSq * Scalar.powInt policy.rescaleFactor (reachExponent policy.maxRetries) ≤
      policy.normFloor)

/-- What `tries` rescalings multiply the singular values by; the exponent is a 32-bit word. -/
def compensation (policy : Policy α) (tries : Nat) : α :=
  Scalar.powInt policy.rescaleFactor (Int32.ofNat tries).toInt

/-- The decomposition of an input, from one of its copy after `tries` rescalings. -/
def compensate (policy : Policy α) (tries : Nat) (r : Decomposition α) : Decomposition α :=
  { r with values := r.values.map (· / compensation policy tries) }

/-- Up to `left` further attempts, each on the input rescaled once more. -/
def retry (policy : Policy α) : (left tries : Nat) → DenseMatrix α → Option (Decomposition α)
  | 0, _, _ => none
  | left + 1, tries, A =>
    let scaled := A.scale policy.rescaleFactor
    match attempt policy .refuse scaled with
    | .ok r => some (compensate policy (tries + 1) r)
    | .error _ => retry policy left (tries + 1) scaled

/-- The decomposition by as many attempts as the policy allows. -/
def decompose (policy : Policy α) (A : DenseMatrix α) : Except (Error α) (Decomposition α) :=
  if belowReach policy A then
    (attempt policy .flush A).mapError fun _ => .retryExhausted 0
  else match attempt policy .refuse A with
    | .ok r => .ok r
    | .error _ =>
      match retry policy policy.maxRetries.toNat 0 A with
      | some r => .ok r
      | none => .error (.retryExhausted policy.maxRetries.toNat)

end BondSvd.Reference
