import BondSvd.Bidiagonal.Iteration
import BondSvd.Bidiagonal.Ordering
import BondSvd.Bidiagonal.Reduction
import BondSvd.Decomposition.Basic
import BondSvd.Policy

/-! One attempt at the reference decomposition: reduction to bidiagonal form, QR iteration,
sorting, and the reflections applied to the accumulated rotations. A matrix with more
columns than rows goes through its adjoint. -/
namespace BondSvd
universe u

/-- Whether a norm at or below the floor may make an attempt fail. -/
inductive FloorRule
  /-- It fails the attempt if it is significant beside the largest column. -/
  | refuse
  /-- It is an exact zero. -/
  | flush
deriving DecidableEq, Repr

namespace Reference
variable {α : Type u} [Scalar α]

/-- The floor that `rule` puts under the norms of `A`. -/
def normFloor (policy : Policy α) (rule : FloorRule) (A : DenseMatrix α) : NormFloor α :=
  { floor := policy.normFloor
    limit := match rule with
      | .refuse => some (A.maxColumnNormSq * policy.convergenceEta * policy.convergenceEta)
      | .flush => none }

/-- Bidiagonal entries up to this are negligible. -/
def negligible (policy : Policy α) (r : Reduction α) : α :=
  (List.range r.diag.size).foldl
    (fun best k => Scalar.larger best (r.diag.getD k 0 + r.superDiag.getD k 0)) 0 *
    policy.convergenceEta

/-- The QR iteration that a reduction of `A` leaves to be run. -/
def iteration (A : DenseMatrix α) (r : Reduction α) : Iteration α :=
  { diag := r.diag
    superDiag := r.superDiag
    left := .identity A.rows
    right := .identity A.cols }

/-- Sorts the settled values and applies the reflections to the rotations. -/
def assemble (r : Reduction α) (st : Iteration α) : SingularTriples α :=
  let t := SingularTriples.sorted ⟨st.diag, st.left, st.right⟩
  { t with left := r.accumulateLeft t.left, right := r.accumulateRight t.right }

/-- The attempt on a matrix with at least as many rows as columns. -/
def tall (policy : Policy α) (rule : FloorRule) (A : DenseMatrix α) :
    Except Breakdown (SingularTriples α) :=
  match A.bidiagonalize (normFloor policy rule A) with
  | none => .error .flooredNorm
  | some r =>
    match (iteration A r).diagonalize (negligible policy r) policy.maxSweeps.toNat with
    | .error breakdown => .error breakdown
    | .ok st =>
      if st.diag.all Scalar.isFinite then .ok (assemble r st) else .error .nonFinite

/-- A decomposition with unitary factors, and values that descend to no less than zero. -/
def attempt (policy : Policy α) (rule : FloorRule) (A : DenseMatrix α) :
    Except Breakdown (Decomposition α) :=
  if A.rows < A.cols then
    (tall policy rule A.adjoint).map fun t => ⟨t.right, t.values.toList, t.left, .columns, none⟩
  else
    (tall policy rule A).map fun t => ⟨t.left, t.values.toList, t.right, .columns, none⟩

end Reference
end BondSvd
