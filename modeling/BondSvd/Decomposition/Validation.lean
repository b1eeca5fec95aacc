import BondSvd.Decomposition.Basic
import BondSvd.Error.Basic
import BondSvd.Tolerance

namespace BondSvd
universe u
variable {α : Type u} [Scalar α]

/-- Within `slack` of each other, or within four units in the last place of the larger. -/
def almostEqual (x y slack : α) : Bool :=
  let gap := Scalar.abs (x - y)
  decide (gap ≤ slack) ||
    decide (gap ≤ Scalar.larger (Scalar.abs x) (Scalar.abs y) * Tolerance.epsilon * 4.0)

def Cplx.almostEqual (x y : Cplx α) (slack : α) : Bool :=
  BondSvd.almostEqual x.re y.re slack && BondSvd.almostEqual x.im y.im slack

/-- Non-negative and non-increasing. -/
def isDescending (values : List α) : Bool :=
  values.all (fun x => decide (0 ≤ x)) &&
    (values.zip values.tail).all fun pair => decide (pair.2 ≤ pair.1)

/-- The positions of a matrix, row by row. -/
def positions (rows cols : Nat) : List (Nat × Nat) :=
  (List.range rows).flatMap fun i => (List.range cols).map fun j => (i, j)

/-- The first position, row by row, at which two matrices are not almost equal. -/
def DenseMatrix.firstMismatch (A B : DenseMatrix α) : Option (Nat × Nat) :=
  (positions A.rows A.cols).find? fun (i, j) =>
    !(A.entry i j).almostEqual (B.entry i j) Tolerance.drift

/-- Compares the rebuilt matrix with the input. -/
def Decomposition.validate (r : Decomposition α) (input : DenseMatrix α) : Except (Error α) Unit :=
  let product := r.rebuild
  if product.shape = input.shape then
    match input.firstMismatch product with
    | none => .ok ()
    | some (i, j) => .error (.validationMismatch i j (input.entry i j) (product.entry i j))
  else .error (.shapeMismatch (.rebuilt product.shape input.shape))

theorem mem_positions {rows cols i j : Nat} :
    (i, j) ∈ positions rows cols ↔ i < rows ∧ j < cols := by
  simp [positions]

end BondSvd
