import BondSvd.DenseMatrix.Columns

namespace BondSvd
universe u

/-- Singular values with their vectors: column `k` of either factor belongs to value `k`. -/
structure SingularTriples (α : Type u) where
  values : Array α
  left : DenseMatrix α
  right : DenseMatrix α

namespace SingularTriples
variable {α : Type u} [Scalar α]

/-- A value and its index, replaced by a strictly larger one. -/
@[inline] def champion (values : Array α) (best : Nat × α) (i : Nat) : Nat × α :=
  if best.2 < values.getD i 0 then (i, values.getD i 0) else best

/-- The first largest value from index `k` on, with its index. -/
def largestFrom (values : Array α) (k : Nat) : Nat × α :=
  (List.range' k (values.size - k)).foldl (champion values) (k, -1)

/-- Exchanges value `j` for `largest` at place `k`, and the vectors with it. -/
def exchange (t : SingularTriples α) (k j : Nat) (largest : α) : SingularTriples α :=
  { values := (t.values.setIfInBounds j (t.values.getD k 0)).setIfInBounds k largest
    left := t.left.swapColumns j k
    right := t.right.swapColumns j k }

/-- Brings the largest remaining value to place `k`. -/
def place (t : SingularTriples α) (k : Nat) : SingularTriples α :=
  let (j, largest) := largestFrom t.values k
  if j = k then t else t.exchange k j largest

/-- The triples in descending order of their values. -/
def sorted (t : SingularTriples α) : SingularTriples α :=
  (List.range t.values.size).foldl place t

end SingularTriples
end BondSvd
