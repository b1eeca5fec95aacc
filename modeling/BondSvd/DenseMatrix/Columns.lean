import BondSvd.DenseMatrix.Basic

namespace BondSvd
universe u
namespace DenseMatrix
variable {α : Type u} [Scalar α]

/-- In the rows below `lead`, replaces columns `p` and `q` by `f` and `g` of the pair. -/
@[specialize] def combineColumns (p q : Nat) (f g : Cplx α → Cplx α → Cplx α) :
    (lead : Nat) → DenseMatrix α → DenseMatrix α
  | 0, A => A
  | i + 1, A =>
    let x := A.entry i p
    let y := A.entry i q
    combineColumns p q f g i ((A.set i p (f x y)).set i q (g x y))

/-- The plane rotation `(x, y) ↦ (x·cos + y·sin, y·cos - x·sin)` of the real parts of
columns `p` and `q` in the rows below `lead`. -/
def rotateColumns (A : DenseMatrix α) (lead p q : Nat) (cos sin : α) : DenseMatrix α :=
  A.combineColumns p q (fun x y => .ofScalar (x.re * cos + y.re * sin))
    (fun x y => .ofScalar (y.re * cos - x.re * sin)) lead

def swapColumns (A : DenseMatrix α) (p q : Nat) : DenseMatrix α :=
  A.combineColumns p q (fun _ y => y) (fun x _ => x) A.rows

/-- Column `j` with the opposite sign in the rows below `lead`. -/
def negateColumn (A : DenseMatrix α) (lead j : Nat) : DenseMatrix α :=
  A.combineColumns j j (fun x _ => -x) (fun x _ => -x) lead

theorem rows_combineColumns (p q : Nat) (f g : Cplx α → Cplx α → Cplx α) (lead : Nat)
    (A : DenseMatrix α) : (A.combineColumns p q f g lead).rows = A.rows := by
  induction lead generalizing A with
  | zero => rfl
  | succ i ih => simp [combineColumns, ih, rows_set]

theorem cols_combineColumns (p q : Nat) (f g : Cplx α → Cplx α → Cplx α) (lead : Nat)
    (A : DenseMatrix α) : (A.combineColumns p q f g lead).cols = A.cols := by
  induction lead generalizing A with
  | zero => rfl
  | succ i ih => simp [combineColumns, ih, cols_set]

theorem shape_combineColumns (p q : Nat) (f g : Cplx α → Cplx α → Cplx α) (lead : Nat)
    (A : DenseMatrix α) : (A.combineColumns p q f g lead).shape = A.shape :=
  Prod.ext (rows_combineColumns ..) (cols_combineColumns ..)

theorem entry_combineColumns {p q : Nat} (f g : Cplx α → Cplx α → Cplx α) {lead : Nat}
    (A : DenseMatrix α) (left : p < A.cols) (right : q < A.cols) (inside : lead ≤ A.rows)
    (i j : Nat) :
    (A.combineColumns p q f g lead).entry i j =
      if i < lead then
        if j = q then g (A.entry i p) (A.entry i q)
        else if j = p then f (A.entry i p) (A.entry i q)
        else A.entry i j
      else A.entry i j := by
  induction lead generalizing A with
  | zero => simp [combineColumns]
  | succ k ih =>
    have row : k < A.rows := inside
    have change (i j : Nat) :
        ((A.set k p (f (A.entry k p) (A.entry k q))).set k q
            (g (A.entry k p) (A.entry k q))).entry i j =
          if i = k then
            if j = q then g (A.entry k p) (A.entry k q)
            else if j = p then f (A.entry k p) (A.entry k q)
            else A.entry i j
          else A.entry i j := by
      rw [entry_set _ (by rw [rows_set]; exact row) (by rw [cols_set]; exact right),
        entry_set A row left]
      by_cases here : i = k <;> by_cases last : j = q <;> simp [here, last]
    simp only [combineColumns]
    rw [ih _ (by simpa [cols_set] using left) (by simpa [cols_set] using right)
      (by simp only [rows_set]; omega)]
    simp only [change]
    rcases Nat.lt_trichotomy i k with low | rfl | high
    · simp [low, Nat.lt_succ_of_lt low, Nat.ne_of_lt low]
    · simp
    · simp [Nat.not_lt.mpr (Nat.le_of_lt high), Nat.ne_of_gt high,
        show ¬i < k + 1 by omega]

end DenseMatrix
end BondSvd
