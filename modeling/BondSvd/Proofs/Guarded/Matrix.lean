import Mathlib
import BondSvd.Proofs.Guarded.Basic

namespace BondSvd.Guarded

section Updates
variable {α : Type} [Scalar α]

/-- In the rows below `lead`, replaces columns `p` and `q` by `f` and `g` of the pair. -/
def combineColumns (p q : Nat) (f g : Cplx α → Cplx α → Cplx α) :
    (lead : Nat) → DenseMatrix α → Guarded (DenseMatrix α)
  | 0, A => .ok A
  | i + 1, A => do
    let x ← entry A i p
    let y ← entry A i q
    combineColumns p q f g i (← set (← set A i p (f x y)) i q (g x y))

def rotateColumns (A : DenseMatrix α) (lead p q : Nat) (cos sin : α) : Guarded (DenseMatrix α) :=
  combineColumns p q (fun x y => .ofScalar (x.re * cos + y.re * sin))
    (fun x y => .ofScalar (y.re * cos - x.re * sin)) lead A

def swapColumns (A : DenseMatrix α) (p q : Nat) : Guarded (DenseMatrix α) :=
  combineColumns p q (fun _ y => y) (fun x _ => x) A.rows A

def negateColumn (A : DenseMatrix α) (lead j : Nat) : Guarded (DenseMatrix α) :=
  combineColumns j j (fun x _ => -x) (fun x _ => -x) lead A

/-- The weight `wᴴ·A / divisor` of column `j`, over the rows from `top`. -/
def columnWeight (A : DenseMatrix α) (w : Nat → Guarded (Cplx α)) (divisor : α) (top j : Nat) :
    Guarded (Cplx α) := do
  unscale (← sumFrom top (A.rows - top) fun i => do return (← w i).conj * (← entry A i j)) divisor

/-- The weight `A·w̄ / divisor` of row `i`, over the columns from `first`. -/
def rowWeight (A : DenseMatrix α) (w : Nat → Guarded (Cplx α)) (divisor : α) (first i : Nat) :
    Guarded (Cplx α) := do
  unscale (← sumFrom first (A.cols - first) fun j => do return (← w j).conj * (← entry A i j)) divisor

/-- Subtracts from each column of a block its weight times `w`. -/
def reflectLeft (A : DenseMatrix α) (w : Nat → Guarded (Cplx α)) (divisor : α) (top first : Nat) :
    Guarded (DenseMatrix α) :=
  tabulate A.rows A.cols fun i j =>
    if top ≤ i ∧ first ≤ j then do
      return (← entry A i j) - (← columnWeight A w divisor top j) * (← w i)
    else entry A i j

/-- Subtracts from each row of a block its weight times `w`. -/
def reflectRight (A : DenseMatrix α) (w : Nat → Guarded (Cplx α)) (divisor : α) (top first : Nat) :
    Guarded (DenseMatrix α) :=
  tabulate A.rows A.cols fun i j =>
    if top ≤ i ∧ first ≤ j then do
      return (← entry A i j) - (← rowWeight A w divisor first i) * (← w j)
    else entry A i j

/-- Multiplies one row by `factor`, in the columns from `first`. -/
def scaleRow (A : DenseMatrix α) (row first : Nat) (factor : Cplx α) : Guarded (DenseMatrix α) := do
  let row ← require (row < A.rows) .outOfRange row
  tabulate A.rows A.cols fun i j => do
    if i = row ∧ first ≤ j then return factor * (← entry A i j) else entry A i j

/-- Multiplies one column by `factor`, in the rows from `top`. -/
def scaleColumn (A : DenseMatrix α) (top column : Nat) (factor : Cplx α) : Guarded (DenseMatrix α) := do
  let column ← require (column < A.cols) .outOfRange column
  tabulate A.rows A.cols fun i j => do
    if top ≤ i ∧ j = column then return (← entry A i j) * factor else entry A i j

def adjoint (A : DenseMatrix α) : Guarded (DenseMatrix α) :=
  tabulate A.cols A.rows fun i j => do return (← entry A j i).conj

def scale (A : DenseMatrix α) (factor : α) : Guarded (DenseMatrix α) :=
  tabulate A.rows A.cols fun i j => do return (← entry A i j).scale factor

def columnNormSq (A : DenseMatrix α) (j : Nat) : Guarded α :=
  sumFrom 0 A.rows fun i => do return (← entry A i j).normSq

def maxColumnNormSq (A : DenseMatrix α) : Guarded α :=
  (List.range A.cols).foldlM (fun best j => do return Scalar.larger best (← columnNormSq A j)) 0

variable {A : DenseMatrix α}

theorem combineColumns_eq {p q : Nat} (left : p < A.cols) (right : q < A.cols) (f g : Cplx α → Cplx α → Cplx α)
    {lead : Nat} (inside : lead ≤ A.rows) : combineColumns p q f g lead A = .ok (A.combineColumns p q f g lead) := by
  induction lead generalizing A with
  | zero => rfl
  | succ i ih =>
    have row : i < A.rows := inside
    simp only [combineColumns, entry_eq row left, entry_eq row right, set_eq row left, ok_bind]
    rw [set_eq (by rwa [DenseMatrix.rows_set]) (by rwa [DenseMatrix.cols_set]), ok_bind]
    apply ih
    · simpa only [DenseMatrix.cols_set] using left
    · simpa only [DenseMatrix.cols_set] using right
    · simp only [DenseMatrix.rows_set]
      exact row.le

theorem rotateColumns_eq {lead p q : Nat} (inside : lead ≤ A.rows) (left : p < A.cols) (right : q < A.cols)
    (cos sin : α) : rotateColumns A lead p q cos sin = .ok (A.rotateColumns lead p q cos sin) :=
  combineColumns_eq left right _ _ inside

theorem swapColumns_eq {p q : Nat} (left : p < A.cols) (right : q < A.cols) :
    swapColumns A p q = .ok (A.swapColumns p q) := combineColumns_eq left right _ _ le_rfl

theorem negateColumn_eq {lead j : Nat} (inside : lead ≤ A.rows) (col : j < A.cols) :
    negateColumn A lead j = .ok (A.negateColumn lead j) := combineColumns_eq col col _ _ inside

theorem scaleRow_eq {row : Nat} (inside : row < A.rows) (first : Nat) (factor : Cplx α) :
    scaleRow A row first factor = .ok (A.scaleRow row first factor) := by
  rw [scaleRow, require_of inside, ok_bind]
  apply tabulate_eq
  intro i j within col
  rw [entry_eq within col]
  split <;> rfl

theorem scaleColumn_eq {column : Nat} (inside : column < A.cols) (top : Nat) (factor : Cplx α) :
    scaleColumn A top column factor = .ok (A.scaleColumn top column factor) := by
  rw [scaleColumn, require_of inside, ok_bind]
  apply tabulate_eq
  intro i j row within
  rw [entry_eq row within]
  split <;> rfl

theorem adjoint_eq (A : DenseMatrix α) : adjoint A = .ok A.adjoint := by
  apply tabulate_eq
  intro i j col row
  rw [entry_eq row col]
  rfl

theorem scale_eq (A : DenseMatrix α) (factor : α) : scale A factor = .ok (A.scale factor) := by
  apply tabulate_eq
  intro i j row col
  rw [entry_eq row col]
  rfl

private theorem columnNormSq_eq {j : Nat} (col : j < A.cols) : columnNormSq A j = .ok (A.columnNormSq j) := by
  apply sumFrom_eq
  intro i _ row
  rw [entry_eq (by omega) col]
  rfl

theorem maxColumnNormSq_eq (A : DenseMatrix α) : maxColumnNormSq A = .ok A.maxColumnNormSq := by
  apply foldlM_eq_of_forall
  intro j member best
  rw [columnNormSq_eq (List.mem_range.mp member)]
  rfl

end Updates

section Reflections
variable {A : DenseMatrix ℝ} {w : ℕ → Guarded (Cplx ℝ)} {v : ℕ → Cplx ℝ} {divisor : ℝ} {top first : ℕ}

private theorem columnWeight_eq (vector : ∀ i, top ≤ i → i < A.rows → w i = .ok (v i)) (present : divisor ≠ 0) {j : ℕ}
    (col : j < A.cols) : columnWeight A w divisor top j = .ok (A.columnWeight v divisor top j) := by
  have sum : (sumFrom top (A.rows - top) fun i => do return (← w i).conj * (← entry A i j)) =
      .ok (BondSvd.sumFrom top (A.rows - top) fun i => (v i).conj * A.entry i j) := by
    apply sumFrom_eq
    intro i low high
    rw [vector i low (by omega), entry_eq (by omega) col]
    rfl
  rw [columnWeight, sum]
  exact unscale_eq present _

private theorem rowWeight_eq (vector : ∀ j, first ≤ j → j < A.cols → w j = .ok (v j)) (present : divisor ≠ 0) {i : ℕ}
    (row : i < A.rows) : rowWeight A w divisor first i = .ok (A.rowWeight v divisor first i) := by
  have sum : (sumFrom first (A.cols - first) fun j => do return (← w j).conj * (← entry A i j)) =
      .ok (BondSvd.sumFrom first (A.cols - first) fun j => (v j).conj * A.entry i j) := by
    apply sumFrom_eq
    intro j low high
    rw [vector j low (by omega), entry_eq row (by omega)]
    rfl
  rw [rowWeight, sum]
  exact unscale_eq present _

theorem reflectLeft_eq (vector : ∀ i, top ≤ i → i < A.rows → w i = .ok (v i)) (present : divisor ≠ 0) (first : ℕ) :
    reflectLeft A w divisor top first = .ok (A.reflectLeft v divisor top first) := by
  rw [← DenseMatrix.ofFn_entry (A.reflectLeft v divisor top first)]
  apply tabulate_eq
  intro i j row col
  rw [DenseMatrix.entry_reflectLeft A v divisor top first row col, entry_eq row col]
  split
  · next block =>
    rw [columnWeight_eq vector present col, vector i block.1 row]
    rfl
  · rfl

theorem reflectRight_eq (vector : ∀ j, first ≤ j → j < A.cols → w j = .ok (v j)) (present : divisor ≠ 0) (top : ℕ) :
    reflectRight A w divisor top first = .ok (A.reflectRight v divisor top first) := by
  rw [← DenseMatrix.ofFn_entry (A.reflectRight v divisor top first)]
  apply tabulate_eq
  intro i j row col
  rw [DenseMatrix.entry_reflectRight A v divisor top first row col, entry_eq row col]
  split
  · next block =>
    rw [rowWeight_eq vector present row, vector j block.2 col]
    rfl
  · rfl

end Reflections
end BondSvd.Guarded
