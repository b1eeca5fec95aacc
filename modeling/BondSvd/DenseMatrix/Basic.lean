import BondSvd.Cplx

/-! Dense complex matrices whose shape is known only when they run. Entries lie row by
row in one vector; `entry` reads zero outside the shape, `ofFn` tabulates, and two
matrices of one shape are equal when their entries are. -/
namespace BondSvd
universe u

theorem getD_setIfInBounds {β : Type u} (values : Array β) {k : Nat} (bound : k < values.size) (x fallback : β)
    (j : Nat) : (values.setIfInBounds k x).getD j fallback = if k = j then x else values.getD j fallback := by
  simp only [Array.getD_eq_getD_getElem?, Array.getElem?_setIfInBounds]
  split
  · next same => subst same; simp
  · rfl

/-- Reads past the end of an array give the default, so what holds of the default and of all values
holds of all reads. -/
theorem forall_getD_iff {β : Type u} {values : Array β} {fallback : β} {P : β → Prop} (default : P fallback) :
    (∀ k, P (values.getD k fallback)) ↔ ∀ value ∈ values, P value := by
  constructor
  · intro reads value member
    obtain ⟨i, inside, rfl⟩ := Array.mem_iff_getElem.mp member
    have read := reads i
    rwa [Array.getD_eq_getD_getElem?, Array.getElem?_eq_getElem inside] at read
  · intro all k
    rw [Array.getD_eq_getD_getElem?]
    by_cases inside : k < values.size
    · rw [Array.getElem?_eq_getElem inside]
      exact all _ (Array.getElem_mem inside)
    · rw [Array.getElem?_eq_none (Nat.le_of_not_lt inside)]
      exact default

/-- A matrix of `rows * cols` complex entries, row by row. -/
structure DenseMatrix (α : Type u) where
  rows : Nat
  cols : Nat
  entries : Vector (Cplx α) (rows * cols)

namespace DenseMatrix
variable {α : Type u}

theorem position_lt {rows cols i j : Nat} (row : i < rows) (col : j < cols) :
    i * cols + j < rows * cols :=
  calc i * cols + j < i * cols + cols := Nat.add_lt_add_left col _
    _ = (i + 1) * cols := (Nat.succ_mul i cols).symm
    _ ≤ rows * cols := Nat.mul_le_mul_right cols row

theorem position_div {cols i j : Nat} (col : j < cols) : (i * cols + j) / cols = i := by
  rw [Nat.mul_comm, Nat.mul_add_div (by omega), Nat.div_eq_of_lt col, Nat.add_zero]

theorem position_mod {cols i j : Nat} (col : j < cols) : (i * cols + j) % cols = j := by
  rw [Nat.mul_comm, Nat.mul_add_mod, Nat.mod_eq_of_lt col]

theorem position_inj {cols i j i' j' : Nat} (col : j < cols) (col' : j' < cols) :
    i * cols + j = i' * cols + j' ↔ i = i' ∧ j = j' := by
  constructor
  · intro same
    have row := congrArg (· / cols) same
    have column := congrArg (· % cols) same
    simp only [position_div col, position_div col', position_mod col, position_mod col'] at row column
    exact ⟨row, column⟩
  · rintro ⟨rfl, rfl⟩
    rfl

/-- The pair of extents. -/
def shape (A : DenseMatrix α) : Nat × Nat := (A.rows, A.cols)

/-- The matrix of the values `f i j`. -/
@[specialize] def ofFn (rows cols : Nat) (f : Nat → Nat → Cplx α) : DenseMatrix α :=
  ⟨rows, cols, Vector.ofFn fun k => f (k.val / cols) (k.val % cols)⟩

/-- Overwrites one entry; outside the shape nothing changes. -/
def set (A : DenseMatrix α) (i j : Nat) (value : Cplx α) : DenseMatrix α :=
  if inside : i < A.rows ∧ j < A.cols then
    { A with entries := A.entries.set (i * A.cols + j) value (position_lt inside.1 inside.2) }
  else A

section Entry
variable [Scalar α]

/-- The entry in row `i` and column `j`, or zero outside the shape. -/
@[inline] def entry (A : DenseMatrix α) (i j : Nat) : Cplx α :=
  if inside : i < A.rows ∧ j < A.cols then
    getElem A.entries (i * A.cols + j) (position_lt inside.1 inside.2)
  else 0

theorem entry_outside {A : DenseMatrix α} {i j : Nat} (outside : ¬(i < A.rows ∧ j < A.cols)) :
    A.entry i j = 0 := dif_neg outside

theorem entry_ofFn {rows cols i j : Nat} (f : Nat → Nat → Cplx α) (row : i < rows) (col : j < cols) :
    (ofFn rows cols f).entry i j = f i j := by
  simp [entry, ofFn, row, col, position_div col, position_mod col]

theorem ext {A B : DenseMatrix α} (rows : A.rows = B.rows) (cols : A.cols = B.cols)
    (same : ∀ i j, i < A.rows → j < A.cols → A.entry i j = B.entry i j) : A = B := by
  obtain ⟨m, n, xs⟩ := A
  obtain ⟨m', n', ys⟩ := B
  obtain rfl : m = m' := rows
  obtain rfl : n = n' := cols
  congr 1
  ext k bound
  have positive : 0 < n := Nat.pos_of_ne_zero fun zero => by simp [zero] at bound
  have row : k / n < m := Nat.div_lt_of_lt_mul (Nat.mul_comm m n ▸ bound)
  have col : k % n < n := Nat.mod_lt _ positive
  have place : k / n * n + k % n = k := Nat.div_add_mod' k n
  simpa [entry, row, col, place] using same (k / n) (k % n) row col

theorem ofFn_entry (A : DenseMatrix α) : ofFn A.rows A.cols A.entry = A :=
  ext rfl rfl fun _ _ row col => entry_ofFn _ row col

theorem ofFn_congr {rows cols : Nat} {f g : Nat → Nat → Cplx α}
    (same : ∀ i j, i < rows → j < cols → f i j = g i j) : ofFn rows cols f = ofFn rows cols g :=
  ext rfl rfl fun i j row col =>
    (entry_ofFn f row col).trans ((same i j row col).trans (entry_ofFn g row col).symm)

end Entry

theorem rows_ofFn (rows cols : Nat) (f : Nat → Nat → Cplx α) : (ofFn rows cols f).rows = rows := rfl
theorem cols_ofFn (rows cols : Nat) (f : Nat → Nat → Cplx α) : (ofFn rows cols f).cols = cols := rfl

theorem rows_set (A : DenseMatrix α) (i j : Nat) (value : Cplx α) :
    (A.set i j value).rows = A.rows := by
  unfold set
  split <;> rfl

theorem cols_set (A : DenseMatrix α) (i j : Nat) (value : Cplx α) :
    (A.set i j value).cols = A.cols := by
  unfold set
  split <;> rfl

theorem entry_set [Scalar α] (A : DenseMatrix α) {i j : Nat} (row : i < A.rows) (col : j < A.cols)
    (value : Cplx α) (i' j' : Nat) :
    (A.set i j value).entry i' j' = if i' = i ∧ j' = j then value else A.entry i' j' := by
  unfold set
  rw [dif_pos ⟨row, col⟩]
  unfold entry
  dsimp only
  by_cases inside : i' < A.rows ∧ j' < A.cols
  · rw [dif_pos inside, dif_pos inside, Vector.getElem_set]
    simp only [position_inj col inside.2, eq_comm]
  · rw [dif_neg inside, dif_neg inside, if_neg]
    rintro ⟨rfl, rfl⟩
    exact inside ⟨row, col⟩

end DenseMatrix
end BondSvd
