import Mathlib
import BondSvd.Proofs.Guarded.Matrix
import BondSvd.Proofs.Reduction.Factors

namespace BondSvd

namespace Guarded
section Definitions
variable {α : Type} [Scalar α]

/-- The unit complex number in the direction of `x`, or one where `x` vanishes. -/
def phase (x : Cplx α) (modulus : α) : Guarded (Cplx α) :=
  if modulus ≤ Tolerance.zero then .ok 1 else unscale x modulus

/-- The opposite of the direction of `x`, conjugated. -/
def turn (x : Cplx α) : Guarded (Cplx α) := unscale (-x.conj) x.modulus

def columnTailNormSq (r : Reduction α) (k : Nat) : Guarded α :=
  sumFrom k (r.reflectors.rows - k) fun i => do return (← entry r.reflectors i k).normSq

def rowTailNormSq (r : Reduction α) (k : Nat) : Guarded α :=
  sumFrom (k + 1) (r.reflectors.cols - (k + 1)) fun j => do return (← entry r.reflectors k j).normSq

/-- Clears column `k` below the diagonal. -/
def columnPart (rule : NormFloor α) (k : Nat) (r : Reduction α) : Guarded (Option (Reduction α)) := do
  let normSq ← columnTailNormSq r k
  match rule.judge normSq with
  | .refuse => return none
  | .flush => return some r
  | .keep =>
    let length := Scalar.sqrt normSq
    let pivot ← entry r.reflectors k k
    let modulus := pivot.modulus
    let A ← set r.reflectors k k ((← phase pivot modulus).scale (length + modulus))
    let B ← reflectLeft A (fun i => entry A i k) (length * (length + modulus)) k (k + 1)
    let C ← scaleRow B k (k + 1) (← turn (← entry B k k))
    return some { r with reflectors := C, diag := ← write r.diag k length }

/-- Clears row `k` beyond the superdiagonal. -/
def rowPart (rule : NormFloor α) (k : Nat) (r : Reduction α) : Guarded (Option (Reduction α)) := do
  let normSq ← rowTailNormSq r k
  match rule.judge normSq with
  | .refuse => return none
  | .flush => return some r
  | .keep =>
    let length := Scalar.sqrt normSq
    let pivot ← entry r.reflectors k (k + 1)
    let modulus := pivot.modulus
    let A ← set r.reflectors k (k + 1) ((← phase pivot modulus).scale (length + modulus))
    let B ← reflectRight A (fun j => entry A k j) (length * (length + modulus)) (k + 1) (k + 1)
    let C ← scaleColumn B (k + 1) (k + 1) (← turn (← entry B k (k + 1)))
    return some { r with reflectors := C, superDiag := ← write r.superDiag (k + 1) length }

def step (rule : NormFloor α) (k : Nat) (r : Reduction α) : Guarded (Option (Reduction α)) := do
  match ← columnPart rule k r with
  | none => return none
  | some r => if k + 1 < r.reflectors.cols then rowPart rule k r else return some r

/-- The reduction of the first `count` columns. -/
def upTo (rule : NormFloor α) (A : DenseMatrix α) : (count : Nat) → Guarded (Option (Reduction α))
  | 0 => .ok (some (Reduction.start A))
  | k + 1 => do
    match ← upTo rule A k with
    | none => return none
    | some r => step rule k r

/-- Replays the left reflection of step `k` on the rows of `U`. -/
def applyLeft (r : Reduction α) (k : Nat) (U : DenseMatrix α) : Guarded (DenseMatrix α) := do
  let length ← read r.diag k
  if length ≤ Tolerance.zero then return U
  else
    let pivot ← entry r.reflectors k k
    let modulus := pivot.modulus
    let U ← scaleRow U k 0 (← unscale (-pivot) modulus)
    reflectLeft U (fun i => entry r.reflectors i k) (modulus * length) k 0

/-- Replays the right reflection of step `k` on the rows of `V`. -/
def applyRight (r : Reduction α) (k : Nat) (V : DenseMatrix α) : Guarded (DenseMatrix α) := do
  let length ← read r.superDiag (k + 1)
  if length ≤ Tolerance.zero then return V
  else
    let pivot ← entry r.reflectors k (k + 1)
    let V ← scaleRow V (k + 1) 0 (← turn pivot)
    reflectLeft V (fun j => do return (← entry r.reflectors k j).conj) (pivot.modulus * length) (k + 1) 0

/-- Applies `f` for the indices below `count`, the last one first. -/
def backwards (f : Nat → DenseMatrix α → Guarded (DenseMatrix α)) :
    (count : Nat) → DenseMatrix α → Guarded (DenseMatrix α)
  | 0, A => .ok A
  | k + 1, A => do backwards f k (← f k A)

def accumulateLeft (r : Reduction α) (U : DenseMatrix α) : Guarded (DenseMatrix α) :=
  backwards (applyLeft r) r.reflectors.cols U

def accumulateRight (r : Reduction α) (V : DenseMatrix α) : Guarded (DenseMatrix α) :=
  backwards (applyRight r) (r.reflectors.cols - 1) V

end Definitions
end Guarded

namespace Guarded
variable {m n l k : ℕ} {rule : NormFloor ℝ} {A U V : DenseMatrix ℝ} {r r' : Reduction ℝ}

private theorem phase_eq (x : Cplx ℝ) (modulus : ℝ) : phase x modulus = .ok (BondSvd.phase x modulus) := by
  unfold phase BondSvd.phase
  split
  · rfl
  · next large => exact unscale_eq (pos_of_visible large).ne' x

theorem turn_eq {x : Cplx ℝ} (present : x.modulus ≠ 0) : turn x = .ok (Reduction.turn x) := unscale_eq present _

theorem columnTailNormSq_eq (sized : r.Sized m n) (inside : k < n) :
    columnTailNormSq r k = .ok (r.columnTailNormSq k) := by
  apply sumFrom_eq
  intro i _ row
  rw [entry_eq (by omega) (sized.cols ▸ inside)]
  rfl

theorem rowTailNormSq_eq (sized : r.Sized m n) (inside : k < m) : rowTailNormSq r k = .ok (r.rowTailNormSq k) := by
  apply sumFrom_eq
  intro j _ col
  rw [entry_eq (sized.rows ▸ inside) (by omega)]
  rfl

end Guarded

namespace Reduction
variable {m n k : ℕ} {rule : NormFloor ℝ} {A : DenseMatrix ℝ} {r r' r'' : Reduction ℝ}

/-- The pivot that a reflection leaves has the length of the vector added to its own. -/
theorem modulus_pivot (x : Cplx ℝ) {length : ℝ} (nonneg : 0 ≤ length) :
    ((phase x x.modulus).scale (length + x.modulus)).modulus = length + x.modulus := by
  have modulus : 0 ≤ x.modulus := x.modulus_exact ▸ norm_nonneg _
  rw [Cplx.modulus_exact, Cplx.toComplex_scale, norm_mul, norm_phase, one_mul, Complex.norm_real, Real.norm_eq_abs,
    abs_of_nonneg (add_nonneg nonneg modulus)]

theorem lengths_pos (floor : 0 ≤ rule.floor) {normSq : ℝ} (kept : rule.judge normSq = .keep) (x : Cplx ℝ) :
    0 < Scalar.sqrt normSq ∧ 0 < Scalar.sqrt normSq + x.modulus := by
  have length : 0 < Scalar.sqrt normSq :=
    Real.sqrt_pos.mpr (floor.trans_lt ((rule.judge_eq_keep_iff normSq).mp kept))
  have modulus : 0 ≤ x.modulus := x.modulus_exact ▸ norm_nonneg _
  exact ⟨length, add_pos_of_pos_of_nonneg length modulus⟩

/-- Where the diagonals of a reduction are not zero, the pivots of the reflections are not either. -/
structure Pivoted (r : Reduction ℝ) : Prop where
  left : ∀ j, r.diag.getD j 0 ≠ 0 → (r.reflectors.entry j j).modulus ≠ 0
  right : ∀ j, r.superDiag.getD (j + 1) 0 ≠ 0 → (r.reflectors.entry j (j + 1)).modulus ≠ 0

private theorem columnPart_pivoted (floor : 0 ≤ rule.floor) (sized : r.Sized m n) (tall : n ≤ m) (inside : k < n)
    (pending : r.diag.getD k 0 = 0) (done : r.columnPart rule k = some r') :
    r'.diag.getD k 0 ≠ 0 → (r'.reflectors.entry k k).modulus ≠ 0 := by
  intro present
  obtain ⟨-, rfl⟩ | ⟨verdict, -, kept⟩ := columnPart_cases sized tall inside done
  · exact absurd pending present
  · obtain ⟨length, sum⟩ := lengths_pos floor verdict (r.reflectors.entry k k)
    rw [kept.pivot, modulus_pivot _ length.le]
    exact sum.ne'

private theorem rowPart_pivoted (floor : 0 ≤ rule.floor) (sized : r.Sized m n) (tall : n ≤ m) (inside : k + 1 < n)
    (pending : r.superDiag.getD (k + 1) 0 = 0) (done : r.rowPart rule k = some r') :
    r'.superDiag.getD (k + 1) 0 ≠ 0 → (r'.reflectors.entry k (k + 1)).modulus ≠ 0 := by
  intro present
  obtain ⟨-, rfl⟩ | ⟨verdict, -, kept⟩ := rowPart_cases sized tall inside done
  · exact absurd pending present
  · obtain ⟨length, sum⟩ := lengths_pos floor verdict (r.reflectors.entry k (k + 1))
    rw [kept.pivot, modulus_pivot _ length.le]
    exact sum.ne'

private theorem step_pivots (floor : 0 ≤ rule.floor) (sized : r.Sized m n) (tall : n ≤ m) (inside : k < n)
    (diag : r.diag.getD k 0 = 0) (superDiag : r.superDiag.getD (k + 1) 0 = 0) (done : r.step rule k = some r'') :
    (r''.diag.getD k 0 ≠ 0 → (r''.reflectors.entry k k).modulus ≠ 0) ∧
      (r''.superDiag.getD (k + 1) 0 ≠ 0 → (r''.reflectors.entry k (k + 1)).modulus ≠ 0) := by
  obtain ⟨r', columns, part⟩ := step_parts done
  have sized' := columnPart_sized sized tall inside columns
  have left := columnPart_pivoted floor sized tall inside diag columns
  have pending : r'.superDiag.getD (k + 1) 0 = 0 := by
    rw [columnPart_superDiag sized tall inside columns, superDiag]
  obtain ⟨more, rows⟩ | ⟨-, rfl⟩ := part
  · have inside' : k + 1 < n := sized'.cols ▸ more
    obtain ⟨entry, same, -⟩ := rowPart_preserved sized' tall inside' rows
    rw [same, entry k k (by omega)]
    exact ⟨left, rowPart_pivoted floor sized' tall inside' pending rows⟩
  · exact ⟨left, fun present => absurd pending present⟩

/-- What a replay divides by is never zero: later steps leave the pivots of earlier ones alone. -/
theorem upTo_pivoted (floor : 0 ≤ rule.floor) (shape : A.shape = (m, n)) (tall : n ≤ m) (inside : k ≤ n)
    (done : upTo rule A k = some r) : r.Pivoted := by
  induction k generalizing r with
  | zero =>
    cases done
    exact ⟨fun j present => absurd (start_getD A j).1 present, fun j present => absurd (start_getD A (j + 1)).2 present⟩
  | succ k ih =>
    obtain ⟨before, reached, stepped⟩ := Option.bind_eq_some_iff.mp done
    have sized := upTo_sized shape tall (Nat.le_of_lt inside) reached
    obtain ⟨diag, superDiag⟩ := upTo_pending shape tall (Nat.le_of_lt inside) reached
    have earlier := ih (Nat.le_of_lt inside) reached
    have kept := step_preserved sized tall inside stepped
    obtain ⟨left, right⟩ := step_pivots floor sized tall inside (diag k le_rfl) (superDiag (k + 1) (Nat.lt_succ_self k))
      stepped
    refine ⟨fun j present => ?_, fun j present => ?_⟩
    -- before step `k` the induction, at `k` the step itself, after `k` the diagonals are still zero
    · rcases Nat.lt_trichotomy j k with before | rfl | after
      · rw [kept.diag j before.ne] at present
        rw [kept.entry j j (by omega)]
        exact earlier.left j present
      · exact left present
      · rw [kept.diag j after.ne', diag j after.le] at present
        exact absurd rfl present
    · rcases Nat.lt_trichotomy j k with before | rfl | after
      · rw [kept.superDiag (j + 1) (by omega)] at present
        rw [kept.entry j (j + 1) (by omega)]
        exact earlier.right j present
      · exact right present
      · rw [kept.superDiag (j + 1) (by omega), superDiag (j + 1) (by omega)] at present
        exact absurd rfl present

end Reduction

namespace Guarded
variable {m n l k : ℕ} {rule : NormFloor ℝ} {A U V : DenseMatrix ℝ} {r : Reduction ℝ}

private theorem columnPart_eq (floor : 0 ≤ rule.floor) (sized : r.Sized m n) (tall : n ≤ m) (inside : k < n) :
    columnPart rule k r = .ok (r.columnPart rule k) := by
  have row : k < r.reflectors.rows := by rw [sized.rows]; omega
  have col : k < r.reflectors.cols := by rw [sized.cols]; omega
  rw [columnPart, columnTailNormSq_eq sized inside, ok_bind, Reduction.columnPart]
  cases verdict : rule.judge (r.columnTailNormSq k) with
  | refuse => rfl
  | flush => rfl
  | keep =>
    obtain ⟨length, sum⟩ := Reduction.lengths_pos floor verdict (r.reflectors.entry k k)
    simp only [entry_eq row col, phase_eq, set_eq row col, ok_bind]
    generalize written : r.reflectors.set k k _ = A
    have rows : A.rows = r.reflectors.rows := by rw [← written, DenseMatrix.rows_set]
    have cols : A.cols = r.reflectors.cols := by rw [← written, DenseMatrix.cols_set]
    have pivot : (A.entry k k).modulus ≠ 0 := by
      rw [← written, DenseMatrix.entry_set _ row col, if_pos ⟨rfl, rfl⟩, Reduction.modulus_pivot _ length.le]
      exact sum.ne'
    rw [reflectLeft_eq (v := fun i => A.entry i k) (fun i _ inner => entry_eq inner (cols ▸ col))
      (mul_pos length sum).ne', ok_bind]
    -- the pivot lies outside the block that is reflected, so the phase divides by what was written there
    have corner : (A.reflectLeft (fun i => A.entry i k) (Scalar.sqrt (r.columnTailNormSq k) *
        (Scalar.sqrt (r.columnTailNormSq k) + (r.reflectors.entry k k).modulus)) k (k + 1)).entry k k =
          A.entry k k := DenseMatrix.entry_reflectLeft_of_not _ _ _ (by omega)
    rw [entry_eq (rows ▸ row) (cols ▸ col), ok_bind, turn_eq (corner ▸ pivot), ok_bind,
      scaleRow_eq (rows ▸ row), ok_bind, write_eq (sized.diagSize ▸ inside)]
    rfl

private theorem rowPart_eq (floor : 0 ≤ rule.floor) (sized : r.Sized m n) (tall : n ≤ m) (inside : k + 1 < n) :
    rowPart rule k r = .ok (r.rowPart rule k) := by
  have row : k < r.reflectors.rows := by rw [sized.rows]; omega
  have col : k + 1 < r.reflectors.cols := by rw [sized.cols]; omega
  rw [rowPart, rowTailNormSq_eq sized (by omega), ok_bind, Reduction.rowPart]
  cases verdict : rule.judge (r.rowTailNormSq k) with
  | refuse => rfl
  | flush => rfl
  | keep =>
    obtain ⟨length, sum⟩ := Reduction.lengths_pos floor verdict (r.reflectors.entry k (k + 1))
    simp only [entry_eq row col, phase_eq, set_eq row col, ok_bind]
    generalize written : r.reflectors.set k (k + 1) _ = A
    have rows : A.rows = r.reflectors.rows := by rw [← written, DenseMatrix.rows_set]
    have cols : A.cols = r.reflectors.cols := by rw [← written, DenseMatrix.cols_set]
    have pivot : (A.entry k (k + 1)).modulus ≠ 0 := by
      rw [← written, DenseMatrix.entry_set _ row col, if_pos ⟨rfl, rfl⟩, Reduction.modulus_pivot _ length.le]
      exact sum.ne'
    rw [reflectRight_eq (v := fun j => A.entry k j) (fun j _ inner => entry_eq (rows ▸ row) inner)
      (mul_pos length sum).ne', ok_bind]
    have corner : (A.reflectRight (fun j => A.entry k j) (Scalar.sqrt (r.rowTailNormSq k) *
        (Scalar.sqrt (r.rowTailNormSq k) + (r.reflectors.entry k (k + 1)).modulus)) (k + 1) (k + 1)).entry k (k + 1) =
          A.entry k (k + 1) := DenseMatrix.entry_reflectRight_of_not _ _ _ (by omega)
    rw [entry_eq (rows ▸ row) (cols ▸ col), ok_bind, turn_eq (corner ▸ pivot), ok_bind,
      scaleColumn_eq (cols ▸ col), ok_bind, write_eq (sized.superSize ▸ inside)]
    rfl

private theorem step_eq (floor : 0 ≤ rule.floor) (sized : r.Sized m n) (tall : n ≤ m) (inside : k < n) :
    step rule k r = .ok (r.step rule k) := by
  rw [step, columnPart_eq floor sized tall inside, ok_bind, Reduction.step]
  cases columns : r.columnPart rule k with
  | none => rfl
  | some r' =>
    have sized' := Reduction.columnPart_sized sized tall inside columns
    dsimp only [Option.bind_some]
    split
    · next more => exact rowPart_eq floor sized' tall (sized'.cols ▸ more)
    · rfl

theorem upTo_eq (floor : 0 ≤ rule.floor) (shape : A.shape = (m, n)) (tall : n ≤ m) (inside : k ≤ n) :
    upTo rule A k = .ok (Reduction.upTo rule A k) := by
  induction k with
  | zero => rfl
  | succ k ih =>
    rw [upTo, ih (Nat.le_of_lt inside), ok_bind, Reduction.upTo_succ]
    cases reached : Reduction.upTo rule A k with
    | none => rfl
    | some r => exact step_eq floor (Reduction.upTo_sized shape tall (Nat.le_of_lt inside) reached) tall inside

theorem applyLeft_eq (pivoted : r.Pivoted) (sized : r.Sized m n) (tall : n ≤ m) (inside : k < n)
    (shape : U.shape = (m, l)) : applyLeft r k U = .ok (r.applyLeft k U) := by
  have row : k < r.reflectors.rows := by rw [sized.rows]; omega
  have col : k < r.reflectors.cols := by rw [sized.cols]; omega
  have rows : U.rows = m := congrArg Prod.fst shape
  rw [applyLeft, read_eq (sized.diagSize ▸ inside), ok_bind, Reduction.applyLeft]
  split
  · rfl
  · next large =>
    have length : r.diag.getD k 0 ≠ 0 := (pos_of_visible large).ne'
    have modulus := pivoted.left k length
    rw [entry_eq row col, ok_bind]
    dsimp only
    rw [unscale_eq modulus, ok_bind, scaleRow_eq (by omega), ok_bind]
    apply reflectLeft_eq _ (mul_ne_zero modulus length)
    intro i _ inner
    apply entry_eq _ col
    rw [sized.rows, ← rows]
    exact inner

theorem applyRight_eq (pivoted : r.Pivoted) (sized : r.Sized m n) (tall : n ≤ m) (inside : k + 1 < n)
    (shape : V.shape = (n, l)) : applyRight r k V = .ok (r.applyRight k V) := by
  have row : k < r.reflectors.rows := by rw [sized.rows]; omega
  have col : k + 1 < r.reflectors.cols := by rw [sized.cols]; omega
  have rows : V.rows = n := congrArg Prod.fst shape
  rw [applyRight, read_eq (sized.superSize ▸ inside), ok_bind, Reduction.applyRight]
  split
  · rfl
  · next large =>
    have length : r.superDiag.getD (k + 1) 0 ≠ 0 := (pos_of_visible large).ne'
    have modulus := pivoted.right k length
    rw [entry_eq row col, ok_bind, turn_eq modulus, ok_bind, scaleRow_eq (by omega), ok_bind]
    apply reflectLeft_eq _ (mul_ne_zero modulus length)
    intro j _ inner
    rw [entry_eq row (by rw [sized.cols, ← rows]; exact inner)]
    rfl

private theorem backwards_eq {f : ℕ → DenseMatrix ℝ → Guarded (DenseMatrix ℝ)} {g : ℕ → DenseMatrix ℝ → DenseMatrix ℝ}
    (shapes : ∀ k U, (g k U).shape = U.shape) {size : ℕ × ℕ} {count : ℕ}
    (each : ∀ k U, k < count → U.shape = size → f k U = .ok (g k U)) (shape : U.shape = size) :
    backwards f count U = .ok (Reduction.backwards g count U) := by
  induction count generalizing U with
  | zero => rfl
  | succ k ih =>
    rw [backwards, each k U (Nat.lt_succ_self k) shape, ok_bind]
    exact ih (fun j U below => each j U (Nat.lt_succ_of_lt below)) ((shapes k U).trans shape)

theorem accumulateLeft_eq (pivoted : r.Pivoted) (sized : r.Sized m n) (tall : n ≤ m) (shape : U.shape = (m, l)) :
    accumulateLeft r U = .ok (r.accumulateLeft U) := by
  apply backwards_eq r.shape_applyLeft _ shape
  intro k U inside shape
  exact applyLeft_eq pivoted sized tall (sized.cols ▸ inside) shape

theorem accumulateRight_eq (pivoted : r.Pivoted) (sized : r.Sized m n) (tall : n ≤ m) (shape : V.shape = (n, l)) :
    accumulateRight r V = .ok (r.accumulateRight V) := by
  apply backwards_eq r.shape_applyRight _ shape
  intro k V inside shape
  rw [sized.cols] at inside
  exact applyRight_eq pivoted sized tall (by omega) shape

end Guarded
end BondSvd
