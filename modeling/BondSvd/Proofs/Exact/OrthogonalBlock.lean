import Mathlib
import BondSvd.Proofs.Exact.Rotation

namespace BondSvd
open scoped Matrix

/-- A unitary matrix of `size` rows, real in its leading block and the identity elsewhere. -/
structure OrthogonalBlock (A : DenseMatrix ℝ) (size lead : ℕ) : Prop where
  lead_le : lead ≤ size
  shape : A.shape = (size, size)
  real : ∀ i j, i < lead → j < lead → (A.entry i j).im = 0
  outside : ∀ i j, i < size → j < size → lead ≤ i ∨ lead ≤ j → A.entry i j = if i = j then 1 else 0
  unitary : A.toMatrix size size ∈ Matrix.unitaryGroup (Fin size) ℂ

/-- The matrix that changes the sign of one column of a left factor. -/
def signChange {n : ℕ} (k : Fin n) : Matrix (Fin n) (Fin n) ℂ :=
  Matrix.diagonal fun i => if i = k then -1 else 1

theorem signChange_conjTranspose {n : ℕ} (k : Fin n) : (signChange k)ᴴ = signChange k := by
  rw [signChange, Matrix.diagonal_conjTranspose]
  congr 1
  funext i
  rw [Pi.star_apply]
  split <;> simp

theorem signChange_mul_self {n : ℕ} (k : Fin n) : signChange k * signChange k = 1 := by
  rw [signChange, Matrix.diagonal_mul_diagonal, ← Matrix.diagonal_one]
  congr 1
  funext i
  split <;> simp

private theorem signChange_mem_unitary {n : ℕ} (k : Fin n) : signChange k ∈ Matrix.unitaryGroup (Fin n) ℂ := by
  rw [Matrix.mem_unitaryGroup_iff', Matrix.star_eq_conjTranspose, signChange_conjTranspose,
    signChange_mul_self]

namespace OrthogonalBlock
variable {A : DenseMatrix ℝ} {size lead p q : ℕ}

theorem identity (fits : lead ≤ size) : OrthogonalBlock (.identity size) size lead where
  lead_le := fits
  shape := rfl
  real i j row col := by
    rw [DenseMatrix.entry_identity (row.trans_le fits) (col.trans_le fits)]
    split <;> rfl
  outside i j row col _ := DenseMatrix.entry_identity row col
  unitary := by
    rw [DenseMatrix.toMatrix_identity]
    exact one_mem _

theorem rows (block : OrthogonalBlock A size lead) : A.rows = size := DenseMatrix.rows_of_shape block.shape
theorem cols (block : OrthogonalBlock A size lead) : A.cols = size := DenseMatrix.cols_of_shape block.shape

theorem entry_real (block : OrthogonalBlock A size lead) {i j : ℕ} (row : i < lead) (col : j < lead) :
    (A.entry i j).toComplex = ((A.entry i j).re : ℂ) :=
  Complex.ext rfl (block.real i j row col)

theorem entry_below (block : OrthogonalBlock A size lead) {i j : ℕ} (row : i < size) (below : lead ≤ i)
    (col : j < lead) : A.entry i j = 0 := by
  rw [block.outside i j row (col.trans_le block.lead_le) (.inl below), if_neg (by omega)]

section Combine
variable (block : OrthogonalBlock A size lead) {f g : Cplx ℝ → Cplx ℝ → Cplx ℝ}
include block

theorem entry_combine (left : p < lead) (right : q < lead) (i j : ℕ) :
    (A.combineColumns p q f g lead).entry i j =
      if i < lead then
        if j = q then g (A.entry i p) (A.entry i q)
        else if j = p then f (A.entry i p) (A.entry i q)
        else A.entry i j
      else A.entry i j := by
  have fits := block.lead_le
  exact DenseMatrix.entry_combineColumns f g A (by rw [block.cols]; omega) (by rw [block.cols]; omega)
    (by rw [block.rows]; exact fits) i j

/-- A combination of two leading columns that keeps them real keeps the block, as long as the
result is the product with some unitary matrix. -/
theorem combine (left : p < lead) (right : q < lead)
    (keeps : ∀ x y : Cplx ℝ, x.im = 0 → y.im = 0 → (f x y).im = 0 ∧ (g x y).im = 0)
    {G : Matrix (Fin size) (Fin size) ℂ} (member : G ∈ Matrix.unitaryGroup (Fin size) ℂ)
    (product : (A.combineColumns p q f g lead).toMatrix size size = A.toMatrix size size * G) :
    OrthogonalBlock (A.combineColumns p q f g lead) size lead where
  lead_le := block.lead_le
  shape := DenseMatrix.shape_eq ((DenseMatrix.rows_combineColumns ..).trans block.rows)
    ((DenseMatrix.cols_combineColumns ..).trans block.cols)
  real i j row col := by
    have ⟨first, last⟩ := keeps _ _ (block.real i p row left) (block.real i q row right)
    rw [block.entry_combine left right, if_pos row]
    split
    · exact last
    · split
      · exact first
      · exact block.real i j row col
  outside i j row col out := by
    rw [block.entry_combine left right]
    have same := block.outside i j row col out
    split
    · rw [if_neg (by omega), if_neg (by omega), same]
    · exact same
  unitary := by
    rw [product]
    exact mul_mem block.unitary member

end Combine

theorem toMatrix_rotate (block : OrthogonalBlock A size lead) (left : p < lead) (right : q < lead)
    (distinct : p ≠ q) (cos sin : ℝ) :
    (A.rotateColumns lead p q cos sin).toMatrix size size =
      A.toMatrix size size * planeRotation ⟨p, left.trans_le block.lead_le⟩
        ⟨q, right.trans_le block.lead_le⟩ cos sin := by
  ext i j
  rw [mul_planeRotation_apply (by simpa using distinct), DenseMatrix.toMatrix_apply,
    DenseMatrix.rotateColumns, block.entry_combine left right]
  simp only [DenseMatrix.toMatrix_apply, Fin.ext_iff]
  by_cases inside : (i : ℕ) < lead
  · rw [if_pos inside, block.entry_real inside left, block.entry_real inside right]
    split_ifs <;> simp
  · have below := Nat.le_of_not_lt inside
    rw [if_neg inside, block.entry_below i.isLt below left, block.entry_below i.isLt below right]
    split_ifs with last first
    · rw [last, block.entry_below i.isLt below right]
      simp
    · rw [first, block.entry_below i.isLt below left]
      simp
    · rfl

theorem rotate (block : OrthogonalBlock A size lead) (left : p < lead) (right : q < lead) (distinct : p ≠ q)
    {cos sin : ℝ} (unit : cos * cos + sin * sin = 1) :
    OrthogonalBlock (A.rotateColumns lead p q cos sin) size lead :=
  block.combine left right (fun _ _ _ _ => ⟨rfl, rfl⟩)
    (planeRotation_mem_unitary (by simpa using distinct) unit)
    (block.toMatrix_rotate left right distinct cos sin)

theorem toMatrix_negate (block : OrthogonalBlock A size lead) (leading : p < lead) :
    (A.negateColumn lead p).toMatrix size size =
      A.toMatrix size size * signChange ⟨p, leading.trans_le block.lead_le⟩ := by
  ext i j
  rw [signChange, Matrix.mul_diagonal, DenseMatrix.toMatrix_apply, DenseMatrix.negateColumn,
    block.entry_combine leading leading]
  simp only [DenseMatrix.toMatrix_apply, Fin.ext_iff]
  by_cases inside : (i : ℕ) < lead
  · rw [if_pos inside]
    split_ifs with here <;> simp [here]
  · rw [if_neg inside]
    split_ifs with here
    · rw [here, block.entry_below i.isLt (Nat.le_of_not_lt inside) leading]
      simp
    · simp

theorem negate (block : OrthogonalBlock A size lead) (leading : p < lead) :
    OrthogonalBlock (A.negateColumn lead p) size lead := by
  refine block.combine leading leading (fun x _ real _ => ?_) (signChange_mem_unitary _)
    (block.toMatrix_negate leading)
  have negated : (-x).im = 0 := by
    rw [Cplx.neg_im, real]
    exact neg_zero
  exact ⟨negated, negated⟩

end OrthogonalBlock
end BondSvd
