import Mathlib
import BondSvd.Proofs.Exact.Matrix
import BondSvd.Proofs.Spectrum.Mass

namespace BondSvd
universe u
open scoped Matrix Matrix.Norms.Frobenius

namespace DenseMatrix
variable {α : Type u} [Scalar α]

/-- The product of two factors with values between them. -/
def weighted (U : DenseMatrix α) (values : List α) (V : DenseMatrix α) : DenseMatrix α :=
  (U.mul (.diagonal values U.cols V.rows)).mul V

theorem entry_weighted (U : DenseMatrix α) (values : List α) (V : DenseMatrix α) {i j : ℕ} (row : i < U.rows)
    (col : j < V.cols) :
    (U.weighted values V).entry i j =
      sumFrom 0 V.rows fun b =>
        sumFrom 0 U.cols (fun a => U.entry i a * (diagonal values U.cols V.rows).entry a b) * V.entry b j := by
  rw [weighted, entry_mul (U.mul _) V row col]
  refine sumFrom_congr fun b _ below => ?_
  have inside : b < (diagonal values U.cols V.rows).cols := below.trans_eq (Nat.zero_add _)
  rw [entry_mul U _ row inside]

theorem entry_weighted_congr {U U' V V' : DenseMatrix α} {values : List α} {i i' j j' : ℕ} (row : i < U.rows)
    (row' : i' < U'.rows) (col : j < V.cols) (col' : j' < V'.cols) (left : U'.cols = U.cols)
    (right : V'.rows = V.rows) (leftRow : ∀ a < U.cols, U'.entry i' a = U.entry i a)
    (rightColumn : ∀ b < V.rows, V'.entry b j' = V.entry b j) :
    (U'.weighted values V').entry i' j' = (U.weighted values V).entry i j := by
  rw [entry_weighted U' values V' row' col', entry_weighted U values V row col, left, right]
  refine sumFrom_congr fun b _ below => ?_
  rw [Nat.zero_add] at below
  rw [rightColumn b below]
  congr 1
  refine sumFrom_congr fun a _ below => ?_
  rw [leftRow a (by simpa using below)]

/-- Only as many columns and rows take part as there are values. -/
theorem toComplex_entry_weighted {U V : DenseMatrix ℝ} {values : List ℝ} {i j : ℕ} (row : i < U.rows)
    (col : j < V.cols) (left : values.length ≤ U.cols) (right : values.length ≤ V.rows) :
    ((U.weighted values V).entry i j).toComplex =
      ∑ l ∈ Finset.range values.length,
        (U.entry i l).toComplex * (values.getD l 0 : ℝ) * (V.entry l j).toComplex := by
  have inner (b : ℕ) (below : b < values.length) :
      (sumFrom 0 U.cols fun a => U.entry i a * (diagonal values U.cols V.rows).entry a b).toComplex =
        (U.entry i b).toComplex * (values.getD b 0 : ℝ) := by
    rw [toComplex_sumFrom, Finset.sum_eq_single_of_mem b (Finset.mem_range.mpr (below.trans_le left))]
    · simp [entry_diagonal values (below.trans_le left) (below.trans_le right), List.getD_eq_getElem?_getD]
    · intro a inside other
      rw [Finset.mem_range] at inside
      simp [entry_diagonal values inside (below.trans_le right), other]
  have outer (b : ℕ) (inside : b < V.rows) (beyond : values.length ≤ b) :
      (sumFrom 0 U.cols fun a => U.entry i a * (diagonal values U.cols V.rows).entry a b).toComplex = 0 := by
    rw [toComplex_sumFrom]
    refine Finset.sum_eq_zero fun a member => ?_
    rw [Finset.mem_range] at member
    rw [Nat.zero_add, Cplx.toComplex_mul, entry_diagonal values member inside]
    split
    · next same => simp [same, List.getElem?_eq_none beyond]
    · simp
  rw [entry_weighted U values V row col, toComplex_sumFrom]
  simp only [Nat.zero_add, Cplx.toComplex_mul]
  refine (Finset.sum_subset (Finset.range_subset_range.mpr right) fun b inside outside => ?_).symm.trans ?_
  · rw [outer b (Finset.mem_range.mp inside) (not_lt.mp fun below => outside (Finset.mem_range.mpr below)), zero_mul]
  · exact Finset.sum_congr rfl fun b below => by rw [inner b (Finset.mem_range.mp below)]

theorem leadingCols_isometry {U : DenseMatrix α} {m k : ℕ} (unitary : U.Unitary m) (inside : k ≤ m) :
    (U.leadingCols k).adjoint.mul (U.leadingCols k) = identity k := by
  have cols : min k U.cols = k := min_eq_left (inside.trans_eq (cols_of_shape unitary.shape).symm)
  refine ext cols cols fun a b row col => ?_
  replace row : a < min k U.cols := row
  replace col : b < min k U.cols := col
  have full := congrArg (entry · a b) unitary.adjoint_mul
  have fullRow : a < U.cols := row.trans_le (min_le_right ..)
  have fullCol : b < U.cols := col.trans_le (min_le_right ..)
  simp only [entry_mul U.adjoint U fullRow fullCol] at full
  rw [entry_mul (U.leadingCols k).adjoint _ row col, entry_identity (cols ▸ row) (cols ▸ col),
    ← entry_identity (row.trans_le (min_le_left ..) |>.trans_le inside) (col.trans_le (min_le_left ..) |>.trans_le inside),
    ← full]
  refine sumFrom_congr fun i _ below => ?_
  replace below : i < U.rows := below.trans_eq (Nat.zero_add _)
  rw [entry_adjoint (U.leadingCols k) row below, entry_adjoint U fullRow below, entry_leadingCols U below row,
    entry_leadingCols U below col]

theorem adjoint_leadingCols (A : DenseMatrix α) (k : ℕ) : (A.leadingCols k).adjoint = A.adjoint.leadingRows k := by
  refine ext rfl rfl fun i j row col => ?_
  rw [entry_adjoint (A.leadingCols k) row col, entry_leadingCols A col row, entry_leadingRows A.adjoint row col,
    entry_adjoint A (lt_of_lt_of_le row (min_le_right ..)) col]

theorem adjoint_adjoint (A : DenseMatrix ℝ) : A.adjoint.adjoint = A := by
  refine ext rfl rfl fun i j row col => Cplx.toComplex_inj ?_
  rw [entry_adjoint A.adjoint row col, entry_adjoint A col row]
  simp

theorem Unitary.adjoint {V : DenseMatrix ℝ} {n : ℕ} (unitary : V.Unitary n) : V.adjoint.Unitary n where
  shape := shape_adjoint unitary.shape
  adjoint_mul := by rw [adjoint_adjoint]; exact unitary.mul_adjoint
  mul_adjoint := by rw [adjoint_adjoint]; exact unitary.adjoint_mul

theorem leadingRows_isometry {V : DenseMatrix ℝ} {n k : ℕ} (unitary : V.Unitary n) (inside : k ≤ n) :
    (V.leadingRows k).mul (V.leadingRows k).adjoint = identity k := by
  have columns : V.leadingRows k = (V.adjoint.leadingCols k).adjoint := by
    rw [adjoint_leadingCols, adjoint_adjoint]
  rw [columns, adjoint_adjoint]
  exact leadingCols_isometry unitary.adjoint inside

end DenseMatrix

namespace Decomposition
variable {α : Type u} [Scalar α] {r cut : Decomposition ℝ} {A : DenseMatrix ℝ} {m n k : ℕ} {factor : ℝ}

/-- Unitary factors around a descending diagonal that multiply to `A`, from a source that has
cut nothing off. -/
structure IsSvd (r : Decomposition α) (A : DenseMatrix α) : Prop where
  left : r.left.Unitary A.rows
  right : r.right.Unitary A.cols
  extent : r.values.length = min A.rows A.cols
  descending : isDescending r.values = true
  rebuild : r.rebuild = A
  complete : r.truncation = none

/-- The first `k` triples of `r`, with the values divided by one number. -/
structure Keeps (r cut : Decomposition α) (k : ℕ) (factor : α) : Prop where
  left : cut.left = r.left.leadingCols k
  rightAdjoint : cut.rightAdjoint = r.rightAdjoint.leadingRows k
  values : cut.values = (r.values.take k).map (· / factor)

theorem Keeps.rows_left (keeps : r.Keeps cut k factor) : cut.left.rows = r.left.rows := by
  rw [keeps.left, DenseMatrix.leadingCols, DenseMatrix.rows_ofFn]

theorem Keeps.cols_rightAdjoint (keeps : r.Keeps cut k factor) : cut.rightAdjoint.cols = r.rightAdjoint.cols := by
  rw [keeps.rightAdjoint, DenseMatrix.leadingRows, DenseMatrix.cols_ofFn]

theorem IsSvd.rightAdjoint (svd : r.IsSvd A) : r.rightAdjoint.Unitary A.cols := by
  rw [Decomposition.rightAdjoint]
  split
  · exact svd.right.adjoint
  · exact svd.right

/-- Unitary factors leave the mass of the values alone. -/
theorem sq_norm_rebuild (left : r.left.Unitary m) (right : r.rightAdjoint.Unitary n)
    (fits : r.values.length ≤ min m n) : ‖r.rebuild.toMatrix m n‖ ^ 2 = mass r.values := by
  have middle : r.middle = .diagonal r.values m n := by
    rw [Decomposition.middle, DenseMatrix.cols_of_shape left.shape, DenseMatrix.rows_of_shape right.shape]
  have entry (i j : ℕ) : ‖(((if i = j then r.values[i]?.getD 0 else 0 : ℝ)) : ℂ)‖ ^ 2 =
      if i = j then r.values.getD i 0 ^ 2 else 0 := by
    split
    · rw [Complex.norm_real, Real.norm_eq_abs, sq_abs, List.getD_eq_getElem?_getD]
    · simp
  rw [toMatrix_rebuild r left.shape right.shape, frobenius_mul_unitary (DenseMatrix.unitary_iff.mp right).2,
    frobenius_unitary_mul (DenseMatrix.unitary_iff.mp left).2, frobenius_sq, middle, DenseMatrix.toMatrix_diagonal,
    mass_eq_sum_range (fits.trans (min_le_left m n)), Finset.sum_range]
  refine Finset.sum_congr rfl fun i _ => ?_
  simp only [Matrix.of_apply, entry]
  rw [← Finset.sum_range fun j => if (i : ℕ) = j then r.values.getD i 0 ^ 2 else 0, Finset.sum_ite_eq]
  split
  · rfl
  · next outside =>
    have beyond : r.values.length ≤ i := (fits.trans (min_le_right m n)).trans (by simpa using outside)
    simp [List.getD_eq_getElem?_getD, List.getElem?_eq_none beyond]

/-- The triples from `k` on, with zeros in the place of the others. -/
noncomputable def rest (r : Decomposition ℝ) (k : ℕ) : Decomposition ℝ :=
  { r with values := List.replicate k 0 ++ r.values.drop k }

theorem length_rest (inside : k ≤ r.values.length) : (r.rest k).values.length = r.values.length := by
  rw [rest, List.length_append, List.length_replicate, List.length_drop, Nat.add_sub_cancel' inside]

private theorem mass_rest (r : Decomposition ℝ) (k : ℕ) : mass (r.rest k).values = mass (r.values.drop k) := by
  have zeros : mass (List.replicate k (0 : ℝ)) = 0 := mass_eq_zero_iff.mpr fun x => List.eq_of_mem_replicate
  rw [rest, mass_append, zeros, zero_add]

private theorem getD_rest (r : Decomposition ℝ) (k l : ℕ) :
    (r.rest k).values.getD l 0 = if l < k then 0 else r.values.getD l 0 := by
  rw [rest, List.getD_eq_getElem?_getD, List.getElem?_append, List.length_replicate]
  split
  · next low => simp [low]
  · next high => rw [List.getElem?_drop, Nat.add_sub_cancel' (not_lt.mp high), List.getD_eq_getElem?_getD]

/-- An entry of the kept part, with the number that its values were divided by put back. -/
theorem Keeps.toComplex_entry (keeps : r.Keeps cut k factor) (positive : 0 < factor) (inside : k ≤ r.values.length)
    (left : r.values.length ≤ r.left.cols) (right : r.values.length ≤ r.rightAdjoint.rows) {i j : ℕ}
    (row : i < r.left.rows) (col : j < r.rightAdjoint.cols) :
    ((cut.rebuild.scale factor).entry i j).toComplex =
      ∑ l ∈ Finset.range k, (r.left.entry i l).toComplex * (r.values.getD l 0 : ℝ) *
        (r.rightAdjoint.entry l j).toComplex := by
  have length : cut.values.length = k := by
    rw [keeps.values, List.length_map, List.length_take_of_le inside]
  have cutRow : i < cut.left.rows := row.trans_eq keeps.rows_left.symm
  have cutCol : j < cut.rightAdjoint.cols := col.trans_eq keeps.cols_rightAdjoint.symm
  have cutCols : cut.left.cols = k := by rw [keeps.left]; exact min_eq_left (inside.trans left)
  have cutRows : cut.rightAdjoint.rows = k := by rw [keeps.rightAdjoint]; exact min_eq_left (inside.trans right)
  have weighted : cut.rebuild = cut.left.weighted cut.values cut.rightAdjoint := rfl
  rw [DenseMatrix.entry_scale cut.rebuild factor cutRow cutCol, Cplx.toComplex_scale, weighted,
    DenseMatrix.toComplex_entry_weighted cutRow cutCol (by rw [length, cutCols]) (by rw [length, cutRows]),
    length, Finset.sum_mul]
  refine Finset.sum_congr rfl fun l member => ?_
  have below : l < k := Finset.mem_range.mp member
  have value : cut.values.getD l 0 * factor = r.values.getD l 0 := by
    rw [keeps.values]
    simp [List.getD_eq_getElem?_getD, below, List.getElem?_eq_getElem (below.trans_le inside), positive.ne']
  rw [keeps.left, keeps.rightAdjoint, DenseMatrix.entry_leadingCols r.left row (lt_min below (by omega)),
    DenseMatrix.entry_leadingRows r.rightAdjoint (lt_min below (by omega)) col, ← value]
  push_cast
  ring

/-- What the kept triples leave of the input is made of the other triples. -/
theorem IsSvd.sub_keeps (svd : r.IsSvd A) (keeps : r.Keeps cut k factor) (positive : 0 < factor)
    (inside : k ≤ r.values.length) :
    A.toMatrix A.rows A.cols - (cut.rebuild.scale factor).toMatrix A.rows A.cols =
      (r.rest k).rebuild.toMatrix A.rows A.cols := by
  ext i j
  have extent := svd.extent
  have row : (i : ℕ) < r.left.rows := (DenseMatrix.rows_of_shape svd.left.shape).symm ▸ i.isLt
  have col : (j : ℕ) < r.rightAdjoint.cols := (DenseMatrix.cols_of_shape svd.rightAdjoint.shape).symm ▸ j.isLt
  have left : r.values.length ≤ r.left.cols := by rw [DenseMatrix.cols_of_shape svd.left.shape]; omega
  have right : r.values.length ≤ r.rightAdjoint.rows := by
    rw [DenseMatrix.rows_of_shape svd.rightAdjoint.shape]; omega
  have whole : (A.entry i j).toComplex =
      ∑ l ∈ Finset.range r.values.length, (r.left.entry i l).toComplex * (r.values.getD l 0 : ℝ) *
        (r.rightAdjoint.entry l j).toComplex := by
    refine (congrArg (fun B => (DenseMatrix.entry B i j).toComplex) svd.rebuild).symm.trans ?_
    exact DenseMatrix.toComplex_entry_weighted row col left right
  have others : ((r.rest k).rebuild.entry i j).toComplex =
      ∑ l ∈ Finset.range r.values.length, (r.left.entry i l).toComplex * ((r.rest k).values.getD l 0 : ℝ) *
        (r.rightAdjoint.entry l j).toComplex := by
    rw [← length_rest inside]
    exact DenseMatrix.toComplex_entry_weighted row col ((length_rest inside).le.trans left)
      ((length_rest inside).le.trans right)
  obtain ⟨d, split⟩ := Nat.exists_eq_add_of_le inside
  rw [Matrix.sub_apply, DenseMatrix.toMatrix_apply, DenseMatrix.toMatrix_apply, DenseMatrix.toMatrix_apply,
    keeps.toComplex_entry positive inside left right row col, whole, others, split, Finset.sum_range_add,
    Finset.sum_range_add, add_sub_cancel_left]
  have kept : ∑ l ∈ Finset.range k, (r.left.entry i l).toComplex * ((r.rest k).values.getD l 0 : ℝ) *
      (r.rightAdjoint.entry l j).toComplex = 0 := by
    refine Finset.sum_eq_zero fun l member => ?_
    rw [getD_rest, if_pos (Finset.mem_range.mp member), Complex.ofReal_zero, mul_zero, zero_mul]
  rw [kept, zero_add]
  refine Finset.sum_congr rfl fun l _ => ?_
  rw [getD_rest, if_neg (by omega)]

/-- The kept triples miss the input by the mass of all the others. -/
theorem IsSvd.squaredDistance_keeps (svd : r.IsSvd A) (keeps : r.Keeps cut k factor) (positive : 0 < factor)
    (inside : k ≤ r.values.length) : A.squaredDistance (cut.rebuild.scale factor) = mass (r.values.drop k) := by
  rw [DenseMatrix.squaredDistance_exact (DenseMatrix.shape_eq rfl rfl), svd.sub_keeps keeps positive inside,
    sq_norm_rebuild (r := r.rest k) svd.left svd.rightAdjoint ((length_rest inside).le.trans svd.extent.le), mass_rest]

end Decomposition
end BondSvd
