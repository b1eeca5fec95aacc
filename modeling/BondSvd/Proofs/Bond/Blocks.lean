import Mathlib
import BondSvd.Bond.Compressor
import BondSvd.Proofs.Bond.Leading

namespace BondSvd
universe u
variable {α : Type u} [Scalar α]

namespace SiteBlocks

/-- Four blocks of one shape. -/
structure Uniform (blocks : SiteBlocks α) (p q : ℕ) : Prop where
  upperLeft : blocks.upperLeft.shape = (p, q)
  upperRight : blocks.upperRight.shape = (p, q)
  lowerLeft : blocks.lowerLeft.shape = (p, q)
  lowerRight : blocks.lowerRight.shape = (p, q)

/-- The sum of the squared distances of all four blocks. -/
def squaredDistance (blocks blocks' : SiteBlocks α) : α :=
  blocks.upperLeft.squaredDistance blocks'.upperLeft + blocks.upperRight.squaredDistance blocks'.upperRight +
    (blocks.lowerLeft.squaredDistance blocks'.lowerLeft + blocks.lowerRight.squaredDistance blocks'.lowerRight)

/-- The blocks are the four quarters of a matrix. -/
structure QuartersOf (blocks : SiteBlocks α) (P : DenseMatrix α) (p q : ℕ) : Prop where
  shape : P.shape = (p + p, q + q)
  uniform : blocks.Uniform p q
  upperLeft : ∀ i < p, ∀ j < q, blocks.upperLeft.entry i j = P.entry i j
  upperRight : ∀ i < p, ∀ j < q, blocks.upperRight.entry i j = P.entry i (q + j)
  lowerLeft : ∀ i < p, ∀ j < q, blocks.lowerLeft.entry i j = P.entry (p + i) j
  lowerRight : ∀ i < p, ∀ j < q, blocks.lowerRight.entry i j = P.entry (p + i) (q + j)

private theorem join_of_shape {A B : DenseMatrix α} {p q : ℕ} (left : A.shape = (p, q)) (right : B.shape = (p, q)) :
    ∃ C, A.join B = .ok C ∧ C.shape = (p, q + q) ∧
      ∀ i < p, ∀ j < q, C.entry i j = A.entry i j ∧ C.entry i (q + j) = B.entry i j := by
  obtain ⟨rfl, rfl⟩ := Prod.mk.inj left
  obtain ⟨rows, cols⟩ := Prod.mk.inj right
  refine ⟨_, if_pos rows.symm, ?_, fun i row j col => ⟨?_, ?_⟩⟩
  · rw [DenseMatrix.shape, DenseMatrix.rows_ofFn, DenseMatrix.cols_ofFn, cols]
  · rw [DenseMatrix.entry_ofFn _ row (Nat.lt_add_right _ col), if_pos col]
  · rw [DenseMatrix.entry_ofFn _ row (by omega), if_neg (by omega), Nat.add_sub_cancel_left]

private theorem stack_of_shape {A B : DenseMatrix α} {p q : ℕ} (top : A.shape = (p, q)) (bottom : B.shape = (p, q)) :
    ∃ C, A.stack B = .ok C ∧ C.shape = (p + p, q) ∧
      ∀ i < p, ∀ j < q, C.entry i j = A.entry i j ∧ C.entry (p + i) j = B.entry i j := by
  obtain ⟨rfl, rfl⟩ := Prod.mk.inj top
  obtain ⟨rows, cols⟩ := Prod.mk.inj bottom
  refine ⟨_, if_pos cols.symm, ?_, fun i row j col => ⟨?_, ?_⟩⟩
  · rw [DenseMatrix.shape, DenseMatrix.rows_ofFn, DenseMatrix.cols_ofFn, rows]
  · rw [DenseMatrix.entry_ofFn _ (Nat.lt_add_right _ row) col, if_pos row]
  · rw [DenseMatrix.entry_ofFn _ (by omega) col, if_neg (by omega), Nat.add_sub_cancel_left]

/-- Blocks of one shape can be packed, and are the quarters of what they are packed into. -/
theorem pack_of_uniform {blocks : SiteBlocks α} {p q : ℕ} (uniform : blocks.Uniform p q) :
    ∃ P, blocks.pack = .ok P ∧ blocks.QuartersOf P p q := by
  obtain ⟨upper, joined, upperShape, upperEntry⟩ := join_of_shape uniform.upperLeft uniform.upperRight
  obtain ⟨lower, joined', lowerShape, lowerEntry⟩ := join_of_shape uniform.lowerLeft uniform.lowerRight
  obtain ⟨P, stacked, shape, entry⟩ := stack_of_shape upperShape lowerShape
  refine ⟨P, by rw [pack, joined, joined']; exact stacked, shape, uniform, ?_, ?_, ?_, ?_⟩
  all_goals intro i row j col
  · rw [(entry i row j (by omega)).1, (upperEntry i row j col).1]
  · rw [(entry i row (q + j) (by omega)).1, (upperEntry i row j col).2]
  · rw [(entry i row j (by omega)).2, (lowerEntry i row j col).1]
  · rw [(entry i row (q + j) (by omega)).2, (lowerEntry i row j col).2]

theorem QuartersOf.squaredDistance {blocks blocks' : SiteBlocks ℝ} {P P' : DenseMatrix ℝ} {p q : ℕ}
    (quarters : blocks.QuartersOf P p q) (quarters' : blocks'.QuartersOf P' p q) :
    P.squaredDistance P' = blocks.squaredDistance blocks' := by
  have sums (A B : DenseMatrix ℝ) {m n : ℕ} (shape : A.shape = (m, n)) : A.squaredDistance B =
      ∑ i ∈ Finset.range m, ∑ j ∈ Finset.range n, (A.entry i j - B.entry i j).normSq := by
    rw [DenseMatrix.squaredDistance, sumFrom_exact, DenseMatrix.rows_of_shape shape]
    refine Finset.sum_congr rfl fun i _ => ?_
    rw [sumFrom_exact, DenseMatrix.cols_of_shape shape]
    simp only [Nat.zero_add]
  rw [SiteBlocks.squaredDistance, sums _ _ quarters.shape, sums _ _ quarters.uniform.upperLeft,
    sums _ _ quarters.uniform.upperRight, sums _ _ quarters.uniform.lowerLeft,
    sums _ _ quarters.uniform.lowerRight, Finset.sum_range_add]
  simp only [Finset.sum_range_add, ← Finset.sum_add_distrib]
  refine Finset.sum_congr rfl fun i member => Finset.sum_congr rfl fun j member' => ?_
  have row := Finset.mem_range.mp member
  have col := Finset.mem_range.mp member'
  rw [quarters.upperLeft i row j col, quarters'.upperLeft i row j col, quarters.upperRight i row j col,
    quarters'.upperRight i row j col, quarters.lowerLeft i row j col, quarters'.lowerLeft i row j col,
    quarters.lowerRight i row j col, quarters'.lowerRight i row j col]

end SiteBlocks

namespace DenseMatrix

/-- The entrywise sum over the extents of the first matrix. -/
def add (A B : DenseMatrix α) : DenseMatrix α := ofFn A.rows A.cols fun i j => A.entry i j + B.entry i j

private theorem entry_add (A B : DenseMatrix α) {i j : ℕ} (row : i < A.rows) (col : j < A.cols) :
    (A.add B).entry i j = A.entry i j + B.entry i j := entry_ofFn _ row col

/-- Two matrices of `p` rows that lie one above the other in `A`. -/
structure RowHalves (A : DenseMatrix α) (halves : DenseMatrix α × DenseMatrix α) (p : ℕ) : Prop where
  upperShape : halves.1.shape = (p, A.cols)
  lowerShape : halves.2.shape = (p, A.cols)
  upper : ∀ i < p, ∀ j < A.cols, halves.1.entry i j = A.entry i j
  lower : ∀ i < p, ∀ j < A.cols, halves.2.entry i j = A.entry (p + i) j

/-- Two matrices of `q` columns that lie next to each other in `A`. -/
structure ColHalves (A : DenseMatrix α) (halves : DenseMatrix α × DenseMatrix α) (q : ℕ) : Prop where
  leftShape : halves.1.shape = (A.rows, q)
  rightShape : halves.2.shape = (A.rows, q)
  left : ∀ i < A.rows, ∀ j < q, halves.1.entry i j = A.entry i j
  right : ∀ i < A.rows, ∀ j < q, halves.2.entry i j = A.entry i (q + j)

theorem rowHalves_of_even {A : DenseMatrix α} {p : ℕ} (even : A.rows = p + p) :
    ∃ halves, A.rowHalves = .ok halves ∧ A.RowHalves halves p := by
  have half : A.rows / 2 = p := by omega
  refine ⟨_, if_pos (by omega), ?_, ?_, ?_, ?_⟩
  · rw [half]; rfl
  · rw [half]; rfl
  · intro i row j col
    rw [half, entry_ofFn _ row col]
  · intro i row j col
    rw [half, entry_ofFn _ row col, Nat.add_comm]

theorem colHalves_of_even {A : DenseMatrix α} {q : ℕ} (even : A.cols = q + q) :
    ∃ halves, A.colHalves = .ok halves ∧ A.ColHalves halves q := by
  have half : A.cols / 2 = q := by omega
  refine ⟨_, if_pos (by omega), ?_, ?_, ?_, ?_⟩
  · rw [half]; rfl
  · rw [half]; rfl
  · intro i row j col
    rw [half, entry_ofFn _ row col]
  · intro i row j col
    rw [half, entry_ofFn _ row col, Nat.add_comm]

theorem rowHalves_eq_error_iff {A : DenseMatrix α} {error : Error α} :
    A.rowHalves = .error error ↔ Odd A.rows ∧ error = .shapeMismatch (.oddRows A.rows) := by
  rw [rowHalves, Nat.odd_iff]
  split
  · next even => simp [even]
  · next odd => simp [Nat.mod_two_ne_zero.mp odd, eq_comm]

theorem colHalves_eq_error_iff {A : DenseMatrix α} {error : Error α} :
    A.colHalves = .error error ↔ Odd A.cols ∧ error = .shapeMismatch (.oddColumns A.cols) := by
  rw [colHalves, Nat.odd_iff]
  split
  · next even => simp [even]
  · next odd => simp [Nat.mod_two_ne_zero.mp odd, eq_comm]

/-- The Gram matrices of the halves add up to that of the whole. -/
theorem RowHalves.add_adjoint_mul {A : DenseMatrix ℝ} {halves : DenseMatrix ℝ × DenseMatrix ℝ} {p : ℕ}
    (cut : A.RowHalves halves p) (even : A.rows = p + p) :
    (halves.1.adjoint.mul halves.1).add (halves.2.adjoint.mul halves.2) = A.adjoint.mul A := by
  obtain ⟨upperRows, upperCols⟩ := Prod.mk.inj cut.upperShape
  obtain ⟨lowerRows, lowerCols⟩ := Prod.mk.inj cut.lowerShape
  refine ext upperCols upperCols fun a b row col => Cplx.toComplex_inj ?_
  replace row : a < A.cols := row.trans_eq upperCols
  replace col : b < A.cols := col.trans_eq upperCols
  have gram (B : DenseMatrix ℝ) (cols : B.cols = A.cols) : ((B.adjoint.mul B).entry a b).toComplex =
      ∑ i ∈ Finset.range B.rows, star (B.entry i a).toComplex * (B.entry i b).toComplex := by
    rw [entry_mul B.adjoint B (row.trans_eq cols.symm) (col.trans_eq cols.symm), toComplex_sumFrom]
    refine Finset.sum_congr rfl fun i member => ?_
    rw [Nat.zero_add, entry_adjoint B (row.trans_eq cols.symm) (Finset.mem_range.mp member)]
    simp
  rw [entry_add (halves.1.adjoint.mul halves.1) _ (row.trans_eq upperCols.symm) (col.trans_eq upperCols.symm),
    Cplx.toComplex_add, gram _ upperCols, gram _ lowerCols, gram A rfl, upperRows, lowerRows, even, Finset.sum_range_add]
  congr 1
  · refine Finset.sum_congr rfl fun i member => ?_
    rw [cut.upper i (Finset.mem_range.mp member) a row, cut.upper i (Finset.mem_range.mp member) b col]
  · refine Finset.sum_congr rfl fun i member => ?_
    rw [cut.lower i (Finset.mem_range.mp member) a row, cut.lower i (Finset.mem_range.mp member) b col]

theorem ColHalves.adjoint {A : DenseMatrix α} {halves : DenseMatrix α × DenseMatrix α} {q : ℕ}
    (cut : A.ColHalves halves q) (even : A.cols = q + q) :
    A.adjoint.RowHalves (halves.1.adjoint, halves.2.adjoint) q := by
  obtain ⟨leftRows, leftCols⟩ := Prod.mk.inj cut.leftShape
  obtain ⟨rightRows, rightCols⟩ := Prod.mk.inj cut.rightShape
  refine ⟨shape_adjoint cut.leftShape, shape_adjoint cut.rightShape, ?_, ?_⟩
  · intro i row j col
    rw [entry_adjoint halves.1 (row.trans_eq leftCols.symm) (col.trans_eq leftRows.symm),
      entry_adjoint A (by omega) col, cut.left j col i row]
  · intro i row j col
    rw [entry_adjoint halves.2 (row.trans_eq rightCols.symm) (col.trans_eq rightRows.symm),
      entry_adjoint A (by omega) col, cut.right j col i row]

theorem ColHalves.add_mul_adjoint {A : DenseMatrix ℝ} {halves : DenseMatrix ℝ × DenseMatrix ℝ} {q : ℕ}
    (cut : A.ColHalves halves q) (even : A.cols = q + q) :
    (halves.1.mul halves.1.adjoint).add (halves.2.mul halves.2.adjoint) = A.mul A.adjoint := by
  have turned := (cut.adjoint even).add_adjoint_mul even
  rwa [adjoint_adjoint, adjoint_adjoint, adjoint_adjoint] at turned

end DenseMatrix

namespace BondSplit

/-- The four blocks that the two sites multiply to, times a number. -/
def products (split : BondSplit α) (factor : α) : SiteBlocks α where
  upperLeft := (split.left.1.weighted split.coefficients split.right.1).scale factor
  upperRight := (split.left.1.weighted split.coefficients split.right.2).scale factor
  lowerLeft := (split.left.2.weighted split.coefficients split.right.1).scale factor
  lowerRight := (split.left.2.weighted split.coefficients split.right.2).scale factor

/-- Halving the factors of a product halves the product. -/
theorem products_quartersOf {split : BondSplit α} {cut : Decomposition α} {p q : ℕ} (factor : α)
    (left : cut.left.RowHalves split.left p) (rows : cut.left.rows = p + p)
    (right : cut.rightAdjoint.ColHalves split.right q) (cols : cut.rightAdjoint.cols = q + q)
    (values : split.coefficients = cut.values) :
    (split.products factor).QuartersOf (cut.rebuild.scale factor) p q := by
  obtain ⟨upperRows, upperCols⟩ := Prod.mk.inj left.upperShape
  obtain ⟨lowerRows, lowerCols⟩ := Prod.mk.inj left.lowerShape
  obtain ⟨leftRows, leftCols⟩ := Prod.mk.inj right.leftShape
  obtain ⟨rightRows, rightCols⟩ := Prod.mk.inj right.rightShape
  have quarter {U V : DenseMatrix α} {i i' j j' : ℕ} (row : i < U.rows) (row' : i' < cut.left.rows)
      (col : j < V.cols) (col' : j' < cut.rightAdjoint.cols) (inner : U.cols = cut.left.cols)
      (inner' : V.rows = cut.rightAdjoint.rows) (leftRow : ∀ a < cut.left.cols, U.entry i a = cut.left.entry i' a)
      (rightColumn : ∀ b < cut.rightAdjoint.rows, V.entry b j = cut.rightAdjoint.entry b j') :
      ((U.weighted split.coefficients V).scale factor).entry i j = (cut.rebuild.scale factor).entry i' j' := by
    rw [DenseMatrix.entry_scale (U.weighted _ V) factor row col,
      DenseMatrix.entry_scale cut.rebuild factor row' col', values]
    exact congrArg (Cplx.scale · factor)
      (DenseMatrix.entry_weighted_congr row' row col' col inner inner' leftRow rightColumn)
  refine ⟨DenseMatrix.shape_eq rows cols, ⟨?_, ?_, ?_, ?_⟩, ?_, ?_, ?_, ?_⟩
  · exact DenseMatrix.shape_eq upperRows leftCols
  · exact DenseMatrix.shape_eq upperRows rightCols
  · exact DenseMatrix.shape_eq lowerRows leftCols
  · exact DenseMatrix.shape_eq lowerRows rightCols
  · intro i row j col
    exact quarter (by omega) (by omega) (by omega) (by omega) upperCols leftRows (left.upper i row)
      fun b below => right.left b below j col
  · intro i row j col
    exact quarter (by omega) (by omega) (by omega) (by omega) upperCols rightRows (left.upper i row)
      fun b below => right.right b below j col
  · intro i row j col
    exact quarter (by omega) (by omega) (by omega) (by omega) lowerCols leftRows (left.lower i row)
      fun b below => right.left b below j col
  · intro i row j col
    exact quarter (by omega) (by omega) (by omega) (by omega) lowerCols rightRows (left.lower i row)
      fun b below => right.right b below j col

end BondSplit
end BondSvd
