import Mathlib
import BondSvd.Bidiagonal.Ordering
import BondSvd.Proofs.Exact.Rotation

namespace BondSvd.SingularTriples
universe u
variable {α : Type u} [Scalar α] {n : ℕ} {t t' t'' : SingularTriples α} {p q : Equiv.Perm ℕ}

/-- The triples `t'` are the first `n` triples of `t` in the order that `p` gives them. -/
structure Rearranges (p : Equiv.Perm ℕ) (n : ℕ) (t t' : SingularTriples α) : Prop where
  fixes : ∀ i, n ≤ i → p i = i
  size : t'.values.size = t.values.size
  value : ∀ k, t'.values.getD k 0 = t.values.getD (p k) 0
  leftShape : t'.left.shape = t.left.shape
  left : ∀ i j, t'.left.entry i j = t.left.entry i (p j)
  rightShape : t'.right.shape = t.right.shape
  right : ∀ i j, t'.right.entry i j = t.right.entry i (p j)

theorem Rearranges.refl (t : SingularTriples α) : Rearranges (Equiv.refl ℕ) n t t :=
  ⟨fun _ _ => rfl, rfl, fun _ => rfl, rfl, fun _ _ => rfl, rfl, fun _ _ => rfl⟩

theorem Rearranges.trans (first : Rearranges p n t t') (second : Rearranges q n t' t'') :
    Rearranges (q.trans p) n t t'' where
  fixes i above := by rw [Equiv.trans_apply, second.fixes i above, first.fixes i above]
  size := second.size.trans first.size
  value k := (second.value k).trans (first.value (q k))
  leftShape := second.leftShape.trans first.leftShape
  left i j := (second.left i j).trans (first.left i (q j))
  rightShape := second.rightShape.trans first.rightShape
  right i j := (second.right i j).trans (first.right i (q j))

private theorem shape_swapColumns (A : DenseMatrix α) (j k : ℕ) : (A.swapColumns j k).shape = A.shape :=
  DenseMatrix.shape_combineColumns ..

private theorem entry_swapColumns (A : DenseMatrix α) {j k : ℕ} (first : j < A.cols) (second : k < A.cols) (i c : ℕ) :
    (A.swapColumns j k).entry i c = A.entry i (Equiv.swap j k c) := by
  rw [DenseMatrix.swapColumns, DenseMatrix.entry_combineColumns _ _ A first second le_rfl, Equiv.swap_apply_def]
  by_cases row : i < A.rows
  · split_ifs with atK atJ atJ
    · rw [← atJ, atK]
    · rfl
    · rfl
    · rfl
  · rw [if_neg row, DenseMatrix.entry_outside fun inside => row inside.1,
      DenseMatrix.entry_outside fun inside => row inside.1]

theorem value_exchange (t : SingularTriples α) {k j : ℕ} (first : j < t.values.size) (second : k < t.values.size) (i : ℕ) :
    (t.exchange k j (t.values.getD j 0)).values.getD i 0 = t.values.getD (Equiv.swap j k i) 0 := by
  have bound : k < (t.values.setIfInBounds j (t.values.getD k 0)).size := by simpa using second
  rw [exchange, getD_setIfInBounds _ bound, getD_setIfInBounds _ first]
  rcases eq_or_ne k i with rfl | notK
  · rw [if_pos rfl, Equiv.swap_apply_right]
  · rcases eq_or_ne j i with rfl | notJ
    · rw [if_neg notK, if_pos rfl, Equiv.swap_apply_left]
    · rw [if_neg notK, if_neg notJ, Equiv.swap_apply_of_ne_of_ne notJ.symm notK.symm]

private theorem exchange_rearranges {k j : ℕ} (size : t.values.size = n) (left : n ≤ t.left.cols) (right : n ≤ t.right.cols)
    (first : j < n) (second : k < n) : Rearranges (Equiv.swap j k) n t (t.exchange k j (t.values.getD j 0)) where
  fixes i above := Equiv.swap_apply_of_ne_of_ne (by omega) (by omega)
  size := by simp [exchange]
  value := value_exchange t (size.symm ▸ first) (size.symm ▸ second)
  leftShape := shape_swapColumns t.left j k
  left := entry_swapColumns t.left (first.trans_le left) (second.trans_le left)
  rightShape := shape_swapColumns t.right j k
  right := entry_swapColumns t.right (first.trans_le right) (second.trans_le right)

/-- The champion of a scan is where the scan began, or some value together with its index. -/
theorem largestFrom_mem (values : Array α) {k : ℕ} (inside : k < values.size) :
    (largestFrom values k).1 = k ∨
      (largestFrom values k).1 < values.size ∧
        (largestFrom values k).2 = values.getD (largestFrom values k).1 0 := by
  have scan (indices : List ℕ) (below : ∀ i ∈ indices, i < values.size) (best : ℕ × α)
      (start : best.1 = k ∨ best.1 < values.size ∧ best.2 = values.getD best.1 0) :
      (indices.foldl (champion values) best).1 = k ∨ (indices.foldl (champion values) best).1 < values.size ∧
        (indices.foldl (champion values) best).2 = values.getD (indices.foldl (champion values) best).1 0 := by
    induction indices generalizing best with
    | nil => exact start
    | cons i rest ih =>
      refine ih (fun j member => below j (List.mem_cons_of_mem i member)) _ ?_
      unfold champion
      split
      · exact .inr ⟨below i List.mem_cons_self, rfl⟩
      · exact start
  refine scan _ ?_ _ (.inl rfl)
  intro i member
  rw [List.mem_range'_1] at member
  omega

theorem place_eq (t : SingularTriples α) (k : ℕ) :
    t.place k =
      if (largestFrom t.values k).1 = k then t
      else t.exchange k (largestFrom t.values k).1 (largestFrom t.values k).2 := rfl

theorem place_rearranges {k : ℕ} (size : t.values.size = n) (left : n ≤ t.left.cols) (right : n ≤ t.right.cols)
    (inside : k < n) : ∃ p, Rearranges p n t (t.place k) := by
  obtain here | ⟨bound, value⟩ := largestFrom_mem t.values (size.symm ▸ inside)
  · exact ⟨_, by rw [place_eq, if_pos here]; exact .refl t⟩
  · by_cases here : (largestFrom t.values k).1 = k
    · exact ⟨_, by rw [place_eq, if_pos here]; exact .refl t⟩
    · refine ⟨Equiv.swap (largestFrom t.values k).1 k, ?_⟩
      rw [place_eq, if_neg here, value]
      exact exchange_rearranges size left right (size ▸ bound) inside

theorem sorted_rearranges (left : t.values.size ≤ t.left.cols) (right : t.values.size ≤ t.right.cols) :
    ∃ p, Rearranges p t.values.size t t.sorted := by
  suffices each : ∀ indices : List ℕ, (∀ k ∈ indices, k < t.values.size) →
      ∃ p, Rearranges p t.values.size t (indices.foldl place t) from
    each _ fun k member => List.mem_range.mp member
  intro indices
  induction indices using List.reverseRecOn with
  | nil => exact fun _ => ⟨_, .refl t⟩
  | append_singleton indices k ih =>
    intro below
    obtain ⟨p, before⟩ := ih fun i member => below i (List.mem_append_left [k] member)
    have leftCols := congrArg Prod.snd before.leftShape
    have rightCols := congrArg Prod.snd before.rightShape
    obtain ⟨q, placed⟩ := place_rearranges before.size (left.trans_eq leftCols.symm) (right.trans_eq rightCols.symm)
      (below k (List.mem_append_right indices List.mem_cons_self))
    refine ⟨q.trans p, ?_⟩
    rw [List.foldl_append, List.foldl_cons, List.foldl_nil]
    exact before.trans placed

private theorem values_place_congr (same : t'.values = t.values) (k : ℕ) : (t'.place k).values = (t.place k).values := by
  rw [place_eq, place_eq, same]
  split
  · exact same
  · rw [exchange, exchange, same]

private theorem values_sorted_congr (same : t'.values = t.values) : t'.sorted.values = t.sorted.values := by
  unfold sorted
  rw [same]
  generalize List.range t.values.size = indices
  induction indices generalizing t t' with
  | nil => exact same
  | cons k rest ih => exact ih (values_place_congr same k)

private theorem values_sorted (t : SingularTriples α) :
    ∃ p : Equiv.Perm ℕ, ∀ k, t.sorted.values.getD k 0 = t.values.getD (p k) 0 := by
  obtain ⟨p, moved⟩ := sorted_rearranges (t := ⟨t.values, .identity t.values.size, .identity t.values.size⟩)
    le_rfl le_rfl
  have same : t.sorted.values = (sorted ⟨t.values, .identity t.values.size, .identity t.values.size⟩).values :=
    values_sorted_congr rfl
  refine ⟨p, fun k => ?_⟩
  rw [same]
  exact moved.value k

/-- What holds of zero and of all values holds of the sorted values. -/
theorem forall_sorted {P : α → Prop} (zero : P 0) (all : ∀ x ∈ t.values, P x) : ∀ x ∈ t.sorted.values, P x := by
  obtain ⟨p, sorted⟩ := values_sorted t
  refine (forall_getD_iff zero).mp fun k => ?_
  rw [sorted k]
  exact (forall_getD_iff zero).mpr all (p k)

section Exact
open scoped Matrix
variable {m n size : ℕ} {t t' : SingularTriples ℝ} {p : Equiv.Perm ℕ}

/-- A value that no later one exceeds is the first largest. -/
theorem largestFrom_of_leading {values : Array ℝ} {k : ℕ} (inside : k < values.size) (nonneg : 0 ≤ values.getD k 0)
    (leading : ∀ i, k < i → values.getD i 0 ≤ values.getD k 0) :
    largestFrom values k = (k, values.getD k 0) := by
  have rest : values.size - k = values.size - k - 1 + 1 := by omega
  have first : champion values (k, -1) k = (k, values.getD k 0) := if_pos (neg_one_lt_zero.trans_le nonneg)
  rw [largestFrom, rest, List.range'_succ, List.foldl_cons, first]
  refine List.foldlRecOn (motive := (· = (k, values.getD k 0))) _ _ rfl fun best same i member => ?_
  obtain ⟨above, -⟩ := List.mem_range'_1.mp member
  rw [same]
  exact if_neg (not_lt.mpr (leading i above))

theorem sorted_of_descending (nonneg : ∀ k, 0 ≤ t.values.getD k 0)
    (descending : ∀ k i, k < i → t.values.getD i 0 ≤ t.values.getD k 0) : t.sorted = t := by
  refine List.foldlRecOn (motive := (· = t)) _ _ rfl fun placed same k member => ?_
  have inside : k < t.values.size := List.mem_range.mp member
  rw [same, place, largestFrom_of_leading inside (nonneg k) (descending k)]
  exact if_pos rfl

theorem apply_lt (fixes : ∀ i, n ≤ i → p i = i) (fits : n ≤ size) {i : ℕ} (inside : i < size) : p i < size := by
  by_contra above
  have stays := fixes (p i) (fits.trans (not_lt.mp above))
  rw [p.injective stays] at above
  exact above inside

/-- A permutation that moves only indices below `n`, as one of the indices of a matrix. -/
def indexPerm (p : Equiv.Perm ℕ) (fixes : ∀ i, n ≤ i → p i = i) (fits : n ≤ size) : Equiv.Perm (Fin size) where
  toFun i := ⟨p i, apply_lt fixes fits i.isLt⟩
  invFun i := ⟨p.symm i, apply_lt (fun j above => (p.symm_apply_eq).mpr (fixes j above).symm) fits i.isLt⟩
  left_inv i := Fin.ext (p.symm_apply_apply i)
  right_inv i := Fin.ext (p.apply_symm_apply i)

theorem submatrix_mem_unitary {U : Matrix (Fin size) (Fin size) ℂ} (unitary : U ∈ Matrix.unitaryGroup (Fin size) ℂ)
    (σ : Equiv.Perm (Fin size)) : U.submatrix id σ ∈ Matrix.unitaryGroup (Fin size) ℂ := by
  have inverse : Uᴴ * U = 1 := Matrix.mem_unitaryGroup_iff'.mp unitary
  rw [Matrix.mem_unitaryGroup_iff', Matrix.star_eq_conjTranspose, Matrix.conjTranspose_submatrix,
    ← Matrix.submatrix_mul _ _ _ _ _ Function.bijective_id, inverse, Matrix.submatrix_one_equiv]

/-- The values on a diagonal. -/
noncomputable def diagonalGrid (values : Array ℝ) (r c : ℕ) : ℝ := if r = c then values.getD c 0 else 0

/-- What the factors of the triples multiply to. -/
noncomputable def product (t : SingularTriples ℝ) (m n : ℕ) : Matrix (Fin m) (Fin n) ℂ :=
  t.left.toMatrix m m * gridMatrix m n (diagonalGrid t.values) * (t.right.toMatrix n n)ᴴ

theorem Rearranges.toMatrix_left (moved : Rearranges p n t t') (fits : n ≤ size) :
    t'.left.toMatrix size size = (t.left.toMatrix size size).submatrix id (indexPerm p moved.fixes fits) := by
  ext i j
  rw [DenseMatrix.toMatrix_apply, moved.left]
  rfl

theorem Rearranges.toMatrix_right (moved : Rearranges p n t t') (fits : n ≤ size) :
    t'.right.toMatrix size size = (t.right.toMatrix size size).submatrix id (indexPerm p moved.fixes fits) := by
  ext i j
  rw [DenseMatrix.toMatrix_apply, moved.right]
  rfl

/-- The order of the triples does not show in their product. -/
theorem Rearranges.product_eq (moved : Rearranges p n t t') (fits : n ≤ m) : t'.product m n = t.product m n := by
  have values : gridMatrix m n (diagonalGrid t'.values) =
      (gridMatrix m n (diagonalGrid t.values)).submatrix (indexPerm p moved.fixes fits)
        (indexPerm p moved.fixes le_rfl) := by
    ext i j
    simp only [gridMatrix, Matrix.of_apply, Matrix.submatrix_apply, diagonalGrid, moved.value, indexPerm,
      Equiv.coe_fn_mk, p.injective.eq_iff]
  rw [product, product, moved.toMatrix_left fits, moved.toMatrix_right le_rfl, values,
    Matrix.conjTranspose_submatrix, Matrix.submatrix_mul_equiv, Matrix.submatrix_mul_equiv, Matrix.submatrix_id_id]

end Exact
end BondSvd.SingularTriples
