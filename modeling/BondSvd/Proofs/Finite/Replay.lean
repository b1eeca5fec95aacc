import BondSvd.Bidiagonal.Reduction
import BondSvd.Proofs.Finite.Laws
import BondSvd.Proofs.Ordering

namespace BondSvd
universe u
variable {α : Type u} [Scalar α]

namespace Reduction
/-- What the weights of the replay are divided by, for each reflection that it makes. -/
def replayDivisors (r : Reduction α) : List α :=
  ((List.range r.reflectors.cols).filter fun k => !decide (r.diag.getD k 0 ≤ Tolerance.zero)).map
      (fun k => (r.reflectors.entry k k).modulus * r.diag.getD k 0) ++
    ((List.range (r.reflectors.cols - 1)).filter fun k => !decide (r.superDiag.getD (k + 1) 0 ≤ Tolerance.zero)).map
      fun k => (r.reflectors.entry k (k + 1)).modulus * r.superDiag.getD (k + 1) 0

/-- Every stored entry that the replay reads is finite. -/
structure FiniteReflectors (r : Reduction α) : Prop where
  left : ∀ k i, k < r.reflectors.cols → ¬r.diag.getD k 0 ≤ Tolerance.zero → k ≤ i → i < r.reflectors.rows →
    (r.reflectors.entry i k).Finite
  right : ∀ k j, k + 1 < r.reflectors.cols → ¬r.superDiag.getD (k + 1) 0 ≤ Tolerance.zero → k + 1 ≤ j →
    j < r.reflectors.cols → (r.reflectors.entry k j).Finite

end Reduction

section Propagating
variable [Propagating α]

namespace DenseMatrix
variable {A : DenseMatrix α} {w : Nat → Cplx α} {divisor : α} {top first : Nat}

private theorem Finite.of_scaleRow {row : Nat} {factor : Cplx α} (finite : (A.scaleRow row first factor).Finite) : A.Finite := by
  intro i j inside inside'
  have entry := finite i j inside inside'
  rw [entry_scaleRow A row first factor inside inside'] at entry
  split at entry
  · exact entry.of_mul.2
  · exact entry

private theorem Finite.of_reflectLeft (finite : (A.reflectLeft w divisor top first).Finite) : A.Finite := by
  intro i j row col
  have entry := finite i j row col
  rw [entry_reflectLeft A w divisor top first row col] at entry
  split at entry
  · exact entry.of_sub.1
  · exact entry

/-- The vector of a reflection is a factor of all that it subtracts. -/
theorem Finite.reflector (finite : (A.reflectLeft w divisor top 0).Finite) (some : 0 < A.cols) {i : Nat} (low : top ≤ i)
    (row : i < A.rows) : (w i).Finite := by
  have entry := finite i 0 row some
  rw [entry_reflectLeft A w divisor top 0 row some, if_pos ⟨low, Nat.le_refl 0⟩] at entry
  exact entry.of_sub.2.of_mul.2

end DenseMatrix

namespace Reduction
variable {r : Reduction α} {k : Nat} {U V : DenseMatrix α}

private theorem finite_of_applyLeft (finite : (r.applyLeft k U).Finite) :
    U.Finite ∧ (¬r.diag.getD k 0 ≤ Tolerance.zero → 0 < U.cols → ∀ i, k ≤ i → i < U.rows →
      (r.reflectors.entry i k).Finite) := by
  unfold applyLeft at finite
  split at finite
  · next vanishes => exact ⟨finite, fun visible => absurd vanishes visible⟩
  · exact ⟨finite.of_reflectLeft.of_scaleRow, fun _ some _ low row => finite.reflector some low row⟩

private theorem finite_of_applyRight (finite : (r.applyRight k V).Finite) :
    V.Finite ∧ (¬r.superDiag.getD (k + 1) 0 ≤ Tolerance.zero → 0 < V.cols → ∀ j, k + 1 ≤ j → j < V.rows →
      (r.reflectors.entry k j).Finite) := by
  unfold applyRight at finite
  split at finite
  · next vanishes => exact ⟨finite, fun visible => absurd vanishes visible⟩
  · exact ⟨finite.of_reflectLeft.of_scaleRow, fun _ some _ low row => (finite.reflector some low row).of_neg_im⟩

omit [Propagating α] in
/-- Steps that show what they are applied to show it to the end, each at its turn. -/
theorem finite_of_backwards {f : Nat → DenseMatrix α → DenseMatrix α} (shapes : ∀ k A, (f k A).shape = A.shape)
    (each : ∀ k A, (f k A).Finite → A.Finite) {count : Nat} {A : DenseMatrix α} (finite : (backwards f count A).Finite) :
    A.Finite ∧ ∀ k < count, ∃ B, B.shape = A.shape ∧ (f k B).Finite := by
  induction count generalizing A with
  | zero => exact ⟨finite, fun k below => absurd below (Nat.not_lt_zero k)⟩
  | succ count ih =>
    obtain ⟨here, earlier⟩ := ih finite
    refine ⟨each count A here, fun k below => ?_⟩
    rcases Nat.lt_or_eq_of_le (Nat.le_of_lt_succ below) with before | rfl
    · obtain ⟨B, shape, applied⟩ := earlier k before
      exact ⟨B, shape.trans (shapes count A), applied⟩
    · exact ⟨A, rfl, here⟩

/-- Factors that come out finite were made of finite ones by finite reflectors. -/
theorem finite_of_accumulate (left : U.shape = (r.reflectors.rows, r.reflectors.rows))
    (right : V.shape = (r.reflectors.cols, r.reflectors.cols)) (finiteLeft : (r.accumulateLeft U).Finite)
    (finiteRight : (r.accumulateRight V).Finite) : U.Finite ∧ V.Finite ∧ r.FiniteReflectors := by
  obtain ⟨before, lefts⟩ := finite_of_backwards r.shape_applyLeft (fun _ _ finite => (finite_of_applyLeft finite).1)
    finiteLeft
  obtain ⟨before', rights⟩ := finite_of_backwards r.shape_applyRight (fun _ _ finite => (finite_of_applyRight finite).1)
    finiteRight
  refine ⟨before, before', fun k i inside visible low row => ?_, fun k j inside visible low col => ?_⟩
  · obtain ⟨B, shape, applied⟩ := lefts k inside
    rw [left, DenseMatrix.shape, Prod.mk.injEq] at shape
    exact (finite_of_applyLeft applied).2 visible (by omega) i low (by omega)
  · obtain ⟨B, shape, applied⟩ := rights k (by omega)
    rw [right, DenseMatrix.shape, Prod.mk.injEq] at shape
    exact (finite_of_applyRight applied).2 visible (by omega) j low (by omega)

end Reduction

omit [Propagating α] in
theorem SingularTriples.finite_of_sorted {t : SingularTriples α} (left : t.values.size ≤ t.left.cols)
    (right : t.values.size ≤ t.right.cols) (finiteLeft : t.sorted.left.Finite) (finiteRight : t.sorted.right.Finite) :
    t.left.Finite ∧ t.right.Finite := by
  obtain ⟨p, moved⟩ := sorted_rearranges left right
  have fixes (i : ℕ) (above : t.values.size ≤ i) : p.symm i = i := (p.symm_apply_eq).mpr (moved.fixes i above).symm
  constructor
  · intro i j row col
    obtain ⟨rows, cols⟩ := Prod.mk.injEq .. ▸ moved.leftShape
    have entry := finiteLeft i (p.symm j) (rows.symm ▸ row) (cols.symm ▸ apply_lt fixes left col)
    rwa [moved.left, p.apply_symm_apply] at entry
  · intro i j row col
    obtain ⟨rows, cols⟩ := Prod.mk.injEq .. ▸ moved.rightShape
    have entry := finiteRight i (p.symm j) (rows.symm ▸ row) (cols.symm ▸ apply_lt fixes right col)
    rwa [moved.right, p.apply_symm_apply] at entry

end Propagating
end BondSvd
