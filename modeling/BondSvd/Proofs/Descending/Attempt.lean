import Mathlib
import BondSvd.Proofs.Descending.Iteration
import BondSvd.Proofs.Descending.Sorting
import BondSvd.Proofs.Run

namespace BondSvd
universe u
variable {α : Type u} [Scalar α]

/-- Square factors of the extents of `A`, with one finite value for each place on its diagonal, in
descending order to no less than zero. -/
structure Decomposition.Complete (r : Decomposition α) (A : DenseMatrix α) : Prop where
  left : r.left.shape = (A.rows, A.rows)
  right : r.right.shape = (A.cols, A.cols)
  length : r.values.length = min A.rows A.cols
  finite : ∀ x ∈ r.values, Scalar.isFinite x = true
  nonneg : ∀ x ∈ r.values, 0 ≤ x
  descending : isDescending r.values = true

namespace Reference
variable [Ordered α] {policy : Policy α} {rule : FloorRule} {A : DenseMatrix α} {m n : ℕ} {r : Reduction α}
  {st : Iteration α}

/-- The iteration of an attempt keeps the extents of its factors, and its values are at least zero. -/
theorem Run.settled_nonneg (run : Run policy rule A r st) (shape : A.shape = (m, n)) (tall : n ≤ m) :
    st.left.shape = (m, m) ∧ st.right.shape = (n, n) ∧ st.diag.size = n ∧ SingularTriples.Nonneg st.diag := by
  have sized := Reduction.upTo_sized shape tall le_rfl (run.upTo shape)
  obtain ⟨confined, nonneg⟩ := Iteration.diagonalize_nonneg run.settled
  have finite (k : ℕ) : Scalar.isFinite (st.d k) = true :=
    (forall_getD_iff (P := fun x => Scalar.isFinite x = true) Ordered.finite_zero).mpr
      (Array.all_eq_true_iff_forall_mem.mp run.finite) k
  have rows : A.rows = m := congrArg Prod.fst shape
  have cols : A.cols = n := congrArg Prod.snd shape
  refine ⟨?_, ?_, confined.size.trans sized.diagSize, fun i inside => ?_⟩
  · rw [confined.left, iteration, rows]
    rfl
  · rw [confined.right, iteration, cols]
    rfl
  · exact nonneg i (confined.size ▸ inside) (finite i)

theorem Run.assembled (run : Run policy rule A r st) (shape : A.shape = (m, n)) (tall : n ≤ m) :
    (assemble r st).left.shape = (m, m) ∧ (assemble r st).right.shape = (n, n) ∧ (assemble r st).values.size = n ∧
      (∀ x ∈ (assemble r st).values.toList, Scalar.isFinite x = true) ∧
      isDescending (assemble r st).values.toList = true := by
  obtain ⟨left, right, size, nonneg⟩ := run.settled_nonneg shape tall
  have leftCols : st.left.cols = m := congrArg Prod.snd left
  have rightCols : st.right.cols = n := congrArg Prod.snd right
  obtain ⟨p, moved⟩ := SingularTriples.sorted_rearranges (t := ⟨st.diag, st.left, st.right⟩)
    (by rw [size, leftCols]; exact tall) (by rw [size, rightCols])
  have finite : ∀ x ∈ (assemble r st).values, Scalar.isFinite x = true :=
    SingularTriples.forall_sorted (P := fun x => Scalar.isFinite x = true) (t := ⟨st.diag, st.left, st.right⟩)
      Ordered.finite_zero (Array.all_eq_true_iff_forall_mem.mp run.finite)
  refine ⟨?_, ?_, moved.size.trans size, fun x member => finite x (Array.mem_toList_iff.mp member),
    SingularTriples.isDescending_sorted nonneg⟩
  · exact (Reduction.shape_backwards r.shape_applyLeft _ _).trans (moved.leftShape.trans left)
  · exact (Reduction.shape_backwards r.shape_applyRight _ _).trans (moved.rightShape.trans right)

/-- A successful attempt returns a complete decomposition of its input, under either floor rule. -/
theorem attempt_complete {result : Decomposition α} (done : attempt policy rule A = .ok result) :
    result.Complete A := by
  obtain ⟨r, st, run, rfl⟩ := attempt_run done
  obtain ⟨left, right, size, finite, descending⟩ := run.assembled (shape_tallForm A) min_le_max
  obtain ⟨left, right⟩ := factors_oriented (P := fun n U => U.shape = (n, n)) left right
  have nonneg := (isDescending_iff_pairwise.mp descending).1
  have length := (congrArg List.length (values_oriented A (assemble r st))).trans size
  rw [← values_oriented A] at finite descending nonneg
  exact ⟨left, right, length, finite, nonneg, descending⟩

/-- A row that begins with an entry that is no number. -/
def undefinedRow : DenseMatrix Float := .ofFn 1 2 fun _ j => ⟨if j = 0 then 0.0 / 0.0 else 1, 0⟩

theorem attempt_complete_undefinedRow :
    ∃ result, attempt {} .refuse undefinedRow = .ok result ∧ result.Complete undefinedRow := by
  have success : (attempt {} .refuse undefinedRow).isOk = true := by decide +kernel
  cases done : attempt {} .refuse undefinedRow with
  | error breakdown =>
    rw [done] at success
    cases success
  | ok result => exact ⟨result, rfl, attempt_complete done⟩

end Reference
end BondSvd
