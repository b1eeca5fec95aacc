import Mathlib
import BondSvd.Proofs.Reduction.Factors

/-! What a reduction computes. Between its parts the stored matrix stands for the working matrix:
a bidiagonal border around the block that is not reduced yet. Up to the entries whose norms
were floored, and to what faint pivots are off the direction that is taken for them, the working
matrix is the input between the unitary factors. What is lost never mixes with the block again, so
the squares add up. -/
namespace BondSvd
open scoped Matrix Matrix.Norms.Frobenius
variable {m n : ℕ}

/-- The squares of entries in different places add up. -/
theorem frobenius_add_sq {X Y : Matrix (Fin m) (Fin n) ℂ} (apart : ∀ i j, X i j = 0 ∨ Y i j = 0) :
    ‖X + Y‖ ^ 2 = ‖X‖ ^ 2 + ‖Y‖ ^ 2 := by
  rw [frobenius_sq, frobenius_sq, frobenius_sq, ← Finset.sum_add_distrib]
  refine Finset.sum_congr rfl fun i _ => ?_
  rw [← Finset.sum_add_distrib]
  refine Finset.sum_congr rfl fun j _ => ?_
  rw [Matrix.add_apply]
  rcases apart i j with zero | zero <;> simp [zero]

/-- The matrix `M` is the product of unitary factors around `W`, up to entries outside the block
from row `top` and column `first`, whose squares sum up to `lost`. -/
def FactorsTo (M : Matrix (Fin m) (Fin n) ℂ) (left : Matrix (Fin m) (Fin m) ℂ) (W : Matrix (Fin m) (Fin n) ℂ)
    (right : Matrix (Fin n) (Fin n) ℂ) (top first : ℕ) (lost : ℝ) : Prop :=
  ∃ E : Matrix (Fin m) (Fin n) ℂ, M = left * (W + E) * rightᴴ ∧
    (∀ (i : Fin m) (j : Fin n), top ≤ (i : ℕ) → first ≤ (j : ℕ) → E i j = 0) ∧ ‖E‖ ^ 2 = lost

section FactorsTo
variable {M W W' C : Matrix (Fin m) (Fin n) ℂ} {left L : Matrix (Fin m) (Fin m) ℂ}
  {right R : Matrix (Fin n) (Fin n) ℂ} {top first : ℕ} {lost cost : ℝ}

/-- A unitary factor taken out on the left, and what it leaves in the first column of the block. -/
theorem FactorsTo.column (before : FactorsTo M left W right top first lost) (unitary : L ∈ Matrix.unitaryGroup (Fin m) ℂ)
    (below : ∀ i l : Fin m, top ≤ (i : ℕ) → (l : ℕ) < top → Lᴴ i l = 0) (image : Lᴴ * W = W' + C)
    (only : ∀ (i : Fin m) (j : Fin n), ¬(top ≤ (i : ℕ) ∧ (j : ℕ) = first) → C i j = 0) (size : ‖C‖ ^ 2 = cost) :
    FactorsTo M (left * L) W' right top (first + 1) (lost + cost) := by
  obtain ⟨E, product, zero, norm⟩ := before
  have carried (i : Fin m) (j : Fin n) (row : top ≤ (i : ℕ)) (col : first ≤ (j : ℕ)) : (Lᴴ * E) i j = 0 := by
    rw [Matrix.mul_apply]
    refine Finset.sum_eq_zero fun l _ => ?_
    by_cases low : top ≤ (l : ℕ)
    · rw [zero l j low col, mul_zero]
    · rw [below i l row (not_le.mp low), zero_mul]
  refine ⟨Lᴴ * E + C, ?_, ?_, ?_⟩
  · have inverse : L * Lᴴ = 1 := Matrix.mem_unitaryGroup_iff.mp unitary
    calc M = left * (L * Lᴴ * (W + E)) * rightᴴ := by rw [inverse, Matrix.one_mul, product]
      _ = left * L * (Lᴴ * W + Lᴴ * E) * rightᴴ := by simp only [Matrix.mul_assoc, Matrix.mul_add]
      _ = left * L * (W' + (Lᴴ * E + C)) * rightᴴ := by rw [image, add_assoc, add_comm C]
  · intro i j row col
    rw [Matrix.add_apply, carried i j row (Nat.le_of_succ_le col), only i j (by omega), add_zero]
  · rw [frobenius_add_sq, frobenius_unitary_mul (conjTranspose_mem_unitary unitary), norm, size]
    intro i j
    by_cases here : top ≤ (i : ℕ) ∧ (j : ℕ) = first
    · exact .inl (carried i j here.1 here.2.ge)
    · exact .inr (only i j here)

/-- A unitary factor taken out on the right, and what it leaves in the first row of the block. -/
theorem FactorsTo.row (before : FactorsTo M left W right top first lost) (unitary : R ∈ Matrix.unitaryGroup (Fin n) ℂ)
    (beyond : ∀ l j : Fin n, first ≤ (j : ℕ) → (l : ℕ) < first → R l j = 0) (image : W * R = W' + C)
    (only : ∀ (i : Fin m) (j : Fin n), ¬((i : ℕ) = top ∧ first ≤ (j : ℕ)) → C i j = 0) (size : ‖C‖ ^ 2 = cost) :
    FactorsTo M left W' (right * R) (top + 1) first (lost + cost) := by
  obtain ⟨E, product, zero, norm⟩ := before
  have carried (i : Fin m) (j : Fin n) (row : top ≤ (i : ℕ)) (col : first ≤ (j : ℕ)) : (E * R) i j = 0 := by
    rw [Matrix.mul_apply]
    refine Finset.sum_eq_zero fun l _ => ?_
    by_cases high : first ≤ (l : ℕ)
    · rw [zero i l row high, zero_mul]
    · rw [beyond l j col (not_le.mp high), mul_zero]
  refine ⟨E * R + C, ?_, ?_, ?_⟩
  · have inverse : R * Rᴴ = 1 := Matrix.mem_unitaryGroup_iff.mp unitary
    calc M = left * ((W + E) * (R * Rᴴ)) * rightᴴ := by rw [inverse, Matrix.mul_one, product]
      _ = left * (W * R + E * R) * (right * R)ᴴ := by
        rw [Matrix.conjTranspose_mul]
        simp only [Matrix.mul_assoc, Matrix.add_mul]
      _ = left * (W' + (E * R + C)) * (right * R)ᴴ := by rw [image, add_assoc, add_comm C]
  · intro i j row col
    rw [Matrix.add_apply, carried i j (Nat.le_of_succ_le row) col, only i j (by omega), add_zero]
  · rw [frobenius_add_sq, frobenius_mul_unitary unitary, norm, size]
    intro i j
    by_cases here : (i : ℕ) = top ∧ first ≤ (j : ℕ)
    · exact .inl (carried i j here.1.ge here.2)
    · exact .inr (only i j here)

end FactorsTo

/-- The square of what is lost with a norm: all of it if it is flushed, and if it is kept, what its pivot is
off the direction that is taken for it. -/
noncomputable def Judgement.loss (rule : NormFloor ℝ) (judgement : Judgement ℝ) : ℝ :=
  match rule.judge judgement.normSq with
  | .keep => ‖judgement.pivot.skew‖ ^ 2
  | .flush => judgement.normSq
  | .refuse => 0

theorem Judgement.loss_kept {rule : NormFloor ℝ} {judgement : Judgement ℝ}
    (verdict : rule.judge judgement.normSq = .keep) : judgement.loss rule = ‖judgement.pivot.skew‖ ^ 2 := by
  rw [loss, verdict]

theorem Judgement.loss_flushed {rule : NormFloor ℝ} {judgement : Judgement ℝ}
    (verdict : rule.judge judgement.normSq = .flush) : judgement.loss rule = judgement.normSq := by
  rw [loss, verdict]

namespace Reduction
variable {rule : NormFloor ℝ} {A : DenseMatrix ℝ} {r r' r'' : Reduction ℝ} {k top first : ℕ}

/-- The working matrix: bidiagonal around the block from row `top` and column `first`, which is
still in the stored matrix. -/
noncomputable def work (r : Reduction ℝ) (top first i j : ℕ) : ℂ :=
  if top ≤ i ∧ first ≤ j then (r.reflectors.entry i j).toComplex
  else ((if i = j then r.diag.getD j 0 else if i + 1 = j then r.superDiag.getD j 0 else 0 : ℝ) : ℂ)

noncomputable def workMatrix (m n : ℕ) (r : Reduction ℝ) (top first : ℕ) : Matrix (Fin m) (Fin n) ℂ :=
  Matrix.of fun i j => r.work top first i j

theorem work_inside {i j : ℕ} (row : top ≤ i) (col : first ≤ j) :
    r.work top first i j = (r.reflectors.entry i j).toComplex := if_pos ⟨row, col⟩

theorem work_border {i j : ℕ} (border : ¬(top ≤ i ∧ first ≤ j)) :
    r.work top first i j =
      ((if i = j then r.diag.getD j 0 else if i + 1 = j then r.superDiag.getD j 0 else 0 : ℝ) : ℂ) := if_neg border

theorem work_left {i j : ℕ} (row : top ≤ i) (col : j < top) (before : j < first) : r.work top first i j = 0 := by
  rw [work_border (by omega), if_neg (by omega), if_neg (by omega), Complex.ofReal_zero]

theorem columnImage_exact (sized : r.Sized m n) {u : ℂ} {length : ℝ}
    (reflects : Reflects m k u (r.columnVector k) (r'.columnVector k) length)
    (root : length = √(r.columnTailNormSq k)) (i j : ℕ) :
    (r.columnImage (fun l => r'.reflectors.entry l k) k i j).toComplex =
      (r.reflectors.entry i j).toComplex -
        (∑ l : Fin m, star (tailFrom m k (r'.columnVector k) l) * (r.reflectors.entry l j).toComplex) /
          (‖r'.columnVector k k‖ * length : ℝ) * r'.columnVector k i := by
  rw [columnImage, Cplx.toComplex_sub, Cplx.toComplex_mul, DenseMatrix.columnWeight_exact sized.rows,
    reflects.norm_pivot, Cplx.modulus_exact, Scalar.sqrt_exact, ← root, mul_comm (length + _)]
  rfl

/-- Below a column that is clear already, nothing moves. -/
theorem KeptColumn.entry_of_clear (kept : KeptColumn k r r') (sized : r.Sized m n) {i j : ℕ} (below : k < i)
    (after : k < j) (row : i < m) (col : j < n) (positive : 0 < r.columnTailNormSq k)
    (clear : r.reflectors.entry i k = 0) : r'.reflectors.entry i j = r.reflectors.entry i j := by
  refine Cplx.toComplex_inj ?_
  have reflects := kept.reflects sized (below.trans row) positive
  have vector : r'.columnVector k i = 0 := by
    rw [columnVector, kept.column i below.ne', clear, Cplx.toComplex_zero]
  rw [kept.block i j below.le after (sized.rows.symm ▸ row) (sized.cols.symm ▸ col), if_neg below.ne',
    columnImage_exact sized reflects kept.length, vector, mul_zero, sub_zero]

/-- Its reflection only turns the row of the pivot. -/
theorem KeptColumn.norm_entry_of_clear (kept : KeptColumn k r r') (sized : r.Sized m n) {j : ℕ} (inside : k < m)
    (after : k < j) (col : j < n) (positive : 0 < r.columnTailNormSq k)
    (clear : ∀ i, k < i → r.reflectors.entry i k = 0) :
    ‖(r'.reflectors.entry k j).toComplex‖ = ‖(r.reflectors.entry k j).toComplex‖ := by
  have reflects := kept.reflects sized inside positive
  have vanishes (i : Fin m) (low : k ≤ (i : ℕ)) (other : i ≠ ⟨k, inside⟩) :
      r.columnVector k i = 0 ∧ r'.columnVector k i = 0 := by
    have below : k < (i : ℕ) := lt_of_le_of_ne low fun same => other (Fin.ext same.symm)
    have original : r.columnVector k i = 0 := by
      rw [columnVector, clear i below, Cplx.toComplex_zero]
    exact ⟨original, (reflects.same i below.ne').trans original⟩
  have length : r'.diag.getD k 0 = ‖r.columnVector k k‖ := by
    have total := reflects.total
    rw [Fintype.sum_eq_single ⟨k, inside⟩, if_pos le_rfl] at total
    · exact ((sq_eq_sq₀ (norm_nonneg _) reflects.positive.le).mp total).symm
    · intro i other
      split
      · next low => rw [(vanishes i low other).1, norm_zero, zero_pow two_ne_zero]
      · rfl
  have weight : ∑ l : Fin m, star (tailFrom m k (r'.columnVector k) l) * (r.reflectors.entry l j).toComplex =
      star (r'.columnVector k k) * (r.reflectors.entry k j).toComplex := by
    rw [Fintype.sum_eq_single ⟨k, inside⟩, tailFrom, if_pos le_rfl]
    intro i other
    unfold tailFrom
    split
    · next low => rw [(vanishes i low other).2, star_zero, zero_mul]
    · rw [star_zero, zero_mul]
  have turned : ‖(turn (r'.reflectors.entry k k)).toComplex‖ = 1 := by
    rw [toComplex_turn, norm_div, norm_neg, Complex.norm_real, norm_norm, norm_star]
    exact div_self reflects.norm_pivot_pos.ne'
  have doubled := reflects.norm_pivot
  rw [← length, ← two_mul] at doubled
  have image : (r.columnImage (fun l => r'.reflectors.entry l k) k k j).toComplex =
      -(r.reflectors.entry k j).toComplex := by
    have square : star (r'.columnVector k k) * r'.columnVector k k = (‖r'.columnVector k k‖ ^ 2 : ℝ) := by
      rw [Complex.star_def, Complex.conj_mul']
      push_cast
      rfl
    have nonzero : (r'.diag.getD k 0 : ℂ) ≠ 0 := Complex.ofReal_ne_zero.mpr reflects.positive.ne'
    rw [columnImage_exact sized reflects kept.length, weight, mul_comm (star _), mul_div_assoc, mul_assoc,
      div_mul_eq_mul_div, square, doubled]
    push_cast
    field_simp
    ring
  rw [kept.block k j le_rfl after (sized.rows.symm ▸ inside) (sized.cols.symm ▸ col), if_pos rfl, Cplx.toComplex_mul,
    norm_mul, turned, one_mul, image, norm_neg]

/-- What a pivot is off the direction that is taken for it, in its place. -/
noncomputable def pivotSkew (m n : ℕ) (r : Reduction ℝ) (row col : ℕ) : Matrix (Fin m) (Fin n) ℂ :=
  Matrix.of fun i j => if (i : ℕ) = row ∧ (j : ℕ) = col then (r.reflectors.entry row col).skew else 0

theorem workMatrix_sub_pivotSkew {row col : ℕ} (i : Fin m) (j : Fin n) (off : ¬((i : ℕ) = row ∧ (j : ℕ) = col)) :
    (r.workMatrix m n top first - r.pivotSkew m n row col) i j = r.work top first i j := by
  rw [Matrix.sub_apply, pivotSkew, Matrix.of_apply, if_neg off, sub_zero]
  rfl

/-- The reflection of a kept column clears it below the diagonal, once its pivot has the direction that
is taken for it. -/
theorem KeptColumn.image (kept : KeptColumn k r r') (sized : r.Sized m n) (inside : k < m)
    (positive : 0 < r.columnTailNormSq k) (large : Tolerance.zero < r'.diag.getD k 0) :
    (r'.leftFactor m k)ᴴ * (r.workMatrix m n k k - r.pivotSkew m n k k) = r'.workMatrix m n k (k + 1) := by
  have original := kept.reflects sized inside positive
  have straight := Cplx.sub_skew (r.reflectors.entry k k)
  generalize (phase (r.reflectors.entry k k) (r.reflectors.entry k k).modulus).toComplex = u at original straight
  have reflects := original.straightened
  have aligned : u * (‖Function.update (r.columnVector k) k (u * (‖r.columnVector k k‖ : ℝ)) k‖ : ℝ) =
      Function.update (r.columnVector k) k (u * (‖r.columnVector k k‖ : ℝ)) k := by
    rw [Function.update_self, norm_mul, original.unit, one_mul, Complex.norm_real, norm_norm]
  have column (l : Fin m) (j : Fin n) (low : k ≤ (l : ℕ)) (here : (j : ℕ) = k) :
      (r.workMatrix m n k k - r.pivotSkew m n k k) l j =
        Function.update (r.columnVector k) k (u * (‖r.columnVector k k‖ : ℝ)) l := by
    by_cases corner : (l : ℕ) = k
    · rw [Matrix.sub_apply, workMatrix, Matrix.of_apply, pivotSkew, Matrix.of_apply, if_pos ⟨corner, here⟩,
        work_inside low here.ge, corner, here, Function.update_self, straight]
      rfl
    · rw [workMatrix_sub_pivotSkew l j fun both => corner both.1, work_inside low here.ge, here,
        Function.update_of_ne corner, columnVector]
  generalize Function.update (r.columnVector k) k (u * (‖r.columnVector k k‖ : ℝ)) = a at reflects aligned column
  ext i j
  have final : r'.workMatrix m n k (k + 1) i j = r'.work k (k + 1) i j := rfl
  rw [leftFactor, reflector_conjTranspose_mul_apply large, reflects.phase, final]
  by_cases row : k ≤ (i : ℕ)
  · have vector : tailFrom m k (r'.columnVector k) i = r'.columnVector k i := if_pos row
    rw [vector]
    rcases Nat.lt_trichotomy (j : ℕ) k with before | here | after
    · have none : ∑ l : Fin m, star (tailFrom m k (r'.columnVector k) l) *
            (r.workMatrix m n k k - r.pivotSkew m n k k) l j =
          ∑ l : Fin m, star (tailFrom m k (r'.columnVector k) l) * 0 :=
        sum_star_tailFrom_congr fun l low => by
          rw [workMatrix_sub_pivotSkew l j (by omega), work_left low before before]
      rw [none, workMatrix_sub_pivotSkew i j (by omega), work_left row before before,
        work_left row before (Nat.lt_succ_of_lt before)]
      simp
    · have all : ∑ l : Fin m, star (tailFrom m k (r'.columnVector k) l) *
            (r.workMatrix m n k k - r.pivotSkew m n k k) l j =
          (‖r'.columnVector k k‖ * r'.diag.getD k 0 : ℝ) := by
        rw [← reflects.weight aligned]
        refine sum_star_tailFrom_congr fun l low => ?_
        rw [column l j low here, tailFrom, if_pos low]
      have nonzero : ((‖r'.columnVector k k‖ * r'.diag.getD k 0 : ℝ) : ℂ) ≠ 0 :=
        Complex.ofReal_ne_zero.mpr (mul_pos reflects.norm_pivot_pos reflects.positive).ne'
      rw [all, div_self nonzero, one_mul, column i j row here, here, work_border (by omega)]
      by_cases corner : (i : ℕ) = k
      · rw [if_pos corner, if_pos corner, corner, ← reflects.unit_cancel (r'.diag.getD k 0),
          ← reflects.sub_pivot aligned]
      · rw [if_neg corner, if_neg corner, if_neg (by omega), reflects.same i corner, sub_self, Complex.ofReal_zero]
    · have inner : ∑ l : Fin m, star (tailFrom m k (r'.columnVector k) l) *
            (r.workMatrix m n k k - r.pivotSkew m n k k) l j =
          ∑ l : Fin m, star (tailFrom m k (r'.columnVector k) l) * (r.reflectors.entry l j).toComplex :=
        sum_star_tailFrom_congr fun l low => by
          rw [workMatrix_sub_pivotSkew l j (by omega), work_inside low after.le]
      rw [inner, workMatrix_sub_pivotSkew i j (by omega), work_inside row after.le, work_inside row after,
        ← columnImage_exact sized original kept.length,
        kept.block i j row after (sized.rows.symm ▸ i.isLt) (sized.cols.symm ▸ j.isLt)]
      by_cases corner : (i : ℕ) = k
      · have turned : (turn (r'.reflectors.entry k k)).toComplex = star (-u) := by
          rw [toComplex_turn, ← reflects.phase, columnVector]
          simp
        rw [if_pos corner, if_pos corner, Cplx.toComplex_mul, turned]
      · rw [if_neg corner, if_neg corner]
  · have vector : tailFrom m k (r'.columnVector k) i = 0 := if_neg row
    rw [vector, mul_zero, sub_zero, if_neg (by omega), workMatrix_sub_pivotSkew i j (by omega),
      work_border (by omega), work_border (by omega), kept.diag, kept.superDiag]
    split_ifs <;> first | rfl | omega

theorem work_above {i j : ℕ} (row : i + 1 < first) (col : first ≤ j) (before : i < top) :
    r.work top first i j = 0 := by
  rw [work_border (by omega), if_neg (by omega), if_neg (by omega), Complex.ofReal_zero]

private theorem rowImage_exact (sized : r.Sized m n) {u : ℂ} {length : ℝ}
    (reflects : Reflects n (k + 1) u (r.rowVector k) (r'.rowVector k) length)
    (root : length = √(r.rowTailNormSq k)) (i j : ℕ) :
    (r.rowImage (fun l => r'.reflectors.entry k l) k i j).toComplex =
      (r.reflectors.entry i j).toComplex -
        (∑ l : Fin n, (r.reflectors.entry i l).toComplex * tailFrom n (k + 1) (r'.rowVector k) l) /
          (‖r'.rowVector k (k + 1)‖ * length : ℝ) * star (r'.rowVector k j) := by
  rw [rowImage, Cplx.toComplex_sub, Cplx.toComplex_mul, DenseMatrix.rowWeight_exact sized.cols,
    reflects.norm_pivot, Cplx.modulus_exact, Scalar.sqrt_exact, ← root, mul_comm (length + _), rowVector, rowVector,
    star_star, norm_star]
  rfl

theorem KeptRow.entry_of_empty (kept : KeptRow k r r') (sized : r.Sized m n) {i j : ℕ} (below : k < i)
    (after : k < j) (row : i < m) (col : j < n) (positive : 0 < r.rowTailNormSq k)
    (empty : ∀ l, k < l → r.reflectors.entry i l = 0) : r'.reflectors.entry i j = 0 := by
  refine Cplx.toComplex_inj ?_
  have reflects := kept.reflects sized (by omega) positive
  have weight : ∑ l : Fin n, (r.reflectors.entry i l).toComplex * tailFrom n (k + 1) (r'.rowVector k) l =
      ∑ l : Fin n, 0 * tailFrom n (k + 1) (r'.rowVector k) l :=
    sum_mul_tailFrom_congr fun l reached => by rw [empty l reached, Cplx.toComplex_zero]
  have image : (r.rowImage (fun l => r'.reflectors.entry k l) k i j).toComplex = 0 := by
    rw [rowImage_exact sized reflects kept.length, weight, empty j after]
    simp
  rw [kept.block i j below after (sized.rows.symm ▸ row) (sized.cols.symm ▸ col)]
  split
  · rw [Cplx.toComplex_mul, image, zero_mul, Cplx.toComplex_zero]
  · rw [image, Cplx.toComplex_zero]

theorem KeptRow.image (kept : KeptRow k r r') (sized : r.Sized m n) (inside : k + 1 < n)
    (positive : 0 < r.rowTailNormSq k) (large : Tolerance.zero < r'.superDiag.getD (k + 1) 0) :
    (r.workMatrix m n k (k + 1) - r.pivotSkew m n k (k + 1)) * r'.rightFactor n k =
      r'.workMatrix m n (k + 1) (k + 1) := by
  have original := kept.reflects sized inside positive
  have straight : (r.reflectors.entry k (k + 1)).toComplex - (r.reflectors.entry k (k + 1)).skew =
      star (star (phase (r.reflectors.entry k (k + 1)) (r.reflectors.entry k (k + 1)).modulus).toComplex *
        (‖r.rowVector k (k + 1)‖ : ℝ)) := by
    rw [Cplx.sub_skew, star_mul', star_star, Complex.star_def, Complex.conj_ofReal, rowVector, norm_star]
  generalize star (phase (r.reflectors.entry k (k + 1)) (r.reflectors.entry k (k + 1)).modulus).toComplex = u
    at original straight
  have reflects := original.straightened
  have aligned : u * (‖Function.update (r.rowVector k) (k + 1) (u * (‖r.rowVector k (k + 1)‖ : ℝ)) (k + 1)‖ : ℝ) =
      Function.update (r.rowVector k) (k + 1) (u * (‖r.rowVector k (k + 1)‖ : ℝ)) (k + 1) := by
    rw [Function.update_self, norm_mul, original.unit, one_mul, Complex.norm_real, norm_norm]
  have tail (i : Fin m) (l : Fin n) (here : (i : ℕ) = k) (high : k + 1 ≤ (l : ℕ)) :
      (r.workMatrix m n k (k + 1) - r.pivotSkew m n k (k + 1)) i l =
        star (Function.update (r.rowVector k) (k + 1) (u * (‖r.rowVector k (k + 1)‖ : ℝ)) l) := by
    by_cases corner : (l : ℕ) = k + 1
    · rw [Matrix.sub_apply, workMatrix, Matrix.of_apply, pivotSkew, Matrix.of_apply, if_pos ⟨here, corner⟩,
        work_inside here.ge high, corner, here, Function.update_self, straight]
    · rw [workMatrix_sub_pivotSkew i l fun both => corner both.2, work_inside here.ge high, here,
        Function.update_of_ne corner, rowVector, star_star]
  generalize Function.update (r.rowVector k) (k + 1) (u * (‖r.rowVector k (k + 1)‖ : ℝ)) = a
    at reflects aligned tail
  ext i j
  have final : r'.workMatrix m n (k + 1) (k + 1) i j = r'.work (k + 1) (k + 1) i j := rfl
  rw [rightFactor, mul_reflector_apply large, reflects.phase, final]
  by_cases col : k + 1 ≤ (j : ℕ)
  · have vector : tailFrom n (k + 1) (r'.rowVector k) j = r'.rowVector k j := if_pos col
    rw [vector]
    rcases Nat.lt_trichotomy (i : ℕ) k with above | here | below
    · have none : ∑ l : Fin n, (r.workMatrix m n k (k + 1) - r.pivotSkew m n k (k + 1)) i l *
            tailFrom n (k + 1) (r'.rowVector k) l =
          ∑ l : Fin n, 0 * tailFrom n (k + 1) (r'.rowVector k) l :=
        sum_mul_tailFrom_congr fun l high => by
          rw [workMatrix_sub_pivotSkew i l (by omega), work_above (Nat.succ_lt_succ above) high above]
      rw [none, workMatrix_sub_pivotSkew i j (by omega), work_above (Nat.succ_lt_succ above) col above,
        work_above (Nat.succ_lt_succ above) col (Nat.lt_succ_of_lt above)]
      simp
    · have all : ∑ l : Fin n, (r.workMatrix m n k (k + 1) - r.pivotSkew m n k (k + 1)) i l *
            tailFrom n (k + 1) (r'.rowVector k) l =
          (‖r'.rowVector k (k + 1)‖ * r'.superDiag.getD (k + 1) 0 : ℝ) := by
        rw [← reflects.weight_star aligned]
        refine sum_mul_tailFrom_congr fun l high => ?_
        rw [tail i l here high, tailFrom, if_pos high]
      have nonzero : ((‖r'.rowVector k (k + 1)‖ * r'.superDiag.getD (k + 1) 0 : ℝ) : ℂ) ≠ 0 :=
        Complex.ofReal_ne_zero.mpr (mul_pos reflects.norm_pivot_pos reflects.positive).ne'
      rw [all, div_self nonzero, one_mul, tail i j here col, here, work_border (by omega)]
      by_cases corner : (j : ℕ) = k + 1
      · rw [if_pos corner, if_neg (by omega), if_pos corner.symm, corner,
          ← reflects.unit_cancel (r'.superDiag.getD (k + 1) 0)]
        rw [← star_sub, reflects.sub_pivot aligned, star_mul', Complex.star_def, Complex.conj_ofReal]
        ring
      · rw [if_neg corner, if_neg (by omega), if_neg (by omega), reflects.same j corner, sub_self,
          Complex.ofReal_zero]
    · have inner : ∑ l : Fin n, (r.workMatrix m n k (k + 1) - r.pivotSkew m n k (k + 1)) i l *
            tailFrom n (k + 1) (r'.rowVector k) l =
          ∑ l : Fin n, (r.reflectors.entry i l).toComplex * tailFrom n (k + 1) (r'.rowVector k) l :=
        sum_mul_tailFrom_congr fun l high => by
          rw [workMatrix_sub_pivotSkew i l (by omega), work_inside below.le high]
      rw [inner, workMatrix_sub_pivotSkew i j (by omega), work_inside below.le col, work_inside below col,
        ← rowImage_exact sized original kept.length,
        kept.block i j below col (sized.rows.symm ▸ i.isLt) (sized.cols.symm ▸ j.isLt)]
      by_cases corner : (j : ℕ) = k + 1
      · have turned : (turn (r'.reflectors.entry k (k + 1))).toComplex = -u := by
          rw [toComplex_turn, ← reflects.phase]
          rfl
        rw [if_pos corner, if_pos corner, Cplx.toComplex_mul, turned]
      · rw [if_neg corner, if_neg corner]
  · have vector : tailFrom n (k + 1) (r'.rowVector k) j = 0 := if_neg col
    rw [vector, star_zero, mul_zero, sub_zero, if_neg (by omega), workMatrix_sub_pivotSkew i j (by omega),
      work_border (by omega), work_border (by omega), kept.diag, kept.superDiag]
    split_ifs <;> first | rfl | omega

section Run
variable {M : Matrix (Fin m) (Fin n) ℂ} {left : Matrix (Fin m) (Fin m) ℂ} {right : Matrix (Fin n) (Fin n) ℂ}
  {lost : ℝ}

theorem lt_sqrt_of_keep (enough : Tolerance.zero ^ 2 ≤ rule.floor) {normSq : ℝ} (verdict : rule.judge normSq = .keep) :
    0 < normSq ∧ Tolerance.zero < √normSq := by
  have large := enough.trans_lt ((rule.judge_eq_keep_iff normSq).mp verdict)
  exact ⟨(sq_nonneg _).trans_lt large, Real.lt_sqrt_of_sq_lt large⟩

/-- The entries of column `k` from the diagonal down, in their places. -/
noncomputable def columnTail (m n : ℕ) (r : Reduction ℝ) (k : ℕ) : Matrix (Fin m) (Fin n) ℂ :=
  Matrix.of fun i j => if k ≤ (i : ℕ) ∧ (j : ℕ) = k then (r.reflectors.entry i j).toComplex else 0

/-- The entries of row `k` right of the diagonal, in their places. -/
noncomputable def rowTail (m n : ℕ) (r : Reduction ℝ) (k : ℕ) : Matrix (Fin m) (Fin n) ℂ :=
  Matrix.of fun i j => if (i : ℕ) = k ∧ k + 1 ≤ (j : ℕ) then (r.reflectors.entry i j).toComplex else 0

theorem norm_columnTail_sq (sized : r.Sized m n) (inside : k < n) :
    ‖r.columnTail m n k‖ ^ 2 = r.columnTailNormSq k := by
  rw [frobenius_sq, columnTailNormSq_exact sized]
  refine Finset.sum_congr rfl fun i _ => ?_
  rw [Finset.sum_eq_single ⟨k, inside⟩]
  · by_cases low : k ≤ (i : ℕ)
    · simp [columnTail, low, columnVector]
    · simp [columnTail, low]
  · intro j _ off
    have other : (j : ℕ) ≠ k := fun same => off (Fin.ext same)
    simp [columnTail, other]
  · intro absent
    exact absurd (Finset.mem_univ _) absent

theorem norm_rowTail_sq (sized : r.Sized m n) (inside : k < m) :
    ‖r.rowTail m n k‖ ^ 2 = r.rowTailNormSq k := by
  rw [frobenius_sq, rowTailNormSq_exact sized, Finset.sum_eq_single ⟨k, inside⟩]
  · refine Finset.sum_congr rfl fun j _ => ?_
    by_cases high : k < (j : ℕ)
    · simp [rowTail, high, rowVector]
    · simp [rowTail, high]
  · intro i _ off
    have other : (i : ℕ) ≠ k := fun same => off (Fin.ext same)
    simp [rowTail, other]
  · intro absent
    exact absurd (Finset.mem_univ _) absent

theorem workMatrix_columnTail (pending : r.diag.getD k 0 = 0) :
    r.workMatrix m n k k = r.workMatrix m n k (k + 1) + r.columnTail m n k := by
  ext i j
  simp only [workMatrix, columnTail, Matrix.add_apply, Matrix.of_apply]
  by_cases here : k ≤ (i : ℕ) ∧ (j : ℕ) = k
  · rw [if_pos here, work_inside here.1 here.2.ge, work_border (by omega), here.2, pending]
    split_ifs <;> first | omega | simp
  · rw [if_neg here, add_zero]
    by_cases inside : k ≤ (i : ℕ) ∧ k ≤ (j : ℕ)
    · rw [work_inside inside.1 inside.2, work_inside inside.1 (by omega)]
    · rw [work_border inside, work_border (by omega)]

theorem workMatrix_rowTail (pending : r.superDiag.getD (k + 1) 0 = 0) :
    r.workMatrix m n k (k + 1) = r.workMatrix m n (k + 1) (k + 1) + r.rowTail m n k := by
  ext i j
  simp only [workMatrix, rowTail, Matrix.add_apply, Matrix.of_apply]
  by_cases here : (i : ℕ) = k ∧ k + 1 ≤ (j : ℕ)
  · rw [if_pos here, work_inside here.1.ge here.2, work_border (by omega), here.1, if_neg (by omega)]
    split
    · next same => rw [← same, pending, Complex.ofReal_zero, zero_add]
    · rw [Complex.ofReal_zero, zero_add]
  · rw [if_neg here, add_zero]
    by_cases inside : k ≤ (i : ℕ) ∧ k + 1 ≤ (j : ℕ)
    · rw [work_inside inside.1 inside.2, work_inside (by omega) inside.2]
    · rw [work_border inside, work_border (by omega)]

private theorem norm_pivotSkew {row col : ℕ} (inRows : row < m) (inCols : col < n) :
    ‖r.pivotSkew m n row col‖ = ‖(r.reflectors.entry row col).skew‖ := by
  refine (sq_eq_sq₀ (norm_nonneg _) (norm_nonneg _)).mp ?_
  rw [frobenius_sq, Finset.sum_eq_single ⟨row, inRows⟩, Finset.sum_eq_single ⟨col, inCols⟩]
  · simp [pivotSkew]
  · intro j _ off
    have other : (j : ℕ) ≠ col := fun same => off (Fin.ext same)
    simp [pivotSkew, other]
  · intro absent
    exact absurd (Finset.mem_univ _) absent
  · intro i _ off
    have other : (i : ℕ) ≠ row := fun same => off (Fin.ext same)
    simp [pivotSkew, other]
  · intro absent
    exact absurd (Finset.mem_univ _) absent

/-- A column part takes one unitary factor out, and loses the norm that it flushes, or what its pivot is
off the direction that it takes for it. -/
theorem columnPart_factorsTo (before : FactorsTo M left (r.workMatrix m n k k) right k k lost)
    (enough : Tolerance.zero ^ 2 ≤ rule.floor) (sized : r.Sized m n) (tall : n ≤ m) (inside : k < n)
    (pending : r.diag.getD k 0 = 0) (done : r.columnPart rule k = some r') :
    FactorsTo M (left * r'.leftFactor m k) (r'.workMatrix m n k (k + 1)) right k (k + 1)
      (lost + Judgement.loss rule ⟨r.columnTailNormSq k, r.reflectors.entry k k⟩) := by
  have below (i l : Fin m) (low : k ≤ (i : ℕ)) (high : (l : ℕ) < k) : (r'.leftFactor m k)ᴴ i l = 0 :=
    reflector_conjTranspose_apply_of_lt low high
  have row : k < m := inside.trans_le tall
  obtain ⟨verdict, rfl⟩ | ⟨verdict, sized', kept⟩ := columnPart_cases sized tall inside done
  · have identity := leftFactor_of_zero (m := m) pending
    rw [Judgement.loss_flushed verdict]
    refine before.column ?_ below (C := r'.columnTail m n k) ?_ ?_ (norm_columnTail_sq sized inside)
    · rw [identity]
      exact one_mem _
    · rw [identity, Matrix.conjTranspose_one, Matrix.one_mul, workMatrix_columnTail pending]
    · intro i j out
      rw [columnTail, Matrix.of_apply, if_neg out]
  · obtain ⟨positive, large⟩ := lt_sqrt_of_keep enough verdict
    have length : Tolerance.zero < r'.diag.getD k 0 := by
      rw [kept.diag, if_pos rfl]
      exact large
    have reflected := kept.image sized row positive length
    have unitary := (kept.reflects sized row positive).mem_unitary
    rw [Matrix.mul_sub, sub_eq_iff_eq_add] at reflected
    rw [Judgement.loss_kept verdict]
    refine before.column unitary below reflected (fun i j out => ?_) ?_
    · -- The skew stands in one place of column `k`, and the reflection moves rows from `k` on only.
      rw [leftFactor, reflector_conjTranspose_mul_apply length]
      by_cases col : (j : ℕ) = k
      · have above : ¬k ≤ (i : ℕ) := fun low => out ⟨low, col⟩
        rw [if_neg (by omega), tailFrom, if_neg above, mul_zero, sub_zero, pivotSkew, Matrix.of_apply,
          if_neg (by omega)]
      · have none : ∀ l : Fin m, r.pivotSkew m n k k l j = 0 := fun l => by
          rw [pivotSkew, Matrix.of_apply, if_neg (by omega)]
        simp [none]
    · rw [leftFactor, frobenius_unitary_mul (conjTranspose_mem_unitary unitary), norm_pivotSkew row inside]

private theorem rowPart_factorsTo (before : FactorsTo M left (r.workMatrix m n k (k + 1)) right k (k + 1) lost)
    (enough : Tolerance.zero ^ 2 ≤ rule.floor) (sized : r.Sized m n) (tall : n ≤ m) (inside : k + 1 < n)
    (pending : r.superDiag.getD (k + 1) 0 = 0) (done : r.rowPart rule k = some r') :
    FactorsTo M left (r'.workMatrix m n (k + 1) (k + 1)) (right * r'.rightFactor n k) (k + 1) (k + 1)
      (lost + Judgement.loss rule ⟨r.rowTailNormSq k, r.reflectors.entry k (k + 1)⟩) := by
  have beyond (l j : Fin n) (high : k + 1 ≤ (j : ℕ)) (low : (l : ℕ) < k + 1) : r'.rightFactor n k l j = 0 := by
    have turned : (r'.rightFactor n k)ᴴ j l = 0 := reflector_conjTranspose_apply_of_lt high low
    exact star_eq_zero.mp turned
  have row : k < m := (Nat.lt_of_succ_lt inside).trans_le tall
  obtain ⟨verdict, rfl⟩ | ⟨verdict, sized', kept⟩ := rowPart_cases sized tall inside done
  · have identity := rightFactor_of_zero (n := n) pending
    rw [Judgement.loss_flushed verdict]
    refine before.row ?_ beyond (C := r'.rowTail m n k) ?_ ?_ (norm_rowTail_sq sized row)
    · rw [identity]
      exact one_mem _
    · rw [identity, Matrix.mul_one, workMatrix_rowTail pending]
    · intro i j out
      rw [rowTail, Matrix.of_apply, if_neg out]
  · obtain ⟨positive, large⟩ := lt_sqrt_of_keep enough verdict
    have length : Tolerance.zero < r'.superDiag.getD (k + 1) 0 := by
      rw [kept.superDiag, if_pos rfl]
      exact large
    have reflected := kept.image sized inside positive length
    have unitary := (kept.reflects sized inside positive).mem_unitary
    rw [Matrix.sub_mul, sub_eq_iff_eq_add] at reflected
    rw [Judgement.loss_kept verdict]
    refine before.row unitary beyond reflected (fun i j out => ?_) ?_
    · rw [rightFactor, mul_reflector_apply length]
      by_cases here : (i : ℕ) = k
      · have before : ¬k + 1 ≤ (j : ℕ) := fun high => out ⟨here, high⟩
        rw [if_neg (by omega), tailFrom, if_neg before, star_zero, mul_zero, sub_zero, pivotSkew, Matrix.of_apply,
          if_neg (by omega)]
      · have none : ∀ l : Fin n, r.pivotSkew m n k (k + 1) i l = 0 := fun l => by
          rw [pivotSkew, Matrix.of_apply, if_neg (by omega)]
        simp [none]
    · rw [rightFactor, frobenius_mul_unitary unitary, norm_pivotSkew row inside]

end Run

/-- The last column has no row part, and after it no block is left. -/
theorem workMatrix_last (last : n ≤ k + 1) : r.workMatrix m n k (k + 1) = r.workMatrix m n (k + 1) (k + 1) := by
  ext i j
  simp only [workMatrix, Matrix.of_apply]
  rw [work_border (by omega), work_border (by omega)]

/-- A reduction is a product of unitary factors around its working matrix, up to entries whose
squares sum up to what was lost with the norms that it judged. -/
theorem upTo_factorsTo (enough : Tolerance.zero ^ 2 ≤ rule.floor) (shape : A.shape = (m, n)) (tall : n ≤ m)
    (inside : k ≤ n) (done : upTo rule A k = some r) :
    FactorsTo (A.toMatrix m n) (productBelow (r.leftFactor m) k) (r.workMatrix m n k k)
      (productBelow (r.rightFactor n) k) k k ((judgements rule A k).map (Judgement.loss rule)).sum := by
  induction k generalizing r with
  | zero =>
    cases done
    refine ⟨0, ?_, fun _ _ _ _ => rfl, ?_⟩
    · rw [productBelow, productBelow, Matrix.one_mul, Matrix.conjTranspose_one, Matrix.mul_one, add_zero]
      ext i j
      rw [workMatrix, Matrix.of_apply, work_inside (Nat.zero_le _) (Nat.zero_le _)]
      rfl
    · rw [norm_zero, zero_pow two_ne_zero]
      rfl
  | succ k ih =>
    obtain ⟨first, reached, stepped⟩ := Option.bind_eq_some_iff.mp done
    obtain ⟨middle, columns, part⟩ := step_parts stepped
    have sized := upTo_sized shape tall (Nat.le_of_lt inside) reached
    have sized' := columnPart_sized sized tall inside columns
    obtain ⟨diag, superDiag⟩ := upTo_pending shape tall (Nat.le_of_lt inside) reached
    have kept := step_preserved sized tall inside stepped
    have before := ih (Nat.le_of_lt inside) reached
    have pending : middle.superDiag.getD (k + 1) 0 = 0 := by
      rw [columnPart_superDiag sized tall inside columns, superDiag (k + 1) (Nat.lt_succ_self k)]
    have half := columnPart_factorsTo before enough sized tall inside (diag k le_rfl) columns
    have left : productBelow (r.leftFactor m) k = productBelow (first.leftFactor m) k :=
      productBelow_congr fun j earlier => leftFactor_congr kept earlier
    have right : productBelow (r.rightFactor n) k = productBelow (first.rightFactor n) k :=
      productBelow_congr fun j earlier => rightFactor_congr kept earlier
    rw [judgements_succ reached, stepJudgements_of_columnPart columns, productBelow, productBelow, left, right,
      List.map_append, List.map_cons, List.sum_append, List.sum_cons, ← add_assoc]
    obtain ⟨more, rows⟩ | ⟨last, rfl⟩ := part
    · have inside' : k + 1 < n := sized'.cols ▸ more
      have judged : middle.rowJudgements k = [⟨middle.rowTailNormSq k, middle.reflectors.entry k (k + 1)⟩] :=
        if_pos more
      rw [judged, List.map_singleton, List.sum_singleton, rowPart_leftFactor sized' tall inside' rows]
      exact rowPart_factorsTo half enough sized' tall inside' pending rows
    · have judged : r.rowJudgements k = [] := if_neg last
      have final : n ≤ k + 1 := not_lt.mp (sized'.cols ▸ last)
      rw [judged, rightFactor_of_zero pending]
      refine half.row (one_mem _) (C := 0) ?_ ?_ (fun _ _ _ => rfl) ?_
      · intro l j high low
        exact absurd j.isLt (by omega)
      · rw [Matrix.mul_one, add_zero, workMatrix_last final]
      · rw [norm_zero, zero_pow two_ne_zero]
        rfl

/-- Where no kept pivot is faint, the norms that were floored are all that is lost. -/
theorem sum_loss_of_clear {judged : List (Judgement ℝ)}
    (clear : ∀ judgement ∈ judged, rule.judge judgement.normSq = .keep → ¬judgement.Faint) :
    (judged.map (Judgement.loss rule)).sum = (floored rule judged).sum := by
  induction judged with
  | nil => rfl
  | cons judgement rest ih =>
    have here := clear judgement List.mem_cons_self
    rw [List.map_cons, List.sum_cons, ih fun other member => clear other (List.mem_cons_of_mem _ member),
      ← List.singleton_append, floored_append, List.sum_append]
    congr 1
    cases verdict : rule.judge judgement.normSq with
    | keep =>
      rw [Judgement.loss_kept verdict, floored_kept verdict, Cplx.skew_of_clear (here verdict), norm_zero,
        zero_pow two_ne_zero, List.sum_nil]
    | flush => rw [Judgement.loss_flushed verdict, floored_flushed verdict, List.sum_singleton]
    | refuse => simp [Judgement.loss, floored, verdict]

end Reduction
end BondSvd
