import Mathlib
import BondSvd.DenseMatrix.Reflection
import BondSvd.Proofs.Exact.Lengths

namespace BondSvd
variable {c : ℝ}

namespace Scalar

theorem hypot_multiple (positive : 0 < c) (x y : ℝ) : Scalar.hypot (x * c) (y * c) = Scalar.hypot x y * c := by
  have factored : x * c * (x * c) + y * c * (y * c) = (x * x + y * y) * c ^ 2 := by ring
  change √(x * c * (x * c) + y * c * (y * c)) = √(x * x + y * y) * c
  rw [factored, Real.sqrt_mul' _ (sq_nonneg c), Real.sqrt_sq positive.le]

theorem sqrt_multiple (positive : 0 < c) (x : ℝ) : Scalar.sqrt (c ^ 2 * x) = Scalar.sqrt x * c := by
  rw [sqrt_exact, sqrt_exact, Real.sqrt_mul (sq_nonneg c), Real.sqrt_sq positive.le, mul_comm]

theorem abs_multiple (positive : 0 < c) (x : ℝ) : Scalar.abs (x * c) = Scalar.abs x * c := by
  rw [abs_exact, abs_exact, abs_mul, abs_of_pos positive]

end Scalar

namespace Cplx

theorem modulus_scale (positive : 0 < c) (x : Cplx ℝ) : (x.scale c).modulus = x.modulus * c :=
  Scalar.hypot_multiple positive x.re x.im

private theorem scale_zero (c : ℝ) : (0 : Cplx ℝ).scale c = 0 :=
  toComplex_inj (by simp)

theorem scale_scale (x : Cplx ℝ) (a b : ℝ) : (x.scale a).scale b = x.scale (a * b) :=
  toComplex_inj (by simp [mul_assoc])

theorem mul_scale (x y : Cplx ℝ) (a : ℝ) : x * y.scale a = (x * y).scale a :=
  toComplex_inj (by simp [mul_assoc])

theorem scale_mul (x y : Cplx ℝ) (a : ℝ) : x.scale a * y = (x * y).scale a :=
  toComplex_inj (by simp [mul_right_comm])

private theorem sub_scale (x y : Cplx ℝ) (a : ℝ) : x.scale a - y.scale a = (x - y).scale a :=
  toComplex_inj (by simp [sub_mul])

private theorem conj_scale_mul (x y : Cplx ℝ) (a b : ℝ) : (x.scale a).conj * y.scale b = (x.conj * y).scale (a * b) :=
  toComplex_inj (by simp [mul_mul_mul_comm])

/-- Of a factor for each operand one is divided out and the other one taken along. -/
theorem scale_unscale_scale (positive : 0 < c) (x : Cplx ℝ) (a divisor : ℝ) :
    ((x.scale (c * a)).unscale (c ^ 2 * divisor)).scale c = (x.unscale divisor).scale a := by
  have nonzero : (c : ℂ) ≠ 0 := Complex.ofReal_ne_zero.mpr positive.ne'
  refine toComplex_inj ?_
  simp only [toComplex_scale, toComplex_unscale, Complex.ofReal_mul, Complex.ofReal_pow]
  field_simp

theorem unscale_scale (positive : 0 < c) (x : Cplx ℝ) (divisor : ℝ) :
    (x.scale c).unscale (divisor * c) = x.unscale divisor := by
  have nonzero : (c : ℂ) ≠ 0 := Complex.ofReal_ne_zero.mpr positive.ne'
  refine toComplex_inj ?_
  rw [toComplex_unscale, toComplex_scale, toComplex_unscale, Complex.ofReal_mul, mul_div_mul_right _ _ nonzero]

private theorem sumFrom_scale (start count : ℕ) (f : ℕ → Cplx ℝ) (a : ℝ) :
    sumFrom start count (fun i => (f i).scale a) = (sumFrom start count f).scale a := by
  refine toComplex_inj ?_
  simp only [toComplex_sumFrom, toComplex_scale, Finset.sum_mul]

end Cplx

namespace DenseMatrix
variable {A : DenseMatrix ℝ} {w : ℕ → Cplx ℝ} {divisor : ℝ}

theorem entry_multiple (A : DenseMatrix ℝ) (c : ℝ) (i j : ℕ) : (A.scale c).entry i j = (A.entry i j).scale c := by
  by_cases inside : i < A.rows ∧ j < A.cols
  · exact entry_scale A c inside.1 inside.2
  · have outside : (A.scale c).entry i j = 0 := entry_outside inside
    rw [outside, entry_outside inside, Cplx.scale_zero]

theorem set_multiple (A : DenseMatrix ℝ) (c : ℝ) (i j : ℕ) (x : Cplx ℝ) :
    (A.set i j x).scale c = (A.scale c).set i j (x.scale c) := by
  have shape : (A.scale c).rows = A.rows ∧ (A.scale c).cols = A.cols := ⟨rfl, rfl⟩
  refine ext ((rows_set A i j x).trans (rows_set (A.scale c) i j _).symm)
    ((cols_set A i j x).trans (cols_set (A.scale c) i j _).symm) fun i' j' row col => ?_
  rw [entry_multiple]
  by_cases inside : i < A.rows ∧ j < A.cols
  · rw [entry_set A inside.1 inside.2, entry_set (A.scale c) (shape.1 ▸ inside.1) (shape.2 ▸ inside.2), entry_multiple]
    split <;> rfl
  · have same : A.set i j x = A := dif_neg inside
    have same' : (A.scale c).set i j (x.scale c) = A.scale c := dif_neg inside
    rw [same, same', entry_multiple]

/-- A reflection along a multiple of a vector is the reflection along the vector. -/
theorem columnWeight_multiple (positive : 0 < c) (A : DenseMatrix ℝ) (a : ℝ) (top j : ℕ) :
    ((A.scale a).columnWeight (fun i => (w i).scale c) (c ^ 2 * divisor) top j).scale c =
      (A.columnWeight w divisor top j).scale a := by
  have rows : (A.scale a).rows = A.rows := rfl
  have term (i : ℕ) : ((w i).scale c).conj * (A.scale a).entry i j = ((w i).conj * A.entry i j).scale (c * a) := by
    rw [entry_multiple, Cplx.conj_scale_mul]
  rw [columnWeight, columnWeight, rows]
  simp only [term, Cplx.sumFrom_scale]
  exact Cplx.scale_unscale_scale positive _ a divisor

private theorem rowWeight_multiple (positive : 0 < c) (A : DenseMatrix ℝ) (a : ℝ) (first i : ℕ) :
    ((A.scale a).rowWeight (fun j => (w j).scale c) (c ^ 2 * divisor) first i).scale c =
      (A.rowWeight w divisor first i).scale a := by
  have cols : (A.scale a).cols = A.cols := rfl
  have term (j : ℕ) : ((w j).scale c).conj * (A.scale a).entry i j = ((w j).conj * A.entry i j).scale (c * a) := by
    rw [entry_multiple, Cplx.conj_scale_mul]
  rw [rowWeight, rowWeight, cols]
  simp only [term, Cplx.sumFrom_scale]
  exact Cplx.scale_unscale_scale positive _ a divisor

theorem reflectLeft_multiple (positive : 0 < c) (A : DenseMatrix ℝ) (a : ℝ) (top first : ℕ) :
    (A.scale a).reflectLeft (fun i => (w i).scale c) (c ^ 2 * divisor) top first =
      (A.reflectLeft w divisor top first).scale a := by
  refine ext rfl rfl fun i j row col => ?_
  rw [entry_reflectLeft (A.scale a) _ _ _ _ row col, entry_multiple (A.reflectLeft w divisor top first),
    entry_reflectLeft A _ _ _ _ row col, entry_multiple]
  split
  · rw [Cplx.mul_scale, ← Cplx.scale_mul, columnWeight_multiple positive, Cplx.scale_mul, Cplx.sub_scale]
  · rfl

theorem reflectLeft_of_multiple (positive : 0 < c) (A : DenseMatrix ℝ) (top first : ℕ) :
    A.reflectLeft (fun i => (w i).scale c) (c ^ 2 * divisor) top first = A.reflectLeft w divisor top first := by
  rw [← scale_one (A.reflectLeft w divisor top first), ← reflectLeft_multiple positive, scale_one]

theorem reflectRight_multiple (positive : 0 < c) (A : DenseMatrix ℝ) (a : ℝ) (top first : ℕ) :
    (A.scale a).reflectRight (fun j => (w j).scale c) (c ^ 2 * divisor) top first =
      (A.reflectRight w divisor top first).scale a := by
  refine ext rfl rfl fun i j row col => ?_
  rw [entry_reflectRight (A.scale a) _ _ _ _ row col, entry_multiple (A.reflectRight w divisor top first),
    entry_reflectRight A _ _ _ _ row col, entry_multiple]
  split
  · rw [Cplx.mul_scale, ← Cplx.scale_mul, rowWeight_multiple positive, Cplx.scale_mul, Cplx.sub_scale]
  · rfl

theorem scaleRow_multiple (A : DenseMatrix ℝ) (c : ℝ) (row first : ℕ) (factor : Cplx ℝ) :
    (A.scale c).scaleRow row first factor = (A.scaleRow row first factor).scale c := by
  refine ext rfl rfl fun i j inRows inCols => ?_
  rw [entry_scaleRow (A.scale c) _ _ _ inRows inCols, entry_multiple (A.scaleRow row first factor),
    entry_scaleRow A _ _ _ inRows inCols, entry_multiple]
  split
  · rw [Cplx.mul_scale]
  · rfl

theorem scaleColumn_multiple (A : DenseMatrix ℝ) (c : ℝ) (top column : ℕ) (factor : Cplx ℝ) :
    (A.scale c).scaleColumn top column factor = (A.scaleColumn top column factor).scale c := by
  refine ext rfl rfl fun i j inRows inCols => ?_
  rw [entry_scaleColumn (A.scale c) _ _ _ inRows inCols, entry_multiple (A.scaleColumn top column factor),
    entry_scaleColumn A _ _ _ inRows inCols, entry_multiple]
  split
  · rw [Cplx.scale_mul]
  · rfl

end DenseMatrix
end BondSvd
