import Mathlib
import BondSvd.Cplx
import BondSvd.Sum
import BondSvd.Tolerance

namespace BondSvd

noncomputable instance exactScalar : Scalar ℝ where
  decLt := Classical.decRel _
  decLe := Classical.decRel _
  sqrt := Real.sqrt
  hypot x y := Real.sqrt (x * x + y * y)
  fma x y z := x * y + z
  isFinite _ := true

namespace Scalar

theorem sqrt_exact (x : ℝ) : Scalar.sqrt x = √x := rfl

theorem abs_exact (x : ℝ) : Scalar.abs x = |x| := by
  unfold Scalar.abs
  split
  · next negative => exact (abs_of_neg negative).symm
  · next positive => exact (abs_of_nonneg (not_lt.mp positive)).symm

theorem larger_exact (x y : ℝ) : Scalar.larger x y = max x y := by
  unfold Scalar.larger
  split
  · next less => exact (max_eq_right less.le).symm
  · next notLess =>
    rw [if_pos le_rfl]
    exact (max_eq_left (not_lt.mp notLess)).symm

theorem le_foldl_larger {ι : Type*} (indices : List ι) (f : ι → ℝ) (start : ℝ) :
    start ≤ indices.foldl (fun best i => Scalar.larger best (f i)) start := by
  induction indices generalizing start with
  | nil => exact le_rfl
  | cons i rest ih =>
    calc start ≤ Scalar.larger start (f i) := (le_max_left _ _).trans_eq (larger_exact ..).symm
      _ ≤ _ := ih _

theorem foldl_larger_le {ι : Type*} {indices : List ι} {f : ι → ℝ} {start bound : ℝ} (first : start ≤ bound)
    (each : ∀ i ∈ indices, f i ≤ bound) : indices.foldl (fun best i => Scalar.larger best (f i)) start ≤ bound := by
  induction indices generalizing start with
  | nil => exact first
  | cons i rest ih =>
    refine ih ?_ fun j member => each j (List.mem_cons_of_mem i member)
    exact (larger_exact ..).trans_le (max_le first (each i List.mem_cons_self))

theorem le_foldl_larger_of_mem {ι : Type*} {indices : List ι} {i : ι} (member : i ∈ indices) (f : ι → ℝ) (start : ℝ) :
    f i ≤ indices.foldl (fun best i => Scalar.larger best (f i)) start := by
  induction indices generalizing start with
  | nil => cases member
  | cons first rest ih =>
    obtain rfl | later := List.mem_cons.mp member
    · calc f i ≤ Scalar.larger start (f i) := (le_max_right _ _).trans_eq (larger_exact ..).symm
        _ ≤ _ := le_foldl_larger rest f _
    · exact ih later _

theorem foldl_larger_mul {ι : Type*} (indices : List ι) (f : ι → ℝ) (start : ℝ) {factor : ℝ} (nonneg : 0 ≤ factor) :
    indices.foldl (fun best i => Scalar.larger best (factor * f i)) (factor * start) =
      factor * indices.foldl (fun best i => Scalar.larger best (f i)) start := by
  induction indices generalizing start with
  | nil => rfl
  | cons i rest ih =>
    rw [List.foldl_cons, List.foldl_cons, ← ih, larger_exact, larger_exact, mul_max_of_nonneg _ _ nonneg]

theorem square_exact (x : ℝ) : Scalar.square x = x ^ 2 := (sq x).symm

theorem hypot_mul_self (x y : ℝ) : Scalar.hypot x y * Scalar.hypot x y = x * x + y * y :=
  Real.mul_self_sqrt (add_nonneg (mul_self_nonneg x) (mul_self_nonneg y))

theorem hypot_pos {x : ℝ} (present : x ≠ 0) (y : ℝ) : 0 < Scalar.hypot x y :=
  Real.sqrt_pos.mpr (add_pos_of_pos_of_nonneg (mul_self_pos.mpr present) (mul_self_nonneg y))

/-- Both sides over the length are the cosine and the sine of one angle. -/
theorem unit_of_hypot {x y : ℝ} (positive : 0 < Scalar.hypot x y) :
    x / Scalar.hypot x y * (x / Scalar.hypot x y) + y / Scalar.hypot x y * (y / Scalar.hypot x y) = 1 := by
  have length := hypot_mul_self x y
  field_simp
  linarith

theorem unit_of_hypot_turned {x y : ℝ} (positive : 0 < Scalar.hypot x y) :
    y / Scalar.hypot x y * (y / Scalar.hypot x y) + -x / Scalar.hypot x y * (-x / Scalar.hypot x y) = 1 := by
  rw [neg_div, neg_mul_neg, add_comm]
  exact unit_of_hypot positive

end Scalar

namespace Tolerance

theorem zero_pos : 0 < (Tolerance.zero : ℝ) := by
  unfold Tolerance.zero
  norm_num

theorem sign_pos : 0 < (Tolerance.sign : ℝ) := by
  unfold Tolerance.sign
  norm_num

theorem drift_pos : 0 < (Tolerance.drift : ℝ) := by
  unfold Tolerance.drift
  norm_num

end Tolerance

namespace Cplx

/-- The complex number with these parts. -/
def toComplex (x : Cplx ℝ) : ℂ := ⟨x.re, x.im⟩

theorem re_toComplex (x : Cplx ℝ) : x.toComplex.re = x.re := rfl
theorem im_toComplex (x : Cplx ℝ) : x.toComplex.im = x.im := rfl

theorem toComplex_inj {x y : Cplx ℝ} (same : x.toComplex = y.toComplex) : x = y := by
  obtain ⟨a, b⟩ := x
  obtain ⟨c, d⟩ := y
  obtain ⟨rfl, rfl⟩ := Complex.mk.inj same
  rfl

@[simp] theorem toComplex_zero : (0 : Cplx ℝ).toComplex = 0 := rfl
@[simp] theorem toComplex_one : (1 : Cplx ℝ).toComplex = 1 := rfl
@[simp] theorem toComplex_add (x y : Cplx ℝ) : (x + y).toComplex = x.toComplex + y.toComplex := rfl
@[simp] theorem toComplex_sub (x y : Cplx ℝ) : (x - y).toComplex = x.toComplex - y.toComplex := rfl
@[simp] theorem toComplex_neg (x : Cplx ℝ) : (-x).toComplex = -x.toComplex := rfl

@[simp] theorem toComplex_mul (x y : Cplx ℝ) : (x * y).toComplex = x.toComplex * y.toComplex := by
  apply Complex.ext <;> simp [re_toComplex, im_toComplex, mul_re, mul_im]

@[simp] theorem toComplex_conj (x : Cplx ℝ) : x.conj.toComplex = star x.toComplex := rfl

@[simp] theorem toComplex_ofScalar (x : ℝ) : (ofScalar x).toComplex = x := rfl

@[simp] theorem toComplex_scale (x : Cplx ℝ) (factor : ℝ) :
    (x.scale factor).toComplex = x.toComplex * factor := by
  apply Complex.ext <;> simp [re_toComplex, im_toComplex, scale]

@[simp] theorem toComplex_unscale (x : Cplx ℝ) (divisor : ℝ) :
    (x.unscale divisor).toComplex = x.toComplex / divisor := by
  apply Complex.ext <;> simp [re_toComplex, im_toComplex, unscale, Complex.div_ofReal_re,
    Complex.div_ofReal_im]

theorem normSq_exact (x : Cplx ℝ) : x.normSq = ‖x.toComplex‖ ^ 2 := by
  rw [Complex.sq_norm, Complex.normSq_apply]
  rfl

theorem normSq_nonneg (x : Cplx ℝ) : 0 ≤ x.normSq := x.normSq_exact ▸ sq_nonneg _

@[simp] theorem normSq_zero : (0 : Cplx ℝ).normSq = 0 := by
  rw [normSq_exact, toComplex_zero, norm_zero, zero_pow two_ne_zero]

theorem normSq_scale (x : Cplx ℝ) (factor : ℝ) : (x.scale factor).normSq = factor ^ 2 * x.normSq := by
  rw [normSq, normSq, scale]
  ring

theorem normSq_conj (x : Cplx ℝ) : x.conj.normSq = x.normSq := by
  rw [normSq_exact, normSq_exact, toComplex_conj, norm_star]

theorem modulus_exact (x : Cplx ℝ) : x.modulus = ‖x.toComplex‖ := by
  rw [Complex.norm_def, Complex.normSq_apply]
  rfl

end Cplx

theorem sumFrom_exact (start count : ℕ) (f : ℕ → ℝ) :
    sumFrom start count f = ∑ i ∈ Finset.range count, f (start + i) := by
  induction count with
  | zero => rfl
  | succ count ih => rw [sumFrom_succ, ih, Finset.sum_range_succ]

theorem toComplex_sumFrom (start count : ℕ) (f : ℕ → Cplx ℝ) :
    (sumFrom start count f).toComplex = ∑ i ∈ Finset.range count, (f (start + i)).toComplex := by
  induction count with
  | zero => rfl
  | succ count ih => rw [sumFrom_succ, Cplx.toComplex_add, ih, Finset.sum_range_succ]

theorem sum_tail {M : Type*} [AddCommMonoid M] (start extent : ℕ) (f : ℕ → M) :
    ∑ i ∈ Finset.range (extent - start), f (start + i) =
      ∑ i : Fin extent, if start ≤ (i : ℕ) then f i else 0 := by
  have tail : (Finset.range extent).filter (start ≤ ·) = Finset.Ico start extent := by
    ext i
    simp only [Finset.mem_filter, Finset.mem_range, Finset.mem_Ico]
    omega
  rw [← Finset.sum_Ico_eq_sum_range, ← tail, Finset.sum_filter,
    Finset.sum_range fun i => if start ≤ i then f i else 0]

theorem total_exact (values : List ℝ) : total values = values.sum := by
  induction values using List.reverseRecOn with
  | nil => rfl
  | append_singleton values last ih => rw [total_append_singleton, ih, List.sum_append, List.sum_singleton]

end BondSvd
