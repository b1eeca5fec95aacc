import Mathlib
import BondSvd.DenseMatrix.Algebra
import BondSvd.DenseMatrix.Reflection
import BondSvd.Proofs.Binary64.NonFinite
import BondSvd.Proofs.Binary64.Order
import BondSvd.Proofs.Iteration.Writes

namespace BondSvd
universe u

/-- Arithmetic whose finite results come from finite operands. What is no number is not even
comparable with itself, and a value out of range compares as one that is very large. -/
class Propagating (α : Type u) [Scalar α] : Prop where
  zero : Scalar.isFinite (0 : α) = true
  add : ∀ {x y : α}, Scalar.isFinite (x + y) = true → Scalar.isFinite x = true ∧ Scalar.isFinite y = true
  sub : ∀ {x y : α}, Scalar.isFinite (x - y) = true → Scalar.isFinite x = true ∧ Scalar.isFinite y = true
  mul : ∀ {x y : α}, Scalar.isFinite (x * y) = true → Scalar.isFinite x = true ∧ Scalar.isFinite y = true
  neg : ∀ {x : α}, Scalar.isFinite (-x) = true → Scalar.isFinite x = true
  hypot : ∀ {x y : α}, Scalar.isFinite (Scalar.hypot x y) = true →
    Scalar.isFinite x = true ∧ Scalar.isFinite y = true
  root : ∀ {x : α}, Scalar.isFinite (Scalar.sqrt x) = true → Scalar.isFinite x = true
  sqrt : ∀ {x : α}, 0 ≤ x → Scalar.isFinite x = true → Scalar.isFinite (Scalar.sqrt x) = true
  bounded : ∀ {x y : α}, Scalar.abs x ≤ y → Scalar.isFinite y = true → Scalar.isFinite x = true
  le_self : ∀ {x : α}, Scalar.isFinite x = true → x ≤ x
  le_self_add : ∀ {x y : α}, x + y ≤ x + y → x ≤ x ∧ y ≤ y
  square_nonneg : ∀ {x : α}, x * x ≤ x * x → 0 ≤ x * x
  add_nonneg : ∀ {x y : α}, 0 ≤ x → 0 ≤ y → 0 ≤ x + y
  zero_nonneg : (0 : α) ≤ 0
  lt : ∀ {x y : α}, 0 ≤ x → ¬Scalar.isFinite x = true → Scalar.isFinite y = true → y < x

namespace Binary64

instance : Propagating Float where
  zero := by decide +kernel
  add := add_finite
  sub := sub_finite
  mul := mul_finite
  neg := neg_finite
  hypot := hypot_finite
  root := finite_of_sqrt
  sqrt := sqrt_finite
  bounded := finite_of_abs_le
  le_self := le_self_of_finite
  le_self_add := le_self_of_add
  square_nonneg := square_nonneg
  add_nonneg := add_nonneg
  zero_nonneg := by decide +kernel
  lt := lt_of_not_finite

end Binary64

variable {α : Type u} [Scalar α]

/-- Neither part is infinite or no number. -/
def Cplx.Finite (x : Cplx α) : Prop := Scalar.isFinite x.re = true ∧ Scalar.isFinite x.im = true

/-- Every entry is finite. -/
def DenseMatrix.Finite (A : DenseMatrix α) : Prop := ∀ i j, i < A.rows → j < A.cols → (A.entry i j).Finite

/-- The real parts of all entries are finite; reading outside the shape gives zero. -/
def DenseMatrix.FiniteReal (A : DenseMatrix α) : Prop := ∀ i j, Scalar.isFinite (A.entry i j).re = true

instance (x : Cplx α) : Decidable x.Finite := inferInstanceAs (Decidable (_ ∧ _))

section Laws
variable [Propagating α] {x y : Cplx α} {factor : α}

theorem Cplx.Finite.of_sub (finite : (x - y).Finite) : x.Finite ∧ y.Finite :=
  ⟨⟨(Propagating.sub finite.1).1, (Propagating.sub finite.2).1⟩,
    ⟨(Propagating.sub finite.1).2, (Propagating.sub finite.2).2⟩⟩

theorem Cplx.Finite.of_mul (finite : (x * y).Finite) : x.Finite ∧ y.Finite := by
  obtain ⟨first, second⟩ := Propagating.sub finite.1
  exact ⟨⟨(Propagating.mul first).1, (Propagating.mul second).1⟩,
    ⟨(Propagating.mul first).2, (Propagating.mul second).2⟩⟩

theorem Cplx.Finite.of_neg_im (finite : x.conj.Finite) : x.Finite := ⟨finite.1, Propagating.neg finite.2⟩

theorem Cplx.Finite.of_scale (finite : (x.scale factor).Finite) : x.Finite :=
  ⟨(Propagating.mul finite.1).1, (Propagating.mul finite.2).1⟩

theorem Cplx.Finite.of_normSq (finite : Scalar.isFinite x.normSq = true) : x.Finite := by
  obtain ⟨real, imaginary⟩ := Propagating.add finite
  exact ⟨(Propagating.mul real).1, (Propagating.mul imaginary).1⟩

/-- Every term of a finite sum is finite. -/
theorem finite_of_sumFrom {f : Nat → α} {start count : Nat} (finite : Scalar.isFinite (sumFrom start count f) = true)
    {i : Nat} (low : start ≤ i) (high : i < start + count) : Scalar.isFinite (f i) = true := by
  induction count with
  | zero => exact absurd high (by omega)
  | succ count ih =>
    obtain ⟨earlier, last⟩ := Propagating.add finite
    by_cases end' : i = start + count
    · rw [end']
      exact last
    · exact ih earlier (by omega)

theorem finite_getD_iff {values : Array α} :
    (∀ k, Scalar.isFinite (values.getD k 0) = true) ↔ ∀ value ∈ values, Scalar.isFinite value = true :=
  forall_getD_iff (P := fun x => Scalar.isFinite x = true) Propagating.zero

/-- A sum of squared moduli that is a number at all is not below zero. -/
theorem sumFrom_normSq_nonneg {f : Nat → Cplx α} {start count : Nat}
    (number : sumFrom start count (fun i => (f i).normSq) ≤ sumFrom start count fun i => (f i).normSq) :
    0 ≤ sumFrom start count fun i => (f i).normSq := by
  induction count with
  | zero => exact Propagating.zero_nonneg
  | succ count ih =>
    obtain ⟨earlier, last⟩ := Propagating.le_self_add number
    obtain ⟨real, imaginary⟩ := Propagating.le_self_add last
    exact Propagating.add_nonneg (ih earlier)
      (Propagating.add_nonneg (Propagating.square_nonneg real) (Propagating.square_nonneg imaginary))

theorem DenseMatrix.Finite.of_adjoint {A : DenseMatrix α} (finite : A.adjoint.Finite) : A.Finite := by
  intro i j row col
  have entry := finite j i col row
  rw [DenseMatrix.entry_adjoint A col row] at entry
  exact entry.of_neg_im

theorem DenseMatrix.Finite.of_scale {A : DenseMatrix α} (finite : (A.scale factor).Finite) : A.Finite := by
  intro i j row col
  have entry := finite i j row col
  rw [DenseMatrix.entry_scale A factor row col] at entry
  exact entry.of_scale

namespace DenseMatrix
variable {A : DenseMatrix α}

theorem Finite.real (finite : A.Finite) : A.FiniteReal := by
  intro i j
  by_cases inside : i < A.rows ∧ j < A.cols
  · exact (finite i j inside.1 inside.2).1
  · rw [entry_outside inside]
    exact Propagating.zero

/-- Columns are combined one row after the other, and each new pair has both old entries in it. -/
theorem FiniteReal.of_combineColumns {p q : Nat} {f g : Cplx α → Cplx α → Cplx α}
    (first : ∀ x y, Scalar.isFinite (f x y).re = true → Scalar.isFinite x.re = true)
    (second : ∀ x y, (p = q → x = y) → Scalar.isFinite (g x y).re = true → Scalar.isFinite y.re = true) {lead : Nat}
    (finite : (A.combineColumns p q f g lead).FiniteReal) : A.FiniteReal := by
  induction lead generalizing A with
  | zero => exact finite
  | succ i ih =>
    have pair := ih finite
    intro r c
    by_cases inside : r < A.rows ∧ c < A.cols
    · have entry := pair r c
      by_cases last : r = i ∧ c = q
      · obtain ⟨rfl, rfl⟩ := last
        rw [entry_set _ (by rw [rows_set]; exact inside.1) (by rw [cols_set]; exact inside.2), if_pos ⟨rfl, rfl⟩]
          at entry
        exact second _ _ (fun same => by rw [same]) entry
      · rw [entry_set_of_not _ last] at entry
        by_cases here : r = i ∧ c = p
        · obtain ⟨rfl, rfl⟩ := here
          rw [entry_set A inside.1 inside.2, if_pos ⟨rfl, rfl⟩] at entry
          exact first _ _ entry
        · rwa [entry_set_of_not _ here] at entry
    · rw [entry_outside inside]
      exact Propagating.zero

theorem FiniteReal.of_rotateColumns {lead p q : Nat} {cos sin : α} (finite : (A.rotateColumns lead p q cos sin).FiniteReal) :
    A.FiniteReal := by
  refine of_combineColumns (fun x y mixed => ?_) (fun x y _ mixed => ?_) finite
  · exact (Propagating.mul (Propagating.add mixed).1).1
  · exact (Propagating.mul (Propagating.sub mixed).1).1

theorem FiniteReal.of_negateColumn {lead j : Nat} (finite : (A.negateColumn lead j).FiniteReal) : A.FiniteReal :=
  of_combineColumns (fun _ _ opposite => Propagating.neg opposite)
    (fun _ _ same opposite => same rfl ▸ Propagating.neg opposite) finite

end DenseMatrix

end Laws
end BondSvd
