import Mathlib
import BondSvd.Decomposition.Validation
import BondSvd.Proofs.Binary64.Comparison
import BondSvd.Proofs.Exact.Scalar

/-! What the order of the scalars has to satisfy for singular values to come out sorted. Nothing is
asked of sums, products, quotients or roots, so they may round as they like. -/
namespace BondSvd
universe u

/-- A linear order on the scalars that are comparable with themselves; finite ones are. The opposite
of a scalar below zero is not below zero, and the opposite of one is below all that are not. -/
class Ordered (α : Type u) [Scalar α] : Prop where
  le_trans : ∀ {x y z : α}, x ≤ y → y ≤ z → x ≤ z
  le_of_lt : ∀ {x y : α}, x < y → x ≤ y
  le_self_right : ∀ {x y : α}, x ≤ y → y ≤ y
  le_of_not_lt : ∀ {x y : α}, x ≤ x → y ≤ y → ¬x < y → y ≤ x
  le_self_of_finite : ∀ {x : α}, Scalar.isFinite x = true → x ≤ x
  finite_zero : Scalar.isFinite (0 : α) = true
  neg_nonneg : ∀ {x : α}, x < 0 → 0 ≤ -x
  neg_one_lt : ∀ {x : α}, 0 ≤ x → -1 < x

instance : Ordered Float where
  le_trans := Binary64.le_trans
  le_of_lt := Binary64.le_of_lt
  le_self_right := Binary64.le_self_right
  le_of_not_lt := Binary64.le_of_not_lt
  le_self_of_finite := Binary64.le_self_of_finite
  finite_zero := by decide +kernel
  neg_nonneg := Binary64.neg_nonneg_of_neg
  neg_one_lt := Binary64.neg_one_lt

instance : Ordered ℝ where
  le_trans := fun first second => first.trans second
  le_of_lt := fun less => less.le
  le_self_right _ := le_rfl
  le_of_not_lt _ _ := not_lt.mp
  le_self_of_finite _ := le_rfl
  finite_zero := rfl
  neg_nonneg below := neg_nonneg.mpr below.le
  neg_one_lt nonneg := neg_one_lt_zero.trans_le nonneg

variable {α : Type u} [Scalar α] [Ordered α]

private theorem Ordered.zero_le_zero : (0 : α) ≤ 0 := le_self_of_finite finite_zero

/-- A finite scalar that is not below zero is at least zero. -/
theorem Ordered.nonneg_of_finite {x : α} (finite : Scalar.isFinite x = true) (notBelow : ¬x < 0) : 0 ≤ x :=
  le_of_not_lt (le_self_of_finite finite) zero_le_zero notBelow

theorem isDescending_iff_pairwise {values : List α} :
    isDescending values = true ↔ (∀ x ∈ values, 0 ≤ x) ∧ values.Pairwise fun x y => y ≤ x := by
  have transitive : IsTrans α fun x y => y ≤ x := ⟨fun _ _ _ first second => Ordered.le_trans second first⟩
  have chain : ((values.zip values.tail).all fun pair => decide (pair.2 ≤ pair.1)) = true ↔
      values.Pairwise fun x y => y ≤ x := by
    rw [← List.isChain_iff_pairwise]
    induction values with
    | nil => simp
    | cons x rest ih =>
      cases rest with
      | nil => simp
      | cons y rest => simpa using fun _ => ih
  rw [isDescending, Bool.and_eq_true, chain]
  simp

end BondSvd
