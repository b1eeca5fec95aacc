import Mathlib
import BondSvd.Binary64.Scalar

/-! Binary64 passes on what is infinite or not a number: an operation with such an operand never
has a finite result, apart from a quotient by infinity. Proved from the logical model of floats,
where an operation unpacks its operands, computes, and packs what it rounds to. -/
namespace BondSvd.Binary64
open Float.Model (UnpackedFloat Format)
open Float.Model.UnpackedFloat (Sign)

section Unpacked
variable {u v : UnpackedFloat}

private theorem unpacked_add_finite (finite : (UnpackedFloat.add Format.binary64 u v).isFinite = true) :
    u.isFinite = true ∧ v.isFinite = true := by
  rcases u with s | _ | s | ⟨s, m, e, _⟩ <;> rcases v with t | _ | t | ⟨t, n, f, _⟩
  case infinity.infinity => cases s <;> cases t <;> cases finite
  all_goals first | exact ⟨rfl, rfl⟩ | cases finite

private theorem unpacked_sub_finite (finite : (UnpackedFloat.sub Format.binary64 u v).isFinite = true) :
    u.isFinite = true ∧ v.isFinite = true := by
  rcases u with s | _ | s | ⟨s, m, e, _⟩ <;> rcases v with t | _ | t | ⟨t, n, f, _⟩
  case infinity.infinity => cases s <;> cases t <;> cases finite
  all_goals first | exact ⟨rfl, rfl⟩ | cases finite

private theorem unpacked_mul_finite (finite : (UnpackedFloat.mul Format.binary64 u v).isFinite = true) :
    u.isFinite = true ∧ v.isFinite = true := by
  rcases u with s | _ | s | ⟨s, m, e, _⟩ <;> rcases v with t | _ | t | ⟨t, n, f, _⟩
  all_goals first | exact ⟨rfl, rfl⟩ | cases finite

private theorem unpacked_sqrt_finite (finite : (UnpackedFloat.sqrt Format.binary64 u).isFinite = true) :
    u.isFinite = true := by
  rcases u with s | _ | s | ⟨s, m, e, _⟩
  case infinity => cases s <;> cases finite
  all_goals first | rfl | cases finite

private theorem unpacked_neg_finite (finite : u.neg.isFinite = true) : u.isFinite = true := by
  cases u <;> first | rfl | cases finite

theorem isFinite_of_pack (finite : (Float.Model.pack u).unpack.isFinite = true) : u.isFinite = true := by
  cases u with
  | notANumber => exact finite
  | infinity s => cases s <;> exact finite
  | zero s => rfl
  | finite s m e positive => rfl

end Unpacked

variable {x y : Float}

theorem add_finite (finite : (x + y).isFinite = true) : x.isFinite = true ∧ y.isFinite = true :=
  unpacked_add_finite (isFinite_of_pack finite)

theorem sub_finite (finite : (x - y).isFinite = true) : x.isFinite = true ∧ y.isFinite = true :=
  unpacked_sub_finite (isFinite_of_pack finite)

theorem mul_finite (finite : (x * y).isFinite = true) : x.isFinite = true ∧ y.isFinite = true :=
  unpacked_mul_finite (isFinite_of_pack finite)

theorem neg_finite (finite : (-x).isFinite = true) : x.isFinite = true :=
  unpacked_neg_finite (isFinite_of_pack finite)

theorem finite_of_sqrt (finite : (Float.sqrt x).isFinite = true) : x.isFinite = true :=
  unpacked_sqrt_finite (isFinite_of_pack finite)

theorem isFinite_iff : x.isFinite = true ↔ x.isInf = false ∧ x.isNaN = false := by
  change x.toModel.unpack.isFinite = true ↔ x.toModel.unpack.isInf = false ∧ x.toModel.unpack.isNaN = false
  cases x.toModel.unpack <;> simp [UnpackedFloat.isFinite, UnpackedFloat.isInf, UnpackedFloat.isNaN]

/-- An infinite side makes a length infinite, and one that is no number leaves no number. -/
theorem hypot_finite (finite : (hypot x y).isFinite = true) : x.isFinite = true ∧ y.isFinite = true := by
  unfold hypot at finite
  split at finite
  · have infinite : (1.0 / 0.0 : Float).isFinite = false := by decide +kernel
    rw [infinite] at finite
    cases finite
  · split at finite
    · exact add_finite finite
    · simp_all [isFinite_iff]

end BondSvd.Binary64
