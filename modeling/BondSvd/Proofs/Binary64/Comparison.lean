import Mathlib
import BondSvd.Proofs.Binary64.Order

namespace BondSvd.Binary64
open Float.Model (UnpackedFloat)

/-- Where a number stands among the others; both zeros stand at the same place. -/
def rank : UnpackedFloat → ℤ ×ₗ ℤ ×ₗ ℤ
  | .infinity .negative => toLex (-2, toLex (0, 0))
  | .finite .negative m e _ => toLex (-1, toLex (-e, -m))
  | .notANumber => toLex (0, toLex (0, 0))
  | .zero _ => toLex (0, toLex (0, 0))
  | .finite .positive m e _ => toLex (1, toLex (e, m))
  | .infinity .positive => toLex (2, toLex (0, 0))

section Compare

theorem compare_lex {β γ : Type} [LinearOrder β] [LinearOrder γ] (a b : β) (x y : γ) :
    compare (toLex (a, x)) (toLex (b, y)) = (compare a b).then (compare x y) := rfl

private theorem compare_cast (m n : ℕ) : compare (m : ℤ) n = compare m n := by
  rcases lt_trichotomy m n with less | rfl | more
  · rw [compare_lt_iff_lt.mpr less, compare_lt_iff_lt.mpr (Int.ofNat_lt.mpr less)]
  · rw [compare_eq_iff_eq.mpr rfl, compare_eq_iff_eq.mpr rfl]
  · rw [compare_gt_iff_gt.mpr more, compare_gt_iff_gt.mpr (Int.ofNat_lt.mpr more)]

private theorem compare_neg (x y : ℤ) : compare (-x) (-y) = compare y x := by
  rcases lt_trichotomy x y with less | rfl | more
  · rw [compare_gt_iff_gt.mpr (neg_lt_neg less), compare_gt_iff_gt.mpr less]
  · rw [compare_eq_iff_eq.mpr rfl, compare_eq_iff_eq.mpr rfl]
  · rw [compare_lt_iff_lt.mpr (neg_lt_neg more), compare_lt_iff_lt.mpr more]

end Compare

section Unpacked
variable {u v : UnpackedFloat}

private theorem compare_rank (left : u.isNaN = false) (right : v.isNaN = false) :
    u.compare v = some (compare (rank u) (rank v)) := by
  rcases u with (_ | _) | _ | _ | ⟨_ | _, m, e, _⟩ <;> rcases v with (_ | _) | _ | _ | ⟨_ | _, n, f, _⟩
  case finite.positive.finite.positive =>
    rw [rank, rank, compare_lex, compare_lex, compare_cast]
    rfl
  case finite.negative.finite.negative =>
    have swapped : ((compare e f).then (compare m n)).swap = (compare f e).then (compare n m) := by
      rw [Ordering.swap_then, ← Std.OrientedCmp.eq_swap, ← Std.OrientedCmp.eq_swap]
    rw [rank, rank, compare_lex, compare_lex, compare_neg (e : ℤ) f, compare_neg (m : ℤ) n, compare_cast, ← swapped]
    rfl
  -- The other pairs differ in sign or in kind, or both are zeros.
  all_goals first | rfl | simp [UnpackedFloat.isNaN] at left right

private theorem compare_isNaN (undefined : u.isNaN = true ∨ v.isNaN = true) : u.compare v = none := by
  rcases u with s | _ | s | ⟨s, m, e, _⟩ <;> rcases v with t | _ | t | ⟨t, n, f, _⟩
  all_goals first | rfl | simp [UnpackedFloat.isNaN] at undefined

private theorem isNaN_of_not (undefined : ¬(u.isNaN = false ∧ v.isNaN = false)) : u.isNaN = true ∨ v.isNaN = true := by
  simpa [Bool.eq_false_iff, or_iff_not_imp_left] using undefined

theorem le_iff_rank : u.le v = true ↔ u.isNaN = false ∧ v.isNaN = false ∧ rank u ≤ rank v := by
  unfold UnpackedFloat.le
  by_cases numbers : u.isNaN = false ∧ v.isNaN = false
  · rw [compare_rank numbers.1 numbers.2, Option.any_some, Ordering.isLE_iff_ne_gt, ← ne_eq, compare_le_iff_le]
    simp [numbers]
  · rw [compare_isNaN (isNaN_of_not numbers)]
    exact iff_of_false (by decide) fun ranked => numbers ⟨ranked.1, ranked.2.1⟩

theorem lt_iff_rank : u.lt v = true ↔ u.isNaN = false ∧ v.isNaN = false ∧ rank u < rank v := by
  unfold UnpackedFloat.lt
  by_cases numbers : u.isNaN = false ∧ v.isNaN = false
  · rw [compare_rank numbers.1 numbers.2]
    simp [numbers, compare_lt_iff_lt]
  · rw [compare_isNaN (isNaN_of_not numbers)]
    exact iff_of_false (by decide) fun ranked => numbers ⟨ranked.1, ranked.2.1⟩

private theorem unsigned_neg (below : u.lt (.zero .positive) = true) : Unsigned u.neg = true := by
  rcases u with (_ | _) | _ | _ | ⟨_ | _, m, e, _⟩
  all_goals first | rfl | exact nomatch below

private theorem negative_lt {m : ℕ} {e : ℤ} {positive : 0 < m} (unsigned : Unsigned v = true) :
    (UnpackedFloat.finite .negative m e positive).lt v = true := by
  obtain rfl | ⟨s, rfl⟩ | ⟨n, f, positive', rfl⟩ := unsigned_cases unsigned <;> rfl

end Unpacked

variable {x y z : Float}

theorem le_trans (first : x ≤ y) (second : y ≤ z) : x ≤ z := by
  rw [le_iff, le_iff_rank] at *
  exact ⟨first.1, second.2.1, first.2.2.trans second.2.2⟩

theorem le_of_lt (less : x < y) : x ≤ y := by
  rw [lt_iff, lt_iff_rank] at less
  rw [le_iff, le_iff_rank]
  exact ⟨less.1, less.2.1, less.2.2.le⟩

theorem le_self_right (compared : x ≤ y) : y ≤ y := by
  rw [le_iff, le_iff_rank] at *
  exact ⟨compared.2.1, compared.2.1, le_rfl⟩

theorem le_of_not_lt (left : x ≤ x) (right : y ≤ y) (notLess : ¬x < y) : y ≤ x := by
  rw [lt_iff, lt_iff_rank] at notLess
  rw [le_iff, le_iff_rank] at *
  exact ⟨right.1, left.1, not_lt.mp fun less => notLess ⟨left.1, right.1, less⟩⟩

theorem neg_nonneg_of_neg (below : x < (Zero.zero : Float)) : (Zero.zero : Float) ≤ -x := by
  rw [lt_iff] at below
  rw [zero_le_iff]
  exact unsigned_pack (unsigned_neg below)

theorem neg_one_lt (nonneg : (Zero.zero : Float) ≤ x) : -(One.one : Float) < x := by
  have unpacked : (-(One.one : Float)).toModel.unpack = .finite .negative (2 ^ 52) (-52) (Nat.two_pow_pos 52) := rfl
  rw [zero_le_iff] at nonneg
  rw [lt_iff, unpacked]
  exact negative_lt nonneg

end BondSvd.Binary64
