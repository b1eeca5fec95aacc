import Mathlib
import BondSvd.Proofs.Binary64.Comparison

namespace BondSvd.Binary64
open Float.Model (UnpackedFloat)
open Float.Model.UnpackedFloat (Sign ExtendedMantissa)
variable {s : Sign} {m : ℕ} {e : ℤ} {x : Float}

section Cut

private theorem repeat_shiftRightOne (n : ℕ) (em : ExtendedMantissa) :
    (n.repeat ExtendedMantissa.shiftRightOne em).mantissa = em.mantissa / 2 ^ n := by
  induction n with
  | zero => exact (Nat.div_one _).symm
  | succ n ih =>
    change (n.repeat ExtendedMantissa.shiftRightOne em).mantissa / 2 = _
    rw [ih, Nat.div_div_eq_div_mul, pow_succ]

/-- The digits before the point, with zeros up to it. -/
def wholePart (m : ℕ) (e : ℤ) : ℕ := m * 2 ^ e.toNat / 2 ^ (-e).toNat

private theorem roundToInt_eq : UnpackedFloat.roundToInt s m e = s.apply (wholePart m e) := by
  have left : (e - 0).toNat = e.toNat := by rw [sub_zero]
  have right : (0 - (e - e.toNat)).toNat = (-e).toNat := by omega
  simp only [UnpackedFloat.roundToInt, UnpackedFloat.decreaseExponent, UnpackedFloat.shiftToExponent, left, right,
    Nat.shiftLeft_eq]
  exact congrArg (fun n : ℕ => s.apply n) (repeat_shiftRightOne _ _)

/-- Numbers with all their digits are ranked by the exponent first, and so are their whole parts. -/
theorem wholePart_lt_iff (digits : m < 2 ^ 53) (full : -1074 < e → 2 ^ 52 ≤ m) :
    wholePart m e < 2 ^ 31 ↔ toLex (e, (m : ℤ)) < toLex (-21, 2 ^ 52) := by
  rw [wholePart, Nat.div_lt_iff_lt_mul (Nat.two_pow_pos _), Prod.Lex.toLex_lt_toLex]
  -- The digits only decide at the exponent of the bound, which is `2 ^ 52` times `2 ^ (-21)`.
  rcases lt_trichotomy e (-21) with below | rfl | above
  · refine iff_of_true ?_ (.inl below)
    have whole : e.toNat = 0 := by omega
    rw [whole, pow_zero, mul_one]
    calc m < 2 ^ 31 * 2 ^ 22 := digits
      _ ≤ 2 ^ 31 * 2 ^ (-e).toNat := Nat.mul_le_mul_left _ (Nat.pow_le_pow_right two_pos (by omega))
  · change m * 1 < 2 ^ 31 * 2 ^ 21 ↔ _
    omega
  · refine iff_of_false (not_lt.mpr ?_) (by dsimp only; omega)
    calc 2 ^ 31 * 2 ^ (-e).toNat ≤ 2 ^ 31 * 2 ^ 21 :=
          Nat.mul_le_mul_left _ (Nat.pow_le_pow_right two_pos (by omega))
      _ ≤ m := full (by omega)
      _ ≤ m * 2 ^ e.toNat := Nat.le_mul_of_pos_right m (Nat.two_pow_pos _)

end Cut

private theorem toNat_ofNatClamp_lt_iff {n k : ℕ} (word : k < 2 ^ 64) : (UInt64.ofNatClamp n).toNat < k ↔ n < k := by
  have size : UInt64.size = 2 ^ 64 := rfl
  by_cases fits : n < UInt64.size
  · rw [UInt64.toNat_ofNatClamp_of_lt fits]
  · rw [UInt64.ofNatClamp, dif_neg fits]
    change UInt64.size - 1 < k ↔ _
    omega

/-- A number is cut to less than two to the thirty-first if and only if it is less, or none at all. -/
theorem toUInt64_lt_iff : x.toUInt64.toNat < 2 ^ 31 ↔ ¬(2147483648 : Float) ≤ x := by
  have bound : (2147483648 : Float).toModel.unpack = .finite .positive (2 ^ 52) (-21) (Nat.two_pow_pos 52) := rfl
  rw [le_iff, bound, le_iff_rank]
  change (UInt64.ofNatClamp (x.toModel.unpack.toInt 0 (UInt64.size - 1)).toNat).toNat < 2 ^ 31 ↔ _
  rw [toNat_ofNatClamp_lt_iff (by decide)]
  cases unpacked : x.toModel.unpack with
  | notANumber => exact iff_of_true (by decide) fun ranked => Bool.noConfusion ranked.2.1
  | infinity s => cases s <;> decide
  | zero s => cases s <;> decide
  | finite s m e positive =>
    obtain ⟨digits, -, full⟩ := unpack_canonical unpacked
    have less := wholePart_lt_iff digits full
    rw [UnpackedFloat.toInt, roundToInt_eq]
    cases s with
    | negative =>
      refine iff_of_true ?_ fun ranked => absurd ranked.2.2 (not_le.mpr ?_)
      · change (-(wholePart m e : ℤ)).toNat < 2 ^ 31
        omega
      · exact Prod.Lex.toLex_lt_toLex.mpr (.inl (show (-1 : ℤ) < 1 by decide))
    | positive =>
      change wholePart m e < 2 ^ 31 ↔ _
      rw [less, ← not_le]
      refine not_congr ?_
      simp [rank, UnpackedFloat.isNaN, Prod.Lex.toLex_le_toLex]

end BondSvd.Binary64
