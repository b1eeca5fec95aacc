import Mathlib
import BondSvd.Binary64.Scalar

namespace BondSvd.Binary64
open Float.Model (UnpackedFloat Format totalExponent)
open Float.Model.UnpackedFloat (Sign packComponents Accuracy ExtendedMantissa)

section Pack
variable {s : Sign} {m : ℕ} {e : ℤ}

private theorem unpackSign_packComponents {exponent : BitVec 11} {mantissa : BitVec 52} :
    Sign.ofBitVec (UnpackedFloat.unpackSign (packComponents Format.binary64 s exponent mantissa)) = s := by
  simp only [UnpackedFloat.unpackSign, packComponents, BitVec.extractLsb]
  rw [BitVec.extractLsb'_append_eq_of_le (by omega), BitVec.extractLsb'_append_eq_of_le (by omega)]
  cases s <;> rfl

private theorem exponent_ne_top {n : ℕ} (small : ¬2 ^ 11 ≤ n + 1) : BitVec.ofNat 11 n ≠ -1#11 := by
  intro top
  have value := congrArg BitVec.toNat top
  simp [BitVec.toNat_ofNat] at value
  omega

private theorem unpack_below_top {exponent : BitVec 11} {mantissa : BitVec 52} (below : exponent ≠ -1#11) :
    UnpackedFloat.unpack Format.binary64 (packComponents Format.binary64 s exponent mantissa) = .zero s ∨
      ∃ n f positive, UnpackedFloat.unpack Format.binary64 (packComponents Format.binary64 s exponent mantissa) =
        .finite s n f positive := by
  simp only [UnpackedFloat.unpack, UnpackedFloat.unpackMantissa_packComponents,
    UnpackedFloat.unpackExponent_packComponents, unpackSign_packComponents, if_neg below]
  split
  · split
    · exact .inl rfl
    · next some => exact .inr ⟨_, _, by simpa [BitVec.toNat_pos, BitVec.pos_iff_ne_zero] using some, rfl⟩
  · refine .inr ⟨_, _, ?_, rfl⟩
    rw [BitVec.toNat_append, ← Nat.shiftLeft_add_eq_or_of_lt mantissa.isLt]
    exact Nat.add_pos_left (by decide) _

/-- A finite number packs to one of its sign, or overflows to the infinity of its sign. -/
theorem unpack_pack_finite (positive : 0 < m) :
    ((Float.Model.pack (.finite s m e positive)).unpack = .infinity s ∧ 971 < e) ∨
      (Float.Model.pack (.finite s m e positive)).unpack = .zero s ∨
      ∃ n f positive', (Float.Model.pack (.finite s m e positive)).unpack = .finite s n f positive' := by
  have bias : (Format.binary64.exponentBias : ℤ) = 1023 := rfl
  have bits : (Format.binary64.mantissaBitsWithoutImplicit : ℤ) = 52 := rfl
  change (UnpackedFloat.unpack Format.binary64 (UnpackedFloat.pack Format.binary64 _) = _ ∧ _) ∨
    UnpackedFloat.unpack Format.binary64 (UnpackedFloat.pack Format.binary64 _) = _ ∨
    ∃ n f positive', UnpackedFloat.unpack Format.binary64 (UnpackedFloat.pack Format.binary64 _) = _
  unfold UnpackedFloat.pack
  dsimp only
  split
  · next large =>
    refine .inl ⟨by cases s <;> rfl, ?_⟩
    rw [bias, bits] at large
    omega
  · next small =>
    right
    split
    · exact unpack_below_top (exponent_ne_top small)
    · exact unpack_below_top (by decide)

/-- The digits and the exponent of a stored number are bounded, and there are as many digits as there can be,
but for the least exponent. -/
theorem unpack_canonical {x : Float.Model} {positive : 0 < m} (unpacked : x.unpack = .finite s m e positive) :
    m < 2 ^ 53 ∧ e ≤ 971 ∧ (-1074 < e → 2 ^ 52 ≤ m) := by
  have bias : (Format.binary64.exponentBias : ℤ) = 1023 := rfl
  have bits : (Format.binary64.mantissaBitsWithoutImplicit : ℤ) = 52 := rfl
  unfold Float.Model.unpack at unpacked
  generalize x.toBits.toBitVec = b at unpacked
  simp only [UnpackedFloat.unpack] at unpacked
  have exponent : (@UnpackedFloat.unpackExponent Format.binary64 b).toNat < 2 ^ 11 :=
    (@UnpackedFloat.unpackExponent Format.binary64 b).isLt
  have mantissa : (@UnpackedFloat.unpackMantissa Format.binary64 b).toNat < 2 ^ 52 :=
    (@UnpackedFloat.unpackMantissa Format.binary64 b).isLt
  split at unpacked
  · split at unpacked <;> cases unpacked
  · next below =>
    have notTop : (@UnpackedFloat.unpackExponent Format.binary64 b).toNat ≠ 2047 := fun top =>
      below (BitVec.eq_of_toNat_eq top)
    split at unpacked
    · next subnormal =>
      have zero : (@UnpackedFloat.unpackExponent Format.binary64 b).toNat = 0 := congrArg BitVec.toNat subnormal
      split at unpacked
      · cases unpacked
      · obtain ⟨-, rfl, rfl⟩ := UnpackedFloat.finite.inj unpacked
        rw [bias, bits]
        refine ⟨?_, ?_, ?_⟩ <;> omega
    · obtain ⟨-, rfl, rfl⟩ := UnpackedFloat.finite.inj unpacked
      rw [bias, bits]
      refine ⟨?_, by omega, fun _ => ?_⟩
      · exact (BitVec.isLt _).trans_le (by decide)
      · rw [BitVec.toNat_append, ← Nat.shiftLeft_add_eq_or_of_lt (BitVec.isLt _)]
        exact Nat.le_add_right _ _

end Pack

section Rounding

/-- Bringing a number to its target exponent raises the exponent no further than needed. -/
theorem shift_exponent_le (m : ℕ) (e : ℤ) (accuracy : Accuracy) :
    (UnpackedFloat.shiftToTargetExponent Format.binary64 m e accuracy).2 ≤
      max e (max (m.log2 + e - 52) (-1074)) := by
  have bits : (Format.binary64.mantissaBits : ℤ) = 53 := rfl
  have least : Format.binary64.minExponent = -1074 := rfl
  simp only [UnpackedFloat.shiftToTargetExponent, UnpackedFloat.shiftToExponent, Format.targetExponent,
    totalExponent, bits, least]
  omega

private theorem shift_mantissa_le (m : ℕ) (e : ℤ) (accuracy : Accuracy) :
    (UnpackedFloat.shiftToTargetExponent Format.binary64 m e accuracy).1.mantissa ≤ m := by
  have start : (ExtendedMantissa.ofMantissaAndAccuracy m accuracy).mantissa = m := by
    unfold ExtendedMantissa.ofMantissaAndAccuracy
    split <;> rfl
  have shifts (n : ℕ) (em : ExtendedMantissa) :
      (n.repeat ExtendedMantissa.shiftRightOne em).mantissa ≤ em.mantissa := by
    induction n with
    | zero => exact le_rfl
    | succ n ih => exact (Nat.div_le_self _ 2).trans ih
  exact (shifts _ _).trans_eq start

private theorem roundedMantissa_le (em : ExtendedMantissa) : em.roundedMantissa ≤ em.mantissa + 1 := by
  obtain ⟨m, round, sticky⟩ := em
  cases round <;> cases sticky <;>
    simp only [ExtendedMantissa.roundedMantissa, ExtendedMantissa.accuracy, Accuracy.roundToNearestEven] <;> omega

theorem log2_lt_of_lt {m n : ℕ} (positive : 0 < n) (small : m < 2 ^ n) : m.log2 < n := by
  rcases Nat.eq_zero_or_pos m with rfl | some
  · simpa using positive
  · exact (Nat.log2_lt some.ne').mpr small

/-- Rounding a number of few digits and a moderate exponent does not leave the range. -/
theorem round_in_range {s : Sign} {m : ℕ} {e : ℤ} {accuracy : Accuracy} (digits : m < 2 ^ 53) (moderate : e ≤ 900) :
    UnpackedFloat.roundWithAccuracy Format.binary64 s m e accuracy = .zero s ∨
      ∃ n f positive,
        UnpackedFloat.roundWithAccuracy Format.binary64 s m e accuracy = .finite s n f positive ∧ f ≤ 971 := by
  unfold UnpackedFloat.roundWithAccuracy
  dsimp only
  have first := shift_exponent_le m e accuracy
  have less := shift_mantissa_le m e accuracy
  generalize UnpackedFloat.shiftToTargetExponent Format.binary64 m e accuracy = shifted at *
  obtain ⟨em, e'⟩ := shifted
  dsimp only at first less ⊢
  have second := shift_exponent_le em.roundedMantissa e' .exact
  have rounded := roundedMantissa_le em
  have few := log2_lt_of_lt (by decide) digits
  have few' : em.roundedMantissa.log2 < 54 := log2_lt_of_lt (by decide) (by omega)
  split
  · exact .inl rfl
  · next some => exact .inr ⟨_, _, Nat.pos_of_ne_zero some, rfl, by omega⟩

/-- The digits of a root are as many as those of a number, and its exponent is about half. -/
theorem sqrtCore_bounds {m : ℕ} {e : ℤ} (digits : m < 2 ^ 53) (small : e ≤ 971) :
    (UnpackedFloat.sqrtCore Format.binary64 m e).1 < 2 ^ 53 ∧
      (UnpackedFloat.sqrtCore Format.binary64 m e).2.1 ≤ 900 := by
  have bits : (Format.binary64.mantissaBits : ℤ) = 53 := rfl
  have least : Format.binary64.minExponent = -1074 := rfl
  have half (n : ℤ) : n.ediv 2 = n / 2 := rfl
  simp only [UnpackedFloat.sqrtCore, Format.targetExponent, totalExponent, bits, least, half]
  generalize target : min (e / 2) (max ((m.log2 + 1 + e + 1) / 2 - 53) (-1074)) = t
  refine ⟨?_, by omega⟩
  have few := log2_lt_of_lt (by decide) digits
  rw [Nat.sqrt_lt', Nat.shiftLeft_eq, ← pow_mul]
  calc m * 2 ^ (e - 2 * t).toNat < 2 ^ (m.log2 + 1) * 2 ^ (e - 2 * t).toNat :=
        Nat.mul_lt_mul_of_pos_right Nat.lt_log2_self (Nat.two_pow_pos _)
    _ = 2 ^ (m.log2 + 1 + (e - 2 * t).toNat) := (pow_add ..).symm
    _ ≤ 2 ^ (53 * 2) := Nat.pow_le_pow_right two_pos (by omega)

end Rounding

/-- Neither below zero nor NaN. -/
def Unsigned : UnpackedFloat → Bool
  | .notANumber => false
  | .infinity s => s == .positive
  | .zero _ => true
  | .finite s .. => s == .positive

section Unsigned
variable {u v : UnpackedFloat}

theorem unsigned_cases (unsigned : Unsigned u = true) :
    u = .infinity .positive ∨ (∃ s, u = .zero s) ∨ ∃ m e positive, u = .finite .positive m e positive := by
  rcases u with s | _ | s | ⟨s, m, e, positive⟩
  · cases s
    · cases unsigned
    · exact .inl rfl
  · cases unsigned
  · exact .inr (.inl ⟨s, rfl⟩)
  · cases s
    · cases unsigned
    · exact .inr (.inr ⟨m, e, positive, rfl⟩)

theorem unsigned_pack (unsigned : Unsigned u = true) : Unsigned (Float.Model.pack u).unpack = true := by
  obtain rfl | ⟨s, rfl⟩ | ⟨m, e, positive, rfl⟩ := unsigned_cases unsigned
  · rfl
  · cases s <;> rfl
  · obtain ⟨infinite, -⟩ | zero | ⟨n, f, positive', finite⟩ := @unpack_pack_finite .positive m e positive
    · rw [infinite]; rfl
    · rw [zero]; rfl
    · rw [finite]; rfl

private theorem unsigned_round {m : ℕ} {e : ℤ} {accuracy : Accuracy} :
    Unsigned (UnpackedFloat.roundWithAccuracy Format.binary64 .positive m e accuracy) = true := by
  unfold UnpackedFloat.roundWithAccuracy
  dsimp only
  split <;> rfl

private theorem unsigned_normalize (m : ℕ) (e : ℤ) :
    Unsigned (UnpackedFloat.normalize Format.binary64 m e .positive) = true := by
  unfold UnpackedFloat.normalize
  split
  · next negative =>
    rw [compare_lt_iff_lt] at negative
    omega
  · rfl
  · exact unsigned_round

private theorem unsigned_add (left : Unsigned u = true) (right : Unsigned v = true) :
    Unsigned (UnpackedFloat.add Format.binary64 u v) = true := by
  obtain rfl | ⟨s, rfl⟩ | ⟨m, e, positive, rfl⟩ := unsigned_cases left
  · obtain rfl | ⟨t, rfl⟩ | ⟨n, f, positive', rfl⟩ := unsigned_cases right <;> rfl
  · obtain rfl | ⟨t, rfl⟩ | ⟨n, f, positive', rfl⟩ := unsigned_cases right
    · rfl
    · cases s <;> cases t <;> rfl
    · rfl
  · obtain rfl | ⟨t, rfl⟩ | ⟨n, f, positive', rfl⟩ := unsigned_cases right
    · rfl
    · rfl
    · exact unsigned_normalize (_ + _) _

private theorem unsigned_square (u : UnpackedFloat) :
    UnpackedFloat.mul Format.binary64 u u = .notANumber ∨ Unsigned (UnpackedFloat.mul Format.binary64 u u) = true := by
  rcases u with s | _ | s | ⟨s, m, e, _⟩
  case notANumber => exact .inl rfl
  case finite =>
    right
    cases s <;> exact unsigned_round
  all_goals
    right
    cases s <;> rfl

theorem lt_of_infinite (unsigned : Unsigned u = true) (infinite : ¬u.isFinite = true) (finite : v.isFinite = true) :
    v.lt u = true := by
  obtain rfl | ⟨s, rfl⟩ | ⟨m, e, positive, rfl⟩ := unsigned_cases unsigned
  · rcases v with t | _ | t | ⟨t, n, f, _⟩
    · cases finite
    · cases finite
    · rfl
    · cases t <;> rfl
  · exact absurd rfl infinite
  · exact absurd rfl infinite

private theorem isNaN_of_add (number : (UnpackedFloat.add Format.binary64 u v).isNaN = false) :
    u.isNaN = false ∧ v.isNaN = false := by
  rcases u with s | _ | s | ⟨s, m, e, _⟩ <;> rcases v with t | _ | t | ⟨t, n, f, _⟩
  all_goals first | exact ⟨rfl, rfl⟩ | cases number

private theorem isNaN_of_pack (number : (Float.Model.pack u).unpack.isNaN = false) : u.isNaN = false := by
  cases u with
  | notANumber => exact number
  | infinity s => rfl
  | zero s => rfl
  | finite s m e positive => rfl

/-- Nothing finite bounds a magnitude that is infinite or no number. -/
theorem finite_of_magnitude_le (bounded : v.isFinite = true)
    (small : if u.lt (.zero .positive) = true then (Float.Model.pack u.neg).unpack.le v = true else u.le v = true) :
    u.isFinite = true := by
  rcases u with s | _ | s | ⟨s, m, e, _⟩
  case infinity =>
    rcases v with t | _ | t | ⟨t, n, f, _⟩
    case zero => cases s <;> cases t <;> cases small
    case finite => cases s <;> cases t <;> cases small
    all_goals cases bounded
  case notANumber => rcases v with t | _ | t | ⟨t, n, f, _⟩ <;> cases small
  all_goals rfl

end Unsigned

variable {x y : Float}

theorem le_iff : x ≤ y ↔ x.toModel.unpack.le y.toModel.unpack = true := decide_eq_true_iff

theorem lt_iff : x < y ↔ x.toModel.unpack.lt y.toModel.unpack = true := decide_eq_true_iff

theorem zero_le_iff : (Zero.zero : Float) ≤ x ↔ Unsigned x.toModel.unpack = true := by
  have zero : (Zero.zero : Float).toModel.unpack = .zero .positive := rfl
  rw [le_iff, zero]
  rcases x.toModel.unpack with s | _ | s | ⟨s, m, e, _⟩
  case notANumber => decide
  all_goals
    cases s
    all_goals exact iff_of_eq (congrArg (· = true) rfl)

/-- What is comparable with itself is a number. -/
theorem le_self_iff : x ≤ x ↔ x.toModel.unpack.isNaN = false := by
  rw [le_iff]
  rcases x.toModel.unpack with s | _ | s | ⟨s, m, e, _⟩
  case notANumber => decide
  case infinity => cases s <;> decide
  all_goals
    cases s
    all_goals simp [UnpackedFloat.le, UnpackedFloat.compare, UnpackedFloat.isNaN, Std.ReflCmp.compare_self]

theorem le_self_of_finite (finite : x.isFinite = true) : x ≤ x := by
  rw [le_self_iff]
  change x.toModel.unpack.isFinite = true at finite
  generalize x.toModel.unpack = u at finite
  cases u <;> first | rfl | cases finite

theorem le_self_of_add (number : x + y ≤ x + y) : x ≤ x ∧ y ≤ y := by
  rw [le_self_iff] at number ⊢
  rw [le_self_iff]
  exact isNaN_of_add (isNaN_of_pack number)

theorem square_nonneg (number : x * x ≤ x * x) : (Zero.zero : Float) ≤ x * x := by
  rw [le_self_iff] at number
  rw [zero_le_iff]
  rcases unsigned_square x.toModel.unpack with none | unsigned
  · have notNaN : (UnpackedFloat.mul Format.binary64 x.toModel.unpack x.toModel.unpack).isNaN = false :=
      isNaN_of_pack number
    rw [none] at notNaN
    cases notNaN
  · exact unsigned_pack unsigned

theorem add_nonneg (left : (Zero.zero : Float) ≤ x) (right : (Zero.zero : Float) ≤ y) :
    (Zero.zero : Float) ≤ x + y := by
  rw [zero_le_iff] at left right ⊢
  exact unsigned_pack (unsigned_add left right)

theorem lt_of_not_finite (nonneg : (Zero.zero : Float) ≤ x) (infinite : ¬x.isFinite = true) (finite : y.isFinite = true) :
    y < x := by
  rw [zero_le_iff] at nonneg
  rw [lt_iff]
  exact lt_of_infinite nonneg infinite finite

theorem finite_of_abs_le (small : Scalar.abs x ≤ y) (finite : y.isFinite = true) : x.isFinite = true := by
  have negative_iff : x < 0 ↔ x.toModel.unpack.lt (.zero .positive) = true := lt_iff
  refine finite_of_magnitude_le (u := x.toModel.unpack) (v := y.toModel.unpack) finite ?_
  unfold Scalar.abs at small
  split at small
  · next negative =>
    rw [if_pos (negative_iff.mp negative)]
    exact le_iff.mp small
  · next nonneg =>
    rw [if_neg fun below => nonneg (negative_iff.mpr below)]
    exact le_iff.mp small

theorem sqrt_finite (nonneg : (Zero.zero : Float) ≤ x) (finite : x.isFinite = true) :
    (Float.sqrt x).isFinite = true := by
  rw [zero_le_iff] at nonneg
  change (Float.Model.pack (UnpackedFloat.sqrt Format.binary64 x.toModel.unpack)).unpack.isFinite = true
  change x.toModel.unpack.isFinite = true at finite
  obtain infinite | ⟨s, zero⟩ | ⟨m, e, positive, number⟩ := unsigned_cases nonneg
  · rw [infinite] at finite
    cases finite
  · rw [zero]
    cases s <;> rfl
  · obtain ⟨digits, small, -⟩ := unpack_canonical number
    obtain ⟨digits', moderate⟩ := sqrtCore_bounds digits small
    have root : UnpackedFloat.sqrt Format.binary64 (.finite .positive m e positive) =
        UnpackedFloat.roundWithAccuracy Format.binary64 .positive (UnpackedFloat.sqrtCore Format.binary64 m e).1
          (UnpackedFloat.sqrtCore Format.binary64 m e).2.1 (UnpackedFloat.sqrtCore Format.binary64 m e).2.2 := rfl
    rw [number, root]
    obtain zero | ⟨n, f, positive', rounded, inRange⟩ := @round_in_range .positive _ _
      (UnpackedFloat.sqrtCore Format.binary64 m e).2.2 digits' moderate
    · rw [zero]; rfl
    · rw [rounded]
      obtain ⟨-, large⟩ | zero | ⟨n', f', positive'', stored⟩ := @unpack_pack_finite .positive n f positive'
      · omega
      · rw [zero]; rfl
      · rw [stored]; rfl

end BondSvd.Binary64
