/-! Numbers the decomposition computes with. Every algorithm is written once over
`Scalar`, so it runs on binary64 and can be reasoned about on any other ordered field
with a square root. Comparisons with a value that is no number are false. -/
namespace BondSvd
universe u

/-- Ordered numbers with square roots. `hypot` and `fma` round their exact value once. -/
class Scalar (α : Type u) extends Zero α, One α, Add α, Sub α, Mul α, Div α, Neg α,
    OfScientific α, BEq α, LT α, LE α where
  decLt : DecidableRel ((· < ·) : α → α → Prop)
  decLe : DecidableRel ((· ≤ ·) : α → α → Prop)
  sqrt : α → α
  /-- The length of the plane vector `(x, y)`; an infinite side wins over anything. -/
  hypot : α → α → α
  /-- The value `x * y + z`. -/
  fma : α → α → α → α
  /-- Neither infinite nor "not a number". -/
  isFinite : α → Bool

namespace Scalar
variable {α : Type u} [Scalar α]

instance (x y : α) : Decidable (x < y) := Scalar.decLt x y
instance (x y : α) : Decidable (x ≤ y) := Scalar.decLe x y

/-- Magnitude by the sign test, so that a value that is no number stays one. -/
@[inline] def abs (x : α) : α := if x < 0 then -x else x

/-- The larger operand; an operand that is no number is passed over. -/
@[inline] def larger (x y : α) : α := if x < y then y else if x ≤ x then x else y

@[inline] def square (x : α) : α := x * x

/-- The value `acc * base ^ exponent` by repeated squaring from the lowest binary digit. -/
def powAcc (base acc : α) (exponent : Nat) : α :=
  if exponent = 0 then acc
  else powAcc (base * base) (if exponent % 2 = 1 then acc * base else acc) (exponent / 2)
termination_by exponent

/-- An integer power; a negative exponent inverts the positive power. -/
def powInt (base : α) (exponent : Int) : α :=
  let power := powAcc base 1 exponent.natAbs
  if exponent < 0 then 1 / power else power

theorem powAcc_zero (base acc : α) : powAcc base acc 0 = acc := by
  rw [powAcc, if_pos rfl]

theorem powAcc_pos (base acc : α) {exponent : Nat} (positive : 0 < exponent) :
    powAcc base acc exponent =
      powAcc (base * base) (if exponent % 2 = 1 then acc * base else acc) (exponent / 2) := by
  rw [powAcc, if_neg (by omega)]

theorem powInt_zero (base : α) : powInt base 0 = 1 := by
  simp [powInt, powAcc_zero]

end Scalar
end BondSvd
