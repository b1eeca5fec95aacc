/-! The length of a plane vector on binary64. The root of the sum of squares is corrected by
one further step, written so that the correction itself loses no digits. Operands whose
squares would leave the range are scaled by a power of two before and after. -/
namespace BondSvd.Binary64

/-- The number `2 ^ exponent`, for exponents of normal numbers. -/
def powerOfTwo (exponent : Int) : Float :=
  Float.ofBits (UInt64.ofNat ((exponent + 1023).toNat * Nat.pow 2 52))

/-- How far the square of the rounded root `h` lies above `x² + y²`, for `y ≤ x`. -/
def squareExcess (h x y : Float) : Float :=
  if h ≤ 2.0 * y then
    let d := h - y
    x * (2.0 * d - x) + (d - 2.0 * (x - y)) * d
  else
    let d := h - x
    2.0 * d * (x - 2.0 * y) + ((4.0 * d - y) * y + d * d)

/-- The corrected root, for `y ≤ x` with squares in range. -/
def correctedRoot (x y : Float) : Float :=
  let h := Float.sqrt (x * x + y * y)
  h - squareExcess h x y / (2.0 * h)

/-- The length for `0 ≤ y ≤ x`. A short side that is lost beside the long one is only
added to it. -/
def orderedHypot (x y : Float) : Float :=
  if powerOfTwo 511 < x then
    if y ≤ x * powerOfTwo (-54) then x + y
    else correctedRoot (x * powerOfTwo (-600)) (y * powerOfTwo (-600)) / powerOfTwo (-600)
  else if y < powerOfTwo (-459) then
    if y / powerOfTwo (-54) ≤ x then x + y
    else correctedRoot (x / powerOfTwo (-600)) (y / powerOfTwo (-600)) * powerOfTwo (-600)
  else if y ≤ x * powerOfTwo (-54) then x + y
  else correctedRoot x y

/-- The length of `(x, y)`; an infinite side makes it infinite whatever the other is. -/
def hypot (x y : Float) : Float :=
  if x.isInf || y.isInf then 1.0 / 0.0
  else if x.isNaN || y.isNaN then x + y
  else if x.abs < y.abs then orderedHypot y.abs x.abs
  else orderedHypot x.abs y.abs

end BondSvd.Binary64
