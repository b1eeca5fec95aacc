import BondSvd.Scalar

/-! Numbers held as an unevaluated sum of two scalars, the second a correction to the
first. Products of scalars are exact and sums keep twice the digits, which tells a sum that
vanishes apart from one that is merely tiny. -/
namespace BondSvd
universe u

/-- The number `hi + lo`. -/
structure DoubleWord (α : Type u) where
  hi : α
  lo : α

namespace DoubleWord
variable {α : Type u} [Scalar α]

/-- The product of two scalars together with its rounding error. -/
def product (x y : α) : DoubleWord α :=
  let rounded := x * y
  ⟨rounded, Scalar.fma x y (-rounded)⟩

/-- The sum of two scalars together with its rounding error, in any order of size. -/
def twoSum (x y : α) : DoubleWord α :=
  let sum := x + y
  let x' := sum - y
  let y' := sum - x'
  ⟨sum, (x - x') + (y - y')⟩

/-- The same for a first operand that is not the smaller one. -/
def fastTwoSum (x y : α) : DoubleWord α :=
  let sum := x + y
  ⟨sum, y - (sum - x)⟩

instance : Add (DoubleWord α) where
  add x y :=
    let high := twoSum x.hi y.hi
    let low := twoSum x.lo y.lo
    let carried := fastTwoSum high.hi (high.lo + low.hi)
    fastTwoSum carried.hi (low.lo + carried.lo)

instance : Neg (DoubleWord α) := ⟨fun x => ⟨-x.hi, -x.lo⟩⟩

/-- A sum whose leading part is zero has no correction either, so that part decides. -/
def abs (x : DoubleWord α) : DoubleWord α := if 0 < x.hi then x else -x

/-- At most a scalar: by the leading part, and by the correction where those are equal. -/
def atMost (x : DoubleWord α) (bound : α) : Bool :=
  if x.hi < bound then true else x.hi == bound && decide (x.lo ≤ 0)

/-- Within `threshold` of zero. -/
def isNegligible (x : DoubleWord α) (threshold : α) : Bool := x.abs.atMost threshold

/-- The sum `x·cos + g·sin` with all four operands magnified and both products exact. -/
def rotationSum (x cos g sin magnifier : α) : DoubleWord α :=
  product (x * magnifier) (cos * magnifier) + product (g * magnifier) (sin * magnifier)

end DoubleWord
end BondSvd
