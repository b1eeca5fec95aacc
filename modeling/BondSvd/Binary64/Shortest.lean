/-! The shortest decimal that reads back as a given binary64 number, and its positional
text. The search runs over ever finer decimal grids; on each it tests the two neighbours
of the value, so the first hit has the fewest digits. -/
namespace BondSvd.Binary64
open Float.Model (UnpackedFloat)

/-- The decimal `digits * 10 ^ exponent`. -/
structure Decimal where
  digits : Nat
  exponent : Int
deriving DecidableEq, Repr

/-- The reals that round to one binary64 number, over a common denominator. The ends
belong to the interval exactly when the number's significand is even. -/
structure RoundingInterval where
  low : Nat
  value : Nat
  high : Nat
  scale : Nat
  closed : Bool

/-- The interval of `significand * 2 ^ exponent`; below a power of two the neighbour is
only half as far. -/
def RoundingInterval.ofFinite (significand : Nat) (exponent : Int) : RoundingInterval :=
  let below := if significand = Nat.pow 2 52 ∧ -1074 < exponent then 1 else 2
  let up := Nat.pow 2 (exponent - 2).toNat
  { low := (4 * significand - below) * up
    value := 4 * significand * up
    high := (4 * significand + 2) * up
    scale := Nat.pow 2 (2 - exponent).toNat
    closed := significand % 2 = 0 }

/-- Whether `digits * 10 ^ exponent` rounds to the number. -/
def RoundingInterval.admits (interval : RoundingInterval) (decimal : Decimal) : Bool :=
  let point := decimal.digits * Nat.pow 10 decimal.exponent.toNat * interval.scale
  let unit := Nat.pow 10 (-decimal.exponent).toNat
  if interval.closed then interval.low * unit ≤ point && point ≤ interval.high * unit
  else interval.low * unit < point && point < interval.high * unit

/-- The best decimal on the grid `10 ^ exponent`; of two equally near the upper one. -/
def RoundingInterval.onGrid (interval : RoundingInterval) (exponent : Int) : Option Decimal :=
  let value := interval.value * Nat.pow 10 (-exponent).toNat
  let unit := interval.scale * Nat.pow 10 exponent.toNat
  let floor : Decimal := ⟨value / unit, exponent⟩
  let ceiling : Decimal := ⟨value / unit + 1, exponent⟩
  match interval.admits floor, interval.admits ceiling with
  | true, true => some (if 2 * value < (2 * floor.digits + 1) * unit then floor else ceiling)
  | true, false => some floor
  | false, true => some ceiling
  | false, false => none

/-- The first hit while the grid gets finer. -/
def RoundingInterval.search (interval : RoundingInterval) : (more : Nat) → (exponent : Int) → Decimal
  | 0, exponent => (interval.onGrid exponent).getD ⟨0, 0⟩
  | more + 1, exponent => (interval.onGrid exponent).getD (interval.search more (exponent - 1))

def digitCount (n : Nat) : Nat := (Nat.toDigits 10 n).length

/-- The exponent of the value's leading digit. -/
def RoundingInterval.leadingExponent (interval : RoundingInterval) : Int :=
  if interval.scale ≤ interval.value then digitCount (interval.value / interval.scale) - 1
  else -digitCount ((interval.scale - 1) / interval.value)

/-- The search starts at the power of ten above the value, which may itself be the answer;
seventeen digits always reach back to the number. -/
def shortestDecimal (significand : Nat) (exponent : Int) : Decimal :=
  let interval := RoundingInterval.ofFinite significand exponent
  interval.search 17 (interval.leadingExponent + 1)

/-- All digits written out, with a point only before a fraction. -/
def Decimal.positional (decimal : Decimal) : String :=
  let digits := Nat.toDigits 10 decimal.digits
  if 0 ≤ decimal.exponent then
    String.ofList (digits ++ List.replicate decimal.exponent.toNat '0')
  else
    let places := (-decimal.exponent).toNat
    let padded := List.replicate (places + 1 - digits.length) '0' ++ digits
    String.ofList (padded.take (padded.length - places) ++ '.' :: padded.drop (padded.length - places))

/-- Plain decimal text, never with an exponent. -/
def text (x : Float) : String :=
  let signed (sign : UnpackedFloat.Sign) (body : String) : String :=
    if sign == .negative then "-" ++ body else body
  match x.toModel.unpack with
  | .notANumber => "NaN"
  | .infinity sign => signed sign "inf"
  | .zero sign => signed sign "0"
  | .finite sign significand exponent _ =>
    signed sign (shortestDecimal significand exponent).positional

end BondSvd.Binary64
