import BondSvd.Binary64.Shortest

namespace BondSvd.Binary64

/-- Digit characters in front, and what follows them. -/
def spanDigits (chars : List Char) : List Char × List Char :=
  (chars.takeWhile Char.isDigit, chars.dropWhile Char.isDigit)

/-- The number that decimal digits write. -/
def digitsValue (digits : List Char) : Nat :=
  digits.foldl (fun value digit => 10 * value + (digit.toNat - '0'.toNat)) 0

/-- A sign in front, which is positive unless written. -/
def spanSign : List Char → Bool × List Char
  | '-' :: rest => (true, rest)
  | '+' :: rest => (false, rest)
  | chars => (false, chars)

/-- The letter `e` and a signed number of at least one digit, or nothing at all. -/
def readExponent? : List Char → Option Int
  | [] => some 0
  | mark :: rest =>
    if mark = 'e' ∨ mark = 'E' then
      let (negative, digits) := spanSign rest
      if digits.isEmpty ∨ ¬digits.all Char.isDigit then none
      else some (if negative then -(digitsValue digits) else digitsValue digits)
    else none

/-- Digits with an optional point and exponent. -/
def readDecimal? (chars : List Char) : Option Decimal :=
  let (whole, rest) := spanDigits chars
  let (fraction, tail) := match rest with
    | '.' :: rest => spanDigits rest
    | rest => ([], rest)
  if whole.isEmpty ∧ fraction.isEmpty then none
  else (readExponent? tail).map fun exponent =>
    ⟨digitsValue (whole ++ fraction), exponent - fraction.length⟩

/-- The binary64 number nearest to a decimal. -/
def ofDecimal (decimal : Decimal) : Float :=
  Float.ofScientific decimal.digits (decimal.exponent < 0) decimal.exponent.natAbs

/-- Reads a number, with `inf`, `infinity` and `nan` in either case. -/
def read? (source : String) : Option Float :=
  let (negative, chars) := spanSign source.toList
  let magnitude := match String.ofList (chars.map Char.toLower) with
    | "inf" | "infinity" => some (1.0 / 0.0)
    | "nan" => some (0.0 / 0.0)
    | _ => (readDecimal? chars).map ofDecimal
  magnitude.map fun x => if negative then -x else x

end BondSvd.Binary64
