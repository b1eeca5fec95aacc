import BondSvd.Scalar

/-! The fixed tolerances of the library. They are absolute numbers on purpose: what they
decide is whether a value is usable at all, not how large it is beside another. -/
namespace BondSvd.Tolerance
universe u
variable {α : Type u} [Scalar α]

/-- Magnitudes at or below this count as zero. -/
@[inline] def zero : α := 1e-50

/-- Drift from unit norm, and difference of two entries, that is let through. -/
@[inline] def drift : α := 1e-9

/-- Shift parameters and rotation terms within this of zero have no reliable sign. -/
@[inline] def sign : α := 1e-13

/-- Operands of a vanishing rotation are magnified by this before a second look. -/
@[inline] def magnifier : α := 1e30

/-- The gap between one and the next binary64 number. -/
@[inline] def epsilon : α := 1 / 4503599627370496.0

end BondSvd.Tolerance
