import BondSvd.Error.Basic

namespace BondSvd
universe u

/-- How far a bond may be truncated, and by which backend. -/
structure CompressionConfig (α : Type u) [Scalar α] where
  /-- The largest bond dimension that is kept; by default any. -/
  maxBondDimension : UInt64 := 18446744073709551615
  /-- The mass that may be dropped from the tail of the spectrum. -/
  truncationThreshold : α := 0
  useVendor : Bool := false

/-- A bond keeps at least one value, and the threshold lies in `[0, 1)`. -/
def CompressionConfig.validate {α : Type u} [Scalar α] (config : CompressionConfig α) :
    Except (Error α) Unit :=
  if config.maxBondDimension = 0 then .error (.invalidConfig .zeroBondDimension)
  else if 0 ≤ config.truncationThreshold ∧ config.truncationThreshold < 1 then .ok ()
  else .error (.invalidConfig (.thresholdRange config.truncationThreshold))

end BondSvd
