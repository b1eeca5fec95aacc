import BondSvd.Scalar

namespace BondSvd
universe u

/-- Tolerances, budgets and cutoffs. The defaults are tuned for binary64. -/
structure Policy (α : Type u) [Scalar α] where
  /-- A failed input is multiplied by this before the next attempt. -/
  rescaleFactor : α := 1e2
  /-- Rescaled attempts that may follow the first one. -/
  maxRetries : UInt64 := 15
  /-- Bidiagonal entries are negligible at this fraction of the largest row sum. -/
  convergenceEta : α := 1e-10
  /-- Squared norms at or below this are never divided by. -/
  normFloor : α := 1.5e-34
  /-- Sweeps allowed for each singular value. -/
  maxSweeps : UInt64 := 100
  /-- Rebuild every decomposed matrix and compare it with the input. -/
  validate : Bool := false
  /-- Singular values at or below this are cut off; zero switches the rule off. -/
  absCutoff : α := 0
  /-- The same, as a fraction of the largest singular value. -/
  relCutoff : α := 0

end BondSvd
