import BondSvd.Cplx

namespace BondSvd
universe u

/-- Extents that do not allow an operation. -/
inductive ShapeFault
  /-- Matrices of unequal column counts cannot be stacked. -/
  | columnCounts (top bottom : Nat × Nat)
  /-- Matrices of unequal row counts cannot be joined. -/
  | rowCounts (left right : Nat × Nat)
  /-- Only axes 0 and 1 exist. -/
  | axis (code : Nat)
  | oddRows (rows : Nat)
  | oddColumns (cols : Nat)
  /-- The factors rebuild a matrix of another shape than the input. -/
  | rebuilt (product input : Nat × Nat)
  /-- An extent does not fit the 32-bit integers of a LAPACK routine. -/
  | wordSize (rows cols : Nat)
  /-- A backend's own words. -/
  | reported (text : String)
deriving DecidableEq, Repr

/-- Settings that cannot be worked with. -/
inductive ConfigFault (α : Type u)
  | zeroBondDimension
  | thresholdRange (threshold : α)
  /-- No tensor-network library is linked. -/
  | noTensorNetwork
  /-- A backend's own words. -/
  | reported (text : String)
deriving DecidableEq, Repr

/-- Why a decomposition or a compression failed. -/
inductive Error (α : Type u)
  /-- Every rescaled attempt failed. -/
  | retryExhausted (attempts : Nat)
  /-- A LAPACK routine reported a code other than zero. -/
  | vendorFailure (routine : String) (info : Int32)
  /-- The first entry at which the rebuilt matrix differs from the input. -/
  | validationMismatch (row col : Nat) (expected actual : Cplx α)
  | invalidConfig (fault : ConfigFault α)
  | shapeMismatch (fault : ShapeFault)
  /-- A tensor-network library reported a failure in its own words. -/
  | gpu (text : String)

end BondSvd
