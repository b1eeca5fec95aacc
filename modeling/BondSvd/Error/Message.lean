import BondSvd.Binary64.Scalar
import BondSvd.Binary64.Shortest
import BondSvd.Error.Basic

namespace BondSvd

/-- Rows and columns around a cross. -/
def extentText (shape : Nat × Nat) : String := s!"{shape.1}x{shape.2}"

/-- Rows and columns as a pair. -/
def shapeText (shape : Nat × Nat) : String := s!"({shape.1}, {shape.2})"

/-- Real and imaginary part with one sign between them. -/
def Cplx.text (x : Cplx Float) : String :=
  if x.im < 0 then s!"{Binary64.text x.re}-{Binary64.text (-x.im)}i"
  else s!"{Binary64.text x.re}+{Binary64.text x.im}i"

def ShapeFault.message : ShapeFault → String
  | .columnCounts top bottom =>
    s!"cannot stack {extentText top} on {extentText bottom}: column counts differ"
  | .rowCounts left right =>
    s!"cannot join {extentText left} and {extentText right}: row counts differ"
  | .axis code => s!"invalid axis {code}"
  | .oddRows rows => s!"cannot split {rows} rows into halves"
  | .oddColumns cols => s!"cannot split {cols} columns into halves"
  | .rebuilt product input =>
    s!"reconstruction is {shapeText product}, input is {shapeText input}"
  | .wordSize rows cols => s!"{extentText (rows, cols)} is too large for LP64 LAPACK"
  | .reported text => text

def ConfigFault.message : ConfigFault Float → String
  | .zeroBondDimension => "max_bond_dimension must be positive"
  | .thresholdRange threshold =>
    s!"truncation_threshold must lie in [0, 1), got {Binary64.text threshold}"
  | .noTensorNetwork =>
    "GPU backend requested but the crate was built without the `cutensornet` feature"
  | .reported text => text

def Error.message : Error Float → String
  | .retryExhausted attempts => s!"SVD failed to converge after {attempts} rescaled retries"
  | .vendorFailure routine info => s!"{routine} failed with info = {info.toInt}"
  | .validationMismatch row col expected actual =>
    s!"wrong SVD calculation at {shapeText (row, col)}: A = {expected.text}, USV* = {actual.text}"
  | .invalidConfig fault => s!"invalid configuration: {fault.message}"
  | .shapeMismatch fault => s!"shape mismatch: {fault.message}"
  | .gpu text => s!"GPU tensor SVD failed: {text}"

/-- The refusal to multiply matrices whose inner extents differ. -/
def innerExtentMessage (cols rows : Nat) : String :=
  s!"Matrix dimension mismatch: A.cols ({cols}) != B.rows ({rows})"

end BondSvd
