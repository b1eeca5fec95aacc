import BondSvd.Binary64.Fused
import BondSvd.Binary64.Hypot
import BondSvd.Scalar

namespace BondSvd.Binary64

instance : Scalar Float where
  decLt := fun x y => Float.decLt x y
  decLe := fun x y => Float.decLe x y
  sqrt := Float.sqrt
  hypot := hypot
  fma := fused
  isFinite := Float.isFinite

end BondSvd.Binary64
