namespace BondSvd.Binary64
open Float.Model (UnpackedFloat Format)

/-- The product before rounding; infinities, zeros and NaN multiply as rounded numbers do. -/
def exactProduct : UnpackedFloat → UnpackedFloat → UnpackedFloat
  | .finite s m e positive, .finite t n f positive' =>
    .finite (s * t) (m * n) (e + f) (Nat.mul_pos positive positive')
  | x, y => UnpackedFloat.mul Format.binary64 x y

/-- The value of `x * y + z`, rounded once. -/
def fused (x y z : Float) : Float :=
  .ofModel <| .pack <| match exactProduct x.toModel.unpack y.toModel.unpack, z.toModel.unpack with
    | .finite s m e _, .zero _ => UnpackedFloat.round Format.binary64 s m e
    | product, addend => UnpackedFloat.add Format.binary64 product addend

end BondSvd.Binary64
