import BondSvd.Scalar

namespace BondSvd
universe u

/-- The number `re + im·i`. -/
structure Cplx (α : Type u) where
  re : α
  im : α

namespace Cplx
variable {α : Type u} [Scalar α]

instance : Zero (Cplx α) := ⟨⟨0, 0⟩⟩
instance : One (Cplx α) := ⟨⟨1, 0⟩⟩
instance : Add (Cplx α) := ⟨fun x y => ⟨x.re + y.re, x.im + y.im⟩⟩
instance : Sub (Cplx α) := ⟨fun x y => ⟨x.re - y.re, x.im - y.im⟩⟩
instance : Neg (Cplx α) := ⟨fun x => ⟨-x.re, -x.im⟩⟩
instance : Mul (Cplx α) := ⟨fun x y => ⟨x.re * y.re - x.im * y.im, x.re * y.im + x.im * y.re⟩⟩
instance : Inhabited (Cplx α) := ⟨0⟩

@[inline] def ofScalar (x : α) : Cplx α := ⟨x, 0⟩

@[inline] def conj (x : Cplx α) : Cplx α := ⟨x.re, -x.im⟩

/-- Both parts times a scalar. -/
@[inline] def scale (x : Cplx α) (factor : α) : Cplx α := ⟨x.re * factor, x.im * factor⟩

/-- Both parts divided by a scalar. -/
@[inline] def unscale (x : Cplx α) (divisor : α) : Cplx α := ⟨x.re / divisor, x.im / divisor⟩

/-- The squared modulus. -/
@[inline] def normSq (x : Cplx α) : α := x.re * x.re + x.im * x.im

@[inline] def modulus (x : Cplx α) : α := Scalar.hypot x.re x.im

theorem zero_re : (0 : Cplx α).re = 0 := rfl
theorem zero_im : (0 : Cplx α).im = 0 := rfl
theorem neg_im (x : Cplx α) : (-x).im = -x.im := rfl
theorem mul_re (x y : Cplx α) : (x * y).re = x.re * y.re - x.im * y.im := rfl
theorem mul_im (x y : Cplx α) : (x * y).im = x.re * y.im + x.im * y.re := rfl

end Cplx
end BondSvd
