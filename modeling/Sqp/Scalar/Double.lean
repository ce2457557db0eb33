import Sqp.Scalar
import Sqp.Scalar.Rounding

/-!
# Double precision scalars

Plain numbers: IEEE double precision with gradual underflow, where comparisons with
not-a-number are false.

- `Double.mulAdd`: a product and a sum with one rounding.
- `Double.length`: the root of a sum of squares with one rounding; an infinite entry
  wins over an undefined one.
-/

namespace Sqp

namespace Double

/-- `a * b + c`, rounded once. -/
def mulAdd (a b c : Float) : Float :=
  match Rounding.value? a, Rounding.value? b, Rounding.value? c with
  | some x, some y, some z =>
    match x * y + z with
    -- the sign of a zero is the one of the ordinary sum
    | .zero => a * b + c
    | total => Rounding.nearest total
  -- a finite product cannot change an infinite or undefined term
  | some _, some _, none => c
  | _, _, _ => a * b + c

/-- The root of the sum of squares, rounded once. -/
def length (xs : List Float) : Float :=
  if xs.any Float.isInf then 1.0 / 0.0
  else match xs.mapM Rounding.value? with
    | none => 0.0 / 0.0
    | some values => Rounding.nearestRoot (values.foldl (fun s x => s + x * x) 0)

end Double

instance : Scalar Float where
  zero := 0.0
  one := 1.0
  natCast := Float.ofNat
  abs := Float.abs
  sqrt := Float.sqrt
  mulAdd := Double.mulAdd
  length := Double.length
  isFinite := Float.isFinite
  isInfinite := Float.isInf
  -- the smallest positive number is 2⁻¹⁰⁷⁴, so 1075 exact halvings always suffice; but
  -- numbers over 1/2 are 2⁻⁵³ apart, and rounding may keep a bracket there from ever being
  -- narrower: for a tolerance under 2⁻⁵³ it is then this limit that ends its halving
  halvingLimit := fun _ => 1075
  decidableLt := inferInstance
  decidableLe := inferInstance

end Sqp
