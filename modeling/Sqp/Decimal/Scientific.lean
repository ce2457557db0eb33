import Sqp.Scalar.Rounding

/-!
# Scientific decimal text

The text of a double precision number in scientific notation with a chosen number
of significant digits.

- `Decimal.scientific`: the digits and the decimal exponent of a positive rational,
  correctly rounded.
- `Decimal.text`: the text itself, for instance `-1.500e+00`.
- `Decimal.Format.render`: the text with all zeros, and all magnitudes under a
  floor, written as a plain `0`.
-/

namespace Sqp.Decimal

/-! ## Rounding to significant digits -/

/-- The number of decimal digits of `n`, at least one. -/
def digitCount (n : Nat) : Nat := (Nat.toDigits 10 n).length

/-- `num / den · 10^shift`, rounded to the nearest natural number. -/
def roundShifted (num den : Nat) (shift : Int) : Nat :=
  Rounding.halfEven (num * Nat.pow 10 shift.toNat) (den * Nat.pow 10 (-shift).toNat)

/-- The exponent `e` with `10^e ≤ num / den < 10^(e+1)`, for a positive fraction. -/
def leadingExponent (num den : Nat) : Int :=
  -- the digit counts fix the exponent up to one
  let guess : Int := (digitCount num : Int) - (digitCount den : Int)
  if den * Nat.pow 10 guess.toNat ≤ num * Nat.pow 10 (-guess).toNat then guess else guess - 1

/-- The `digits` leading digits of a positive fraction, as one natural number, and
its decimal exponent, correctly rounded. -/
def scientific (digits num den : Nat) : Nat × Int :=
  let e := leadingExponent num den
  let m := roundShifted num den ((digits : Int) - 1 - e)
  -- rounding up may produce one digit too many
  if Nat.pow 10 digits ≤ m then (m / 10, e + 1) else (m, e)

/-! ## Text -/

/-- A natural number padded with zeros on the left to at least `width` digits. -/
def padded (width n : Nat) : String :=
  let ds := Nat.toDigits 10 n
  String.ofList (List.replicate (width - ds.length) '0' ++ ds)

/-- The text of a signed digit string with its decimal exponent: the first digit,
a point before the remaining ones if there are any, and a signed exponent of at
least two digits. -/
def layOut (negative : Bool) (digits mantissa : Nat) (exponent : Int) : String :=
  let sign := if negative then "-" else ""
  let ds := (padded digits mantissa).toList
  let tail := ds.drop 1
  let fraction := if tail.isEmpty then "" else "." ++ String.ofList tail
  let mark := if exponent < 0 then "e-" else "e+"
  sign ++ String.ofList (ds.take 1) ++ fraction ++ mark ++ padded 2 exponent.natAbs

/-- A double with `digits` significant digits, its exact binary value correctly
rounded with ties to even; a zero keeps its sign. -/
def text (digits : Nat) (x : Float) : String :=
  match (Rounding.value? x).map Dyadic.toRat with
  | none => if x.isNaN then "nan" else if x < 0.0 then "-inf" else "inf"
  | some r =>
    let (m, e) := if r.num = 0 then (0, 0) else scientific digits r.num.natAbs r.den
    layOut (Rounding.signBit x) digits m e

/-- How numbers of an answer are written. -/
structure Format where
  /-- Number of significant digits. -/
  digits : Nat := 17
  /-- Magnitudes under this floor are written as zero. -/
  floor : Float := 0.0

/-- A number of an answer: zeros of either sign and magnitudes under the floor are
`0`, everything else is scientific text. -/
def Format.render (f : Format) (x : Float) : String :=
  if x == 0.0 || x.abs < f.floor then "0" else text f.digits x

end Sqp.Decimal
