/-!
# Exact values and rounding

A finite double is a dyadic number, and sums and products of dyadic numbers are exact.
An operation that rounds only once therefore computes with exact values and rounds the
outcome.

- `Rounding.value?`: the exact value of a finite double.
- `Rounding.halfEven`: a quotient of natural numbers rounded to the nearest natural
  number, a tie going to the even neighbour.
- `Rounding.nearest`: the double nearest to a dyadic number.
- `Rounding.floorRoot`: the integer part of a square root.
- `Rounding.nearestRoot`: the double nearest to the square root of a dyadic number.
-/

namespace Sqp.Rounding

/-! ## Exact values of doubles -/

/-- The sign bit of a double, which zeros have as well. -/
def signBit (x : Float) : Bool := decide (Nat.pow 2 63 ≤ x.toBits.toNat)

/-- The exact value of a finite double; none for infinities and not-a-number. -/
def value? (x : Float) : Option Dyadic :=
  let bits := x.toBits.toNat
  let fraction : Nat := bits % Nat.pow 2 52
  let biased : Nat := bits / Nat.pow 2 52 % 2048
  let signed (m : Nat) : Int := if signBit x then -m else m
  if biased = 2047 then none
  -- subnormal numbers have no hidden leading bit
  else if biased = 0 then some (Dyadic.ofIntWithPrec (signed fraction) 1074)
  else some (Dyadic.ofIntWithPrec (signed (Nat.pow 2 52 + fraction)) (1075 - (biased : Int)))

/-! ## Rounding to the nearest -/

/-- The natural number nearest to `num / den`; a tie goes to the even one. -/
def halfEven (num den : Nat) : Nat :=
  let q := num / den
  let r := num % den
  if 2 * r < den then q
  else if den < 2 * r then q + 1
  else q + q % 2

/-- The double nearest to `m · 2^e`. Doubles have 53 significant bits and no bit below
`2⁻¹⁰⁷⁴`, so all lower bits are rounded away. -/
def nearestScaled (m : Nat) (e : Int) : Float :=
  let excess := max ((m.log2 : Int) - 52) (-1074 - e)
  if excess ≤ 0 then (Float.ofNat m).scaleB e
  else (Float.ofNat (halfEven m (Nat.pow 2 excess.toNat))).scaleB (e + excess)

/-- The double nearest to a dyadic number. -/
def nearest : Dyadic → Float
  | .zero => 0.0
  | .ofOdd n k _ =>
    let magnitude := nearestScaled n.natAbs (-k)
    if n < 0 then -magnitude else magnitude

/-! ## Square roots -/

/-- The largest natural number whose square is at most `n`, found two bits of `n` at a
time. -/
def floorRoot (n : Nat) : Nat :=
  if n = 0 then 0
  else
    let r := 2 * floorRoot (n / 4)
    if (r + 1) * (r + 1) ≤ n then r + 1 else r
termination_by n
decreasing_by omega

/-- The double nearest to the square root of a positive dyadic number. The integer part
of the root is taken with more bits than a double has, and one further bit says whether
something is left over. -/
def nearestRoot : Dyadic → Float
  | .zero => 0.0
  | .ofOdd n k _ =>
    let spread := 110 - n.natAbs.log2
    let shift := spread + ((k + spread) % 2).toNat
    let radicand := n.natAbs * Nat.pow 2 shift
    let root := floorRoot radicand
    let rest := if root * root = radicand then 0 else 1
    nearestScaled (2 * root + rest) (-((k + shift) / 2) - 1)

end Sqp.Rounding
