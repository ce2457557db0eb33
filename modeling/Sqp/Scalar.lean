import Sqp.Error

/-!
# Scalars

The arithmetic that every numerical routine of the library is written in. A
routine asks for `[Scalar α]` and nothing else, so one definition has a meaning
over double precision numbers, where it runs, and over any exact field with a
square root, where it is reasoned about.

- `Scalar`: the operations; no law is assumed. In particular an order with
  incomparable values (not-a-number) is a legitimate instance.
- `Storage`: plain numbers and the entries of arrays that hold them. The solver
  computes with both, and their arithmetic may differ; over an exact field they
  are one and the same.
- `Scalar.lesser`, `Scalar.greater`: extrema that let an undefined argument
  through.
- `Scalar.keepMin`, `Scalar.keepMax`: extrema that keep their first argument
  unless the second one is strictly better, so that an undefined second argument
  is ignored.
- `Scalar.quotient`: division that is refused for a zero divisor.
- `Scalar.share`: division of a whole array by one number.
- `Scalar.clamp`: limits a value to an interval from below first, then from
  above.
-/

namespace Sqp

/-- Numbers with the operations the solver uses. Comparisons are decidable and
an undefined value compares false with everything. -/
class Scalar (α : Type) extends
    Zero α, One α, Add α, Sub α, Mul α, Div α, Neg α, NatCast α, OfScientific α, LT α, LE α where
  /-- Magnitude. -/
  abs : α → α
  /-- Square root. -/
  sqrt : α → α
  /-- `mulAdd a b c` is `a * b + c`, rounded only once. -/
  mulAdd : α → α → α → α
  /-- The root of the sum of squares, rounded only once and free of overflow on the
  way. -/
  length : List α → α
  /-- Whether a value is an ordinary number: defined and not infinite. -/
  isFinite : α → Bool
  /-- Whether a value is one of the infinities. -/
  isInfinite : α → Bool
  /-- How often an interval of length one may be halved, without rounding, before
  its length is surely at most the given positive number. -/
  halvingLimit : α → Nat
  /-- Strict comparison is decidable. -/
  decidableLt : DecidableLT α
  /-- Comparison is decidable. -/
  decidableLe : DecidableLE α

/-- Plain numbers `α` and the entries `β` of the arrays that hold them. To write a
number into an array and to read it back changes nothing. -/
class Storage (α : outParam Type) (β : Type) where
  /-- A number as an entry of an array. -/
  store : α → β
  /-- An entry of an array as a number. -/
  load : β → α
  /-- What is read back is what was written. -/
  load_store : ∀ a : α, load (store a) = a
  /-- What is written back is what was read. -/
  store_load : ∀ b : β, store (load b) = b

export Storage (store load)

attribute [simp] Storage.load_store Storage.store_load

namespace Scalar

variable {α : Type} [Scalar α]

instance : DecidableLT α := Scalar.decidableLt

instance : DecidableLE α := Scalar.decidableLe

/-- The spacing of double precision numbers at one, `2⁻⁵²`. -/
def epsilon : α := 1 / 4503599627370496.0

/-- Whether a value equals zero, whatever its sign. -/
def isZero (a : α) : Bool := decide (0 ≤ a) && decide (a ≤ 0)

/-! ## Extrema -/

/-- A value as arithmetic returns it. -/
def settled (a : α) : α := a - 0

/-- The smaller of two values, undefined as soon as one of them is. -/
def lesser (a b : α) : α :=
  if a ≤ b then settled a
  else if b ≤ a then settled b
  -- incomparable: the sum is undefined as well
  else a + b

/-- The larger of two values, undefined as soon as one of them is. -/
def greater (a b : α) : α :=
  if b ≤ a then settled a
  else if a ≤ b then settled b
  -- incomparable: the sum is undefined as well
  else a + b

/-- The first value, unless the second one is strictly smaller. -/
def keepMin (a b : α) : α := if b < a then b else a

/-- The first value, unless the second one is strictly larger. -/
def keepMax (a b : α) : α := if a < b then b else a

/-- `v` raised to `lower` and then cut down to `upper`; for `upper < lower` the
result is `upper`. -/
def clamp (lower upper v : α) : α := lesser (greater v lower) upper

/-! ## Quotients and roots -/

/-- The quotient of two numbers; a zero divisor is an error. -/
def quotient {m : Type → Type} [Monad m] [MonadExceptOf Error m] (a b : α) : m α :=
  if isZero b then throw .divisionByZero else pure (a / b)

/-- An entry `a` of an array of `entries` entries, all of which are divided by `c`. A
single entry is divided; several entries are multiplied by the reciprocal of `c`, so
that only one division is made for all of them. -/
def share (entries : Nat) (a c : α) : α := if entries = 1 then a / c else a * (1 / c)

/-- The length of the hypotenuse over two legs, whose squares are taken relative to the
longer leg. -/
def hypot (a b : α) : α :=
  let x := abs a
  let y := abs b
  let longer := if x < y then y else x
  let shorter := if x < y then x else y
  if isZero shorter || isInfinite longer then longer
  else
    let ratio := shorter / longer
    longer * sqrt (1 + ratio * ratio)

end Scalar

end Sqp
