import Sqp.Error
import Sqp.Linear.Vec

/-!
# Bounds

- `Interval`: a lower and an upper bound.
- `Bounds`: for each entry of a parameter vector its interval, if it is bounded.
- `Interval.gaps`, `Interval.nearest`: the distances of a value to the two bounds and
  to the nearer one.
- `Bounds.strictlyInside`: whether all gaps are positive.
- `BoundMode`: which part of a parameter vector is bounded.
- `Bounds.ofRows`, `Bounds.forMode`: bounds from rows as they are handed over, checked
  for their number and for what a bound mode needs.
-/

namespace Sqp

variable {α : Type}

/-! ## Intervals -/

/-- A lower and an upper bound. -/
structure Interval (α : Type) where
  lower : α
  upper : α

namespace Interval

variable [Scalar α]

/-- The distance above the lower bound and the distance below the upper bound. -/
def gaps (b : Interval α) (x : α) : α × α := (x - b.lower, b.upper - x)

/-- The distance to the nearer bound. -/
def nearest (b : Interval α) (x : α) : α := Scalar.lesser (b.gaps x).1 (b.gaps x).2

/-- Both gaps are positive. -/
def clears (b : Interval α) (x : α) : Bool :=
  decide (0 < (b.gaps x).1) && decide (0 < (b.gaps x).2)

/-- Strictly between the bounds. -/
def contains (b : Interval α) (x : α) : Bool := decide (b.lower < x) && decide (x < b.upper)

/-- The middle of the interval. -/
def middle (b : Interval α) : α := 0.5 * (b.lower + b.upper)

/-- Both bounds divided by `c`, through its reciprocal. -/
def divide (b : Interval α) (c : α) : Interval α := ⟨b.lower * (1 / c), b.upper * (1 / c)⟩

end Interval

/-! ## Bounds of a parameter vector -/

/-- The interval of each bounded entry of a parameter vector. -/
abbrev Bounds (α : Type) (n : Nat) : Type := Vector (Option (Interval α)) n

namespace Bounds

variable {n : Nat}

/-- The bounds whose first entries are the given rows. -/
def leading (rows : List (Interval α)) (n : Nat) : Bounds α n := Vector.ofFn fun i => rows[i.val]?

/-- The intervals of the bounded entries, in order. -/
def rows (b : Bounds α n) : List (Interval α) := b.toList.filterMap id

/-- No entry is bounded. -/
def free (b : Bounds α n) : Bool := b.all Option.isNone

variable [Scalar α]

/-- The pairs of gaps of the bounded entries, in order. -/
def gapRows (b : Bounds α n) (p : Vector α n) : List (α × α) :=
  (Vector.zipWith (fun interval? x => interval?.map fun b => b.gaps x) b p).toList.filterMap id

/-- Every bounded entry lies strictly inside its interval. -/
def strictlyInside (b : Bounds α n) (p : Vector α n) : Bool :=
  (Vector.zipWith (fun interval? x => interval?.all fun b => b.clears x) b p).all id

/-- Each interval divided by the scale of its entry. -/
def divide (b : Bounds α n) (s : Vector α n) : Bounds α n :=
  Vector.zipWith (fun interval? c => interval?.map fun b => b.divide c) b s

end Bounds

/-! ## Bound modes -/

/-- Which parts of a parameter vector carry bounds. -/
inductive BoundMode where
  /-- Nothing is bounded. -/
  | unbounded
  /-- Only the slacks of inequality constraints are bounded. -/
  | slackBounded
  /-- The decision variables are bounded, and so are the slacks if there are any. -/
  | fullyBounded
deriving DecidableEq

namespace BoundMode

/-- The word for a mode. -/
def name : BoundMode → String
  | unbounded => "unbounded"
  | slackBounded => "slack_bounded"
  | fullyBounded => "fully_bounded"

/-- The word for a mode in capitals. -/
def label (mode : BoundMode) : String := mode.name.toUpper

/-- The mode a word stands for. -/
def ofName (word : String) : Except Error BoundMode :=
  match [unbounded, slackBounded, fullyBounded].find? fun mode => mode.name == word with
  | some mode => pure mode
  | none => throw (.unknownMode word)

/-- The decision variables are bounded. -/
def boundsDecisions : BoundMode → Bool
  | fullyBounded => true
  | _ => false

/-- Something is bounded. -/
def boundsAny : BoundMode → Bool
  | unbounded => false
  | _ => true

end BoundMode

/-! ## Bounds as they are handed over -/

namespace Bounds

variable {n : Nat}

/-- The bounds of the leading entries of a parameter vector of length `n`; more rows than
entries are refused. -/
def ofRows (n : Nat) (rows : List (Interval α)) : Except Error (Bounds α n) :=
  if rows.length ≤ n then pure (leading rows n) else throw .incompatible

/-- An extremum over the bounded entries exists only if there is one. -/
def requireSome (b : Bounds α n) : Except Error Unit :=
  if b.free then throw .noExtremum else pure ()

/-- The bounds that a mode needs. A mode without bounds looks at none; a mode that bounds
only slacks needs the smallest of their gaps. -/
def forMode (mode : BoundMode) (n : Nat) (rows? : Option (List (Interval α))) :
    Except Error (Bounds α n) :=
  match mode, rows? with
  | .unbounded, _ => pure (leading [] n)
  | _, none => throw .missingBounds
  | .slackBounded, some rows => do
    let b ← ofRows n rows
    b.requireSome
    return b
  | .fullyBounded, some rows => ofRows n rows

end Bounds

end Sqp
