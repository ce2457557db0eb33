import Sqp.Linear.Vec

/-!
# Bracketing line search

A derivative-free search on the segment from a start to a trial point. The points are
arrays, their positions and merits plain numbers. Three points are kept, at
`alpha = low ≤ mid ≤ high`; each step puts the middle one halfway and moves one end of the
bracket onto it.

- `LineSearch.Bracket`: the three points with their merits.
- `LineSearch.Bracket.narrow`: which end moves.
- `LineSearch.search`: the search, which stops once the estimated relative improvement
  or the width of the bracket falls under the tolerance.
-/

namespace Sqp.LineSearch

variable {α β : Type} {n : Nat}

/-- A point of the segment with its merit. -/
structure Trial (α β : Type) (n : Nat) where
  alpha : α
  point : Vector β n
  merit : α

/-- The two ends of a bracket and the point between them. -/
structure Bracket (α β : Type) (n : Nat) where
  low : Trial α β n
  mid : Trial α β n
  high : Trial α β n

/-- The outcome of a search. -/
structure Outcome (α β : Type) (n : Nat) where
  /-- The accepted point. -/
  parameters : Vector β n
  /-- Its merit. -/
  merit : α
  /-- The smallest merit of the three final points. -/
  bestMerit : α
  /-- The number of bisections. -/
  steps : Nat

variable [Scalar α]

/-- The point of the segment at `alpha`. -/
def along [Scalar β] [Storage α β] (start trial : Vector β n) (alpha : α) : Vector β n :=
  scaled (store (1 - alpha)) start + scaled (store alpha) trial

namespace Bracket

/-- The length of the bracket. -/
def width (b : Bracket α β n) : α := b.high.alpha - b.low.alpha

/-- The largest of the three merits; later ones count only if strictly larger. -/
def worst (b : Bracket α β n) : α :=
  Scalar.keepMax (Scalar.keepMax b.low.merit b.mid.merit) b.high.merit

/-- The smallest of the three merits; later ones count only if strictly smaller. -/
def best (b : Bracket α β n) : α :=
  Scalar.keepMin (Scalar.keepMin b.low.merit b.mid.merit) b.high.merit

/-- Moves one end onto the middle: the high end if the middle is no better than the low
end or the low end no worse than the high end, otherwise the low end. -/
def narrow (b : Bracket α β n) : Bracket α β n :=
  if b.low.merit ≤ b.mid.merit ∨ b.low.merit ≤ b.high.merit then { b with high := b.mid }
  else { b with low := b.mid }

/-- The final choice: the low end if it beats the middle, else the high end if it does,
else the middle. -/
def accepted (b : Bracket α β n) : Trial α β n :=
  if b.low.merit < b.mid.merit then b.low
  else if b.high.merit < b.mid.merit then b.high
  else b.mid

end Bracket

/-- The estimate of the remaining improvement: once all three merits lie under the
entry merit, `tolerance` times their spread over the improvement so far. -/
def improvement (merit tolerance go : α) (b : Bracket α β n) : α :=
  if b.worst < merit then tolerance * (b.worst - b.best) / (merit - b.worst) else go

/-- Bisects while `go` exceeds the tolerance, at most as often as the first argument
allows, and counts the bisections. -/
def bisect [Scalar β] [Storage α β] {m : Type → Type} [Monad m] (meritAt : Vector β n → m α)
    (start trial : Vector β n) (merit tolerance : α) :
    Nat → α → Nat → Bracket α β n → m (Nat × Bracket α β n)
  | 0, _, steps, b => pure (steps, b)
  | fuel + 1, go, steps, b =>
    if tolerance < go then do
      let alpha := 0.5 * (b.low.alpha + b.high.alpha)
      let point := along start trial alpha
      let value ← meritAt point
      let halved := { b with mid := ⟨alpha, point, value⟩ }
      let estimate := improvement merit tolerance go halved
      let narrowed := halved.narrow
      let next := if tolerance ≤ estimate then narrowed.width else estimate
      bisect meritAt start trial merit tolerance fuel next (steps + 1) narrowed
    else pure (steps, b)

/-- Searches the segment from `start`, whose merit is given, to `trial`. Without rounding the
bracket has come down to the tolerance when the halving limit is reached. A bracket that
rounding keeps from getting narrower is given up there, and the choice is made from it. -/
def search [Scalar β] [Storage α β] {m : Type → Type} [Monad m] (meritAt : Vector β n → m α)
    (start trial : Vector β n) (merit tolerance : α) : m (Outcome α β n) := do
  let trialMerit ← meritAt trial
  let first : Trial α β n := ⟨0, start, merit⟩
  let (steps, b) ← bisect meritAt start trial merit tolerance
    (Scalar.halvingLimit tolerance) 1 0 ⟨first, first, ⟨1, trial, trialMerit⟩⟩
  let choice := b.accepted
  return ⟨choice.point, choice.merit, b.best, steps⟩

end Sqp.LineSearch
