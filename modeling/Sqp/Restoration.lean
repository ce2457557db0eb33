import Sqp.Linear.Broadcast
import Sqp.Linear.Kernels
import Sqp.Problem.Bounds

/-!
# Feasibility restoration

Before descent starts, a violated linearisation is repaired.

- `projectOntoConstraints`: without bounds, the least-norm correction
  `p - Aᵀ (A Aᵀ)⁻¹ c`.
- `Restoration.restore`: with bounds, an artificial variable `t`, at first one, makes
  `A p - t c` consistent, and affine-scaling steps drive it to zero while a ratio test
  keeps every bounded variable inside its bounds.
-/

namespace Sqp

variable {α β : Type} [Scalar α] [Scalar β] [Storage α β] {m n : Nat}

/-- The least-norm direction `Aᵀ (A Aᵀ)⁻¹ c` that takes a linearised violation `c` off a
point; refused if the rows of the Jacobian are exactly dependent. -/
def leastNormCorrection (K : Kernels β) (jacobian : Mat β m n) (c : Vector β m) :
    Except Error (Vector β n) := do
  let y ← K.leastSquares (jacobian.mul jacobian.transpose) c true
  return jacobian.transpose.mulVec y

/-- The point nearest to `p` at which the linearised constraints hold. -/
def projectOntoConstraints (K : Kernels β) (p : Vector β n) (jacobian : Mat β m n)
    (c : Vector β m) : Except Error (Vector β n) := do
  return p - (← leastNormCorrection K jacobian c)

/-- The projection of a point as it is handed over. -/
def projectValues (K : Kernels β) (p : List β) (jacobian : Mat β m n) (c : Vector β m) :
    Except Error (List β) := do
  if h : p.length = n then return (← projectOntoConstraints K ((ofList p).cast h) jacobian c).toList
  else combine (· - ·) p (← leastNormCorrection K jacobian c).toList

namespace Restoration

/-- The largest number of restoration steps. -/
def stepLimit : Nat := 10

/-- The fraction of the way to a bound that a step may go. -/
def safety : α := 0.9

/-- The least scale of an unbounded variable next to bounded slacks. -/
def freeScale : β := 100.0

/-- The linearised constraints, their violation and the bounds. -/
structure Task (α β : Type) (m n : Nat) where
  jacobian : Mat β m n
  residuals : Vector β m
  bounds : Bounds β n
  mode : BoundMode
  tolerance : α

/-- A parameter vector, or a direction, extended by its artificial variable. -/
structure Extended (β : Type) (n : Nat) where
  parameters : Vector β n
  artificial : β

/-- The outcome of a restoration. -/
structure Outcome (β : Type) (n : Nat) where
  /-- The restored point. -/
  parameters : Vector β n
  /-- The artificial variable vanished before the steps ran out. -/
  complete : Bool
  /-- The number of steps. -/
  steps : Nat

/-! ## One step -/

/-- The largest distance of a bounded variable to its nearest bound, at least
`freeScale`. -/
def widest (bounds : Bounds β n) (p : Vector β n) : β :=
  (Vector.zip bounds p).foldl
    (fun largest (interval?, x) => match interval? with
      | some b => Scalar.greater largest (b.nearest x)
      | none => largest)
    freeScale

/-- The scale of each variable: its distance to the nearest bound; for unbounded
variables one, or the widest distance where only slacks are bounded. -/
def scales (bounds : Bounds β n) (mode : BoundMode) (p : Vector β n) :
    Except Error (Vector β n) := do
  if !mode.boundsDecisions then bounds.requireSome
  let free := if mode.boundsDecisions then 1 else widest bounds p
  return Vector.zipWith (fun interval? x => match interval? with
    | some b => b.nearest x
    | none => free) bounds p

/-- The columns of the Jacobian followed by the column of the artificial variable, the
violation with its sign changed. -/
def extendedColumns (task : Task α β m n) : Mat β (n + 1) m :=
  task.jacobian.transpose.push (-task.residuals)

/-- The affine-scaling direction: the extended unit vector of the artificial variable,
projected onto the null space of the scaled constraints and scaled twice. -/
def direction (K : Kernels β) (task : Task α β m n) (s : Extended β n) :
    Except Error (Extended β n) := do
  let d := (← scales task.bounds task.mode s.parameters).push s.artificial
  let unit := (zeros β n).push 1
  let columns := extendedColumns task
  let scaledColumns : Mat β (n + 1) m :=
    Vector.zipWith (fun c column => column.map (· * c)) d columns
  let y ← K.leastSquares scaledColumns (mulEach d unit) false
  let v := mulEach d (mulEach d (unit - columns.mulVec y))
  return ⟨front v, v.get (Fin.last n)⟩

/-- How far `x` can move against `v` before it meets a bound; none if it does not
move. -/
def ratio? (b : Interval β) (x v : β) : Option β :=
  if v < 0 then some (-(b.upper - x) / v)
  else if 0 < v then some ((x - b.lower) / v)
  else none

/-- The smallest of the ratios of the bounded variables that move. -/
def smallestRatio? (bounds : Bounds β n) (p v : Vector β n) : Option β :=
  (Vector.zip bounds (Vector.zip p v)).foldl
    (fun least? (interval?, x, w) =>
      match interval?.bind fun b => ratio? b x w with
      | none => least?
      | some r => some (match least? with
        | none => r
        | some least => Scalar.lesser least r))
    none

/-- The length of the step that makes the artificial variable vanish, or a safe part
of the way to the nearest bound if that comes first. -/
def stepLength (bounds : Bounds β n) (s v : Extended β n) : α :=
  let full := load s.artificial / load v.artificial
  let limit := match smallestRatio? bounds s.parameters v.parameters with
    | none => full
    | some r => Scalar.keepMin full (load r)
  if full ≤ limit then limit else safety * limit

/-- The point reached by a step of length `z` against `v`. -/
def move (s v : Extended β n) (z : β) : Extended β n :=
  ⟨s.parameters - scaled z v.parameters, s.artificial - z * v.artificial⟩

/-! ## The loop -/

/-- Steps while `go` is at least the tolerance and steps remain. A direction that does
not decrease the artificial variable uses up all steps. -/
def loop (K : Kernels β) (task : Task α β m n) :
    Nat → α → Nat → Extended β n → Except Error (Nat × Extended β n)
  | 0, _, steps, s => pure (steps, s)
  | fuel + 1, go, steps, s =>
    if task.tolerance ≤ go then do
      let v ← direction K task s
      if load v.artificial ≤ 0 then return (stepLimit, s)
      task.bounds.requireSome
      let next := move s v (store (stepLength task.bounds s v))
      loop K task fuel (load next.artificial) (steps + 1) next
    else pure (steps, s)

/-- Restores feasibility from a point strictly inside the bounds. -/
def restore (K : Kernels β) (task : Task α β m n) (p : Vector β n) :
    Except Error (Outcome β n) := do
  let (steps, s) ← loop K task stepLimit 1 0 ⟨p, 1⟩
  return ⟨s.parameters, decide (steps < stepLimit), steps⟩

end Restoration

end Sqp
