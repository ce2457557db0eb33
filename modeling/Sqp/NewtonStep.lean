import Sqp.Linear.Kernels
import Sqp.Problem.Bounds

/-!
# Damped Newton steps

A step minimises the quadratic model `gᵀ u + ½ uᵀ (h + mu · d²) u` over the null space
of the constraint Jacobian, where the trust scale `d` grows as a variable approaches a
bound. The damping `mu`, a plain number, is tripled until the step ends strictly inside the
bounds.

- `trustScale`: the inverse distance of each variable to its nearest bound.
- `NewtonStep.dampedMatrix`, `NewtonStep.direction`: the matrix of the model for one
  damping, and its minimiser with the multipliers of the linearised constraints.
- `NewtonStep.compute`: the first acceptable trial point and the damping to go on with.
-/

namespace Sqp

variable {α β : Type} [Scalar α] [Scalar β] [Storage α β] {m n : Nat}

/-! ## Trust scale -/

/-- The trust scale of a variable that is far from all bounds. -/
def defaultTrust : β := 0.01

/-- The trust scale of a bounded variable: the inverse of its distance to the nearest
bound, which is kept off zero by a small constant. -/
def boundedTrust (b : Interval β) (x : β) : β :=
  1 / (b.nearest x + Scalar.sqrt Scalar.epsilon)

/-- The smallest trust scale of a bounded variable, at most the default. -/
def trustFloor (bounds : Bounds β n) (p : Vector β n) : β :=
  (Vector.zip bounds p).foldl
    (fun least (interval?, x) => match interval? with
      | some b => Scalar.lesser least (boundedTrust b x)
      | none => least)
    defaultTrust

/-- The trust scale of all variables. Where only slacks are bounded, the decision
variables take the smallest scale of the slacks if that is below the default. -/
def trustScale (p : Vector β n) (bounds : Bounds β n) (mode : BoundMode) : Vector β n :=
  match mode with
  | .unbounded => Vector.replicate n defaultTrust
  | _ =>
    let free := if mode.boundsDecisions then defaultTrust else trustFloor bounds p
    Vector.zipWith (fun interval? x => match interval? with
      | some b => boundedTrust b x
      | none => free) bounds p

/-! ## Steps -/

/-- A trial point with the multipliers found on the way. -/
structure NewtonStep (α β : Type) (m n : Nat) where
  /-- The trial point. -/
  parameters : Vector β n
  /-- The multipliers of the linearised constraints. -/
  multipliers : Vector β m
  /-- The damping to go on with. -/
  mu : α
  /-- The number of factorisations. -/
  trials : Nat

namespace NewtonStep

/-- The quadratic model at the current point, with what does not change from trial to
trial. -/
structure Model (β : Type) (m n : Nat) where
  curvature : Mat β n n
  gradient : Vector β n
  jacobian : Mat β m n
  trust : Vector β n

/-- The curvature with `mu` times the squared trust scale added to its diagonal. -/
def dampedMatrix (model : Model β m n) (mu : β) : Mat β n n :=
  model.curvature + (Mat.diagonal (mulEach model.trust model.trust)).mapEntries (mu * ·)

/-- The minimiser of the damped model over the null space of the Jacobian, and the
multipliers of the constraints. -/
def direction (K : Kernels β) (model : Model β m n) (mu : β) :
    Except Error (Vector β n × Vector β m) := do
  let l := K.cholesky (dampedMatrix model mu)
  let g := K.solveLower l model.gradient
  let w := Mat.transpose (model.jacobian.map (K.solveLower l))
  let y ← K.leastSquares w g false
  let u := -(K.solveUpper l.transpose (g - w.mulVec y))
  return (u, y)

/-- Triples the damping until the trial point is finite and strictly inside the bounds.
Without bounds the first finite trial is taken with its own damping; with bounds the
damping returned is already tripled. The first argument limits the trials: it makes no
difference to a positive damping that becomes infinite before, but a damping of zero stays
zero, and the trials that are all refused then end with it. -/
def damp (K : Kernels β) (model : Model β m n) (p : Vector β n) (bounds : Bounds β n) :
    Nat → α → Nat → Except Error (NewtonStep α β m n)
  | 0, _, _ => throw .trialsExhausted
  | fuel + 1, mu, trials => do
    let (u, y) ← direction K model (store mu)
    let trial := p + u
    let acceptable := allFinite trial && bounds.strictlyInside trial
    let tripled := 3.0 * mu
    if acceptable then
      let next := if bounds.free then mu else tripled
      return ⟨trial, y, next, trials + 1⟩
    else if Scalar.isFinite tripled then damp K model p bounds fuel tripled (trials + 1)
    else throw .noInteriorStep

/-- The first trial point inside the bounds, starting from the damping `mu`. -/
def compute (K : Kernels β) (model : Model β m n) (p : Vector β n) (bounds : Bounds β n)
    (mu : α) : Except Error (NewtonStep α β m n) :=
  damp K model p bounds K.trialLimit mu 0

/-- The first trial point inside bounds that are handed over as rows. Rows that are given
but empty have no smallest gap, which is found out with the first finite trial. -/
def computeWithin (K : Kernels β) (model : Model β m n) (p : Vector β n)
    (rows? : Option (List (Interval β))) (mu : α) : Except Error (NewtonStep α β m n) := do
  let bounds ← Bounds.ofRows n (rows?.getD [])
  let step ← compute K model p bounds mu
  if rows?.isSome then bounds.requireSome
  return step

/-- The multipliers after a step: fresh ones if there are constraints, else the ones that
were there before. -/
def multipliersAfter (step : NewtonStep α β m n) (kept : List β) : List β :=
  if m = 0 then kept else step.multipliers.toList

end NewtonStep

end Sqp
