import Sqp.Solver.State

/-!
# Major iterations

A major iteration hands the current point to an inner solver, evaluates the cost
function at the answer, and adapts the penalty to the trend of the constraint norm.

- `Penalty.adapt`: a norm under ten tolerances drops the penalty and caps the damping; a
  norm under five times the last one divides the penalty by five; a norm over ten times
  the last one raises it.
- `stagnates`: neither the objective nor the feasibility improved.
- `State.step`: the iteration, for any inner solver.
- `State.innerStart`: what the inner solver gets to see.
-/

namespace Sqp

variable {α β : Type} {e q n : Nat}

/-- The point, multipliers, cost, curvature, damping and penalty of a state. -/
def State.innerStart (s : State α β e q n) : InnerStart α β e q n where
  parameters := s.parameters
  multipliers := s.multipliers
  cost := s.cost
  curvature := s.curvature
  mu := s.mu
  rho := s.rho

/-- Emits the warnings of a major iteration in order; an unknown number is an error. -/
def announce (iteration : Nat) : List Int → Recorded α Unit
  | [] => pure ()
  | code :: codes => do
    let w ← recorded (Warning.ofCode code)
    emit iteration w
    announce iteration codes

variable [Scalar α]

/-! ## Adaptation -/

/-- The penalty coefficient together with the damping. -/
structure Penalty (α : Type) where
  rho : α
  mu : α

namespace Penalty

/-- Close to feasibility the penalty is dropped and the damping capped. -/
def relax (tolerance norm : α) (w : Penalty α) : Penalty α :=
  if norm < 10.0 * tolerance then ⟨0, Scalar.keepMin w.mu tolerance⟩ else w

/-- The penalty falls while the constraint norm stays under five times its last value,
and rises once it exceeds ten times that value. -/
def followTrend (tolerance last norm : α) (w : Penalty α) : Penalty α :=
  if norm < 5.0 * last then ⟨w.rho / 5.0, w.mu⟩
  else if 10.0 * last < norm then
    ⟨5.0 * Scalar.keepMax w.rho (Scalar.sqrt tolerance), w.mu⟩
  else w

/-- The penalty and the damping after a constraint norm `norm` that followed `last`. -/
def adapt (tolerance last norm : α) (w : Penalty α) : Penalty α :=
  followTrend tolerance last norm (relax tolerance norm w)

end Penalty

/-- The objective did not fall by more than the tolerance and the constraint norm did
not fall. -/
def stagnates (tolerance objectiveChange last norm : α) : Bool :=
  decide (Scalar.keepMax (tolerance + objectiveChange) (last - norm) ≤ 0)

/-! ## The iteration -/

variable [Scalar β] [Storage α β]

/-- The state after an inner result whose cost vector is given. -/
def State.advance (options : Options α) (s : State α β e q n) (r : InnerResult α β q n)
    (cost : Cost β (e + q)) : State α β e q n :=
  let tolerance := options.tolerance
  let objective := load cost.objective
  let change := (s.objective - objective) / Scalar.keepMax (Scalar.abs objective) 1
  let iteration := s.iteration + 1
  let common : State α β e q n :=
    { problem := s.problem
      parameters := r.parameters
      multipliers := r.multipliers
      curvature := r.curvature
      cost := cost
      objective := objective
      rho := s.rho
      mu := r.mu
      objectiveChange := change
      constraintNorm := s.constraintNorm
      iteration := iteration
      converged := false
      history := s.history ++ [objective]
      warnings := s.warnings ++ r.warnings.map fun code => (iteration, code) }
  let next :=
    if e + q = 0 then common
    else
      let (parameters, residuals) := constraintResiduals s.problem r.parameters cost.constraints
      let norm := load (euclideanNorm residuals)
      let weights := Penalty.adapt tolerance s.constraintNorm norm ⟨s.rho, r.mu⟩
      let reset := stagnates tolerance change s.constraintNorm norm
      { common with
        parameters := parameters
        multipliers := if reset then r.multipliers.map fun _ => 0 else r.multipliers
        curvature := if reset then Curvature.diagonalize r.curvature else r.curvature
        rho := weights.rho
        mu := weights.mu
        constraintNorm := norm }
  { next with
    converged := decide (Scalar.length [next.objectiveChange, next.constraintNorm] ≤ tolerance) }

/-- One major iteration with the given inner solver. -/
def State.step (options : Options α) (f : CostFunction α) (inner : InnerSolver α β e q n)
    (s : State α β e q n) : Recorded α (State α β e q n) := do
  let r ← inner s.problem s.innerStart
  announce (s.iteration + 1) r.warnings
  let cost ← evaluateSized f (e + q) (back r.parameters).toList
  let next := s.advance options r cost
  report (.majorDone next.iteration next.objective next.objectiveChange next.constraintNorm
    next.rho next.mu r.minorIterations r.reduction)
  return next

end Sqp
