import Sqp.Merit
import Sqp.Solver.Options
import Sqp.Subproblem

/-!
# States of a run

- `State`: what is carried from one major iteration to the next.
- `settleSlacks`: slacks moved onto the inequality values when all of these lie strictly
  inside their bounds.
- `State.start`: evaluates the initial point, which fixes the number of equality
  constraints.
-/

namespace Sqp

variable {α β : Type} {e q n : Nat}

/-- The state between major iterations, in user units. Vectors are arrays; objectives,
norms and coefficients are plain numbers. -/
structure State (α β : Type) (e q n : Nat) where
  problem : Problem β e q n
  /-- The slacks and decision variables. -/
  parameters : Vector β (q + n)
  /-- One multiplier for each constraint; a problem without constraints starts with an
  idle one. -/
  multipliers : List β
  curvature : Mat β (q + n) (q + n)
  /-- The cost vector at the decision variables. -/
  cost : Cost β (e + q)
  objective : α
  /-- The penalty coefficient. -/
  rho : α
  /-- The damping of Newton steps. -/
  mu : α
  /-- The relative change of the objective in the last iteration. -/
  objectiveChange : α
  /-- The Euclidean norm of the constraint residuals. -/
  constraintNorm : α
  /-- The number of completed iterations. -/
  iteration : Nat
  converged : Bool
  /-- The objectives at the start and after each iteration. -/
  history : List α
  /-- The noted warnings: iteration and number. -/
  warnings : List (Nat × Int)

/-- A state together with its number of equality constraints. -/
structure SizedState (α β : Type) (q n : Nat) where
  equalities : Nat
  state : State α β equalities q n

variable [Scalar α] [Scalar β] [Storage α β]

/-- The slack bounds of a problem all hold strictly for the given inequality values. -/
def slacksAdmit (problem : Problem β e q n) (values : Vector β q) : Bool :=
  (Vector.zipWith (fun interval? v => interval?.all fun b => b.contains v)
    (front problem.bounds) values).all id

/-- The parameters with their slacks moved onto the inequality values, if all of these
lie strictly inside their bounds; otherwise unchanged. -/
def settleSlacks (problem : Problem β e q n) (p : Vector β (q + n)) (c : Vector β (e + q)) :
    Vector β (q + n) :=
  if slacksAdmit problem (back c) then back c ++ back p else p

/-- Settled parameters with the residuals of the constraints there. -/
def constraintResiduals (problem : Problem β e q n) (p : Vector β (q + n))
    (c : Vector β (e + q)) : Vector β (q + n) × Vector β (e + q) :=
  let settled := settleSlacks problem p c
  (settled, front c ++ (back c - front settled))

/-- The number of equality constraints of a cost vector with a given number of values;
there is none if the objective and the inequality values do not fit in. -/
def equalityCount (values q : Nat) : Except Error Nat :=
  if values < q + 1 then throw (.precondition (.costRoom values q))
  else pure (values - 1 - q)

/-- The penalty at the start: none if there are no inequality constraints and the
equality constraints hold within ten tolerances. -/
def initialPenalty (options : Options α) (q : Nat) (norm : α) : α :=
  if Scalar.keepMax (norm - 10.0 * options.tolerance) (q : α) ≤ 0 then 0 else options.rho

/-- The state at the initial point with its cost vector. -/
def State.ofCost (options : Options α) (problem : Problem β e q n)
    (curvature : Mat β (q + n) (q + n)) (cost : Cost β (e + q)) : State α β e q n :=
  let (parameters, residuals) := constraintResiduals problem problem.parameters cost.constraints
  let norm := if e + q = 0 then 0 else load (euclideanNorm residuals)
  { problem := problem
    parameters := parameters
    multipliers := List.replicate (max (e + q) 1) 0
    curvature := curvature
    cost := cost
    objective := load cost.objective
    rho := if e + q = 0 then options.rho else initialPenalty options q norm
    mu := (n : α)
    objectiveChange := 0
    constraintNorm := norm
    iteration := 0
    converged := false
    history := [load cost.objective]
    warnings := [] }

/-- Evaluates the initial point. -/
def State.start (options : Options α) (f : CostFunction α) (problem : Problem β 0 q n)
    (curvature : Mat β (q + n) (q + n)) : Recorded α (SizedState α β q n) := do
  let values ← evaluate f (back problem.parameters).toList
  let e ← recorded (equalityCount values.length q)
  match (Cost.ofList? values : Option (Cost β (e + q))) with
  | none => throw (.precondition (.costRoom values.length q))
  | some cost =>
    let state := State.ofCost options (problem.withEqualities e) curvature cost
    report (.started n e q problem.mode state.objective state.constraintNorm)
    return ⟨e, state⟩

end Sqp
