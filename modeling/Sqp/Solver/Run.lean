import Sqp.Solver.Step

/-!
# Runs

- `Solver`: options and kernels, from which the standard inner solver follows.
- `State.finished`: converged, or all major iterations used up.
- `Solver.iterate`: major iterations until the state is finished.
- `State.result`: the outcome of a run as the user sees it.
- `Solver.solve`: a whole run from specifications to outcome.
- `Session`: a run advanced by single requests.
-/

namespace Sqp

variable {α β : Type} {e q n : Nat}

/-- How a run ended. -/
inductive Ending where
  | successful
  | iterationsExhausted
deriving DecidableEq

/-- The outcome of a run. -/
structure Result (α β : Type) (q n : Nat) where
  /-- The objective at the optimum. -/
  value : α
  /-- The decision variables. -/
  optimum : Vector β n
  converged : Bool
  curvature : Mat β (q + n) (q + n)
  multipliers : List β
  /-- The objectives at the start and after each major iteration. -/
  history : List α
  iterations : Nat
  /-- The number of calls of the cost function. -/
  evaluations : Nat
  warnings : List (Nat × Int)
  ending : Ending

/-- The outcome of a run together with its sizes. -/
structure SizedResult (α β : Type) where
  inequalities : Nat
  decisions : Nat
  result : Result α β inequalities decisions

/-- No further major iteration is made. -/
def State.finished (options : Options α) (s : State α β e q n) : Bool :=
  s.converged || decide (options.majorLimit ≤ (s.iteration : Int))

/-- The outcome of a run that ends in state `s`. -/
def State.result (s : State α β e q n) : Recorded α (Result α β q n) := do
  let evaluations := (← get).evaluations
  if s.converged then report (.converged s.iteration evaluations s.objective)
  else report (.stopped s.iteration)
  return {
    value := s.objective
    optimum := back s.parameters
    converged := s.converged
    curvature := s.curvature
    multipliers := s.multipliers
    history := s.history
    iterations := s.iteration
    evaluations := evaluations
    warnings := s.warnings
    ending := if s.converged then .successful else .iterationsExhausted }

/-- Options and kernels of a run. -/
structure Solver (α β : Type) where
  options : Options α
  kernels : Kernels β

namespace Solver

/-- The settings of inner solves. -/
def settings (solver : Solver α β) : Subproblem.Settings α :=
  ⟨solver.options.minorLimit.toNat, solver.options.delta, solver.options.tolerance⟩

variable [Scalar α] [Scalar β] [Storage α β]

/-- One major iteration with the standard inner solver. -/
def step (solver : Solver α β) (f : CostFunction α) (s : State α β e q n) :
    Recorded α (State α β e q n) :=
  s.step solver.options f (Subproblem.solve solver.kernels f solver.settings)

/-- Major iterations until the state is finished, at most as many as the first argument
allows. -/
def iterate (solver : Solver α β) (f : CostFunction α) :
    Nat → State α β e q n → Recorded α (State α β e q n)
  | 0, s => pure s
  | left + 1, s => do
    if s.finished solver.options then return s
    else solver.iterate f left (← solver.step f s)

/-- A run on a problem with a given initial curvature. -/
def runProblem (solver : Solver α β) (f : CostFunction α) (problem : Problem β 0 q n)
    (curvature : Mat β (q + n) (q + n)) : Recorded α (Result α β q n) := do
  let first ← State.start solver.options f problem curvature
  let last ← solver.iterate f solver.options.majorLimit.toNat first.state
  last.result

/-- A run from specifications: the problem is built first, then the curvature is
checked, then the cost function is called. -/
def solve (solver : Solver α β) (f : CostFunction α) (parameters : SpecInput β)
    (inequalities : Option (SpecInput β)) (curvature : Option (RawArray β)) :
    Recorded α (SizedResult α β) := do
  let sized ← recorded (Problem.build parameters inequalities)
  let h ← recorded
    (Problem.initialCurvature curvature (sized.inequalities + sized.decisions))
  return ⟨sized.inequalities, sized.decisions, ← solver.runProblem f sized.problem h⟩

end Solver

/-! ## Sessions -/

/-- The requests by which a run is advanced. -/
inductive Request where
  | start
  | step
  | finished
  | result

/-- The answer to a request. -/
inductive Answer (α β : Type) (q n : Nat) where
  | state (s : SizedState α β q n)
  | finished (flag : Bool)
  | result (r : Result α β q n)

/-- A run that may or may not have been started. -/
structure Session (α β : Type) (q n : Nat) where
  solver : Solver α β
  cost : CostFunction α
  problem : Problem β 0 q n
  curvature : Mat β (q + n) (q + n)
  state? : Option (SizedState α β q n) := none

namespace Session

/-- The state of a run, an error if it was not started. -/
def current (s : Session α β q n) : Recorded α (SizedState α β q n) :=
  match s.state? with
  | some state => pure state
  | none => throw .notStarted

variable [Scalar α] [Scalar β] [Storage α β]

/-- Answers one request and returns the session as it is afterwards. -/
def perform (s : Session α β q n) (request : Request) :
    Recorded α (Answer α β q n × Session α β q n) := do
  match request with
  | .start =>
    let state ← State.start s.solver.options s.cost s.problem s.curvature
    return (.state state, { s with state? := some state })
  | .step =>
    let now ← s.current
    let state : SizedState α β q n := ⟨now.equalities, ← s.solver.step s.cost now.state⟩
    return (.state state, { s with state? := some state })
  | .finished =>
    let now ← s.current
    return (.finished (now.state.finished s.solver.options), s)
  | .result =>
    let now ← s.current
    return (.result (← now.state.result), s)

end Session

end Sqp
