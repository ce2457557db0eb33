import Sqp.Problem.Spec

/-!
# Problems

A problem in canonical layout. Its parameter vector holds the slacks of the `q`
inequality constraints followed by the `n` decision variables; a third index counts
the `e` equality constraints, which become known with the first cost vector.

- `Problem`: initial parameters, bounds and bound mode.
- `Problem.build`: the problem of two specifications.
- `Problem.initialCurvature`: a given curvature matrix, checked for its size, or the
  identity.
-/

namespace Sqp

variable {α : Type} {e q n : Nat}

/-- A problem with `e` equality constraints, `q` inequality constraints and `n`
decision variables. -/
structure Problem (α : Type) (e q n : Nat) where
  /-- The initial slacks and decision variables. -/
  parameters : Vector α (q + n)
  /-- The bounds of slacks and decision variables. -/
  bounds : Bounds α (q + n)
  /-- Which of the two parts are bounded. -/
  mode : BoundMode

/-- A problem together with its sizes, before any cost vector is known. -/
structure SizedProblem (α : Type) where
  inequalities : Nat
  decisions : Nat
  problem : Problem α 0 inequalities decisions

namespace Problem

/-- The same problem with another number of equality constraints. -/
def withEqualities (p : Problem α e q n) (e' : Nat) : Problem α e' q n :=
  ⟨p.parameters, p.bounds, p.mode⟩

variable [Scalar α]

/-- The mode of decision variables with or without bounds next to `q` slacks. -/
def modeOf (decisionBounds : Option (List (Interval α))) (q : Nat) : BoundMode :=
  if decisionBounds.isSome then .fullyBounded
  else if 0 < q then .slackBounded
  else .unbounded

/-- The problem of parsed specifications: slacks first, then decision variables, each
with its own bounds. -/
def ofSpecs (parameters : Spec α) (inequalities : Option (Spec α)) : SizedProblem α :=
  let slacks := (inequalities.map Spec.guess).getD []
  let slackBounds := (inequalities.bind Spec.intervals?).getD []
  let decisions := parameters.guess
  let decisionBounds := parameters.intervals?
  { inequalities := slacks.length
    decisions := decisions.length
    problem :=
      { parameters := ofList slacks ++ ofList decisions
        bounds := Bounds.leading slackBounds slacks.length
          ++ Bounds.leading (decisionBounds.getD []) decisions.length
        mode := modeOf decisionBounds slacks.length } }

/-- The problem that two inputs specify; the parameters are checked first. -/
def build (parameters : SpecInput α) (inequalities : Option (SpecInput α)) :
    Except Error (SizedProblem α) := do
  let p ← Spec.ofParameters parameters
  let h ← Spec.ofInequalities inequalities
  return ofSpecs p h

/-- A given curvature matrix for `N` parameters, or the identity. -/
def initialCurvature (given : Option (RawArray α)) (N : Nat) : Except Error (Mat α N N) :=
  match given with
  | none => pure (Mat.identity α N)
  | some data => do
    let h ← data.toTensor
    if h.shape = [N, N] then h.toMat N N
    else throw (.precondition (.curvatureShape N h.shape))

end Problem

end Sqp
