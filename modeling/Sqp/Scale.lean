import Sqp.Journal
import Sqp.Linear.Mat
import Sqp.Problem.Basic

/-!
# Scaling to unit magnitudes

An inner solve works on quantities divided by a scale. The scale has one factor for the
objective, one for each equality constraint and one for each parameter; an inequality
constraint shares the factor of its slack.

- `Scale`: the factors, and `Scale.constraints`, `Scale.decisions`, the views of them
  that constraint values and decision variables use.
- `Scale.compute`: the factors at a point. Objective and equality values count only
  when there are equality constraints, parameter magnitudes only when nothing is
  bounded.
- `scaleCost`, `scaleParameters`, `scaleBounds`, `scaleMultipliers`, `scaleCurvature`:
  the way in; `unscaleParameters`, `unscaleMultipliers`, `unscaleCurvature`,
  `userPoint`: the way out.
- `Scale.evaluate`: the scaled cost vector at a scaled parameter vector.
-/

namespace Sqp

variable {α β : Type} {e q n : Nat}

/-- The scale factors of an inner solve. -/
structure Scale (β : Type) (e q n : Nat) where
  /-- The factor of the objective. -/
  objective : β
  /-- The factors of the equality constraints. -/
  equalities : Vector β e
  /-- The factors of slacks and decision variables. -/
  parameters : Vector β (q + n)

namespace Scale

/-- All factors: objective, equality constraints, parameters. -/
def values (s : Scale β e q n) : List β :=
  s.objective :: (s.equalities.toList ++ s.parameters.toList)

/-- The factors of the constraints: those of the equality constraints, then those of
the slacks. -/
def constraints (s : Scale β e q n) : Vector β (e + q) := s.equalities ++ front s.parameters

/-- The factors of a cost vector. -/
def cost (s : Scale β e q n) : Cost β (e + q) := ⟨s.objective, s.constraints⟩

/-- The factors of the decision variables. -/
def decisions (s : Scale β e q n) : Vector β n := back s.parameters

variable [Scalar β]

/-! ## The way in -/

/-- A cost vector in scaled units. -/
def scaleCost (s : Scale β e q n) (c : Cost β (e + q)) : Cost β (e + q) :=
  ⟨c.objective / s.objective, divEach c.constraints s.constraints⟩

/-- A parameter vector in scaled units. -/
def scaleParameters (s : Scale β e q n) (p : Vector β (q + n)) : Vector β (q + n) :=
  divEach p s.parameters

/-- Bounds in scaled units. -/
def scaleBounds (s : Scale β e q n) (b : Bounds β (q + n)) : Bounds β (q + n) :=
  b.divide s.parameters

/-- Multipliers of the constraints in scaled units. -/
def scaleMultipliers (s : Scale β e q n) (y : Vector β (e + q)) : Vector β (e + q) :=
  (mulEach s.constraints y).map fun a => Scalar.share (e + q) a s.objective

/-- A curvature matrix in scaled units. -/
def scaleCurvature (s : Scale β e q n) (a : Mat β (q + n) (q + n)) : Mat β (q + n) (q + n) :=
  Mat.ofFn fun i j =>
    Scalar.share ((q + n) * (q + n)) (a.entry i j * (s.parameters.get i * s.parameters.get j))
      s.objective

/-! ## The way out -/

/-- A scaled parameter vector in user units. -/
def unscaleParameters (s : Scale β e q n) (p : Vector β (q + n)) : Vector β (q + n) :=
  mulEach p s.parameters

/-- Scaled multipliers of the constraints in user units. -/
def unscaleMultipliers (s : Scale β e q n) (y : Vector β (e + q)) : Vector β (e + q) :=
  divEach (scaled s.objective y) s.constraints

/-- A scaled curvature matrix in user units. -/
def unscaleCurvature (s : Scale β e q n) (a : Mat β (q + n) (q + n)) : Mat β (q + n) (q + n) :=
  Mat.ofFn fun i j => s.objective * a.entry i j / (s.parameters.get i * s.parameters.get j)

/-- The decision variables of a scaled parameter vector in user units. -/
def userPoint (s : Scale β e q n) (p : Vector β (q + n)) : Vector β n :=
  mulEach (back p) s.decisions

/-- The scaled cost vector at a scaled parameter vector. -/
def evaluate [Storage α β] (s : Scale β e q n) (f : CostFunction α) (p : Vector β (q + n)) :
    Recorded α (Cost β (e + q)) := do
  return s.scaleCost (← evaluateSized f (e + q) (s.userPoint p).toList)

/-! ## The factors at a point -/

/-- The scale at a point with the given objective and equality values: magnitudes limited
to `[tolerance, 1 / tolerance]`, all equality constraints sharing the largest one. A zero
tolerance has no reciprocal and is refused. -/
def compute [Scalar α] [Storage α β] (mode : BoundMode) (objective : β) (equalities : List β)
    (p : Vector β (q + n)) (tolerance : α) : Except Error (Scale β e q n) := do
  let limit ← Scalar.quotient 1 tolerance
  let factor (a : β) : β := Scalar.clamp (store tolerance) (store limit) (Scalar.abs a)
  return {
    objective := factor (if 0 < e then objective else 1)
    equalities := Vector.replicate e (factor (infinityNorm (ofList equalities)))
    parameters :=
      match mode with
      | .unbounded => p.map factor
      | _ => Vector.replicate (q + n) (factor 1) }

end Scale

end Sqp
