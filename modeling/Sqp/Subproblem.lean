import Sqp.Curvature
import Sqp.LineSearch
import Sqp.Merit
import Sqp.NewtonStep
import Sqp.Restoration
import Sqp.Scale

/-!
# Inner solves

One inner solve improves a point on the augmented Lagrangian of the constraints
linearised at it. All inputs and outputs are in user units, everything in between is
scaled.

- `Subproblem.linearise`: differences the constraints and, if they are violated,
  restores feasibility of the linearisation.
- `Subproblem.minorStep`: gradient, curvature update, Newton step and line search.
- `Subproblem.descend`: minor iterations until the merit stalls or their number is used
  up.
- `Subproblem.prepare`: everything before the first minor iteration.
- `Subproblem.run`: an inner solve with its whole course; `Subproblem.solve` keeps the
  last point only, in user units.
-/

namespace Sqp

variable {α β : Type} {e q n : Nat}

/-- What an inner solve starts from, in user units. -/
structure InnerStart (α β : Type) (e q n : Nat) where
  parameters : Vector β (q + n)
  /-- One multiplier for each constraint; without constraints their number is free. -/
  multipliers : List β
  /-- The cost vector at the parameters. -/
  cost : Cost β (e + q)
  curvature : Mat β (q + n) (q + n)
  /-- The damping of Newton steps. -/
  mu : α
  /-- The penalty coefficient. -/
  rho : α

/-- What an inner solve ends with, in user units. -/
structure InnerResult (α β : Type) (q n : Nat) where
  parameters : Vector β (q + n)
  multipliers : List β
  curvature : Mat β (q + n) (q + n)
  /-- The damping to go on with. -/
  mu : α
  /-- The relative merit reduction of the last minor iteration. -/
  reduction : α
  minorIterations : Nat
  /-- The numbers of the warnings noted on the way. -/
  warnings : List Int

/-- A way to solve inner problems. -/
abbrev InnerSolver (α β : Type) (e q n : Nat) : Type :=
  Problem β e q n → InnerStart α β e q n → Recorded α (InnerResult α β q n)

namespace Subproblem

/-- Limits and tolerances of an inner solve. -/
structure Settings (α : Type) where
  /-- The largest number of minor iterations. -/
  minorLimit : Nat
  /-- The finite-difference step in scaled units. -/
  delta : α
  tolerance : α

/-- The linearised constraints at a point where they hold as well as restoration could
make them. -/
structure Linearisation (β : Type) (e q n : Nat) where
  point : Vector β (q + n)
  /-- The gradient of the objective at the point of entry. -/
  gradient : Vector β (q + n)
  jacobian : Mat β (e + q) (q + n)
  offset : Vector β (e + q)
  /-- The point is not the point of entry, or nothing was differenced there. -/
  stale : Bool
  notes : List Warning

/-- A point of the descent. -/
structure Iterate (α β : Type) (e q n : Nat) where
  point : Vector β (q + n)
  merit : α
  /-- The last gradient that was computed. -/
  gradient : Vector β (q + n)
  /-- The gradient is not the one at the point. -/
  stale : Bool
  curvature : Mat β (q + n) (q + n)
  mu : α
  multipliers : Vector β (e + q)
  /-- The point before this one, with its gradient. -/
  previous? : Option (Vector β (q + n) × Vector β (q + n))
  /-- The relative merit reduction on the way to the point. -/
  reduction : α
  /-- The merit did not fall by more than the tolerance on the way to the point. -/
  stalled : Bool
  /-- The bisections of the line search on the way to the point. -/
  bisections : Nat

/-- What stays fixed during a descent. -/
structure Landscape (α β : Type) (e q n : Nat) where
  kernels : Kernels β
  /-- The scaled cost vector at a scaled point. -/
  costAt : Vector β (q + n) → Recorded α (Cost β (e + q))
  lagrangian : AugmentedLagrangian β e q n
  bounds : Bounds β (q + n)
  mode : BoundMode
  settings : Settings α

/-- An inner solve before its first minor iteration, in scaled units. -/
structure Preparation (α β : Type) (e q n : Nat) where
  scale : Scale β e q n
  notes : List Warning
  lagrangian : AugmentedLagrangian β e q n
  /-- Where the descent starts. -/
  start : Iterate α β e q n

/-- An inner solve with its whole course, in scaled units. -/
structure Descent (α β : Type) (e q n : Nat) where
  scale : Scale β e q n
  notes : List Warning
  /-- Where the descent starts. -/
  start : Iterate α β e q n
  /-- The points after each minor iteration. -/
  course : List (Iterate α β e q n)

/-- The last point of a descent. -/
def Descent.last (d : Descent α β e q n) : Iterate α β e q n := d.course.getLastD d.start

variable [Scalar α] [Scalar β] [Storage α β]

/-! ## Linearisation -/

/-- The Jacobian is so ill-conditioned that its rows count as dependent. -/
def redundant (K : Kernels β) (jacobian : Mat β (e + q) (q + n)) : Bool :=
  (K.conditionNumber? jacobian).any fun c => decide (1 / Scalar.epsilon < c)

/-- Moves a violated linearisation towards feasibility: without bounds by projection,
with bounds by restoration, whose point fixes a new offset. -/
def repair (K : Kernels β) (mode : BoundMode) (bounds : Bounds β (q + n)) (tolerance : α)
    (residuals : Vector β (e + q)) (l : Linearisation β e q n) :
    Recorded α (Linearisation β e q n) := do
  match mode with
  | .unbounded =>
    let point ← recorded (projectOntoConstraints K l.point l.jacobian residuals)
    return { l with point := point, stale := true }
  | _ =>
    let restored ← recorded
      (Restoration.restore K ⟨l.jacobian, residuals, bounds, mode, tolerance⟩ l.point)
    report (.restored restored.steps)
    let note := if restored.complete then [] else [Warning.restorationIncomplete]
    return { l with
      point := restored.parameters
      offset := l.jacobian.mulVec restored.parameters
      stale := true
      notes := l.notes ++ note }

/-- The cost vector at the point of a linearisation, which at the point of entry is
known. -/
def Linearisation.cost (l : Linearisation β e q n)
    (costAt : Vector β (q + n) → Recorded α (Cost β (e + q))) (atEntry : Cost β (e + q)) :
    Recorded α (Cost β (e + q)) :=
  if l.stale then costAt l.point else pure atEntry

/-- The linearisation of the constraints at a scaled point with its scaled cost. -/
def linearise (K : Kernels β) (costAt : Vector β (q + n) → Recorded α (Cost β (e + q)))
    (mode : BoundMode) (bounds : Bounds β (q + n)) (settings : Settings α)
    (p : Vector β (q + n)) (cost : Cost β (e + q)) : Recorded α (Linearisation β e q n) := do
  if e + q = 0 then
    return ⟨p, zeros β (q + n), Mat.ofFn fun _ _ => 0, zeros β (e + q), true, []⟩
  else
    let (gradient, jacobian) ← constraintJacobian costAt p cost (store settings.delta)
    let residuals := slackResiduals cost.constraints p
    let note := if redundant K jacobian then [Warning.redundantConstraints] else []
    let entry : Linearisation β e q n :=
      ⟨p, gradient, jacobian, jacobian.mulVec p - residuals, false, note⟩
    if settings.tolerance ≤ load (infinityNorm residuals) then
      repair K mode bounds settings.tolerance residuals entry
    else return entry

/-! ## Descent -/

/-- The merit of a scaled point. -/
def Landscape.meritAt (g : Landscape α β e q n) (p : Vector β (q + n)) : Recorded α α := do
  return load (g.lagrangian.value (← g.costAt p) p)

/-- The gradient of the merit at an iterate, computed unless it is known. -/
def Landscape.gradientAt (g : Landscape α β e q n) (s : Iterate α β e q n) :
    Recorded α (Vector β (q + n)) :=
  if s.stale then meritGradient g.meritAt s.point s.merit g.settings.delta else pure s.gradient

/-- The curvature of an iterate after it has learned from the step before. -/
def Iterate.learned (s : Iterate α β e q n) (gradient : Vector β (q + n)) :
    Mat β (q + n) (q + n) :=
  match s.previous? with
  | none => s.curvature
  | some (point, slope) => Curvature.update s.curvature (s.point - point) (gradient - slope)

/-- One minor iteration. The curvature learns from the step before, the Newton step
starts from a tenth of the last damping, and the line search decides how far to go. -/
def minorStep (g : Landscape α β e q n) (s : Iterate α β e q n) :
    Recorded α (Iterate α β e q n) := do
  let tolerance := g.settings.tolerance
  let gradient ← g.gradientAt s
  let curvature := s.learned gradient
  let trust := trustScale s.point g.bounds g.mode
  let step ← recorded (NewtonStep.compute g.kernels
    ⟨curvature, gradient, g.lagrangian.jacobian, trust⟩ s.point g.bounds (s.mu / 10.0))
  let found ← LineSearch.search g.meritAt s.point step.parameters s.merit tolerance
  let reduction := (s.merit - found.bestMerit) / (1 + Scalar.abs s.merit)
  return {
    point := found.parameters
    merit := found.merit
    gradient := gradient
    stale := true
    curvature := curvature
    mu := step.mu
    multipliers := step.multipliers
    previous? := some (s.point, gradient)
    reduction := reduction
    stalled := decide (s.merit ≤ found.bestMerit) || decide (reduction < tolerance)
    bisections := found.steps }

/-- Minor iterations until one stalls, at most as many as the first argument allows. -/
def descend (g : Landscape α β e q n) :
    Nat → Iterate α β e q n → Recorded α (List (Iterate α β e q n))
  | 0, _ => pure []
  | left + 1, s => do
    let next ← minorStep g s
    if next.stalled then return [next]
    else return next :: (← descend g left next)

/-! ## Inner solves -/

/-- The multipliers of `m` constraints; without constraints none are looked at. -/
def constraintMultipliers (m : Nat) (ys : List β) : Except Error (Vector β m) :=
  if m = 0 then pure (zeros β m) else fitted m ys

/-- The way into an inner solve: scaling, linearisation, and the merit of the point at
which the descent starts. -/
def prepare (K : Kernels β) (f : CostFunction α) (settings : Settings α) (problem : Problem β e q n)
    (entry : InnerStart α β e q n) : Recorded α (Preparation α β e q n) := do
  let scale : Scale β e q n ← recorded (Scale.compute problem.mode entry.cost.objective
    (front entry.cost.constraints).toList entry.parameters settings.tolerance)
  let multipliers ← recorded (constraintMultipliers (e + q) entry.multipliers)
  let cost := scale.scaleCost entry.cost
  let costAt := scale.evaluate f
  let l ← linearise K costAt problem.mode (scale.scaleBounds problem.bounds) settings
    (scale.scaleParameters entry.parameters) cost
  let lagrangian : AugmentedLagrangian β e q n :=
    { jacobian := l.jacobian
      offset := l.offset
      multipliers := scale.scaleMultipliers multipliers
      rho := store entry.rho }
  let base ← l.cost costAt cost
  let start : Iterate α β e q n :=
    { point := l.point
      merit := load (lagrangian.value base l.point)
      gradient := l.gradient
      stale := l.stale
      curvature := scale.scaleCurvature entry.curvature
      mu := entry.mu
      multipliers := zeros β (e + q)
      previous? := none
      reduction := 0
      stalled := false
      bisections := 0 }
  return ⟨scale, l.notes, lagrangian, start⟩

/-- What stays fixed during the descent that was prepared. -/
def Preparation.landscape (way : Preparation α β e q n) (K : Kernels β) (f : CostFunction α)
    (settings : Settings α) (problem : Problem β e q n) : Landscape α β e q n where
  kernels := K
  costAt := way.scale.evaluate f
  lagrangian := way.lagrangian
  bounds := way.scale.scaleBounds problem.bounds
  mode := problem.mode
  settings := settings

/-- An inner solve with its whole course. -/
def run (K : Kernels β) (f : CostFunction α) (settings : Settings α) (problem : Problem β e q n)
    (entry : InnerStart α β e q n) : Recorded α (Descent α β e q n) := do
  let way ← prepare K f settings problem entry
  let course ← descend (way.landscape K f settings problem) settings.minorLimit way.start
  return ⟨way.scale, way.notes, way.start, course⟩

/-- The multipliers of a descent in user units; without constraints, as many zeros as
there were multipliers at entry. -/
def Descent.multipliers (d : Descent α β e q n) (atEntry : List β) : List β :=
  if e + q = 0 then atEntry.map fun _ => 0
  else (d.scale.unscaleMultipliers d.last.multipliers).toList

/-- The outcome of a descent in user units. A merit that still fell by more than the
tolerance in the last minor iteration is noted. -/
def Descent.result (d : Descent α β e q n) (multipliersAtEntry : List β) (tolerance : α) :
    InnerResult α β q n :=
  let last := d.last
  let note := if tolerance < last.reduction then [Warning.subproblemNotConverged] else []
  { parameters := d.scale.unscaleParameters last.point
    multipliers := d.multipliers multipliersAtEntry
    curvature := Curvature.symmetrize (d.scale.unscaleCurvature last.curvature)
    mu := last.mu
    reduction := last.reduction
    minorIterations := d.course.length
    warnings := (d.notes ++ note).map Warning.code }

/-- An inner solve. -/
def solve (K : Kernels β) (f : CostFunction α) (settings : Settings α) : InnerSolver α β e q n :=
  fun problem entry => do
    let d ← run K f settings problem entry
    report (.innerSolved d.course.length d.last.merit d.last.reduction)
    return d.result entry.multipliers settings.tolerance

end Subproblem

end Sqp
