import Sqp.Journal
import Sqp.Linear.Broadcast
import Sqp.Linear.Mat

/-!
# Merit function and finite differences

Inside an inner solve the constraints are replaced by their deviation
`r(p) = c(p) - A p + b` from a linearisation, and points are compared by the augmented
Lagrangian `f(p) - yᵀ r(p) + rho · ‖r(p)‖²`. Inequality values are measured against
their slacks.

- `slackResiduals`: equality values, and inequality values minus slacks; `measureSlacks`
  does the same to a cost vector whose length need not fit.
- `AugmentedLagrangian.value`: the merit; without constraints it is the objective.
- `meritGradient`: forward differences of the merit in the decision variables, taken with
  plain numbers.
- `constraintJacobian`: forward differences of the objective and of the constraints, taken
  with arrays; the columns of the slacks are known.
-/

namespace Sqp

variable {α β : Type} [Scalar α] [Scalar β] [Storage α β] {e q n : Nat}

/-- The equality values, and the inequality values minus the slacks of `p`. -/
def slackResiduals (c : Vector β (e + q)) (p : Vector β (q + n)) : Vector β (e + q) :=
  front c ++ (back c - front p)

/-- A cost vector of any length with its inequality values, which follow `e` equality
values, measured against the first `q` entries of `p`. Without inequality constraints
nothing changes; entries after the last inequality value stay as they are. -/
def measureSlacks (e q : Nat) (cost p : List β) : Except Error (List β) :=
  if q = 0 then pure cost
  else
    let values := (cost.drop (1 + e)).take q
    match fitted q (p.take q) with
    | .error _ => throw .unassignable
    | .ok slacks =>
      if values.length = q then
        pure (cost.take (1 + e) ++ List.zipWith (· - ·) values slacks.toList
          ++ cost.drop (1 + e + q))
      else throw .unassignable

/-! ## Merit -/

/-- The merit function of an inner solve. -/
structure AugmentedLagrangian (β : Type) (e q n : Nat) where
  /-- The constraint Jacobian of the linearisation. -/
  jacobian : Mat β (e + q) (q + n)
  /-- The offset of the linearisation. -/
  offset : Vector β (e + q)
  /-- The multipliers. -/
  multipliers : Vector β (e + q)
  /-- The penalty coefficient. -/
  rho : β

namespace AugmentedLagrangian

/-- The deviation of the constraints from their linearisation. -/
def residual (l : AugmentedLagrangian β e q n) (c : Cost β (e + q)) (p : Vector β (q + n)) :
    Vector β (e + q) :=
  slackResiduals c.constraints p - l.jacobian.mulVec p + l.offset

/-- The merit of a point with its cost vector. -/
def value (l : AugmentedLagrangian β e q n) (c : Cost β (e + q)) (p : Vector β (q + n)) : β :=
  if e + q = 0 then c.objective
  else
    let r := l.residual c p
    c.objective - dot l.multipliers r + l.rho * dot r r

end AugmentedLagrangian

/-! ## Finite differences -/

/-- The forward-difference gradient of a merit function whose value at `p` is `merit`.
Slack entries are zero and cost no evaluation. -/
def meritGradient {m : Type → Type} [Monad m] [MonadExceptOf Error m]
    (meritAt : Vector β (q + n) → m α) (p : Vector β (q + n)) (merit delta : α) :
    m (Vector β (q + n)) := do
  let slopes : Vector α n ← tabulateM fun j : Fin n => do
    let shifted ← meritAt (nudge p (j.natAdd q) (store delta))
    Scalar.quotient (shifted - merit) delta
  return zeros β q ++ slopes.map (store : α → β)

/-- The forward difference of two cost vectors. -/
def Cost.slope {k : Nat} (shifted base : Cost β k) (delta : β) : Cost β k :=
  ⟨(shifted.objective - base.objective) / delta,
    (shifted.constraints - base.constraints).map fun d => Scalar.share k d delta⟩

/-- The forward-difference gradient of the objective and the Jacobian of the slack
residuals. The slack of an inequality constraint enters its own row with minus one. -/
def constraintJacobian {m : Type → Type} [Monad m]
    (costAt : Vector β (q + n) → m (Cost β (e + q))) (p : Vector β (q + n))
    (cost : Cost β (e + q)) (delta : β) : m (Vector β (q + n) × Mat β (e + q) (q + n)) := do
  let slopes ← tabulateM fun j : Fin n => do
    return (← costAt (nudge p (j.natAdd q) delta)).slope cost delta
  let gradient := zeros β q ++ slopes.map Cost.objective
  let jacobian := Mat.ofFn fun (i : Fin (e + q)) (j : Fin (q + n)) =>
    if h : j.val < q then
      if i.val = e + j.val then -1 else 0
    else (slopes.get ⟨j.val - q, by omega⟩).constraints.get i
  return (gradient, jacobian)

end Sqp
