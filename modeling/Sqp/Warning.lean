import Sqp.Error

/-!
# Warnings

Conditions met on the way that do not stop a run. Each has a number, by which inner
results name it, and a text.

- `Warning.ofCode`: the warning of a number, an error if there is none.
- `Warning.message`: its text.
- `Warning.announcement`: its text under the number of the major iteration.
-/

namespace Sqp

/-- The conditions that are noted but do not stop a run. -/
inductive Warning where
  /-- The constraint Jacobian is close to rank deficient. -/
  | redundantConstraints
  /-- The linearised constraints could not be met inside the bounds. -/
  | restorationIncomplete
  /-- The minor iterations ran out while the merit still fell. -/
  | subproblemNotConverged
deriving DecidableEq

namespace Warning

/-- The number of a warning. -/
def code : Warning → Int
  | redundantConstraints => 1
  | restorationIncomplete => 2
  | subproblemNotConverged => 3

/-- The warning with a given number. -/
def ofCode : Int → Except Error Warning
  | 1 => pure redundantConstraints
  | 2 => pure restorationIncomplete
  | 3 => pure subproblemNotConverged
  | code => throw (.unknownWarning code)

/-- The text of a warning. -/
def message : Warning → String
  | redundantConstraints =>
    "Constraint Jacobian is ill-conditioned; the constraints may be redundant."
  | restorationIncomplete =>
    "Feasibility restoration did not reach a feasible point; "
      ++ "continuing from the least infeasible point found."
  | subproblemNotConverged =>
    "Subproblem reached its minor iteration limit before converging."

/-- The text under which a warning of a major iteration is emitted. -/
def announcement (iteration : Nat) (w : Warning) : String :=
  "Major iteration " ++ toString iteration ++ ": " ++ w.message

end Warning

end Sqp
