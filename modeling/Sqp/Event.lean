import Sqp.Decimal.Scientific
import Sqp.Problem.Bounds

/-!
# Progress events

What a run reports about its progress, as data; the text of an event is made only for
double precision numbers.

- `Event`: the six things that are reported.
- `Event.level`: all but the closing events are for debugging.
- `Event.line`: level and text of an event.
-/

namespace Sqp

/-- How important an event is. -/
inductive Level where
  | debug
  | info
deriving DecidableEq

namespace Level

/-- The word for a level. -/
def name : Level → String
  | debug => "DEBUG"
  | info => "INFO"

/-- Events of level `l` are kept when `lowest` is the lowest level kept. -/
def kept (lowest l : Level) : Bool := lowest == .debug || l == .info

end Level

/-- A report about the progress of a run. -/
inductive Event (α : Type) where
  /-- The starting point was evaluated. -/
  | started (decisions equalities inequalities : Nat) (mode : BoundMode)
      (objective constraintNorm : α)
  /-- Feasibility restoration ended after a number of steps. -/
  | restored (steps : Nat)
  /-- An inner solve ended. -/
  | innerSolved (minorIterations : Nat) (merit reduction : α)
  /-- A major iteration ended. -/
  | majorDone (iteration : Nat) (objective objectiveChange constraintNorm rho mu : α)
      (minorIterations : Nat) (reduction : α)
  /-- The run converged. -/
  | converged (iterations evaluations : Nat) (objective : α)
  /-- The run ended without converging. -/
  | stopped (iterations : Nat)

namespace Event

variable {α : Type}

/-- The level of an event. -/
def level : Event α → Level
  | converged .. | stopped .. => .info
  | _ => .debug

/-- The text of an event. Objectives of iterations are given to eleven digits, merits
and starting objectives to seven, everything else to four. -/
def message : Event Float → String
  | started decisions equalities inequalities mode objective constraintNorm =>
    "SOLNP start: n=" ++ toString decisions ++ ", n_eq=" ++ toString equalities
      ++ ", n_ineq=" ++ toString inequalities ++ ", mode=" ++ mode.name
      ++ ", f=" ++ Decimal.text 7 objective ++ ", |c|=" ++ Decimal.text 4 constraintNorm
  | restored steps => "restoration: " ++ toString steps ++ " steps"
  | innerSolved minorIterations merit reduction =>
    "subproblem: " ++ toString minorIterations ++ " minor iterations, merit "
      ++ Decimal.text 7 merit ++ ", reduction " ++ Decimal.text 4 reduction
  | majorDone iteration objective change norm rho mu minor reduction =>
    "major " ++ toString iteration ++ ": f=" ++ Decimal.text 11 objective
      ++ ", df=" ++ Decimal.text 4 change ++ ", |c|=" ++ Decimal.text 4 norm
      ++ ", rho=" ++ Decimal.text 4 rho ++ ", mu=" ++ Decimal.text 4 mu
      ++ ", minor=" ++ toString minor ++ ", reduction=" ++ Decimal.text 4 reduction
  | converged iterations evaluations objective =>
    "SOLNP converged in " ++ toString iterations ++ " major iterations ("
      ++ toString evaluations ++ " evaluations), f=" ++ Decimal.text 11 objective
  | stopped iterations =>
    "SOLNP stopped after " ++ toString iterations ++ " major iterations without converging"

/-- The log line of an event. -/
def line (event : Event Float) : String := event.level.name ++ " " ++ event.message

end Event

end Sqp
