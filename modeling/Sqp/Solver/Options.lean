import Sqp.Error
import Sqp.Scalar

/-!
# Options

- `Options`: penalty, iteration limits, finite-difference step and tolerance.
- `Options.check`: the rules that options have to obey, in the order in which they are
  tested.
- `Options.ofFields`: options from named fields; fields that are not given have their
  defaults.
-/

namespace Sqp

/-- The options of a run. -/
structure Options (α : Type) where
  /-- The initial penalty coefficient. -/
  rho : α
  /-- The largest number of major iterations. -/
  majorLimit : Int
  /-- The largest number of minor iterations in one inner solve. -/
  minorLimit : Int
  /-- The finite-difference step, relative to the scaled variables. -/
  delta : α
  /-- The tolerance of convergence, feasibility and scaling. -/
  tolerance : α

/-- The value of an option: a number or a count. -/
inductive OptionValue (α : Type) where
  | number (value : α)
  | count (value : Int)

namespace Options

variable {α : Type} [Scalar α]

/-- The options of a run for which none are given. -/
def standard : Options α where
  rho := 1
  majorLimit := 400
  minorLimit := 800
  delta := 1e-7
  tolerance := 1e-8

/-- The options if they obey all rules, else the first rule that they break. -/
def check (o : Options α) : Except Error (Options α) :=
  if ¬ 0 < o.tolerance then throw (.precondition .tolerancePositive)
  else if Scalar.isInfinite (o.tolerance * o.tolerance) then throw (.precondition .toleranceSquare)
  else if ¬ 0 < o.delta then throw (.precondition .differencePositive)
  else if o.rho < 0 then throw (.precondition .penaltySign)
  else if o.majorLimit < 1 ∨ o.minorLimit < 1 then throw (.precondition .iterationLimits)
  else pure o

/-- Options with one field set by its name. -/
def setField (o : Options α) (name : String) (value : OptionValue α) :
    Except Error (Options α) :=
  match name, value with
  | "rho", .number v => pure { o with rho := v }
  | "delta", .number v => pure { o with delta := v }
  | "tolerance", .number v => pure { o with tolerance := v }
  | "max_major_iterations", .count k => pure { o with majorLimit := k }
  | "max_minor_iterations", .count k => pure { o with minorLimit := k }
  | _, _ => throw (.unknownOption name)

/-- The checked options with the given fields; an unknown name is reported before any
broken rule. -/
def ofFields (fields : List (String × OptionValue α)) : Except Error (Options α) := do
  let options ← fields.foldlM (fun o (name, value) => o.setField name value) standard
  options.check

end Options

end Sqp
