import Sqp.Problem.Bounds
import Sqp.Tensor

/-!
# Specifications of variables

Variables are specified by a guess, by a range, or by a range with a guess, either
directly or as an array whose number of columns tells which of the three is meant.

- `Spec`: the three kinds of specification.
- `Spec.ofRange`, `Spec.ofGuessedRange`: checked construction from columns.
- `Spec.ofParameters`, `Spec.ofInequalities`: what a parameter or inequality input
  means; many inputs mean that there are no inequality constraints.
-/

namespace Sqp

variable {α : Type}

/-- A group of variables with their initial values and bounds. -/
inductive Spec (α : Type) where
  /-- Free variables with their initial values. -/
  | unbounded (guess : List α)
  /-- Bounded variables that start in the middle of their ranges. -/
  | range (rows : List (Interval α))
  /-- Bounded variables with their initial values. -/
  | guessedRange (rows : List (α × Interval α))

/-- A specification as it is handed over: raw data or a finished record. -/
inductive SpecInput (α : Type) where
  | array (data : RawArray α)
  | record (spec : Spec α)

namespace Spec

/-- The bounds, if the variables are bounded. -/
def intervals? : Spec α → Option (List (Interval α))
  | unbounded _ => none
  | range rows => some rows
  | guessedRange rows => some (rows.map Prod.snd)

variable [Scalar α]

/-- The initial values. -/
def guess : Spec α → List α
  | unbounded guess => guess
  | range rows => rows.map Interval.middle
  | guessedRange rows => rows.map Prod.fst

/-! ## Checked construction -/

/-- Pairs of bounds, refused if their numbers differ or if a pair is not in strict
order. -/
def pairBounds (lower upper : List α) : Except Error (List (Interval α)) :=
  if lower.length ≠ upper.length then throw (.precondition .boundsLength)
  else
    let rows := List.zipWith Interval.mk lower upper
    if rows.any fun b => decide (b.upper - b.lower ≤ 0) then throw (.precondition .boundsOrder)
    else pure rows

/-- Bounded variables from their bounds. -/
def ofRange (lower upper : List α) : Except Error (Spec α) := do
  return range (← pairBounds lower upper)

/-- Bounded variables from their initial values and bounds. A value on a bound or
beyond it is refused. -/
def ofGuessedRange (guess lower upper : List α) : Except Error (Spec α) := do
  let bounds ← pairBounds lower upper
  if guess.length ≠ bounds.length then throw (.precondition .guessLength)
  let rows := guess.zip bounds
  if rows.any fun (x, b) => decide (x ≤ b.lower) || decide (b.upper ≤ x) then
    throw (.precondition .guessInside)
  return guessedRange rows

/-! ## Reading inputs -/

/-- The data as a table, refused unless it is an array of one or two dimensions. -/
def tableOf (subject : Subject) (data : RawArray α) : Except Error (Tensor.Table α) := do
  let t ← data.toTensor
  match t.table? with
  | some table => pure table
  | none => throw (.precondition (.dimensions subject))

/-- Parameters from an array: one column of initial values, two columns of bounds, or
three columns of initial values and bounds. -/
def ofParameterArray (data : RawArray α) : Except Error (Spec α) := do
  let table ← tableOf .parameters data
  if table.height = 0 then throw (.precondition .someParameter)
  match table.width with
  | 1 => return unbounded (table.column 0)
  | 2 => ofRange (table.column 0) (table.column 1)
  | 3 => ofGuessedRange (table.column 0) (table.column 1) (table.column 2)
  | _ => throw (.precondition .parameterColumns)

/-- What a parameter input specifies; there is at least one parameter. -/
def ofParameters (input : SpecInput α) : Except Error (Spec α) := do
  let spec ← match input with
    | .record spec => pure spec
    | .array data => ofParameterArray data
  if spec.guess.isEmpty then throw (.precondition .someParameter)
  return spec

/-- Inequality constraints from an array. No rows, or fewer than two columns, mean
that there are none. -/
def ofInequalityArray (data : RawArray α) : Except Error (Option (Spec α)) := do
  let table ← tableOf .inequalities data
  if table.height = 0 || table.width ≤ 1 then return none
  match table.width with
  | 2 => return some (← ofRange (table.column 0) (table.column 1))
  | 3 => return some (← ofGuessedRange (table.column 0) (table.column 1) (table.column 2))
  | _ => throw (.precondition .inequalityColumns)

/-- What an inequality input specifies, if it specifies any constraint. -/
def ofInequalities : Option (SpecInput α) → Except Error (Option (Spec α))
  | none => pure none
  | some (.record (.unbounded _)) => pure none
  | some (.record spec) => pure (if spec.guess.isEmpty then none else some spec)
  | some (.array data) => ofInequalityArray data

end Spec

end Sqp
