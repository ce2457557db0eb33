/-!
# Errors

Everything that can go wrong, as causes; the wording is in `Precondition.message` and
`Error.message?`.

- `Precondition`: malformed problem data, options or cost vectors.
- `Error`: a failed precondition, a numerical breakdown, or a request that cannot be
  understood. Requests of the last group carry no text of their own.
-/

namespace Sqp

/-- The two arrays a problem is specified by. -/
inductive Subject where
  | parameters
  | inequalities

/-- The name of a specification array in messages. -/
def Subject.name : Subject → String
  | .parameters => "Parameter array"
  | .inequalities => "Inequality array"

/-- A rule that problem data has to obey. -/
inductive Precondition where
  /-- Lower and upper bounds come in pairs. -/
  | boundsLength
  /-- Every lower bound lies strictly under its upper bound. -/
  | boundsOrder
  /-- Every bounded variable has one initial value. -/
  | guessLength
  /-- Initial values lie strictly between their bounds. -/
  | guessInside
  /-- A specification array has one or two dimensions. -/
  | dimensions (subject : Subject)
  /-- There is at least one parameter. -/
  | someParameter
  /-- A parameter array has one to three columns. -/
  | parameterColumns
  /-- An inequality array has two or three columns, if it counts at all. -/
  | inequalityColumns
  /-- A given curvature matrix is square and of the size of the parameter vector. -/
  | curvatureShape (size : Nat) (shape : List Nat)
  /-- All cost vectors have the length of the first one. -/
  | costLength (found expected : Nat)
  /-- A cost vector has room for the objective and all inequality values. -/
  | costRoom (found inequalities : Nat)
  /-- The tolerance is positive. -/
  | tolerancePositive
  /-- The square of the tolerance is not infinite. -/
  | toleranceSquare
  /-- The finite-difference step is positive. -/
  | differencePositive
  /-- The penalty coefficient is not negative. -/
  | penaltySign
  /-- Both iteration limits are at least one. -/
  | iterationLimits

/-- Sizes in parentheses, separated by commas; a single size keeps its comma. -/
def shapeText : List Nat → String
  | [n] => "(" ++ toString n ++ ",)"
  | shape => "(" ++ ", ".intercalate (shape.map toString) ++ ")"

/-- What is said about data that breaks a rule. -/
def Precondition.message : Precondition → String
  | boundsLength => "Lower and upper bounds have different lengths."
  | boundsOrder => "The lower bounds must be strictly less than the upper bounds."
  | guessLength => "Initial guess and bounds have different lengths."
  | guessInside => "Initial values must be strictly within the bounds."
  | dimensions subject => subject.name ++ " must be a vector or a matrix."
  | someParameter => "At least one parameter is required."
  | parameterColumns => "Parameter array must have three columns or less."
  | inequalityColumns => "Inequality constraints must have 2 or 3 columns."
  | curvatureShape size shape =>
    "The provided hessian matrix override was of invalid dimension: expected "
      ++ shapeText [size, size] ++ ", got " ++ shapeText shape ++ "."
  | costLength found expected =>
    "The cost function returned " ++ toString found ++ " values, expected "
      ++ toString expected ++ "."
  | costRoom found inequalities =>
    "The number of constraints in the cost function does not match the inequality "
      ++ "specification: got " ++ toString found ++ " values for "
      ++ toString inequalities ++ " inequality constraints."
  | tolerancePositive => "Tolerance must be positive."
  | toleranceSquare => "Tolerance is too large: its square overflows."
  | differencePositive => "Finite-difference step must be positive."
  | penaltySign => "Penalty coefficient must be non-negative."
  | iterationLimits => "Iteration limits must be at least 1."

/-- The causes for which a computation has no answer. -/
inductive Error where
  /-- Malformed problem data. -/
  | precondition (rule : Precondition)
  /-- A factorisation produced a zero pivot where a unique solution is needed. -/
  | singularMatrix
  /-- No finite Newton step inside the bounds was found before the damping became
  infinite. -/
  | noInteriorStep
  /-- The damping was increased as often as allowed and is still finite. A damping of zero,
  which cannot be increased by tripling it, always is. -/
  | trialsExhausted
  /-- A least-squares problem with fewer equations than unknowns. -/
  | underdetermined (rows columns : Nat)
  /-- Nested lists of unequal lengths where an array is needed. -/
  | ragged
  /-- An array of the wrong number of dimensions, or of a size that does not fit. -/
  | shapeMismatch
  /-- Arrays whose lengths do not fit together entry by entry. -/
  | incompatible
  /-- A part of an array changed by an array of another length. -/
  | unassignable
  /-- The smallest or largest of no values. -/
  | noExtremum
  /-- The condition number of a matrix without entries. -/
  | noSingularValue
  /-- A plain number divided by zero. -/
  | divisionByZero
  /-- No bounds where the bound mode needs some. -/
  | missingBounds
  /-- A word that names no bound mode. -/
  | unknownMode (name : String)
  /-- A word that names no option. -/
  | unknownOption (name : String)
  /-- A number that stands for no warning. -/
  | unknownWarning (code : Int)
  /-- A formula names a variable or an argument that does not exist. -/
  | unknownVariable
  /-- A run is advanced before it was started. -/
  | notStarted

/-- What is said about an error, if anything is. -/
def Error.message? : Error → Option String
  | precondition rule => some rule.message
  | singularMatrix => some "Encountered a singular matrix when trying to solve."
  | noInteriorStep => some "Could not compute a finite Newton step inside the bounds."
  | trialsExhausted => some "The damping limit was reached without a Newton step inside the bounds."
  | _ => none

end Sqp
