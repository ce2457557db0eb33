import Sqp.Error
import Sqp.Linear.Cholesky
import Sqp.Linear.Householder
import Sqp.Linear.SingularValues
import Sqp.Linear.Triangular

/-!
# Linear algebra kernels

The factorisations that the solver calls, as a record, so that statements about the
solver can be made for exact kernels, for the ones that run, or for any kernels
whatever.

- `Kernels`: the record; `Kernels.standard` holds the factorisations of this library.
- `Kernels.leastSquares`: least-squares solution through an orthogonal factorisation,
  on request refused if a pivot is zero.
- `Kernels.conditionNumber?`: the ratio of the extreme singular values.
-/

namespace Sqp

/-- The factorisations and substitutions that the solver relies on. -/
structure Kernels (α : Type) where
  /-- A lower triangular factor of the symmetric part of a matrix. -/
  cholesky : {n : Nat} → Mat α n n → Mat α n n
  /-- The solution of a lower triangular system. -/
  solveLower : {n : Nat} → Mat α n n → Vector α n → Vector α n
  /-- The solution of an upper triangular system. -/
  solveUpper : {n : Nat} → Mat α n n → Vector α n → Vector α n
  /-- A reduced orthogonal factorisation of a matrix with at least as many rows as
  columns. For fewer rows only the pivots of the rows that exist have a meaning. -/
  orthogonal : {m k : Nat} → Mat α m k → Mat α m k × Mat α k k
  /-- The singular values in decreasing order. -/
  singularValues : {m n : Nat} → Mat α m n → Vector α (min m n)
  /-- How many damped Newton trials may be made for one step. -/
  trialLimit : Nat

namespace Kernels

variable {α : Type} [Scalar α] {m n k : Nat}

/-- The kernels of this library. Tripling a positive double some 1330 times makes it
infinite, so that in double precision the trial limit is reached from a damping of zero
only. A damping comes to that by underflow when it is divided. It stays zero when it is
tripled, all its trials are the same, and where they are not acceptable only the limit ends
them. -/
def standard : Kernels α where
  cholesky := Cholesky.factor
  solveLower := Triangular.solveLower
  solveUpper := Triangular.solveUpper
  orthogonal := Householder.factor
  singularValues := SingularValues.values
  trialLimit := 4096

/-- The vector `x` that makes `a x` closest to `b`. With `refuseSingular` an exactly
zero pivot is an error, which is found before a lack of equations; without it such a
pivot is inverted. -/
def leastSquares (K : Kernels α) (a : Mat α m k) (b : Vector α m) (refuseSingular : Bool) :
    Except Error (Vector α k) :=
  let (q, r) := K.orthogonal a
  let pivots := r.diag.toList.take m
  if refuseSingular && pivots.any Scalar.isZero then throw .singularMatrix
  else if m < k then throw (.underdetermined m k)
  else pure (K.solveUpper r (q.transpose.mulVec b))

/-- The largest singular value divided by the smallest one; infinite for a matrix of
deficient rank, undefined for the zero matrix, and none for a matrix without entries. -/
def conditionNumber? (K : Kernels α) (a : Mat α m n) : Option α :=
  match (K.singularValues a).toList with
  | [] => none
  | largest :: rest => some (largest / rest.getLastD largest)

/-- The condition number, an error for a matrix without entries. -/
def conditionNumber (K : Kernels α) (a : Mat α m n) : Except Error α :=
  match K.conditionNumber? a with
  | some c => pure c
  | none => throw .noSingularValue

end Kernels

end Sqp
