import Sqp.Linear.Mat

/-!
# Cholesky factorisation

- `Cholesky.factor`: the lower triangular `l` with `l lᵀ` equal to the symmetric part
  of a matrix; a matrix whose symmetric part is not positive definite has no factor,
  and the answer is then undefined in every entry.
-/

namespace Sqp.Cholesky

variable {α : Type} [Scalar α] {n : Nat}

/-- The symmetric part `(a + aᵀ) / 2`. -/
def symmetricPart (a : Mat α n n) : Mat α n n :=
  Mat.ofFn fun i j => (a.entry i j + a.entry j i) / 2.0

/-- What an entry keeps once the products of the columns before `j` are taken off it. -/
def remainder (a : α) (x y : Vector α n) (j : Fin n) : α :=
  a - fusedDot ((List.finRange n).filter fun k => decide (k < j)) x y

/-- One row of the factor, given the rows before it; none if its pivot is not a
positive number. -/
def nextRow (a l : Mat α n n) (i : Fin n) : Option (Vector α n) :=
  -- entries left of the diagonal, in the order of the columns
  let before := ((List.finRange n).filter fun j => decide (j < i)).foldl
    (fun row j => put row j (remainder (a.entry i j) row (l.get j) j * (1 / l.entry j j)))
    (zeros α n)
  let square := remainder (a.entry i i) before before i
  if 0 < square then some (put before i (Scalar.sqrt square)) else none

/-- The factor of the symmetric part, or an undefined matrix if there is none. -/
def factor (a : Mat α n n) : Mat α n n :=
  let s := symmetricPart a
  let rows := (List.finRange n).foldlM
    (fun (l : Mat α n n) i => (nextRow s l i).map fun row => put l i row)
    (Mat.ofFn fun _ _ => 0)
  rows.getD (Mat.ofFn fun _ _ => 0 / 0)

end Sqp.Cholesky
