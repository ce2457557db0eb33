import Sqp.Linear.Mat

/-!
# Triangular systems

Substitution in triangular systems. An equation is solved by the reciprocal of its pivot.
A zero pivot is inverted like any other, so the answer then holds infinite or undefined
entries.

- `Triangular.solveLower`: forward substitution, from the first unknown to the last.
- `Triangular.solveUpper`: back substitution, from the last unknown to the first.
-/

namespace Sqp.Triangular

variable {α : Type} [Scalar α] {n : Nat}

/-- Solves row `i` for its own unknown, given in `x` the unknowns that were found before
it, which are taken off the right-hand side in the order of `found`. -/
def substitute (a : Mat α n n) (b : Vector α n) (found : List (Fin n)) (x : Vector α n)
    (i : Fin n) : Vector α n :=
  let rest := found.foldl (fun r j => Scalar.mulAdd (-(x.get j)) (a.entry i j) r) (b.get i)
  put x i (rest * (1 / a.entry i i))

/-- The solution of `l x = b` for lower triangular `l`; entries above the diagonal
are not looked at. -/
def solveLower (l : Mat α n n) (b : Vector α n) : Vector α n :=
  (List.finRange n).foldl
    (fun x i => substitute l b ((List.finRange n).filter fun j => decide (j < i)) x i)
    (zeros α n)

/-- The solution of `u x = b` for upper triangular `u`; entries below the diagonal
are not looked at. -/
def solveUpper (u : Mat α n n) (b : Vector α n) : Vector α n :=
  (List.finRange n).reverse.foldl
    (fun x i => substitute u b ((List.finRange n).reverse.filter fun j => decide (i < j)) x i)
    (zeros α n)

end Sqp.Triangular
