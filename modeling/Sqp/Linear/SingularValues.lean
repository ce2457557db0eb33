import Sqp.Linear.Mat

/-!
# Singular values

Singular values by one-sided rotations: columns are rotated pairwise until they are
orthogonal, and their lengths are then the singular values.

- `SingularValues.rotatePair`: makes two columns orthogonal.
- `SingularValues.values`: the singular values in decreasing order; undefined if an
  entry of the matrix is not finite.
-/

namespace Sqp.SingularValues

variable {α : Type} [Scalar α] {m n : Nat}

/-- How often all pairs of columns are rotated. Convergence is quadratic, so this is
ample. -/
def sweepLimit : Nat := 30

/-- The two columns rotated in their plane until they are orthogonal. Columns that
are orthogonal to working precision stay as they are. -/
def rotatePair (x y : Vector α m) : Vector α m × Vector α m :=
  let a := dot x x
  let b := dot y y
  let c := dot x y
  if Scalar.abs c ≤ Scalar.epsilon * Scalar.sqrt a * Scalar.sqrt b then (x, y)
  else
    let zeta := (b - a) / (2.0 * c)
    let size := 1 / (Scalar.abs zeta + Scalar.hypot 1 zeta)
    let tangent := if zeta < 0 then -size else size
    let cosine := 1 / Scalar.hypot 1 tangent
    let sine := cosine * tangent
    (scaled cosine x - scaled sine y, scaled sine x + scaled cosine y)

/-- One rotation of every pair of columns. -/
def sweep (columns : Mat α n m) : Mat α n m :=
  (List.finRange n).foldl
    (fun cs (i : Fin n) => (List.finRange n).foldl
      (fun (cs : Mat α n m) (j : Fin n) =>
        if i < j then
          let (x, y) := rotatePair (cs.get i) (cs.get j)
          put (put cs i x) j y
        else cs)
      cs)
    columns

/-- `sweep` applied `k` times. -/
def sweeps : Nat → Mat α n m → Mat α n m
  | 0, cs => cs
  | k + 1, cs => sweeps k (sweep cs)

/-- The lengths of the columns after rotation, in decreasing order. The columns are
first divided by the largest entry, so that their products neither overflow nor
vanish. -/
def ofColumns (columns : Mat α n m) : Vector α n :=
  let largest := infinityNorm (columns.map infinityNorm)
  if Scalar.isZero largest then zeros α n
  else
    let unit := columns.map fun x => x.map (· / largest)
    let lengths := (sweeps sweepLimit unit).map fun x => largest * Scalar.length x.toList
    let sorted := lengths.toList.mergeSort fun a b => decide (b ≤ a)
    Vector.ofFn fun i => sorted[i.val]?.getD 0

/-- The singular values of a matrix in decreasing order, taken on whichever of the
matrix and its transpose has fewer columns. -/
def values (a : Mat α m n) : Vector α (min m n) :=
  if a.all allFinite then
    if h : m ≤ n then (ofColumns a).cast (by omega)
    else (ofColumns a.transpose).cast (by omega)
  else Vector.replicate _ (0 / 0)

end Sqp.SingularValues
