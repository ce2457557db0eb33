import Sqp.Linear.Mat

/-!
# Orthogonal factorisation by reflections

The reduced factorisation `a = q r` of a matrix with at least as many rows as columns,
`q` with orthonormal columns and `r` square upper triangular.

- `Householder.reflection`: the reflection that clears a column under its pivot. A
  column that is already clear is left as it is, so an exactly zero pivot survives
  as an exact zero.
- `Householder.eliminate`: clears one column and reflects those after it.
- `Householder.factor`: the pair `(q, r)`.
-/

namespace Sqp.Householder

variable {α : Type} [Scalar α] {m k : Nat}

/-! ## Reflections -/

/-- A reflection `x ↦ x - weight · (axis · x) · axis` that acts on the rows from
`row` on. -/
structure Reflection (α : Type) (m : Nat) where
  row : Nat
  axis : Vector α m
  weight : α

/-- The rows from `row` on. -/
def rowsFrom (m row : Nat) : List (Fin m) :=
  (List.finRange m).filter fun i => decide (row ≤ i.val)

/-- The reflection applied to a vector; weight zero leaves the vector alone. -/
def Reflection.apply (h : Reflection α m) (x : Vector α m) : Vector α m :=
  if Scalar.isZero h.weight then x
  else
    let c := -(h.weight * fusedDot (rowsFrom m h.row) h.axis x)
    Vector.ofFn fun i =>
      if h.row ≤ i.val then Scalar.mulAdd (h.axis.get i) c (x.get i) else x.get i

/-- The pivot that a reflection puts in row `j`, and the reflection. The axis has a one
in row `j`. -/
def reflection (column : Vector α m) (j : Fin m) : α × Reflection α m :=
  let below := Scalar.length ((rowsFrom m (j.val + 1)).map column.get)
  let pivot := column.get j
  if Scalar.isZero below then (pivot, ⟨j, zeros α m, 0⟩)
  else
    let size := Scalar.hypot pivot below
    -- the sign opposite to the pivot avoids cancellation
    let target := if pivot < 0 then size else -size
    let inverse := 1 / (pivot - target)
    let axis := Vector.ofFn fun i : Fin m =>
      if i = j then 1 else if j < i then column.get i * inverse else 0
    (target, ⟨j, axis, (target - pivot) / target⟩)

/-! ## Factorisation -/

/-- Clears column `j` and reflects the columns after it. -/
def eliminate (columns : Mat α k m) (j : Fin k) (h : j.val < m) :
    Mat α k m × Reflection α m :=
  let (pivot, r) := reflection (columns.get j) ⟨j, h⟩
  (columns.mapFinIdx fun c x _ =>
      if c = j.val then put x ⟨j, h⟩ pivot
      else if j.val < c then r.apply x
      else x,
    r)

/-- All columns cleared in order, with their reflections. -/
def sweep (columns : Mat α k m) : Mat α k m × List (Reflection α m) :=
  (List.finRange k).foldl
    (fun (cs, done) (j : Fin k) =>
      if h : j.val < m then
        let (next, r) := eliminate cs j h
        (next, done ++ [r])
      else (cs, done))
    (columns, [])

/-- The reduced factorisation: the first `k` columns of the product of the
reflections, and the upper triangle of the cleared columns. -/
def factor (a : Mat α m k) : Mat α m k × Mat α k k :=
  let (columns, reflections) := sweep a.transpose
  let unit (j : Fin k) : Vector α m := Vector.ofFn fun i => if i.val = j.val then 1 else 0
  -- later reflections do not touch a unit vector
  let q : Mat α k m := Vector.ofFn fun j =>
    (reflections.take (j.val + 1)).reverse.foldl (fun x r => r.apply x) (unit j)
  let r : Mat α k k := Mat.ofFn fun i j =>
    if i ≤ j then (columns.get j).toArray.getD i 0 else 0
  (q.transpose, r)

end Sqp.Householder
