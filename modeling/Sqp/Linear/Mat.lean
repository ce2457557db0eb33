import Sqp.Linear.Vec

/-!
# Dense matrices

A matrix is a vector of rows.

- `Mat.ofFn`, `Mat.entry`: the matrix with given entries, and the entries of a matrix.
- `Mat.mulVec`, `Mat.mul`: products, each entry an inner product.
- `pairMinMax`: the rows of a two-column matrix put in order.
- `Mat.diagonal`, `Mat.diag`: the diagonal matrix of a vector, and the diagonal of a
  matrix.

Matrices are looked at through `Mat.entry`, and two matrices with the same entries are
equal (`Mat.ext_entry`).
-/

namespace Sqp

/-- Matrices with `m` rows of length `n`. -/
abbrev Mat (α : Type) (m n : Nat) : Type := Vector (Vector α n) m

namespace Mat

variable {α : Type} {m n k : Nat}

/-- The matrix whose entry in row `i` and column `j` is `f i j`. -/
def ofFn (f : Fin m → Fin n → α) : Mat α m n := Vector.ofFn fun i => Vector.ofFn (f i)

/-- The entry in row `i` and column `j`. -/
def entry (a : Mat α m n) (i : Fin m) (j : Fin n) : α := (a.get i).get j

@[simp]
theorem entry_ofFn (f : Fin m → Fin n → α) (i : Fin m) (j : Fin n) :
    (ofFn f).entry i j = f i j := by
  rw [entry, ofFn, get_ofFn, get_ofFn]

/-- Two matrices with the same entries are equal. -/
theorem ext_entry {a b : Mat α m n} (h : ∀ i j, a.entry i j = b.entry i j) : a = b :=
  vector_ext fun i => vector_ext fun j => h i j

/-- Rows and columns exchanged. -/
def transpose (a : Mat α m n) : Mat α n m := ofFn fun j i => a.entry i j

@[simp]
theorem entry_transpose (a : Mat α m n) (i : Fin m) (j : Fin n) :
    a.transpose.entry j i = a.entry i j :=
  entry_ofFn _ j i

@[simp]
theorem transpose_transpose (a : Mat α m n) : a.transpose.transpose = a :=
  ext_entry fun i j => (entry_transpose _ j i).trans (entry_transpose a i j)

/-- The diagonal of a square matrix. -/
def diag (a : Mat α n n) : Vector α n := Vector.ofFn fun i => a.entry i i

variable [Scalar α]

/-- The matrix with `d` on its diagonal and zeros elsewhere. -/
def diagonal (d : Vector α n) : Mat α n n := ofFn fun i j => if i = j then d.get i else 0

@[simp]
theorem entry_diagonal (d : Vector α n) (i j : Fin n) :
    (diagonal d).entry i j = if i = j then d.get i else 0 :=
  entry_ofFn _ i j

/-- The identity matrix. -/
def identity (α : Type) [Scalar α] (n : Nat) : Mat α n n := diagonal (Vector.replicate n 1)

/-- The product with a column vector. -/
def mulVec (a : Mat α m n) (x : Vector α n) : Vector α m := a.map fun row => dot row x

@[simp]
theorem get_mulVec (a : Mat α m n) (x : Vector α n) (i : Fin m) :
    (a.mulVec x).get i = dot (a.get i) x :=
  get_map _ a i

/-- The product of two matrices. -/
def mul (a : Mat α m n) (b : Mat α n k) : Mat α m k :=
  let columns := transpose b
  a.map fun row => columns.map fun column => dot row column

/-- Every entry passed through `f`. -/
def mapEntries (f : α → α) (a : Mat α m n) : Mat α m n := a.map fun row => row.map f

end Mat

/-- Each row of a two-column matrix with its smaller entry first; a row with an
undefined entry becomes undefined. -/
def pairMinMax {α : Type} [Scalar α] {m : Nat} (a : Mat α m 2) : Mat α m 2 :=
  a.map fun row => #v[Scalar.lesser row[0] row[1], Scalar.greater row[0] row[1]]

end Sqp
