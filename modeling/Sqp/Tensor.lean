import Sqp.Error
import Sqp.Linear.Mat

/-!
# Raw arrays

Data as users hand it over: nested lists, or arrays of any number of dimensions.

- `Nested.toTensor`, `RawArray.toTensor`: nested lists, or any raw data, read as an
  array; lists of unequal shape are refused.
- `Tensor.toVector`, `Tensor.toMat`: an array as a vector or matrix of a size that is
  already known; any other shape is refused.
- `Tensor.asVector`, `Tensor.asMat`: the same with the size taken from the array.
- `Tensor.table?`: a one-dimensional array as a single column, a two-dimensional one
  as it is.
-/

namespace Sqp

variable {α : Type}

/-- Nested lists of numbers. -/
inductive Nested (α : Type) where
  | leaf (value : α)
  | list (items : List (Nested α))

/-- An array: the sizes of its dimensions and its entries, the last index running
fastest. -/
structure Tensor (α : Type) where
  shape : List Nat
  entries : Array α

namespace Tensor

/-- Arrays of one shape stacked along a new first dimension. -/
def stack : List (Tensor α) → Except Error (Tensor α)
  | [] => pure ⟨[0], #[]⟩
  | t :: ts =>
    if ts.all fun u => u.shape == t.shape then
      pure ⟨(ts.length + 1) :: t.shape, ts.foldl (fun es u => es ++ u.entries) t.entries⟩
    else throw .ragged

/-- The array of zeros of a given shape. -/
def zeros [Scalar α] (shape : List Nat) : Tensor α :=
  ⟨shape, Array.replicate (shape.foldl (· * ·) 1) 0⟩

/-- All entries in order. -/
def flatten (t : Tensor α) : List α := t.entries.toList

variable [Scalar α]

/-- The entry at a position of the flattened array. -/
def entry (t : Tensor α) (k : Nat) : α := t.entries.getD k 0

/-- A one-dimensional array of `n` entries as a vector. -/
def toVector (n : Nat) (t : Tensor α) : Except Error (Vector α n) :=
  if t.shape = [n] then pure (Vector.ofFn fun i => t.entry i) else throw .shapeMismatch

/-- A two-dimensional array with `m` rows and `n` columns as a matrix. -/
def toMat (m n : Nat) (t : Tensor α) : Except Error (Mat α m n) :=
  if t.shape = [m, n] then pure (Mat.ofFn fun i j => t.entry (i * n + j)) else throw .shapeMismatch

/-- A one-dimensional array as a vector of its own length. -/
def asVector (t : Tensor α) : Except Error ((n : Nat) × Vector α n) :=
  match t.shape with
  | [n] => do return ⟨n, ← t.toVector n⟩
  | _ => throw .shapeMismatch

/-- A two-dimensional array as a matrix of its own size. -/
def asMat (t : Tensor α) : Except Error ((m n : Nat) × Mat α m n) :=
  match t.shape with
  | [m, n] => do return ⟨m, n, ← t.toMat m n⟩
  | _ => throw .shapeMismatch

/-- A table of rows of equal width. -/
structure Table (α : Type) where
  height : Nat
  width : Nat
  rows : Mat α height width

/-- A vector as a single column, a matrix as it is; nothing else is a table. -/
def table? (t : Tensor α) : Option (Table α) :=
  match t.shape with
  | [m] => some ⟨m, 1, Mat.ofFn fun i _ => t.entry i⟩
  | [m, n] => some ⟨m, n, Mat.ofFn fun i j => t.entry (i * n + j)⟩
  | _ => none

/-- One column of a table, zeros if the table is narrower. -/
def Table.column (t : Table α) (j : Nat) : List α :=
  t.rows.toList.map fun row => row.toArray.getD j 0

end Tensor

/-! ## Raw data -/

/-- Data as it is handed over: nested lists, or an array of zeros of any shape. -/
inductive RawArray (α : Type) where
  | nested (data : Nested α)
  | zeros (shape : List Nat)

mutual

/-- Nested lists read as an array: all items of a list have one shape. -/
def Nested.toTensor : Nested α → Except Error (Tensor α)
  | .leaf a => pure ⟨[], #[a]⟩
  | .list items => do Tensor.stack (← Nested.toTensors items)

/-- The items of a list, each read as an array. -/
def Nested.toTensors : List (Nested α) → Except Error (List (Tensor α))
  | [] => pure []
  | item :: rest => do
    let t ← Nested.toTensor item
    let ts ← Nested.toTensors rest
    pure (t :: ts)

end

/-- Raw data read as an array. -/
def RawArray.toTensor [Scalar α] : RawArray α → Except Error (Tensor α)
  | .nested data => data.toTensor
  | .zeros shape => pure (Tensor.zeros shape)

end Sqp
