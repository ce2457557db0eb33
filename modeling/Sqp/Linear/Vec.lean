import Sqp.Scalar

/-!
# Dense vectors

Vectors are `Vector α n` of the core library, whose entrywise sum, difference and
negation are used as they are. This module adds what the solver needs beside them.

- `ofList`: a list as a vector of its own length.
- `tabulateM`: the vector of the results of an effectful function, run in the order
  of the indices.
- `dot`, `fusedDot`: the inner product, and a part of it in which every product is
  added without being rounded first.
- `euclideanNorm`, `infinityNorm`: the norms. The norm of a single entry is its
  magnitude; otherwise the Euclidean norm is the plain root of the sum of squares.
- `put`, `nudge`: one entry replaced or increased.
- `front`, `back`: the first `q` and the last `n` entries of a vector of length `q + n`.

Vectors are looked at through `Vector.get`: each operation has a lemma that gives the
entries of its result, and two vectors with the same entries are equal (`vector_ext`).
-/

namespace Sqp

/-- A list as a vector of its own length. -/
def ofList {β : Type} (xs : List β) : Vector β xs.length := ⟨xs.toArray, by simp⟩

/-- The vector of the results of `f`, run from the first index to the last. -/
def tabulateM {m : Type → Type} [Monad m] {β : Type} : {n : Nat} → (Fin n → m β) → m (Vector β n)
  | 0, _ => pure #v[]
  | _ + 1, f => do
    let init ← tabulateM fun i => f i.castSucc
    let last ← f (Fin.last _)
    pure (init.push last)

/-! ## Entries -/

section Entries

variable {β γ : Type} {n q : Nat}

/-- Two vectors with the same entries are equal. -/
theorem vector_ext {x y : Vector β n} (h : ∀ i : Fin n, x.get i = y.get i) : x = y :=
  Vector.ext fun i hi => h ⟨i, hi⟩

theorem get_ofFn (f : Fin n → β) (i : Fin n) : (Vector.ofFn f).get i = f i :=
  Vector.getElem_ofFn i.isLt

theorem get_map (f : β → γ) (x : Vector β n) (i : Fin n) : (x.map f).get i = f (x.get i) :=
  Vector.getElem_map f i.isLt

theorem get_zipWith {δ : Type} (f : β → γ → δ) (x : Vector β n) (y : Vector γ n) (i : Fin n) :
    (Vector.zipWith f x y).get i = f (x.get i) (y.get i) :=
  Vector.getElem_zipWith i.isLt

/-- The entries of a joined vector: first those of the first part. -/
theorem get_append_castAdd (x : Vector β q) (y : Vector β n) (i : Fin q) :
    (x ++ y).get (i.castAdd n) = x.get i :=
  Vector.getElem_append_left i.isLt

/-- The entries of a joined vector: then those of the second part. -/
theorem get_append_natAdd (x : Vector β q) (y : Vector β n) (i : Fin n) :
    (x ++ y).get (i.natAdd q) = y.get i :=
  (Vector.getElem_append_right (i.natAdd q).isLt (Nat.le_add_right q i)).trans
    (congrArg y.get (Fin.ext (Nat.add_sub_cancel_left q i)))

end Entries

variable {α : Type} [Scalar α] {n q : Nat}

/-! ## Products and norms -/

/-- The inner product. -/
def dot (x y : Vector α n) : α := (Vector.zipWith (· * ·) x y).foldl (· + ·) 0

/-- The inner product over the entries at the given indices, each product and its sum
with the ones before rounded together. -/
def fusedDot (indices : List (Fin n)) (x y : Vector α n) : α :=
  indices.foldl (fun s i => Scalar.mulAdd (x.get i) (y.get i) s) 0

/-- The square root of the sum of squares, for a single entry its magnitude. -/
def euclideanNorm (x : Vector α n) : α :=
  match x.toList with
  | [a] => Scalar.abs a
  | _ => Scalar.sqrt (dot x x)

/-- The largest magnitude, zero for the empty vector; undefined if an entry is. -/
def infinityNorm (x : Vector α n) : α :=
  match x.toList with
  | [] => 0
  | a :: rest => rest.foldl (fun largest b => Scalar.greater largest (Scalar.abs b)) (Scalar.abs a)

/-- All entries finite. -/
def allFinite (x : Vector α n) : Bool := x.all Scalar.isFinite

/-! ## Scaling and shifting -/

/-- The vector of zeros. -/
def zeros (α : Type) [Scalar α] (n : Nat) : Vector α n := Vector.replicate n 0

/-- All entries multiplied by `c` from the left. -/
def scaled (c : α) (x : Vector α n) : Vector α n := x.map (c * ·)

/-- The entrywise product. -/
def mulEach (x y : Vector α n) : Vector α n := Vector.zipWith (· * ·) x y

/-- The entrywise quotient. -/
def divEach (x y : Vector α n) : Vector α n := Vector.zipWith (· / ·) x y

/-- The vector with entry `i` replaced by `a`. -/
def put {β : Type} (x : Vector β n) (i : Fin n) (a : β) : Vector β n := x.set i.val a i.isLt

/-- The vector with entry `i` increased by `h`. -/
def nudge (x : Vector α n) (i : Fin n) (h : α) : Vector α n := put x i (x.get i + h)

@[simp]
theorem get_scaled (c : α) (x : Vector α n) (i : Fin n) : (scaled c x).get i = c * x.get i :=
  get_map _ x i

@[simp]
theorem get_mulEach (x y : Vector α n) (i : Fin n) : (mulEach x y).get i = x.get i * y.get i :=
  get_zipWith _ x y i

@[simp]
theorem get_divEach (x y : Vector α n) (i : Fin n) : (divEach x y).get i = x.get i / y.get i :=
  get_zipWith _ x y i

@[simp]
theorem get_put_self {β : Type} (x : Vector β n) (i : Fin n) (a : β) : (put x i a).get i = a :=
  Vector.getElem_set_self i.isLt

/-- Entries other than the replaced one stay. -/
theorem get_put_of_ne {β : Type} (x : Vector β n) {i j : Fin n} (a : β) (h : i ≠ j) :
    (put x i a).get j = x.get j :=
  Vector.getElem_set_ne i.isLt j.isLt fun same => h (Fin.ext same)

/-- Each entry limited to `[lower, upper]`. -/
def clampAll (lower upper : α) (x : Vector α n) : Vector α n :=
  x.map (Scalar.clamp lower upper)

/-! ## Parts -/

/-- The first `q` entries. -/
def front {β : Type} (p : Vector β (q + n)) : Vector β q :=
  Vector.ofFn fun i => p.get (i.castAdd n)

/-- The last `n` entries. -/
def back {β : Type} (p : Vector β (q + n)) : Vector β n :=
  Vector.ofFn fun i => p.get (i.natAdd q)

@[simp]
theorem get_front {β : Type} (p : Vector β (q + n)) (i : Fin q) :
    (front p).get i = p.get (i.castAdd n) :=
  get_ofFn _ i

@[simp]
theorem get_back {β : Type} (p : Vector β (q + n)) (i : Fin n) :
    (back p).get i = p.get (i.natAdd q) :=
  get_ofFn _ i

@[simp]
theorem front_append {β : Type} (x : Vector β q) (y : Vector β n) : front (x ++ y) = x :=
  vector_ext fun i => (get_front _ i).trans (get_append_castAdd x y i)

@[simp]
theorem back_append {β : Type} (x : Vector β q) (y : Vector β n) : back (x ++ y) = y :=
  vector_ext fun i => (get_back _ i).trans (get_append_natAdd x y i)

/-- The two parts of a vector joined again. -/
@[simp]
theorem front_append_back {β : Type} (p : Vector β (q + n)) : front p ++ back p = p :=
  vector_ext fun i => by
    refine Fin.addCases (fun j => ?_) (fun j => ?_) i
    · rw [get_append_castAdd, get_front]
    · rw [get_append_natAdd, get_back]

end Sqp
