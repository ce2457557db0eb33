import Sqp.Linear.Vec

/-!
# Arrays of unequal length

Arrays that users hand over need not fit together. Two of them are combined entry by
entry if they have one length, or if one of them has a single entry, which then stands
for as many as are needed.

- `fitted`: a list as a vector of a length that is already known.
- `combine`: two lists combined entry by entry; `quotients` divides one by the other.
- `onFitting`: an operation on vectors of one length, and what is done to lists of any
  other length.
-/

namespace Sqp

variable {β : Type}

/-- A list as a vector of length `n`. A single entry stands for `n` equal ones; any other
length is refused. -/
def fitted (n : Nat) (xs : List β) : Except Error (Vector β n) :=
  if h : xs.length = n then pure ((ofList xs).cast h)
  else match xs with
    | [a] => pure (Vector.replicate n a)
    | _ => throw .incompatible

/-- Two lists combined entry by entry. -/
def combine (f : β → β → β) : List β → List β → Except Error (List β)
  | [x], ys => pure (ys.map (f x))
  | xs, [y] => pure (xs.map (f · y))
  | xs, ys => if xs.length = ys.length then pure (List.zipWith f xs ys) else throw .incompatible

/-- One list divided by another; a single divisor is shared by all entries. -/
def quotients [Scalar β] (xs : List β) : List β → Except Error (List β)
  | [c] => pure (xs.map fun a => Scalar.share xs.length a c)
  | ys => combine (· / ·) xs ys

/-- An operation on vectors of length `n`, applied to a list of this length; a list of
another length is passed to `otherwise`. -/
def onFitting {n : Nat} (f : Vector β n → Vector β n) (otherwise : List β → Except Error (List β))
    (xs : List β) : Except Error (List β) :=
  if h : xs.length = n then pure (f ((ofList xs).cast h)).toList else otherwise xs

end Sqp
