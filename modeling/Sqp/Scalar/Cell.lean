import Sqp.Scalar.Double

/-!
# Entries of arrays

The numbers that arrays hold. They are doubles, but their arithmetic has no subnormal
numbers: every operand and every result whose magnitude is under `2⁻¹⁰²²` counts as zero.
Magnitudes and negatives are no arithmetic and keep such a number as it is.

- `Cell`: an entry.
- `Cell.flush`: a double with subnormal numbers replaced by zeros of the same sign.
-/

namespace Sqp

/-- An entry of an array. -/
structure Cell where
  value : Float

namespace Cell

/-- The smallest magnitude that is not subnormal, `2⁻¹⁰²²`. -/
def smallestNormal : Float := Float.ofBits 0x0010000000000000

/-- Subnormal numbers become zeros of the same sign; all else stays. -/
def flush (x : Float) : Float := if x.abs < smallestNormal then x * 0.0 else x

/-- The operand that arithmetic sees. -/
def operand (a : Cell) : Float := flush a.value

/-- The entry that arithmetic makes of a result. -/
def ofResult (x : Float) : Cell := ⟨flush x⟩

instance : Storage Float Cell where
  store := Cell.mk
  load := Cell.value
  load_store _ := rfl
  store_load _ := rfl

instance : Scalar Cell where
  zero := ⟨0.0⟩
  one := ⟨1.0⟩
  add a b := ofResult (a.operand + b.operand)
  sub a b := ofResult (a.operand - b.operand)
  mul a b := ofResult (a.operand * b.operand)
  div a b := ofResult (a.operand / b.operand)
  neg a := ⟨-a.value⟩
  natCast n := ⟨Float.ofNat n⟩
  ofScientific m s e := ⟨OfScientific.ofScientific m s e⟩
  lt a b := a.operand < b.operand
  le a b := a.operand ≤ b.operand
  abs a := ⟨a.value.abs⟩
  sqrt a := ofResult a.operand.sqrt
  mulAdd a b c := ofResult (Double.mulAdd a.operand b.operand c.operand)
  length xs := ofResult (Double.length (xs.map operand))
  isFinite a := a.value.isFinite
  isInfinite a := a.value.isInf
  -- as for doubles; the positions that a search halves are plain numbers and no entries
  halvingLimit _ := 1075
  decidableLt a b := inferInstanceAs (Decidable (a.operand < b.operand))
  decidableLe a b := inferInstanceAs (Decidable (a.operand ≤ b.operand))

end Cell

end Sqp
