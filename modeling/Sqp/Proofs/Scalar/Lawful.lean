import Sqp.Proofs.Scalar.Real

/-!
# What scalars have in common

Doubles round and have undefined values; few laws of ordered numbers are left. They are
enough to say what a check that a program makes is worth.

- `Scalar.Defined`: a value that can be compared.
- `Scalar.Lawful`: the laws that exact scalars and doubles share.
- `Scalar.Ordered`: the laws of their order, in which undefined values have no place.
- `Scalar.le_of_not_lt`, `Scalar.lt_of_not_le`: comparisons of defined values decide
  between two cases.
- `Scalar.keepMin_le`: the smaller of two values by `Scalar.keepMin`.
-/

namespace Sqp.Scalar

variable {α : Type} [Scalar α]

/-- A value that can be compared, also with itself. -/
def Defined (a : α) : Prop := a ≤ a

instance (a : α) : Decidable (Defined a) := inferInstanceAs (Decidable (a ≤ a))

/-- Laws of scalars that may round and may have undefined values. -/
class Lawful (α : Type) [Scalar α] : Prop where
  zero_defined : Defined (0 : α)
  /-- Of two defined values, the first one is smaller or it is at least the second one; an
  undefined value is neither. -/
  lt_iff : ∀ a b : α, a < b ↔ Defined a ∧ Defined b ∧ ¬ b ≤ a
  /-- A difference that rounds to a positive number has its terms in this order. -/
  lt_of_sub_pos : ∀ a b : α, 0 < b - a → a < b
  zero_div_five : (0 : α) / 5.0 = 0

/-- Lawful scalars whose order is transitive and leaves out undefined values. -/
class Ordered (α : Type) [Scalar α] : Prop extends Lawful α where
  defined_of_le : ∀ a b : α, a ≤ b → Defined a ∧ Defined b
  le_of_lt : ∀ a b : α, a < b → a ≤ b
  le_trans : ∀ a b c : α, a ≤ b → b ≤ c → a ≤ c

/-- Every real number is defined. -/
theorem defined_real (a : ℝ) : Defined a := le_refl a

instance : Ordered ℝ where
  zero_defined := defined_real 0
  lt_iff a b := by
    rw [not_le]
    exact ⟨fun h => ⟨defined_real a, defined_real b, h⟩, fun h => h.2.2⟩
  lt_of_sub_pos _ _ h := sub_pos.mp h
  zero_div_five := zero_div _
  defined_of_le a b _ := ⟨defined_real a, defined_real b⟩
  le_of_lt _ _ h := h.le
  le_trans _ _ _ hab hbc := hab.trans hbc

variable [Lawful α] {a b : α}

theorem defined_of_lt (h : a < b) : Defined a ∧ Defined b :=
  ⟨((Lawful.lt_iff a b).mp h).1, ((Lawful.lt_iff a b).mp h).2.1⟩

theorem lt_of_not_le (ha : Defined a) (hb : Defined b) (h : ¬ b ≤ a) : a < b :=
  (Lawful.lt_iff a b).mpr ⟨ha, hb, h⟩

theorem le_of_not_lt (ha : Defined a) (hb : Defined b) (h : ¬ a < b) : b ≤ a := by
  by_contra hle
  exact h (lt_of_not_le ha hb hle)

/-- A value that is kept as the smaller of two does not exceed the second one, unless it is
undefined. -/
theorem keepMin_le (hb : Defined b) (h : Defined (keepMin a b)) : keepMin a b ≤ b := by
  unfold keepMin at h ⊢
  split_ifs at h ⊢ with hlt
  · exact hb
  · exact le_of_not_lt hb h hlt

end Sqp.Scalar
