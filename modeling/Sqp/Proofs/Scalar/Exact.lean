import Mathlib.Tactic.FieldSimp
import Mathlib.Tactic.LinearCombination
import Sqp.Proofs.Scalar.Lawful

/-!
# Exact scalars in general

What is proved over the real numbers mostly needs an ordered field only. Here is what such a
field must be like to be computed in.

- `Scalar.halfway`: the middle of two scalars, as line searches compute it.
- `ExactScalar`: an ordered field whose operations are the ones of a scalar, and whose arrays
  hold the numbers themselves. Roots and the other routines are not restricted.
- `ExactScalar.real`: the real numbers are one.
- `ExactScalar.Dyadic`: fractions of the unit interval that repeated halving leads to
  (`ExactScalar.Dyadic.middle`).
-/

namespace Sqp

/-- The middle of two scalars. -/
def Scalar.halfway {α : Type} [Scalar α] (a b : α) : α := 0.5 * (a + b)

/-- An ordered field with the operations of a scalar. -/
class ExactScalar (α : Type) extends
    Field α, LinearOrder α, IsStrictOrderedRing α, Scalar α, Storage α α where
  /-- The middle is halfway: twice the middle is the sum. -/
  halfway_add_halfway : ∀ a b : α, Scalar.halfway a b + Scalar.halfway a b = a + b
  /-- Arrays hold the numbers themselves. -/
  store_eq : ∀ a : α, store a = a

namespace ExactScalar

/-- The real numbers. -/
@[reducible] noncomputable def real : ExactScalar ℝ where
  __ := (inferInstance : Field ℝ)
  __ := (inferInstance : LinearOrder ℝ)
  __ := (inferInstance : IsStrictOrderedRing ℝ)
  __ := realScalar
  __ := realStorage
  halfway_add_halfway a b := by
    unfold Scalar.halfway
    norm_num
    ring
  store_eq _ := rfl

variable {α : Type} [ExactScalar α]

/-- Every number of an exact field is defined. -/
theorem defined (a : α) : Scalar.Defined a := le_refl a

instance : Scalar.Ordered α where
  zero_defined := defined 0
  lt_iff a b := by
    rw [not_le]
    exact ⟨fun h => ⟨defined a, defined b, h⟩, fun h => h.2.2⟩
  lt_of_sub_pos _ _ h := sub_pos.mp h
  zero_div_five := zero_div _
  defined_of_le a b _ := ⟨defined a, defined b⟩
  le_of_lt _ _ h := h.le
  le_trans _ _ _ hab hbc := hab.trans hbc

/-! ## Dyadic fractions -/

/-- A fraction of the unit interval whose denominator is a power of two. -/
def Dyadic (a : α) : Prop := ∃ k i : Nat, i ≤ 2 ^ k ∧ a = (i : α) / (2 ^ k : Nat)

theorem dyadic_zero : Dyadic (0 : α) := ⟨0, 0, Nat.zero_le _, by simp⟩

theorem dyadic_one : Dyadic (1 : α) := ⟨0, 1, le_rfl, by simp⟩

/-- Halfway between two dyadic fractions lies a dyadic fraction. -/
theorem Dyadic.middle {a b : α} (ha : Dyadic a) (hb : Dyadic b) : Dyadic (Scalar.halfway a b) := by
  obtain ⟨k, i, hi, rfl⟩ := ha
  obtain ⟨l, j, hj, rfl⟩ := hb
  refine ⟨k + l + 1, i * 2 ^ l + j * 2 ^ k, ?_, ?_⟩
  · calc i * 2 ^ l + j * 2 ^ k ≤ 2 ^ k * 2 ^ l + 2 ^ l * 2 ^ k :=
        Nat.add_le_add (Nat.mul_le_mul_right _ hi) (Nat.mul_le_mul_right _ hj)
      _ = 2 ^ (k + l + 1) := by rw [pow_succ, pow_add]; ring
  · have htwice := halfway_add_halfway ((i : α) / (2 ^ k : Nat)) ((j : α) / (2 ^ l : Nat))
    have htwo : (2 : α) ≠ 0 := two_ne_zero
    push_cast at htwice ⊢
    rw [eq_div_iff (pow_ne_zero _ htwo), pow_succ, pow_add]
    field_simp at htwice
    linear_combination htwice

end ExactScalar

end Sqp
