import Mathlib.Data.Rat.Cast.Order
import Mathlib.Tactic.Positivity
import Sqp.Proofs.Scalar.Real

/-!
# Scalars that overflow

A damping is tripled again and again, so it leaves the range of the numbers that a machine can
hold. Where it does is a threshold; below it nothing is rounded.

- `Overflowing`: positive scalars stand for real numbers, and tripling them is exact up to a
  threshold from which on they are infinite.
- `Overflowing.Represents`: a scalar is the given real number, or infinite if that is past the
  threshold.
- `Capped`: rational numbers below a thousand are such scalars.
-/

namespace Sqp

/-- Positive scalars that are exact below a threshold and infinite from there on. -/
class Overflowing (α : Type) [Scalar α] where
  /-- The real number that a finite scalar stands for. -/
  value : α → ℝ
  /-- The smallest real number that is too large. -/
  threshold : ℝ
  value_pos : ∀ a : α, 0 < a → Scalar.isFinite a = true → 0 < value a
  value_lt : ∀ a : α, 0 < a → Scalar.isFinite a = true → value a < threshold
  triple_exact : ∀ a : α, 0 < a → Scalar.isFinite a = true → 3 * value a < threshold →
    0 < 3.0 * a ∧ Scalar.isFinite (3.0 * a) = true ∧ value (3.0 * a) = 3 * value a
  triple_infinite : ∀ a : α, 0 < a → Scalar.isFinite a = true → threshold ≤ 3 * value a →
    Scalar.isFinite (3.0 * a) = false ∧ Scalar.isInfinite (3.0 * a) = true

namespace Overflowing

variable {α : Type} [Scalar α] [Overflowing α]

/-- The scalar is the real number `x`, or infinite if that is past the threshold. -/
def Represents (a : α) (x : ℝ) : Prop :=
  if x < threshold α then Scalar.isFinite a = true ∧ value a = x
  else Scalar.isFinite a = false ∧ Scalar.isInfinite a = true

variable {a : α} {x : ℝ}

theorem Represents.of_lt (hx : x < threshold α) (h : Scalar.isFinite a = true ∧ value a = x) :
    Represents a x :=
  (if_pos hx).mpr h

/-- A scalar below the threshold is finite. -/
theorem Represents.isFinite_iff (h : Represents a x) :
    Scalar.isFinite a = true ↔ x < threshold α := by
  unfold Represents at h
  split_ifs at h with hx
  · exact iff_of_true h.1 hx
  · exact iff_of_false (by rw [h.1]; exact Bool.false_ne_true) hx

/-- Tripling takes a number to its threefold, be it past the threshold or not. -/
theorem represents_triple (hpos : 0 < a) (hfinite : Scalar.isFinite a = true) :
    Represents (3.0 * a) (3 * value a) := by
  unfold Represents
  split_ifs with hx
  · exact (triple_exact a hpos hfinite hx).2
  · exact triple_infinite a hpos hfinite (not_lt.mp hx)

end Overflowing

/-! ## Rational numbers below a thousand -/

/-- A rational number between minus a thousand and a thousand, or the one value that stands
for everything else. -/
inductive Capped where
  | number (q : ℚ) (small : -1000 < q ∧ q < 1000)
  | infinite

namespace Capped

/-- A rational number, if it is not too large. -/
def cap (q : ℚ) : Capped := if h : -1000 < q ∧ q < 1000 then number q h else infinite

/-- An exact operation on numbers that are not too large. -/
def lift (f : ℚ → ℚ → ℚ) : Capped → Capped → Capped
  | number a _, number b _ => cap (f a b)
  | _, _ => infinite

/-- A relation between numbers that are not too large. -/
def Related (R : ℚ → ℚ → Prop) : Capped → Capped → Prop
  | number a _, number b _ => R a b
  | _, _ => False

instance (R : ℚ → ℚ → Prop) [DecidableRel R] : DecidableRel (Related R)
  | number a _, number b _ => inferInstanceAs (Decidable (R a b))
  | number _ _, infinite => inferInstanceAs (Decidable False)
  | infinite, _ => inferInstanceAs (Decidable False)

/-- Exact field operations. There are no roots. -/
instance : Scalar Capped where
  zero := cap 0
  one := cap 1
  add := lift (· + ·)
  sub := lift (· - ·)
  mul := lift (· * ·)
  div a b := if Related (· ≠ ·) b (cap 0) then lift (· / ·) a b else infinite
  neg := lift (· - ·) (cap 0)
  natCast k := cap k
  ofScientific mantissa negative exponent :=
    cap (OfScientific.ofScientific mantissa negative exponent)
  lt := Related (· < ·)
  le := Related (· ≤ ·)
  abs a := if Related (· < ·) a (cap 0) then lift (· - ·) (cap 0) a else a
  sqrt _ := infinite
  mulAdd a b c := lift (· + ·) (lift (· * ·) a b) c
  length _ := infinite
  isFinite | number _ _ => true | infinite => false
  isInfinite | number _ _ => false | infinite => true
  halvingLimit _ := 0
  decidableLt := inferInstanceAs (DecidableRel (Related (· < ·)))
  decidableLe := inferInstanceAs (DecidableRel (Related (· ≤ ·)))

instance : Storage Capped Capped where
  store := id
  load := id
  load_store _ := rfl
  store_load _ := rfl

/-- The real number that a capped number is. -/
noncomputable def value : Capped → ℝ
  | number q _ => q
  | infinite => 0

/-- A capped number is tripled as a rational number, and capped again. -/
theorem three_mul_number (q : ℚ) (small : -1000 < q ∧ q < 1000) :
    3.0 * number q small = cap (3 * q) := by
  have hthree : (3.0 : Capped) = number 3 ⟨by norm_num, by norm_num⟩ :=
    (congrArg cap (by norm_num)).trans (dif_pos ⟨by norm_num, by norm_num⟩)
  rw [hthree]
  rfl

theorem triple_exact : ∀ a : Capped, 0 < a → Scalar.isFinite a = true → 3 * value a < 1000 →
    0 < 3.0 * a ∧ Scalar.isFinite (3.0 * a) = true ∧ value (3.0 * a) = 3 * value a
  | number q small, hpos, _, hlt => by
    have hpos : (0 : ℚ) < q := hpos
    have hlt : (3 * q : ℝ) < 1000 := hlt
    have hsmall : -1000 < 3 * q ∧ 3 * q < 1000 := ⟨by linarith, by exact_mod_cast hlt⟩
    rw [three_mul_number, cap, dif_pos hsmall]
    exact ⟨mul_pos three_pos hpos, rfl, Rat.cast_mul 3 q⟩

theorem triple_infinite : ∀ a : Capped, 0 < a → Scalar.isFinite a = true → 1000 ≤ 3 * value a →
    Scalar.isFinite (3.0 * a) = false ∧ Scalar.isInfinite (3.0 * a) = true
  | number q small, _, _, hle => by
    have hle : (1000 : ℝ) ≤ 3 * q := hle
    have hlarge : 1000 ≤ 3 * q := by exact_mod_cast hle
    rw [three_mul_number, cap, dif_neg fun h => absurd h.2 (not_lt.mpr hlarge)]
    exact ⟨rfl, rfl⟩

theorem value_lt : ∀ a : Capped, 0 < a → Scalar.isFinite a = true → value a < 1000
  | number q small, _, _ => show (q : ℝ) < 1000 by exact_mod_cast small.2

theorem value_pos : ∀ a : Capped, 0 < a → Scalar.isFinite a = true → 0 < value a
  | number _ _, hpos, _ => Rat.cast_pos.mpr hpos

noncomputable instance : Overflowing Capped where
  value := value
  threshold := 1000
  value_pos := value_pos
  value_lt := value_lt
  triple_exact := triple_exact
  triple_infinite := triple_infinite

end Capped

end Sqp
