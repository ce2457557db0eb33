import Mathlib.Data.EReal.Inv
import Sqp.Proofs.Scalar.Real

/-!
# Real numbers with the special values of a machine

Between exact scalars and doubles: every real number is a scalar, results are rounded in whatever
way, and the special values are those of machine numbers. A positive number divided by zero is
infinite, zero divided by zero is undefined, and an undefined value compares false.

- `IsRounding`: a rounding keeps the order and keeps powers of two.
- `Rounded`: the scalars that are rounded by `r`; `Rounded.number` embeds the real numbers.
- `Rounded.number_div`, `Rounded.number_div_zero`, `Rounded.zero_div_zero`: the three cases of a
  quotient.
- `Rounded.one_div_epsilon`: the reciprocal of the machine precision is not rounded.
-/

namespace Sqp

/-- A rounding of real numbers, which may overflow. It keeps the order, and the powers of two that
a double can hold. -/
structure IsRounding (r : ℝ → EReal) : Prop where
  mono : Monotone r
  powers : ∀ k : ℤ, -1022 ≤ k → k ≤ 1023 → r ((2 : ℝ) ^ k) = ((2 : ℝ) ^ k : ℝ)

/-- No rounding at all is the finest rounding. -/
theorem isRounding_coe : IsRounding fun x : ℝ => (x : EReal) where
  mono _ _ h := EReal.coe_le_coe_iff.mpr h
  powers _ _ _ := rfl

/-- Real numbers, infinities and an undefined value, with results rounded by `r`. -/
def Rounded (_ : ℝ → EReal) : Type := Option EReal

namespace Rounded

open Classical

variable {r : ℝ → EReal}

/-- A defined value. -/
def value (x : EReal) : Rounded r := some x

/-- A real number, which need not be one that `r` rounds to. -/
def number (x : ℝ) : Rounded r := value x

/-- No value at all. -/
def undefined : Rounded r := none

/-- The value is one of the infinities. -/
def Infinite (x : EReal) : Prop := x = ⊤ ∨ x = ⊥

/-- The result of an operation. Infinities are not rounded. -/
noncomputable def round (x : EReal) : Rounded r := value (if Infinite x then x else r x.toReal)

/-- An operation on defined values, which has no result where it is not valid. -/
noncomputable def lift (valid : EReal → EReal → Prop) (f : EReal → EReal → EReal) :
    Rounded r → Rounded r → Rounded r
  | some x, some y => if valid x y then round (f x y) else undefined
  | _, _ => undefined

/-- Infinities of different signs have no sum. -/
def Addable (x y : EReal) : Prop := ¬ (x = ⊤ ∧ y = ⊥) ∧ ¬ (x = ⊥ ∧ y = ⊤)

/-- Zero and an infinity have no product. -/
def Multipliable (x y : EReal) : Prop := ¬ (x = 0 ∧ Infinite y) ∧ ¬ (Infinite x ∧ y = 0)

/-- Two zeros have no quotient, and neither do two infinities. -/
def Divisible (x y : EReal) : Prop := ¬ (x = 0 ∧ y = 0) ∧ ¬ (Infinite x ∧ Infinite y)

/-- The quotient by zero is infinite. -/
noncomputable def ratio (x y : EReal) : EReal :=
  if y = 0 then if 0 < x then ⊤ else ⊥ else x / y

/-- The root of the sum of squares, infinite as soon as an entry is. -/
noncomputable def length (xs : List (Rounded r)) : Rounded r :=
  if value ⊤ ∈ xs ∨ value ⊥ ∈ xs then value ⊤
  else if undefined ∈ xs then undefined
  else round (Real.sqrt ((xs.map fun a => (a.getD 0).toReal * (a.getD 0).toReal).sum) : ℝ)

noncomputable instance : Scalar (Rounded r) where
  zero := number 0
  one := number 1
  add := lift Addable (· + ·)
  sub := lift (fun x y => Addable x (-y)) (· - ·)
  mul := lift Multipliable (· * ·)
  div := lift Divisible ratio
  neg a := a.map fun x => -x
  natCast n := round (n : ℝ)
  ofScientific mantissa negative exponent :=
    round (OfScientific.ofScientific mantissa negative exponent : ℝ)
  lt a b := ∃ x y, a = value x ∧ b = value y ∧ x < y
  le a b := ∃ x y, a = value x ∧ b = value y ∧ x ≤ y
  abs a := a.map fun x => max x (-x)
  sqrt a := a.bind fun x =>
    if x < 0 then none else if x = ⊤ then some ⊤ else (round (Real.sqrt x.toReal : ℝ) : Rounded r)
  mulAdd a b c := a.bind fun x => b.bind fun y =>
    if Multipliable x y then lift (fun u v => Addable u v) (· + ·) (value (x * y)) c else none
  length := length
  isFinite a := decide (∃ x, a = number x)
  isInfinite a := decide (a = value ⊤ ∨ a = value ⊥)
  halvingLimit a := sInf {k : ℕ | ∃ x, a = value x ∧ (((0.5 : ℝ) ^ k : ℝ) : EReal) ≤ x}
  decidableLt := inferInstance
  decidableLe := inferInstance

/-! ## Comparison -/

@[simp] theorem value_lt_value {x y : EReal} : (value x : Rounded r) < value y ↔ x < y := by
  constructor
  · rintro ⟨x', y', hx, hy, hlt⟩
    cases hx
    cases hy
    exact hlt
  · intro h
    exact ⟨x, y, rfl, rfl, h⟩

/-- An undefined value compares false. -/
theorem not_lt_undefined (a : Rounded r) : ¬ a < undefined := by
  rintro ⟨_, _, -, h, -⟩
  cases h

/-! ## Quotients -/

theorem not_infinite_coe (x : ℝ) : ¬ Infinite x := by
  rintro (h | h)
  · exact EReal.coe_ne_top x h
  · exact EReal.coe_ne_bot x h

theorem round_coe (x : ℝ) : (round x : Rounded r) = value (r x) := by
  rw [round, if_neg (not_infinite_coe x), EReal.toReal_coe]

/-- A quotient of real numbers is rounded. -/
theorem number_div (x : ℝ) {y : ℝ} (hy : y ≠ 0) :
    (number x / number y : Rounded r) = value (r (x / y)) := by
  have hy' : (y : EReal) ≠ 0 := EReal.coe_ne_zero.mpr hy
  have hvalid : Divisible x y := ⟨fun h => hy' h.2, fun h => not_infinite_coe y h.2⟩
  have hratio : ratio x y = ((x / y : ℝ) : EReal) := (if_neg hy').trans (EReal.coe_div x y).symm
  show (if Divisible x y then (round (ratio x y) : Rounded r) else undefined) = _
  rw [if_pos hvalid, hratio, round_coe]

/-- A positive number divided by zero is infinite. -/
theorem number_div_zero {x : ℝ} (hx : 0 < x) : (number x / number 0 : Rounded r) = value ⊤ := by
  have hx' : (0 : EReal) < x := EReal.coe_pos.mpr hx
  have hvalid : Divisible x (0 : ℝ) := ⟨fun h => hx'.ne' h.1, fun h => not_infinite_coe x h.1⟩
  have hratio : ratio x (0 : ℝ) = ⊤ := (if_pos rfl).trans (if_pos hx')
  show (if Divisible x (0 : ℝ) then (round (ratio x (0 : ℝ)) : Rounded r) else undefined) = _
  rw [if_pos hvalid, hratio, round, if_pos (.inl rfl)]

/-- Zero divided by zero is undefined. -/
theorem zero_div_zero : (number 0 / number 0 : Rounded r) = undefined :=
  if_neg fun h : Divisible (0 : ℝ) (0 : ℝ) => h.1 ⟨rfl, rfl⟩

/-! ## Machine precision -/

variable (hr : IsRounding r)
include hr

theorem round_power {k : ℤ} (hlower : -1022 ≤ k) (hupper : k ≤ 1023) :
    (round ((2 : ℝ) ^ k : ℝ) : Rounded r) = number ((2 : ℝ) ^ k) := by
  rw [round_coe, hr.powers k hlower hupper, number]

/-- The spacing at one and its reciprocal are powers of two. -/
theorem one_div_epsilon : (1 / Scalar.epsilon : Rounded r) = number (2 ^ (52 : ℤ)) := by
  have hdecimal : (4503599627370496.0 : Rounded r) = number (2 ^ (52 : ℤ)) := by
    show (round ((4503599627370496.0 : ℝ) : EReal) : Rounded r) = _
    rw [show (4503599627370496.0 : ℝ) = 2 ^ (52 : ℤ) by norm_num, round_power hr (by norm_num)
      (by norm_num)]
  have hquotient : ∀ k : ℤ, -1022 ≤ k → k ≤ 1023 →
      (1 / number (2 ^ (-k)) : Rounded r) = number (2 ^ k) := by
    intro k hlower hupper
    show (number 1 / number (2 ^ (-k)) : Rounded r) = _
    rw [number_div _ (zpow_ne_zero _ two_ne_zero), zpow_neg, one_div, inv_inv,
      hr.powers k hlower hupper, number]
  rw [Scalar.epsilon, hdecimal]
  have hepsilon := hquotient (-52) (by norm_num) (by norm_num)
  rw [neg_neg] at hepsilon
  rw [hepsilon]
  exact hquotient 52 (by norm_num) (by norm_num)

end Rounded

end Sqp
