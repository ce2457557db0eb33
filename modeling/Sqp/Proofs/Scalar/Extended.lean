import Sqp.Proofs.Scalar.Rounded

/-!
# Real numbers with infinities, without rounding

Scalars for statements about exact arithmetic that meets the special values of a machine: sums,
differences and products of real numbers are the real ones, while infinities and the undefined
value behave as those of machine numbers do.

- `Extended`: these scalars, which are rounded by not rounding at all.
- `Extended.number_add`, `Extended.number_sub`, `Extended.number_mul`: the real numbers in them.
- `Extended.isLeast_halvingLimit`: how often one must be halved to get to a positive tolerance.
-/

namespace Sqp

/-- Real numbers, infinities and an undefined value, with nothing rounded. -/
abbrev Extended : Type := Rounded fun x : ℝ => (x : EReal)

/-- Arrays hold the numbers themselves. -/
instance : Storage Extended Extended where
  store := id
  load := id
  load_store _ := rfl
  store_load _ := rfl

namespace Extended

open Rounded

theorem round_coe (x : ℝ) : (round x : Extended) = number x := Rounded.round_coe x

@[simp] theorem number_le_number {x y : ℝ} : (number x : Extended) ≤ number y ↔ x ≤ y := by
  constructor
  · rintro ⟨x', y', hx, hy, hle⟩
    cases hx
    cases hy
    exact EReal.coe_le_coe_iff.mp hle
  · intro h
    exact ⟨x, y, rfl, rfl, EReal.coe_le_coe_iff.mpr h⟩

theorem le_of_lt {a b : Extended} (h : a < b) : a ≤ b := by
  obtain ⟨x, y, hx, hy, hlt⟩ := h
  exact ⟨x, y, hx, hy, hlt.le⟩

theorem not_lt_of_le {a b : Extended} (h : a ≤ b) : ¬ b < a := by
  rintro ⟨y, x, hy, hx, hlt⟩
  obtain ⟨x', y', hx', hy', hle⟩ := h
  cases hx.symm.trans hx'
  cases hy.symm.trans hy'
  exact hle.not_gt hlt

/-- Real numbers are nowhere without a sum. -/
theorem addable_coe (x y : ℝ) : Addable x y :=
  ⟨fun h => EReal.coe_ne_top x h.1, fun h => EReal.coe_ne_bot x h.1⟩

/-- Sums of real numbers are not rounded. -/
theorem number_add (x y : ℝ) : (number x + number y : Extended) = number (x + y) := by
  have hsum : (number x + number y : Extended) = round ((x : EReal) + y) :=
    if_pos (addable_coe x y)
  rw [hsum, ← EReal.coe_add, round_coe]

theorem number_sub (x y : ℝ) : (number x - number y : Extended) = number (x - y) := by
  have hdifference : (number x - number y : Extended) = round ((x : EReal) - y) :=
    if_pos (addable_coe x (-y))
  rw [hdifference, ← EReal.coe_sub, round_coe]

theorem number_mul (x y : ℝ) : (number x * number y : Extended) = number (x * y) := by
  have hvalid : Multipliable x y :=
    ⟨fun h => not_infinite_coe y h.2, fun h => not_infinite_coe x h.1⟩
  have hproduct : (number x * number y : Extended) = round ((x : EReal) * y) := if_pos hvalid
  rw [hproduct, ← EReal.coe_mul, round_coe]

theorem one_half : (0.5 : Extended) = number 0.5 := round_coe 0.5

/-- Enough halvings make one as small as any positive tolerance. -/
theorem isLeast_halvingLimit {tolerance : Extended} (h : 0 < tolerance) :
    IsLeast {k : ℕ | number (0.5 ^ k) ≤ tolerance} (Scalar.halvingLimit tolerance) := by
  -- the limit is defined by comparing extended reals, which is the same comparison
  have hset : {k : ℕ | number (0.5 ^ k) ≤ tolerance} =
      {k : ℕ | ∃ x, tolerance = value x ∧ (((0.5 : ℝ) ^ k : ℝ) : EReal) ≤ x} := by
    ext k
    constructor
    · rintro ⟨x, y, hx, hy, hle⟩
      cases hx
      exact ⟨y, hy, hle⟩
    · rintro ⟨y, hy, hle⟩
      exact ⟨_, y, rfl, hy, hle⟩
  obtain ⟨x, y, hx, rfl, hlt⟩ := h
  cases hx
  have hnonempty : {k : ℕ | number (0.5 ^ k) ≤ (value y : Extended)}.Nonempty := by
    induction y with
    | bot => exact absurd hlt not_lt_bot
    -- an infinite tolerance is met at once
    | top => exact ⟨0, _, _, rfl, rfl, le_top⟩
    | coe y =>
      obtain ⟨k, hk⟩ := exists_pow_lt_of_lt_one (EReal.coe_pos.mp hlt) (by norm_num : (0.5 : ℝ) < 1)
      exact ⟨k, number_le_number.mpr hk.le⟩
  show IsLeast _ (sInf _)
  rw [← hset]
  exact ⟨Nat.sInf_mem hnonempty, fun k hk => Nat.sInf_le hk⟩

end Extended

end Sqp
