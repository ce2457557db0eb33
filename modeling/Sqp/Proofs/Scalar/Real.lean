import Mathlib.Analysis.Real.Sqrt
import Mathlib.Tactic.Linarith
import Mathlib.Tactic.NormNum
import Mathlib.Tactic.Positivity
import Sqp.Scalar

/-!
# Exact scalars

The real numbers as scalars: nothing is rounded, every value is finite, and plain
numbers and the entries of arrays are one and the same. Over them every routine of the
library has its exact meaning, in which the solver is reasoned about.

- `Scalar.lesser_eq_min`, `Scalar.keepMin_eq_min` and their companions: both kinds of
  extrema are the extrema of the order.
- `Scalar.share_eq_div`: dividing through a reciprocal is dividing.
- `Scalar.clamp_pos`: a magnitude limited to `[tolerance, 1 / tolerance]` is positive.
- `Scalar.length_pair`: the length of two legs.
-/

namespace Sqp

/-- Real numbers with exact operations. An interval of length one is halved until its
length is at most the given number. -/
noncomputable instance realScalar : Scalar ℝ where
  abs a := |a|
  sqrt := Real.sqrt
  mulAdd a b c := a * b + c
  length xs := Real.sqrt (xs.map fun x => x * x).sum
  isFinite _ := true
  isInfinite _ := false
  halvingLimit t := sInf {k : ℕ | (1 / 2 : ℝ) ^ k ≤ t}
  decidableLt := Real.decidableLT
  decidableLe := Real.decidableLE

-- Low, since a projection would displace the instance it was filled from: quotients and
-- decimals of real numbers are their own, whatever is imported first. Sample data are written
-- in decimals, as numbers are in the routines.
attribute [instance (low)] Scalar.toDiv Scalar.toOfScientific

/-- An array of real numbers holds the numbers themselves. -/
instance realStorage : Storage ℝ ℝ where
  store := id
  load := id
  load_store _ := rfl
  store_load _ := rfl

@[simp] theorem store_real (a : ℝ) : (store a : ℝ) = a := rfl

@[simp] theorem load_real (a : ℝ) : (load a : ℝ) = a := rfl

@[simp] theorem map_load_real (xs : List ℝ) : xs.map (load : ℝ → ℝ) = xs := List.map_id xs

namespace Scalar

@[simp] theorem abs_real (a : ℝ) : Scalar.abs a = |a| := rfl

@[simp] theorem sqrt_real (a : ℝ) : Scalar.sqrt a = Real.sqrt a := rfl

@[simp] theorem mulAdd_real (a b c : ℝ) : Scalar.mulAdd a b c = a * b + c := rfl

@[simp] theorem isFinite_real (a : ℝ) : Scalar.isFinite a = true := rfl

/-- A number that is neither above nor below zero is zero. -/
@[simp] theorem isZero_iff (a : ℝ) : Scalar.isZero a = true ↔ a = 0 := by
  rw [isZero, Bool.and_eq_true, decide_eq_true_iff, decide_eq_true_iff]
  constructor
  · rintro ⟨h₁, h₂⟩
    exact le_antisymm h₂ h₁
  · rintro rfl
    exact ⟨le_rfl, le_rfl⟩

/-! ## Extrema -/

/-- There is no undefined number that a comparison could miss. -/
@[simp] theorem lesser_eq_min (a b : ℝ) : lesser a b = min a b := by
  unfold lesser settled
  split_ifs with h₁ h₂
  · rw [min_eq_left h₁, sub_zero]
  · rw [min_eq_right h₂, sub_zero]
  · exact absurd (le_total a b) (not_or.mpr ⟨h₁, h₂⟩)

@[simp] theorem greater_eq_max (a b : ℝ) : greater a b = max a b := by
  unfold greater settled
  split_ifs with h₁ h₂
  · rw [max_eq_left h₁, sub_zero]
  · rw [max_eq_right h₂, sub_zero]
  · exact absurd (le_total b a) (not_or.mpr ⟨h₁, h₂⟩)

@[simp] theorem keepMin_eq_min (a b : ℝ) : keepMin a b = min a b := by
  unfold keepMin
  split_ifs with h
  · exact (min_eq_right h.le).symm
  · exact (min_eq_left (not_lt.mp h)).symm

@[simp] theorem keepMax_eq_max (a b : ℝ) : keepMax a b = max a b := by
  unfold keepMax
  split_ifs with h
  · exact (max_eq_right h.le).symm
  · exact (max_eq_left (not_lt.mp h)).symm

/-- The upper limit is applied last, so it wins where the limits are the wrong way round. -/
theorem clamp_eq (lower upper a : ℝ) : clamp lower upper a = min (max a lower) upper := by
  rw [clamp, greater_eq_max, lesser_eq_min]

/-- Limiting to `[t, 1 / t]` gives a positive number, also for `t > 1`, where the two
limits are the wrong way round. -/
theorem clamp_pos {t : ℝ} (ht : 0 < t) (a : ℝ) : 0 < clamp t (1 / t) a := by
  rw [clamp_eq]
  exact lt_min (lt_max_of_lt_right ht) (one_div_pos.mpr ht)

/-- A number within the limits is left alone. -/
theorem clamp_of_mem {lower upper a : ℝ} (ha : a ∈ Set.Icc lower upper) :
    clamp lower upper a = a := by
  rw [clamp_eq, max_eq_left ha.1, min_eq_left ha.2]

/-! ## Quotients and lengths -/

/-- Without rounding, a product with the reciprocal is the quotient. -/
@[simp] theorem share_eq_div (k : Nat) (a c : ℝ) : share k a c = a / c := by
  unfold share
  split_ifs
  · rfl
  · rw [mul_one_div]

/-- A quotient by another number than zero is not refused. -/
@[simp] theorem quotient_eq {m : Type → Type} [Monad m] [MonadExceptOf Error m] (a : ℝ) {b : ℝ}
    (hb : b ≠ 0) : (quotient a b : m ℝ) = pure (a / b) :=
  if_neg (mt (isZero_iff b).mp hb)

theorem length_pair (a b : ℝ) : Scalar.length [a, b] = Real.sqrt (a * a + b * b) := by
  show Real.sqrt (List.map (fun x => x * x) [a, b]).sum = _
  simp

/-- A length squared is the sum of squares. -/
theorem length_mul_self (xs : List ℝ) :
    Scalar.length xs * Scalar.length xs = (xs.map fun x => x * x).sum := by
  refine Real.mul_self_sqrt (List.sum_nonneg ?_)
  simp only [List.mem_map]
  rintro _ ⟨x, -, rfl⟩
  exact mul_self_nonneg x

/-- Taking squares relative to the longer leg changes nothing. -/
theorem hypot_eq_sqrt (a b : ℝ) : hypot a b = Real.sqrt (a * a + b * b) := by
  -- the longer leg taken out of the root comes back in
  have hroot : ∀ longer shorter : ℝ, 0 ≤ longer → 0 ≤ shorter → shorter ≤ longer →
      (if (isZero shorter || isInfinite longer) = true then longer
        else longer * Real.sqrt (1 + shorter / longer * (shorter / longer))) =
        Real.sqrt (longer * longer + shorter * shorter) := by
    intro longer shorter hlonger hshorter hle
    rw [show isInfinite longer = false from rfl, Bool.or_false]
    split_ifs with hzero
    · rw [(isZero_iff shorter).mp hzero, mul_zero, add_zero, Real.sqrt_mul_self hlonger]
    · have hpos : 0 < longer :=
        (hshorter.lt_of_ne' (mt (isZero_iff shorter).mpr hzero)).trans_le hle
      rw [← Real.sqrt_mul_self hlonger, ← Real.sqrt_mul (mul_self_nonneg _),
        Real.sqrt_mul_self hlonger]
      congr 1
      field_simp
  have hsquares : ∀ x y : ℝ, |x| * |x| + |y| * |y| = x * x + y * y := fun x y => by
    rw [abs_mul_abs_self, abs_mul_abs_self]
  unfold hypot
  simp only [abs_real, sqrt_real]
  by_cases hlt : |a| < |b|
  · simp only [if_pos hlt]
    rw [hroot _ _ (abs_nonneg b) (abs_nonneg a) hlt.le, hsquares, add_comm]
  · simp only [if_neg hlt]
    rw [hroot _ _ (abs_nonneg a) (abs_nonneg b) (not_lt.mp hlt), hsquares]

/-- No leg is longer than the hypotenuse. -/
theorem abs_le_of_length_pair_le {a b t : ℝ} (h : Scalar.length [a, b] ≤ t) : |b| ≤ t := by
  rw [length_pair] at h
  exact (Real.abs_le_sqrt (by nlinarith [mul_self_nonneg a])).trans h

end Scalar

end Sqp
