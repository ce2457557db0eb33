import Sqp.Proofs.Scalar.Dividing
import Sqp.Proofs.Scale

/-!
# Scaling by positive factors never divides by zero

The factors of a scale are divisors on the way in and on the way out. The routines test none of
them; they are positive because the magnitudes they are made of are limited from below.

- `Scale.compute_dividing`: the factors themselves.
- `Scale.scaleCost_dividing` and its companions: every conversion by positive factors.
- `Scale.evaluate_dividing`: so the scaled cost function does not depend on divisions by zero.
-/

namespace Sqp

variable {z : ℝ → ℝ} {e q n : Nat}

theorem Interval.divide_dividing (b : Interval ℝ) {c : ℝ} (hc : c ≠ 0) :
    @divide ℝ (dividing z) b c = b.divide c := by
  unfold divide
  rw [div_dividing _ hc]

theorem Bounds.divide_dividing (b : Bounds ℝ n) {s : Vector ℝ n} (hs : ∀ i, s.get i ≠ 0) :
    @divide ℝ n (dividing z) b s = b.divide s := by
  refine vector_ext fun i => (get_zipWith _ b s i).trans (Eq.trans ?_ (get_zipWith _ b s i).symm)
  cases b.get i with
  | none => rfl
  | some interval => exact congrArg some (interval.divide_dividing (hs i))

namespace Scale

/-- The only quotient that the factors are made of refuses a tolerance of zero. -/
theorem compute_dividing (mode : BoundMode) (objective : ℝ) (equalities : List ℝ)
    (p : Vector ℝ (q + n)) (tolerance : ℝ) :
    @compute ℝ ℝ e q n (dividing z) (dividing z) _ mode objective equalities p tolerance =
      compute mode objective equalities p tolerance := by
  unfold compute
  rw [Scalar.quotient_dividing]
  rfl

variable {s : Scale ℝ e q n} (hs : s.Positive)

include hs

/-- The objective and each constraint have a factor of their own. -/
theorem scaleCost_dividing (c : Cost ℝ (e + q)) :
    @scaleCost ℝ e q n (dividing z) s c = s.scaleCost c := by
  unfold scaleCost
  rw [div_dividing _ hs.objective.ne', divEach_dividing _ fun i => (hs.constraints i).ne']

theorem scaleParameters_dividing (p : Vector ℝ (q + n)) :
    @scaleParameters ℝ e q n (dividing z) s p = s.scaleParameters p :=
  divEach_dividing _ fun i => (hs.parameters i).ne'

theorem scaleBounds_dividing (b : Bounds ℝ (q + n)) :
    @scaleBounds ℝ e q n (dividing z) s b = s.scaleBounds b :=
  Bounds.divide_dividing _ fun i => (hs.parameters i).ne'

/-- Multipliers are divided by the factor of the objective only. -/
theorem scaleMultipliers_dividing (y : Vector ℝ (e + q)) :
    @scaleMultipliers ℝ e q n (dividing z) s y = s.scaleMultipliers y := by
  unfold scaleMultipliers
  simp only [Scalar.share_dividing _ _ hs.objective.ne']
  rfl

theorem scaleCurvature_dividing (a : Mat ℝ (q + n) (q + n)) :
    @scaleCurvature ℝ e q n (dividing z) s a = s.scaleCurvature a := by
  unfold scaleCurvature
  simp only [Scalar.share_dividing _ _ hs.objective.ne']

theorem unscaleMultipliers_dividing (y : Vector ℝ (e + q)) :
    @unscaleMultipliers ℝ e q n (dividing z) s y = s.unscaleMultipliers y :=
  divEach_dividing _ fun i => (hs.constraints i).ne'

/-- On the way out the divisors are products of two parameter factors. -/
theorem unscaleCurvature_dividing (a : Mat ℝ (q + n) (q + n)) :
    @unscaleCurvature ℝ e q n (dividing z) s a = s.unscaleCurvature a :=
  congrArg Mat.ofFn (funext fun i => funext fun j =>
    div_dividing _ (mul_pos (hs.parameters i) (hs.parameters j)).ne')

/-- So a scaled cost vector is what the user supplied, divided by positive factors. -/
theorem evaluate_dividing (f : CostFunction ℝ) :
    @evaluate ℝ ℝ e q n (dividing z) _ s f = s.evaluate f := by
  unfold evaluate
  simp only [scaleCost_dividing hs]
  rfl

end Scale

end Sqp
