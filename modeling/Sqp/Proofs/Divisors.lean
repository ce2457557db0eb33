import Sqp.LineSearch
import Sqp.Merit
import Sqp.NewtonStep
import Sqp.Proofs.Curvature
import Sqp.Proofs.Scalar.Dividing
import Sqp.Restoration

/-!
# Divisors that are tested before they are used

Most quotients of an inner solve are computed only after a test of their divisor. What these parts
compute does not depend on the value of a division by zero, whatever they are given.

- `meritGradient_dividing`, `constraintJacobian_dividing`: forward differences. Those of the merit
  refuse a zero step, those of the constraints need another one.
- `Curvature.update_dividing`: both divisors of the secant update are positive, or it is skipped.
- `LineSearch.search_dividing`: the improvement so far is positive where it divides.
- `Restoration.restore_dividing`: the artificial part of a direction is positive where it divides,
  and ratios are taken for variables that move only.
- `NewtonStep.compute_dividing`: no trial divides.
- `Guarded`: all of these divisors in one place.
-/

namespace Sqp

variable {z : ℝ → ℝ} {e q n m k : Nat}

/-! ## Finite differences -/

/-- A forward difference of the merit refuses to divide by a zero step by itself. -/
theorem meritGradient_dividing {m : Type → Type} [Monad m] [MonadExceptOf Error m]
    (meritAt : Vector ℝ (q + n) → m ℝ) (p : Vector ℝ (q + n)) (merit delta : ℝ) :
    @meritGradient ℝ ℝ (dividing z) (dividing z) _ q n m _ _ meritAt p merit delta =
      meritGradient meritAt p merit delta := by
  unfold meritGradient
  simp only [Scalar.quotient_dividing]
  rfl

/-- The slope of a cost vector has the step as its only divisor. -/
theorem Cost.slope_dividing (shifted base : Cost ℝ k) {delta : ℝ} (hdelta : delta ≠ 0) :
    @slope ℝ (dividing z) k shifted base delta = slope shifted base delta := by
  unfold slope
  rw [div_dividing _ hdelta]
  simp only [Scalar.share_dividing _ _ hdelta]

/-- Forward differences of the constraints do not test their step, so it must not be zero. -/
theorem constraintJacobian_dividing {m : Type → Type} [Monad m]
    (costAt : Vector ℝ (q + n) → m (Cost ℝ (e + q))) (p : Vector ℝ (q + n))
    (cost : Cost ℝ (e + q)) {delta : ℝ} (hdelta : delta ≠ 0) :
    @constraintJacobian ℝ (dividing z) e q n m _ costAt p cost delta =
      constraintJacobian costAt p cost delta := by
  unfold constraintJacobian
  simp only [Cost.slope_dividing _ _ hdelta]
  rfl

/-! ## Curvature -/

/-- The secant update is made where both of its divisors are positive, and skipped elsewhere. -/
theorem Curvature.update_dividing (h : Mat ℝ n n) (s y : Vector ℝ n) :
    @update ℝ (dividing z) n h s y = update h s y := by
  -- both sides test the same two numbers, so the branches are compared one by one
  by_cases hpos : 0 < dot s (h.mulVec s) ∧ 0 < dot s y
  · refine (if_pos hpos).trans (Eq.trans (Mat.ext_entry fun i j => ?_) (if_pos hpos).symm)
    rw [Mat.entry_ofFn, Mat.entry_ofFn]
    have hcurvature := Scalar.share_dividing (z := z) (n * n)
      ((h.mulVec s).get i * (h.mulVec s).get j) hpos.1.ne'
    have hsecant := Scalar.share_dividing (z := z) (n * n) (y.get i * y.get j) hpos.2.ne'
    exact congrArg₂ (· + ·) (congrArg (h.entry i j - ·) hcurvature) hsecant
  · exact (if_neg hpos).trans (if_neg hpos).symm

/-! ## Line search -/

namespace LineSearch

theorem improvement_dividing (merit tolerance go : ℝ) (b : Bracket ℝ ℝ n) :
    @improvement ℝ ℝ n (dividing z) merit tolerance go b = improvement merit tolerance go b := by
  by_cases hworst : b.worst < merit
  · have hdiv := div_dividing (z := z) (tolerance * (b.worst - b.best)) (sub_pos.mpr hworst).ne'
    exact (if_pos hworst).trans (hdiv.trans (if_pos hworst).symm)
  · exact (if_neg hworst).trans (if_neg hworst).symm

variable {m : Type → Type} [Monad m] (meritAt : Vector ℝ n → m ℝ) (start trial : Vector ℝ n)
  (merit tolerance : ℝ)

theorem bisect_dividing (fuel : Nat) : ∀ (go : ℝ) (steps : Nat) (b : Bracket ℝ ℝ n),
    @bisect ℝ ℝ n (dividing z) (dividing z) _ m _ meritAt start trial merit tolerance fuel go steps
        b =
      bisect meritAt start trial merit tolerance fuel go steps b := by
  induction fuel with
  | zero =>
    intro go steps b
    rfl
  | succ fuel ih =>
    intro go steps b
    simp only [bisect, improvement_dividing, ih]
    rfl

/-- So a search does not depend on divisions by zero, whatever its merit function returns. -/
theorem search_dividing :
    @search ℝ ℝ n (dividing z) (dividing z) _ m _ meritAt start trial merit tolerance =
      search meritAt start trial merit tolerance := by
  unfold search
  simp only [bisect_dividing]
  rfl

end LineSearch

/-! ## Newton steps -/

namespace NewtonStep

variable (K : Kernels ℝ) (model : Model ℝ m n) (p : Vector ℝ n) (bounds : Bounds ℝ n)

theorem damp_dividing (fuel : Nat) : ∀ (mu : ℝ) (trials : Nat),
    @damp ℝ ℝ (dividing z) (dividing z) _ m n K model p bounds fuel mu trials =
      damp K model p bounds fuel mu trials := by
  induction fuel with
  | zero =>
    intro mu trials
    rfl
  | succ fuel ih =>
    intro mu trials
    simp only [damp, ih]
    rfl

theorem compute_dividing (mu : ℝ) :
    @compute ℝ ℝ (dividing z) (dividing z) _ m n K model p bounds mu =
      compute K model p bounds mu :=
  damp_dividing K model p bounds K.trialLimit mu 0

end NewtonStep

/-! ## Restoration -/

namespace Restoration

theorem ratio_dividing (b : Interval ℝ) (x v : ℝ) :
    @ratio? ℝ (dividing z) b x v = ratio? b x v := by
  unfold ratio?
  -- a variable that does not move has no ratio
  by_cases hneg : v < 0
  · rw [if_pos hneg, if_pos hneg]
    exact congrArg some (div_dividing _ hneg.ne)
  · rw [if_neg hneg, if_neg hneg]
    by_cases hpos : 0 < v
    · rw [if_pos hpos, if_pos hpos]
      exact congrArg some (div_dividing _ hpos.ne')
    · rw [if_neg hpos, if_neg hpos]

theorem smallestRatio_dividing (bounds : Bounds ℝ n) (p v : Vector ℝ n) :
    @smallestRatio? ℝ (dividing z) n bounds p v = smallestRatio? bounds p v := by
  unfold smallestRatio?
  simp only [ratio_dividing]
  rfl

/-- The length of a full step has the artificial part of the direction as its divisor. -/
theorem stepLength_dividing (bounds : Bounds ℝ n) (s : Extended ℝ n) {v : Extended ℝ n}
    (hv : v.artificial ≠ 0) :
    @stepLength ℝ ℝ (dividing z) (dividing z) _ n bounds s v = stepLength bounds s v := by
  have hfull := div_dividing (z := z) s.artificial hv
  unfold stepLength
  rw [smallestRatio_dividing, load_real, load_real, ← hfull]
  rfl

variable (K : Kernels ℝ) (task : Task ℝ ℝ m n)

theorem loop_dividing (fuel : Nat) : ∀ (go : ℝ) (steps : Nat) (s : Extended ℝ n),
    @loop ℝ ℝ (dividing z) (dividing z) _ m n K task fuel go steps s =
      loop K task fuel go steps s := by
  induction fuel with
  | zero =>
    intro go steps s
    rfl
  | succ fuel ih =>
    intro go steps s
    simp only [loop, ih]
    by_cases hgo : task.tolerance ≤ go
    · refine (if_pos hgo).trans (Eq.trans ?_ (if_pos hgo).symm)
      refine congrArg (direction K task s >>= ·) (funext fun v => ?_)
      -- a direction that does not lead down ends the loop before anything is divided
      by_cases hv : v.artificial ≤ 0
      · exact (if_pos hv).trans (if_pos hv).symm
      · refine (if_neg hv).trans (Eq.trans ?_ (if_neg hv).symm)
        rw [stepLength_dividing _ _ (not_le.mp hv).ne']
        rfl
    · exact (if_neg hgo).trans (if_neg hgo).symm

/-- So a restoration does not depend on divisions by zero, whatever its kernels return. -/
theorem restore_dividing (p : Vector ℝ n) :
    @restore ℝ ℝ (dividing z) (dividing z) _ m n K task p = restore K task p := by
  unfold restore
  simp only [loop_dividing]

end Restoration

/-! ## All of them -/

/-- The divisors that are tested where they are used, and those that cannot be zero whatever the
data are. -/
structure Guarded (z : ℝ → ℝ) : Prop where
  update : ∀ {n : Nat} (h : Mat ℝ n n) (s y : Vector ℝ n),
    @Curvature.update ℝ (dividing z) n h s y = Curvature.update h s y
  ratio : ∀ (b : Interval ℝ) (x v : ℝ),
    @Restoration.ratio? ℝ (dividing z) b x v = Restoration.ratio? b x v
  restore : ∀ {m n : Nat} (K : Kernels ℝ) (task : Restoration.Task ℝ ℝ m n) (p : Vector ℝ n),
    @Restoration.restore ℝ ℝ (dividing z) (dividing z) _ m n K task p =
      Restoration.restore K task p
  improvement : ∀ {n : Nat} (merit tolerance go : ℝ) (b : LineSearch.Bracket ℝ ℝ n),
    @LineSearch.improvement ℝ ℝ n (dividing z) merit tolerance go b =
      LineSearch.improvement merit tolerance go b
  /-- The divisor of relative merit reductions. -/
  merit : ∀ merit : ℝ, 0 < 1 + Scalar.abs merit
  /-- The divisor of relative changes of the objective. -/
  objective : ∀ objective : ℝ, 0 < Scalar.keepMax (Scalar.abs objective) 1

/-- The first four hold since a test comes before the division, the last two since the divisors
are at least one. -/
theorem guarded (z : ℝ → ℝ) : Guarded z where
  update := Curvature.update_dividing
  ratio := Restoration.ratio_dividing
  restore := Restoration.restore_dividing
  improvement := LineSearch.improvement_dividing
  merit merit := add_pos_of_pos_of_nonneg one_pos (abs_nonneg merit)
  objective objective := by
    rw [Scalar.keepMax_eq_max]
    exact lt_max_of_lt_right one_pos

end Sqp
