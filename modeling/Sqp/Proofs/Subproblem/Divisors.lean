import Sqp.Proofs.Divisors
import Sqp.Proofs.NewtonStep.Trust
import Sqp.Proofs.Scale.Divisors
import Sqp.Proofs.Subproblem.Box
import Sqp.Proofs.Subproblem.Descent

/-!
# Inner solves do not divide by zero

An inner solve that starts in the box computes with positive scale factors and, since it does not
leave the box, with positive trust scales. So it does not depend on the value of a division by
zero, with one exception: the condition number of the constraint Jacobian is a quotient whose
divisor, the smallest singular value, may be zero. It decides a warning.

- `Subproblem.KeepsVerdict`: this one verdict does not depend on the value.
  `Subproblem.redundant_dividing_iff` says when it does: if the smallest singular value is zero
  and the value exceeds the limit of the test.
- `Subproblem.minorStep_dividing`, `Subproblem.descend_dividing`, `Subproblem.prepare_dividing`,
  `Subproblem.solve_dividing`: the parts of an inner solve, and the whole.
- `Subproblem.DivisorsPositive`: the divisors that no part tests;
  `Subproblem.DivisorsPositive.of_holds` says that they are positive.
-/

namespace Sqp.Subproblem

variable {z : ℝ → ℝ} {e q n : Nat} {K : Kernels ℝ} {f : CostFunction ℝ} {settings : Settings ℝ}
  {problem : Problem ℝ e q n} {entry : InnerStart ℝ ℝ e q n}

/-! ## The exception -/

/-- Whether rows count as redundant does not depend on the value of a division by zero. -/
def KeepsVerdict (z : ℝ → ℝ) (K : Kernels ℝ) : Prop :=
  ∀ {e q n : Nat} (jacobian : Mat ℝ (e + q) (q + n)),
    @redundant ℝ e q n (dividing z) K jacobian = redundant K jacobian

/-- The verdict on a Jacobian depends on the value only if the smallest singular value is zero, and
then only on whether the value exceeds the limit of the test: without it, a division by zero is
zero, which is no verdict against the Jacobian. -/
theorem redundant_dividing_iff (jacobian : Mat ℝ (e + q) (q + n)) :
    @redundant ℝ e q n (dividing z) K jacobian = redundant K jacobian ↔
      ∀ largest rest, (K.singularValues jacobian).toList = largest :: rest →
        rest.getLastD largest = 0 → z largest ≤ 1 / Scalar.epsilon := by
  unfold redundant Kernels.conditionNumber?
  rw [Scalar.epsilon_dividing, div_dividing _ Scalar.epsilon_pos.ne']
  cases (K.singularValues jacobian).toList with
  | nil => simp
  | cons largest rest =>
    -- the smallest singular value is the only divisor of the test
    by_cases hzero : rest.getLastD largest = 0
    · have hexact : ¬ 1 / Scalar.epsilon < largest / 0 := by
        rw [div_zero]
        exact (one_div_pos.mpr Scalar.epsilon_pos).not_gt
      simp only [Option.any_some, hzero, div_dividing_zero, decide_eq_decide,
        iff_false_right hexact, not_lt]
      constructor
      · rintro hle _ _ ⟨⟩ _
        exact hle
      · intro h
        exact h largest rest rfl hzero
    · simp only [Option.any_some, div_dividing _ hzero, true_iff]
      rintro _ _ ⟨⟩ hzero'
      exact absurd hzero' hzero

/-- No value up to the limit of the test changes a verdict. -/
theorem keepsVerdict_of_le (hz : ∀ a, z a ≤ 1 / Scalar.epsilon) : KeepsVerdict z K :=
  fun jacobian => (redundant_dividing_iff jacobian).mpr fun _ _ _ _ => hz _

/-! ## Linearisation -/

/-- A repair does not depend on divisions by zero: what a restoration divides by is tested before,
and a projection does not divide. -/
theorem repair_dividing (mode : BoundMode) (bounds : Bounds ℝ (q + n)) (tolerance : ℝ)
    (residuals : Vector ℝ (e + q)) (l : Linearisation ℝ e q n) :
    @repair ℝ ℝ e q n (dividing z) (dividing z) _ K mode bounds tolerance residuals l =
      repair K mode bounds tolerance residuals l := by
  unfold repair
  simp only [Restoration.restore_dividing]
  rfl

/-- A linearisation divides by the difference step, and its verdict is the one division left open.
-/
theorem linearise_dividing (hK : KeepsVerdict z K) (hdelta : settings.delta ≠ 0)
    (costAt : Vector ℝ (q + n) → Recorded ℝ (Cost ℝ (e + q))) (mode : BoundMode)
    (bounds : Bounds ℝ (q + n)) (p : Vector ℝ (q + n)) (cost : Cost ℝ (e + q)) :
    @linearise ℝ ℝ e q n (dividing z) (dividing z) _ K costAt mode bounds settings p cost =
      linearise K costAt mode bounds settings p cost := by
  have hstored : (store settings.delta : ℝ) ≠ 0 := hdelta
  have hverdict := @hK e q n
  unfold linearise
  simp only [constraintJacobian_dividing _ _ _ hstored, repair_dividing, hverdict]
  rfl

/-! ## Descent -/

/-- A gradient divides by the difference step through a quotient that is tested. -/
theorem gradientAt_dividing (g : Landscape ℝ ℝ e q n) (s : Iterate ℝ ℝ e q n) :
    @Landscape.gradientAt ℝ ℝ e q n (dividing z) (dividing z) _ g s = g.gradientAt s := by
  unfold Landscape.gradientAt
  rw [meritGradient_dividing]
  rfl

/-- A secant update divides by what it has found to be positive. -/
theorem learned_dividing (s : Iterate ℝ ℝ e q n) (gradient : Vector ℝ (q + n)) :
    @Iterate.learned ℝ ℝ e q n (dividing z) s gradient = s.learned gradient := by
  unfold Iterate.learned
  simp only [Curvature.update_dividing]

/-- A minor iteration at a point in the box. -/
theorem minorStep_dividing {g : Landscape ℝ ℝ e q n} {s : Iterate ℝ ℝ e q n}
    (hs : g.mode ≠ .unbounded → g.bounds.Holds s.point) :
    @minorStep ℝ ℝ e q n (dividing z) (dividing z) _ g s = minorStep g s := by
  have hten : (10.0 : ℝ) ≠ 0 := by norm_num
  have hmerit : letI : Scalar ℝ := dividing z; 1 + Scalar.abs s.merit ≠ 0 :=
    ((guarded z).merit s.merit).ne'
  have hreduction := fun a => div_dividing (z := z) a hmerit
  unfold minorStep
  simp only [gradientAt_dividing, learned_dividing, trustScale_dividing hs,
    NewtonStep.compute_dividing, LineSearch.search_dividing, div_dividing _ hten, hreduction]
  rfl

/-- A minor iteration does not leave the box. -/
theorem ensures_minorStep_holds {g : Landscape ℝ ℝ e q n} {s : Iterate ℝ ℝ e q n}
    (hs : g.mode ≠ .unbounded → g.bounds.Holds s.point) :
    Ensures (minorStep g s) fun s' => g.mode ≠ .unbounded → g.bounds.Holds s'.point := by
  by_cases hmode : g.mode = .unbounded
  · exact (Ensures.any _).mono fun _ _ h => absurd hmode h
  have region : Region (fun _ => True) g g.costAt g.bounds.Holds fun _ => True :=
    { convex := fun _ _ _ hp hv ha₀ ha₁ => Bounds.holds_along hp hv ha₀ ha₁
      cost := fun _ _ => Ensures.any _
      shifted := fun _ _ _ => Ensures.any _ }
  exact (confined_minorStep region (hs hmode) trivial fun _ _ _ _ h =>
    Bounds.holds_of_strictlyInside (NewtonStep.compute_strictlyInside h)).mono fun _ h _ => h.1

/-- A descent does not depend on divisions by zero: its iterates stay in the box, where trust
scales are positive. -/
theorem descend_dividing (g : Landscape ℝ ℝ e q n) (left : Nat) : ∀ s : Iterate ℝ ℝ e q n,
    (g.mode ≠ .unbounded → g.bounds.Holds s.point) →
      @descend ℝ ℝ e q n (dividing z) (dividing z) _ g left s = descend g left s := by
  induction left with
  | zero =>
    intro s _
    rfl
  | succ left ih =>
    intro s hs
    unfold descend
    rw [minorStep_dividing hs]
    refine (ensures_minorStep_holds hs).bind_congr fun next hnext => ?_
    rw [ih next hnext]

/-! ## Inner solves -/

/-- The way into a descent does not either, since scale factors are clamped to a positive range.
-/
theorem prepare_dividing (hK : KeepsVerdict z K) (ht : 0 < settings.tolerance)
    (hdelta : settings.delta ≠ 0) :
    @prepare ℝ ℝ e q n (dividing z) (dividing z) _ K f settings problem entry =
      prepare K f settings problem entry := by
  unfold prepare
  rw [Scale.compute_dividing]
  refine Ensures.bind_congr (Confined.recorded fun _ h => Scale.compute_positive ht h)
    fun scale hs => ?_
  simp only [linearise_dividing hK hdelta, Scale.evaluate_dividing hs,
    Scale.scaleCost_dividing hs, Scale.scaleBounds_dividing hs, Scale.scaleParameters_dividing hs,
    Scale.scaleMultipliers_dividing hs, Scale.scaleCurvature_dividing hs]
  rfl

/-- The descent that was prepared in the box starts there. -/
theorem ensures_prepare_holds (ht : 0 < settings.tolerance)
    (hp : problem.mode ≠ .unbounded → problem.bounds.Holds entry.parameters) :
    Ensures (prepare K f settings problem entry) fun way => way.scale.Positive ∧
      (problem.mode ≠ .unbounded →
        (way.scale.scaleBounds problem.bounds).Holds way.start.point) := by
  refine ensures_prepare_prepares.mono ?_
  rintro way ⟨l, hway⟩
  have hs := Scale.compute_positive ht hway.scale
  refine ⟨hs, fun hmode => ?_⟩
  rw [hway.point]
  exact hway.linearised.point_holds hmode ((Scale.holds_scaleBounds_iff hs).mpr (hp hmode))

/-- Scaling bounds and curvature divides by scale factors, which are positive. -/
theorem landscape_dividing {way : Preparation ℝ ℝ e q n} (hs : way.scale.Positive) :
    @Preparation.landscape ℝ ℝ e q n (dividing z) _ way K f settings problem =
      way.landscape K f settings problem := by
  unfold Preparation.landscape
  rw [Scale.evaluate_dividing hs, Scale.scaleBounds_dividing hs]

/-- An inner solve up to its result, from a point in the box. -/
theorem run_dividing (hK : KeepsVerdict z K) (ht : 0 < settings.tolerance)
    (hdelta : settings.delta ≠ 0)
    (hp : problem.mode ≠ .unbounded → problem.bounds.Holds entry.parameters) :
    @run ℝ ℝ e q n (dividing z) (dividing z) _ K f settings problem entry =
      run K f settings problem entry := by
  unfold run
  rw [prepare_dividing hK ht hdelta]
  refine (ensures_prepare_holds ht hp).bind_congr fun way hway => ?_
  rw [landscape_dividing hway.1, descend_dividing _ _ _ hway.2]

/-- The way back to user units divides by scale factors again. -/
theorem result_dividing {d : Descent ℝ ℝ e q n} (hs : d.scale.Positive) (ys : List ℝ)
    (tolerance : ℝ) :
    @Descent.result ℝ ℝ e q n (dividing z) (dividing z) d ys tolerance = d.result ys tolerance := by
  unfold Descent.result Descent.multipliers
  simp only [Scale.unscaleMultipliers_dividing hs, Scale.unscaleCurvature_dividing hs]
  rfl

/-- An inner solve that starts in the box does not depend on divisions by zero. -/
theorem solve_dividing (hK : KeepsVerdict z K) (ht : 0 < settings.tolerance)
    (hdelta : settings.delta ≠ 0)
    (hp : problem.mode ≠ .unbounded → problem.bounds.Holds entry.parameters) :
    @solve ℝ ℝ e q n (dividing z) (dividing z) _ K f settings problem entry =
      solve K f settings problem entry := by
  have hscale : Ensures (run K f settings problem entry) fun d => d.scale.Positive :=
    Confined.bind (ensures_prepare_holds ht hp) fun way hway =>
      Confined.bind (Ensures.any _) fun _ _ => Confined.pure hway.1
  unfold solve
  rw [run_dividing hK ht hdelta hp]
  refine hscale.bind_congr fun d hd => ?_
  rw [result_dividing hd]

/-! ## The divisors -/

/-- The divisors of an inner solve that are not tested where they are used: the tolerance, of which
a reciprocal is taken, the step of finite differences, all scale factors, and those of the trust
scales wherever a minor iteration starts or ends, however many are made. -/
structure DivisorsPositive (K : Kernels ℝ) (f : CostFunction ℝ) (settings : Settings ℝ)
    (problem : Problem ℝ e q n) (entry : InnerStart ℝ ℝ e q n) : Prop where
  tolerance : 0 < settings.tolerance
  delta : 0 < settings.delta
  scale : Ensures (prepare K f settings problem entry) fun way => way.scale.Positive
  trust : Ensures (prepare K f settings problem entry) fun way => ∀ left,
    Ensures (descend (way.landscape K f settings problem) left way.start) fun course =>
      ∀ s ∈ way.start :: course,
        TrustPositive (way.scale.scaleBounds problem.bounds) problem.mode s.point

/-- The divisors that are not tested are positive from a point in the box. -/
theorem DivisorsPositive.of_holds (ht : 0 < settings.tolerance) (hdelta : 0 < settings.delta)
    (hp : problem.mode ≠ .unbounded → problem.bounds.Holds entry.parameters) :
    DivisorsPositive K f settings problem entry where
  tolerance := ht
  delta := hdelta
  scale := (ensures_prepare_holds ht hp).mono fun _ hway => hway.1
  trust := by
    refine (ensures_prepare_holds ht hp).mono fun way hway left => ?_
    refine (confined_descend (g := way.landscape K f settings problem)
      (I := fun s => problem.mode ≠ .unbounded →
        (way.scale.scaleBounds problem.bounds).Holds s.point)
      (fun _ hs => ensures_minorStep_holds hs) left way.start hway.2).mono fun course hcourse => ?_
    exact List.forall_mem_cons.mpr
      ⟨.of_holds hway.2, fun s hs => .of_holds (hcourse s hs)⟩

end Sqp.Subproblem
