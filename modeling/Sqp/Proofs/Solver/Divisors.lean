import Sqp.Proofs.Solver.Feasibility
import Sqp.Proofs.Subproblem.Divisors

/-!
# Runs do not divide by zero

In exact arithmetic, a run from an accepted specification with accepted options divides by zero
nowhere but in the condition number of the constraint Jacobian, whatever the cost function and the
kernels return. This is said in two ways, since neither says all of it. A run is the same for every
value that a division by zero could have, which leaves no divisor out; and the divisors that the
routines do not test are positive, also where a quotient by zero would make no difference.

- `State.advance_dividing`, `Solver.step_dividing`: a major iteration does not depend on the value
  of a division by zero.
- `Solver.iterate_dividing`, `Solver.runProblem_dividing`: nor does a run, since its states stay in
  the box.
- `Solver.never_divides_by_zero`: both, for runs from specifications.
-/

namespace Sqp

variable {z : ℝ → ℝ} {e q n : Nat}

/-! ## Major iterations -/

/-- The trend rule divides the penalty by five, which is not zero. -/
theorem Penalty.followTrend_dividing (tolerance last norm : ℝ) (w : Penalty ℝ) :
    @followTrend ℝ (dividing z) tolerance last norm w =
      followTrend tolerance last norm w := by
  have hfive : (5.0 : ℝ) ≠ 0 := by norm_num
  unfold followTrend
  rw [div_dividing _ hfive]
  rfl

/-- The bookkeeping of a major iteration divides by five and by `max(|f|, 1)` only, so it has the
same result for every value of a division by zero. -/
theorem State.advance_dividing (options : Options ℝ) (s : State ℝ ℝ e q n)
    (r : InnerResult ℝ ℝ q n) (cost : Cost ℝ (e + q)) :
    @advance ℝ ℝ e q n (dividing z) (dividing z) _ options s r cost =
      advance options s r cost := by
  have hchange : letI : Scalar ℝ := dividing z
      Scalar.keepMax (Scalar.abs (load cost.objective : ℝ)) 1 ≠ 0 :=
    ((guarded z).objective cost.objective).ne'
  unfold advance Penalty.adapt
  simp only [Penalty.followTrend_dividing, div_dividing _ hchange]
  rfl

/-- Inner solves of a state in the box start in the box. -/
theorem State.InBox.innerStart_holds {problem : Problem ℝ 0 q n} {s : State ℝ ℝ e q n}
    (hs : s.InBox problem) : s.problem.bounds.Holds s.innerStart.parameters := by
  rw [hs.problem_eq]
  exact hs.holds

namespace Solver

variable {solver : Solver ℝ ℝ} {f : CostFunction ℝ} {problem : Problem ℝ 0 q n}

/-- A major iteration from a state in the box does not depend on the value of a division by zero:
its inner solve starts in the box, so its divisors are positive. -/
theorem step_dividing (hK : Subproblem.KeepsVerdict z solver.kernels)
    (hoptions : solver.options.check = .ok solver.options) {s : State ℝ ℝ e q n}
    (hs : s.InBox problem) :
    @step ℝ ℝ e q n (dividing z) (dividing z) _ solver f s = solver.step f s := by
  -- only the inner solve has divisors that depend on where the state is
  obtain ⟨ht, hdelta, -⟩ := Options.check_eq_ok_iff.mp hoptions
  have hinner : @Subproblem.solve ℝ ℝ e q n (dividing z) (dividing z) _ solver.kernels f
      solver.settings s.problem s.innerStart =
        Subproblem.solve solver.kernels f solver.settings s.problem s.innerStart :=
    Subproblem.solve_dividing hK ht hdelta.ne' fun _ => hs.innerStart_holds
  unfold step State.step
  rw [hinner]
  simp only [State.advance_dividing]

/-! ## Runs -/

/-- Nor does a loop of major iterations. A division by zero could matter only after a state
outside the box, and no step leaves the box. -/
theorem iterate_dividing (hK : Subproblem.KeepsVerdict z solver.kernels)
    (hoptions : solver.options.check = .ok solver.options)
    (hfree : problem.mode = .unbounded → ∀ p, problem.bounds.Holds p) (left : Nat) :
    ∀ s : State ℝ ℝ e q n, s.Sound f solver.options problem →
      @iterate ℝ ℝ e q n (dividing z) (dividing z) _ solver f left s =
        solver.iterate f left s := by
  induction left with
  | zero =>
    intro s _
    rfl
  | succ left ih =>
    intro s hs
    -- the next state is in the box whichever division is used, so the hypothesis applies to it
    have hnext := (ensures_step_sound (Options.tolerance_pos hoptions) hfree hs).bind_congr ih
    unfold iterate
    rw [step_dividing hK hoptions hs.inBox, hnext]

/-- Nor does a run of a built problem. -/
theorem runProblem_dividing (hK : Subproblem.KeepsVerdict z solver.kernels)
    (hoptions : solver.options.check = .ok solver.options)
    (hfree : problem.mode = .unbounded → ∀ p, problem.bounds.Holds p)
    (hstart : problem.bounds.Holds problem.parameters) (curvature : Mat ℝ (q + n) (q + n)) :
    @runProblem ℝ ℝ q n (dividing z) (dividing z) _ solver f problem curvature =
      solver.runProblem f problem curvature := by
  refine (ensures_start_sound hstart curvature).bind_congr fun first hfirst => ?_
  rw [iterate_dividing hK hoptions hfree _ _ hfirst]

/-- In exact arithmetic, a run from an accepted specification with accepted options never divides
by zero, whatever the cost function and the kernels return, except for the condition number.

It is the same run whatever the value of a division by zero, provided that this value does not
decide whether constraints count as redundant. In every inner solve of every state that a run
reaches, the tolerance, the difference step, all scale factors, the divisors of the trust scales
and the trust scales themselves are positive. All other divisors are tested where they are used, or
cannot be zero for any data. -/
theorem never_divides_by_zero {parameters : SpecInput ℝ} {inequalities : Option (SpecInput ℝ)}
    (hoptions : solver.options.check = .ok solver.options) (hparameters : parameters.Checked)
    (hinequalities : ∀ input ∈ inequalities, input.Checked) (f : CostFunction ℝ)
    (curvature : Option (RawArray ℝ)) :
    (∀ z, Subproblem.KeepsVerdict z solver.kernels →
      @solve ℝ ℝ (dividing z) (dividing z) _ solver f parameters inequalities curvature =
        solver.solve f parameters inequalities curvature) ∧
    (∀ sized, Problem.build parameters inequalities = .ok sized → ∀ initial k,
      Ensures (solver.after f sized.problem initial k) fun s =>
        Subproblem.DivisorsPositive solver.kernels f solver.settings s.state.problem
          s.state.innerStart) ∧
    ∀ z, Guarded z := by
  obtain ⟨ht, hdelta, -⟩ := Options.check_eq_ok_iff.mp hoptions
  have hstart : ∀ sized, Problem.build parameters inequalities = .ok sized →
      sized.problem.bounds.Holds sized.problem.parameters := fun sized hbuild =>
    Bounds.holds_of_strictlyInside
      (Problem.build_strictlyInside hparameters hinequalities hbuild)
  refine ⟨fun z hK => ?_, fun sized hbuild initial k => ?_, guarded⟩
  · -- specifications and curvature are read without dividing
    have hbuilt : Ensures (recorded (α := ℝ) (Problem.build parameters inequalities)) fun sized =>
        Problem.build parameters inequalities = .ok sized :=
      Confined.recorded fun _ h => h
    refine hbuilt.bind_congr fun sized hbuild => ?_
    refine (Ensures.any _).bind_congr fun h _ => ?_
    rw [runProblem_dividing hK hoptions (Problem.holds_of_build_unbounded hbuild)
      (hstart sized hbuild) h]
  · refine (ensures_after_sound ht (Problem.holds_of_build_unbounded hbuild)
      (hstart sized hbuild) initial k).mono fun s hs => ?_
    exact .of_holds ht hdelta fun _ => hs.inBox.innerStart_holds

/-- A run that converges, with one in place of every quotient by zero, and the divisors of the
inner solve after its first major iteration. -/
theorem never_divides_by_zero_pin :
    (∃ (result : Result ℝ ℝ 1 1) (j' : Journal ℝ),
      outcome (@solve ℝ ℝ (dividing fun _ => 1) (dividing fun _ => 1) _ sampleSolver pinCost
        (.record sampleParameters) (some (.record sampleInequalities)) none) {} =
          (.ok ⟨1, 1, result⟩, j') ∧
      result.converged = true) ∧
    ∃ (s : State ℝ ℝ 1 1 1) (j' : Journal ℝ),
      outcome (sampleSolver.after pinCost sampleProblem (Mat.identity ℝ 2) 1) {} =
        (.ok ⟨1, s⟩, j') ∧
      Subproblem.DivisorsPositive sampleSolver.kernels pinCost sampleSolver.settings s.problem
        s.innerStart := by
  obtain ⟨hsame, hpositive, -⟩ := never_divides_by_zero sampleSolver_check sampleParameters_checked
    sampleInequalities_checked pinCost none
  have hlimit : (1 : ℝ) ≤ 1 / Scalar.epsilon := by norm_num [Scalar.epsilon]
  constructor
  · rw [hsame (fun _ => 1) (Subproblem.keepsVerdict_of_le fun _ => hlimit)]
    exact pinCost_converges
  · obtain ⟨s, j', hs⟩ := pinCost_firstStep
    exact ⟨s, j', hs, (hpositive _ build_sample (Mat.identity ℝ 2) 1).of_outcome hs⟩

end Solver

end Sqp
