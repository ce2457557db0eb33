import Sqp.Proofs.Solver.Evaluations

/-!
# Runs stay in the box

- `Solver.after_inBox`: on a problem with bounds, a run stays in the box and calls the cost
  function at visitable vectors only, however many major iterations it makes.
- `Solver.after_inBox_pin`: a run to which this applies, with the calls that it makes.
-/

namespace Sqp.Solver

variable {solver : Solver ℝ ℝ}

/-- A run on a problem with bounds, whatever its kernels return: after any number of major
iterations the parameters meet all bounds; until then the cost function has been called
at visitable vectors only; and what it does elsewhere, failing included, does not matter. -/
theorem after_inBox {parameters : SpecInput ℝ} {inequalities : Option (SpecInput ℝ)}
    {sized : SizedProblem ℝ} (hoptions : solver.options.check = .ok solver.options)
    (hparameters : parameters.Checked) (hinequalities : ∀ input ∈ inequalities, input.Checked)
    (hproblem : Problem.build parameters inequalities = .ok sized)
    (hmode : sized.problem.mode ≠ .unbounded) (f : CostFunction ℝ)
    (curvature : Mat ℝ (sized.inequalities + sized.decisions)
      (sized.inequalities + sized.decisions)) (k : Nat) :
    (∀ s, (outcome (solver.after f sized.problem curvature k) {}).1 = .ok s →
      sized.problem.bounds.Holds s.state.parameters) ∧
    (∀ x ∈ (outcome (solver.after f sized.problem curvature k) {}).2.visited,
      Visitable sized.problem.bounds solver.settings.shift x) ∧
    ∀ f' : CostFunction ℝ,
      (∀ x, Visitable sized.problem.bounds solver.settings.shift x → f x = f' x) →
      outcome (solver.after f sized.problem curvature k) {} =
        outcome (solver.after f' sized.problem curvature k) {} := by
  have hinside := Bounds.holds_of_strictlyInside
    (Problem.build_strictlyInside hparameters hinequalities hproblem)
  -- confinement next to any cost function that agrees in the box says all three at once
  have hrun : ∀ f' : CostFunction ℝ,
      (∀ x, Visitable sized.problem.bounds solver.settings.shift x → f x = f' x) →
      Confined (Visitable sized.problem.bounds solver.settings.shift)
        (solver.after f sized.problem curvature k) (solver.after f' sized.problem curvature k)
        fun s => s.state.InBox sized.problem := by
    intro f' hf
    refine confined_after ?_ (fun s hs =>
      confined_step_inBox (Options.tolerance_pos hoptions) hmode hf hs) k
    refine (confined_start ⟨_, hinside, .inl (map_load_real _)⟩ hf).mono ?_
    rintro s ⟨cost, -, hs⟩
    rw [hs]
    exact State.ofCost_inBox hinside curvature cost
  have hself := hrun f fun _ _ => rfl
  refine ⟨fun s hs => (hself.answer _ s hs).holds, fun x hx => ?_, fun f' hf => (hrun f' hf).same _⟩
  rcases hself.visited _ x hx with h | h
  · exact absurd h (by simp)
  · exact h

open Classical in
/-- A cost function that fails wherever a run on the sample problem must not call it. -/
noncomputable def guardedPinCost : CostFunction ℝ := fun x =>
  if Visitable sampleProblem.bounds sampleSolver.settings.shift x then pinCost x
  else .error .divisionByZero

/-- The first major iteration on the sample problem calls the cost function, and does not notice
that it fails elsewhere. -/
theorem after_inBox_pin : ∃ (s : State ℝ ℝ 1 1 1) (j' : Journal ℝ),
    outcome (sampleSolver.after guardedPinCost sampleProblem (Mat.identity ℝ 2) 1) {} =
      (.ok ⟨1, s⟩, j') ∧
    sampleProblem.bounds.Holds s.parameters ∧
    2 ≤ j'.visited.size ∧
    ∀ x ∈ j'.visited, Visitable sampleProblem.bounds sampleSolver.settings.shift x := by
  obtain ⟨hstates, hvisited, hsame⟩ := after_inBox sampleSolver_check sampleParameters_checked
    sampleInequalities_checked build_sample nofun pinCost (Mat.identity ℝ 2) 1
  obtain ⟨s, j', hs⟩ := pinCost_firstStep
  -- one call at the start, and one after the inner solve
  obtain ⟨rounds, hlength, -, hcalls⟩ := evaluations_after 1 s j' hs
  obtain ⟨round, rfl⟩ := List.length_eq_one_iff.mp hlength
  refine ⟨s, j', ?_, hstates ⟨1, s⟩ (by rw [hs]), ?_, fun x hx => hvisited x (by rwa [hs])⟩
  · rw [← hs]
    exact (hsame guardedPinCost fun x hx => (if_pos hx).symm).symm
  · have hround : 1 ≤ round.calls sampleSolver.settings := Nat.le_add_left 1 _
    rw [List.map_singleton, List.sum_singleton] at hcalls
    have hvisits : j'.visited.size = 0 + 1 + round.calls sampleSolver.settings := hcalls
    omega

end Sqp.Solver
