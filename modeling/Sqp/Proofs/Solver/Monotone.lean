import Sqp.Proofs.Solver.Feasibility
import Sqp.Proofs.Subproblem.Descent

/-!
# Objectives without constraints

Where there are no constraints, no major iteration raises the objective.

- `State.Falling`: a state without constraints whose data belong together and whose
  history never rises. The state at the start is one, and so is the state after a major
  iteration whose inner solve does not raise the objective (`State.advance_falling`).
- `Solver.ensures_step_falling`: every major iteration is of this kind.
- `Solver.after_history_nonincreasing`: so the history of a run never rises, however many
  major iterations it makes.
-/

namespace Sqp

variable {e q n : Nat} {f : CostFunction ℝ} {options : Options ℝ}

/-! ## States without constraints -/

/-- A state without constraints whose objectives never rose. -/
structure State.Falling (f : CostFunction ℝ) (s : State ℝ ℝ e q n) : Prop where
  unconstrained : e + q = 0
  consistent : s.Consistent f
  pairwise : s.history.Pairwise (· ≥ ·)
  objective_le : ∀ a ∈ s.history, s.objective ≤ a

theorem State.ofCost_falling {problem : Problem ℝ e q n} {curvature : Mat ℝ (q + n) (q + n)}
    {cost : Cost ℝ (e + q)} (hfree : e + q = 0)
    (hcost : f ((back problem.parameters).toList.map load) = .ok (cost.toList.map load)) :
    (State.ofCost options problem curvature cost).Falling f where
  unconstrained := hfree
  consistent := State.ofCost_consistent hcost
  pairwise := List.pairwise_singleton _ _
  objective_le _ ha := (List.mem_singleton.mp ha).ge

/-- The history goes on with an objective that is no larger than the last one. -/
theorem State.advance_falling {s : State ℝ ℝ e q n} (hs : s.Falling f) {r : InnerResult ℝ ℝ q n}
    {cost : Cost ℝ (e + q)}
    (hcost : f ((back r.parameters).toList.map load) = .ok (cost.toList.map load))
    (hle : cost.objective ≤ s.objective) : (s.advance options r cost).Falling f where
  unconstrained := hs.unconstrained
  consistent := State.advance_consistent hs.consistent hcost
  pairwise := by
    rw [State.advance_history]
    refine List.pairwise_append.mpr ⟨hs.pairwise, List.pairwise_singleton _ _, ?_⟩
    rintro a ha _ hb
    rw [List.mem_singleton.mp hb]
    exact hle.trans (hs.objective_le a ha)
  objective_le a ha := by
    rw [State.advance_objective, load_real]
    rw [State.advance_history, List.mem_append, List.mem_singleton] at ha
    rcases ha with ha | rfl
    · exact hle.trans (hs.objective_le a ha)
    · exact le_rfl

/-! ## Runs -/

namespace Solver

variable {solver : Solver ℝ ℝ}

/-- A run has one objective for its start and one for each major iteration. -/
theorem ensures_after_history_length (solver : Solver ℝ ℝ) (f : CostFunction ℝ)
    (problem : Problem ℝ 0 q n) (curvature : Mat ℝ (q + n) (q + n)) (k : Nat) :
    Ensures (solver.after f problem curvature k) fun s => s.state.history.length = k + 1 := by
  induction k with
  | zero =>
    refine (confined_start trivial fun _ _ => rfl).mono ?_
    rintro s ⟨cost, -, hs⟩
    rw [hs]
    rfl
  | succ k ih =>
    refine Confined.bind ih fun s hs => ?_
    refine Confined.bind (confined_stateStep (Ensures.any _) (fun _ _ => trivial) fun _ _ => rfl) ?_
    rintro _ ⟨r, cost, -, -, rfl⟩
    refine Confined.pure ?_
    rw [State.advance_history, List.length_append, hs]
    rfl

/-- Without constraints the merit is the objective, so an inner solve does not raise it. -/
theorem ensures_step_falling (ht : 0 < solver.options.tolerance) {s : State ℝ ℝ e q n}
    (hs : s.Falling f) : Ensures (solver.step f s) fun s' => s'.Falling f := by
  have hcost := hs.consistent.cost
  rw [map_load_real, map_load_real] at hcost
  have hinner : Ensures (Subproblem.solve solver.kernels f solver.settings s.problem s.innerStart)
      fun r => ∃ found : Cost ℝ (e + q), f (back r.parameters).toList = .ok found.toList ∧
        found.objective ≤ s.cost.objective :=
    Subproblem.ensures_solve_objective_le hs.unconstrained ht hcost
  refine (confined_stateStep hinner (fun _ _ => trivial) fun _ _ => rfl).mono ?_
  rintro _ ⟨r, cost, ⟨found, hfound, hle⟩, hanswer, rfl⟩
  -- the cost vector after the inner solve is the one that the inner solve found
  have hsame : cost = found := by
    rw [map_load_real, map_load_real, hfound] at hanswer
    exact (Cost.toList_injective (Except.ok.inj hanswer)).symm
  refine State.advance_falling hs hanswer ?_
  rw [hsame, hs.consistent.objective]
  exact hle

/-- With a cost function that never gives more than the objective, whatever the kernels
return: the history of a run holds the objective at the start and the one after each major
iteration, and none of them is larger than an earlier one. -/
theorem after_history_nonincreasing (hoptions : solver.options.check = .ok solver.options)
    (hf : ∀ x values, f x = .ok values → values.length = 1) {problem : Problem ℝ 0 q n}
    {curvature : Mat ℝ (q + n) (q + n)} {k : Nat} {j j' : Journal ℝ} {s : SizedState ℝ ℝ q n}
    (h : outcome (solver.after f problem curvature k) j = (.ok s, j')) :
    s.state.history.length = k + 1 ∧ s.state.history.Pairwise (· ≥ ·) := by
  have hfalling : Ensures (solver.after f problem curvature k) fun s => s.state.Falling f := by
    refine confined_after ?_ (fun s hs =>
      ensures_step_falling (Options.tolerance_pos hoptions) hs) k
    refine (confined_start trivial fun _ _ => rfl).mono ?_
    rintro s ⟨cost, hcost, hs⟩
    have hlength := hf _ _ hcost
    rw [List.length_map, Cost.length_toList] at hlength
    rw [hs]
    exact State.ofCost_falling (by omega) hcost
  exact ⟨(ensures_after_history_length solver f problem curvature k).of_outcome h,
    (hfalling.of_outcome h).pairwise⟩

/-- The square of the sum of the decision variables. -/
noncomputable def squaredSum : CostFunction ℝ := fun x => .ok [x.sum * x.sum]

theorem squaredSum_total (n : Nat) : squaredSum.Total n 0 := fun x =>
  ⟨⟨x.toList.sum * x.toList.sum, #v[]⟩, rfl⟩

/-- A decision variable without bounds that starts at `3`. -/
noncomputable def freeProblem : Problem ℝ 0 0 1 := (Problem.ofSpecs (.unbounded [3.0]) none).problem

theorem freeProblem_strictlyInside (p : Vector ℝ (0 + 1)) :
    freeProblem.bounds.strictlyInside p = true := by
  refine (Bounds.strictlyInside_iff _ _).mpr fun i interval hi => ?_
  have hnone : freeProblem.bounds.get i = none :=
    @Problem.ofSpecs_get_bounds_of_unbounded ℝ _ (.unbounded [3.0]) none rfl i
  rw [hnone] at hi
  cases hi

/-- Every number of major iterations can be made for the squared sum. -/
theorem squaredSum_returns (k : Nat) : ∃ s j',
    outcome (sampleSolver.after squaredSum freeProblem (Mat.identity ℝ 1) k) {} = (.ok s, j') := by
  obtain ⟨s, j', h, -⟩ := returns_after_unconstrained sampleSolver_check (Nat.succ_pos _)
    (squaredSum_total 1) freeProblem_strictlyInside (Mat.identity ℝ 1) k {} Journal.fits_empty
  exact ⟨s, j', h⟩

/-- Five major iterations from one, with a history of six values. -/
theorem after_history_squaredSum : ∃ s j',
    outcome (sampleSolver.after squaredSum freeProblem (Mat.identity ℝ 1) 5) {} = (.ok s, j') ∧
    s.state.history.length = 6 ∧ s.state.history.Pairwise (· ≥ ·) := by
  obtain ⟨s, j', h⟩ := squaredSum_returns 5
  refine ⟨s, j', h, after_history_nonincreasing sampleSolver_check ?_ h⟩
  rintro x _ ⟨rfl⟩
  rfl

end Solver

end Sqp
