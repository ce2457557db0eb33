import Sqp.Proofs.Solver.Returns

/-!
# A converged run is feasible

- `State.Sound`: a state in the box whose cost vector, objective and constraint norm
  belong to its parameters, and whose constraint norm is within the tolerance once it is
  converged. `Solver.ensures_start_sound`, `Solver.ensures_step_sound`,
  `Solver.ensures_iterate_sound` and `Solver.ensures_after_sound` carry this from the start of a
  run through its major iterations.
- `State.Sound.abs_residual_le`: so no residual of a converged state exceeds the
  tolerance.
- `Solver.solve_feasible`: the outcome of a converged run, in terms of the cost function
  and of the specified bounds.
-/

namespace Sqp

variable {e q n : Nat}

/-! ## Sound states -/

/-- A state in the box whose data belong together, and which is feasible once it is
converged. -/
structure State.Sound (f : CostFunction ℝ) (options : Options ℝ) (problem : Problem ℝ 0 q n)
    (s : State ℝ ℝ e q n) : Prop where
  inBox : s.InBox problem
  consistent : s.Consistent f
  norm_le : s.converged = true → |s.constraintNorm| ≤ options.tolerance

variable {f : CostFunction ℝ} {options : Options ℝ} {problem : Problem ℝ 0 q n}

/-- The first state is sound: it has not converged. -/
theorem State.ofCost_sound (h : problem.bounds.Holds problem.parameters)
    {curvature : Mat ℝ (q + n) (q + n)} {cost : Cost ℝ (e + q)}
    (hcost : f ((back problem.parameters).toList.map load) = .ok (cost.toList.map load)) :
    (State.ofCost options (problem.withEqualities e) curvature cost).Sound f options problem where
  inBox := State.ofCost_inBox h curvature cost
  consistent := State.ofCost_consistent hcost
  norm_le hconverged := by cases hconverged

/-- A major iteration that finds convergence has measured the residuals of the state that it
makes. -/
theorem State.advance_sound {s : State ℝ ℝ e q n} (hs : s.Sound f options problem)
    {r : InnerResult ℝ ℝ q n} (hr : problem.bounds.Holds r.parameters) {cost : Cost ℝ (e + q)}
    (hcost : f ((back r.parameters).toList.map load) = .ok (cost.toList.map load)) :
    (s.advance options r cost).Sound f options problem where
  inBox := State.advance_inBox hs.inBox hr cost
  consistent := State.advance_consistent hs.consistent hcost
  norm_le hconverged := by
    rw [State.advance_converged, decide_eq_true_iff] at hconverged
    exact Scalar.abs_le_of_length_pair_le hconverged

/-- The residuals of a converged state are within the tolerance. -/
theorem State.Sound.abs_residual_le {s : State ℝ ℝ e q n} (hs : s.Sound f options problem)
    (hconverged : s.converged = true) (i : Fin (e + q)) :
    |(slackResiduals s.cost.constraints s.parameters).get i| ≤ options.tolerance := by
  have hpos : e + q ≠ 0 := i.pos.ne'
  have hnorm :
      s.constraintNorm = euclideanNorm (slackResiduals s.cost.constraints s.parameters) := by
    rw [hs.consistent.norm, if_neg hpos, load_real]
  calc |(slackResiduals s.cost.constraints s.parameters).get i|
      ≤ s.constraintNorm := hnorm ▸ abs_get_le_euclideanNorm _ i
    _ ≤ |s.constraintNorm| := le_abs_self _
    _ ≤ options.tolerance := hs.norm_le hconverged

/-- Equality values of a converged state are within the tolerance. -/
theorem State.Sound.abs_equality_le {s : State ℝ ℝ e q n} (hs : s.Sound f options problem)
    (hconverged : s.converged = true) (i : Fin e) :
    |s.cost.constraints.get (i.castAdd q)| ≤ options.tolerance := by
  have h := hs.abs_residual_le hconverged (i.castAdd q)
  rwa [Scale.get_slackResiduals_castAdd] at h

/-- An inequality value is within the tolerance of its slack, which meets its bounds. -/
theorem State.Sound.inequality_mem {s : State ℝ ℝ e q n} (hs : s.Sound f options problem)
    (hconverged : s.converged = true) (i : Fin q) {b : Interval ℝ}
    (hb : problem.bounds.get (i.castAdd n) = some b) :
    b.lower - options.tolerance ≤ s.cost.constraints.get (i.natAdd e) ∧
      s.cost.constraints.get (i.natAdd e) ≤ b.upper + options.tolerance := by
  have h := hs.abs_residual_le hconverged (i.natAdd e)
  rw [Scale.get_slackResiduals_natAdd] at h
  obtain ⟨h₁, h₂⟩ := abs_le.mp h
  obtain ⟨hlower, hupper⟩ := hs.inBox.holds _ b hb
  constructor <;> linarith

/-! ## Runs -/

/-- Without bounds every point meets them. -/
theorem Problem.holds_of_unbounded {parameters : Spec ℝ} {inequalities : Option (Spec ℝ)}
    (h : (ofSpecs parameters inequalities).problem.mode = .unbounded) (p : Vector ℝ _) :
    (ofSpecs parameters inequalities).problem.bounds.Holds p := by
  intro i interval hi
  rw [ofSpecs_get_bounds_of_unbounded h] at hi
  cases hi

/-- A problem in the mode without bounds has none to violate. -/
theorem Problem.holds_of_build_unbounded {parameters : SpecInput ℝ}
    {inequalities : Option (SpecInput ℝ)} {sized : SizedProblem ℝ}
    (h : build parameters inequalities = .ok sized) (hmode : sized.problem.mode = .unbounded)
    (p : Vector ℝ (sized.inequalities + sized.decisions)) : sized.problem.bounds.Holds p := by
  obtain ⟨spec, -, spec?, -, rfl⟩ := build_eq_ok_iff.mp h
  exact holds_of_unbounded hmode p

namespace Solver

variable {solver : Solver ℝ ℝ}

theorem ensures_start_sound (hstart : problem.bounds.Holds problem.parameters)
    (curvature : Mat ℝ (q + n) (q + n)) :
    Ensures (State.start solver.options f problem curvature) fun s =>
      s.state.Sound f solver.options problem := by
  refine (confined_start trivial fun _ _ => rfl).mono ?_
  rintro s ⟨cost, hcost, hs⟩
  rw [hs]
  exact State.ofCost_sound hstart hcost

/-- A major iteration keeps states sound; without bounds in the mode the problem must have
none. -/
theorem ensures_step_sound (ht : 0 < solver.options.tolerance)
    (hfree : problem.mode = .unbounded → ∀ p, problem.bounds.Holds p) {s : State ℝ ℝ e q n}
    (hs : s.Sound f solver.options problem) :
    Ensures (solver.step f s) fun s' => s'.Sound f solver.options problem := by
  have hinner : Ensures (Subproblem.solve solver.kernels f solver.settings s.problem s.innerStart)
      fun r => problem.bounds.Holds r.parameters := by
    by_cases hmode : problem.mode = .unbounded
    · exact ensures_iff.mpr fun _ r _ => hfree hmode r.parameters
    · exact (confined_inner_holds ht hmode (fun _ _ => rfl) hs.inBox).ensures
  refine (confined_stateStep hinner (fun _ _ => trivial) fun _ _ => rfl).mono ?_
  rintro _ ⟨r, cost, hr, hcost, rfl⟩
  exact State.advance_sound hs hr hcost

/-- Whatever rounds are left, they keep states sound. -/
theorem ensures_iterate_sound (ht : 0 < solver.options.tolerance)
    (hfree : problem.mode = .unbounded → ∀ p, problem.bounds.Holds p) (left : Nat)
    {s : State ℝ ℝ e q n} (hs : s.Sound f solver.options problem) :
    Ensures (solver.iterate f left s) fun s' => s'.Sound f solver.options problem :=
  confined_iterate (fun _ hs => ensures_step_sound ht hfree hs) left s hs

theorem ensures_after_sound (ht : 0 < solver.options.tolerance)
    (hfree : problem.mode = .unbounded → ∀ p, problem.bounds.Holds p)
    (hstart : problem.bounds.Holds problem.parameters) (curvature : Mat ℝ (q + n) (q + n))
    (k : Nat) :
    Ensures (solver.after f problem curvature k) fun s =>
      s.state.Sound f solver.options problem :=
  confined_after (ensures_start_sound hstart curvature)
    (fun _ hs => ensures_step_sound ht hfree hs) k

/-- The outcome of a run is read off a sound state. -/
theorem ensures_runProblem (ht : 0 < solver.options.tolerance)
    (hfree : problem.mode = .unbounded → ∀ p, problem.bounds.Holds p)
    (hstart : problem.bounds.Holds problem.parameters) (curvature : Mat ℝ (q + n) (q + n)) :
    Ensures (solver.runProblem f problem curvature) fun r =>
      ∃ s : SizedState ℝ ℝ q n, s.state.Sound f solver.options problem ∧
        r.value = s.state.objective ∧ r.optimum = back s.state.parameters ∧
        r.converged = s.state.converged := by
  refine Confined.bind (ensures_start_sound hstart curvature) fun first hfirst => ?_
  refine Confined.bind (ensures_iterate_sound ht hfree _ hfirst) fun last hlast => ?_
  refine ensures_iff.mpr fun j r hr => ⟨⟨_, last⟩, hlast, ?_⟩
  obtain ⟨-, -, rfl⟩ := outcome_result (Prod.ext hr rfl)
  exact ⟨rfl, rfl, rfl⟩

/-- If a run from specifications returns a converged outcome, the cost function gives
exactly the reported value at the optimum, followed by equality values within the
tolerance of zero and by inequality values within the tolerance of their specified
bounds; and every bounded decision variable meets its bounds. -/
theorem solve_feasible {parameters : SpecInput ℝ} {inequalities : Option (SpecInput ℝ)}
    (hoptions : solver.options.check = .ok solver.options) (hparameters : parameters.Checked)
    (hinequalities : ∀ input ∈ inequalities, input.Checked) {f : CostFunction ℝ}
    {curvature : Option (RawArray ℝ)} {j j' : Journal ℝ} {r : SizedResult ℝ ℝ}
    (hrun : outcome (solver.solve f parameters inequalities curvature) j = (.ok r, j'))
    (hconverged : r.result.converged = true) :
    ∃ spec spec? equalities values,
      Spec.ofParameters parameters = .ok spec ∧ Spec.ofInequalities inequalities = .ok spec? ∧
      f r.result.optimum.toList = .ok (r.result.value :: (equalities ++ values)) ∧
      (∀ g ∈ equalities, |g| ≤ solver.options.tolerance) ∧
      List.Forall₂ (fun b h => b.lower - solver.options.tolerance ≤ h ∧
        h ≤ b.upper + solver.options.tolerance) (Problem.slackRows spec?) values ∧
      ∀ rows, spec.intervals? = some rows →
        List.Forall₂ (fun b x => b.lower ≤ x ∧ x ≤ b.upper) rows r.result.optimum.toList := by
  obtain ⟨sized, first, result, hbuild, -, hresult, rfl⟩ := outcome_solve hrun
  have hinside := Bounds.holds_of_strictlyInside
    (Problem.build_strictlyInside hparameters hinequalities hbuild)
  obtain ⟨spec, hspec, spec?, hspec?, rfl⟩ := Problem.build_eq_ok_iff.mp hbuild
  have hranged : ∀ spec ∈ spec?, spec.Ranged := by
    rintro _ rfl
    exact Spec.ofInequalities_ranged hinequalities hspec?
  -- the reported outcome is that of the last state
  obtain ⟨⟨e, s⟩, hs, hvalue, hoptimum, hflag⟩ :=
    (ensures_runProblem (Options.tolerance_pos hoptions) Problem.holds_of_unbounded hinside
      first).of_outcome hresult
  have hdone : s.converged = true := hflag ▸ hconverged
  refine ⟨spec, spec?, (front s.cost.constraints).toList, (back s.cost.constraints).toList,
    hspec, hspec?, ?_, fun g hg => ?_, ?_, fun rows hrows => ?_⟩
  · have hcost := hs.consistent.cost
    rw [map_load_real, map_load_real, ← hoptimum, Cost.toList,
      ← front_append_back s.cost.constraints, Vector.toList_append] at hcost
    rw [hcost, hvalue, hs.consistent.objective, load_real]
  · obtain ⟨i, rfl⟩ := (mem_toList_iff _ g).mp hg
    rw [get_front]
    exact hs.abs_equality_le hdone i
  · refine Problem.forall₂_slackRows hranged fun i b hb => ?_
    rw [get_back]
    exact hs.inequality_mem hdone i hb
  · rcases Spec.ofParameters_cases hparameters hspec with ⟨guess, rfl⟩ | hspecRanged
    · cases hrows
    · have hdecisions := Problem.forall₂_decisionRows hspecRanged
        (R := fun b x => b.lower ≤ x ∧ x ≤ b.upper) (x := result.optimum) fun i b hb => by
          rw [hoptimum, get_back]
          exact hs.inBox.holds _ b hb
      rwa [Problem.decisionRows, hrows] at hdecisions

/-- A decision variable that starts at `0` between `-1` and `2`. -/
noncomputable def sampleParameters : Spec ℝ := .guessedRange [(0, ⟨-1, 2.0⟩)]

/-- An inequality value between `0` and `1`. -/
noncomputable def sampleInequalities : Spec ℝ := .range [⟨0, 1⟩]

noncomputable def sampleProblem : Problem ℝ 0 1 1 :=
  (Problem.ofSpecs sampleParameters (some sampleInequalities)).problem

noncomputable def sampleSolver : Solver ℝ ℝ := ⟨.standard, .standard⟩

theorem build_sample :
    Problem.build (.record sampleParameters) (some (.record sampleInequalities)) =
      .ok ⟨1, 1, sampleProblem⟩ :=
  rfl

theorem sampleSolver_check : sampleSolver.options.check = .ok sampleSolver.options := by
  refine Options.check_eq_ok_iff.mpr ?_
  norm_num [sampleSolver, Options.standard]

theorem sampleParameters_checked : SpecInput.Checked (.record sampleParameters) := by
  exact .guessedRange (Spec.ofGuessedRange_singleton (by norm_num) (by norm_num) (by norm_num))

theorem sampleInequalities_checked :
    ∀ input ∈ some (SpecInput.record sampleInequalities), input.Checked := by
  rintro _ ⟨rfl⟩
  exact .range (Spec.ofRange_singleton (by norm_num))

/-- The slopes of the equality value `x` and of the inequality value `(x + 1) / 2`. -/
noncomputable def pinSlopes : Mat ℝ (1 + 1) 1 := #v[#v[1], #v[0.5]]

/-- The objective `(x - 1)²`, whose minimum the equality constraint `x = 0` excludes. -/
noncomputable def pinCost : CostFunction ℝ :=
  affineCost (fun x => (x.get 0 - 1) * (x.get 0 - 1)) pinSlopes #v[0, 0.5]

/-- What it gives at `0`. -/
noncomputable def pinStart : Cost ℝ (1 + 1) := ⟨1, #v[0, 0.5]⟩

/-- The two affine constraints meet in one point. -/
theorem pinSlopes_isUnit : IsUnit (slackJacobian pinSlopes) := by
  have hjacobian : slackJacobian pinSlopes = !![0, 1; -1, 0.5] := by
    ext i j
    fin_cases i <;> fin_cases j <;> rfl
  rw [Matrix.isUnit_iff_isUnit_det, hjacobian, Matrix.det_fin_two_of]
  norm_num

theorem pinCost_start : pinCost (back sampleProblem.parameters).toList = .ok pinStart.toList := by
  have hx : (back sampleProblem.parameters).get 0 = 0 := by
    rw [get_back]
    exact get_append_natAdd (ofList [_]) (ofList [(0 : ℝ)]) (0 : Fin 1)
  refine affineCost_eq_ok ?_ (vector_ext fun i => ?_)
  · rw [hx]
    show ((0 : ℝ) - 1) * (0 - 1) = 1
    norm_num
  · rw [get_add, Mat.get_mulVec, dot_eq_dotProduct, dotProduct_eq_sum, Fin.sum_univ_one, hx,
      mul_zero, zero_add]
    rfl

theorem pinStart_feasible (i : Fin (1 + 1)) :
    (slackResiduals pinStart.constraints sampleProblem.parameters).get i = 0 := by
  refine Fin.addCases (fun k => ?_) (fun k => ?_) i
  · rw [Scale.get_slackResiduals_castAdd, Fin.fin_one_eq_zero k]
    rfl
  · have hslack : sampleProblem.parameters.get (k.castAdd 1) = 0.5 * (0 + 1) := by
      refine (get_append_castAdd _ _ k).trans ?_
      rw [Fin.fin_one_eq_zero k]
      rfl
    rw [Scale.get_slackResiduals_natAdd, hslack, Fin.fin_one_eq_zero k]
    show (0.5 : ℝ) - 0.5 * (0 + 1) = 0
    norm_num

/-- A run on the sample problem converges. -/
theorem pinCost_converges : ∃ (result : Result ℝ ℝ 1 1) (j' : Journal ℝ),
    outcome (sampleSolver.solve pinCost (.record sampleParameters)
      (some (.record sampleInequalities)) none) {} = (.ok ⟨1, 1, result⟩, j') ∧
    result.converged = true := by
  have hrun : Returns (Journal.Fits (1 + (1 + 1)))
      (sampleSolver.runProblem pinCost sampleProblem (Mat.identity ℝ 2))
      fun r => r.converged = true := by
    exact returns_runProblem_determined sampleSolver_check Kernels.standard_exact (Nat.succ_pos _)
      (affineCost_total _ _ _) (affineCost_affineConstraints _ _ _)
      (Matrix.linearIndependent_rows_iff_isUnit.mpr pinSlopes_isUnit)
      (Matrix.linearIndependent_cols_iff_isUnit.mpr pinSlopes_isUnit) Nat.one_pos
      (Mat.identity_posDef 2) pinCost_start
      (Problem.build_strictlyInside sampleParameters_checked sampleInequalities_checked
        build_sample) pinStart_feasible
  obtain ⟨result, j', hresult, -, hconverged⟩ := hrun {} Journal.fits_empty
  refine ⟨result, j', ?_, hconverged⟩
  exact outcome_bind_eq_ok_iff.mpr ⟨_, {}, rfl, outcome_bind_eq_ok_iff.mpr ⟨_, {}, rfl,
    outcome_bind_eq_ok_iff.mpr ⟨result, j', hresult, rfl⟩⟩⟩

/-- The first major iteration on the sample problem, with the standard inner solver. -/
theorem pinCost_firstStep : ∃ (s : State ℝ ℝ 1 1 1) (j' : Journal ℝ),
    outcome (sampleSolver.after pinCost sampleProblem (Mat.identity ℝ 2) 1) {} =
      (.ok ⟨1, s⟩, j') := by
  have hrun : Returns (Journal.Fits (1 + (1 + 1)))
      (sampleSolver.after pinCost sampleProblem (Mat.identity ℝ 2) 1)
      fun s => ∃ s₀ : State ℝ ℝ 1 1 1, s = ⟨1, s₀⟩ := by
    refine Returns.bind (returns_start pinCost_start) ?_
    rintro _ rfl
    refine Returns.bind (returns_step_determined sampleSolver_check Kernels.standard_exact
      (Nat.succ_pos _) (affineCost_total _ _ _) (affineCost_affineConstraints _ _ _)
      (Matrix.linearIndependent_rows_iff_isUnit.mpr pinSlopes_isUnit)
      (Matrix.linearIndependent_cols_iff_isUnit.mpr pinSlopes_isUnit) Nat.one_pos
      (Mat.identity_posDef 2) pinCost_start (Problem.build_strictlyInside sampleParameters_checked
        sampleInequalities_checked build_sample) pinStart_feasible) fun s _ => ?_
    exact Returns.pure ⟨s, rfl⟩
  obtain ⟨_, j', h, -, s, rfl⟩ := hrun {} Journal.fits_empty
  exact ⟨s, j', h⟩

/-- The run on the sample problem converges, so all that is said of converged runs holds of it. -/
theorem solve_feasible_pin :
    ∃ (r : SizedResult ℝ ℝ) (j' : Journal ℝ) (equalities values : List ℝ),
      outcome (sampleSolver.solve pinCost (.record sampleParameters)
        (some (.record sampleInequalities)) none) {} = (.ok r, j') ∧
      r.result.converged = true ∧
      pinCost r.result.optimum.toList = .ok (r.result.value :: (equalities ++ values)) ∧
      (∀ g ∈ equalities, |g| ≤ sampleSolver.options.tolerance) ∧
      List.Forall₂ (fun (b : Interval ℝ) h => b.lower - sampleSolver.options.tolerance ≤ h ∧
        h ≤ b.upper + sampleSolver.options.tolerance) [⟨0, 1⟩] values ∧
      List.Forall₂ (fun (b : Interval ℝ) x => b.lower ≤ x ∧ x ≤ b.upper) [⟨-1, 2.0⟩]
        r.result.optimum.toList := by
  obtain ⟨result, j', hrun, hconverged⟩ := pinCost_converges
  obtain ⟨spec, spec?, equalities, values, hspec, hspec?, hcost, hequalities, hvalues, hbounds⟩ :=
    solve_feasible sampleSolver_check sampleParameters_checked sampleInequalities_checked hrun
      hconverged
  cases hspec
  cases hspec?
  exact ⟨_, j', equalities, values, hrun, hconverged, hcost, hequalities, hvalues, hbounds _ rfl⟩

end Solver

end Sqp
