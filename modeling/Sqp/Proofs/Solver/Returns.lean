import Sqp.Proofs.Solver.Box
import Sqp.Proofs.Subproblem.Settle

/-!
# Runs that return

- `returns_start`, `returns_stateStep`, `Solver.returns_step`: the start of a run and a major
  iteration return if the cost function answers and the inner solve returns.
- `Solver.returns_iterate_of_converged`: a run whose first major iteration converges ends
  with it.
- `State.advance_converged_of_feasible`: a major iteration converges if it finds the same
  objective and meets the constraints.
- `Solver.returns_step_determined`, `Solver.returns_runProblem_determined`: so a run that
  starts at a feasible point which its affine constraints determine converges with its
  first major iteration, and returns.
- `Solver.returns_after_unconstrained`: a run without constraints and bounds makes as many
  major iterations as are asked for.
-/

namespace Sqp

open Matrix

variable {e q n : Nat}

/-! ## Parts of a run -/

@[simp] theorem Warning.ofCode_code (w : Warning) : Warning.ofCode w.code = .ok w := by
  cases w <;> rfl

theorem returns_announce {values : Nat} (iteration : Nat) (ws : List Warning) :
    Returns (Journal.Fits values)
      (announce iteration (ws.map Warning.code) : Recorded ℝ Unit) fun _ => True := by
  induction ws with
  | nil => exact Returns.pure trivial
  | cons w ws ih =>
    refine Returns.bind (Returns.recorded ⟨w, w.ofCode_code⟩) fun w _ => ?_
    exact Returns.bind (Returns.emit iteration w) fun _ _ => ih

variable {f : CostFunction ℝ} {options : Options ℝ}

theorem equalityCount_eq (e q : Nat) : equalityCount (1 + (e + q)) q = .ok e := by
  rw [equalityCount, if_neg (by omega)]
  exact congrArg Except.ok (by omega)

/-- A run starts if its first cost vector has a value for the objective and each inequality. -/
theorem returns_start {problem : Problem ℝ 0 q n} {curvature : Mat ℝ (q + n) (q + n)}
    {cost : Cost ℝ (e + q)} (hcost : f (back problem.parameters).toList = .ok cost.toList) :
    Returns (Journal.Fits (1 + (e + q))) (State.start options f problem curvature)
      (· = ⟨e, State.ofCost options (problem.withEqualities e) curvature cost⟩) := by
  refine Returns.bind (Returns.evaluate (by simpa using hcost)) ?_
  rintro _ rfl
  rw [Cost.length_toList]
  refine Returns.bind (Returns.recorded ⟨e, equalityCount_eq e q⟩) fun e' he' => ?_
  rw [equalityCount_eq, Except.ok.injEq] at he'
  subst he'
  rw [Cost.ofList?_toList]
  exact Returns.bind (Returns.report _) fun _ _ => Returns.pure rfl

/-- A result can always be made of a state, and reports convergence as the state does. -/
theorem returns_result {values : Nat} (s : State ℝ ℝ e q n) :
    Returns (Journal.Fits values) s.result fun r => r.converged = s.converged := by
  intro j hj
  unfold State.result
  rw [outcome_bind, outcome_get]
  dsimp only
  split_ifs <;> exact ⟨_, _, rfl, hj, rfl⟩

/-- A major iteration returns if its inner solver does, with warnings that are known. -/
theorem returns_stateStep (hf : f.Total n (e + q)) {inner : InnerSolver ℝ ℝ e q n}
    {s : State ℝ ℝ e q n} {Q : InnerResult ℝ ℝ q n → Prop}
    (hinner : Returns (Journal.Fits (1 + (e + q))) (inner s.problem s.innerStart)
      fun r => Q r ∧ ∃ ws : List Warning, r.warnings = ws.map Warning.code) :
    Returns (Journal.Fits (1 + (e + q))) (s.step options f inner) fun s' =>
      ∃ r cost, Q r ∧ f (back r.parameters).toList = .ok cost.toList ∧
        s' = s.advance options r cost := by
  refine Returns.bind hinner fun r hr => ?_
  obtain ⟨hQ, ws, hws⟩ := hr
  rw [hws]
  refine Returns.bind (returns_announce _ ws) fun _ _ => ?_
  obtain ⟨cost, hcost⟩ := hf (back r.parameters)
  refine Returns.bind (Returns.evaluateSized (by simpa using hcost)) ?_
  rintro cost rfl
  exact Returns.bind (Returns.report _) fun _ _ => Returns.pure ⟨r, cost, hQ, hcost, rfl⟩

namespace Solver

variable {solver : Solver ℝ ℝ} {s : State ℝ ℝ e q n}

/-- A major iteration returns if its inner solve does. -/
theorem returns_step (hf : f.Total n (e + q)) {Q : InnerResult ℝ ℝ q n → Prop}
    (hinner : Returns (Journal.Fits (1 + (e + q)))
      (Subproblem.solve solver.kernels f solver.settings s.problem s.innerStart) Q) :
    Returns (Journal.Fits (1 + (e + q))) (solver.step f s) fun s' =>
      ∃ r cost, Q r ∧ f (back r.parameters).toList = .ok cost.toList ∧
        s' = s.advance solver.options r cost := by
  have hwarnings : Ensures
      (Subproblem.solve solver.kernels f solver.settings s.problem s.innerStart)
      fun r => ∃ ws : List Warning, r.warnings = ws.map Warning.code := by
    refine Confined.bind (Ensures.any _) fun d _ => ?_
    exact Confined.bind (Confined.report _) fun _ _ => Confined.pure ⟨_, rfl⟩
  exact returns_stateStep hf (hinner.and_ensures hwarnings)

/-- A run whose next major iteration converges ends with it. -/
theorem returns_iterate_of_converged {J : Journal ℝ → Prop} {left : Nat} (hleft : 0 < left)
    (hs : s.finished solver.options = false)
    (hstep : Returns J (solver.step f s) fun s' => s'.converged = true) :
    Returns J (solver.iterate f left s) fun s' => s'.converged = true := by
  obtain ⟨left, rfl⟩ := Nat.exists_eq_succ_of_ne_zero hleft.ne'
  rw [iterate, hs]
  refine Returns.bind hstep fun s' hs' => ?_
  cases left with
  | zero => exact Returns.pure hs'
  | succ left =>
    rw [iterate, State.finished, hs']
    exact Returns.pure hs'

end Solver

/-! ## Runs that start where they end -/

/-- Settling slacks does not break constraints that hold. -/
theorem slackResiduals_settleSlacks {problem : Problem ℝ e q n} {p : Vector ℝ (q + n)}
    {c : Vector ℝ (e + q)} (h : ∀ i, (slackResiduals c p).get i = 0) (i : Fin (e + q)) :
    (slackResiduals c (settleSlacks problem p c)).get i = 0 := by
  unfold settleSlacks
  split_ifs
  · refine Fin.addCases (fun k => ?_) (fun k => ?_) i
    · rw [Scale.get_slackResiduals_castAdd, ← h (k.castAdd q), Scale.get_slackResiduals_castAdd]
    · rw [Scale.get_slackResiduals_natAdd, get_append_castAdd, get_back, sub_self]
  · exact h i

/-- A major iteration converges if it finds the same objective and meets the constraints. -/
theorem State.advance_converged_of_feasible (ht : 0 < options.tolerance) {s : State ℝ ℝ e q n}
    {r : InnerResult ℝ ℝ q n} {cost : Cost ℝ (e + q)} (hobjective : s.objective = cost.objective)
    (hnorm : e + q = 0 → s.constraintNorm = 0)
    (hfeasible : ∀ i, (slackResiduals cost.constraints r.parameters).get i = 0) :
    (s.advance options r cost).converged = true := by
  have hchange : (s.advance options r cost).objectiveChange = 0 := by
    rw [State.advance_objectiveChange, load_real, hobjective, sub_self, zero_div]
  have hconstraints : (s.advance options r cost).constraintNorm = 0 := by
    rw [State.advance_constraintNorm]
    split_ifs with hzero
    · exact hnorm hzero
    · exact euclideanNorm_eq_zero (slackResiduals_settleSlacks hfeasible)
  rw [State.advance_converged, hchange, hconstraints, decide_eq_true_iff, Scalar.length_pair]
  simpa using ht.le

namespace Solver

variable {solver : Solver ℝ ℝ}

/-- The first major iteration of a run that starts at a feasible point which its affine
constraints determine returns and is converged. -/
theorem returns_step_determined (hoptions : solver.options.check = .ok solver.options)
    (hkernels : solver.kernels.Exact) (hlimit : 0 < solver.kernels.trialLimit)
    {a : Mat ℝ (e + q) n} {b : Vector ℝ (e + q)} (hf : f.Total n (e + q))
    (haffine : AffineConstraints f a b) (hrow : LinearIndependent ℝ (slackJacobian a).row)
    (hcol : LinearIndependent ℝ (slackJacobian a).col) (hn : 0 < n) {problem : Problem ℝ 0 q n}
    {curvature : Mat ℝ (q + n) (q + n)} (hcurvature : curvature.toMatrix.PosDef)
    {cost : Cost ℝ (e + q)} (hcost : f (back problem.parameters).toList = .ok cost.toList)
    (hinside : problem.bounds.strictlyInside problem.parameters = true)
    (hfeasible : ∀ i, (slackResiduals cost.constraints problem.parameters).get i = 0) :
    Returns (Journal.Fits (1 + (e + q)))
      (solver.step f (State.ofCost solver.options (problem.withEqualities e) curvature cost))
      fun s' => s'.converged = true := by
  obtain ⟨ht, hdelta, -⟩ := Options.check_eq_ok_iff.mp hoptions
  set s := State.ofCost solver.options (problem.withEqualities e) curvature cost with hs
  have hentryCost : f (back s.parameters).toList = .ok s.cost.toList := by
    have hconsistent : s.Consistent f := State.ofCost_consistent
      (show f ((back problem.parameters).toList.map load) = .ok (cost.toList.map load) by
        rw [map_load_real, map_load_real, hcost])
    have h := hconsistent.cost
    rwa [map_load_real, map_load_real] at h
  have hsettled : ∀ i, (slackResiduals s.cost.constraints s.parameters).get i = 0 :=
    slackResiduals_settleSlacks hfeasible
  have hentry :
      Subproblem.AffineEntry solver.kernels f solver.settings s.problem s.innerStart a b :=
    { kernels := hkernels
      constraints := haffine
      rank := hrow
      tolerance := ht
      delta := hdelta
      cost := hentryCost
      inside := settleSlacks_strictlyInside (problem.withEqualities e) _ hinside
      curvature := hcurvature
      mu := Nat.cast_pos.mpr hn }
  have hmultipliers : e + q = 0 ∨ s.multipliers.length = e + q := by
    have hlength : s.multipliers.length = max (e + q) 1 := List.length_replicate
    omega
  refine (returns_step hf (hentry.returns_solve_determined hf hlimit hcol hsettled
    hmultipliers)).mono ?_
  rintro _ ⟨r, cost', hr, hcost', rfl⟩
  -- the inner solve has stayed where it was, so the cost vector is the old one
  have hsame : cost' = s.cost := by
    rw [hr] at hcost'
    exact Cost.toList_injective (Except.ok.inj (hcost'.symm.trans hentryCost))
  refine State.advance_converged_of_feasible ht ?_ (fun hzero => if_pos hzero) fun i => ?_
  · rw [hsame]
    rfl
  · rw [hsame, hr]
    exact hsettled i

/-- A run that starts at a feasible point which its affine constraints determine returns
and is converged. -/
theorem returns_runProblem_determined (hoptions : solver.options.check = .ok solver.options)
    (hkernels : solver.kernels.Exact) (hlimit : 0 < solver.kernels.trialLimit)
    {a : Mat ℝ (e + q) n} {b : Vector ℝ (e + q)} (hf : f.Total n (e + q))
    (haffine : AffineConstraints f a b) (hrow : LinearIndependent ℝ (slackJacobian a).row)
    (hcol : LinearIndependent ℝ (slackJacobian a).col) (hn : 0 < n) {problem : Problem ℝ 0 q n}
    {curvature : Mat ℝ (q + n) (q + n)} (hcurvature : curvature.toMatrix.PosDef)
    {cost : Cost ℝ (e + q)} (hcost : f (back problem.parameters).toList = .ok cost.toList)
    (hinside : problem.bounds.strictlyInside problem.parameters = true)
    (hfeasible : ∀ i, (slackResiduals cost.constraints problem.parameters).get i = 0) :
    Returns (Journal.Fits (1 + (e + q))) (solver.runProblem f problem curvature)
      fun r => r.converged = true := by
  obtain ⟨-, -, -, hmajor, -⟩ := Options.check_eq_ok_iff.mp hoptions
  refine Returns.bind (returns_start hcost) ?_
  rintro _ rfl
  have hstep := returns_step_determined hoptions hkernels hlimit hf haffine hrow hcol hn hcurvature
    hcost hinside hfeasible
  refine Returns.bind (returns_iterate_of_converged (by omega) ?_ hstep) fun last hlast =>
    (returns_result last).mono fun r hr => hr.trans hlast
  show (false || decide (solver.options.majorLimit ≤ ((0 : ℕ) : ℤ))) = false
  rw [Bool.false_or, decide_eq_false_iff_not]
  omega

/-! ## Runs without constraints and bounds -/

/-- No major iteration of a run without constraints and bounds fails. -/
theorem returns_after_unconstrained (hoptions : solver.options.check = .ok solver.options)
    (hlimit : 0 < solver.kernels.trialLimit) (hf : f.Total n 0) {problem : Problem ℝ 0 0 n}
    (hbounds : ∀ p, problem.bounds.strictlyInside p = true)
    (curvature : Mat ℝ (0 + n) (0 + n)) (k : Nat) :
    Returns (Journal.Fits 1) (solver.after f problem curvature k) fun s =>
      ∃ s₀ : State ℝ ℝ 0 0 n, s = ⟨0, s₀⟩ ∧ s₀.problem.bounds = problem.bounds := by
  obtain ⟨ht, hdelta, -⟩ := Options.check_eq_ok_iff.mp hoptions
  induction k with
  | zero =>
    obtain ⟨cost, hcost⟩ := hf (back problem.parameters)
    refine (returns_start (e := 0) hcost).mono ?_
    rintro _ rfl
    exact ⟨_, rfl, rfl⟩
  | succ k ih =>
    refine Returns.bind ih ?_
    rintro _ ⟨s₀, rfl, hsame⟩
    -- without bounds every trial is acceptable as far as bounds go, and real numbers are finite
    have hinner : Returns (Journal.Fits (1 + (0 + 0)))
        (Subproblem.solve solver.kernels f solver.settings s₀.problem s₀.innerStart)
        fun _ => True :=
      Subproblem.returns_solve_unconstrained rfl hf ht hdelta hlimit (hsame ▸ hbounds)
    refine Returns.bind (returns_step hf hinner) ?_
    rintro _ ⟨r, cost, -, -, rfl⟩
    exact Returns.pure ⟨_, rfl, by rw [State.advance_problem, hsame]⟩

end Solver

end Sqp
