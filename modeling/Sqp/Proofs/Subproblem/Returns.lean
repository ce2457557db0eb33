import Sqp.Proofs.Returns
import Sqp.Proofs.Subproblem.Steps

/-!
# Inner solves that return

With a cost function that always answers, an inner solve can fail in three ways only: the
multipliers do not fit, the repair of a violated linearisation is refused, or no Newton
trial is accepted.

- `CostFunction.Total`: a cost function that always answers.
- `returns_meritGradient`, `returns_constraintJacobian`, `LineSearch.returns_search`: the
  parts of an inner solve that fail only where the cost function does.
- `Subproblem.returns_minorStep`, `Subproblem.returns_descend`: minor iterations return if
  their Newton steps do.
- `Subproblem.returns_prepare`: the way into an inner solve returns if the repair does.
- `Subproblem.returns_solve`: so does the inner solve; without constraints and bounds
  nothing is left that could fail (`Subproblem.returns_solve_unconstrained`).
-/

namespace Sqp

variable {e q n : Nat} {J : Journal ℝ → Prop}

/-- A cost function that gives an objective and `m` constraint values at every vector of
`n` decision variables. -/
def CostFunction.Total (f : CostFunction ℝ) (n m : Nat) : Prop :=
  ∀ x : Vector ℝ n, ∃ cost : Cost ℝ m, f x.toList = .ok cost.toList

/-! ## Finite differences -/

theorem Returns.scaleEvaluate {f : CostFunction ℝ} {s : Scale ℝ e q n} {p : Vector ℝ (q + n)}
    {user : Cost ℝ (e + q)} (hf : f (s.userPoint p).toList = .ok user.toList) :
    Returns (Journal.Fits (1 + (e + q))) (s.evaluate f p) (· = s.scaleCost user) := by
  refine Returns.bind (Returns.evaluateSized (by simpa using hf)) ?_
  rintro _ rfl
  exact Returns.pure rfl

theorem CostFunction.Total.returns_evaluate {f : CostFunction ℝ} (hf : f.Total n (e + q))
    (s : Scale ℝ e q n) (p : Vector ℝ (q + n)) :
    Returns (Journal.Fits (1 + (e + q))) (s.evaluate f p) fun _ => True := by
  obtain ⟨user, huser⟩ := hf (s.userPoint p)
  exact (Returns.scaleEvaluate huser).mono fun _ _ => trivial

/-- The gradient of a merit function that answers at the shifted points. -/
theorem returns_meritGradient {meritAt : Vector ℝ (q + n) → Recorded ℝ ℝ} {p : Vector ℝ (q + n)}
    {delta : ℝ} {Q : Fin n → ℝ → Prop} (merit : ℝ) (hdelta : delta ≠ 0)
    (h : ∀ k : Fin n, Returns J (meritAt (nudge p (k.natAdd q) delta)) (Q k)) :
    Returns J (meritGradient meritAt p merit delta) fun gradient =>
      (∀ k : Fin q, gradient.get (k.castAdd n) = 0) ∧
        ∀ k : Fin n, ∃ value, Q k value ∧ gradient.get (k.natAdd q) = (value - merit) / delta := by
  have hslope : ∀ k : Fin n, Returns J
      (do
        let shifted ← meritAt (nudge p (k.natAdd q) delta)
        Scalar.quotient (shifted - merit) delta)
      fun slope => ∃ value, Q k value ∧ slope = (value - merit) / delta := by
    intro k
    refine Returns.bind (h k) fun value hvalue => ?_
    rw [Scalar.quotient_eq _ hdelta]
    exact Returns.pure ⟨value, hvalue, rfl⟩
  refine Returns.bind (Returns.tabulateM hslope) fun slopes hslopes =>
    Returns.pure ⟨fun k => ?_, fun k => ?_⟩
  · rw [get_append_castAdd, get_zeros]
  · rw [get_append_natAdd, get_map, store_real]
    exact hslopes k

/-- A Jacobian is found if all calls at the shifted points are answered. -/
theorem returns_constraintJacobian {costAt : Vector ℝ (q + n) → Recorded ℝ (Cost ℝ (e + q))}
    {p : Vector ℝ (q + n)} {delta : ℝ} (cost : Cost ℝ (e + q))
    (h : ∀ k : Fin n, Returns J (costAt (nudge p (k.natAdd q) delta)) fun _ => True) :
    Returns J (constraintJacobian costAt p cost delta) fun _ => True := by
  have hslope : ∀ k : Fin n, Returns J
      (do return (← costAt (nudge p (k.natAdd q) delta)).slope cost delta) fun _ => True :=
    fun k => Returns.bind (h k) fun _ _ => Returns.pure trivial
  exact Returns.bind (Returns.tabulateM hslope) fun _ _ => Returns.pure trivial

/-! ## Line search -/

namespace LineSearch

variable {meritAt : Vector ℝ n → Recorded ℝ ℝ}

/-- Bisections fail only where the merit function does, by induction on their limit. -/
theorem returns_bisect (h : ∀ p, Returns J (meritAt p) fun _ => True) (start trial : Vector ℝ n)
    (merit tolerance : ℝ) :
    ∀ (fuel : Nat) (go : ℝ) (steps : Nat) (b : Bracket ℝ ℝ n),
      Returns J (bisect meritAt start trial merit tolerance fuel go steps b) fun _ => True := by
  intro fuel
  induction fuel with
  | zero =>
    intro go steps b
    exact Returns.pure trivial
  | succ fuel ih =>
    intro go steps b
    refine Returns.ite (fun _ => ?_) fun _ => Returns.pure trivial
    exact Returns.bind (h _) fun _ _ => ih _ _ _

theorem returns_search (h : ∀ p, Returns J (meritAt p) fun _ => True) (start trial : Vector ℝ n)
    (merit tolerance : ℝ) :
    Returns J (search meritAt start trial merit tolerance) fun _ => True :=
  Returns.bind (h trial) fun _ _ =>
    Returns.bind (returns_bisect h start trial merit tolerance _ _ _ _) fun _ _ =>
      Returns.pure trivial

end LineSearch

namespace Subproblem

/-! ## Minor iterations -/

section Descent

variable {g : Landscape ℝ ℝ e q n}

/-- A minor iteration returns if merits are answered and a Newton step exists. -/
theorem returns_minorStep (hmerit : ∀ p, Returns J (g.meritAt p) fun _ => True)
    (hdelta : g.settings.delta ≠ 0) {s : Iterate ℝ ℝ e q n}
    (hnewton : ∀ curvature gradient,
      (curvature = s.curvature ∨ ∃ x y, curvature = Curvature.update s.curvature x y) →
      ∃ t, NewtonStep.compute g.kernels
        ⟨curvature, gradient, g.lagrangian.jacobian, trustScale s.point g.bounds g.mode⟩
        s.point g.bounds (s.mu / 10) = .ok t) :
    Returns J (minorStep g s) fun _ => True := by
  have hten : s.mu / (10.0 : ℝ) = s.mu / 10 := by norm_num
  have hgradient : Returns J (g.gradientAt s) fun _ => True :=
    Returns.ite
      (fun _ => (returns_meritGradient s.merit hdelta fun _ => hmerit _).mono fun _ _ => trivial)
      fun _ => Returns.pure trivial
  refine Returns.bind hgradient fun gradient _ => ?_
  have hstep := hnewton _ gradient (learned_cases s gradient)
  rw [← hten] at hstep
  refine Returns.bind (Returns.recorded hstep) fun _ _ => ?_
  exact Returns.bind (LineSearch.returns_search hmerit _ _ _ _) fun _ _ => Returns.pure trivial

/-- A descent returns if its minor iterations do, where these keep `I`. -/
theorem returns_descend {I : Iterate ℝ ℝ e q n → Prop}
    (hreturns : ∀ s, I s → Returns J (minorStep g s) fun _ => True)
    (hstep : ∀ s, I s → Ensures (minorStep g s) I) :
    ∀ (left : Nat) (s : Iterate ℝ ℝ e q n), I s → Returns J (descend g left s) fun _ => True := by
  intro left
  induction left with
  | zero =>
    intro s _
    exact Returns.pure trivial
  | succ left ih =>
    intro s hs
    refine Returns.bind ((hreturns s hs).and_ensures (hstep s hs)) fun next hnext => ?_
    refine Returns.ite (fun _ => Returns.pure trivial) fun _ => ?_
    exact Returns.bind (ih next hnext.2) fun _ _ => Returns.pure trivial

end Descent

/-! ## The way in -/

variable {K : Kernels ℝ} {f : CostFunction ℝ} {settings : Settings ℝ} {problem : Problem ℝ e q n}
  {entry : InnerStart ℝ ℝ e q n}

theorem exists_constraintMultipliers {m : Nat} {ys : List ℝ} (h : m = 0 ∨ ys.length = m) :
    ∃ y, constraintMultipliers m ys = .ok y := by
  unfold constraintMultipliers
  split_ifs with hm
  · exact ⟨_, rfl⟩
  · rw [fitted, dif_pos (h.resolve_left hm)]
    exact ⟨_, rfl⟩

/-- The way into an inner solve returns if a repair that is called for does. -/
theorem returns_prepare (hf : f.Total n (e + q)) (ht : 0 < settings.tolerance)
    (hmultipliers : e + q = 0 ∨ entry.multipliers.length = e + q)
    {D : Scale ℝ e q n → Mat ℝ (e + q) (q + n) → Prop}
    (hD : ∀ scale : Scale ℝ e q n, scale.Positive →
      Ensures (constraintJacobian (scale.evaluate f) (scale.scaleParameters entry.parameters)
        (scale.scaleCost entry.cost) settings.delta) fun r => D scale r.2)
    (hrepair : ∀ (scale : Scale ℝ e q n) (l : Linearisation ℝ e q n), scale.Positive →
      D scale l.jacobian → l.point = scale.scaleParameters entry.parameters →
      settings.tolerance ≤ infinityNorm (slackResiduals (scale.scaleCost entry.cost).constraints
        (scale.scaleParameters entry.parameters)) →
      Returns (Journal.Fits (1 + (e + q))) (repair K problem.mode
        (scale.scaleBounds problem.bounds) settings.tolerance
        (slackResiduals (scale.scaleCost entry.cost).constraints
          (scale.scaleParameters entry.parameters)) l) fun _ => True) :
    Returns (Journal.Fits (1 + (e + q))) (prepare K f settings problem entry) fun way =>
      Scale.compute problem.mode entry.cost.objective (front entry.cost.constraints).toList
        entry.parameters settings.tolerance = .ok way.scale := by
  refine Returns.bind (Returns.recorded ⟨_, Scale.compute_eq ht.ne'⟩) fun scale hscale => ?_
  have hs := Scale.compute_positive ht hscale
  refine Returns.bind (Returns.recorded (exists_constraintMultipliers hmultipliers)) fun _ _ => ?_
  -- only a violated linearisation can be refused
  have hlinearise : Returns (Journal.Fits (1 + (e + q))) (linearise K (scale.evaluate f)
      problem.mode (scale.scaleBounds problem.bounds) settings
      (scale.scaleParameters entry.parameters) (scale.scaleCost entry.cost)) fun _ => True := by
    refine Returns.ite (fun _ => Returns.pure trivial) fun _ => ?_
    refine Returns.bind ((returns_constraintJacobian _ fun _ =>
      hf.returns_evaluate scale _).and_ensures (hD scale hs)) fun r hr => ?_
    refine Returns.ite (fun hlarge => ?_) fun _ => Returns.pure trivial
    exact hrepair scale _ hs hr.2 rfl hlarge
  refine Returns.bind hlinearise fun l _ => ?_
  have hbase : Returns (Journal.Fits (1 + (e + q)))
      (l.cost (scale.evaluate f) (scale.scaleCost entry.cost)) fun _ => True :=
    Returns.ite (fun _ => hf.returns_evaluate scale _) fun _ => Returns.pure trivial
  exact Returns.bind hbase fun _ _ => Returns.pure hscale

/-- A point at which the constraints hold is not repaired. -/
theorem infinityNorm_scaled_of_feasible {scale : Scale ℝ e q n} (hs : scale.Positive)
    (hfeasible : ∀ i, (slackResiduals entry.cost.constraints entry.parameters).get i = 0) :
    infinityNorm (slackResiduals (scale.scaleCost entry.cost).constraints
      (scale.scaleParameters entry.parameters)) = 0 := by
  refine infinityNorm_eq_zero fun i => ?_
  rw [Scale.slackResiduals_scaleCost hs, get_divEach, Scale.unscale_scale hs, hfeasible, zero_div]

/-- So the way into an inner solve from such a point returns. -/
theorem returns_prepare_of_feasible (hf : f.Total n (e + q)) (ht : 0 < settings.tolerance)
    (hmultipliers : e + q = 0 ∨ entry.multipliers.length = e + q)
    (hfeasible : ∀ i, (slackResiduals entry.cost.constraints entry.parameters).get i = 0) :
    Returns (Journal.Fits (1 + (e + q))) (prepare K f settings problem entry) fun way =>
      Scale.compute problem.mode entry.cost.objective (front entry.cost.constraints).toList
        entry.parameters settings.tolerance = .ok way.scale := by
  refine returns_prepare hf ht hmultipliers (D := fun _ _ => True)
    (fun _ _ => Ensures.any _) fun scale l hs _ _ hlarge => ?_
  rw [infinityNorm_scaled_of_feasible hs hfeasible] at hlarge
  exact absurd ht hlarge.not_gt

/-- An inner solve returns if the way into it and the descent do. -/
theorem returns_solve {Q : Preparation ℝ ℝ e q n → Prop}
    (hprepare : Returns J (prepare K f settings problem entry) Q)
    (hreport : ∀ event, Returns J (report event) fun _ => True)
    (hdescend : ∀ way, Q way → Returns J
      (descend (way.landscape K f settings problem) settings.minorLimit way.start) fun _ => True) :
    Returns J (solve K f settings problem entry) fun _ => True := by
  have hrun : Returns J (run K f settings problem entry) fun _ => True :=
    Returns.bind hprepare fun way hway =>
      Returns.bind (hdescend way hway) fun _ _ => Returns.pure trivial
  exact Returns.bind hrun fun _ _ => Returns.bind (hreport _) fun _ _ => Returns.pure trivial

/-- An inner solve without constraints and bounds returns: there is nothing to repair, and
the first Newton trial is accepted. -/
theorem returns_solve_unconstrained (hfree : e + q = 0) (hf : f.Total n (e + q))
    (ht : 0 < settings.tolerance) (hdelta : 0 < settings.delta) (hlimit : 0 < K.trialLimit)
    (hbounds : ∀ p, problem.bounds.strictlyInside p = true) :
    Returns (Journal.Fits (1 + (e + q))) (solve K f settings problem entry) fun _ => True := by
  refine returns_solve (returns_prepare_of_feasible hf ht (.inl hfree) fun i => ?_) Returns.report
    fun way hway => ?_
  · exact absurd i.pos hfree.not_gt
  · have hs := Scale.compute_positive ht hway
    refine returns_descend (I := fun _ => True) (fun s _ => ?_) (fun s _ => Ensures.any _) _ _
      trivial
    refine returns_minorStep (fun p => ?_) hdelta.ne' fun curvature gradient _ => ?_
    · exact Returns.bind (hf.returns_evaluate way.scale p) fun _ _ => Returns.pure trivial
    · refine NewtonStep.exists_compute hlimit (hfree ▸ Nat.zero_le _) fun u _ _ => ?_
      exact (Bounds.strictlyInside_divide_iff hs.parameters).mpr (hbounds _)

end Subproblem

end Sqp
