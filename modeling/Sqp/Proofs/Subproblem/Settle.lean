import Sqp.Proofs.Linear.Standard
import Sqp.Proofs.Subproblem.Affine

/-!
# Inner solves with affine constraints

- `Subproblem.AffineEntry`: what is asked of an inner solve whose constraints are affine.
- `Subproblem.AffineEntry.ensures_run`: its last point has residuals on the ray of those at
  entry.
- `Subproblem.solve_affine`: so an inner solve multiplies the residuals by a number, which
  says how far restoration went.
- `Subproblem.AffineEntry.returns_solve_unbounded`: without bounds, and with the kernels of
  this library, an inner solve does return.
- `Subproblem.AffineEntry.returns_solve_determined`: so does one from a feasible point that
  its constraints determine, and it stays there.
-/

namespace Sqp.Subproblem

open Matrix

variable {e q n : Nat}

/-- An inner solve with exact kernels, positive step and tolerance, and affine constraints
whose Jacobian has independent rows, from a point strictly inside the bounds that comes
with its own cost vector, a positive definite curvature and a positive damping. -/
structure AffineEntry (K : Kernels ℝ) (f : CostFunction ℝ) (settings : Settings ℝ)
    (problem : Problem ℝ e q n) (entry : InnerStart ℝ ℝ e q n) (a : Mat ℝ (e + q) n)
    (b : Vector ℝ (e + q)) : Prop where
  kernels : K.Exact
  constraints : AffineConstraints f a b
  rank : LinearIndependent ℝ (slackJacobian a).row
  tolerance : 0 < settings.tolerance
  delta : 0 < settings.delta
  cost : f (back entry.parameters).toList = .ok entry.cost.toList
  inside : problem.bounds.strictlyInside entry.parameters = true
  curvature : entry.curvature.toMatrix.PosDef
  mu : 0 < entry.mu

/-- A preparation whose Jacobian is the scaled one of the constraints. -/
abbrev AffineWay (K : Kernels ℝ) (f : CostFunction ℝ) (settings : Settings ℝ)
    (problem : Problem ℝ e q n) (entry : InnerStart ℝ ℝ e q n) (a : Mat ℝ (e + q) n)
    (way : Preparation ℝ ℝ e q n) (l : Linearisation ℝ e q n) : Prop :=
  Prepares K settings problem entry
    (fun scale _ jacobian => jacobian.toMatrix = scale.scaleJacobian (slackJacobian a))
    (Answered f) way l

namespace AffineEntry

variable {K : Kernels ℝ} {f : CostFunction ℝ} {settings : Settings ℝ} {problem : Problem ℝ e q n}
  {entry : InnerStart ℝ ℝ e q n} {a : Mat ℝ (e + q) n} {b : Vector ℝ (e + q)}
  {way : Preparation ℝ ℝ e q n} {l : Linearisation ℝ e q n}

/-! ## The way in -/

theorem ensures_jacobian (h : AffineEntry K f settings problem entry a b) {scale : Scale ℝ e q n}
    (hs : scale.Positive) :
    Ensures (constraintJacobian (scale.evaluate f) (scale.scaleParameters entry.parameters)
      (scale.scaleCost entry.cost) settings.delta)
      fun r => r.2.toMatrix = scale.scaleJacobian (slackJacobian a) := by
  refine (confined_constraintJacobian fun i =>
    Confined.scaleEvaluate (fun _ _ => rfl) trivial).mono ?_
  rintro ⟨gradient, jacobian⟩ ⟨shifted, hshifted, hdifferences⟩
  exact h.constraints.toMatrix_jacobian hs h.cost h.delta.ne' hshifted hdifferences

/-- The way into a descent with affine constraints has a linearisation that is exact. -/
theorem ensures_prepare (h : AffineEntry K f settings problem entry a b) :
    Ensures (prepare K f settings problem entry) fun way =>
      ∃ l, AffineWay K f settings problem entry a way l :=
  confined_prepare
    (fun _ hscale _ => h.ensures_jacobian (Scale.compute_positive h.tolerance hscale))
    fun scale _ _ _ => ensures_answered f scale _

theorem toMatrix_jacobian (hway : AffineWay K f settings problem entry a way l) :
    way.lagrangian.jacobian.toMatrix = way.scale.scaleJacobian (slackJacobian a) := by
  rw [hway.jacobian, hway.linearised.jacobian_of]

/-- Scaling by positive factors keeps rows independent. -/
theorem row_independent (h : AffineEntry K f settings problem entry a b)
    (hway : AffineWay K f settings problem entry a way l) :
    LinearIndependent ℝ way.lagrangian.jacobian.toMatrix.row := by
  rw [toMatrix_jacobian hway]
  exact Scale.scaleJacobian_row_independent (Scale.compute_positive h.tolerance hway.scale) h.rank

/-- What the descent keeps holds where it starts. -/
theorem start_level (h : AffineEntry K f settings problem entry a b)
    (hway : AffineWay K f settings problem entry a way l) :
    Level f way.scale way.lagrangian.jacobian
      (way.lagrangian.jacobian.toMatrix *ᵥ l.point.get) way.start := by
  have hs := Scale.compute_positive h.tolerance hway.scale
  refine ⟨by rw [hway.point], ?_, ?_, by rw [hway.mu]; exact h.mu⟩
  · rw [hway.point]
    by_cases hstale : l.stale = true
    · exact hway.cost hstale
    · refine ⟨entry.cost, ?_⟩
      rw [hway.linearised.point_eq hstale, Scale.userPoint_eq, Scale.unscale_scale hs, h.cost]
  · rw [hway.curvature]
    exact Scale.scaleCurvature_posDef hs.objective hs.parameters h.curvature

/-! ## The descent -/

/-- A minor iteration keeps the level of the constraints, since its direction leaves them alone.
-/
theorem ensures_minorStep (h : AffineEntry K f settings problem entry a b)
    (hway : AffineWay K f settings problem entry a way l) {w : Fin (e + q) → ℝ}
    {s : Iterate ℝ ℝ e q n} (hs : Level f way.scale way.lagrangian.jacobian w s) :
    Ensures (minorStep (way.landscape K f settings problem) s)
      (Level f way.scale way.lagrangian.jacobian w) :=
  ensures_minorStep_level (g := way.landscape K f settings problem) h.kernels
    (h.row_independent hway) rfl hs

/-- The last point has residuals on the ray of those at entry. -/
theorem ensures_run (h : AffineEntry K f settings problem entry a b) :
    Ensures (run K f settings problem entry) fun d => ∃ (t : ℝ) (cost : Cost ℝ (e + q)),
      Scale.compute problem.mode entry.cost.objective (front entry.cost.constraints).toList
        entry.parameters settings.tolerance = .ok d.scale ∧
      f (back (d.scale.unscaleParameters d.last.point)).toList = .ok cost.toList ∧
      slackResiduals cost.constraints (d.scale.unscaleParameters d.last.point) =
        scaled t (slackResiduals entry.cost.constraints entry.parameters) ∧
      ShrinkFactor settings.tolerance
        (infinityNorm (slackResiduals (d.scale.scaleCost entry.cost).constraints
          (d.scale.scaleParameters entry.parameters)))
        problem.mode (Warning.restorationIncomplete ∈ d.notes) t := by
  refine Confined.bind h.ensures_prepare fun way hway => ?_
  obtain ⟨l, hway⟩ := hway
  have hs := Scale.compute_positive h.tolerance hway.scale
  have hindependent := Scale.scaleJacobian_row_independent hs h.rank
  obtain ⟨t, hray, hshrink⟩ := hway.linearised.on_ray h.kernels h.tolerance
    ((Scale.strictlyInside_scaleBounds_iff hs).mpr h.inside) fun _ _ hj => hj ▸ hindependent
  have hstart := h.start_level hway
  refine Confined.bind (confined_descend
    (fun s hs => h.ensures_minorStep hway hs) settings.minorLimit way.start hstart)
    fun course hcourse => Confined.pure ?_
  -- the descent ends on the level on which it started
  have hlast : Level f way.scale way.lagrangian.jacobian
      (way.lagrangian.jacobian.toMatrix *ᵥ l.point.get)
      (Descent.last ⟨way.scale, way.notes, way.start, course⟩) :=
    Descent.last_of_forall hstart hcourse
  obtain ⟨cost, hanswer⟩ := hlast.answered
  rw [Scale.userPoint_eq] at hanswer
  refine ⟨t, cost, hway.scale, hanswer, ?_, hway.notes ▸ hshrink⟩
  refine h.constraints.slackResiduals_of_ray hs h.cost hanswer ?_
  rw [← toMatrix_jacobian hway, hlast.constraints, hway.jacobian]
  exact hray

/-! ## Inner solves that return -/

/-- An inner solve returns if the way into it does and the Newton steps on the way do. -/
theorem returns_solve (h : AffineEntry K f settings problem entry a b) (hf : f.Total n (e + q))
    (hprepare : Returns (Journal.Fits (1 + (e + q))) (prepare K f settings problem entry)
      fun _ => True)
    (hnewton : ∀ way l, AffineWay K f settings problem entry a way l →
      ∀ s, Level f way.scale way.lagrangian.jacobian
        (way.lagrangian.jacobian.toMatrix *ᵥ l.point.get) s →
      ∀ curvature gradient, curvature.toMatrix.PosDef → ∃ t,
        NewtonStep.compute K ⟨curvature, gradient, way.lagrangian.jacobian,
          trustScale s.point (way.scale.scaleBounds problem.bounds) problem.mode⟩ s.point
          (way.scale.scaleBounds problem.bounds) (s.mu / 10) = .ok t) :
    Returns (Journal.Fits (1 + (e + q))) (solve K f settings problem entry) fun _ => True := by
  refine Subproblem.returns_solve (hprepare.and_ensures h.ensures_prepare) Returns.report
    fun way hway => ?_
  obtain ⟨-, l, hway⟩ := hway
  refine returns_descend (I := Level f way.scale way.lagrangian.jacobian
    (way.lagrangian.jacobian.toMatrix *ᵥ l.point.get)) (fun s hs => ?_)
    (fun s hs => h.ensures_minorStep hway hs) settings.minorLimit way.start (h.start_level hway)
  refine returns_minorStep (fun p => ?_) h.delta.ne' fun curvature gradient hcurvature =>
    hnewton way l hway s hs curvature gradient (curvature_posDef hs.curvature hcurvature)
  exact Returns.bind (hf.returns_evaluate way.scale p) fun _ _ => Returns.pure trivial

/-- Without bounds, a violation is projected away and every Newton trial is accepted. -/
theorem returns_solve_unbounded (h : AffineEntry Kernels.standard f settings problem entry a b)
    (hf : f.Total n (e + q)) (hmode : problem.mode = .unbounded)
    (hfree : ∀ p, problem.bounds.strictlyInside p = true)
    (hmultipliers : e + q = 0 ∨ entry.multipliers.length = e + q) :
    Returns (Journal.Fits (1 + (e + q))) (solve Kernels.standard f settings problem entry)
      fun _ => True := by
  refine h.returns_solve hf ?_ fun way l hway s hs curvature gradient _ => ?_
  · refine (returns_prepare hf h.tolerance hmultipliers
      (D := fun scale jacobian => jacobian.toMatrix = scale.scaleJacobian (slackJacobian a))
      (fun _ hs => h.ensures_jacobian hs) fun scale l hs hjacobian _ _ => ?_).mono
      fun _ _ => trivial
    have hrow : LinearIndependent ℝ l.jacobian.toMatrix.row :=
      hjacobian ▸ Scale.scaleJacobian_row_independent hs h.rank
    rw [hmode]
    refine Returns.bind (Returns.recorded ?_) fun _ _ => Returns.pure trivial
    obtain ⟨point, hpoint, -⟩ := exists_nearestPoint Kernels.standard_orthogonalises hrow l.point _
    exact ⟨point, hpoint⟩
  · refine NewtonStep.exists_compute (Nat.succ_pos _) (le_of_row_independent h.rank) fun u _ _ => ?_
    have hs := Scale.compute_positive h.tolerance hway.scale
    exact (Bounds.strictlyInside_divide_iff hs.parameters).mpr (hfree _)

/-- A feasible point that the constraints determine is where an inner solve stays. -/
theorem returns_solve_determined (h : AffineEntry K f settings problem entry a b)
    (hf : f.Total n (e + q)) (hlimit : 0 < K.trialLimit)
    (hdetermined : LinearIndependent ℝ (slackJacobian a).col)
    (hfeasible : ∀ i, (slackResiduals entry.cost.constraints entry.parameters).get i = 0)
    (hmultipliers : e + q = 0 ∨ entry.multipliers.length = e + q) :
    Returns (Journal.Fits (1 + (e + q))) (solve K f settings problem entry)
      fun r => r.parameters = entry.parameters := by
  have hreturns : Returns (Journal.Fits (1 + (e + q))) (solve K f settings problem entry)
      fun _ => True := by
    refine h.returns_solve hf ((returns_prepare_of_feasible hf h.tolerance hmultipliers
      hfeasible).mono fun _ _ => trivial) fun way l hway s hs curvature gradient hcurvature => ?_
    have hpositive := Scale.compute_positive h.tolerance hway.scale
    have hcol : LinearIndependent ℝ way.lagrangian.jacobian.toMatrix.col := by
      rw [toMatrix_jacobian hway]
      exact Scale.scaleJacobian_col_independent hpositive hdetermined
    -- the level of the start has no other point
    have hpoint : s.point = way.scale.scaleParameters entry.parameters := by
      rw [← hway.linearised.point_eq_of_small (by
        rw [infinityNorm_scaled_of_feasible hpositive hfeasible]; exact h.tolerance)]
      exact eq_of_mulVec_eq hcol hs.constraints
    refine NewtonStep.exists_compute_of_determined h.kernels hlimit ?_ ?_ ?_ ?_ ?_
    · exact hcurvature
    · exact h.row_independent hway
    · exact hcol
    · linarith [hs.mu]
    · rw [hpoint]
      exact (Scale.strictlyInside_scaleBounds_iff hpositive).mpr h.inside
  have hstays : Ensures (solve K f settings problem entry)
      fun r => r.parameters = entry.parameters := by
    refine Confined.bind h.ensures_run fun d hd => Confined.bind (Confined.report _) fun _ _ =>
      Confined.pure (eq_of_mulVec_eq hdetermined ?_)
    obtain ⟨t, cost, -, hanswer, hresiduals, -⟩ := hd
    funext i
    have hend := congrFun (h.constraints.slackResiduals_eq hanswer) i
    have hstart := congrFun (h.constraints.slackResiduals_eq h.cost) i
    rw [hresiduals, get_scaled, hfeasible, mul_zero] at hend
    rw [hfeasible] at hstart
    exact add_right_cancel (hend.symm.trans hstart)
  exact (hreturns.and_ensures hstays).mono fun _ hr => hr.2

end AffineEntry

/-! ## What an inner solve settles -/

variable {K : Kernels ℝ} {f : CostFunction ℝ} {settings : Settings ℝ} {problem : Problem ℝ e q n}
  {entry : InnerStart ℝ ℝ e q n} {a : Mat ℝ (e + q) n} {b : Vector ℝ (e + q)}

/-- An inner solve with exact kernels settles affine constraints whose Jacobian has
independent rows: if it returns, the cost function gives an answer at the returned
parameters, and the residuals there are those at entry times a number that is promised
to be small. -/
theorem solve_affine (h : AffineEntry K f settings problem entry a b) {j j' : Journal ℝ}
    {r : InnerResult ℝ ℝ q n} (hrun : outcome (solve K f settings problem entry) j = (.ok r, j')) :
    ∃ (scale : Scale ℝ e q n) (t : ℝ) (cost : Cost ℝ (e + q)),
      Scale.compute problem.mode entry.cost.objective (front entry.cost.constraints).toList
        entry.parameters settings.tolerance = .ok scale ∧
      f (back r.parameters).toList = .ok cost.toList ∧
      slackResiduals cost.constraints r.parameters =
        scaled t (slackResiduals entry.cost.constraints entry.parameters) ∧
      ShrinkFactor settings.tolerance
        (infinityNorm (slackResiduals (scale.scaleCost entry.cost).constraints
          (scale.scaleParameters entry.parameters)))
        problem.mode (Warning.restorationIncomplete.code ∈ r.warnings) t := by
  obtain ⟨d, _, hd, hrun⟩ := outcome_bind_eq_ok_iff.mp hrun
  obtain ⟨t, cost, hscale, hanswer, hresiduals, hshrink⟩ := h.ensures_run.of_outcome hd
  obtain ⟨_, _, -, hrun⟩ := outcome_bind_eq_ok_iff.mp hrun
  cases hrun
  exact ⟨d.scale, t, cost, hscale, hanswer, hresiduals, hshrink.mono fun hnote =>
    List.mem_map_of_mem (List.mem_append_left _ hnote)⟩

/-- The objective `x²` on the line `x + y = 2`. -/
noncomputable def lineCost : CostFunction ℝ :=
  affineCost (fun x : Vector ℝ 2 => x.get 0 * x.get 0) #v[#v[1, 1]] #v[-2.0]

noncomputable def lineProblem : Problem ℝ 1 0 2 := ⟨#v[1, 0], Vector.replicate 2 none, .unbounded⟩

/-- The point `(1, 0)`, which is not on the line. -/
noncomputable def lineEntry : InnerStart ℝ ℝ 1 0 2 where
  parameters := #v[1, 0]
  multipliers := [0]
  cost := ⟨1, #v[-1]⟩
  curvature := Mat.identity ℝ 2
  mu := 2.0
  rho := 1

noncomputable def lineSettings : Settings ℝ := ⟨800, 0.1, 0.01⟩

theorem lineProblem_strictlyInside (p : Vector ℝ (0 + 2)) :
    lineProblem.bounds.strictlyInside p = true := by
  refine (Bounds.strictlyInside_iff _ _).mpr fun i interval hi => ?_
  rw [lineProblem, get_replicate] at hi
  cases hi

theorem line_affineEntry : AffineEntry Kernels.standard lineCost lineSettings lineProblem lineEntry
    #v[#v[1, 1]] #v[-2.0] where
  kernels := Kernels.standard_exact
  constraints := affineCost_affineConstraints _ _ _
  rank := by
    refine row_independent_iff.mpr fun y hy => funext fun i => ?_
    have hcolumn := congrFun hy (Fin.natAdd 0 0)
    rw [mulVec_eq_sum, Fin.sum_univ_one, transpose_apply, slackJacobian_natAdd] at hcolumn
    rw [Fin.fin_one_eq_zero i]
    exact (one_mul _).symm.trans hcolumn
  tolerance := by norm_num [lineSettings]
  delta := by norm_num [lineSettings]
  cost := by
    refine affineCost_eq_ok (one_mul 1) (vector_ext fun i => ?_)
    rw [get_add, Mat.get_mulVec, dot_eq_dotProduct, dotProduct_eq_sum, Fin.sum_univ_two,
      Fin.fin_one_eq_zero i]
    show (1 : ℝ) * 1 + 1 * 0 + -2.0 = -1
    norm_num
  inside := lineProblem_strictlyInside _
  curvature := Mat.identity_posDef 2
  mu := by norm_num [lineEntry]

/-- An inner solve that returns with the residual that its factor says. -/
theorem solve_affine_line :
    ∃ (r : InnerResult ℝ ℝ 0 2) (j' : Journal ℝ) (scale : Scale ℝ 1 0 2) (t : ℝ)
      (cost : Cost ℝ (1 + 0)),
      outcome (solve Kernels.standard lineCost lineSettings lineProblem lineEntry) {} =
        (.ok r, j') ∧
      Scale.compute lineProblem.mode lineEntry.cost.objective
        (front lineEntry.cost.constraints).toList lineEntry.parameters lineSettings.tolerance =
          .ok scale ∧
      lineCost (back r.parameters).toList = .ok cost.toList ∧
      slackResiduals cost.constraints r.parameters =
        scaled t (slackResiduals lineEntry.cost.constraints lineEntry.parameters) ∧
      ShrinkFactor lineSettings.tolerance
        (infinityNorm (slackResiduals (scale.scaleCost lineEntry.cost).constraints
          (scale.scaleParameters lineEntry.parameters)))
        lineProblem.mode (Warning.restorationIncomplete.code ∈ r.warnings) t := by
  obtain ⟨r, j', hrun, -, -⟩ := line_affineEntry.returns_solve_unbounded (affineCost_total _ _ _)
    rfl lineProblem_strictlyInside (.inr rfl) {} Journal.fits_empty
  obtain ⟨scale, t, cost, hsettled⟩ := solve_affine line_affineEntry hrun
  exact ⟨r, j', scale, t, cost, hrun, hsettled⟩

end Sqp.Subproblem
