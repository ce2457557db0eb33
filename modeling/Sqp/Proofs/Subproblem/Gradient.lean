import Sqp.Proofs.Subproblem.Returns

/-!
# The gradient of the first minor iteration

Where the constraints hold well enough, the first minor iteration does not difference the
merit function: it reuses the gradient of the objective, which the Jacobian gave for free.

- `AugmentedLagrangian.residual_self`, `Differences.residual_shifted`: the deviation of the
  constraints from their linearisation vanishes at the point of entry, and at every point
  from which the linearisation was differenced.
- `AugmentedLagrangian.value_of_residual_eq_zero`: where it vanishes, the merit is the
  objective.
- `Subproblem.gradientAt_start_eq_meritGradient`: so the reused gradient is the one that
  would be computed.
-/

namespace Sqp

open Matrix

variable {e q n : Nat}

/-! ## Linearised constraints at the differenced points -/

/-- A shift of a decision variable leaves the slacks alone. -/
theorem get_slackResiduals_nudge (c : Vector ℝ (e + q)) (p : Vector ℝ (q + n)) (j : Fin n) (h : ℝ)
    (i : Fin (e + q)) :
    (slackResiduals c (nudge p (j.natAdd q) h)).get i = (slackResiduals c p).get i := by
  refine Fin.addCases (fun k => ?_) (fun k => ?_) i
  · rw [Scale.get_slackResiduals_castAdd, Scale.get_slackResiduals_castAdd]
  · rw [Scale.get_slackResiduals_natAdd, Scale.get_slackResiduals_natAdd, get_nudge,
      if_neg (by simp [Fin.ext_iff]; omega), add_zero]

/-- At one point, residuals differ as the constraint values do. -/
theorem get_slackResiduals_sub (c d : Vector ℝ (e + q)) (p : Vector ℝ (q + n)) (i : Fin (e + q)) :
    (slackResiduals c p).get i - (slackResiduals d p).get i = c.get i - d.get i := by
  refine Fin.addCases (fun k => ?_) (fun k => ?_) i
  · rw [Scale.get_slackResiduals_castAdd, Scale.get_slackResiduals_castAdd]
  · rw [Scale.get_slackResiduals_natAdd, Scale.get_slackResiduals_natAdd]
    ring

namespace AugmentedLagrangian

variable {l : AugmentedLagrangian ℝ e q n} {p : Vector ℝ (q + n)} {cost : Cost ℝ (e + q)}

/-- The linearisation is exact where it is made. -/
theorem residual_self (h : l.offset = l.jacobian.mulVec p - slackResiduals cost.constraints p) :
    l.residual cost p = zeros ℝ (e + q) :=
  vector_ext fun i => by
    rw [residual, h, get_add, get_sub, get_sub, get_zeros]
    ring

/-- Where no residual is left, the augmented Lagrangian is the objective. -/
theorem value_of_residual_eq_zero (h : l.residual cost p = zeros ℝ (e + q)) :
    l.value cost p = cost.objective := by
  have hdot : ∀ x : Vector ℝ (e + q), dot x (zeros ℝ (e + q)) = 0 := fun x => by
    rw [dot_eq_dotProduct, get_zeros_eq, dotProduct_zero]
  unfold value
  split_ifs
  · rfl
  · simp only [h, hdot]
    ring

end AugmentedLagrangian

/-- The linearisation is exact at the points from which it was differenced, for the very
same step. -/
theorem Differences.residual_shifted {cost : Cost ℝ (e + q)} {delta : ℝ}
    {shifted : Fin n → Cost ℝ (e + q)} {gradient : Vector ℝ (q + n)}
    {l : AugmentedLagrangian ℝ e q n} {p : Vector ℝ (q + n)}
    (h : Differences cost delta shifted gradient l.jacobian) (hdelta : delta ≠ 0)
    (hoffset : l.offset = l.jacobian.mulVec p - slackResiduals cost.constraints p) (k : Fin n) :
    l.residual (shifted k) (nudge p (k.natAdd q) delta) = zeros ℝ (e + q) :=
  vector_ext fun i => by
    have hsub := get_slackResiduals_sub (shifted k).constraints cost.constraints p i
    have hcolumn : delta * l.jacobian.entry i (k.natAdd q) =
        (shifted k).constraints.get i - cost.constraints.get i := by
      rw [h.jacobian_decision, mul_div_cancel₀ _ hdelta]
    rw [AugmentedLagrangian.residual, hoffset, get_add, get_sub, get_sub, get_slackResiduals_nudge,
      Mat.get_mulVec_nudge, hcolumn, get_zeros]
    linarith

/-! ## Inner solves without restoration -/

namespace Subproblem

variable {K : Kernels ℝ} {f : CostFunction ℝ} {settings : Settings ℝ} {problem : Problem ℝ e q n}
  {entry : InnerStart ℝ ℝ e q n}

/-- The merit at a scaled point where the cost function is known to give an answer. -/
theorem returns_meritAt {way : Preparation ℝ ℝ e q n} {p : Vector ℝ (q + n)}
    {user : Cost ℝ (e + q)} (hf : f (way.scale.userPoint p).toList = .ok user.toList) :
    Returns (Journal.Fits (1 + (e + q))) ((way.landscape K f settings problem).meritAt p)
      (· = way.lagrangian.value (way.scale.scaleCost user) p) := by
  refine Returns.bind (Returns.scaleEvaluate hf) ?_
  rintro _ rfl
  exact Returns.pure rfl

/-- A Jacobian that was differenced at some decision variable leaves a journal that fits
cost vectors of its length. -/
theorem fits_of_constraintJacobian (hn : 0 < n) {scale : Scale ℝ e q n} {p : Vector ℝ (q + n)}
    {cost : Cost ℝ (e + q)} {delta : ℝ} {j j' : Journal ℝ}
    {r : Vector ℝ (q + n) × Mat ℝ (e + q) (q + n)}
    (h : outcome (constraintJacobian (scale.evaluate f) p cost delta) j = (.ok r, j')) :
    j'.Fits (1 + (e + q)) := by
  obtain ⟨slopes, j₁, hslopes, h⟩ := outcome_bind_eq_ok_iff.mp h
  cases h
  refine fits_of_tabulateM hn (fun i j a j' h => ?_) hslopes
  obtain ⟨c, j₁, hc, h⟩ := outcome_bind_eq_ok_iff.mp h
  cases h
  obtain ⟨user, j₂, huser, h⟩ := outcome_bind_eq_ok_iff.mp hc
  cases h
  exact fits_of_evaluateSized huser

/-- The way into an inner solve whose constraints hold well enough at the point of
entry: the Jacobian is differenced there, and nothing moves. -/
theorem outcome_prepare_of_small (hpos : e + q ≠ 0) {j j' : Journal ℝ} {way : Preparation ℝ ℝ e q n}
    (h : outcome (prepare K f settings problem entry) j = (.ok way, j'))
    (hsmall : infinityNorm (slackResiduals (way.scale.scaleCost entry.cost).constraints
      (way.scale.scaleParameters entry.parameters)) < settings.tolerance) :
    way.start.stale = false ∧
    way.start.point = way.scale.scaleParameters entry.parameters ∧
    outcome (constraintJacobian (way.scale.evaluate f) way.start.point
      (way.scale.scaleCost entry.cost) settings.delta) j =
        (.ok (way.start.gradient, way.lagrangian.jacobian), j') ∧
    way.lagrangian.offset = way.lagrangian.jacobian.mulVec way.start.point -
      slackResiduals (way.scale.scaleCost entry.cost).constraints way.start.point ∧
    way.start.merit = way.lagrangian.value (way.scale.scaleCost entry.cost) way.start.point := by
  obtain ⟨scale, _, hscale, hrest⟩ := outcome_bind_eq_ok_iff.mp h
  rw [outcome_recorded] at hscale
  obtain ⟨-, rfl⟩ := Prod.mk.inj hscale
  obtain ⟨multipliers, _, hmultipliers, hrest⟩ := outcome_bind_eq_ok_iff.mp hrest
  rw [outcome_recorded] at hmultipliers
  obtain ⟨-, rfl⟩ := Prod.mk.inj hmultipliers
  obtain ⟨l, _, hl, hrest⟩ := outcome_bind_eq_ok_iff.mp hrest
  obtain ⟨base, _, hbase, hrest⟩ := outcome_bind_eq_ok_iff.mp hrest
  cases hrest
  -- what is left of the way in is the linearisation, in the case without repair
  dsimp only at hsmall
  rw [linearise, if_neg hpos] at hl
  obtain ⟨⟨gradient, jacobian⟩, _, hjacobian, hl⟩ := outcome_bind_eq_ok_iff.mp hl
  simp only [load_real] at hl
  rw [if_neg (not_le.mpr hsmall)] at hl
  cases hl
  cases hbase
  exact ⟨rfl, rfl, hjacobian, rfl, rfl⟩

/-- Let the way into an inner solve with constraints end without restoration, since the
scaled residuals are small. Then the first minor iteration takes the gradient of the
objective that the Jacobian came with, without a call of the cost function; the merit is
built from that Jacobian and is the scaled objective at the point of entry; and to
difference the merit there with the same step succeeds and gives the same gradient. -/
theorem gradientAt_start_eq_meritGradient (hpos : 0 < e + q) (hdelta : 0 < settings.delta)
    {j j' : Journal ℝ} {way : Preparation ℝ ℝ e q n}
    (h : outcome (prepare K f settings problem entry) j = (.ok way, j'))
    (hsmall : infinityNorm (slackResiduals (way.scale.scaleCost entry.cost).constraints
      (way.scale.scaleParameters entry.parameters)) < settings.tolerance) :
    way.start.point = way.scale.scaleParameters entry.parameters ∧
    outcome (constraintJacobian (way.scale.evaluate f) way.start.point
      (way.scale.scaleCost entry.cost) settings.delta) j =
        (.ok (way.start.gradient, way.lagrangian.jacobian), j') ∧
    way.lagrangian.offset = way.lagrangian.jacobian.mulVec way.start.point -
      slackResiduals (way.scale.scaleCost entry.cost).constraints way.start.point ∧
    way.start.merit = (way.scale.scaleCost entry.cost).objective ∧
    outcome ((way.landscape K f settings problem).gradientAt way.start) j' =
      (.ok way.start.gradient, j') ∧
    ∃ j'', outcome (meritGradient (way.landscape K f settings problem).meritAt way.start.point
      way.start.merit settings.delta) j' = (.ok way.start.gradient, j'') := by
  obtain ⟨hstale, hpoint, hjacobian, hoffset, hmerit⟩ := outcome_prepare_of_small hpos.ne' h hsmall
  have hself : way.start.merit = (way.scale.scaleCost entry.cost).objective :=
    hmerit.trans (AugmentedLagrangian.value_of_residual_eq_zero
      (AugmentedLagrangian.residual_self hoffset))
  refine ⟨hpoint, hjacobian, hoffset, hself, ?_, ?_⟩
  · rw [Landscape.gradientAt, if_neg (by rw [hstale]; simp)]
    rfl
  · -- the cost vectors at the shifted points are those of the differences
    obtain ⟨shifted, hshifted, hdifferences⟩ := (confined_constraintJacobian fun i =>
      Confined.scaleEvaluate (P := fun _ => True) (fun _ _ => rfl) trivial).of_outcome hjacobian
    -- the affine term is exact at the shifted points too, so the merit is the objective there
    have hvalue : ∀ k : Fin n, Returns (fun j : Journal ℝ => 0 < n → j.Fits (1 + (e + q)))
        ((way.landscape K f settings problem).meritAt
          (nudge way.start.point (k.natAdd q) settings.delta)) (· = (shifted k).objective) := by
      intro k j hj
      obtain ⟨user, huser, hscaled⟩ := hshifted k
      obtain ⟨a, j', ha, hj', rfl⟩ := returns_meritAt huser j (hj k.pos)
      refine ⟨_, j', ha, fun _ => hj', ?_⟩
      rw [← hscaled]
      exact AugmentedLagrangian.value_of_residual_eq_zero
        (hdifferences.residual_shifted hdelta.ne' hoffset k)
    obtain ⟨gradient, j'', hgradient, -, hslack, hdecision⟩ :=
      returns_meritGradient way.start.merit hdelta.ne' hvalue j' fun hn =>
        fits_of_constraintJacobian hn hjacobian
    have hsame : gradient = way.start.gradient := by
      refine vector_ext fun i => ?_
      refine Fin.addCases (fun k => ?_) (fun k => ?_) i
      · rw [hslack, hdifferences.gradient_slack]
      · obtain ⟨_, rfl, hk⟩ := hdecision k
        rw [hk, hdifferences.gradient_decision, hself]
    exact ⟨j'', hsame ▸ hgradient⟩

/-- The objective `x`, the equality value `x² - 1` and the inequality value `3 x²`. -/
noncomputable def squares : CostFunction ℝ
  | [x] => .ok [x, x * x - 1, 3.0 * (x * x)]
  | _ => .error .incompatible

theorem squares_total : squares.Total 1 (1 + 1) := by
  intro x
  refine ⟨⟨x.get 0, #v[x.get 0 * x.get 0 - 1, 3.0 * (x.get 0 * x.get 0)]⟩, ?_⟩
  rw [toList_eq_ofFn]
  rfl

/-- The point `x = 1` with the slack `3`, where the constraints hold. -/
noncomputable def squaresEntry : InnerStart ℝ ℝ 1 1 1 where
  parameters := #v[3.0, 1]
  multipliers := [2.0, -1]
  cost := ⟨1, #v[0, 3.0]⟩
  curvature := Mat.identity ℝ 2
  mu := 1
  rho := 1

/-- The inequality value is bounded by `0` and `9`. -/
noncomputable def squaresProblem : Problem ℝ 1 1 1 :=
  ⟨squaresEntry.parameters, #v[some ⟨0, 9.0⟩, none], .slackBounded⟩

noncomputable def squaresSettings : Settings ℝ := ⟨800, 0.5, 0.01⟩

/-- Curved constraints that hold at the start: the gradient of the merit is the one that came with
the Jacobian. -/
theorem gradientAt_start_squares :
    ∃ (way : Preparation ℝ ℝ 1 1 1) (j' j'' : Journal ℝ),
      outcome (prepare Kernels.standard squares squaresSettings squaresProblem squaresEntry) {} =
        (.ok way, j') ∧
      outcome (meritGradient
        (way.landscape Kernels.standard squares squaresSettings squaresProblem).meritAt
        way.start.point way.start.merit squaresSettings.delta) j' =
          (.ok way.start.gradient, j'') := by
  have ht : 0 < squaresSettings.tolerance := by norm_num [squaresSettings]
  have hdelta : 0 < squaresSettings.delta := by norm_num [squaresSettings]
  have hfeasible : ∀ i,
      (slackResiduals squaresEntry.cost.constraints squaresEntry.parameters).get i = 0 := by
    refine Fin.addCases (fun k => ?_) fun k => ?_
    · rw [Scale.get_slackResiduals_castAdd, Fin.fin_one_eq_zero k]
      rfl
    · rw [Scale.get_slackResiduals_natAdd, Fin.fin_one_eq_zero k]
      exact sub_self (3.0 : ℝ)
  obtain ⟨way, j', h, -, hscale⟩ : ∃ way j', outcome (prepare Kernels.standard squares
      squaresSettings squaresProblem squaresEntry) {} = (.ok way, j') ∧ _ ∧ _ :=
    returns_prepare_of_feasible squares_total ht (.inr rfl) hfeasible {} Journal.fits_empty
  have hsmall : infinityNorm (slackResiduals (way.scale.scaleCost squaresEntry.cost).constraints
      (way.scale.scaleParameters squaresEntry.parameters)) < squaresSettings.tolerance := by
    rwa [infinityNorm_scaled_of_feasible (Scale.compute_positive ht hscale) hfeasible]
  obtain ⟨-, -, -, -, -, j'', hgradient⟩ :=
    gradientAt_start_eq_meritGradient Nat.two_pos hdelta h hsmall
  exact ⟨way, j', j'', h, hgradient⟩

end Subproblem

end Sqp
