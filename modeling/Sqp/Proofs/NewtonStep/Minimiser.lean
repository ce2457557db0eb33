import Sqp.Proofs.Linear.Standard
import Sqp.Proofs.NewtonStep

/-!
# Newton steps minimise their model

With exact kernels an accepted trial ends the one step that minimises the damped model over
the null space of the Jacobian.

- `NewtonStep.Model.damped`, `NewtonStep.Model.value`: the matrix of the damped model, and
  its value at a step.
- `NewtonStep.Model.SolvedBy`: what a step and its multipliers must satisfy to solve the
  model. It follows from the two equations alone (`NewtonStep.Model.solvedBy_of_stationary`).
- `NewtonStep.damping`: the damping that an accepted trial was computed with, which is not the
  one to go on with.
- `NewtonStep.compute_solves`: whatever is computed solves the model for this damping.
-/

namespace Sqp.NewtonStep

open Matrix

variable {m n : Nat} {K : Kernels ℝ} {model : Model ℝ m n} {p : Vector ℝ n} {bounds : Bounds ℝ n}

/-! ## The damped model -/

namespace Model

/-- The curvature with `c` times the squared trust scale on its diagonal. -/
def damped (model : Model ℝ m n) (c : ℝ) : Matrix (Fin n) (Fin n) ℝ :=
  model.curvature.toMatrix + c • diagonal fun i => model.trust.get i ^ 2

/-- The damped model at the step `v`. -/
noncomputable def value (model : Model ℝ m n) (c : ℝ) (v : Vector ℝ n) : ℝ :=
  model.gradient.get ⬝ᵥ v.get + 0.5 * (v.get ⬝ᵥ (model.damped c *ᵥ v.get))

/-- The step `u` with the multipliers `y` solves the model damped by `c`. -/
structure SolvedBy (model : Model ℝ m n) (c : ℝ) (u : Vector ℝ n) (y : Vector ℝ m) : Prop where
  stationary : model.damped c *ᵥ u.get = model.jacobian.toMatrixᵀ *ᵥ y.get - model.gradient.get
  feasible : model.jacobian.toMatrix *ᵥ u.get = 0
  /-- Every other step in the null space of the Jacobian has a larger value. -/
  least : ∀ v, model.jacobian.toMatrix *ᵥ v.get = 0 → v ≠ u → model.value c u < model.value c v
  descends : model.gradient.get ⬝ᵥ u.get ≤ 0
  level_iff : model.gradient.get ⬝ᵥ u.get = 0 ↔ u = zeros ℝ n

theorem toMatrix_dampedMatrix (model : Model ℝ m n) (c : ℝ) :
    (dampedMatrix model c).toMatrix = model.damped c := by
  have hsquares : (mulEach model.trust model.trust).get = fun i => model.trust.get i ^ 2 :=
    funext fun i => by rw [get_mulEach, pow_two]
  rw [dampedMatrix, Mat.toMatrix_add, Mat.toMatrix_mapEntries_mul, Mat.toMatrix_diagonal,
    hsquares, damped]

variable {c : ℝ} {u v : Vector ℝ n} {y : Vector ℝ m}

/-- The value at `v` seen from `u`: a slope along their difference and a square. -/
theorem value_eq (hsymm : (model.damped c).IsSymm) (u v : Vector ℝ n) :
    model.value c v = model.value c u +
      (model.gradient.get + model.damped c *ᵥ u.get) ⬝ᵥ (v.get - u.get) +
      0.5 * ((v.get - u.get) ⬝ᵥ (model.damped c *ᵥ (v.get - u.get))) := by
  have hcross : u.get ⬝ᵥ (model.damped c *ᵥ v.get) = (model.damped c *ᵥ u.get) ⬝ᵥ v.get := by
    rw [dotProduct_mulVec, ← mulVec_transpose, hsymm.eq]
  simp only [value, mulVec_sub, dotProduct_sub, sub_dotProduct, add_dotProduct, hcross,
    dotProduct_comm v.get (model.damped c *ᵥ u.get),
    dotProduct_comm u.get (model.damped c *ᵥ u.get)]
  ring

/-- The gradient of a stationary step has no slope along the null space of the Jacobian. -/
theorem slope_eq_zero
    (hstationary : model.damped c *ᵥ u.get =
      model.jacobian.toMatrixᵀ *ᵥ y.get - model.gradient.get)
    {d : Fin n → ℝ} (hd : model.jacobian.toMatrix *ᵥ d = 0) :
    (model.gradient.get + model.damped c *ᵥ u.get) ⬝ᵥ d = 0 := by
  rw [hstationary, add_sub_cancel, mulVec_transpose, ← dotProduct_mulVec, hd, dotProduct_zero]

/-- A stationary step in the null space of the Jacobian solves a model that is curved
upwards. -/
theorem solvedBy_of_stationary (hdamped : (model.damped c).PosDef)
    (hstationary : model.damped c *ᵥ u.get =
      model.jacobian.toMatrixᵀ *ᵥ y.get - model.gradient.get)
    (hfeasible : model.jacobian.toMatrix *ᵥ u.get = 0) : model.SolvedBy c u y := by
  have hsymm : (model.damped c).IsSymm := by simpa using hdamped.isHermitian
  have hpos : ∀ d : Fin n → ℝ, d ≠ 0 → 0 < d ⬝ᵥ (model.damped c *ᵥ d) := fun d hd => by
    simpa using hdamped.dotProduct_mulVec_pos hd
  -- along the step itself, the slope is what the curvature takes off
  have hslope : model.gradient.get ⬝ᵥ u.get = -(u.get ⬝ᵥ (model.damped c *ᵥ u.get)) := by
    have hzero := slope_eq_zero hstationary hfeasible
    rw [add_dotProduct, dotProduct_comm (model.damped c *ᵥ u.get)] at hzero
    exact eq_neg_of_add_eq_zero_left hzero
  have hzero : u.get = 0 ↔ u = zeros ℝ n :=
    ⟨fun h => vector_ext fun i => by rw [h, get_zeros]; rfl, fun h => h ▸ get_zeros_eq⟩
  refine ⟨hstationary, hfeasible, fun v hv hne => ?_, ?_, ?_⟩
  · have hd : v.get - u.get ≠ 0 := fun h =>
      hne (vector_ext fun i => congrFun (sub_eq_zero.mp h) i)
    have hnull : model.jacobian.toMatrix *ᵥ (v.get - u.get) = 0 := by
      rw [mulVec_sub, hv, hfeasible, sub_zero]
    rw [value_eq hsymm u v, slope_eq_zero hstationary hnull]
    linarith [hpos _ hd]
  · rw [hslope, neg_nonpos]
    by_cases hu : u.get = 0
    · rw [hu, zero_dotProduct]
    · exact (hpos _ hu).le
  · rw [hslope, neg_eq_zero, ← hzero]
    refine ⟨fun h => ?_, fun h => by rw [h, zero_dotProduct]⟩
    by_contra hu
    exact (hpos _ hu).ne' h

end Model

/-! ## Directions -/

/-- A direction is stationary: the two triangular factors multiply to the damped matrix. -/
theorem mulVec_damped_direction (hK : K.Exact) (hcurvature : model.curvature.toMatrix.PosDef)
    {c : ℝ} (hc : 0 ≤ c) {u : Vector ℝ n} {y : Vector ℝ m}
    (h : direction K model c = .ok (u, y)) :
    model.damped c *ᵥ u.get = model.jacobian.toMatrixᵀ *ᵥ y.get - model.gradient.get := by
  have hdamped := dampedMatrix_posDef hcurvature hc
  have hpart := Cholesky.toMatrix_symmetricPart hdamped.isHermitian
  have hsymm : (Cholesky.symmetricPart (dampedMatrix model c)).toMatrix.PosDef := by rwa [hpart]
  rw [← Model.toMatrix_dampedMatrix, ← hpart, ← hK.cholesky_mul hsymm, ← mulVec_mulVec,
    mulVec_transpose_direction hK hdamped h, mulVec_sub, hK.mulVec_solveLower hsymm,
    mulVec_mulVec, mul_toMatrix_substituted hK hsymm]

/-- With exact kernels a direction solves the damped model. -/
theorem direction_solves (hK : K.Exact) (hcurvature : model.curvature.toMatrix.PosDef)
    (hjacobian : LinearIndependent ℝ model.jacobian.toMatrix.row) {c : ℝ} (hc : 0 ≤ c)
    {u : Vector ℝ n} {y : Vector ℝ m} (h : direction K model c = .ok (u, y)) :
    model.SolvedBy c u y := by
  refine Model.solvedBy_of_stationary ?_ (mulVec_damped_direction hK hcurvature hc h)
    (mulVec_direction hK hcurvature hjacobian hc h)
  rw [← Model.toMatrix_dampedMatrix]
  exact dampedMatrix_posDef hcurvature hc

/-! ## Accepted trials -/

/-- The damping that an accepted trial was computed with: with bounds, the damping to go on
with is three times as large. -/
noncomputable def damping (step : NewtonStep ℝ ℝ m n) (bounds : Bounds ℝ n) : ℝ :=
  if bounds.free then step.mu else step.mu / 3.0

/-- An accepted trial point ends the step that minimises the model, damped as it was for this
trial, over the null space of the Jacobian. -/
theorem compute_solves (hK : K.Exact) (hcurvature : model.curvature.toMatrix.PosDef)
    (hjacobian : LinearIndependent ℝ model.jacobian.toMatrix.row) {mu : ℝ} (hmu : 0 < mu)
    {step : NewtonStep ℝ ℝ m n} (h : compute K model p bounds mu = .ok step) :
    ∃ u, step.parameters = p + u ∧ step.damping bounds = 3 ^ (step.trials - 1) * mu ∧
      direction K model (step.damping bounds) = .ok (u, step.multipliers) ∧
      model.SolvedBy (step.damping bounds) u step.multipliers := by
  obtain ⟨k, u, hdirection, hpoint, -, hmu', htrials⟩ := damp_spec _ _ _ _ h
  have hdamping : step.damping bounds = 3 ^ k * mu := by
    rw [damping, hmu']
    split_ifs
    · rfl
    · rw [show (3.0 : ℝ) = 3 by norm_num, pow_succ]
      ring
  refine ⟨u, hpoint, ?_, ?_, ?_⟩
  · rw [hdamping, htrials, Nat.zero_add, Nat.add_sub_cancel]
  · rw [hdamping]
    exact hdirection
  · rw [hdamping]
    exact direction_solves hK hcurvature hjacobian (by positivity) hdirection

/-- A slope along the first of two variables, whose sum is to stay as it is. -/
noncomputable def slantModel : Model ℝ 1 2 where
  curvature := Mat.identity ℝ 2
  gradient := Vector.ofFn fun i => if i.val = 0 then 1 else 0
  jacobian := Mat.ofFn fun _ _ => 1
  trust := Vector.replicate 2 1

theorem slantModel_row_independent : LinearIndependent ℝ slantModel.jacobian.toMatrix.row := by
  refine row_independent_of_entry (j := 0) ?_
  rw [slantModel, Mat.toMatrix_ofFn]
  exact one_ne_zero

theorem damped_slantModel : slantModel.damped 1 = (2 : ℝ) • 1 := by
  have htrust : (fun i => slantModel.trust.get i ^ 2) = fun _ => (1 : ℝ) := by
    funext i
    fin_cases i <;> exact one_pow 2
  rw [Model.damped, htrust, diagonal_one, one_smul, slantModel, Mat.toMatrix_identity, two_smul]

/-- The only solution of the model damped by one. -/
theorem slantModel_step {u : Vector ℝ 2} {y : Vector ℝ 1} (h : slantModel.SolvedBy 1 u y) :
    u.get 0 = -1 / 4 := by
  have hgradient : slantModel.gradient.get = ![1, 0] := by
    funext i
    rw [slantModel, get_ofFn]
    fin_cases i <;> rfl
  have hjacobian : slantModel.jacobian.toMatrix = Matrix.of fun _ _ => 1 := Mat.toMatrix_ofFn _
  have hfirst : 2 * u.get 0 = y.get 0 - 1 := by
    simpa [damped_slantModel, smul_mulVec, hjacobian, hgradient, mulVec_eq_sum]
      using congrFun h.stationary 0
  have hsecond : 2 * u.get 1 = y.get 0 := by
    simpa [damped_slantModel, smul_mulVec, hjacobian, hgradient, mulVec_eq_sum]
      using congrFun h.stationary 1
  have hsum : u.get 0 + u.get 1 = 0 := by
    simpa [hjacobian, mulVec_eq_sum] using congrFun h.feasible 0
  linarith

/-- The first variable is kept between minus one and one. -/
noncomputable def slantBounds : Bounds ℝ 2 :=
  Vector.ofFn fun i => if i.val = 0 then some ⟨-1, 1⟩ else none

theorem compute_solves_slant :
    slantModel.curvature.toMatrix.PosDef ∧
      LinearIndependent ℝ slantModel.jacobian.toMatrix.row ∧
      ∃ step u, compute Kernels.standard slantModel (zeros ℝ 2) slantBounds 1 = .ok step ∧
        step.parameters = zeros ℝ 2 + u ∧
        step.damping slantBounds = 3 ^ (step.trials - 1) * 1 ∧
        direction Kernels.standard slantModel (step.damping slantBounds) =
          .ok (u, step.multipliers) ∧
        slantModel.SolvedBy (step.damping slantBounds) u step.multipliers := by
  have hcurvature : slantModel.curvature.toMatrix.PosDef := Mat.identity_posDef 2
  -- the first trial already has the minimiser strictly between the bounds
  have hinside : ∀ u y, direction Kernels.standard slantModel (1 : ℝ) = .ok (u, y) →
      slantBounds.strictlyInside (zeros ℝ 2 + u) = true := by
    intro u y h
    have hu := slantModel_step (direction_solves Kernels.standard_exact hcurvature
      slantModel_row_independent zero_le_one h)
    rw [Bounds.strictlyInside_iff]
    intro i b hb
    fin_cases i <;> cases hb
    rw [get_add, get_zeros]
    show (-1 : ℝ) < 0 + u.get 0 ∧ 0 + u.get 0 < 1
    rw [hu]
    norm_num
  obtain ⟨step, hstep⟩ := exists_compute (K := Kernels.standard) (p := zeros ℝ 2)
    (Nat.succ_pos _) (by decide) hinside
  obtain ⟨u, hu⟩ := compute_solves Kernels.standard_exact hcurvature slantModel_row_independent
    one_pos hstep
  exact ⟨hcurvature, slantModel_row_independent, step, u, hstep, hu⟩

end Sqp.NewtonStep
