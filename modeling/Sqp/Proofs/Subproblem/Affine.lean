import Sqp.Proofs.Restoration.Ray
import Sqp.Proofs.Subproblem.Returns

/-!
# Affine constraints in a descent

- `AffineConstraints`: the constraint values of a cost function are `a x + b`, as those of
  `affineCost`; then `slackJacobian a` is the Jacobian of the slack residuals.
- `AffineConstraints.slackResiduals_eq`: the slack residuals are affine as well.
- `AffineConstraints.toMatrix_jacobian`: forward differences give the scaled Jacobian
  exactly, whatever their step.
- `Subproblem.Linearises.on_ray`: the point at which a descent starts has residuals on the
  ray of those at entry.
- `Subproblem.region_level`: the points with given linearised constraints form a region for
  the descent.
- `Subproblem.Level`: a point of such a region with a positive definite curvature, which
  minor iterations keep (`Subproblem.ensures_minorStep_level`).
-/

namespace Sqp

open Matrix

variable {e q n : Nat}

/-! ## Affine constraints -/

/-- Wherever the cost function gives an answer, its constraint values are `a x + b`. -/
def AffineConstraints {m : Nat} (f : CostFunction ℝ) (a : Mat ℝ m n) (b : Vector ℝ m) : Prop :=
  ∀ (x : Vector ℝ n) (cost : Cost ℝ m), f x.toList = .ok cost.toList →
    cost.constraints = a.mulVec x + b

/-- The cost function with a given objective and constraint values `a x + b`. -/
noncomputable def affineCost {m : Nat} (objective : Vector ℝ n → ℝ) (a : Mat ℝ m n)
    (b : Vector ℝ m) : CostFunction ℝ := fun x =>
  if h : x.length = n then
    let v := (ofList x).cast h
    .ok (Cost.mk (objective v) (a.mulVec v + b)).toList
  else .error .incompatible

theorem affineCost_toList {m : Nat} (objective : Vector ℝ n → ℝ) (a : Mat ℝ m n) (b : Vector ℝ m)
    (x : Vector ℝ n) :
    affineCost objective a b x.toList = .ok (Cost.mk (objective x) (a.mulVec x + b)).toList := by
  have hcast : (ofList x.toList).cast (by simp) = x := toList_injective (by simp [ofList])
  rw [affineCost, dif_pos (by simp), hcast]

theorem affineCost_eq_ok {m : Nat} {objective : Vector ℝ n → ℝ} {a : Mat ℝ m n} {b : Vector ℝ m}
    {x : Vector ℝ n} {cost : Cost ℝ m} (hobjective : objective x = cost.objective)
    (hconstraints : a.mulVec x + b = cost.constraints) :
    affineCost objective a b x.toList = .ok cost.toList := by
  rw [affineCost_toList, hobjective, hconstraints]

theorem affineCost_affineConstraints {m : Nat} (objective : Vector ℝ n → ℝ) (a : Mat ℝ m n)
    (b : Vector ℝ m) : AffineConstraints (affineCost objective a b) a b := by
  intro x cost h
  rw [affineCost_toList, Except.ok.injEq] at h
  rw [← Cost.toList_injective h]

theorem affineCost_total {m : Nat} (objective : Vector ℝ n → ℝ) (a : Mat ℝ m n) (b : Vector ℝ m) :
    (affineCost objective a b).Total n m :=
  fun x => ⟨_, affineCost_toList objective a b x⟩

/-- The Jacobian of equality values and of inequality values minus slacks, in slacks and
decision variables. -/
def slackJacobian (a : Mat ℝ (e + q) n) : Matrix (Fin (e + q)) (Fin (q + n)) ℝ :=
  Matrix.of fun i => Fin.addCases (fun k : Fin q => if i = k.natAdd e then -1 else 0) (a.entry i)

theorem slackJacobian_castAdd (a : Mat ℝ (e + q) n) (i : Fin (e + q)) (k : Fin q) :
    slackJacobian a i (k.castAdd n) = if i = k.natAdd e then -1 else 0 := by
  rw [slackJacobian, Matrix.of_apply, Fin.addCases_left]

theorem slackJacobian_natAdd (a : Mat ℝ (e + q) n) (i : Fin (e + q)) (k : Fin n) :
    slackJacobian a i (k.natAdd q) = a.entry i k := by
  rw [slackJacobian, Matrix.of_apply, Fin.addCases_right]

/-- The Jacobian takes slacks off the inequality values. -/
theorem slackJacobian_mulVec (a : Mat ℝ (e + q) n) (b : Vector ℝ (e + q)) (p : Vector ℝ (q + n)) :
    slackJacobian a *ᵥ p.get + b.get = (slackResiduals (a.mulVec (back p) + b) p).get := by
  funext i
  -- slacks and decision variables are summed apart
  have hproduct : (slackJacobian a *ᵥ p.get) i =
      (∑ k : Fin q, (if i = k.natAdd e then -1 else 0) * p.get (k.castAdd n)) +
        (a.mulVec (back p)).get i := by
    rw [Mat.get_mulVec_eq]
    simp only [mulVec, dotProduct, Fin.sum_univ_add, slackJacobian_castAdd, slackJacobian_natAdd,
      get_back, Mat.toMatrix_apply]
  rw [Pi.add_apply, hproduct]
  refine Fin.addCases (fun l => ?_) (fun l => ?_) i
  · have hne : ∀ k : Fin q, l.castAdd q ≠ k.natAdd e := fun k h => by
      have := congrArg Fin.val h
      simp at this
      omega
    rw [Scale.get_slackResiduals_castAdd, get_add]
    simp [hne]
  · rw [Scale.get_slackResiduals_natAdd, get_add]
    simp
    ring

/-! ## Scaled Jacobians -/

namespace Scale

/-- The Jacobian of scaled constraints in scaled parameters. -/
noncomputable def scaleJacobian (s : Scale ℝ e q n) (a : Matrix (Fin (e + q)) (Fin (q + n)) ℝ) :
    Matrix (Fin (e + q)) (Fin (q + n)) ℝ :=
  diagonal (fun i => (s.constraints.get i)⁻¹) * a * diagonal s.parameters.get

variable {s : Scale ℝ e q n} {a : Matrix (Fin (e + q)) (Fin (q + n)) ℝ}

/-- Scaling keeps rows independent. -/
theorem scaleJacobian_row_independent (hs : s.Positive) (ha : LinearIndependent ℝ a.row) :
    LinearIndependent ℝ (s.scaleJacobian a).row := by
  refine row_independent_iff.mpr fun y hy => ?_
  rw [scaleJacobian, transpose_mul, transpose_mul, diagonal_transpose, diagonal_transpose,
    ← mulVec_mulVec, ← mulVec_mulVec] at hy
  have hzero := row_independent_iff.mp ha _ (funext fun i => by
    have hi := congrFun hy i
    rw [mulVec_diagonal] at hi
    exact (mul_eq_zero.mp hi).resolve_left (hs.parameters i).ne')
  funext i
  have hi := congrFun hzero i
  rw [mulVec_diagonal] at hi
  exact (mul_eq_zero.mp hi).resolve_left (inv_ne_zero (hs.constraints i).ne')

/-- Scaling keeps columns independent. -/
theorem scaleJacobian_col_independent (hs : s.Positive) (ha : LinearIndependent ℝ a.col) :
    LinearIndependent ℝ (s.scaleJacobian a).col := by
  refine col_independent_iff.mpr fun x hx => ?_
  rw [scaleJacobian, ← mulVec_mulVec, ← mulVec_mulVec] at hx
  have hzero := col_independent_iff.mp ha _ (funext fun i => by
    have hi := congrFun hx i
    rw [mulVec_diagonal] at hi
    exact (mul_eq_zero.mp hi).resolve_left (inv_ne_zero (hs.constraints i).ne'))
  funext i
  have hi := congrFun hzero i
  rw [mulVec_diagonal] at hi
  exact (mul_eq_zero.mp hi).resolve_left (hs.parameters i).ne'

/-- A scaled Jacobian applied to a scaled point. -/
theorem scaleJacobian_mulVec (s : Scale ℝ e q n) (a : Matrix (Fin (e + q)) (Fin (q + n)) ℝ)
    (p : Vector ℝ (q + n)) (i : Fin (e + q)) :
    (s.scaleJacobian a *ᵥ p.get) i =
      (s.constraints.get i)⁻¹ * (a *ᵥ (s.unscaleParameters p).get) i := by
  have hpoint : diagonal s.parameters.get *ᵥ p.get = (s.unscaleParameters p).get := by
    funext j
    rw [mulVec_diagonal, unscaleParameters, get_mulEach, mul_comm]
  rw [scaleJacobian, ← mulVec_mulVec, ← mulVec_mulVec, hpoint, mulVec_diagonal]

end Scale

namespace AffineConstraints

variable {f : CostFunction ℝ} {a : Mat ℝ (e + q) n} {b : Vector ℝ (e + q)}

/-- Residuals of affine constraints are affine in slacks and decision variables together. -/
theorem slackResiduals_eq (hf : AffineConstraints f a b) {p : Vector ℝ (q + n)}
    {cost : Cost ℝ (e + q)} (hcost : f (back p).toList = .ok cost.toList) :
    (slackResiduals cost.constraints p).get = slackJacobian a *ᵥ p.get + b.get := by
  rw [hf _ cost hcost, slackJacobian_mulVec]

/-- Forward differences of affine constraints are exact. -/
theorem toMatrix_jacobian (hf : AffineConstraints f a b) {scale : Scale ℝ e q n}
    (hs : scale.Positive) {p : Vector ℝ (q + n)} {cost : Cost ℝ (e + q)}
    (hcost : f (back p).toList = .ok cost.toList) {delta : ℝ} (hdelta : delta ≠ 0)
    {shifted : Fin n → Cost ℝ (e + q)}
    (hshifted : ∀ k, ∃ user : Cost ℝ (e + q),
      f (scale.userPoint (nudge (scale.scaleParameters p) (k.natAdd q) delta)).toList =
        .ok user.toList ∧ shifted k = scale.scaleCost user)
    {gradient : Vector ℝ (q + n)} {jacobian : Mat ℝ (e + q) (q + n)}
    (h : Differences (scale.scaleCost cost) delta shifted gradient jacobian) :
    jacobian.toMatrix = scale.scaleJacobian (slackJacobian a) := by
  ext i j
  rw [Scale.scaleJacobian, mul_diagonal, diagonal_mul, Mat.toMatrix_apply]
  refine Fin.addCases (fun k => ?_) (fun k => ?_) j
  · rw [h.jacobian_slack, slackJacobian_castAdd]
    split_ifs with hi
    · -- an inequality constraint has the factor of its slack
      rw [hi, Scale.get_constraints_natAdd, mul_neg_one, neg_mul,
        inv_mul_cancel₀ (hs.parameters _).ne']
    · ring
  · -- a difference of affine values is the step times the slope
    obtain ⟨user, huser, hk⟩ := hshifted k
    have hentry := hf _ cost hcost
    have hmoved := hf _ user huser
    rw [Scale.userPoint_nudge, Scale.unscale_scale hs] at hmoved
    have hdifference : user.constraints.get i - cost.constraints.get i =
        delta * scale.parameters.get (k.natAdd q) * a.entry i k := by
      rw [hmoved, hentry, get_add, get_add, Mat.get_mulVec_nudge]
      ring
    rw [h.jacobian_decision, slackJacobian_natAdd, hk, Scale.scaleCost, Scale.scaleCost,
      get_divEach, get_divEach, ← sub_div, hdifference]
    field_simp

/-- Residuals on the ray of the scaled ones are so in user units. -/
theorem slackResiduals_of_ray (hf : AffineConstraints f a b) {scale : Scale ℝ e q n}
    (hs : scale.Positive) {p₀ p : Vector ℝ (q + n)} {cost₀ cost : Cost ℝ (e + q)}
    (hcost₀ : f (back p₀).toList = .ok cost₀.toList)
    (hcost : f (back (scale.unscaleParameters p)).toList = .ok cost.toList) {t : ℝ}
    (hray : scale.scaleJacobian (slackJacobian a) *ᵥ p.get -
        scale.scaleJacobian (slackJacobian a) *ᵥ (scale.scaleParameters p₀).get =
      (t - 1) • (slackResiduals (scale.scaleCost cost₀).constraints
        (scale.scaleParameters p₀)).get) :
    slackResiduals cost.constraints (scale.unscaleParameters p) =
      scaled t (slackResiduals cost₀.constraints p₀) := by
  refine vector_ext fun i => ?_
  have hi := congrFun hray i
  rw [Scale.slackResiduals_scaleCost hs, Scale.unscale_scale hs, Pi.sub_apply,
    Scale.scaleJacobian_mulVec, Scale.scaleJacobian_mulVec, Scale.unscale_scale hs, Pi.smul_apply,
    get_divEach, smul_eq_mul, ← mul_sub, div_eq_inv_mul, mul_left_comm] at hi
  have hcancel := mul_left_cancel₀ (inv_ne_zero (hs.constraints i).ne') hi
  have hstart := congrFun (hf.slackResiduals_eq hcost₀) i
  have hend := congrFun (hf.slackResiduals_eq hcost) i
  rw [Pi.add_apply] at hstart hend
  rw [get_scaled, hend]
  linarith

end AffineConstraints

/-! ## Where a descent starts -/

/-- What is promised of the number by which an inner solve multiplies the residuals. Small
residuals are left alone; without bounds they are removed; with bounds they become
shorter, by the tolerance at least unless restoration is reported incomplete. -/
structure ShrinkFactor (tolerance norm : ℝ) (mode : BoundMode) (incomplete : Prop) (t : ℝ) :
    Prop where
  kept : norm < tolerance → t = 1
  projected : tolerance ≤ norm → mode = .unbounded → t = 0
  restored : tolerance ≤ norm → mode ≠ .unbounded → 0 ≤ t ∧ t ≤ 1 ∧ (¬ incomplete → t < tolerance)

/-- A weaker reason to count as incomplete allows the same factors. -/
theorem ShrinkFactor.mono {tolerance norm t : ℝ} {mode : BoundMode} {incomplete incomplete' : Prop}
    (h : ShrinkFactor tolerance norm mode incomplete t) (himp : incomplete → incomplete') :
    ShrinkFactor tolerance norm mode incomplete' t where
  kept := h.kept
  projected := h.projected
  restored hlarge hmode :=
    let ⟨h₀, h₁, hlt⟩ := h.restored hlarge hmode
    ⟨h₀, h₁, fun hnot => hlt (mt himp hnot)⟩

namespace Subproblem

/-- The point at which a descent starts has residuals on the ray of those at entry. -/
theorem Linearises.on_ray {K : Kernels ℝ} (hK : K.Exact) {mode : BoundMode}
    {bounds : Bounds ℝ (q + n)} {tolerance : ℝ} (ht : 0 < tolerance) {p : Vector ℝ (q + n)}
    (hp : bounds.strictlyInside p = true) {cost : Cost ℝ (e + q)}
    {D : Vector ℝ (q + n) → Mat ℝ (e + q) (q + n) → Prop}
    (hD : ∀ gradient jacobian, D gradient jacobian → LinearIndependent ℝ jacobian.toMatrix.row)
    {l : Linearisation ℝ e q n} (h : Linearises K mode bounds tolerance p cost D l) :
    ∃ t, l.jacobian.toMatrix *ᵥ l.point.get - l.jacobian.toMatrix *ᵥ p.get =
        (t - 1) • (slackResiduals cost.constraints p).get ∧
      ShrinkFactor tolerance (infinityNorm (slackResiduals cost.constraints p)) mode
        (Warning.restorationIncomplete ∈ l.notes) t := by
  have hone : ∀ norm incomplete, norm < tolerance → ShrinkFactor tolerance norm mode incomplete 1 :=
    fun norm incomplete hsmall =>
      ⟨fun _ => rfl, fun h => absurd hsmall h.not_gt, fun h => absurd hsmall h.not_gt⟩
  cases h with
  | unconstrained hzero =>
    refine ⟨1, by simp, hone _ _ ?_⟩
    rwa [infinityNorm_eq_zero fun i => absurd i.pos hzero.not_gt]
  | kept _ _ hsmall => exact ⟨1, by simp, hone _ _ hsmall⟩
  | projected _ hjacobian hlarge hmode hpoint =>
    -- the projection takes the whole violation away
    refine ⟨0, ?_, fun h => absurd hlarge h.not_ge, fun _ _ => rfl, fun _ h => absurd hmode h⟩
    rw [mulVec_projectOntoConstraints hK (hD _ _ hjacobian) hpoint]
    simp
  | restored _ hjacobian hlarge hmode hrestore hnotes =>
    obtain ⟨t, hray, hcomplete⟩ := Restoration.restore_ray hK (hD _ _ hjacobian) ht hp hrestore
    refine ⟨t, hray.ray, fun h => absurd hlarge h.not_ge, fun _ h => absurd h hmode, fun _ _ => ?_⟩
    refine ⟨hray.nonneg, hray.le_one, fun hnote => hcomplete ?_⟩
    by_contra hincomplete
    exact hnote (hnotes (by simpa using hincomplete))

/-- Small residuals are not repaired. -/
theorem Linearises.point_eq_of_small {K : Kernels ℝ} {mode : BoundMode} {bounds : Bounds ℝ (q + n)}
    {tolerance : ℝ} {p : Vector ℝ (q + n)} {cost : Cost ℝ (e + q)}
    {D : Vector ℝ (q + n) → Mat ℝ (e + q) (q + n) → Prop} {l : Linearisation ℝ e q n}
    (h : Linearises K mode bounds tolerance p cost D l)
    (hsmall : infinityNorm (slackResiduals cost.constraints p) < tolerance) : l.point = p := by
  cases h with
  | unconstrained | kept => rfl
  | projected _ _ hlarge | restored _ _ hlarge => exact absurd hlarge hsmall.not_ge

/-- The Jacobian of a linearisation is a differenced one, if there are constraints. -/
theorem Linearises.jacobian_of {K : Kernels ℝ} {mode : BoundMode} {bounds : Bounds ℝ (q + n)}
    {tolerance : ℝ} {p : Vector ℝ (q + n)} {cost : Cost ℝ (e + q)}
    {a : Matrix (Fin (e + q)) (Fin (q + n)) ℝ} {l : Linearisation ℝ e q n}
    (h : Linearises K mode bounds tolerance p cost (fun _ jacobian => jacobian.toMatrix = a) l) :
    l.jacobian.toMatrix = a := by
  cases h with
  | unconstrained hzero =>
    ext i
    exact absurd i.pos hzero.not_gt
  | kept _ hjacobian | projected _ hjacobian | restored _ hjacobian => exact hjacobian

/-! ## The descent -/

/-- The cost function gives an answer at a scaled point. -/
def Answered (f : CostFunction ℝ) (scale : Scale ℝ e q n) (p : Vector ℝ (q + n)) : Prop :=
  ∃ user : Cost ℝ (e + q), f (scale.userPoint p).toList = .ok user.toList

variable {K : Kernels ℝ} {f : CostFunction ℝ} {settings : Settings ℝ} {problem : Problem ℝ e q n}
  {entry : InnerStart ℝ ℝ e q n}

theorem ensures_answered (f : CostFunction ℝ) (scale : Scale ℝ e q n) (p : Vector ℝ (q + n)) :
    Ensures (scale.evaluate f p) fun _ => Answered f scale p :=
  (Confined.scaleEvaluate (fun _ _ => rfl) trivial).mono fun _ ⟨user, huser, _⟩ => ⟨user, huser⟩

/-- The points with given linearised constraints form a region for the descent. -/
theorem region_level {g : Landscape ℝ ℝ e q n} {scale : Scale ℝ e q n}
    (hcostAt : g.costAt = scale.evaluate f) (w : Fin (e + q) → ℝ) :
    Region (fun _ => True) g (scale.evaluate f)
      (fun p => g.lagrangian.jacobian.toMatrix *ᵥ p.get = w) (Answered f scale) where
  convex p v c hp hv _ _ := by
    have halong : (LineSearch.along p v c).get = (1 - c) • p.get + c • v.get :=
      funext (LineSearch.get_along p v c)
    rw [halong, mulVec_add, mulVec_smul, mulVec_smul, hp, hv, ← add_smul, sub_add_cancel, one_smul]
  cost p _ := hcostAt ▸ ensures_answered f scale p
  shifted p i _ := hcostAt ▸ (ensures_answered f scale _).mono fun _ _ => trivial

/-- What a descent with exact kernels keeps: the linearised constraints, an answer of the
cost function, a positive definite curvature and a positive damping. -/
structure Level (f : CostFunction ℝ) (scale : Scale ℝ e q n) (jacobian : Mat ℝ (e + q) (q + n))
    (w : Fin (e + q) → ℝ) (s : Iterate ℝ ℝ e q n) : Prop where
  constraints : jacobian.toMatrix *ᵥ s.point.get = w
  answered : Answered f scale s.point
  curvature : s.curvature.toMatrix.PosDef
  mu : 0 < s.mu

/-- A minor iteration does not change the linearised constraints. -/
theorem ensures_minorStep_level {g : Landscape ℝ ℝ e q n} (hK : g.kernels.Exact)
    (hjacobian : LinearIndependent ℝ g.lagrangian.jacobian.toMatrix.row) {scale : Scale ℝ e q n}
    (hcostAt : g.costAt = scale.evaluate f) {w : Fin (e + q) → ℝ} {s : Iterate ℝ ℝ e q n}
    (hs : Level f scale g.lagrangian.jacobian w s) :
    Ensures (minorStep g s) (Level f scale g.lagrangian.jacobian w) := by
  refine (confined_minorStep (region_level hcostAt w) hs.constraints hs.answered
    fun curvature gradient t hcurvature ht => ?_).ensures.mono fun s' hs' => ?_
  · have hmu : 0 ≤ s.mu / 10 := by linarith [hs.mu]
    have hnull := NewtonStep.mulVec_compute ht hK (curvature_posDef hs.curvature hcurvature)
      hjacobian hmu
    exact hnull.trans hs.constraints
  · obtain ⟨hconstraints, hanswered, hmove⟩ := hs'
    obtain ⟨gradient, t, a, ht, hmu, -, -, -⟩ := hmove.point
    refine ⟨hconstraints, hanswered, curvature_posDef hs.curvature hmove.curvature, ?_⟩
    rw [hmu]
    exact NewtonStep.compute_mu_pos (by linarith [hs.mu]) ht

end Subproblem

end Sqp
