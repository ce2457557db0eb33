import Sqp.Proofs.Bounds
import Sqp.Proofs.Curvature
import Sqp.Proofs.Journal
import Sqp.Proofs.Linear.Exact
import Sqp.Proofs.Shapes
import Sqp.NewtonStep

/-!
# Accepted Newton trials

- `NewtonStep.damp_spec`: an accepted trial is the end of the direction for some
  power of three times the first damping, and it lies strictly inside the bounds; with
  bounds the damping returned is the next such multiple.
- `NewtonStep.compute_strictlyInside`, `NewtonStep.compute_mu_pos`: what is used of it
  whatever the kernels return.
- `NewtonStep.mulVec_compute`: with exact kernels a trial leaves the linearised
  constraints as they are.
- `NewtonStep.exists_compute`: the first trial is accepted if it ends inside the bounds;
  this is so where the constraints determine the point
  (`NewtonStep.exists_compute_of_determined`).
- `NewtonStep.compute_withCholesky`: a step depends on the factorisation of the damped
  matrices only.
-/

namespace Sqp

/-- The same kernels with another factorisation. -/
def Kernels.withCholesky (K : Kernels ℝ) (c : {k : Nat} → Mat ℝ k k → Mat ℝ k k) : Kernels ℝ :=
  { K with cholesky := c }

namespace NewtonStep

open Matrix

variable {m n : Nat} {K : Kernels ℝ} {model : Model ℝ m n} {p : Vector ℝ n} {bounds : Bounds ℝ n}

theorem damp_spec :
    ∀ (fuel : Nat) (mu : ℝ) (trials : Nat) (step : NewtonStep ℝ ℝ m n),
      damp K model p bounds fuel mu trials = .ok step →
        ∃ k u, direction K model (3 ^ k * mu) = .ok (u, step.multipliers) ∧
          step.parameters = p + u ∧ bounds.strictlyInside step.parameters = true ∧
          step.mu = (if bounds.free then 3 ^ k * mu else 3 ^ (k + 1) * mu) ∧
          step.trials = trials + k + 1 := by
  intro fuel
  induction fuel with
  | zero =>
    intro mu trials step h
    cases h
  | succ fuel ih =>
    intro mu trials step h
    rw [damp] at h
    obtain ⟨⟨u, y⟩, hdir, h⟩ := except_bind_eq_ok_iff.mp h
    simp only [store_real] at hdir h
    split_ifs at h with haccept hfree
    · -- accepted without bounds: the damping is the one used
      cases h
      rw [Bool.and_eq_true] at haccept
      refine ⟨0, u, by simpa using hdir, rfl, haccept.2, ?_, rfl⟩
      rw [if_pos hfree, pow_zero, one_mul]
    · cases h
      rw [Bool.and_eq_true] at haccept
      refine ⟨0, u, by simpa using hdir, rfl, haccept.2, ?_, rfl⟩
      rw [if_neg hfree]
      norm_num
    -- not accepted: the rest of the row starts with three times the damping
    · obtain ⟨k, u', hdir', hpoint, hinside, hmu, htrials⟩ := ih _ _ step h
      have hpow : ∀ l : ℕ, (3 : ℝ) ^ l * (3.0 * mu) = 3 ^ (l + 1) * mu := fun l => by
        norm_num
        ring
      rw [hpow] at hdir'
      rw [hpow, hpow] at hmu
      exact ⟨k + 1, u', hdir', hpoint, hinside, hmu, by omega⟩

/-- A computed trial point lies strictly inside the bounds. -/
theorem compute_strictlyInside {mu : ℝ} {step : NewtonStep ℝ ℝ m n}
    (h : compute K model p bounds mu = .ok step) :
    bounds.strictlyInside step.parameters = true := by
  obtain ⟨_, _, _, _, hinside, _, _⟩ := damp_spec _ _ _ _ h
  exact hinside

/-- A positive damping stays positive. -/
theorem compute_mu_pos {mu : ℝ} (hmu : 0 < mu) {step : NewtonStep ℝ ℝ m n}
    (h : compute K model p bounds mu = .ok step) : 0 < step.mu := by
  obtain ⟨k, _, _, _, _, hk, _⟩ := damp_spec _ _ _ _ h
  rw [hk]
  split_ifs <;> positivity

/-! ## Exact kernels -/

/-- The rows of the Jacobian after forward substitution, as columns. -/
theorem mul_toMatrix_substituted (hK : K.Exact) {a : Mat ℝ n n}
    (ha : (Cholesky.symmetricPart a).toMatrix.PosDef) (jacobian : Mat ℝ m n) :
    (K.cholesky a).toMatrix *
      (Mat.transpose (jacobian.map (K.solveLower (K.cholesky a)))).toMatrix =
        jacobian.toMatrixᵀ := by
  ext i j
  have hcolumn := congrFun (hK.mulVec_solveLower ha (jacobian.get j)) i
  rw [mul_apply]
  refine Eq.trans (Finset.sum_congr rfl fun k _ => ?_) hcolumn
  congr 1
  rw [Mat.toMatrix_apply, Mat.entry_transpose, Mat.entry, get_map]

/-- Back substitution with the transposed factor recovers the step: it leaves the residual of
the least-squares problem that gave the multipliers. -/
theorem mulVec_transpose_direction (hK : K.Exact) {mu : ℝ}
    (hdamped : (dampedMatrix model mu).toMatrix.PosDef) {u : Vector ℝ n} {y : Vector ℝ m}
    (h : direction K model mu = .ok (u, y)) :
    (K.cholesky (dampedMatrix model mu)).toMatrixᵀ *ᵥ u.get =
      (Mat.transpose (model.jacobian.map
        (K.solveLower (K.cholesky (dampedMatrix model mu))))).toMatrix *ᵥ y.get -
        (K.solveLower (K.cholesky (dampedMatrix model mu)) model.gradient).get := by
  have hsymm : (Cholesky.symmetricPart (dampedMatrix model mu)).toMatrix.PosDef := by
    rwa [Cholesky.toMatrix_symmetricPart hdamped.isHermitian]
  rw [(direction_eq_ok_iff.mp h).2, get_neg_eq, mulVec_neg, hK.mulVec_solveUpper hsymm, get_sub_eq,
    Mat.get_mulVec_eq, neg_sub]

/-- The minimiser of a damped model lies in the null space of the Jacobian. -/
theorem mulVec_direction (hK : K.Exact) (hcurvature : model.curvature.toMatrix.PosDef)
    (hjacobian : LinearIndependent ℝ model.jacobian.toMatrix.row) {mu : ℝ} (hmu : 0 ≤ mu)
    {u : Vector ℝ n} {y : Vector ℝ m} (h : direction K model mu = .ok (u, y)) :
    model.jacobian.toMatrix *ᵥ u.get = 0 := by
  have hdamped := dampedMatrix_posDef hcurvature hmu
  have hsymm : (Cholesky.symmetricPart (dampedMatrix model mu)).toMatrix.PosDef := by
    rwa [Cholesky.toMatrix_symmetricPart hdamped.isHermitian]
  have hupper := mulVec_transpose_direction hK hdamped h
  have hw := mul_toMatrix_substituted hK hsymm model.jacobian
  -- the substituted columns are as independent as the rows of the Jacobian
  have hindependent : LinearIndependent ℝ (Mat.transpose
      (model.jacobian.map (K.solveLower (K.cholesky (dampedMatrix model mu))))).toMatrix.col := by
    refine col_independent_iff.mpr fun x hx => row_independent_iff.mp hjacobian x ?_
    rw [← hw, ← mulVec_mulVec, hx, mulVec_zero]
  have hnormal := hK.leastSquares hindependent (direction_eq_ok_iff.mp h).1
  rw [← transpose_transpose model.jacobian.toMatrix, ← hw, transpose_mul, ← mulVec_mulVec, hupper,
    mulVec_sub, hnormal, sub_self]

/-- A computed trial does not change the linearised constraints. -/
theorem mulVec_compute {mu : ℝ} {step : NewtonStep ℝ ℝ m n}
    (h : compute K model p bounds mu = .ok step) (hK : K.Exact)
    (hcurvature : model.curvature.toMatrix.PosDef)
    (hjacobian : LinearIndependent ℝ model.jacobian.toMatrix.row) (hmu : 0 ≤ mu) :
    model.jacobian.toMatrix *ᵥ step.parameters.get = model.jacobian.toMatrix *ᵥ p.get := by
  obtain ⟨k, u, hdirection, hpoint, _, _, _⟩ := damp_spec _ _ _ _ h
  have hnull := mulVec_direction hK hcurvature hjacobian (by positivity) hdirection
  rw [hpoint, get_add_eq, mulVec_add, hnull, add_zero]

/-! ## Trials that are accepted at once -/

/-- The first trial is accepted if it ends inside the bounds. -/
theorem exists_compute (hlimit : 0 < K.trialLimit) (hmn : m ≤ n) {mu : ℝ}
    (hinside : ∀ u y, direction K model mu = .ok (u, y) → bounds.strictlyInside (p + u) = true) :
    ∃ step : NewtonStep ℝ ℝ m n, compute K model p bounds mu = .ok step := by
  obtain ⟨⟨u, y⟩, hdirection⟩ := exists_direction (K := K) hmn model mu
  obtain ⟨fuel, hfuel⟩ := Nat.exists_eq_succ_of_ne_zero hlimit.ne'
  have haccept : (allFinite (p + u) && bounds.strictlyInside (p + u)) = true := by
    rw [hinside u y hdirection, Bool.and_true]
    exact Vector.all_eq_true.mpr fun _ _ => rfl
  rw [compute, hfuel, damp]
  exact ⟨_, except_bind_eq_ok_iff.mpr ⟨(u, y), hdirection, if_pos haccept⟩⟩

/-- Where the Jacobian determines the point, exact kernels return the point itself. -/
theorem exists_compute_of_determined (hK : K.Exact) (hlimit : 0 < K.trialLimit)
    (hcurvature : model.curvature.toMatrix.PosDef)
    (hrow : LinearIndependent ℝ model.jacobian.toMatrix.row)
    (hcol : LinearIndependent ℝ model.jacobian.toMatrix.col) {mu : ℝ} (hmu : 0 ≤ mu)
    (hp : bounds.strictlyInside p = true) :
    ∃ step : NewtonStep ℝ ℝ m n, compute K model p bounds mu = .ok step := by
  refine exists_compute hlimit (le_of_row_independent hrow) fun u y hdirection => ?_
  have hu : u.get = 0 :=
    col_independent_iff.mp hcol _ (mulVec_direction hK hcurvature hrow hmu hdirection)
  have hstay : p + u = p := vector_ext fun i => by
    rw [get_add, congrFun hu i, Pi.zero_apply, add_zero]
  rwa [hstay]

/-! ## Factorised matrices -/

variable {c : {k : Nat} → Mat ℝ k k → Mat ℝ k k}

theorem direction_withCholesky {mu : ℝ}
    (h : c (dampedMatrix model mu) = K.cholesky (dampedMatrix model mu)) :
    direction (K.withCholesky c) model mu = direction K model mu := by
  have hfactor : (K.withCholesky c).cholesky (dampedMatrix model mu) =
      K.cholesky (dampedMatrix model mu) := h
  unfold direction
  rw [hfactor]
  rfl

/-- Each trial factorises the matrix for a power of three times the first damping. -/
theorem damp_withCholesky :
    ∀ (fuel : Nat) (mu : ℝ) (trials : Nat),
      (∀ t : Nat, c (dampedMatrix model (3 ^ t * mu)) =
        K.cholesky (dampedMatrix model (3 ^ t * mu))) →
      damp (K.withCholesky c) model p bounds fuel mu trials =
        damp K model p bounds fuel mu trials := by
  intro fuel
  induction fuel with
  | zero =>
    intro mu trials _
    rfl
  | succ fuel ih =>
    intro mu trials h
    have hfirst : c (dampedMatrix model mu) = K.cholesky (dampedMatrix model mu) := by
      simpa using h 0
    -- the dampings that are left are the triples of those asked about
    have hrest := ih (3.0 * mu) (trials + 1) fun t => by
      have hpow : (3 : ℝ) ^ t * (3.0 * mu) = 3 ^ (t + 1) * mu := by
        norm_num
        ring
      rw [hpow]
      exact h (t + 1)
    rw [damp, damp, store_real, direction_withCholesky hfirst]
    simp only [hrest]

theorem compute_withCholesky {mu : ℝ}
    (h : ∀ t : Nat, c (dampedMatrix model (3 ^ t * mu)) =
      K.cholesky (dampedMatrix model (3 ^ t * mu))) :
    compute (K.withCholesky c) model p bounds mu = compute K model p bounds mu :=
  damp_withCholesky _ mu 0 h

end NewtonStep

end Sqp
