import Sqp.Proofs.Restoration.Projection
import Sqp.Proofs.Subproblem.Records
import Sqp.Proofs.Subproblem.Settle

/-!
# Inner solves that project

Without bounds a violated linearisation is repaired by a projection, which leaves its offset as it
is. Since the projected point is one where the linearised violation is gone, the offset is then
the one that a restoration would have computed there.

- `Subproblem.Preparation.Projects`: the linearisation at entry is projected.
- `Subproblem.ensures_prepare_projected`: where the descent starts then.
- `Subproblem.projection_nearest`: which projections are refused, what the others find, and that
  the offset of an inner solve fits the projected point.
-/

namespace Sqp.Subproblem

open Matrix

variable {e q n : Nat} {K : Kernels ℝ} {f : CostFunction ℝ} {settings : Settings ℝ}
  {problem : Problem ℝ e q n} {entry : InnerStart ℝ ℝ e q n}

/-- The point of entry in the units of an inner solve. -/
noncomputable def Preparation.entryPoint (way : Preparation ℝ ℝ e q n)
    (entry : InnerStart ℝ ℝ e q n) : Vector ℝ (q + n) :=
  way.scale.scaleParameters entry.parameters

/-- The residuals at entry in the units of an inner solve. -/
noncomputable def Preparation.entryResiduals (way : Preparation ℝ ℝ e q n)
    (entry : InnerStart ℝ ℝ e q n) : Vector ℝ (e + q) :=
  slackResiduals (way.scale.scaleCost entry.cost).constraints (way.entryPoint entry)

/-- There are constraints but no bounds, and the constraints are violated at entry. -/
structure Preparation.Projects (way : Preparation ℝ ℝ e q n) (settings : Settings ℝ)
    (problem : Problem ℝ e q n) (entry : InnerStart ℝ ℝ e q n) : Prop where
  constrained : e + q ≠ 0
  unbounded : problem.mode = .unbounded
  violated : settings.tolerance ≤ infinityNorm (way.entryResiduals entry)

/-- The descent starts at the projection of the point of entry, with the offset of that point. -/
structure Preparation.Projected (way : Preparation ℝ ℝ e q n) (K : Kernels ℝ)
    (entry : InnerStart ℝ ℝ e q n) : Prop where
  point : projectOntoConstraints K (way.entryPoint entry) way.lagrangian.jacobian
    (way.entryResiduals entry) = .ok way.start.point
  offset : way.lagrangian.offset =
    way.lagrangian.jacobian.mulVec (way.entryPoint entry) - way.entryResiduals entry

/-- A linearisation that is projected keeps its offset. -/
theorem Linearises.projects {mode : BoundMode} {bounds : Bounds ℝ (q + n)} {tolerance : ℝ}
    {p : Vector ℝ (q + n)} {cost : Cost ℝ (e + q)}
    {D : Vector ℝ (q + n) → Mat ℝ (e + q) (q + n) → Prop} {l : Linearisation ℝ e q n}
    (h : Linearises K mode bounds tolerance p cost D l) (hconstrained : e + q ≠ 0)
    (hmode : mode = .unbounded)
    (hviolated : tolerance ≤ infinityNorm (slackResiduals cost.constraints p)) :
    projectOntoConstraints K p l.jacobian (slackResiduals cost.constraints p) = .ok l.point ∧
      l.offset = l.jacobian.mulVec p - slackResiduals cost.constraints p := by
  cases h with
  | unconstrained hnone => exact absurd hnone hconstrained
  | kept _ _ hsmall => exact absurd hviolated (not_le.mpr hsmall)
  | projected _ _ _ _ hpoint => exact ⟨hpoint, rfl⟩
  | restored _ _ _ hbounded => exact absurd hmode hbounded

/-- A preparation that projects keeps the point of the projection, and its offset. -/
theorem ensures_prepare_projected : Ensures (prepare K f settings problem entry) fun way =>
    way.Projects settings problem entry → way.Projected K entry := by
  refine ensures_prepare_prepares.mono ?_
  rintro way ⟨l, hway⟩ hprojects
  obtain ⟨hpoint, hoffset⟩ :=
    hway.linearised.projects hprojects.constrained hprojects.unbounded hprojects.violated
  constructor
  · rw [hway.jacobian, hway.point]
    exact hpoint
  · rw [hway.jacobian, hway.offset]
    exact hoffset

/-- A projection is refused exactly if the rows of the Jacobian are dependent, and otherwise finds
the point nearest to the given one at which the linearised violation is gone. So the offset that
an inner solve has computed before a projection is the one of the projected point. -/
theorem projection_nearest (hK : K.Orthogonalises) :
    (∀ {m n : Nat} (p : Vector ℝ n) (jacobian : Mat ℝ m n) (c : Vector ℝ m),
      (projectOntoConstraints K p jacobian c = .error .singularMatrix ↔
        ¬ LinearIndependent ℝ jacobian.toMatrix.row) ∧
      (LinearIndependent ℝ jacobian.toMatrix.row →
        ∃ x, projectOntoConstraints K p jacobian c = .ok x ∧ NearestPoint jacobian c p x)) ∧
    ∀ {e q n : Nat} (f : CostFunction ℝ) (settings : Settings ℝ) (problem : Problem ℝ e q n)
      (entry : InnerStart ℝ ℝ e q n) (way : Preparation ℝ ℝ e q n) (j j' : Journal ℝ),
      outcome (prepare K f settings problem entry) j = (.ok way, j') →
      way.Projects settings problem entry →
        way.Projected K entry ∧
          way.lagrangian.offset = way.lagrangian.jacobian.mulVec way.start.point := by
  refine ⟨fun p jacobian c => ⟨projectOntoConstraints_refused_iff hK p jacobian c, fun hrow =>
    exists_nearestPoint hK hrow p c⟩, fun f settings problem entry way j j' hway hprojects => ?_⟩
  have hprojected := ensures_prepare_projected.of_outcome hway hprojects
  refine ⟨hprojected, ?_⟩
  rw [hprojected.offset]
  exact (nearestPoint_of_projectOntoConstraints hK hprojected.point).mulVec_eq

/-- The point `(1, 0)` misses the line `x + y = 2` by the factor of the constraint. -/
theorem line_violated {way : Preparation ℝ ℝ 1 0 2}
    (h : Scale.compute lineProblem.mode lineEntry.cost.objective
      (front lineEntry.cost.constraints).toList lineEntry.parameters lineSettings.tolerance =
        .ok way.scale) :
    way.Projects lineSettings lineProblem lineEntry where
  constrained := by decide
  unbounded := rfl
  violated := by
    have hlimits : (1 : ℝ) ∈ Set.Icc (0.01 : ℝ) (1 / 0.01) := by norm_num
    have hnorm : |infinityNorm (ofList (front lineEntry.cost.constraints).toList)| = 1 := by
      show |(|(-1 : ℝ)|)| = 1
      norm_num
    rw [Scale.compute_eq line_affineEntry.tolerance.ne'] at h
    -- the residual is one, so the constraint is not scaled at all
    have hfactor : way.scale.equalities.get 0 = 1 := by
      rw [(Except.ok.inj h).symm, get_replicate, hnorm]
      exact Scalar.clamp_of_mem hlimits
    have hentry : (way.entryResiduals lineEntry).get (Fin.castAdd 0 0) = -1 := by
      rw [Preparation.entryResiduals, Scale.get_slackResiduals_castAdd, Scale.scaleCost,
        get_divEach, Scale.get_constraints_castAdd, hfactor]
      exact div_one _
    refine le_trans ?_ (infinityNorm_single (way.entryResiduals lineEntry)).ge
    show (0.01 : ℝ) ≤ |(way.entryResiduals lineEntry).get (Fin.castAdd 0 0)|
    rw [hentry]
    norm_num

/-- The second row is twice the first one. -/
noncomputable def parallelRows : Mat ℝ 2 2 := Mat.ofFn ![![1.0, 2.0], ![2.0, 4.0]]

theorem parallelRows_dependent : ¬ LinearIndependent ℝ parallelRows.toMatrix.row := by
  intro h
  have hcombination : parallelRows.toMatrixᵀ *ᵥ ![2, -1] = 0 := by
    rw [parallelRows, Mat.toMatrix_ofFn, mulVec_transpose]
    ext j
    fin_cases j <;> norm_num [vecMul_eq_sum]
  have hzero := congrFun (row_independent_iff.mp h _ hcombination) 0
  exact two_ne_zero hzero

/-- The slopes of `x + y`. -/
def sumRow : Mat ℝ 1 2 := Mat.ofFn fun _ _ => 1

theorem sumRow_independent : LinearIndependent ℝ sumRow.toMatrix.row := by
  refine row_independent_of_entry (j := 0) ?_
  rw [sumRow, Mat.toMatrix_ofFn]
  exact one_ne_zero

/-- Dependent rows, independent ones, and an inner solve from a point beside a line. -/
theorem projection_nearest_line :
    (Kernels.standard : Kernels ℝ).Orthogonalises ∧
      projectOntoConstraints Kernels.standard #v[5, 0] parallelRows #v[1, 1] =
        .error .singularMatrix ∧
      (∃ x, projectOntoConstraints Kernels.standard #v[1, 0] sumRow #v[-1] = .ok x ∧
        NearestPoint sumRow #v[-1] #v[1, 0] x) ∧
      ∃ (way : Preparation ℝ ℝ 1 0 2) (j' : Journal ℝ),
        outcome (prepare Kernels.standard lineCost lineSettings lineProblem lineEntry) {} =
          (.ok way, j') ∧
        way.Projects lineSettings lineProblem lineEntry ∧
        way.lagrangian.offset = way.lagrangian.jacobian.mulVec way.start.point := by
  have hK := Kernels.standard_orthogonalises
  obtain ⟨hprojects, hprepare⟩ := projection_nearest hK
  obtain ⟨r, j', hrun, -, -⟩ := line_affineEntry.returns_solve_unbounded (affineCost_total _ _ _)
    rfl lineProblem_strictlyInside (.inr rfl) {} Journal.fits_empty
  obtain ⟨way, j₁, -, hway, -⟩ := outcome_solve_prepare hrun
  obtain ⟨l, hline⟩ := line_affineEntry.ensures_prepare.of_outcome hway
  have hviolated := line_violated hline.scale
  exact ⟨hK, (hprojects _ _ _).1.mpr parallelRows_dependent,
    (hprojects _ _ _).2 sumRow_independent, way, j₁, hway, hviolated,
    (hprepare _ _ _ _ way _ _ hway hviolated).2⟩

end Sqp.Subproblem
