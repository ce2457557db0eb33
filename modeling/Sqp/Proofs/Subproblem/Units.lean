import Sqp.Proofs.Subproblem.Settle
import Sqp.Proofs.Units

/-!
# Inner solves in other units

Without bounds, and as long as no magnitude has to be limited, an inner solve does the same
in all units of measurement.

- `mirrors_linearise`, `mirrors_minorStep`, `mirrors_descend` and their companions: the
  parts of an inner solve reach the cost function through scaled cost vectors only, so they
  mirror each other as soon as these do.
- `mirrors_prepare`: in all units a descent starts from the same scaled point, merit,
  curvature and multipliers; only the scale differs.
- `solve_changeUnits`: so an inner solve in other units fails with the same error, or it
  returns the same result in these units after the same number of calls of the cost
  function.
-/

namespace Sqp

variable {e q n : Nat} {φ : List ℝ → List ℝ}

theorem Mirrors.quotient (a b : ℝ) :
    Mirrors φ id (Scalar.quotient a b) (Scalar.quotient a b) :=
  Mirrors.ite (Mirrors.throw _) (Mirrors.pure _)

/-! ## Differences and line search -/

/-- Differences of cost vectors that are the same in all units. -/
theorem mirrors_constraintJacobian
    {costAt costAt' : Vector ℝ (q + n) → Recorded ℝ (Cost ℝ (e + q))}
    (hcost : ∀ p, Mirrors φ id (costAt p) (costAt' p)) (p : Vector ℝ (q + n))
    (cost : Cost ℝ (e + q)) (delta : ℝ) :
    Mirrors φ id (constraintJacobian costAt p cost delta)
      (constraintJacobian costAt' p cost delta) := by
  refine Mirrors.bind_same (Mirrors.tabulateM fun i => ?_) fun slopes => Mirrors.pure _
  exact Mirrors.bind_same (hcost _) fun c => Mirrors.pure _

/-- Differences of merits that are the same in all units. -/
theorem mirrors_meritGradient {meritAt meritAt' : Vector ℝ (q + n) → Recorded ℝ ℝ}
    (hmerit : ∀ p, Mirrors φ id (meritAt p) (meritAt' p)) (p : Vector ℝ (q + n))
    (merit delta : ℝ) :
    Mirrors φ id (meritGradient meritAt p merit delta)
      (meritGradient meritAt' p merit delta) := by
  refine Mirrors.bind_same (Mirrors.tabulateM fun i => ?_) fun slopes => Mirrors.pure _
  exact Mirrors.bind_same (hmerit _) fun shifted => Mirrors.quotient _ _

namespace LineSearch

variable {meritAt meritAt' : Vector ℝ n → Recorded ℝ ℝ}

/-- Bisections compare merits only, which are the same in both units. -/
theorem mirrors_bisect (hmerit : ∀ p, Mirrors φ id (meritAt p) (meritAt' p))
    (start trial : Vector ℝ n) (merit tolerance : ℝ) :
    ∀ (fuel : Nat) (go : ℝ) (steps : Nat) (b : Bracket ℝ ℝ n),
      Mirrors φ id (bisect meritAt start trial merit tolerance fuel go steps b)
        (bisect meritAt' start trial merit tolerance fuel go steps b) := by
  intro fuel
  induction fuel with
  | zero =>
    intro go steps b
    exact Mirrors.pure _
  | succ fuel ih =>
    intro go steps b
    refine Mirrors.ite ?_ (Mirrors.pure _)
    exact Mirrors.bind_same (hmerit _) fun value => ih _ _ _

theorem mirrors_search (hmerit : ∀ p, Mirrors φ id (meritAt p) (meritAt' p))
    (start trial : Vector ℝ n) (merit tolerance : ℝ) :
    Mirrors φ id (search meritAt start trial merit tolerance)
      (search meritAt' start trial merit tolerance) := by
  refine Mirrors.bind_same (hmerit trial) fun trialMerit => ?_
  refine Mirrors.bind_same (mirrors_bisect hmerit start trial merit tolerance _ _ _ _)
    fun found => ?_
  exact Mirrors.pure _

end LineSearch

namespace Subproblem

/-! ## Linearisation -/

section Linearisation

variable {costAt costAt' : Vector ℝ (q + n) → Recorded ℝ (Cost ℝ (e + q))}

/-- A repair calls no cost function. -/
theorem mirrors_repair (K : Kernels ℝ) (mode : BoundMode) (bounds : Bounds ℝ (q + n))
    (tolerance : ℝ) (residuals : Vector ℝ (e + q)) (l : Linearisation ℝ e q n) :
    Mirrors φ id (repair K mode bounds tolerance residuals l)
      (repair K mode bounds tolerance residuals l) := by
  cases mode with
  | unbounded => exact Mirrors.bind_same (Mirrors.recorded_same _) fun point => Mirrors.pure _
  | slackBounded | fullyBounded =>
    refine Mirrors.bind_same (Mirrors.recorded_same _) fun restored => ?_
    exact Mirrors.bind_same (Mirrors.report _) fun _ => Mirrors.pure _

theorem mirrors_linearise (hcost : ∀ p, Mirrors φ id (costAt p) (costAt' p)) (K : Kernels ℝ)
    (mode : BoundMode) (bounds : Bounds ℝ (q + n)) (settings : Settings ℝ) (p : Vector ℝ (q + n))
    (cost : Cost ℝ (e + q)) :
    Mirrors φ id (linearise K costAt mode bounds settings p cost)
      (linearise K costAt' mode bounds settings p cost) := by
  refine Mirrors.ite (Mirrors.pure _) ?_
  refine Mirrors.bind_same (mirrors_constraintJacobian hcost p cost _) fun differences => ?_
  exact Mirrors.ite (mirrors_repair K mode bounds _ _ _) (Mirrors.pure _)

/-- The cost vector at entry is known, and the other one is the same in all units. -/
theorem mirrors_cost (hcost : ∀ p, Mirrors φ id (costAt p) (costAt' p))
    (l : Linearisation ℝ e q n) (atEntry : Cost ℝ (e + q)) :
    Mirrors φ id (l.cost costAt atEntry) (l.cost costAt' atEntry) :=
  Mirrors.ite (hcost _) (Mirrors.pure _)

end Linearisation

/-! ## Descent -/

section Descent

variable {g : Landscape ℝ ℝ e q n} {costAt' : Vector ℝ (q + n) → Recorded ℝ (Cost ℝ (e + q))}
  (hcost : ∀ p, Mirrors φ id (g.costAt p) (costAt' p))

include hcost

/-- A merit is computed from a scaled cost vector and from what stays fixed. -/
theorem mirrors_meritAt (p : Vector ℝ (q + n)) :
    Mirrors φ id (g.meritAt p) (Landscape.meritAt { g with costAt := costAt' } p) :=
  Mirrors.bind_same (hcost p) fun _ => Mirrors.pure _

/-- The gradient is known or differenced, in all units alike. -/
theorem mirrors_gradientAt (s : Iterate ℝ ℝ e q n) :
    Mirrors φ id (g.gradientAt s) (Landscape.gradientAt { g with costAt := costAt' } s) :=
  Mirrors.ite (mirrors_meritGradient (mirrors_meritAt hcost) s.point s.merit g.settings.delta)
    (Mirrors.pure _)

/-- A minor iteration reaches the cost function through merits only. -/
theorem mirrors_minorStep (s : Iterate ℝ ℝ e q n) :
    Mirrors φ id (minorStep g s) (minorStep { g with costAt := costAt' } s) := by
  refine Mirrors.bind_same (mirrors_gradientAt hcost s) fun gradient => ?_
  refine Mirrors.bind_same (Mirrors.recorded_same _) fun step => ?_
  refine Mirrors.bind_same (LineSearch.mirrors_search (mirrors_meritAt hcost) _ _ _ _)
    fun found => ?_
  exact Mirrors.pure _

/-- So does a descent, which stalls at the same point in all units. -/
theorem mirrors_descend : ∀ (left : Nat) (s : Iterate ℝ ℝ e q n),
    Mirrors φ id (descend g left s) (descend { g with costAt := costAt' } left s) := by
  intro left
  induction left with
  | zero =>
    intro s
    exact Mirrors.pure _
  | succ left ih =>
    intro s
    refine Mirrors.bind_same (mirrors_minorStep hcost s) fun next => ?_
    refine Mirrors.ite (Mirrors.pure _) ?_
    exact Mirrors.bind_same (ih next) fun rest => Mirrors.pure _

end Descent

/-! ## Inner solves -/

/-- A list that fits still does after all its entries have been multiplied. -/
theorem fitted_map_mul (m : Nat) (c : ℝ) (ys : List ℝ) :
    fitted m (ys.map (c * ·)) = (fitted m ys).map (scaled c) := by
  unfold fitted
  by_cases hlength : ys.length = m
  · rw [dif_pos hlength, dif_pos (by rwa [List.length_map])]
    refine congrArg Except.ok (toList_injective ?_)
    simp [ofList, scaled]
  · rw [dif_neg hlength, dif_neg (by rwa [List.length_map])]
    -- a list of another length fits only if its single entry can be repeated
    rcases ys with _ | ⟨a, _ | ⟨b, ys⟩⟩
    · rfl
    · refine congrArg Except.ok (vector_ext fun i => ?_)
      rw [get_replicate, get_scaled, get_replicate]
    · rfl

/-- Multipliers that fit still do in other units, and zeros have none. -/
theorem constraintMultipliers_map_mul (m : Nat) (c : ℝ) (ys : List ℝ) :
    constraintMultipliers m (ys.map (c * ·)) = (constraintMultipliers m ys).map (scaled c) := by
  unfold constraintMultipliers
  split_ifs with hm
  · refine congrArg Except.ok (vector_ext fun i => ?_)
    rw [get_scaled, get_zeros, mul_zero]
  · exact fitted_map_mul m c ys

end Subproblem

/-- Nothing is bounded. -/
structure Problem.Unbounded (problem : Problem ℝ e q n) : Prop where
  mode : problem.mode = .unbounded
  bounds : ∀ i, problem.bounds.get i = none

/-- Bounds that do not exist have no units. -/
theorem Problem.Unbounded.scaleBounds_rescale {problem problem' : Problem ℝ e 0 n} {u : Units n}
    {s : Scale ℝ e 0 n} (hproblem' : problem'.Unbounded) (hproblem : problem.Unbounded) :
    (u.rescale s).scaleBounds problem'.bounds = s.scaleBounds problem.bounds :=
  vector_ext fun i => by
    rw [Scale.scaleBounds, Scale.scaleBounds, Bounds.get_divide, Bounds.get_divide,
      hproblem.bounds, hproblem'.bounds]
    rfl

namespace Subproblem

variable {K : Kernels ℝ} {f : CostFunction ℝ} {settings : Settings ℝ}
  {problem problem' : Problem ℝ e 0 n} {entry : InnerStart ℝ ℝ e 0 n} {u : Units n}

section Inner

variable (he : 0 < e) (hproblem : problem.Unbounded) (hproblem' : problem'.Unbounded)
  (hentry : Unclamped settings.tolerance entry)
  (hentry' : Unclamped settings.tolerance (u.start entry))

include he hproblem hproblem' hentry hentry'

/-- In all units a descent starts from the same place. -/
theorem mirrors_prepare :
    Mirrors u.point (fun way => { way with scale := u.rescale way.scale })
      (prepare K f settings problem entry)
      (prepare K (u.costFunction f) settings problem' (u.start entry)) := by
  have hscale : Scale.compute problem'.mode (u.start entry).cost.objective
      (front (u.start entry).cost.constraints).toList (u.start entry).parameters
      settings.tolerance =
      (Scale.compute problem.mode entry.cost.objective (front entry.cost.constraints).toList
        entry.parameters settings.tolerance : Except Error (Scale ℝ e 0 n)).map u.rescale := by
    rw [hproblem.mode, hproblem'.mode]
    exact Units.compute_rescale he hentry hentry'
  have hmultipliers : constraintMultipliers (e + 0) (u.start entry).multipliers =
      (constraintMultipliers (e + 0) entry.multipliers).map
        (scaled (u.objective / u.constraint)) :=
    constraintMultipliers_map_mul _ _ _
  unfold prepare
  rw [hscale, hmultipliers]
  refine Mirrors.bind (Mirrors.recorded _) fun scale => ?_
  refine Mirrors.bind (Mirrors.recorded _) fun multipliers => ?_
  -- in scaled quantities nothing is left of the units
  have hparameters : (u.rescale scale).scaleParameters (u.start entry).parameters =
      scale.scaleParameters entry.parameters := Units.scaleParameters_rescale scale _
  have hcost : (u.rescale scale).scaleCost (u.start entry).cost = scale.scaleCost entry.cost :=
    Units.scaleCost_rescale scale _
  have hcurvature : (u.rescale scale).scaleCurvature (u.start entry).curvature =
      scale.scaleCurvature entry.curvature := Units.scaleCurvature_rescale scale _
  rw [hproblem'.scaleBounds_rescale hproblem, hproblem.mode, hproblem'.mode, hparameters, hcost,
    hcurvature, Units.scaleMultipliers_rescale]
  refine Mirrors.bind_same (mirrors_linearise (Units.mirrors_evaluate scale f) _ _ _ _ _ _)
    fun l => ?_
  refine Mirrors.bind_same (mirrors_cost (Units.mirrors_evaluate scale f) l _) fun base => ?_
  exact Mirrors.pure _

/-- An inner solve takes the same course in all units, on another scale. -/
theorem mirrors_run :
    Mirrors u.point (fun d => { d with scale := u.rescale d.scale })
      (run K f settings problem entry)
      (run K (u.costFunction f) settings problem' (u.start entry)) := by
  refine Mirrors.bind (mirrors_prepare he hproblem hproblem' hentry hentry') fun way => ?_
  have hlandscape : Preparation.landscape { way with scale := u.rescale way.scale } K
      (u.costFunction f) settings problem' = { way.landscape K f settings problem with
        costAt := (u.rescale way.scale).evaluate (u.costFunction f) } := by
    unfold Preparation.landscape
    rw [hproblem'.scaleBounds_rescale hproblem, hproblem.mode, hproblem'.mode]
  rw [hlandscape]
  refine Mirrors.bind_same (mirrors_descend (Units.mirrors_evaluate way.scale f) _ _)
    fun course => ?_
  exact Mirrors.pure _

omit hproblem hproblem' hentry hentry' in
/-- Only the scale tells what a descent amounts to in user units. -/
theorem Descent.result_rescale (d : Descent ℝ ℝ e 0 n) (multipliers : List ℝ) (tolerance : ℝ) :
    Descent.result { d with scale := u.rescale d.scale } (u.multipliers multipliers) tolerance =
      u.result (d.result multipliers tolerance) := by
  have hlast : Descent.last { d with scale := u.rescale d.scale } = d.last := rfl
  have hmultipliers : Descent.multipliers { d with scale := u.rescale d.scale }
      (u.multipliers multipliers) = u.multipliers (d.multipliers multipliers) := by
    have hsome : ¬ e + 0 = 0 := he.ne'
    unfold Descent.multipliers
    rw [if_neg hsome, if_neg hsome, hlast, Units.unscaleMultipliers_rescale]
    exact Vector.toList_map
  unfold Descent.result Units.result
  rw [hmultipliers, hlast]
  dsimp only
  rw [Units.unscaleParameters_rescale, Units.unscaleCurvature_rescale, Units.symmetrize_curvature]

end Inner

/-- An inner solve without bounds and with equality constraints, at a point where no magnitude
is limited in either unit: in other units it fails with the same error, or it returns the
parameters, multipliers and curvature in these units and everything else as it is. It calls
the cost function equally often, at the decision vectors in these units. -/
theorem solve_changeUnits (u : Units n) (he : 0 < e) (hproblem : problem.Unbounded)
    (hproblem' : problem'.Unbounded) (hentry : Unclamped settings.tolerance entry)
    (hentry' : Unclamped settings.tolerance (u.start entry)) (f : CostFunction ℝ)
    (j : Journal ℝ) :
    outcome (solve K (u.costFunction f) settings problem' (u.start entry)) (j.mapVisited u.point) =
        ((outcome (solve K f settings problem entry) j).1.map u.result,
          (outcome (solve K f settings problem entry) j).2.mapVisited u.point) ∧
      (outcome (solve K (u.costFunction f) settings problem' (u.start entry))
        (j.mapVisited u.point)).2.evaluations =
          (outcome (solve K f settings problem entry) j).2.evaluations := by
  have hmirrors : Mirrors u.point u.result (solve K f settings problem entry)
      (solve K (u.costFunction f) settings problem' (u.start entry)) := by
    refine Mirrors.bind (mirrors_run he hproblem hproblem' hentry hentry') fun d => ?_
    refine Mirrors.bind_same (Mirrors.report _) fun _ => ?_
    show Mirrors u.point u.result (pure (d.result entry.multipliers settings.tolerance))
      (pure (Descent.result { d with scale := u.rescale d.scale } (u.multipliers entry.multipliers)
        settings.tolerance))
    rw [Descent.result_rescale he]
    exact Mirrors.pure _
  refine ⟨hmirrors j, ?_⟩
  rw [hmirrors j, Journal.evaluations_mapVisited]

theorem lineProblem_unbounded : lineProblem.Unbounded := ⟨rfl, fun i => get_replicate none i⟩

/-- The point `(1, 3)`, with a multiplier. -/
noncomputable def offLineEntry : InnerStart ℝ ℝ 1 0 2 :=
  { lineEntry with parameters := #v[1, 3.0], multipliers := [1], cost := ⟨1, #v[2.0]⟩ }

theorem offLine_affineEntry : AffineEntry Kernels.standard lineCost lineSettings lineProblem
    offLineEntry #v[#v[1, 1]] #v[-2.0] :=
  { line_affineEntry with
    cost := by
      refine affineCost_eq_ok (one_mul 1) (vector_ext fun i => ?_)
      rw [get_add, Mat.get_mulVec, dot_eq_dotProduct, dotProduct_eq_sum, Fin.sum_univ_two,
        Fin.fin_one_eq_zero i]
      show (1 : ℝ) * 1 + 1 * 3.0 + -2.0 = 2.0
      norm_num
    inside := lineProblem_strictlyInside _ }

/-- The objective in thirds, the constraint in fifths, the variables in halves and
sevenths. -/
noncomputable def lineUnits : Units 2 where
  objective := 3.0
  constraint := 5.0
  decision := #v[2.0, 7.0]
  objective_pos := by norm_num
  constraint_pos := by norm_num
  decision_pos := Fin.forall_fin_two.mpr
    ⟨show (0 : ℝ) < 2.0 by norm_num, show (0 : ℝ) < 7.0 by norm_num⟩

/-- The tolerance limits magnitudes to the range from a hundredth to a hundred. -/
theorem mem_lineLimits {x : ℝ} (hlower : 1 ≤ x) (hupper : x ≤ 100) :
    x ∈ Set.Icc lineSettings.tolerance (1 / lineSettings.tolerance) := by
  constructor
  · exact le_trans (show (0.01 : ℝ) ≤ 1 by norm_num) hlower
  · exact hupper.trans (show (100 : ℝ) ≤ 1 / 0.01 by norm_num)

theorem offLineEntry_norm : infinityNorm (front offLineEntry.cost.constraints) = 2 := by
  show |(2.0 : ℝ)| = 2
  norm_num

theorem offLineEntry_unclamped : Unclamped lineSettings.tolerance offLineEntry where
  objective := mem_lineLimits abs_one.ge (abs_one.le.trans (by norm_num))
  constraints := by
    rw [offLineEntry_norm]
    exact mem_lineLimits (by norm_num) (by norm_num)
  parameters := Fin.forall_fin_two.mpr
    ⟨mem_lineLimits abs_one.ge (abs_one.le.trans (by norm_num)),
      mem_lineLimits (show (1 : ℝ) ≤ |3.0| by norm_num) (show |(3.0 : ℝ)| ≤ 100 by norm_num)⟩

theorem lineUnits_start_unclamped :
    Unclamped lineSettings.tolerance (lineUnits.start offLineEntry) where
  objective := by
    rw [Units.abs_start_objective]
    exact mem_lineLimits (show (1 : ℝ) ≤ 3.0 * |1| by norm_num)
      (show (3.0 : ℝ) * |1| ≤ 100 by norm_num)
  constraints := by
    rw [Units.infinityNorm_start_constraints, offLineEntry_norm]
    exact mem_lineLimits (show (1 : ℝ) ≤ 5.0 * 2 by norm_num)
      (show (5.0 : ℝ) * 2 ≤ 100 by norm_num)
  parameters := Fin.forall_fin_two.mpr (by
    constructor
    · rw [Units.abs_start_parameters]
      exact mem_lineLimits (show (1 : ℝ) ≤ 2.0 * |1| by norm_num)
        (show (2.0 : ℝ) * |1| ≤ 100 by norm_num)
    · rw [Units.abs_start_parameters]
      exact mem_lineLimits (show (1 : ℝ) ≤ 7.0 * |3.0| by norm_num)
        (show (7.0 : ℝ) * |3.0| ≤ 100 by norm_num))

/-- Both inner solves return. -/
theorem solve_changeUnits_line : ∃ r j',
    outcome (solve Kernels.standard lineCost lineSettings lineProblem offLineEntry) {} =
      (.ok r, j') ∧
    outcome (solve Kernels.standard (lineUnits.costFunction lineCost) lineSettings lineProblem
      (lineUnits.start offLineEntry)) {} =
        (.ok (lineUnits.result r), j'.mapVisited lineUnits.point) ∧
    (outcome (solve Kernels.standard (lineUnits.costFunction lineCost) lineSettings lineProblem
      (lineUnits.start offLineEntry)) {}).2.evaluations = j'.evaluations := by
  obtain ⟨r, j', hrun, -, -⟩ := offLine_affineEntry.returns_solve_unbounded
    (affineCost_total _ _ _) rfl lineProblem_strictlyInside (.inr rfl) {} Journal.fits_empty
  have hunits := solve_changeUnits (K := Kernels.standard) lineUnits Nat.one_pos
    lineProblem_unbounded lineProblem_unbounded offLineEntry_unclamped lineUnits_start_unclamped
    lineCost {}
  rw [hrun, Journal.mapVisited_empty] at hunits
  exact ⟨r, j', hrun, hunits⟩

end Subproblem

end Sqp
