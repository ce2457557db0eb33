import Sqp.Proofs.Mirror
import Sqp.Proofs.Scale
import Sqp.Subproblem

/-!
# Units of measurement

The same problem without bounds and inequality constraints can be written in other units:
each variable is multiplied by a number of its own, the objective by another and all
constraint values by a third one.

- `Units`: the positive numbers; `Units.parameters`, `Units.multipliers`, `Units.curvature`,
  `Units.costVector` and `Units.costFunction` say what becomes of the quantities of an inner
  solve, `Units.start` and `Units.result` what becomes of all of them together.
- `Units.rescale`: the scale that belongs to the new units. In scaled quantities the units
  drop out on the way in (`scaleParameters_rescale` and its companions), they come back on
  the way out (`unscaleParameters_rescale` and its companions), and the cost functions are
  called alike (`mirrors_evaluate`).
- `Unclamped`: no magnitude at the point of entry has to be limited. If this is so in both
  units, the computed scale is the rescaled one (`Units.compute_rescale`).
-/

namespace Sqp

variable {e n : Nat}

/-- Positive numbers by which the objective, all constraint values and each variable are
multiplied. -/
structure Units (n : Nat) where
  objective : ℝ
  constraint : ℝ
  decision : Vector ℝ (0 + n)
  objective_pos : 0 < objective
  constraint_pos : 0 < constraint
  decision_pos : ∀ i, 0 < decision.get i

/-! ## Quantities in other units -/

namespace Units

variable (u : Units n)

/-- Parameters `p` become `D p`. -/
noncomputable def parameters (p : Vector ℝ (0 + n)) : Vector ℝ (0 + n) := mulEach u.decision p

/-- The price of a constraint is measured in units of the objective per unit of the
constraint. -/
noncomputable def multipliers (ys : List ℝ) : List ℝ := ys.map (u.objective / u.constraint * ·)

/-- A curvature matrix `h` becomes `a D⁻¹ h D⁻¹`. -/
noncomputable def curvature (h : Mat ℝ (0 + n) (0 + n)) : Mat ℝ (0 + n) (0 + n) :=
  Mat.ofFn fun i j => u.objective * ((u.decision.get i)⁻¹ * h.entry i j * (u.decision.get j)⁻¹)

/-- The objective and the constraint values of a cost vector. -/
noncomputable def costVector {m : Nat} (c : Cost ℝ m) : Cost ℝ m :=
  ⟨u.objective * c.objective, scaled u.constraint c.constraints⟩

/-- A decision vector `x` becomes `D x`. -/
noncomputable def point (x : List ℝ) : List ℝ := List.zipWith (· * ·) (back u.decision).toList x

/-- A decision vector in the old units. -/
noncomputable def oldPoint (x : List ℝ) : List ℝ :=
  List.zipWith (fun d a => d⁻¹ * a) (back u.decision).toList x

/-- A list of objective and constraint values of any length. -/
noncomputable def values : List ℝ → List ℝ
  | [] => []
  | objective :: rest => u.objective * objective :: rest.map (u.constraint * ·)

/-- The cost function `[f, g]` becomes `[a f(D⁻¹ x), b g(D⁻¹ x)]`; it fails where the old one
does. -/
noncomputable def costFunction (f : CostFunction ℝ) : CostFunction ℝ :=
  fun x => (f (u.oldPoint x)).map u.values

/-- What an inner solve starts from. The damping and the penalty have no unit. -/
noncomputable def start (entry : InnerStart ℝ ℝ e 0 n) : InnerStart ℝ ℝ e 0 n where
  parameters := u.parameters entry.parameters
  multipliers := u.multipliers entry.multipliers
  cost := u.costVector entry.cost
  curvature := u.curvature entry.curvature
  mu := entry.mu
  rho := entry.rho

/-- What an inner solve ends with. -/
noncomputable def result (r : InnerResult ℝ ℝ 0 n) : InnerResult ℝ ℝ 0 n where
  parameters := u.parameters r.parameters
  multipliers := u.multipliers r.multipliers
  curvature := u.curvature r.curvature
  mu := r.mu
  reduction := r.reduction
  minorIterations := r.minorIterations
  warnings := r.warnings

variable {u}

@[simp] theorem get_parameters (p : Vector ℝ (0 + n)) (i : Fin (0 + n)) :
    (u.parameters p).get i = u.decision.get i * p.get i :=
  get_mulEach _ _ i

@[simp] theorem entry_curvature (h : Mat ℝ (0 + n) (0 + n)) (i j : Fin (0 + n)) :
    (u.curvature h).entry i j =
      u.objective * ((u.decision.get i)⁻¹ * h.entry i j * (u.decision.get j)⁻¹) :=
  Mat.entry_ofFn _ i j

@[simp] theorem length_values (values : List ℝ) : (u.values values).length = values.length := by
  cases values with
  | nil => rfl
  | cons objective rest =>
    rw [Units.values, List.length_cons, List.length_cons, List.length_map]

/-- Symmetric parts have the same units as matrices. -/
theorem symmetrize_curvature (h : Mat ℝ (0 + n) (0 + n)) :
    Curvature.symmetrize (u.curvature h) = u.curvature (Curvature.symmetrize h) :=
  Mat.ext_entry fun i j => by
    rw [Curvature.symmetrize, Mat.entry_ofFn, entry_curvature, entry_curvature, entry_curvature,
      Curvature.symmetrize, Mat.entry_ofFn]
    ring

/-- A list in other units is split like the old one. -/
theorem ofList?_values {m : Nat} (values : List ℝ) :
    (Cost.ofList? (u.values values) : Option (Cost ℝ m)) =
      (Cost.ofList? values).map u.costVector := by
  cases values with
  | nil => rfl
  | cons objective rest =>
    rw [Units.values, Cost.ofList?, Cost.ofList?]
    by_cases hlength : rest.length = m
    · rw [dif_pos hlength, dif_pos (by rwa [List.length_map])]
      refine congrArg some (Cost.toList_injective ?_)
      simp [Cost.toList, Units.costVector, scaled]
    · rw [dif_neg hlength, dif_neg (by rwa [List.length_map])]
      rfl

theorem point_toList (x : Vector ℝ n) :
    u.point x.toList = (mulEach (back u.decision) x).toList :=
  Vector.toList_zipWith.symm

/-- In the old units a renamed decision vector is what it was. -/
theorem oldPoint_point (x : Vector ℝ n) : u.oldPoint (u.point x.toList) = x.toList := by
  rw [point_toList, Units.oldPoint, ← Vector.toList_zipWith]
  congr 1
  refine vector_ext fun i => ?_
  rw [get_zipWith, get_mulEach, get_back, inv_mul_cancel_left₀ (u.decision_pos _).ne']

/-- At a renamed decision vector the new cost function gives the old answer in new units. -/
theorem costFunction_point (f : CostFunction ℝ) (x : Vector ℝ n) :
    u.costFunction f (u.point x.toList) = (f x.toList).map u.values := by
  rw [Units.costFunction, oldPoint_point]

end Units

/-! ## Scales in other units -/

namespace Units

variable (u : Units n)

/-- The scale of quantities in other units. -/
noncomputable def rescale (s : Scale ℝ e 0 n) : Scale ℝ e 0 n where
  objective := u.objective * s.objective
  equalities := scaled u.constraint s.equalities
  parameters := u.parameters s.parameters

variable {u} (s : Scale ℝ e 0 n)

@[simp] theorem get_constraints_rescale (i : Fin (e + 0)) :
    (u.rescale s).constraints.get i = u.constraint * s.constraints.get i := by
  refine Fin.addCases (fun k => ?_) (fun k => k.elim0) i
  rw [Scale.get_constraints_castAdd, Scale.get_constraints_castAdd, rescale, get_scaled]

/-- The unit of a variable cancels with the one in its factor. -/
theorem scaleParameters_rescale (p : Vector ℝ (0 + n)) :
    (u.rescale s).scaleParameters (u.parameters p) = s.scaleParameters p :=
  vector_ext fun i => by
    rw [Scale.scaleParameters, Scale.scaleParameters, get_divEach, get_divEach, rescale,
      get_parameters, get_parameters, mul_div_mul_left _ _ (u.decision_pos i).ne']

/-- On the way out, the factors bring the units back. -/
theorem unscaleParameters_rescale (p : Vector ℝ (0 + n)) :
    (u.rescale s).unscaleParameters p = u.parameters (s.unscaleParameters p) :=
  vector_ext fun i => by
    rw [Scale.unscaleParameters, get_mulEach, get_parameters, Scale.unscaleParameters, get_mulEach,
      rescale, get_parameters, mul_left_comm]

/-- The units of the objective and of the constraints cancel alike. -/
theorem scaleCost_rescale (c : Cost ℝ (e + 0)) :
    (u.rescale s).scaleCost (u.costVector c) = s.scaleCost c := by
  have hobjective : u.objective * c.objective / (u.objective * s.objective) =
      c.objective / s.objective := mul_div_mul_left _ _ u.objective_pos.ne'
  have hconstraints : divEach (scaled u.constraint c.constraints) (u.rescale s).constraints =
      divEach c.constraints s.constraints := vector_ext fun i => by
    rw [get_divEach, get_divEach, get_scaled, get_constraints_rescale,
      mul_div_mul_left _ _ u.constraint_pos.ne']
  rw [Scale.scaleCost, Scale.scaleCost]
  exact congrArg₂ Cost.mk hobjective hconstraints

/-- A multiplier has the unit of the objective over that of the constraint, and both cancel. -/
theorem scaleMultipliers_rescale (y : Vector ℝ (e + 0)) :
    (u.rescale s).scaleMultipliers (scaled (u.objective / u.constraint) y) =
      s.scaleMultipliers y := by
  have ha := u.objective_pos.ne'
  have hb := u.constraint_pos.ne'
  refine vector_ext fun i => ?_
  rw [Scale.scaleMultipliers, Scale.scaleMultipliers, get_map, get_map, get_mulEach, get_mulEach,
    get_scaled, get_constraints_rescale, Scalar.share_eq_div, Scalar.share_eq_div, rescale]
  calc u.constraint * s.constraints.get i * (u.objective / u.constraint * y.get i) /
        (u.objective * s.objective)
      = u.objective * (s.constraints.get i * y.get i) / (u.objective * s.objective) := by
        field_simp
    _ = s.constraints.get i * y.get i / s.objective := mul_div_mul_left _ _ ha

theorem unscaleMultipliers_rescale (y : Vector ℝ (e + 0)) :
    (u.rescale s).unscaleMultipliers y =
      scaled (u.objective / u.constraint) (s.unscaleMultipliers y) :=
  vector_ext fun i => by
    rw [Scale.unscaleMultipliers, get_divEach, get_scaled, get_scaled, Scale.unscaleMultipliers,
      get_divEach, get_scaled, get_constraints_rescale, rescale, div_mul_div_comm, mul_assoc]

/-- A curvature has the unit of the objective over those of two variables, and all cancel. -/
theorem scaleCurvature_rescale (h : Mat ℝ (0 + n) (0 + n)) :
    (u.rescale s).scaleCurvature (u.curvature h) = s.scaleCurvature h := by
  refine Mat.ext_entry fun i j => ?_
  have hi := (u.decision_pos i).ne'
  have hj := (u.decision_pos j).ne'
  rw [Scale.scaleCurvature, Scale.scaleCurvature, Mat.entry_ofFn, Mat.entry_ofFn,
    Scalar.share_eq_div, Scalar.share_eq_div, entry_curvature, rescale, get_parameters,
    get_parameters]
  calc u.objective * ((u.decision.get i)⁻¹ * h.entry i j * (u.decision.get j)⁻¹) *
        (u.decision.get i * s.parameters.get i * (u.decision.get j * s.parameters.get j)) /
        (u.objective * s.objective)
      = u.objective * (h.entry i j * (s.parameters.get i * s.parameters.get j)) /
          (u.objective * s.objective) := by
        field_simp
    _ = h.entry i j * (s.parameters.get i * s.parameters.get j) / s.objective :=
        mul_div_mul_left _ _ u.objective_pos.ne'

theorem unscaleCurvature_rescale (h : Mat ℝ (0 + n) (0 + n)) :
    (u.rescale s).unscaleCurvature h = u.curvature (s.unscaleCurvature h) :=
  Mat.ext_entry fun i j => by
    rw [Scale.unscaleCurvature, Mat.entry_ofFn, entry_curvature, Scale.unscaleCurvature,
      Mat.entry_ofFn, rescale, get_parameters, get_parameters, div_eq_mul_inv, div_eq_mul_inv,
      mul_inv, mul_inv, mul_inv, mul_inv]
    ring

/-- The new cost function is called where the old one is, in the new units. -/
theorem userPoint_rescale (p : Vector ℝ (0 + n)) :
    ((u.rescale s).userPoint p).toList = u.point (s.userPoint p).toList := by
  rw [point_toList]
  congr 1
  refine vector_ext fun i => ?_
  rw [Scale.userPoint_eq, get_back, unscaleParameters_rescale, get_parameters, get_mulEach,
    get_back, Scale.userPoint_eq, get_back]

/-- A scaled cost vector is the same in all units. -/
theorem mirrors_evaluate (f : CostFunction ℝ) (p : Vector ℝ (0 + n)) :
    Mirrors u.point id (s.evaluate f p) ((u.rescale s).evaluate (u.costFunction f) p) := by
  unfold Scale.evaluate
  rw [userPoint_rescale]
  refine Mirrors.bind (Mirrors.evaluateSized (costFunction_point f _) length_values
    ofList?_values) fun c => ?_
  rw [scaleCost_rescale]
  exact Mirrors.pure _

end Units

/-! ## Magnitudes within their limits -/

/-- No magnitude at the point of entry lies outside `[tolerance, 1 / tolerance]`. -/
structure Unclamped (tolerance : ℝ) (entry : InnerStart ℝ ℝ e 0 n) : Prop where
  objective : |entry.cost.objective| ∈ Set.Icc tolerance (1 / tolerance)
  constraints : infinityNorm (front entry.cost.constraints) ∈ Set.Icc tolerance (1 / tolerance)
  parameters : ∀ i, |entry.parameters.get i| ∈ Set.Icc tolerance (1 / tolerance)

/-- The scale at such a point consists of the magnitudes themselves. -/
theorem Unclamped.compute_eq {tolerance : ℝ} {entry : InnerStart ℝ ℝ e 0 n}
    (h : Unclamped tolerance entry) (he : 0 < e) (ht : 0 < tolerance) :
    Scale.compute .unbounded entry.cost.objective (front entry.cost.constraints).toList
      entry.parameters tolerance = .ok (⟨|entry.cost.objective|,
        Vector.replicate e (infinityNorm (front entry.cost.constraints)),
        entry.parameters.map fun a => |a|⟩ : Scale ℝ e 0 n) := by
  have hnorm : infinityNorm (ofList (front entry.cost.constraints).toList) =
      infinityNorm (front entry.cost.constraints) := rfl
  have hparameters : (entry.parameters.map fun a => Scalar.clamp tolerance (1 / tolerance) |a|) =
      entry.parameters.map fun a => |a| := vector_ext fun i => by
    rw [get_map, get_map, Scalar.clamp_of_mem (h.parameters i)]
  rw [Scale.compute_eq ht.ne', if_pos he, hnorm, Scalar.clamp_of_mem h.objective,
    abs_of_pos (ht.trans_le h.constraints.1), Scalar.clamp_of_mem h.constraints]
  dsimp only
  rw [hparameters]

namespace Units

variable {u : Units n} {tolerance : ℝ} {entry : InnerStart ℝ ℝ e 0 n}

/-! The magnitudes at the point of entry in other units. -/

theorem abs_start_objective :
    |(u.start entry).cost.objective| = u.objective * |entry.cost.objective| := by
  show |u.objective * entry.cost.objective| = _
  rw [abs_mul, abs_of_pos u.objective_pos]

theorem infinityNorm_start_constraints :
    infinityNorm (front (u.start entry).cost.constraints) =
      u.constraint * infinityNorm (front entry.cost.constraints) := by
  have hfront : front (u.start entry).cost.constraints =
      scaled u.constraint (front entry.cost.constraints) := vector_ext fun i => by
    rw [get_front, get_scaled, get_front]
    exact get_scaled _ _ _
  rw [hfront, infinityNorm_scaled u.constraint_pos.le]

theorem abs_start_parameters (i : Fin (0 + n)) :
    |(u.start entry).parameters.get i| = u.decision.get i * |entry.parameters.get i| := by
  show |(u.parameters entry.parameters).get i| = _
  rw [get_parameters, abs_mul, abs_of_pos (u.decision_pos i)]

/-- Without limited magnitudes the scale changes with the units. -/
theorem compute_rescale (he : 0 < e) (h : Unclamped tolerance entry)
    (h' : Unclamped tolerance (u.start entry)) :
    Scale.compute .unbounded (u.start entry).cost.objective
      (front (u.start entry).cost.constraints).toList (u.start entry).parameters tolerance =
      (Scale.compute .unbounded entry.cost.objective (front entry.cost.constraints).toList
        entry.parameters tolerance : Except Error (Scale ℝ e 0 n)).map u.rescale := by
  -- a negative tolerance would leave no magnitude within its limits
  have hnonneg : 0 ≤ tolerance := by
    by_contra hneg
    have hlimit : 1 / tolerance < 0 := one_div_neg.mpr (not_le.mp hneg)
    exact absurd (h.objective.2.trans_lt hlimit) (abs_nonneg _).not_gt
  rcases hnonneg.eq_or_lt with rfl | ht
  · -- a tolerance of zero has no reciprocal in either unit
    have hrefused : (Scalar.quotient 1 0 : Except Error ℝ) = throw .divisionByZero :=
      if_pos ((Scalar.isZero_iff 0).mpr rfl)
    unfold Scale.compute
    rw [hrefused]
    rfl
  · have hequalities : (Vector.replicate e
        (u.constraint * infinityNorm (front entry.cost.constraints)) : Vector ℝ e) =
        scaled u.constraint (Vector.replicate e (infinityNorm (front entry.cost.constraints))) :=
      vector_ext fun i => by rw [get_scaled, get_replicate, get_replicate]
    have hparameters : ((u.start entry).parameters.map fun a => |a|) =
        u.parameters (entry.parameters.map fun a => |a|) := vector_ext fun i => by
      rw [get_map, abs_start_parameters, get_parameters, get_map]
    rw [h.compute_eq he ht, h'.compute_eq he ht, abs_start_objective,
      infinityNorm_start_constraints, hequalities, hparameters]
    rfl

end Units

end Sqp
