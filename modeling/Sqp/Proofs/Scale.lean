import Sqp.Proofs.Bounds
import Sqp.Proofs.Journal
import Sqp.Merit
import Sqp.Scale

/-!
# Scaling in exact arithmetic

- `Scale.Positive`: all factors are positive; `Scale.compute_positive` says that computed
  factors are, for any positive tolerance, and `Scale.exists_compute` that there are some.
- `Scale.unscale_scale`: scaled and unscaled again, a point is what it was.
- `Scale.holds_scaleBounds_iff`, `Scale.strictlyInside_scaleBounds_iff`: a point keeps its place
  relative to the bounds.
- `Scale.userPoint_eq`, `Scale.userPoint_nudge`: the decision vectors at which the cost
  function is called, in terms of the unscaled point.
- `Scale.slackResiduals_scaleCost`: scaled residuals are residuals divided by the factors
  of the constraints.
-/

namespace Sqp

variable {e q n : Nat}

namespace Scale

/-- All factors are positive. -/
structure Positive (s : Scale ℝ e q n) : Prop where
  objective : 0 < s.objective
  equalities : ∀ i, 0 < s.equalities.get i
  parameters : ∀ i, 0 < s.parameters.get i

/-- The factor of every parameter of a problem with bounds, limited like all others. -/
noncomputable def boundedFactor (tolerance : ℝ) : ℝ := Scalar.clamp tolerance (1 / tolerance) 1

/-! ## Computed factors -/

/-- The factors of a scale, for a tolerance that has a reciprocal. -/
theorem compute_eq {mode : BoundMode} {objective : ℝ} {equalities : List ℝ} {p : Vector ℝ (q + n)}
    {tolerance : ℝ} (ht : tolerance ≠ 0) :
    (compute mode objective equalities p tolerance : Except Error (Scale ℝ e q n)) = .ok {
      objective := Scalar.clamp tolerance (1 / tolerance) |if 0 < e then objective else 1|
      equalities := Vector.replicate e
        (Scalar.clamp tolerance (1 / tolerance) |infinityNorm (ofList equalities)|)
      parameters :=
        match mode with
        | .unbounded => p.map fun a => Scalar.clamp tolerance (1 / tolerance) |a|
        | _ => Vector.replicate (q + n) (Scalar.clamp tolerance (1 / tolerance) |1|) } := by
  unfold compute
  rw [Scalar.quotient_eq 1 ht]
  rfl

variable {mode : BoundMode} {objective tolerance : ℝ} {equalities : List ℝ}
  {p : Vector ℝ (q + n)} {s : Scale ℝ e q n}

/-- Limited magnitudes are positive, whichever of the two limits is the larger one. -/
theorem compute_positive (ht : 0 < tolerance)
    (h : compute mode objective equalities p tolerance = .ok s) : s.Positive := by
  rw [compute_eq ht.ne'] at h
  cases h
  refine ⟨Scalar.clamp_pos ht _, fun i => ?_, fun i => ?_⟩
  · rw [get_replicate]
    exact Scalar.clamp_pos ht _
  · cases mode with
    | unbounded =>
      show 0 < (p.map fun a => Scalar.clamp tolerance (1 / tolerance) |a|).get i
      rw [get_map]
      exact Scalar.clamp_pos ht _
    | slackBounded | fullyBounded =>
      show 0 < (Vector.replicate (q + n) (Scalar.clamp tolerance (1 / tolerance) |(1 : ℝ)|)).get i
      rw [get_replicate]
      exact Scalar.clamp_pos ht _

/-- A positive tolerance has a reciprocal. -/
theorem exists_compute (mode : BoundMode) (objective : ℝ) (equalities : List ℝ)
    (p : Vector ℝ (q + n)) (ht : 0 < tolerance) :
    ∃ s : Scale ℝ e q n, compute mode objective equalities p tolerance = .ok s ∧ s.Positive :=
  ⟨_, compute_eq ht.ne', compute_positive ht (compute_eq ht.ne')⟩

/-- Where something is bounded, all parameters have the same factor. -/
theorem compute_parameters (ht : 0 < tolerance) (hmode : mode ≠ .unbounded)
    (h : compute mode objective equalities p tolerance = .ok s) (i : Fin (q + n)) :
    s.parameters.get i = boundedFactor tolerance := by
  rw [compute_eq ht.ne'] at h
  cases h
  cases mode with
  | unbounded => exact absurd rfl hmode
  | slackBounded | fullyBounded =>
    show (Vector.replicate (q + n) (Scalar.clamp tolerance (1 / tolerance) |(1 : ℝ)|)).get i = _
    rw [get_replicate, abs_one]
    rfl

/-! ## The way in and out -/

theorem get_constraints_castAdd (s : Scale ℝ e q n) (i : Fin e) :
    s.constraints.get (i.castAdd q) = s.equalities.get i :=
  get_append_castAdd _ _ i

/-- An inequality constraint has the factor of its slack. -/
theorem get_constraints_natAdd (s : Scale ℝ e q n) (i : Fin q) :
    s.constraints.get (i.natAdd e) = s.parameters.get (i.castAdd n) :=
  (get_append_natAdd _ _ i).trans (get_front _ i)

/-- The factors of inequality constraints are those of their slacks. -/
theorem Positive.constraints (hs : s.Positive) (i : Fin (e + q)) : 0 < s.constraints.get i := by
  refine Fin.addCases (fun k => ?_) (fun k => ?_) i
  · rw [get_constraints_castAdd]
    exact hs.equalities k
  · rw [get_constraints_natAdd]
    exact hs.parameters _

/-- Scaled and unscaled again, a point is what it was. -/
theorem unscale_scale (hs : s.Positive) (p : Vector ℝ (q + n)) :
    s.unscaleParameters (s.scaleParameters p) = p :=
  vector_ext fun i => by
    rw [unscaleParameters, scaleParameters, get_mulEach, get_divEach,
      div_mul_cancel₀ _ (hs.parameters i).ne']

/-- Scaling keeps points inside their bounds, and points outside stay outside. -/
theorem holds_scaleBounds_iff (hs : s.Positive) {b : Bounds ℝ (q + n)} {p : Vector ℝ (q + n)} :
    (s.scaleBounds b).Holds (s.scaleParameters p) ↔ b.Holds p := by
  have hpoint : mulEach (s.scaleParameters p) s.parameters = p := unscale_scale hs p
  rw [scaleBounds, Bounds.holds_divide_iff hs.parameters, hpoint]

/-- The same of points strictly inside. -/
theorem strictlyInside_scaleBounds_iff (hs : s.Positive) {b : Bounds ℝ (q + n)}
    {p : Vector ℝ (q + n)} :
    (s.scaleBounds b).strictlyInside (s.scaleParameters p) = true ↔
      b.strictlyInside p = true := by
  have hpoint : mulEach (s.scaleParameters p) s.parameters = p := unscale_scale hs p
  rw [scaleBounds, Bounds.strictlyInside_divide_iff hs.parameters, hpoint]

/-- The cost function is called at the decision part of the unscaled point. -/
theorem userPoint_eq (s : Scale ℝ e q n) (p : Vector ℝ (q + n)) :
    s.userPoint p = back (s.unscaleParameters p) :=
  vector_ext fun i => by
    rw [userPoint, get_mulEach, decisions, get_back, get_back, get_back, unscaleParameters,
      get_mulEach]

/-- A shift of a scaled decision variable shifts the unscaled one by its factor times as
much. -/
theorem userPoint_nudge (s : Scale ℝ e q n) (p : Vector ℝ (q + n)) (i : Fin n) (h : ℝ) :
    s.userPoint (nudge p (i.natAdd q) h) =
      nudge (back (s.unscaleParameters p)) i (h * s.parameters.get (i.natAdd q)) :=
  vector_ext fun j => by
    rw [userPoint_eq, get_back, unscaleParameters, get_mulEach, get_nudge, get_nudge, get_back,
      unscaleParameters, get_mulEach]
    by_cases hij : i = j
    · subst hij
      simp [add_mul]
    · simp [hij]

/-! ## Residuals -/

theorem get_slackResiduals_castAdd (c : Vector ℝ (e + q)) (p : Vector ℝ (q + n)) (i : Fin e) :
    (slackResiduals c p).get (i.castAdd q) = c.get (i.castAdd q) := by
  rw [slackResiduals, get_append_castAdd, get_front]

/-- That of an inequality constraint is its distance from the slack. -/
theorem get_slackResiduals_natAdd (c : Vector ℝ (e + q)) (p : Vector ℝ (q + n)) (i : Fin q) :
    (slackResiduals c p).get (i.natAdd e) = c.get (i.natAdd e) - p.get (i.castAdd n) := by
  rw [slackResiduals, get_append_natAdd, get_sub, get_back, get_front]

/-- Since an inequality constraint and its slack share their factor, the residuals scale
like the constraints. -/
theorem slackResiduals_scaleCost (hs : s.Positive) (c : Cost ℝ (e + q)) (p : Vector ℝ (q + n)) :
    slackResiduals (s.scaleCost c).constraints p =
      divEach (slackResiduals c.constraints (s.unscaleParameters p)) s.constraints := by
  refine vector_ext fun i => ?_
  rw [get_divEach]
  refine Fin.addCases (fun k => ?_) (fun k => ?_) i
  · rw [get_slackResiduals_castAdd, get_slackResiduals_castAdd, scaleCost, get_divEach]
  · rw [get_slackResiduals_natAdd, get_slackResiduals_natAdd, scaleCost, get_divEach,
      unscaleParameters, get_mulEach, get_constraints_natAdd, sub_div,
      mul_div_cancel_right₀ _ (hs.parameters _).ne']

end Scale

end Sqp
