import Sqp.Proofs.Residuals
import Sqp.Proofs.Scale
import Sqp.Scale.Lists

/-!
# There and back

In exact arithmetic the way into scaled units and the way out undo each other.

- `Scale.Positive.values_pos`, `Scale.length_values`: all factors in one list.
- `Scale.unscale_scale`, `Scale.scale_unscale` for parameters, and their likes for
  multipliers, as vectors and as lists, and for curvature.
- `Scale.evaluate_scaleParameters`: at a point brought into scaled units, the cost function is
  called where the point came from.
- `Scale.RoundTrips`: all of this for one scale; `Scale.compute_roundTrips`: computed factors
  have it, whatever the positive tolerance.
-/

namespace Sqp.Scale

variable {e q n : Nat}

/-- One factor for the objective, one for each equality constraint, and one for each parameter. -/
theorem length_values {β : Type} (s : Scale β e q n) : s.values.length = 1 + e + (q + n) := by
  simp only [values, List.length_cons, List.length_append, Vector.length_toList]
  omega

variable {s : Scale ℝ e q n}

theorem Positive.values_pos (hs : s.Positive) : ∀ a ∈ s.values, 0 < a := by
  intro a ha
  simp only [values, List.mem_cons, List.mem_append, mem_toList_iff] at ha
  rcases ha with rfl | ⟨i, rfl⟩ | ⟨i, rfl⟩
  · exact hs.objective
  · exact hs.equalities i
  · exact hs.parameters i

/-! ## Parameters and curvature -/

/-- Unscaled and scaled again, a point is what it was. -/
theorem scale_unscale (hs : s.Positive) (p : Vector ℝ (q + n)) :
    s.scaleParameters (s.unscaleParameters p) = p :=
  vector_ext fun i => by
    rw [unscaleParameters, scaleParameters, get_divEach, get_mulEach,
      mul_div_cancel_right₀ _ (hs.parameters i).ne']

/-- Each entry of a curvature is multiplied and divided by the same three factors. -/
theorem unscaleCurvature_scaleCurvature (hs : s.Positive) (h : Mat ℝ (q + n) (q + n)) :
    s.unscaleCurvature (s.scaleCurvature h) = h :=
  Mat.ext_entry fun i j => by
    have hfactors := mul_pos (hs.parameters i) (hs.parameters j)
    rw [unscaleCurvature, scaleCurvature, Mat.entry_ofFn, Mat.entry_ofFn, Scalar.share_eq_div,
      mul_div_cancel₀ _ hs.objective.ne', mul_div_cancel_right₀ _ hfactors.ne']

/-- The other way round the same factors cancel. -/
theorem scaleCurvature_unscaleCurvature (hs : s.Positive) (h : Mat ℝ (q + n) (q + n)) :
    s.scaleCurvature (s.unscaleCurvature h) = h :=
  Mat.ext_entry fun i j => by
    have hfactors := mul_pos (hs.parameters i) (hs.parameters j)
    rw [unscaleCurvature, scaleCurvature, Mat.entry_ofFn, Mat.entry_ofFn, Scalar.share_eq_div,
      div_mul_cancel₀ _ hfactors.ne', mul_div_cancel_left₀ _ hs.objective.ne']

/-! ## Multipliers -/

theorem get_scaleMultipliers (s : Scale ℝ e q n) (y : Vector ℝ (e + q)) (i : Fin (e + q)) :
    (s.scaleMultipliers y).get i = s.constraints.get i * y.get i / s.objective := by
  rw [scaleMultipliers, get_map, Scalar.share_eq_div, get_mulEach]

theorem get_unscaleMultipliers (s : Scale ℝ e q n) (y : Vector ℝ (e + q)) (i : Fin (e + q)) :
    (s.unscaleMultipliers y).get i = s.objective * y.get i / s.constraints.get i := by
  rw [unscaleMultipliers, get_divEach, get_scaled]

/-- A multiplier goes in with the factors of its constraint and of the objective, and out with
their inverses. -/
theorem unscaleMultipliers_scaleMultipliers (hs : s.Positive) (y : Vector ℝ (e + q)) :
    s.unscaleMultipliers (s.scaleMultipliers y) = y :=
  vector_ext fun i => by
    rw [get_unscaleMultipliers, get_scaleMultipliers, mul_div_cancel₀ _ hs.objective.ne',
      mul_div_cancel_left₀ _ (hs.constraints i).ne']

theorem scaleMultipliers_unscaleMultipliers (hs : s.Positive) (y : Vector ℝ (e + q)) :
    s.scaleMultipliers (s.unscaleMultipliers y) = y :=
  vector_ext fun i => by
    rw [get_scaleMultipliers, get_unscaleMultipliers, mul_div_cancel₀ _ (hs.constraints i).ne',
      mul_div_cancel_left₀ _ hs.objective.ne']

/-- Without constraints multipliers are handed through, and there is no telling how many they
are; otherwise there is one for each constraint. -/
def MultiplierCount (e q : Nat) (ys : List ℝ) : Prop := e + q = 0 ∨ ys.length = e + q

/-- Two conversions of lists undo each other if those of vectors do. Without constraints there is
nothing to undo. -/
theorem converted_bind_converted {m : Nat} {f g : Vector ℝ m → Vector ℝ m}
    (hinverse : ∀ y, g (f y) = y) (otherwise otherwise' : List ℝ → Except Error (List ℝ))
    {ys : List ℝ} (hcount : m = 0 ∨ ys.length = m) :
    ((if m = 0 then pure ys else onFitting f otherwise ys) >>= fun ys =>
      if m = 0 then pure ys else onFitting g otherwise' ys) = .ok ys := by
  by_cases hnone : m = 0
  · simp only [if_pos hnone]
    rfl
  · simp only [if_neg hnone]
    obtain ⟨y, rfl⟩ := exists_toList_eq (hcount.resolve_left hnone)
    rw [onFitting_toList]
    exact (onFitting_toList g otherwise' (f y)).trans (by rw [hinverse])

/-- Lists of multipliers undo each other since vectors do. -/
theorem scaleMultiplierValues_bind_unscale (hs : s.Positive) {ys : List ℝ}
    (hcount : MultiplierCount e q ys) :
    (s.scaleMultiplierValues ys >>= s.unscaleMultiplierValues) = .ok ys :=
  converted_bind_converted (unscaleMultipliers_scaleMultipliers hs) _ _ hcount

theorem unscaleMultiplierValues_bind_scale (hs : s.Positive) {ys : List ℝ}
    (hcount : MultiplierCount e q ys) :
    (s.unscaleMultiplierValues ys >>= s.scaleMultiplierValues) = .ok ys :=
  converted_bind_converted (scaleMultipliers_unscaleMultipliers hs) _ _ hcount

/-! ## Evaluations -/

/-- A point brought into scaled units is handed to the cost function as it was. -/
theorem userPoint_scaleParameters (hs : s.Positive) (p : Vector ℝ (q + n)) :
    s.userPoint (s.scaleParameters p) = back p := by
  rw [userPoint_eq, unscale_scale hs]

/-- So its scaled cost vector is the cost vector of the user, scaled. -/
theorem evaluate_scaleParameters (hs : s.Positive) (f : CostFunction ℝ) (p : Vector ℝ (q + n)) :
    (s.evaluate f (s.scaleParameters p) : Recorded ℝ (Cost ℝ (e + q))) =
      do return s.scaleCost (← evaluateSized f (e + q) (back p).toList) := by
  rw [evaluate, userPoint_scaleParameters hs]

/-! ## All together -/

/-- The factors of a scale are positive, one for the objective, each equality constraint and
each parameter, and what is brought into scaled units can be brought back. -/
structure RoundTrips (s : Scale ℝ e q n) : Prop where
  length : s.values.length = 1 + e + (q + n)
  positive : ∀ a ∈ s.values, 0 < a
  parameters : ∀ p, s.unscaleParameters (s.scaleParameters p) = p ∧
    s.scaleParameters (s.unscaleParameters p) = p
  multipliers : ∀ y, s.unscaleMultipliers (s.scaleMultipliers y) = y ∧
    s.scaleMultipliers (s.unscaleMultipliers y) = y
  multiplierValues : ∀ ys, MultiplierCount e q ys →
    (s.scaleMultiplierValues ys >>= s.unscaleMultiplierValues) = .ok ys ∧
    (s.unscaleMultiplierValues ys >>= s.scaleMultiplierValues) = .ok ys
  curvature : ∀ h, s.unscaleCurvature (s.scaleCurvature h) = h ∧
    s.scaleCurvature (s.unscaleCurvature h) = h
  userPoint : ∀ p, s.userPoint (s.scaleParameters p) = back p
  evaluate : ∀ (f : CostFunction ℝ) p,
    (s.evaluate f (s.scaleParameters p) : Recorded ℝ (Cost ℝ (e + q))) =
      do return s.scaleCost (← evaluateSized f (e + q) (back p).toList)

theorem Positive.roundTrips (hs : s.Positive) : s.RoundTrips where
  length := length_values s
  positive := hs.values_pos
  parameters p := ⟨unscale_scale hs p, scale_unscale hs p⟩
  multipliers y :=
    ⟨unscaleMultipliers_scaleMultipliers hs y, scaleMultipliers_unscaleMultipliers hs y⟩
  multiplierValues _ hcount :=
    ⟨scaleMultiplierValues_bind_unscale hs hcount, unscaleMultiplierValues_bind_scale hs hcount⟩
  curvature h := ⟨unscaleCurvature_scaleCurvature hs h, scaleCurvature_unscaleCurvature hs h⟩
  userPoint := userPoint_scaleParameters hs
  evaluate := evaluate_scaleParameters hs

/-- The factors at a point, of any problem and for any positive tolerance. They are there, and
the two ways undo each other. -/
theorem compute_roundTrips (problem : Problem ℝ e q n) (cost : Cost ℝ (e + q))
    (p : Vector ℝ (q + n)) {tolerance : ℝ} (ht : 0 < tolerance) :
    ∃ s : Scale ℝ e q n,
      compute problem.mode cost.objective (front cost.constraints).toList p tolerance = .ok s ∧
        s.RoundTrips := by
  obtain ⟨s, hcompute, hs⟩ :=
    exists_compute (e := e) problem.mode cost.objective (front cost.constraints).toList p ht
  exact ⟨s, hcompute, hs.roundTrips⟩

/-- A tolerance above one, for which the limits of the factors are the wrong way round. -/
theorem compute_roundTrips_wide :
    (0 : ℝ) < 4 ∧ ∃ s : Scale ℝ 1 1 1,
      compute .unbounded 3 [-7] #v[0.5, 2] (4 : ℝ) = .ok s ∧ s.RoundTrips :=
  ⟨by norm_num,
    compute_roundTrips (e := 1) (q := 1) (n := 1) ⟨#v[0.5, 2], #v[none, none], .unbounded⟩
      ⟨3, #v[-7, 5]⟩ #v[0.5, 2] (by norm_num)⟩

end Sqp.Scale
