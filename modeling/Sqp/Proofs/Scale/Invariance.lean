import Mathlib.Algebra.BigOperators.Field
import Sqp.Proofs.Curvature
import Sqp.Proofs.Residuals
import Sqp.Proofs.Scale

/-!
# What scaling leaves alone

Each part of an inner solve has factors of its own, which overlap: an inequality constraint uses
the one of its slack. In exact arithmetic they fit together, so that the scaled problem is the
problem that was posed, in other units.

- `Scale.values_eq_append`: the factors of each part as a slice of all factors.
- `Scale.measureSlacks_scaleCost`: residuals are divided by the factors of a cost vector.
- `Scale.dot_scaleMultipliers`, `Scale.dot_scaleCurvature`: the pairing with multipliers and the
  quadratic form are divided by the factor of the objective.
- `Scale.KeepsMeaning`: all of this for one scale; `Scale.compute_keepsMeaning`: computed factors
  have it.
-/

namespace Sqp.Scale

open Matrix

variable {e q n : Nat}

/-! ## Slices -/

section Slices

variable {β : Type}

/-- After the factors of a cost vector come those of the decision variables. -/
theorem values_eq_append (s : Scale β e q n) :
    s.values = s.cost.toList ++ s.decisions.toList := by
  rw [values, Cost.toList, cost, constraints, decisions, Vector.toList_append,
    toList_eq_append s.parameters]
  simp only [List.cons_append, List.append_assoc]

theorem toList_cost (s : Scale β e q n) : s.cost.toList = s.values.take (1 + (e + q)) := by
  rw [values_eq_append, List.take_left' (by rw [Cost.length_toList, Nat.add_comm])]

theorem toList_constraints (s : Scale β e q n) :
    s.constraints.toList = (s.values.drop 1).take (e + q) := by
  have htail : s.values.drop 1 = s.constraints.toList ++ s.decisions.toList := by
    rw [values_eq_append]
    rfl
  rw [htail, List.take_left' Vector.length_toList]

theorem toList_parameters (s : Scale β e q n) : s.parameters.toList = s.values.drop (1 + e) := by
  have hvalues : s.values = (s.objective :: s.equalities.toList) ++ s.parameters.toList := rfl
  rw [hvalues, List.drop_left' (by rw [List.length_cons, Vector.length_toList, Nat.add_comm])]

theorem toList_decisions (s : Scale β e q n) :
    s.decisions.toList = s.values.drop (1 + (e + q)) := by
  rw [values_eq_append, List.drop_left' (by rw [Cost.length_toList, Nat.add_comm])]

end Slices

variable {s : Scale ℝ e q n}

/-! ## Residuals -/

/-- The residuals of a scaled cost vector at a scaled point. -/
theorem slackResiduals_scaled (hs : s.Positive) (c : Cost ℝ (e + q)) (p : Vector ℝ (q + n)) :
    slackResiduals (s.scaleCost c).constraints (s.scaleParameters p) =
      divEach (slackResiduals c.constraints p) s.constraints := by
  rw [slackResiduals_scaleCost hs, unscale_scale hs]

theorem toList_divEach {k : Nat} (x y : Vector ℝ k) :
    (divEach x y).toList = List.zipWith (· / ·) x.toList y.toList :=
  List.ext_getElem (by simp) fun i _ _ => by simp [divEach]

/-- Objective and residuals of a scaled cost vector at a scaled point are those in user units
divided by the factors of a cost vector, one by one. -/
theorem measureSlacks_scaleCost (hs : s.Positive) (c : Cost ℝ (e + q)) (p : Vector ℝ (q + n)) :
    measureSlacks e q (s.scaleCost c).toList (s.scaleParameters p).toList =
      .ok (List.zipWith (· / ·) (c.objective :: (slackResiduals c.constraints p).toList)
        s.cost.toList) := by
  rw [measureSlacks_toList, slackResiduals_scaled hs, toList_divEach]
  rfl

/-! ## Multipliers and curvature -/

/-- Residuals lose the factors of the constraints, which multipliers gain. -/
theorem dot_scaleMultipliers (hs : s.Positive) (y r : Vector ℝ (e + q)) :
    dot (s.scaleMultipliers y) (divEach r s.constraints) = dot y r / s.objective := by
  rw [dot_eq_dotProduct, dot_eq_dotProduct, dotProduct_eq_sum, dotProduct_eq_sum, Finset.sum_div]
  refine Finset.sum_congr rfl fun i _ => ?_
  have hfactor := (hs.constraints i).ne'
  rw [scaleMultipliers, get_map, Scalar.share_eq_div, get_mulEach, get_divEach]
  field_simp

/-- The scaled Lagrangian is the Lagrangian divided by the factor of the objective. -/
theorem lagrangian_scaleCost (hs : s.Positive) (c : Cost ℝ (e + q)) (p : Vector ℝ (q + n))
    (y : Vector ℝ (e + q)) :
    (s.scaleCost c).objective - dot (s.scaleMultipliers y)
        (slackResiduals (s.scaleCost c).constraints (s.scaleParameters p)) =
      (c.objective - dot y (slackResiduals c.constraints p)) / s.objective := by
  rw [slackResiduals_scaled hs, dot_scaleMultipliers hs, scaleCost, sub_div]

/-- A direction loses the factors of the parameters, which rows and columns gain. -/
theorem dot_scaleCurvature (hs : s.Positive) (h : Mat ℝ (q + n) (q + n)) (u : Vector ℝ (q + n)) :
    dot (s.scaleParameters u) ((s.scaleCurvature h).mulVec (s.scaleParameters u)) =
      dot u (h.mulVec u) / s.objective := by
  have hdirection : diagonal s.parameters.get *ᵥ (s.scaleParameters u).get = u.get := by
    rw [← get_mulEach_eq]
    refine congrArg Vector.get (vector_ext fun i => ?_)
    rw [get_mulEach, scaleParameters, get_divEach, mul_div_cancel₀ _ (hs.parameters i).ne']
  have hproduct : ((s.scaleCurvature h).mulVec (s.scaleParameters u)).get =
      s.objective⁻¹ • (diagonal s.parameters.get *ᵥ (h.toMatrix *ᵥ u.get)) := by
    rw [Mat.get_mulVec_eq, toMatrix_scaleCurvature, smul_mulVec, ← mulVec_mulVec, ← mulVec_mulVec,
      hdirection]
  rw [dot_eq_dotProduct, dot_eq_dotProduct, hproduct, Mat.get_mulVec_eq, dotProduct_smul,
    dotProduct_mulVec, ← mulVec_transpose, diagonal_transpose, hdirection, smul_eq_mul,
    inv_mul_eq_div]

/-! ## All together -/

/-- The factors of all parts are slices of one list, and the scaled residuals, Lagrangian,
quadratic form and bounds say of a scaled point what those in user units say of the point. -/
structure KeepsMeaning (s : Scale ℝ e q n) : Prop where
  cost : s.cost.toList = s.values.take (1 + (e + q))
  constraints : s.constraints.toList = (s.values.drop 1).take (e + q)
  parameters : s.parameters.toList = s.values.drop (1 + e)
  decisions : s.decisions.toList = s.values.drop (1 + (e + q))
  residuals : ∀ (c : Cost ℝ (e + q)) (p : Vector ℝ (q + n)),
    measureSlacks e q c.toList p.toList =
        .ok (c.objective :: (slackResiduals c.constraints p).toList) ∧
      measureSlacks e q (s.scaleCost c).toList (s.scaleParameters p).toList =
        .ok (List.zipWith (· / ·) (c.objective :: (slackResiduals c.constraints p).toList)
          s.cost.toList)
  lagrangian : ∀ (c : Cost ℝ (e + q)) (p : Vector ℝ (q + n)) (y : Vector ℝ (e + q)),
    (s.scaleCost c).objective - dot (s.scaleMultipliers y)
        (slackResiduals (s.scaleCost c).constraints (s.scaleParameters p)) =
      (c.objective - dot y (slackResiduals c.constraints p)) / s.objective
  curvature : ∀ (h : Mat ℝ (q + n) (q + n)) (u : Vector ℝ (q + n)),
    dot (s.scaleParameters u) ((s.scaleCurvature h).mulVec (s.scaleParameters u)) =
      dot u (h.mulVec u) / s.objective
  holds : ∀ (b : Bounds ℝ (q + n)) (p : Vector ℝ (q + n)),
    (s.scaleBounds b).Holds (s.scaleParameters p) ↔ b.Holds p
  strictlyInside : ∀ (b : Bounds ℝ (q + n)) (p : Vector ℝ (q + n)),
    (s.scaleBounds b).strictlyInside (s.scaleParameters p) = true ↔ b.strictlyInside p = true

theorem Positive.keepsMeaning (hs : s.Positive) : s.KeepsMeaning where
  cost := toList_cost s
  constraints := toList_constraints s
  parameters := toList_parameters s
  decisions := toList_decisions s
  residuals c p := ⟨measureSlacks_toList c p, measureSlacks_scaleCost hs c p⟩
  lagrangian := lagrangian_scaleCost hs
  curvature := dot_scaleCurvature hs
  holds _ _ := holds_scaleBounds_iff hs
  strictlyInside _ _ := strictlyInside_scaleBounds_iff hs

/-- The factors at a point, of any problem and for any positive tolerance: they are there, and
the scaled problem means what the problem means. -/
theorem compute_keepsMeaning (problem : Problem ℝ e q n) (cost : Cost ℝ (e + q))
    (p : Vector ℝ (q + n)) {tolerance : ℝ} (ht : 0 < tolerance) :
    ∃ s : Scale ℝ e q n,
      compute problem.mode cost.objective (front cost.constraints).toList p tolerance = .ok s ∧
        s.KeepsMeaning := by
  obtain ⟨s, hcompute, hs⟩ :=
    exists_compute (e := e) problem.mode cost.objective (front cost.constraints).toList p ht
  exact ⟨s, hcompute, hs.keepsMeaning⟩

/-- One constraint of each kind, and a slack within bounds. -/
theorem compute_keepsMeaning_mixed :
    (0 : ℝ) < 0.001 ∧ ∃ s : Scale ℝ 1 1 1,
      compute .slackBounded 3 [-7] #v[0.5, 2] (0.001 : ℝ) = .ok s ∧ s.KeepsMeaning :=
  ⟨by norm_num,
    compute_keepsMeaning (e := 1) (q := 1) (n := 1)
      ⟨#v[0.5, 2], #v[some ⟨0, 1⟩, none], .slackBounded⟩ ⟨3, #v[-7, 5]⟩ #v[0.5, 2] (by norm_num)⟩

end Sqp.Scale
