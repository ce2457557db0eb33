import Sqp.Proofs.Curvature

/-!
# What a secant update learns

A secant update takes one rank-one term off a matrix and adds one, so that the matrix maps the
step to the change of the gradient along it.

- `Curvature.update_eq_self`: the update is skipped where the gradient does not grow along the
  step.
- `Curvature.mulVec_update`: elsewhere the secant equation holds.
- `Curvature.dotProduct_mulVec_update`: what the update does to the quadratic form of any vector.
- `Curvature.update_spec`: the whole contract of the update, for a positive definite matrix.
-/

namespace Sqp.Curvature

open Matrix

variable {n : Nat} {h : Mat ℝ n n} {s y : Vector ℝ n}

/-- Without growth of the gradient along the step nothing is learned. -/
theorem update_eq_self (hsecant : ¬ 0 < dot s y) : update h s y = h :=
  if_neg fun hpos => hsecant hpos.2

/-- A step along which the gradient grows is not zero, and so it has a positive curvature. -/
theorem curvature_pos_of_secant_pos (hh : h.toMatrix.PosDef) (hsecant : 0 < s.get ⬝ᵥ y.get) :
    0 < s.get ⬝ᵥ (h.toMatrix *ᵥ s.get) := by
  have hs : s.get ≠ 0 := by
    intro hzero
    rw [hzero, zero_dotProduct] at hsecant
    exact lt_irrefl 0 hsecant
  simpa using hh.dotProduct_mulVec_pos hs

/-- The product of a rank-one term with a vector. -/
theorem smul_vecMulVec_self_mulVec (c : ℝ) (w x : Fin n → ℝ) :
    (c • vecMulVec w w) *ᵥ x = (c * (w ⬝ᵥ x)) • w := by
  rw [smul_mulVec, vecMulVec_mulVec, op_smul_eq_smul, smul_smul]

/-- The secant equation: the updated matrix maps the step to the change of the gradient. -/
theorem mulVec_update (hcurvature : 0 < s.get ⬝ᵥ (h.toMatrix *ᵥ s.get))
    (hsecant : 0 < s.get ⬝ᵥ y.get) : (update h s y).toMatrix *ᵥ s.get = y.get :=
  calc (update h s y).toMatrix *ᵥ s.get
      = h.toMatrix *ᵥ s.get +
          (-(s.get ⬝ᵥ (h.toMatrix *ᵥ s.get))⁻¹ * ((h.toMatrix *ᵥ s.get) ⬝ᵥ s.get)) •
            (h.toMatrix *ᵥ s.get) +
          ((s.get ⬝ᵥ y.get)⁻¹ * (y.get ⬝ᵥ s.get)) • y.get := by
        rw [toMatrix_update h s y ⟨hcurvature, hsecant⟩, add_mulVec, add_mulVec,
          smul_vecMulVec_self_mulVec, smul_vecMulVec_self_mulVec]
    _ = h.toMatrix *ᵥ s.get + (-1 : ℝ) • (h.toMatrix *ᵥ s.get) + (1 : ℝ) • y.get := by
        rw [dotProduct_comm _ s.get, dotProduct_comm _ s.get, neg_mul,
          inv_mul_cancel₀ hcurvature.ne', inv_mul_cancel₀ hsecant.ne']
    _ = y.get := by rw [neg_one_smul, one_smul, add_neg_cancel, zero_add]

/-- The quadratic form of the updated matrix. -/
theorem dotProduct_mulVec_update (hcurvature : 0 < s.get ⬝ᵥ (h.toMatrix *ᵥ s.get))
    (hsecant : 0 < s.get ⬝ᵥ y.get) (x : Fin n → ℝ) :
    x ⬝ᵥ ((update h s y).toMatrix *ᵥ x) = x ⬝ᵥ (h.toMatrix *ᵥ x) -
      ((h.toMatrix *ᵥ s.get) ⬝ᵥ x) ^ 2 / (s.get ⬝ᵥ (h.toMatrix *ᵥ s.get)) +
      (y.get ⬝ᵥ x) ^ 2 / (s.get ⬝ᵥ y.get) := by
  rw [toMatrix_update h s y ⟨hcurvature, hsecant⟩, add_mulVec, add_mulVec, dotProduct_add,
    dotProduct_add, dotProduct_vecMulVec_self, dotProduct_vecMulVec_self]
  ring

/-- The contract of the secant update. It keeps a matrix symmetric and positive definite. If the
gradient grows along the step, the updated matrix satisfies the secant equation, and it agrees
with the old one on all vectors that the two terms do not see; otherwise the matrix is kept. -/
theorem update_spec (hh : h.toMatrix.PosDef) (s y : Vector ℝ n) :
    (update h s y).toMatrix.IsSymm ∧ (update h s y).toMatrix.PosDef ∧
      (0 < dot s y → s ≠ zeros ℝ n ∧ 0 < dot s (h.mulVec s) ∧ (update h s y).mulVec s = y ∧
        ∀ x, dot x (h.mulVec s) = 0 → dot x y = 0 →
          dot x ((update h s y).mulVec x) = dot x (h.mulVec x)) ∧
      (¬ 0 < dot s y → update h s y = h) := by
  have hupdate := update_posDef hh s y
  refine ⟨by simpa using hupdate.isHermitian, hupdate, fun hsecant => ?_, update_eq_self⟩
  rw [dot_eq_dotProduct] at hsecant
  -- a positive secant product makes the other denominator positive too, so the update is made
  have hcurvature := curvature_pos_of_secant_pos hh hsecant
  refine ⟨?_, ?_, ?_, fun x hstep hchange => ?_⟩
  · rintro rfl
    rw [get_zeros_eq, zero_dotProduct] at hsecant
    exact lt_irrefl 0 hsecant
  · rwa [dot_eq_dotProduct, Mat.get_mulVec_eq]
  · refine vector_ext fun i => ?_
    rw [Mat.get_mulVec_eq, mulVec_update hcurvature hsecant]
  · rw [dot_eq_dotProduct, Mat.get_mulVec_eq, dotProduct_comm] at hstep
    rw [dot_eq_dotProduct, dotProduct_comm] at hchange
    rw [dot_eq_dotProduct, dot_eq_dotProduct, Mat.get_mulVec_eq, Mat.get_mulVec_eq,
      dotProduct_mulVec_update hcurvature hsecant, hstep, hchange]
    ring

/-- A unit step from the identity, along which the gradient grows by two and turns towards the
second axis. The third axis is not seen. -/
theorem update_spec_unit :
    (Mat.identity ℝ 3).toMatrix.PosDef ∧ 0 < dot (#v[1, 0, 0] : Vector ℝ 3) #v[2, 1, 0] ∧
      (update (Mat.identity ℝ 3) #v[1, 0, 0] #v[2, 1, 0]).toMatrix.PosDef ∧
      (update (Mat.identity ℝ 3) #v[1, 0, 0] #v[2, 1, 0]).mulVec #v[1, 0, 0] = #v[2, 1, 0] ∧
      dot #v[0, 0, 1] ((update (Mat.identity ℝ 3) #v[1, 0, 0] #v[2, 1, 0]).mulVec #v[0, 0, 1]) =
        dot #v[0, 0, 1] ((Mat.identity ℝ 3).mulVec #v[0, 0, 1]) := by
  have hh := Mat.identity_posDef 3
  have hdot : ∀ x y : Vector ℝ 3,
      dot x y = x.get 0 * y.get 0 + x.get 1 * y.get 1 + x.get 2 * y.get 2 := fun x y => by
    rw [dot_eq_dotProduct, dotProduct_eq_sum, Fin.sum_univ_three]
  have hsecant : 0 < dot (#v[1, 0, 0] : Vector ℝ 3) #v[2, 1, 0] := by
    rw [hdot]
    show (0 : ℝ) < 1 * 2 + 0 * 1 + 0 * 0
    norm_num
  have hstep : (Mat.identity ℝ 3).mulVec #v[1, 0, 0] = #v[1, 0, 0] := vector_ext fun i => by
    rw [Mat.get_mulVec_eq, Mat.toMatrix_identity, one_mulVec]
  obtain ⟨-, hupdate, hlearned, -⟩ := update_spec hh #v[1, 0, 0] #v[2, 1, 0]
  obtain ⟨-, -, hequation, hunseen⟩ := hlearned hsecant
  refine ⟨hh, hsecant, hupdate, hequation, hunseen _ ?_ ?_⟩
  · rw [hstep, hdot]
    show (0 : ℝ) * 1 + 0 * 0 + 1 * 0 = 0
    norm_num
  · rw [hdot]
    show (0 : ℝ) * 2 + 0 * 1 + 1 * 0 = 0
    norm_num

end Sqp.Curvature
