import Mathlib.Algebra.Order.Star.Real
import Sqp.Proofs.Linear.Entries
import Sqp.Curvature
import Sqp.Linear.Cholesky
import Sqp.NewtonStep
import Sqp.Scale

/-!
# Positive definite curvature

In exact arithmetic the curvature of a descent stays positive definite on its way from
the user to the factorisation and back.

- `Curvature.update_posDef`: the secant update, which is skipped unless both of its
  denominators are positive, keeps a matrix positive definite.
- `Scale.scaleCurvature_posDef`, `Scale.unscaleCurvature_posDef`: so do scaling by positive
  factors and its reverse.
- `NewtonStep.dampedMatrix_posDef`: so does damping.
- `Curvature.symmetrize_posDef`, `Curvature.diagonalize_posDef`: so do the two ways to drop
  entries, which make any matrix symmetric (`Curvature.symmetrize_isSymm`,
  `Curvature.diagonalize_isSymm`).
- `Cholesky.toMatrix_symmetricPart`: a symmetric matrix is its own symmetric part.
-/

namespace Sqp

open Matrix

variable {m n e q : Nat}

/-! ## Secant updates -/

/-- The value of a quadratic form after a rank-one term has been added. -/
theorem dotProduct_vecMulVec_self (c : ℝ) (w x : Fin n → ℝ) :
    x ⬝ᵥ ((c • vecMulVec w w) *ᵥ x) = c * (w ⬝ᵥ x) ^ 2 := by
  rw [smul_mulVec, vecMulVec_mulVec, dotProduct_smul, dotProduct_smul, dotProduct_comm x w, pow_two]
  rfl

theorem isHermitian_vecMulVec_self (c : ℝ) (w : Fin n → ℝ) : (c • vecMulVec w w).IsHermitian :=
  IsHermitian.ext fun i j => by
    simp [vecMulVec_apply, mul_comm]

/-- A quadratic form at a point of which a multiple of `s` is taken off. -/
theorem dotProduct_mulVec_sub_smul {h : Matrix (Fin n) (Fin n) ℝ} (hh : h.IsHermitian)
    (s x : Fin n → ℝ) (c : ℝ) :
    (x - c • s) ⬝ᵥ (h *ᵥ (x - c • s)) =
      x ⬝ᵥ (h *ᵥ x) - 2 * c * ((h *ᵥ s) ⬝ᵥ x) + c ^ 2 * (s ⬝ᵥ (h *ᵥ s)) := by
  have htranspose : h.IsSymm := by simpa using hh
  have hsymm : s ⬝ᵥ (h *ᵥ x) = (h *ᵥ s) ⬝ᵥ x := by
    rw [dotProduct_mulVec, ← mulVec_transpose, htranspose.eq]
  rw [mulVec_sub, mulVec_smul, sub_dotProduct, dotProduct_sub, dotProduct_sub, smul_dotProduct,
    smul_dotProduct, dotProduct_smul, dotProduct_smul, hsymm, dotProduct_comm x (h *ᵥ s)]
  simp only [smul_eq_mul]
  ring

namespace Curvature

/-- The secant update as a matrix: one rank-one term is taken off and one is added. -/
theorem toMatrix_update (h : Mat ℝ n n) (s y : Vector ℝ n)
    (hpos : 0 < s.get ⬝ᵥ (h.toMatrix *ᵥ s.get) ∧ 0 < s.get ⬝ᵥ y.get) :
    (update h s y).toMatrix = h.toMatrix +
      (-(s.get ⬝ᵥ (h.toMatrix *ᵥ s.get))⁻¹) •
        vecMulVec (h.toMatrix *ᵥ s.get) (h.toMatrix *ᵥ s.get) +
      (s.get ⬝ᵥ y.get)⁻¹ • vecMulVec y.get y.get := by
  unfold update
  simp only [dot_eq_dotProduct, Mat.get_mulVec_eq]
  rw [if_pos hpos]
  ext i j
  rw [Mat.toMatrix_apply, Mat.entry_ofFn]
  simp only [Scalar.share_eq_div, Matrix.add_apply, Matrix.smul_apply, vecMulVec_apply,
    smul_eq_mul, Mat.toMatrix_apply]
  ring

/-- A secant update keeps a matrix positive definite. It is made only if both of its denominators
are positive; then the form of the new matrix at `x` is that of the old one at the part of `x`
away from the step, plus a square. -/
theorem update_posDef {h : Mat ℝ n n} (hh : h.toMatrix.PosDef) (s y : Vector ℝ n) :
    (update h s y).toMatrix.PosDef := by
  by_cases hpos : 0 < s.get ⬝ᵥ (h.toMatrix *ᵥ s.get) ∧ 0 < s.get ⬝ᵥ y.get
  · rw [toMatrix_update h s y hpos]
    obtain ⟨hcurvature, hsecant⟩ := hpos
    refine PosDef.of_dotProduct_mulVec_pos ((hh.isHermitian.add
      (isHermitian_vecMulVec_self _ _)).add (isHermitian_vecMulVec_self _ _)) fun x hx => ?_
    rw [add_mulVec, add_mulVec, dotProduct_add, dotProduct_add, star_trivial,
      dotProduct_vecMulVec_self, dotProduct_vecMulVec_self]
    -- without its part along `s`, the point shows what the first two terms leave
    obtain ⟨c, hc⟩ : ∃ c, c * (s.get ⬝ᵥ (h.toMatrix *ᵥ s.get)) = (h.toMatrix *ᵥ s.get) ⬝ᵥ x :=
      ⟨_, div_mul_cancel₀ _ hcurvature.ne'⟩
    have hrest := dotProduct_mulVec_sub_smul hh.isHermitian s.get x c
    have hquadratic : x ⬝ᵥ (h.toMatrix *ᵥ x) +
        -(s.get ⬝ᵥ (h.toMatrix *ᵥ s.get))⁻¹ * ((h.toMatrix *ᵥ s.get) ⬝ᵥ x) ^ 2 =
        (x - c • s.get) ⬝ᵥ (h.toMatrix *ᵥ (x - c • s.get)) := by
      rw [hrest, ← hc]
      field_simp
      ring
    rw [hquadratic]
    by_cases hline : x - c • s.get = 0
    · -- the point is a multiple of the step, along which the gradient changes
      have hx' : x = c • s.get := sub_eq_zero.mp hline
      have hc₀ : c ≠ 0 := by
        rintro rfl
        exact hx (by rw [hx', zero_smul])
      rw [hline, zero_dotProduct, zero_add, hx', dotProduct_smul, dotProduct_comm y.get,
        smul_eq_mul]
      positivity
    · have hfirst := hh.dotProduct_mulVec_pos hline
      rw [star_trivial] at hfirst
      positivity
  · have hkept : update h s y = h := by
      unfold update
      simp only [dot_eq_dotProduct, Mat.get_mulVec_eq]
      exact if_neg hpos
    rwa [hkept]

end Curvature

/-- The curvature that a run starts with by default. -/
theorem Mat.identity_posDef (n : Nat) : (Mat.identity ℝ n).toMatrix.PosDef := by
  rw [Mat.toMatrix_identity]
  exact PosDef.one

/-! ## Scaling and damping -/

/-- Scaled curvature is a congruence by the scale factors of the parameters, divided by that of
the objective. -/
theorem Scale.toMatrix_scaleCurvature (s : Scale ℝ e q n) (a : Mat ℝ (q + n) (q + n)) :
    (s.scaleCurvature a).toMatrix = s.objective⁻¹ •
      (diagonal s.parameters.get * a.toMatrix * diagonal s.parameters.get) := by
  ext i j
  rw [scaleCurvature, Mat.toMatrix_apply, Mat.entry_ofFn, Scalar.share_eq_div, Matrix.smul_apply,
    mul_diagonal, diagonal_mul, Mat.toMatrix_apply, smul_eq_mul]
  ring

/-- Rows and columns multiplied by the same positive numbers, and everything by another. -/
theorem posDef_smul_diagonal_mul_mul {a : Matrix (Fin n) (Fin n) ℝ} (ha : a.PosDef) {c : ℝ}
    (hc : 0 < c) {d : Fin n → ℝ} (hd : ∀ i, 0 < d i) :
    (c • (diagonal d * a * diagonal d)).PosDef := by
  -- positive factors can be divided out, so the congruence loses no direction
  have hinjective : Function.Injective (diagonal d).mulVec := by
    intro x y hxy
    funext i
    have hi := congrFun hxy i
    rw [mulVec_diagonal, mulVec_diagonal] at hi
    exact mul_left_cancel₀ (hd i).ne' hi
  have hconjugate := ha.conjTranspose_mul_mul_same hinjective
  rw [diagonal_conjTranspose, star_trivial] at hconjugate
  exact hconjugate.smul hc

/-- Scaling by positive factors keeps curvature positive definite. -/
theorem Scale.scaleCurvature_posDef {s : Scale ℝ e q n} (hobjective : 0 < s.objective)
    (hparameters : ∀ i, 0 < s.parameters.get i) {a : Mat ℝ (q + n) (q + n)}
    (ha : a.toMatrix.PosDef) : (s.scaleCurvature a).toMatrix.PosDef := by
  rw [toMatrix_scaleCurvature]
  exact posDef_smul_diagonal_mul_mul ha (inv_pos.mpr hobjective) hparameters

/-- The reverse is a congruence by the reciprocals. -/
theorem Scale.toMatrix_unscaleCurvature (s : Scale ℝ e q n) (a : Mat ℝ (q + n) (q + n)) :
    (s.unscaleCurvature a).toMatrix = s.objective •
      (diagonal (fun i => (s.parameters.get i)⁻¹) * a.toMatrix *
        diagonal fun i => (s.parameters.get i)⁻¹) := by
  ext i j
  rw [unscaleCurvature, Mat.toMatrix_apply, Mat.entry_ofFn, Matrix.smul_apply, mul_diagonal,
    diagonal_mul, Mat.toMatrix_apply, smul_eq_mul, div_eq_mul_inv, mul_inv]
  ring

/-- Going back to the units of the user keeps curvature positive definite too. -/
theorem Scale.unscaleCurvature_posDef {s : Scale ℝ e q n} (hobjective : 0 < s.objective)
    (hparameters : ∀ i, 0 < s.parameters.get i) {a : Mat ℝ (q + n) (q + n)}
    (ha : a.toMatrix.PosDef) : (s.unscaleCurvature a).toMatrix.PosDef := by
  rw [toMatrix_unscaleCurvature]
  exact posDef_smul_diagonal_mul_mul ha hobjective fun i => inv_pos.mpr (hparameters i)

/-- Damping adds squares of the trust scales, so it keeps curvature positive definite. Here the
damping may be zero, and so may trust scales. -/
theorem NewtonStep.dampedMatrix_posDef {model : NewtonStep.Model ℝ m n}
    (hcurvature : model.curvature.toMatrix.PosDef) {mu : ℝ} (hmu : 0 ≤ mu) :
    (NewtonStep.dampedMatrix model mu).toMatrix.PosDef := by
  rw [dampedMatrix, Mat.toMatrix_add, Mat.toMatrix_mapEntries_mul, Mat.toMatrix_diagonal]
  refine hcurvature.add_posSemidef (PosSemidef.smul (PosSemidef.diagonal fun i => ?_) hmu)
  rw [get_mulEach]
  exact mul_self_nonneg _

/-! ## Dropped entries -/

namespace Curvature

theorem symmetrize_isSymm (h : Mat ℝ n n) : (symmetrize h).toMatrix.IsSymm := by
  refine IsSymm.ext fun i j => ?_
  rw [symmetrize, Mat.toMatrix_apply, Mat.toMatrix_apply, Mat.entry_ofFn, Mat.entry_ofFn, add_comm]

/-- A symmetric matrix is the mean of itself and its transpose. -/
theorem toMatrix_symmetrize {h : Mat ℝ n n} (hh : h.toMatrix.IsHermitian) :
    (symmetrize h).toMatrix = h.toMatrix := by
  ext i j
  have hsymm : h.entry j i = h.entry i j := by simpa using hh.apply i j
  rw [symmetrize, Mat.toMatrix_apply, Mat.entry_ofFn, hsymm, Mat.toMatrix_apply]
  ring

/-- Nothing changes if a symmetric matrix is made symmetric. -/
theorem symmetrize_posDef {h : Mat ℝ n n} (hh : h.toMatrix.PosDef) :
    (symmetrize h).toMatrix.PosDef := by
  rwa [toMatrix_symmetrize hh.isHermitian]

theorem toMatrix_diagonalize (h : Mat ℝ n n) :
    (diagonalize h).toMatrix = diagonal fun i => h.toMatrix i i := by
  rw [diagonalize, Mat.toMatrix_diagonal]
  congr 1
  funext i
  exact get_ofFn _ i

theorem diagonalize_isSymm (h : Mat ℝ n n) : (diagonalize h).toMatrix.IsSymm := by
  rw [toMatrix_diagonalize]
  exact isSymm_diagonal _

/-- The diagonal entries of a positive definite matrix are values of its form, so they are
positive. -/
theorem diagonalize_posDef {h : Mat ℝ n n} (hh : h.toMatrix.PosDef) :
    (diagonalize h).toMatrix.PosDef := by
  rw [toMatrix_diagonalize]
  exact PosDef.diagonal fun i => hh.diag_pos

end Curvature

/-- The factorisation starts from the mean of a matrix and its transpose. -/
theorem Cholesky.symmetricPart_eq_symmetrize (a : Mat ℝ n n) :
    Cholesky.symmetricPart a = Curvature.symmetrize a :=
  Mat.ext_entry fun i j => by
    rw [symmetricPart, Curvature.symmetrize, Mat.entry_ofFn, Mat.entry_ofFn]
    norm_num
    ring

/-- A symmetric matrix is its own symmetric part. -/
theorem Cholesky.toMatrix_symmetricPart {a : Mat ℝ n n} (ha : a.toMatrix.IsHermitian) :
    (Cholesky.symmetricPart a).toMatrix = a.toMatrix := by
  rw [symmetricPart_eq_symmetrize, Curvature.toMatrix_symmetrize ha]

end Sqp
