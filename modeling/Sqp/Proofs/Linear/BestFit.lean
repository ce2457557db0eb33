import Mathlib.Algebra.QuadraticDiscriminant
import Sqp.Proofs.Linear.Standard

/-!
# Least squares

What a least-squares solution is the solution of, and which problems are refused.

- `Mat.Minimises`: a vector whose product comes as close to a right-hand side as any product does.
- `Mat.minimises_iff`: these are the solutions of the normal equations, for any matrix, since the
  squared residual is a quadratic polynomial along every line (`residual_add`).
- `Mat.minimises_iff_eq`: for independent columns there is no other than a given one.
- `ReducedFactors`: what is asked of an orthogonal factorisation.
- `Kernels.leastSquares_minimises`: with such factors and back substitution, the least-squares
  solution of a problem with independent columns is the only minimiser, and problems with
  dependent columns are the ones that can be refused.
-/

namespace Sqp

open Matrix

variable {m k : Nat}

/-! ## The residual -/

section Residual

variable (a : Matrix (Fin m) (Fin k) ℝ) (b : Fin m → ℝ) (x d : Fin k → ℝ)

/-- The squared residual at `x + d`: the term that is linear in `d` is the left side of the normal
equations at `x`. -/
theorem residual_add :
    (a *ᵥ (x + d) - b) ⬝ᵥ (a *ᵥ (x + d) - b) =
      (a *ᵥ x - b) ⬝ᵥ (a *ᵥ x - b) + 2 * (d ⬝ᵥ (aᵀ *ᵥ (a *ᵥ x - b))) + (a *ᵥ d) ⬝ᵥ (a *ᵥ d) := by
  have hsplit : a *ᵥ (x + d) - b = (a *ᵥ x - b) + a *ᵥ d := by rw [mulVec_add, add_sub_right_comm]
  have hcross : (a *ᵥ d) ⬝ᵥ (a *ᵥ x - b) = d ⬝ᵥ (aᵀ *ᵥ (a *ᵥ x - b)) := by
    rw [dotProduct_mulVec, vecMul_transpose]
  rw [hsplit, dotProduct_add, add_dotProduct, add_dotProduct,
    dotProduct_comm (a *ᵥ x - b) (a *ᵥ d), hcross]
  ring

/-- The squared residual along the line through `x` in the direction `d`. -/
theorem residual_add_smul (t : ℝ) :
    (a *ᵥ (x + t • d) - b) ⬝ᵥ (a *ᵥ (x + t • d) - b) =
      (a *ᵥ x - b) ⬝ᵥ (a *ᵥ x - b) +
        ((a *ᵥ d) ⬝ᵥ (a *ᵥ d) * (t * t) + 2 * (d ⬝ᵥ (aᵀ *ᵥ (a *ᵥ x - b))) * t + 0) := by
  rw [residual_add, mulVec_smul, smul_dotProduct, smul_dotProduct, dotProduct_smul, smul_eq_mul,
    smul_eq_mul, smul_eq_mul]
  ring

end Residual

/-! ## Minimisers -/

namespace Mat

variable {a : Mat ℝ m k} {b : Vector ℝ m} {x y : Vector ℝ k}

/-- No product comes closer to `b` than the one with `x`. -/
def Minimises (a : Mat ℝ m k) (b : Vector ℝ m) (x : Vector ℝ k) : Prop :=
  ∀ y, euclideanNorm (a.mulVec x - b) ≤ euclideanNorm (a.mulVec y - b)

/-- Distances are compared through their squares. -/
theorem minimises_iff_residual :
    a.Minimises b x ↔ ∀ y : Fin k → ℝ, (a.toMatrix *ᵥ x.get - b.get) ⬝ᵥ
      (a.toMatrix *ᵥ x.get - b.get) ≤ (a.toMatrix *ᵥ y - b.get) ⬝ᵥ (a.toMatrix *ᵥ y - b.get) := by
  have hnorm : ∀ y : Vector ℝ k, euclideanNorm (a.mulVec y - b) =
      Real.sqrt ((a.toMatrix *ᵥ y.get - b.get) ⬝ᵥ (a.toMatrix *ᵥ y.get - b.get)) := by
    intro y
    rw [euclideanNorm_eq_sqrt, get_sub_eq, get_mulVec_eq]
  have hnonneg : ∀ c : Fin m → ℝ, 0 ≤ c ⬝ᵥ c :=
    fun c => Finset.sum_nonneg fun i _ => mul_self_nonneg (c i)
  constructor
  · intro h y
    have hy := h (Vector.ofFn y)
    rwa [hnorm, hnorm, Real.sqrt_le_sqrt_iff (hnonneg _),
      show (Vector.ofFn y).get = y from funext (get_ofFn y)] at hy
  · intro h y
    rw [hnorm, hnorm]
    exact Real.sqrt_le_sqrt (h y.get)

/-- The minimisers are the solutions of the normal equations. -/
theorem minimises_iff :
    a.Minimises b x ↔ a.toMatrixᵀ *ᵥ (a.toMatrix *ᵥ x.get - b.get) = 0 := by
  rw [minimises_iff_residual]
  constructor
  · intro h
    -- a quadratic polynomial that is nowhere below its value at zero has no linear term
    set g := a.toMatrixᵀ *ᵥ (a.toMatrix *ᵥ x.get - b.get) with hg
    have hdiscrim := discrim_le_zero fun t : ℝ => by
      have ht := h (x.get + t • g)
      rw [residual_add_smul, ← hg] at ht
      exact le_of_add_le_add_left ((add_zero _).trans_le ht)
    rw [discrim, mul_zero, sub_zero] at hdiscrim
    have hzero : 2 * (g ⬝ᵥ g) = 0 := sq_eq_zero_iff.mp (le_antisymm hdiscrim (sq_nonneg _))
    exact dotProduct_self_eq_zero.mp ((mul_eq_zero_iff_left two_ne_zero).mp hzero)
  · intro h y
    have hy := residual_add a.toMatrix b.get x.get (y - x.get)
    rw [h, dotProduct_zero, mul_zero, add_zero, add_sub_cancel] at hy
    rw [hy]
    exact le_add_of_nonneg_right (Finset.sum_nonneg fun i _ => mul_self_nonneg _)

/-- Independent columns leave one solution of the normal equations. -/
theorem normal_iff_eq (ha : LinearIndependent ℝ a.toMatrix.col)
    (hx : a.toMatrixᵀ *ᵥ (a.toMatrix *ᵥ x.get - b.get) = 0) :
    a.toMatrixᵀ *ᵥ (a.toMatrix *ᵥ y.get - b.get) = 0 ↔ y = x := by
  constructor
  · intro hy
    have hgram := mul_transpose_col_independent (a := a.toMatrixᵀ) ((row_transpose _).symm ▸ ha)
    rw [Matrix.transpose_transpose] at hgram
    refine eq_of_mulVec_eq hgram ?_
    rw [mulVec_sub, sub_eq_zero] at hx hy
    rw [← mulVec_mulVec, ← mulVec_mulVec, hy, hx]
  · rintro rfl
    exact hx

end Mat

/-! ## Least-squares solutions -/

/-- The factors `f` of `a`: orthonormal columns and an upper triangular matrix, with `a` as their
product. -/
structure ReducedFactors (a : Mat ℝ m k) (f : Mat ℝ m k × Mat ℝ k k) : Prop where
  orthonormal : f.1.toMatrixᵀ * f.1.toMatrix = 1
  upper : f.2.toMatrix.IsUpperTriangular
  product : f.1.toMatrix * f.2.toMatrix = a.toMatrix

namespace Kernels

variable {K : Kernels ℝ}

/-- Back substitution solves the triangular systems that reduced factors leave. -/
theorem orthogonalises_of_reducedFactors
    (hfactors : ∀ {m k : Nat} (a : Mat ℝ m k), k ≤ m → ReducedFactors a (K.orthogonal a))
    (hsubstitutes : ∀ {n : Nat} (u : Mat ℝ n n) (b : Vector ℝ n),
      K.solveUpper u b = Triangular.solveUpper u b) : K.Orthogonalises where
  orthonormal a hk := (hfactors a hk).orthonormal
  upper a hk := (hfactors a hk).upper
  product a hk := (hfactors a hk).product
  solveUpper hu hdiag b := by
    rw [hsubstitutes]
    exact Triangular.mulVec_solveUpper hu hdiag b

theorem standard_reducedFactors (a : Mat ℝ m k) (hk : k ≤ m) :
    ReducedFactors a ((standard : Kernels ℝ).orthogonal a) where
  orthonormal := (Householder.factor_spec a hk).1
  upper := (Householder.factor_spec a hk).2.1
  product := (Householder.factor_spec a hk).2.2

/-- Least squares through reduced factors and back substitution, for a matrix with enough rows. If
its columns are independent, the answer is the same whether zero pivots are minded or not, and it
is the only minimiser and the only solution of the normal equations. If zero pivots are minded,
a matrix is refused as singular exactly if its columns are dependent. -/
theorem leastSquares_minimises
    (hfactors : ∀ {m k : Nat} (a : Mat ℝ m k), k ≤ m → ReducedFactors a (K.orthogonal a))
    (hsubstitutes : ∀ {n : Nat} (u : Mat ℝ n n) (b : Vector ℝ n),
      K.solveUpper u b = Triangular.solveUpper u b)
    (hk : k ≤ m) (a : Mat ℝ m k) (b : Vector ℝ m) :
    (LinearIndependent ℝ a.toMatrix.col → ∃ x, (∀ refuse, K.leastSquares a b refuse = .ok x) ∧
      (∀ y, a.Minimises b y ↔ y = x) ∧
      ∀ y, a.transpose.mulVec (a.mulVec y - b) = zeros ℝ k ↔ y = x) ∧
    (K.leastSquares a b true = .error .singularMatrix ↔ ¬ LinearIndependent ℝ a.toMatrix.col) := by
  have hK := orthogonalises_of_reducedFactors hfactors hsubstitutes
  refine ⟨fun ha => ?_, hK.leastSquares_eq_error_iff hk⟩
  obtain ⟨x, hx, hnormal⟩ := hK.exists_leastSquares ha b false
  have hsolves : a.toMatrixᵀ *ᵥ (a.toMatrix *ᵥ x.get - b.get) = 0 := by
    rw [mulVec_sub, hnormal, sub_self]
  refine ⟨x, fun refuse => ?_, fun y => ?_, fun y => ?_⟩
  · obtain ⟨x', hx', hnormal'⟩ := hK.exists_leastSquares ha b refuse
    have hsame : x' = x := by
      refine (Mat.normal_iff_eq ha hsolves).mp ?_
      rw [mulVec_sub, hnormal', sub_self]
    rw [hx', hsame]
  · rw [Mat.minimises_iff, Mat.normal_iff_eq ha hsolves]
  · rw [← Mat.normal_iff_eq ha hsolves, ← Mat.get_mulVec_eq, ← get_sub_eq,
      ← Mat.toMatrix_transpose, ← Mat.get_mulVec_eq, ← get_zeros_eq]
    exact ⟨fun h => by rw [h], fun h => vector_ext (congrFun h)⟩

/-- A column of ones. -/
def onesColumn : Mat ℝ 2 1 := Mat.ofFn fun _ _ => 1

theorem onesColumn_independent : LinearIndependent ℝ onesColumn.toMatrix.col := by
  refine col_independent_iff.mpr fun x hx => funext fun i => ?_
  have hrow := congrFun hx 0
  rw [onesColumn, Mat.toMatrix_ofFn, mulVec_eq_sum, Fin.sum_univ_one] at hrow
  rw [Subsingleton.elim i 0]
  exact (one_mul _).symm.trans hrow

/-- The number closest to zero and one is their mean, and a column of zeros is refused. -/
theorem leastSquares_minimises_mean :
    (∀ refuse, standard.leastSquares onesColumn #v[0, 1] refuse = .ok #v[0.5]) ∧
      standard.leastSquares (Mat.ofFn fun _ _ => 0 : Mat ℝ 2 1) #v[0, 1] true =
        .error .singularMatrix := by
  constructor
  · obtain ⟨x, hx, -, hnormal⟩ := (leastSquares_minimises standard_reducedFactors
      (fun _ _ => rfl) (by decide) onesColumn #v[0, 1]).1 onesColumn_independent
    have hmean : (#v[0.5] : Vector ℝ 1) = x := by
      refine (hnormal _).mp (vector_ext fun i => ?_)
      rw [Mat.get_mulVec_eq, Mat.toMatrix_transpose, get_sub_eq, Mat.get_mulVec_eq, onesColumn,
        Mat.toMatrix_ofFn, get_zeros, mulVec_eq_sum, Fin.sum_univ_two, Pi.sub_apply, Pi.sub_apply,
        mulVec_eq_sum, mulVec_eq_sum, Fin.sum_univ_one, Fin.sum_univ_one]
      show (1 : ℝ) * (1 * 0.5 - 0) + 1 * (1 * 0.5 - 1) = 0
      norm_num
    rwa [hmean]
  · refine (leastSquares_minimises standard_reducedFactors (fun _ _ => rfl) (by decide) _ _).2.mpr
      fun hzeros => ?_
    rw [Mat.toMatrix_ofFn] at hzeros
    exact one_ne_zero (congrFun (col_independent_iff.mp hzeros (fun _ => 1) (zero_mulVec _)) 0)

end Kernels

end Sqp
