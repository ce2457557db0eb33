import Mathlib.LinearAlgebra.Matrix.NonsingularInverse
import Sqp.Proofs.Linear.Entries
import Sqp.Linear.Kernels

/-!
# Exact kernels

- `Kernels.Exact`: the factor of a positive definite matrix is triangular and squares to
  it, substitution solves triangular systems, and a least-squares solution satisfies the
  normal equations.
- `Kernels.Exact.cholesky_diag_ne_zero`: so substitution works with such a factor.
- `Kernels.Exact.mulVec_of_leastSquares`: a least-squares solution of a regular square
  system solves it.

That rows or columns are independent is used in the form that a product with a nonzero
vector is not zero (`row_independent_iff`, `col_independent_iff`).
-/

namespace Sqp

open Matrix

variable {m n k : Nat}

/-! ## Independent rows and columns -/

theorem col_independent_iff {a : Matrix (Fin m) (Fin n) ℝ} :
    LinearIndependent ℝ a.col ↔ ∀ x, a *ᵥ x = 0 → x = 0 := by
  rw [← mulVec_injective_iff, ← coe_mulVecLin, ← LinearMap.ker_eq_bot, ker_mulVecLin_eq_bot_iff]
  rfl

/-- Independent columns determine a vector by its product. -/
theorem eq_of_mulVec_eq {a : Matrix (Fin m) (Fin n) ℝ} (ha : LinearIndependent ℝ a.col)
    {x y : Vector ℝ n} (h : a *ᵥ x.get = a *ᵥ y.get) : x = y :=
  vector_ext fun i => congrFun (mulVec_injective_iff.mpr ha h) i

theorem row_independent_iff {a : Matrix (Fin m) (Fin n) ℝ} :
    LinearIndependent ℝ a.row ↔ ∀ y, aᵀ *ᵥ y = 0 → y = 0 := by
  rw [← col_transpose, col_independent_iff]

/-- A single row with a nonzero entry is independent. -/
theorem row_independent_of_entry {a : Matrix (Fin 1) (Fin n) ℝ} {j : Fin n} (h : a 0 j ≠ 0) :
    LinearIndependent ℝ a.row :=
  linearIndependent_unique_iff.mpr fun hzero => h (congrFun hzero j)

/-- Independent rows are no more than the columns. -/
theorem le_of_row_independent {a : Matrix (Fin m) (Fin n) ℝ} (ha : LinearIndependent ℝ a.row) :
    m ≤ n := by
  have hcard := ha.fintype_card_le_finrank
  rwa [Fintype.card_fin, Module.finrank_fin_fun] at hcard

/-- With independent rows, the product with the transpose is regular. -/
theorem mul_transpose_col_independent {a : Matrix (Fin m) (Fin n) ℝ}
    (ha : LinearIndependent ℝ a.row) : LinearIndependent ℝ (a * aᵀ).col := by
  refine col_independent_iff.mpr fun y hy => row_independent_iff.mp ha y ?_
  rw [← mulVec_mulVec] at hy
  have hsquare : (aᵀ *ᵥ y) ⬝ᵥ (aᵀ *ᵥ y) = 0 := by
    rw [dotProduct_mulVec, vecMul_transpose, hy, zero_dotProduct]
  exact dotProduct_self_eq_zero.mp hsquare

theorem mul_transpose_col_independent_iff {a : Matrix (Fin m) (Fin n) ℝ} :
    LinearIndependent ℝ (a * aᵀ).col ↔ LinearIndependent ℝ a.row := by
  refine ⟨fun h => row_independent_iff.mpr fun y hy => ?_, mul_transpose_col_independent⟩
  exact col_independent_iff.mp h y (by rw [← mulVec_mulVec, hy, mulVec_zero])

/-! ## Exact kernels -/

/-- Kernels without rounding. -/
structure Kernels.Exact (K : Kernels ℝ) : Prop where
  cholesky_lower : ∀ {n : Nat} {a : Mat ℝ n n}, (Cholesky.symmetricPart a).toMatrix.PosDef →
    (K.cholesky a).toMatrix.IsLowerTriangular
  cholesky_mul : ∀ {n : Nat} {a : Mat ℝ n n}, (Cholesky.symmetricPart a).toMatrix.PosDef →
    (K.cholesky a).toMatrix * (K.cholesky a).toMatrixᵀ = (Cholesky.symmetricPart a).toMatrix
  solveLower : ∀ {n : Nat} {l : Mat ℝ n n}, l.toMatrix.IsLowerTriangular →
    (∀ i, l.entry i i ≠ 0) → ∀ b : Vector ℝ n, l.toMatrix *ᵥ (K.solveLower l b).get = b.get
  solveUpper : ∀ {n : Nat} {u : Mat ℝ n n}, u.toMatrix.IsUpperTriangular →
    (∀ i, u.entry i i ≠ 0) → ∀ b : Vector ℝ n, u.toMatrix *ᵥ (K.solveUpper u b).get = b.get
  leastSquares : ∀ {m k : Nat} {a : Mat ℝ m k} {b : Vector ℝ m} {refuse : Bool} {x : Vector ℝ k},
    LinearIndependent ℝ a.toMatrix.col → K.leastSquares a b refuse = .ok x →
      a.toMatrixᵀ *ᵥ (a.toMatrix *ᵥ x.get) = a.toMatrixᵀ *ᵥ b.get

namespace Kernels.Exact

variable {K : Kernels ℝ}

/-- The factor of a positive definite matrix has no zero on its diagonal. -/
theorem cholesky_diag_ne_zero (hK : K.Exact) {a : Mat ℝ n n}
    (ha : (Cholesky.symmetricPart a).toMatrix.PosDef) (i : Fin n) :
    (K.cholesky a).entry i i ≠ 0 := by
  have hdet : (K.cholesky a).toMatrix.det * (K.cholesky a).toMatrix.det ≠ 0 := by
    have hunit := (isUnit_iff_isUnit_det _).mp ha.isUnit
    rw [← hK.cholesky_mul ha, det_mul, det_transpose] at hunit
    exact hunit.ne_zero
  rw [det_of_isLowerTriangular _ (hK.cholesky_lower ha)] at hdet
  exact Finset.prod_ne_zero_iff.mp (left_ne_zero_of_mul hdet) i (Finset.mem_univ i)

/-- Forward substitution with the factor of a positive definite matrix. -/
theorem mulVec_solveLower (hK : K.Exact) {a : Mat ℝ n n}
    (ha : (Cholesky.symmetricPart a).toMatrix.PosDef) (b : Vector ℝ n) :
    (K.cholesky a).toMatrix *ᵥ (K.solveLower (K.cholesky a) b).get = b.get :=
  hK.solveLower (hK.cholesky_lower ha) (hK.cholesky_diag_ne_zero ha) b

/-- Back substitution with the transposed factor. -/
theorem mulVec_solveUpper (hK : K.Exact) {a : Mat ℝ n n}
    (ha : (Cholesky.symmetricPart a).toMatrix.PosDef) (b : Vector ℝ n) :
    (K.cholesky a).toMatrixᵀ *ᵥ (K.solveUpper (K.cholesky a).transpose b).get = b.get := by
  rw [← Mat.toMatrix_transpose]
  refine hK.solveUpper ?_ (fun i => ?_) b
  · rw [Mat.toMatrix_transpose]
    exact (hK.cholesky_lower ha).transpose
  · rw [Mat.entry_transpose]
    exact hK.cholesky_diag_ne_zero ha i

/-- A regular square system is solved by its least-squares solution. -/
theorem mulVec_of_leastSquares (hK : K.Exact) {a : Mat ℝ n n} {b x : Vector ℝ n} {refuse : Bool}
    (ha : LinearIndependent ℝ a.toMatrix.col) (h : K.leastSquares a b refuse = .ok x) :
    a.toMatrix *ᵥ x.get = b.get := by
  have hunit : IsUnit a.toMatrixᵀ :=
    (isUnit_transpose _).mpr (linearIndependent_cols_iff_isUnit.mp ha)
  exact mulVec_injective_of_isUnit hunit (hK.leastSquares ha h)

end Kernels.Exact

end Sqp
