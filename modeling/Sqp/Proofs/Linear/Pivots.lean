import Sqp.Proofs.Linear.Exact

/-!
# Pivots and independent columns

In exact arithmetic, whether the columns of a matrix are independent can be read off the diagonal
of its upper triangular factor.

- `Kernels.Orthogonalises`: the factors of a matrix with enough rows have it as their product, the
  first one has orthonormal columns and the second one is upper triangular; substitution solves
  upper triangular systems.
- `diag_ne_zero_iff`, `Kernels.Orthogonalises.pivots_ne_zero_iff`: no pivot is zero exactly if the
  columns are independent.
- `Kernels.Orthogonalises.leastSquares_eq_error_iff`: so a least-squares problem that minds zero
  pivots is refused exactly if they are not.
- `Kernels.Orthogonalises.exists_leastSquares`: otherwise the solution satisfies the normal
  equations.
-/

namespace Sqp

open Matrix

variable {m k : Nat}

/-- An upper triangular matrix has independent columns exactly if its diagonal has no zero. -/
theorem diag_ne_zero_iff {r : Matrix (Fin k) (Fin k) ℝ} (hr : r.IsUpperTriangular) :
    (∀ i, r i i ≠ 0) ↔ LinearIndependent ℝ r.col := by
  rw [linearIndependent_cols_iff_isUnit, isUnit_iff_isUnit_det, det_of_isUpperTriangular hr,
    isUnit_iff_ne_zero, Finset.prod_ne_zero_iff]
  exact ⟨fun h i _ => h i, fun h i => h i (Finset.mem_univ i)⟩

/-- Orthonormal columns on the left do not make columns dependent or independent. -/
theorem col_independent_mul_iff {q : Matrix (Fin m) (Fin k) ℝ} {r : Matrix (Fin k) (Fin k) ℝ}
    (hq : qᵀ * q = 1) : LinearIndependent ℝ (q * r).col ↔ LinearIndependent ℝ r.col := by
  have hkernel : ∀ x, (q * r) *ᵥ x = 0 ↔ r *ᵥ x = 0 := by
    intro x
    constructor
    · intro hx
      rw [← one_mulVec (r *ᵥ x), ← hq, ← mulVec_mulVec, mulVec_mulVec x q r, hx, mulVec_zero]
    · intro hx
      rw [← mulVec_mulVec, hx, mulVec_zero]
  rw [col_independent_iff, col_independent_iff]
  exact forall_congr' fun x => imp_congr_left (hkernel x)

namespace Kernels

/-- Exact orthogonal factors, and substitution that solves upper triangular systems. -/
structure Orthogonalises (K : Kernels ℝ) : Prop where
  orthonormal : ∀ {m k : Nat} (a : Mat ℝ m k), k ≤ m →
    (K.orthogonal a).1.toMatrixᵀ * (K.orthogonal a).1.toMatrix = 1
  upper : ∀ {m k : Nat} (a : Mat ℝ m k), k ≤ m → (K.orthogonal a).2.toMatrix.IsUpperTriangular
  product : ∀ {m k : Nat} (a : Mat ℝ m k), k ≤ m →
    (K.orthogonal a).1.toMatrix * (K.orthogonal a).2.toMatrix = a.toMatrix
  solveUpper : ∀ {n : Nat} {u : Mat ℝ n n}, u.toMatrix.IsUpperTriangular →
    (∀ i, u.entry i i ≠ 0) → ∀ b : Vector ℝ n, u.toMatrix *ᵥ (K.solveUpper u b).get = b.get

namespace Orthogonalises

variable {K : Kernels ℝ} {a : Mat ℝ m k} {b : Vector ℝ m} {refuse : Bool}

theorem pivots_ne_zero_iff (hK : K.Orthogonalises) (hk : k ≤ m) :
    (∀ i, (K.orthogonal a).2.entry i i ≠ 0) ↔ LinearIndependent ℝ a.toMatrix.col := by
  rw [← hK.product a hk, col_independent_mul_iff (hK.orthonormal a hk),
    ← diag_ne_zero_iff (hK.upper a hk)]
  rfl

/-- The test of pivots that a least-squares problem makes. -/
theorem any_isZero_iff (hK : K.Orthogonalises) (hk : k ≤ m) :
    ((K.orthogonal a).2.diag.toList.take m).any Scalar.isZero = true ↔
      ¬ LinearIndependent ℝ a.toMatrix.col := by
  have hall : (K.orthogonal a).2.diag.toList.take m = (K.orthogonal a).2.diag.toList :=
    List.take_of_length_le (by rw [Vector.length_toList]; exact hk)
  rw [← hK.pivots_ne_zero_iff hk, hall, List.any_eq_true]
  constructor
  · rintro ⟨pivot, hmem, hzero⟩ h
    obtain ⟨i, rfl⟩ := (mem_toList_iff _ _).mp hmem
    rw [Mat.diag, get_ofFn, Scalar.isZero_iff] at hzero
    exact h i hzero
  · intro h
    obtain ⟨i, hi⟩ := not_forall_not.mp h
    refine ⟨_, (mem_toList_iff _ _).mpr ⟨i, rfl⟩, ?_⟩
    rw [Mat.diag, get_ofFn, Scalar.isZero_iff]
    exact hi

/-- With enough rows, dependent columns are the only ones that are refused. -/
theorem leastSquares_eq_error_iff (hK : K.Orthogonalises) (hk : k ≤ m) :
    K.leastSquares a b true = .error .singularMatrix ↔ ¬ LinearIndependent ℝ a.toMatrix.col := by
  rw [← hK.any_isZero_iff hk]
  unfold leastSquares
  dsimp only
  rw [Bool.true_and, if_neg (not_lt.mpr hk)]
  constructor
  · intro h
    by_contra hpivots
    rw [if_neg hpivots] at h
    cases h
  · intro h
    rw [if_pos h]
    rfl

/-- Since `a = q r`, the normal equations come down to `r x = qᵀ b`. -/
theorem normal_equations (hK : K.Orthogonalises) (hk : k ≤ m)
    (ha : LinearIndependent ℝ a.toMatrix.col) (b : Vector ℝ m) :
    a.toMatrixᵀ *ᵥ (a.toMatrix *ᵥ
        (K.solveUpper (K.orthogonal a).2 ((K.orthogonal a).1.transpose.mulVec b)).get) =
      a.toMatrixᵀ *ᵥ b.get := by
  have hsolved := hK.solveUpper (hK.upper a hk) ((hK.pivots_ne_zero_iff hk).mpr ha)
    ((K.orthogonal a).1.transpose.mulVec b)
  have horthonormal := hK.orthonormal a hk
  have hproduct := hK.product a hk
  set x := K.solveUpper (K.orthogonal a).2 ((K.orthogonal a).1.transpose.mulVec b)
  rw [Mat.get_mulVec_eq, Mat.toMatrix_transpose] at hsolved
  set q := (K.orthogonal a).1.toMatrix
  set r := (K.orthogonal a).2.toMatrix
  calc a.toMatrixᵀ *ᵥ (a.toMatrix *ᵥ x.get)
      = rᵀ *ᵥ ((qᵀ * q) *ᵥ (r *ᵥ x.get)) := by
        rw [← hproduct, transpose_mul]
        simp only [mulVec_mulVec, Matrix.mul_assoc]
    _ = rᵀ *ᵥ (qᵀ *ᵥ b.get) := by rw [horthonormal, one_mulVec, hsolved]
    _ = a.toMatrixᵀ *ᵥ b.get := by rw [mulVec_mulVec, ← transpose_mul, hproduct]

/-- Independent columns have a least-squares solution, whether zero pivots are minded or not. -/
theorem exists_leastSquares (hK : K.Orthogonalises) (ha : LinearIndependent ℝ a.toMatrix.col)
    (b : Vector ℝ m) (refuse : Bool) :
    ∃ x, K.leastSquares a b refuse = .ok x ∧
      a.toMatrixᵀ *ᵥ (a.toMatrix *ᵥ x.get) = a.toMatrixᵀ *ᵥ b.get := by
  have hk : k ≤ m := le_of_row_independent (row_transpose a.toMatrix ▸ ha)
  have haccepted :
      ¬(refuse && ((K.orthogonal a).2.diag.toList.take m).any Scalar.isZero) = true := by
    rw [Bool.and_eq_true]
    exact fun h => (hK.any_isZero_iff hk).mp h.2 ha
  exact ⟨_, (if_neg haccepted).trans (if_neg (not_lt.mpr hk)), hK.normal_equations hk ha b⟩

/-- A least-squares solution for independent columns satisfies the normal equations. -/
theorem leastSquares_normal (hK : K.Orthogonalises) {x : Vector ℝ k}
    (ha : LinearIndependent ℝ a.toMatrix.col) (h : K.leastSquares a b refuse = .ok x) :
    a.toMatrixᵀ *ᵥ (a.toMatrix *ᵥ x.get) = a.toMatrixᵀ *ᵥ b.get := by
  obtain ⟨y, hy, hnormal⟩ := hK.exists_leastSquares ha b refuse
  cases h.symm.trans hy
  exact hnormal

end Orthogonalises

end Kernels

end Sqp
