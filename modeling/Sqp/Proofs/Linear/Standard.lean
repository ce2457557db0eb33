import Sqp.Proofs.Linear.Cholesky
import Sqp.Proofs.Linear.Householder
import Sqp.Proofs.Linear.Pivots
import Sqp.Proofs.Linear.Triangular

/-!
# The kernels of this library are exact

- `Kernels.standard_orthogonalises`, `Kernels.standard_exact`: without rounding, the
  factorisations and substitutions of this library are exact.
- `Kernels.exists_leastSquares`: for independent columns, their least-squares solution is
  never refused.
-/

namespace Sqp.Kernels

variable {m k : Nat}

theorem standard_orthogonalises : (standard : Kernels ℝ).Orthogonalises where
  orthonormal a hk := (Householder.factor_spec a hk).1
  upper a hk := (Householder.factor_spec a hk).2.1
  product a hk := (Householder.factor_spec a hk).2.2
  solveUpper hu hdiag b := Triangular.mulVec_solveUpper hu hdiag b

/-- Without rounding, the kernels of this library are exact. -/
theorem standard_exact : (standard : Kernels ℝ).Exact where
  cholesky_lower ha := (Cholesky.factor_spec ha).1
  cholesky_mul ha := (Cholesky.factor_spec ha).2
  solveLower hl hdiag b := Triangular.mulVec_solveLower hl hdiag b
  solveUpper hu hdiag b := Triangular.mulVec_solveUpper hu hdiag b
  leastSquares ha h := standard_orthogonalises.leastSquares_normal ha h

/-- For independent columns, the least-squares solution is never refused. -/
theorem exists_leastSquares {a : Mat ℝ m k} (ha : LinearIndependent ℝ a.toMatrix.col)
    (b : Vector ℝ m) (refuse : Bool) : ∃ x, standard.leastSquares a b refuse = .ok x := by
  obtain ⟨x, hx, -⟩ := standard_orthogonalises.exists_leastSquares ha b refuse
  exact ⟨x, hx⟩

end Sqp.Kernels
