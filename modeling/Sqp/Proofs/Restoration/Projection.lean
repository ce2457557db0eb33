import Sqp.Proofs.Journal
import Sqp.Proofs.Linear.Pivots
import Sqp.Restoration

/-!
# The nearest point without a violation

- `dotProduct_self_lt_of_mulVec_eq`: among the solutions of a linear system, the one that is a
  combination of the rows is the shortest.
- `NearestPoint`: a point at which the linearised violation is gone, nearer than all others.
- `projectOntoConstraints_eq_ok_iff`, `projectOntoConstraints_eq_error_iff`: a projection in terms
  of its least-squares problem.
- `projectOntoConstraints_refused_iff`, `exists_nearestPoint`: it is refused exactly if the rows of
  the Jacobian are dependent, and finds the nearest point otherwise.
-/

namespace Sqp

open Matrix

variable {m n : Nat}

/-! ## Least norm -/

/-- Two solutions differ by a vector that is orthogonal to all rows. -/
theorem dotProduct_self_lt_of_mulVec_eq {a : Matrix (Fin m) (Fin n) ℝ} {y : Fin m → ℝ}
    {d : Fin n → ℝ} (hd : a *ᵥ d = a *ᵥ (aᵀ *ᵥ y)) (hne : d ≠ aᵀ *ᵥ y) :
    (aᵀ *ᵥ y) ⬝ᵥ (aᵀ *ᵥ y) < d ⬝ᵥ d := by
  obtain ⟨w, rfl⟩ : ∃ w, d = aᵀ *ᵥ y + w := ⟨d - aᵀ *ᵥ y, by rw [add_sub_cancel]⟩
  have hnull : a *ᵥ w = 0 := by rwa [mulVec_add, add_eq_left] at hd
  have horthogonal : (aᵀ *ᵥ y) ⬝ᵥ w = 0 := by
    rw [mulVec_transpose, ← dotProduct_mulVec, hnull, dotProduct_zero]
  have hw : w ≠ 0 := by
    rintro rfl
    exact hne (add_zero _)
  have hpos : 0 < w ⬝ᵥ w :=
    (Finset.sum_nonneg fun i _ => mul_self_nonneg (w i)).lt_of_ne'
      (mt dotProduct_self_eq_zero.mp hw)
  rw [add_dotProduct, dotProduct_add, dotProduct_add, dotProduct_comm w, horthogonal]
  linarith

/-- The linearised violation `c` at `p` is gone at `x`, which is nearer to `p` than any other
point where it is. -/
structure NearestPoint (jacobian : Mat ℝ m n) (c : Vector ℝ m) (p x : Vector ℝ n) : Prop where
  solves : jacobian.mulVec (x - p) = -c
  nearest : ∀ x', jacobian.mulVec (x' - p) = -c → x' ≠ x →
    euclideanNorm (x - p) < euclideanNorm (x' - p)

/-- A projection changes the values of the constraints by their residuals. -/
theorem NearestPoint.mulVec_eq {jacobian : Mat ℝ m n} {c : Vector ℝ m} {p x : Vector ℝ n}
    (h : NearestPoint jacobian c p x) : jacobian.mulVec p - c = jacobian.mulVec x := by
  refine vector_ext fun i => ?_
  have hi := congrFun (congrArg Vector.get h.solves) i
  rw [Mat.get_mulVec_eq, get_sub_eq, mulVec_sub, Pi.sub_apply, get_neg] at hi
  rw [get_sub, Mat.get_mulVec_eq, Mat.get_mulVec_eq]
  linarith

/-- The normal equations of the correction make it the shortest one. -/
theorem nearestPoint_of_normal {jacobian : Mat ℝ m n} {c y : Vector ℝ m} (p : Vector ℝ n)
    (hy : jacobian.toMatrix *ᵥ (jacobian.toMatrixᵀ *ᵥ y.get) = c.get) :
    NearestPoint jacobian c p (p - jacobian.transpose.mulVec y) := by
  have hstep : (p - jacobian.transpose.mulVec y - p).get = -(jacobian.toMatrixᵀ *ᵥ y.get) := by
    rw [get_sub_eq, get_sub_eq, Mat.get_mulVec_eq, Mat.toMatrix_transpose]
    abel
  have hsolution : ∀ x : Vector ℝ n, jacobian.mulVec (x - p) = -c ↔
      jacobian.toMatrix *ᵥ -(x - p).get = c.get := by
    intro x
    rw [mulVec_neg, ← Mat.get_mulVec_eq, neg_eq_iff_eq_neg, ← get_neg_eq]
    exact ⟨fun h => by rw [h], fun h => vector_ext (congrFun h)⟩
  refine ⟨(hsolution _).mpr (by rw [hstep, neg_neg, hy]), fun x' hx' hne => ?_⟩
  -- another solution is another correction, and the one in the row space is the shortest
  have hother : -(x' - p).get ≠ jacobian.toMatrixᵀ *ᵥ y.get := by
    intro h
    refine hne (vector_ext fun i => ?_)
    have hi := congrFun (h.trans (neg_eq_iff_eq_neg.mpr hstep).symm) i
    rw [Pi.neg_apply, Pi.neg_apply, get_sub, get_sub] at hi
    linarith
  have hlt := dotProduct_self_lt_of_mulVec_eq (((hsolution x').mp hx').trans hy.symm) hother
  rw [euclideanNorm_eq_sqrt, euclideanNorm_eq_sqrt, hstep, neg_dotProduct_neg]
  rw [neg_dotProduct_neg] at hlt
  exact Real.sqrt_lt_sqrt (Finset.sum_nonneg fun i _ => mul_self_nonneg _) hlt

/-! ## Projections -/

section Parts

variable {β : Type} [Scalar β] {K : Kernels β} {p x : Vector β n} {jacobian : Mat β m n}
  {c : Vector β m}

/-- A projection solves the square system of the normal equations. -/
theorem projectOntoConstraints_eq_ok_iff :
    projectOntoConstraints K p jacobian c = .ok x ↔
      ∃ y, K.leastSquares (jacobian.mul jacobian.transpose) c true = .ok y ∧
        x = p - jacobian.transpose.mulVec y := by
  constructor
  · intro h
    obtain ⟨v, hv, h⟩ := except_bind_eq_ok_iff.mp h
    obtain ⟨y, hy, hv⟩ := except_bind_eq_ok_iff.mp hv
    cases hv
    cases h
    exact ⟨y, hy, rfl⟩
  · rintro ⟨y, hy, rfl⟩
    exact except_bind_eq_ok_iff.mpr ⟨_, except_bind_eq_ok_iff.mpr ⟨y, hy, rfl⟩, rfl⟩

theorem projectOntoConstraints_eq_error_iff {cause : Error} :
    projectOntoConstraints K p jacobian c = .error cause ↔
      K.leastSquares (jacobian.mul jacobian.transpose) c true = .error cause := by
  constructor
  · intro h
    rcases except_bind_eq_error_iff.mp h with h | ⟨_, -, h⟩
    · rcases except_bind_eq_error_iff.mp h with h | ⟨_, -, h⟩
      · exact h
      · cases h
    · cases h
  · intro h
    exact except_bind_eq_error_iff.mpr (.inl (except_bind_eq_error_iff.mpr (.inl h)))

end Parts

/-- The matrix of the least-squares problem of a projection. -/
theorem toMatrix_gram (jacobian : Mat ℝ m n) :
    (jacobian.mul jacobian.transpose).toMatrix = jacobian.toMatrix * jacobian.toMatrixᵀ := by
  rw [Mat.toMatrix_mul, Mat.toMatrix_transpose]

variable {K : Kernels ℝ} {jacobian : Mat ℝ m n}

/-- A projection is refused exactly if the rows of the Jacobian are dependent. -/
theorem projectOntoConstraints_refused_iff (hK : K.Orthogonalises) (p : Vector ℝ n)
    (jacobian : Mat ℝ m n) (c : Vector ℝ m) :
    projectOntoConstraints K p jacobian c = .error .singularMatrix ↔
      ¬ LinearIndependent ℝ jacobian.toMatrix.row := by
  rw [projectOntoConstraints_eq_error_iff, hK.leastSquares_eq_error_iff (Nat.le_refl m),
    toMatrix_gram, mul_transpose_col_independent_iff]

/-- With independent rows, a projection finds the nearest point. -/
theorem exists_nearestPoint (hK : K.Orthogonalises)
    (hrow : LinearIndependent ℝ jacobian.toMatrix.row) (p : Vector ℝ n) (c : Vector ℝ m) :
    ∃ x, projectOntoConstraints K p jacobian c = .ok x ∧ NearestPoint jacobian c p x := by
  have hgram : LinearIndependent ℝ (jacobian.mul jacobian.transpose).toMatrix.col := by
    rw [toMatrix_gram]
    exact mul_transpose_col_independent hrow
  obtain ⟨y, hy, hnormal⟩ := hK.exists_leastSquares hgram c true
  -- the normal equations of a regular square system are the system
  have hunit : IsUnit (jacobian.mul jacobian.transpose).toMatrixᵀ :=
    (isUnit_transpose _).mpr (linearIndependent_cols_iff_isUnit.mp hgram)
  have hsolved := mulVec_injective_of_isUnit hunit hnormal
  rw [toMatrix_gram, ← mulVec_mulVec] at hsolved
  exact ⟨_, projectOntoConstraints_eq_ok_iff.mpr ⟨y, hy, rfl⟩, nearestPoint_of_normal p hsolved⟩

/-- What a projection returns is the nearest point. -/
theorem nearestPoint_of_projectOntoConstraints (hK : K.Orthogonalises) {p x : Vector ℝ n}
    {c : Vector ℝ m} (h : projectOntoConstraints K p jacobian c = .ok x) :
    NearestPoint jacobian c p x := by
  have hrow : LinearIndependent ℝ jacobian.toMatrix.row := by
    by_contra hdependent
    rw [(projectOntoConstraints_refused_iff hK p jacobian c).mpr hdependent] at h
    cases h
  obtain ⟨x', hx', hnearest⟩ := exists_nearestPoint hK hrow p c
  cases h.symm.trans hx'
  exact hnearest

end Sqp
