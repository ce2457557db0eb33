import Sqp.Proofs.Linear.Exact
import Sqp.Proofs.Restoration

/-!
# Directions of a restoration

A restoration direction comes from one least-squares problem, in the columns of the
Jacobian and of the artificial variable, each times its scale.

- `scales_pos`: strictly inside the bounds all scales are positive.
- `direction_eq_ok_iff`: a direction is `along` a least-squares solution of `system` for
  `target`; `get_along` and `artificial_along` give its entries.
- `SolvesNormal`: the solution satisfies the normal equations. Exact kernels see to that
  where the Jacobian has independent rows (`solvesNormal_of_exact`).
- `mulVec_direction`: then the direction changes the linearised constraints in proportion
  to the artificial variable.
-/

namespace Sqp.Restoration

open Matrix

variable {m n : Nat} {K : Kernels ℝ} {task : Task ℝ ℝ m n}

/-! ## Scales -/

/-- The scale of free variables next to bounded slacks is positive. -/
theorem widest_pos (bounds : Bounds ℝ n) (p : Vector ℝ n) : 0 < widest bounds p := by
  unfold widest
  rw [← Vector.foldl_toList]
  refine List.foldlRecOn _ _ (by norm_num [freeScale]) fun largest hlargest row _ => ?_
  obtain ⟨interval?, x⟩ := row
  cases interval? with
  | none => exact hlargest
  | some b =>
    show 0 < Scalar.greater largest (b.nearest x)
    rw [Scalar.greater_eq_max]
    exact lt_max_of_lt_left hlargest

/-- Strictly inside the bounds all scales are positive. -/
theorem scales_pos {bounds : Bounds ℝ n} {mode : BoundMode} {p d : Vector ℝ n}
    (hp : bounds.strictlyInside p = true) (h : scales bounds mode p = .ok d) (i : Fin n) :
    0 < d.get i := by
  -- the two ways to scale differ at entries without bounds only
  have hentry : ∀ g : Option (Interval ℝ) → ℝ → ℝ, (∀ x, 0 < g none x) →
      (∀ b x, g (some b) x = b.nearest x) → 0 < (Vector.zipWith g bounds p).get i := by
    intro g hnone hsome
    rw [get_zipWith]
    cases hb : bounds.get i with
    | none => exact hnone _
    | some b =>
      rw [hsome]
      exact (b.nearest_pos_iff _).mpr ((Bounds.strictlyInside_iff bounds p).mp hp i b hb)
  unfold scales at h
  cases hmode : mode.boundsDecisions <;> rw [hmode] at h
  · obtain ⟨_, -, h⟩ := except_bind_eq_ok_iff.mp h
    cases h
    exact hentry _ (fun _ => widest_pos bounds p) fun _ _ => rfl
  · cases h
    exact hentry _ (fun _ => one_pos) fun _ _ => rfl

/-! ## Directions -/

theorem entry_extendedColumns_castSucc (task : Task ℝ ℝ m n) (j : Fin n) (i : Fin m) :
    (extendedColumns task).entry j.castSucc i = task.jacobian.entry i j := by
  rw [Mat.entry, extendedColumns, get_push_castSucc]
  exact Mat.entry_transpose _ i j

theorem entry_extendedColumns_last (task : Task ℝ ℝ m n) (i : Fin m) :
    (extendedColumns task).entry (Fin.last n) i = -task.residuals.get i := by
  rw [Mat.entry, extendedColumns, get_push_last, get_neg]

/-- A combination of the extended columns weighs the Jacobian against the violation. -/
theorem transpose_extendedColumns_mulVec (task : Task ℝ ℝ m n) (v : Vector ℝ (n + 1)) :
    (extendedColumns task).toMatrixᵀ *ᵥ v.get =
      task.jacobian.toMatrix *ᵥ (front v).get - v.get (Fin.last n) • task.residuals.get := by
  funext i
  have hfront : ∀ j : Fin n, (front v).get j = v.get j.castSucc := get_front v
  simp only [mulVec, dotProduct, Pi.sub_apply, Pi.smul_apply, smul_eq_mul, transpose_apply,
    Mat.toMatrix_apply, Fin.sum_univ_castSucc, entry_extendedColumns_castSucc,
    entry_extendedColumns_last, hfront]
  ring

/-- The least-squares problem of a direction: the extended columns times their scales. -/
noncomputable def system (task : Task ℝ ℝ m n) (d : Vector ℝ (n + 1)) : Mat ℝ (n + 1) m :=
  Vector.zipWith (fun c column => column.map (· * c)) d (extendedColumns task)

/-- The vector that a direction brings close to the scaled columns. -/
noncomputable def target (d : Vector ℝ (n + 1)) : Vector ℝ (n + 1) :=
  mulEach d ((zeros ℝ n).push 1)

/-- The direction that belongs to a solution of the least-squares problem. -/
noncomputable def along (task : Task ℝ ℝ m n) (d : Vector ℝ (n + 1)) (y : Vector ℝ m) :
    Extended ℝ n :=
  let v := mulEach d (mulEach d ((zeros ℝ n).push 1 - (extendedColumns task).mulVec y))
  ⟨front v, v.get (Fin.last n)⟩

/-- A direction is made from scales and from the multipliers of a least-squares problem. -/
theorem direction_eq_ok_iff {s v : Extended ℝ n} :
    direction K task s = .ok v ↔
      ∃ d y, scales task.bounds task.mode s.parameters = .ok d ∧
        K.leastSquares (system task (d.push s.artificial)) (target (d.push s.artificial)) false =
          .ok y ∧
        along task (d.push s.artificial) y = v := by
  constructor
  · intro h
    obtain ⟨d, hd, h⟩ := except_bind_eq_ok_iff.mp h
    obtain ⟨y, hy, h⟩ := except_bind_eq_ok_iff.mp h
    exact ⟨d, y, hd, hy, Except.ok.inj h⟩
  · rintro ⟨d, y, hd, hy, rfl⟩
    exact except_bind_eq_ok_iff.mpr ⟨d, hd, except_bind_eq_ok_iff.mpr ⟨y, hy, rfl⟩⟩

theorem toMatrix_system (task : Task ℝ ℝ m n) (d : Vector ℝ (n + 1)) :
    (system task d).toMatrix = diagonal d.get * (extendedColumns task).toMatrix := by
  ext i j
  rw [Mat.toMatrix_apply, Mat.entry, system, get_zipWith, get_map, diagonal_mul,
    Mat.toMatrix_apply, Mat.entry, mul_comm]

/-- The part of each variable in a direction. -/
theorem get_along (task : Task ℝ ℝ m n) (d : Vector ℝ (n + 1)) (y : Vector ℝ m) (i : Fin n) :
    (along task d y).parameters.get i =
      -(d.get i.castSucc ^ 2 * ∑ j, task.jacobian.entry j i * y.get j) := by
  have hcolumn : ((extendedColumns task).mulVec y).get i.castSucc =
      ∑ j, task.jacobian.entry j i * y.get j := by
    rw [Mat.get_mulVec_eq, mulVec_eq_sum]
    simp only [Mat.toMatrix_apply, entry_extendedColumns_castSucc]
  refine (get_front _ i).trans ?_
  change (mulEach d (mulEach d _)).get i.castSucc = _
  rw [get_mulEach, get_mulEach, get_sub, get_push_castSucc, get_zeros, hcolumn]
  ring

/-- The artificial part of a direction, in terms of the residuals. -/
theorem artificial_along (task : Task ℝ ℝ m n) (d : Vector ℝ (n + 1)) (y : Vector ℝ m) :
    (along task d y).artificial =
      d.get (Fin.last n) ^ 2 * (1 + ∑ j, task.residuals.get j * y.get j) := by
  have hcolumn : ((extendedColumns task).mulVec y).get (Fin.last n) =
      -∑ j, task.residuals.get j * y.get j := by
    rw [Mat.get_mulVec_eq, mulVec_eq_sum, ← Finset.sum_neg_distrib]
    simp only [Mat.toMatrix_apply, entry_extendedColumns_last, neg_mul]
  rw [along, get_mulEach, get_mulEach, get_sub, get_push_last, hcolumn]
  ring

/-- The least-squares solution of the direction at `s` satisfies the normal equations. -/
def SolvesNormal (K : Kernels ℝ) (task : Task ℝ ℝ m n) (s : Extended ℝ n) : Prop :=
  ∀ d y, scales task.bounds task.mode s.parameters = .ok d →
    K.leastSquares (system task (d.push s.artificial)) (target (d.push s.artificial)) false =
      .ok y →
    (system task (d.push s.artificial)).toMatrixᵀ *ᵥ
        ((system task (d.push s.artificial)).toMatrix *ᵥ y.get) =
      (system task (d.push s.artificial)).toMatrixᵀ *ᵥ (target (d.push s.artificial)).get

/-- Strictly inside the bounds, exact kernels solve the normal equations if the Jacobian
has independent rows. -/
theorem solvesNormal_of_exact (hK : K.Exact)
    (hjacobian : LinearIndependent ℝ task.jacobian.toMatrix.row) {s : Extended ℝ n}
    (hs : task.bounds.strictlyInside s.parameters = true) : SolvesNormal K task s := by
  intro d y hd hy
  refine hK.leastSquares ?_ hy
  -- a combination of the scaled columns that vanishes is one of the rows of the Jacobian
  refine col_independent_iff.mpr fun x hx => row_independent_iff.mp hjacobian x ?_
  rw [toMatrix_system, ← mulVec_mulVec] at hx
  funext i
  have hi := congrFun hx i.castSucc
  rw [mulVec_diagonal, get_push_castSucc] at hi
  have hzero := (mul_eq_zero.mp hi).resolve_left (scales_pos hs hd i).ne'
  simpa only [mulVec, dotProduct, transpose_apply, Mat.toMatrix_apply, Pi.zero_apply,
    entry_extendedColumns_castSucc] using hzero

/-- Along a direction the constraints change in proportion to the artificial variable: this is the
normal equations of its least-squares problem. -/
theorem mulVec_direction {s v : Extended ℝ n} (hs : SolvesNormal K task s)
    (h : direction K task s = .ok v) :
    task.jacobian.toMatrix *ᵥ v.parameters.get = v.artificial • task.residuals.get := by
  obtain ⟨d, y, hd, hy, rfl⟩ := direction_eq_ok_iff.mp h
  have hnormal := hs d y hd hy
  rw [toMatrix_system, transpose_mul, diagonal_transpose, target, get_mulEach_eq] at hnormal
  refine sub_eq_zero.mp ((transpose_extendedColumns_mulVec task _).symm.trans ?_)
  rw [get_mulEach_eq, get_mulEach_eq, get_sub_eq, Mat.get_mulVec_eq, mulVec_sub, mulVec_sub,
    mulVec_sub, sub_eq_zero]
  simp only [mulVec_mulVec, ← Matrix.mul_assoc] at hnormal ⊢
  exact hnormal.symm

end Sqp.Restoration
