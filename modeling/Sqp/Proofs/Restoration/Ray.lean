import Sqp.Proofs.Restoration.Interior
import Sqp.Proofs.Restoration.Projection

/-!
# Restoration moves the violation along its own ray

Where least-squares problems are solved, repairing a linearisation does not turn its
violation, it only makes it shorter.

- `mulVec_projectOntoConstraints`: a projection takes the whole violation away.
- `Restoration.Reached.ray`: at every state of a restoration, the violation is the
  artificial variable times the violation at the start.
- `Restoration.restore_residual`: the course of a restoration and its end, in these terms.
- `Restoration.restore_ray`: with exact kernels and independent rows, a restored point has
  a violation `t` times as large as at the start, where `t` is under the tolerance unless
  the steps ran out.
-/

namespace Sqp

open Matrix

variable {m n : Nat} {K : Kernels ℝ}

/-! ## Projection -/

/-- With exact kernels and independent rows, a projection takes off the residuals. -/
theorem mulVec_projectOntoConstraints (hK : K.Exact) {jacobian : Mat ℝ m n} {c : Vector ℝ m}
    (hjacobian : LinearIndependent ℝ jacobian.toMatrix.row) {p p' : Vector ℝ n}
    (h : projectOntoConstraints K p jacobian c = .ok p') :
    jacobian.toMatrix *ᵥ p'.get = jacobian.toMatrix *ᵥ p.get - c.get := by
  obtain ⟨y, hy, rfl⟩ := projectOntoConstraints_eq_ok_iff.mp h
  have hsolved := hK.mulVec_of_leastSquares
    (toMatrix_gram jacobian ▸ mul_transpose_col_independent hjacobian) hy
  rw [toMatrix_gram, ← mulVec_mulVec] at hsolved
  rw [get_sub_eq, mulVec_sub, Mat.get_mulVec_eq, Mat.toMatrix_transpose, hsolved]

namespace Restoration

variable {task : Task ℝ ℝ m n} {p : Vector ℝ n}

/-! ## The ray -/

/-- The least-squares problem of each direction that a restoration from `p` asks for is
solved. -/
def SolvesCourse (K : Kernels ℝ) (task : Task ℝ ℝ m n) (p : Vector ℝ n) : Prop :=
  ∀ k s, Reached K task p k s → k < stepLimit → task.tolerance ≤ s.artificial →
    SolvesNormal K task s

/-- Exact kernels solve the normal equations of every step, as scales are positive inside the
bounds. -/
theorem solvesCourse_of_exact (hK : K.Exact)
    (hjacobian : LinearIndependent ℝ task.jacobian.toMatrix.row) (ht : 0 < task.tolerance)
    (hp : task.bounds.strictlyInside p = true) : SolvesCourse K task p :=
  fun _ _ hs _ hgo =>
    solvesNormal_of_exact hK hjacobian (hs.strictlyInside ht hp (ht.trans_le hgo))

/-- Steps keep the violation on its ray. -/
theorem Reached.ray (hK : SolvesCourse K task p) {k : Nat} {s : Extended ℝ n}
    (h : Reached K task p k s) :
    task.residuals.get + task.jacobian.toMatrix *ᵥ (s.parameters - p).get =
      s.artificial • task.residuals.get := by
  induction h with
  | start => simp [get_sub_eq]
  | @step k s v hs hk hv ih =>
    have hnull := mulVec_direction (hK k s hs hk hv.unfinished) hv.direction
    have hmove : ((move s v (stepLength task.bounds s v)).parameters - p).get =
        (s.parameters - p).get - stepLength task.bounds s v • v.parameters.get := by
      rw [get_sub_eq, get_sub_eq, move, get_sub_eq, get_scaled_eq, sub_right_comm]
    rw [hmove, mulVec_sub, mulVec_smul, hnull, ← add_sub_assoc, ih, smul_smul, ← sub_smul, move]

/-- Along the course of a restoration the linearised violation is a multiple of the
violation at the start. The multiplier starts at one, gets smaller with each step, does
not become negative, and is under the tolerance where the restoration counts as
complete. -/
theorem restore_residual (ht : 0 < task.tolerance) (hp : task.bounds.strictlyInside p = true)
    (hK : SolvesCourse K task p) :
    (∀ k s, Reached K task p k s → 0 ≤ s.artificial ∧ s.artificial ≤ 1 ∧
        task.residuals.get + task.jacobian.toMatrix *ᵥ (s.parameters - p).get =
          s.artificial • task.residuals.get) ∧
      (∀ j k s s', Reached K task p j s → Reached K task p k s' → j < k →
        s'.artificial < s.artificial) ∧
      (m ≤ n + 1 → task.bounds.free = false → ∃ o, restore K task p = .ok o) ∧
      ∀ o, restore K task p = .ok o → ∃ k s, Reached K task p k s ∧ o.parameters = s.parameters ∧
        (∀ j s', Reached K task p j s' → s.artificial ≤ s'.artificial) ∧
        (o.complete = true → o.steps = k ∧ s.artificial < task.tolerance) := by
  refine ⟨fun k s hs => ⟨?_, hs.artificial_le ht hp .start (Nat.zero_le k), hs.ray hK⟩,
    fun j k s s' hs hs' hjk => hs'.artificial_lt ht hp hs hjk,
    fun hmn hbounded => exists_restore hmn hbounded p, fun o ho => ?_⟩
  · exact (hs.holds (Bounds.holds_of_strictlyInside hp)).2
  · obtain ⟨k, s, hlast, hparameters, hcomplete⟩ := restore_last ho
    exact ⟨k, s, hlast.reached, hparameters,
      fun j s' hs' => hlast.reached.artificial_le ht hp hs' (hlast.le hs'), hcomplete⟩

/-- The constraint `x + y = 2`, to be restored from the point with both variables `1 / 2`
between the bounds zero and three. -/
noncomputable def sumTask : Task ℝ ℝ 1 2 where
  jacobian := Mat.ofFn fun _ _ => 1
  residuals := Vector.replicate 1 (-1)
  bounds := Vector.replicate 2 (some ⟨0, 3.0⟩)
  mode := .fullyBounded
  tolerance := 0.01

theorem sumTask_strictlyInside :
    sumTask.bounds.strictlyInside #v[(1 / 2 : ℝ), 1 / 2] = true := by
  rw [Bounds.strictlyInside_iff]
  intro i b hb
  fin_cases i <;> cases hb <;> norm_num [Vector.get]

theorem sumTask_row_independent : LinearIndependent ℝ sumTask.jacobian.toMatrix.row := by
  refine row_independent_of_entry (j := 0) ?_
  rw [sumTask, Mat.toMatrix_ofFn]
  exact one_ne_zero

/-- A restoration with one constraint, whose residual it leaves on the ray. -/
theorem restore_residual_sum :
    0 < sumTask.tolerance ∧ sumTask.bounds.strictlyInside #v[1 / 2, 1 / 2] = true ∧
      SolvesCourse Kernels.standard sumTask #v[1 / 2, 1 / 2] ∧
      ∃ o t, restore Kernels.standard sumTask #v[1 / 2, 1 / 2] = .ok o ∧ 0 ≤ t ∧ t ≤ 1 ∧
        sumTask.residuals.get +
            sumTask.jacobian.toMatrix *ᵥ (o.parameters - #v[1 / 2, 1 / 2]).get =
          t • sumTask.residuals.get ∧
        (o.complete = true → t < sumTask.tolerance) := by
  have ht : 0 < sumTask.tolerance := by
    rw [sumTask]
    norm_num
  have hsolves : SolvesCourse Kernels.standard sumTask #v[1 / 2, 1 / 2] :=
    solvesCourse_of_exact Kernels.standard_exact sumTask_row_independent ht sumTask_strictlyInside
  obtain ⟨hray, -, hreturns, hall⟩ := restore_residual ht sumTask_strictlyInside hsolves
  obtain ⟨o, ho⟩ := hreturns (by decide) (by simp [Bounds.free, sumTask])
  obtain ⟨k, s, hs, hparameters, -, hcomplete⟩ := hall o ho
  obtain ⟨hnonneg, hle, hresidual⟩ := hray k s hs
  rw [← hparameters] at hresidual
  exact ⟨ht, sumTask_strictlyInside, hsolves, o, s.artificial, ho, hnonneg, hle, hresidual,
    fun hc => (hcomplete hc).2⟩

/-! ## Exact kernels -/

/-- The violation of the linearisation at the point is the artificial variable times the
violation at `p`. As long as the artificial variable has not vanished, the point is
strictly inside the bounds. -/
structure OnRay (task : Task ℝ ℝ m n) (p : Vector ℝ n) (s : Extended ℝ n) : Prop where
  nonneg : 0 ≤ s.artificial
  le_one : s.artificial ≤ 1
  inside : 0 < s.artificial → task.bounds.strictlyInside s.parameters = true
  ray : task.jacobian.toMatrix *ᵥ s.parameters.get - task.jacobian.toMatrix *ᵥ p.get =
    (s.artificial - 1) • task.residuals.get

/-- A restored point has a violation on the ray of the violation at the start. -/
theorem restore_ray (hK : K.Exact) (hjacobian : LinearIndependent ℝ task.jacobian.toMatrix.row)
    (ht : 0 < task.tolerance) (hp : task.bounds.strictlyInside p = true)
    {o : Outcome ℝ n} (h : restore K task p = .ok o) :
    ∃ t, OnRay task p ⟨o.parameters, t⟩ ∧ (o.complete = true → t < task.tolerance) := by
  obtain ⟨k, s, hlast, hparameters, hcomplete⟩ := restore_last h
  have hs := hlast.reached
  have hray := hs.ray (solvesCourse_of_exact hK hjacobian ht hp)
  rw [hparameters]
  refine ⟨s.artificial, ⟨?_, ?_, hs.strictlyInside ht hp, ?_⟩, fun hc => (hcomplete hc).2⟩
  · exact (hs.holds (Bounds.holds_of_strictlyInside hp)).2
  · exact hs.artificial_le ht hp .start (Nat.zero_le k)
  · rw [get_sub_eq, mulVec_sub] at hray
    rw [sub_smul, one_smul, ← hray]
    exact (add_sub_cancel_left _ _).symm

end Restoration

end Sqp
