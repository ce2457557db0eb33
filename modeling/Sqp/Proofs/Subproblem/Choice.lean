import Sqp.Proofs.Subproblem.Affine
import Sqp.Proofs.Subproblem.Descent
import Sqp.Proofs.Subproblem.Returns

/-!
# The merit that decides whether a descent stalls

- `accepted_best`: without rounding and undefined values, a line search returns the best merit
  it ends with, at a point to which this merit belongs, and a minor iteration is judged by it.
-/

namespace Sqp.Subproblem

open ExactScalar (Dyadic)

section Exact

variable {α : Type} [ExactScalar α] {e q n : Nat}

/-- A line search returns a point at a dyadic position of its segment with the merit of this
point, which is the best merit of its final bracket and no larger than the merit of the start.
So the merit that a minor iteration is judged by belongs to the point that it moves to. -/
theorem accepted_best :
    (∀ (f : Vector α n → α) (start trial : Vector α n) (tolerance : α),
      (∃ a, Dyadic a ∧
        ∀ i, (LineSearch.searchOf f start trial (f start) tolerance).parameters.get i =
          (1 - a) * start.get i + a * trial.get i) ∧
      (LineSearch.searchOf f start trial (f start) tolerance).merit =
        f (LineSearch.searchOf f start trial (f start) tolerance).parameters ∧
      (LineSearch.searchOf f start trial (f start) tolerance).merit =
        (LineSearch.searchOf f start trial (f start) tolerance).bestMerit ∧
      (LineSearch.searchOf f start trial (f start) tolerance).bestMerit ≤ f start) ∧
    ∀ (K : Kernels α) (f : CostFunction α) (settings : Settings α) (problem : Problem α e q n)
      (way : Preparation α α e q n) (s : Iterate α α e q n), way.Merits f s.point s.merit →
      Ensures (minorStep (way.landscape K f settings problem) s) fun s' =>
        way.Merits f s'.point s'.merit ∧ s'.merit ≤ s.merit ∧
          s'.reduction = (s.merit - s'.merit) / (1 + Scalar.abs s.merit) ∧
          (s'.stalled = true ↔ s.merit ≤ s'.merit ∨ s'.reduction < settings.tolerance) :=
  ⟨LineSearch.searchOf_accepts, fun _ _ _ _ way _ hs =>
    ensures_minorStep_accepts (ensures_meritAt way) hs⟩

end Exact

/-! ## A parabola -/

/-- The objective `x²` without constraints. -/
noncomputable def parabola : CostFunction ℝ :=
  affineCost (fun x : Vector ℝ 1 => dot x x) (Mat.ofFn fun _ _ => 0) (zeros ℝ (0 + 0))

/-- The point one, unscaled. -/
noncomputable def parabolaWay : Preparation ℝ ℝ 0 0 1 where
  scale := ⟨1, zeros ℝ 0, Vector.replicate (0 + 1) 1⟩
  notes := []
  lagrangian := ⟨Mat.ofFn fun _ _ => 0, zeros ℝ (0 + 0), zeros ℝ (0 + 0), 1⟩
  start :=
    { point := Vector.replicate (0 + 1) 1
      merit := 1
      gradient := zeros ℝ (0 + 1)
      stale := true
      curvature := Mat.identity ℝ (0 + 1)
      mu := 1
      multipliers := zeros ℝ (0 + 0)
      previous? := none
      reduction := 0
      stalled := false
      bisections := 0 }

noncomputable def parabolaProblem : Problem ℝ 0 0 1 :=
  ⟨Vector.replicate (0 + 1) 1, Vector.replicate (0 + 1) none, .unbounded⟩

noncomputable def parabolaSettings : Settings ℝ := ⟨10, 0.1, 0.01⟩

theorem parabolaWay_merits :
    parabolaWay.Merits parabola parabolaWay.start.point parabolaWay.start.merit := by
  refine Preparation.merits_iff.mpr
    ⟨⟨1, zeros ℝ (0 + 0)⟩, affineCost_eq_ok ?_ (vector_ext fun i => i.elim0), ?_⟩
  · have hpoint : (parabolaWay.scale.userPoint parabolaWay.start.point).get 0 = 1 * 1 := by
      rw [Scale.userPoint, get_mulEach]
      rfl
    rw [dot_eq_dotProduct, dotProduct_eq_sum, Fin.sum_univ_one, hpoint]
    norm_num
  · show (1 : ℝ) = 1 / 1
    norm_num

/-- The first minor iteration, which does return. -/
theorem accepted_best_parabola :
    parabolaWay.Merits parabola parabolaWay.start.point parabolaWay.start.merit ∧
      ∃ s' j', outcome (minorStep (parabolaWay.landscape Kernels.standard parabola parabolaSettings
          parabolaProblem) parabolaWay.start) {} = (.ok s', j') ∧
        parabolaWay.Merits parabola s'.point s'.merit ∧ s'.merit ≤ 1 ∧
        s'.reduction = (1 - s'.merit) / (1 + |1|) ∧
        (s'.stalled = true ↔ 1 ≤ s'.merit ∨ s'.reduction < parabolaSettings.tolerance) := by
  have hmerit : ∀ p, Returns (Journal.Fits (1 + (0 + 0)))
      ((parabolaWay.landscape Kernels.standard parabola parabolaSettings parabolaProblem).meritAt p)
      fun _ => True := fun p =>
    Returns.bind ((affineCost_total _ _ _).returns_evaluate parabolaWay.scale p) fun _ _ =>
      Returns.pure trivial
  have hreturns := returns_minorStep hmerit (s := parabolaWay.start)
    (by show (0.1 : ℝ) ≠ 0; norm_num) fun curvature gradient _ =>
      NewtonStep.exists_compute (Nat.succ_pos _) (Nat.zero_le _) fun u _ _ => by
        refine (Bounds.strictlyInside_divide_iff fun i => ?_).mpr
          ((Bounds.strictlyInside_iff _ _).mpr fun i interval hi => ?_)
        · rw [Fin.fin_one_eq_zero i]
          exact one_pos
        · rw [Fin.fin_one_eq_zero i] at hi
          cases hi
  obtain ⟨s', j', hs', -, -⟩ := hreturns {} Journal.fits_empty
  have haccepted := (@accepted_best ℝ ExactScalar.real 0 0 1).2 Kernels.standard parabola
    parabolaSettings parabolaProblem parabolaWay parabolaWay.start parabolaWay_merits
  exact ⟨parabolaWay_merits, s', j', hs', haccepted.of_outcome hs'⟩

end Sqp.Subproblem
