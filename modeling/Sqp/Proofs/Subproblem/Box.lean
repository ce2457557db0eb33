import Sqp.Proofs.Restoration.Course
import Sqp.Proofs.Subproblem.Steps

/-!
# Inner solves stay in the box

- `Visitable`: the decision part of a point that meets all bounds, or such a vector with
  one entry shifted.
- `confined_solve`: an inner solve of a problem with bounds, whatever its kernels return,
  calls the cost function at such vectors only and ends at a point that meets all bounds.
-/

namespace Sqp

variable {e q n : Nat}

/-- The decision vectors of points that meet all bounds, possibly with one variable
increased by `shift`. -/
def Visitable (bounds : Bounds ℝ (q + n)) (shift : ℝ) (x : List ℝ) : Prop :=
  ∃ p, bounds.Holds p ∧ (x = (back p).toList ∨ ∃ i, x = (nudge (back p) i shift).toList)

namespace Subproblem

/-- The shift of finite differences in user units, for a problem with bounds: the
difference step times the factor that all variables share. -/
noncomputable def Settings.shift (settings : Settings ℝ) : ℝ :=
  settings.delta * Scale.boundedFactor settings.tolerance

variable {K : Kernels ℝ} {f f' : CostFunction ℝ} {settings : Settings ℝ}
  {problem : Problem ℝ e q n} {entry : InnerStart ℝ ℝ e q n} {scale : Scale ℝ e q n}

/-- Points that meet the scaled bounds are visitable. -/
theorem visitable_point (hs : scale.Positive) {shift : ℝ} {p : Vector ℝ (q + n)}
    (hp : (scale.scaleBounds problem.bounds).Holds p) :
    Visitable problem.bounds shift (scale.userPoint p).toList :=
  ⟨scale.unscaleParameters p, (Bounds.holds_divide_iff hs.parameters).mp hp,
    .inl (by rw [Scale.userPoint_eq])⟩

/-- Points that meet the scaled bounds are visitable after a shift. -/
theorem visitable_nudge (hs : scale.Positive) {c delta : ℝ}
    (hc : ∀ i, scale.parameters.get i = c) {p : Vector ℝ (q + n)}
    (hp : (scale.scaleBounds problem.bounds).Holds p) (i : Fin n) :
    Visitable problem.bounds (delta * c) (scale.userPoint (nudge p (i.natAdd q) delta)).toList :=
  ⟨scale.unscaleParameters p, (Bounds.holds_divide_iff hs.parameters).mp hp,
    .inr ⟨i, by rw [Scale.userPoint_nudge, hc]⟩⟩

/-- The point of a linearisation meets the bounds if the point of entry does. -/
theorem Linearises.point_holds {mode : BoundMode} {bounds : Bounds ℝ (q + n)} {tolerance : ℝ}
    {p : Vector ℝ (q + n)} {cost : Cost ℝ (e + q)}
    {D : Vector ℝ (q + n) → Mat ℝ (e + q) (q + n) → Prop} {l : Linearisation ℝ e q n}
    (h : Linearises K mode bounds tolerance p cost D l) (hmode : mode ≠ .unbounded)
    (hp : bounds.Holds p) : bounds.Holds l.point := by
  cases h with
  | unconstrained => exact hp
  | kept => exact hp
  | projected _ _ _ hunbounded => exact absurd hunbounded hmode
  | restored _ _ _ _ hrestore => exact Restoration.restore_holds hp hrestore

/-- The box of the scaled bounds is a region for the descent. -/
theorem region_box (hs : scale.Positive) {c : ℝ} (hc : ∀ i, scale.parameters.get i = c)
    (hf : ∀ x, Visitable problem.bounds (settings.delta * c) x → f x = f' x)
    {g : Landscape ℝ ℝ e q n} (hcostAt : g.costAt = scale.evaluate f)
    (hbounds : g.bounds = scale.scaleBounds problem.bounds) (hsettings : g.settings = settings) :
    Region (Visitable problem.bounds (settings.delta * c)) g (scale.evaluate f') g.bounds.Holds
      fun _ => True where
  convex _ _ _ hp hv ha₀ ha₁ := Bounds.holds_along hp hv ha₀ ha₁
  cost p hp := by
    rw [hbounds] at hp
    rw [hcostAt]
    exact (Confined.scaleEvaluate hf (visitable_point hs hp)).mono fun _ _ => trivial
  shifted p i hp := by
    rw [hbounds] at hp
    rw [hcostAt, hsettings]
    exact (Confined.scaleEvaluate hf (visitable_nudge hs hc hp i)).mono fun _ _ => trivial

/-- An inner solve that starts in the box calls the cost function only at points of the
box, with or without a shift, and ends in the box. -/
theorem confined_solve (problem : Problem ℝ e q n) {entry : InnerStart ℝ ℝ e q n}
    (ht : 0 < settings.tolerance) (hmode : problem.mode ≠ .unbounded)
    (hf : ∀ x, Visitable problem.bounds settings.shift x → f x = f' x)
    (hp : problem.bounds.Holds entry.parameters) :
    Confined (Visitable problem.bounds settings.shift)
      (solve K f settings problem entry) (solve K f' settings problem entry)
      fun r => problem.bounds.Holds r.parameters := by
  have hentry : ∀ scale : Scale ℝ e q n, scale.Positive →
      (scale.scaleBounds problem.bounds).Holds (scale.scaleParameters entry.parameters) := by
    intro scale hs
    refine (Bounds.holds_divide_iff hs.parameters).mpr ?_
    rwa [show mulEach (scale.scaleParameters entry.parameters) scale.parameters = entry.parameters
      from Scale.unscale_scale hs _]
  have hprepare : Confined (Visitable problem.bounds settings.shift)
      (prepare K f settings problem entry) (prepare K f' settings problem entry)
      fun way => ∃ l,
        Prepares K settings problem entry (fun _ _ _ => True) (fun _ _ => True) way l := by
    refine confined_prepare (fun scale hscale _ => ?_) fun scale l hscale hl => ?_
    · have hs := Scale.compute_positive ht hscale
      refine (confined_constraintJacobian fun i => Confined.scaleEvaluate hf ?_).mono
        fun _ _ => trivial
      exact visitable_nudge hs (Scale.compute_parameters ht hmode hscale) (hentry scale hs) i
    · have hs := Scale.compute_positive ht hscale
      refine (Confined.scaleEvaluate hf ?_).mono fun _ _ => trivial
      exact visitable_point hs (hl.point_holds hmode (hentry scale hs))
  refine Confined.bind (Q := fun d => problem.bounds.Holds (d.scale.unscaleParameters d.last.point))
    (Confined.bind hprepare fun way hway => ?_)
    fun d hd => Confined.bind (Confined.report _) fun _ _ => Confined.pure hd
  obtain ⟨l, hway⟩ := hway
  have hs := Scale.compute_positive ht hway.scale
  have hstart : (way.scale.scaleBounds problem.bounds).Holds way.start.point := by
    rw [hway.point]
    exact hway.linearised.point_holds hmode (hentry _ hs)
  have region := region_box (g := way.landscape K f settings problem) hs
    (Scale.compute_parameters ht hmode hway.scale) hf rfl rfl rfl
  -- a Newton trial is accepted strictly inside the bounds, so the box is kept
  refine Confined.bind (confined_descend
    (I := fun s => (way.scale.scaleBounds problem.bounds).Holds s.point)
    (fun s hs => (confined_minorStep region hs trivial fun _ _ t _ h =>
      Bounds.holds_of_strictlyInside (NewtonStep.compute_strictlyInside h)).mono fun _ h => h.1)
    settings.minorLimit way.start hstart) fun course hcourse => Confined.pure ?_
  exact (Bounds.holds_divide_iff hs.parameters).mp
    (Descent.last_of_forall (d := ⟨way.scale, way.notes, way.start, course⟩)
      (I := fun s => (way.scale.scaleBounds problem.bounds).Holds s.point) hstart hcourse)

end Subproblem

end Sqp
