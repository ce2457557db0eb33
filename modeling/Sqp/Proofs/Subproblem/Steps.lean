import Sqp.Proofs.Merit
import Sqp.Proofs.NewtonStep
import Sqp.Proofs.Restoration
import Sqp.Proofs.Subproblem.Course

/-!
# What an inner solve does

Everything that the parts of an inner solve can do, said once, so that each invariant of
inner solves is a short case analysis.

- `Linearises`: the ways in which a linearisation comes about, with
  `confined_linearise`.
- `Move`: what one minor iteration does to an iterate: the curvature is kept or updated,
  and the point goes some way towards a Newton trial.
- `Region`: a convex set of points in which the cost function may be called, with or
  without a shift; `confined_minorStep` says that a minor iteration whose Newton trial is
  in such a region stays in it.
- `Prepares`: what a descent starts from, with `confined_prepare`.
-/

namespace Sqp.Subproblem

variable {e q n : Nat} {P : List ℝ → Prop}

/-! ## Linearisation -/

/-- The ways to a linearisation at `p`, given what is known of the differences there. -/
inductive Linearises (K : Kernels ℝ) (mode : BoundMode) (bounds : Bounds ℝ (q + n)) (tolerance : ℝ)
    (p : Vector ℝ (q + n)) (cost : Cost ℝ (e + q))
    (D : Vector ℝ (q + n) → Mat ℝ (e + q) (q + n) → Prop) : Linearisation ℝ e q n → Prop where
  /-- Without constraints there is nothing to do. -/
  | unconstrained (h : e + q = 0) :
    Linearises K mode bounds tolerance p cost D
      ⟨p, zeros ℝ (q + n), Mat.ofFn fun _ _ => 0, zeros ℝ (e + q), true, []⟩
  /-- The residuals are small, and the point is kept. -/
  | kept {gradient jacobian notes} (h : e + q ≠ 0) (hD : D gradient jacobian)
    (hsmall : infinityNorm (slackResiduals cost.constraints p) < tolerance) :
    Linearises K mode bounds tolerance p cost D
      ⟨p, gradient, jacobian, jacobian.mulVec p - slackResiduals cost.constraints p, false, notes⟩
  /-- Without bounds the point is projected. -/
  | projected {gradient jacobian notes point} (h : e + q ≠ 0) (hD : D gradient jacobian)
    (hlarge : tolerance ≤ infinityNorm (slackResiduals cost.constraints p))
    (hmode : mode = .unbounded)
    (hpoint : projectOntoConstraints K p jacobian (slackResiduals cost.constraints p) = .ok point) :
    Linearises K mode bounds tolerance p cost D
      ⟨point, gradient, jacobian, jacobian.mulVec p - slackResiduals cost.constraints p, true,
        notes⟩
  /-- With bounds feasibility is restored, and a restoration that stops short is noted. -/
  | restored {gradient jacobian notes o} (h : e + q ≠ 0) (hD : D gradient jacobian)
    (hlarge : tolerance ≤ infinityNorm (slackResiduals cost.constraints p))
    (hmode : mode ≠ .unbounded)
    (hrestore : Restoration.restore K
      ⟨jacobian, slackResiduals cost.constraints p, bounds, mode, tolerance⟩ p = .ok o)
    (hnotes : o.complete = false → Warning.restorationIncomplete ∈ notes) :
    Linearises K mode bounds tolerance p cost D
      ⟨o.parameters, gradient, jacobian, jacobian.mulVec o.parameters, true, notes⟩

/-- A linearisation calls the cost function at the shifted points only, and ends with the Jacobian
that belongs to their answers. -/
theorem confined_linearise {K : Kernels ℝ}
    {costAt costAt' : Vector ℝ (q + n) → Recorded ℝ (Cost ℝ (e + q))} {mode : BoundMode}
    {bounds : Bounds ℝ (q + n)} {settings : Settings ℝ} {p : Vector ℝ (q + n)}
    {cost : Cost ℝ (e + q)} {D : Vector ℝ (q + n) → Mat ℝ (e + q) (q + n) → Prop}
    (hD : e + q ≠ 0 → Confined P (constraintJacobian costAt p cost settings.delta)
      (constraintJacobian costAt' p cost settings.delta) fun r => D r.1 r.2) :
    Confined P (linearise K costAt mode bounds settings p cost)
      (linearise K costAt' mode bounds settings p cost)
      (Linearises K mode bounds settings.tolerance p cost D) := by
  refine Confined.ite (fun h => Confined.pure (.unconstrained h)) fun h => ?_
  refine Confined.bind (hD h) fun r hr => ?_
  obtain ⟨gradient, jacobian⟩ := r
  refine Confined.ite (fun hlarge => ?_) fun hsmall => Confined.pure (.kept h hr (not_le.mp hsmall))
  cases mode with
  | unbounded =>
    exact Confined.bind (Confined.recorded fun _ hpoint => hpoint) fun point hpoint =>
      Confined.pure (.projected h hr hlarge rfl hpoint)
  | slackBounded | fullyBounded =>
    refine Confined.bind (Confined.recorded fun _ ho => ho) fun o ho => ?_
    refine Confined.bind (Confined.report _) fun _ _ =>
      Confined.pure (.restored h hr hlarge (by simp) ho fun hc => ?_)
    simp [hc]

/-- A linearisation that is not stale stands at the point of entry. -/
theorem Linearises.point_eq {K : Kernels ℝ} {mode : BoundMode} {bounds : Bounds ℝ (q + n)}
    {tolerance : ℝ} {p : Vector ℝ (q + n)} {cost : Cost ℝ (e + q)}
    {D : Vector ℝ (q + n) → Mat ℝ (e + q) (q + n) → Prop} {l : Linearisation ℝ e q n}
    (h : Linearises K mode bounds tolerance p cost D l) (hstale : ¬ l.stale = true) :
    l.point = p := by
  cases h with
  | kept => rfl
  | unconstrained | projected | restored => exact absurd rfl hstale

/-! ## Minor iterations -/

/-- What a minor iteration does to an iterate. -/
structure Move (g : Landscape ℝ ℝ e q n) (s s' : Iterate ℝ ℝ e q n) : Prop where
  /-- The curvature is kept or updated. -/
  curvature : s'.curvature = s.curvature ∨
    ∃ x y, s'.curvature = Curvature.update s.curvature x y
  /-- The point moves towards a Newton trial, whose damping is kept. -/
  point : ∃ gradient t a, NewtonStep.compute g.kernels
      ⟨s'.curvature, gradient, g.lagrangian.jacobian, trustScale s.point g.bounds g.mode⟩
      s.point g.bounds (s.mu / 10) = .ok t ∧ s'.mu = t.mu ∧
    0 ≤ a ∧ a ≤ 1 ∧ s'.point = LineSearch.along s.point t.parameters a

/-- A convex region `S` of scaled points. The cost function may be called in it, which
establishes `C`, and at shifted points of it. -/
structure Region (P : List ℝ → Prop) (g : Landscape ℝ ℝ e q n)
    (costAt' : Vector ℝ (q + n) → Recorded ℝ (Cost ℝ (e + q)))
    (S C : Vector ℝ (q + n) → Prop) : Prop where
  convex : ∀ p v a, S p → S v → 0 ≤ a → a ≤ 1 → S (LineSearch.along p v a)
  cost : ∀ p, S p → Confined P (g.costAt p) (costAt' p) fun _ => C p
  shifted : ∀ p (i : Fin n), S p →
    Confined P (g.costAt (nudge p (i.natAdd q) g.settings.delta))
      (costAt' (nudge p (i.natAdd q) g.settings.delta)) fun _ => True

variable {g : Landscape ℝ ℝ e q n} {costAt' : Vector ℝ (q + n) → Recorded ℝ (Cost ℝ (e + q))}
  {S C : Vector ℝ (q + n) → Prop}

/-- The merit of a point costs one call of the cost function there. -/
theorem confined_meritAt {p : Vector ℝ (q + n)} {R : Prop}
    (h : Confined P (g.costAt p) (costAt' p) fun _ => R) :
    Confined P (g.meritAt p) (Landscape.meritAt { g with costAt := costAt' } p) fun _ => R :=
  Confined.bind h fun _ hR => Confined.pure hR

theorem learned_cases (s : Iterate ℝ ℝ e q n) (gradient : Vector ℝ (q + n)) :
    s.learned gradient = s.curvature ∨
      ∃ x y, s.learned gradient = Curvature.update s.curvature x y := by
  unfold Iterate.learned
  split
  · exact .inl rfl
  · exact .inr ⟨_, _, rfl⟩

/-- A minor iteration keeps a curvature positive definite. -/
theorem curvature_posDef {h h' : Mat ℝ n n} (hh : h.toMatrix.PosDef)
    (hcases : h' = h ∨ ∃ x y, h' = Curvature.update h x y) : h'.toMatrix.PosDef := by
  rcases hcases with rfl | ⟨x, y, rfl⟩
  · exact hh
  · exact Curvature.update_posDef hh x y

/-- A minor iteration whose Newton trials are in the region stays in it. -/
theorem confined_minorStep (region : Region P g costAt' S C) {s : Iterate ℝ ℝ e q n}
    (hS : S s.point) (hC : C s.point)
    (hnewton : ∀ curvature gradient t,
      (curvature = s.curvature ∨ ∃ x y, curvature = Curvature.update s.curvature x y) →
      NewtonStep.compute g.kernels
        ⟨curvature, gradient, g.lagrangian.jacobian, trustScale s.point g.bounds g.mode⟩
        s.point g.bounds (s.mu / 10) = .ok t → S t.parameters) :
    Confined P (minorStep g s) (minorStep { g with costAt := costAt' } s) fun s' =>
      S s'.point ∧ C s'.point ∧ Move g s s' := by
  have hten : s.mu / (10.0 : ℝ) = s.mu / 10 := by norm_num
  have hgradient : Confined P (g.gradientAt s)
      (Landscape.gradientAt { g with costAt := costAt' } s) fun _ => True :=
    Confined.ite
      (fun _ => confined_meritGradient fun i => confined_meritAt (region.shifted _ i hS))
      fun _ => Confined.pure trivial
  refine Confined.bind hgradient fun gradient _ => ?_
  refine Confined.bind (Confined.recorded fun _ ht => ht) fun t ht => ?_
  rw [hten] at ht
  have htrial : S t.parameters := hnewton _ _ t (learned_cases s gradient) ht
  -- the search evaluates the merit on the segment to the trial only
  refine Confined.bind (LineSearch.confined_search (M := fun p _ => C p) hC fun a ha₀ ha₁ =>
    confined_meritAt (region.cost _ (region.convex _ _ a hS htrial ha₀ ha₁))) fun found hfound => ?_
  obtain ⟨a, ha₀, ha₁, hpoint, hCpoint⟩ := hfound
  refine Confined.pure
    ⟨?_, hCpoint, learned_cases s gradient, gradient, t, a, ht, rfl, ha₀, ha₁, hpoint⟩
  show S found.parameters
  rw [hpoint]
  exact region.convex _ _ a hS htrial ha₀ ha₁

/-! ## Inner solves -/

/-- What a descent starts from, if `l` is its linearisation. A linearisation elsewhere
than at the point of entry has called the cost function, which establishes `C`. -/
structure Prepares (K : Kernels ℝ) (settings : Settings ℝ) (problem : Problem ℝ e q n)
    (entry : InnerStart ℝ ℝ e q n)
    (D : Scale ℝ e q n → Vector ℝ (q + n) → Mat ℝ (e + q) (q + n) → Prop)
    (C : Scale ℝ e q n → Vector ℝ (q + n) → Prop) (way : Preparation ℝ ℝ e q n)
    (l : Linearisation ℝ e q n) : Prop extends way.Follows settings problem entry l where
  linearised : Linearises K problem.mode (way.scale.scaleBounds problem.bounds) settings.tolerance
    (way.scale.scaleParameters entry.parameters) (way.scale.scaleCost entry.cost) (D way.scale) l
  cost : l.stale = true → C way.scale l.point

variable {K : Kernels ℝ} {f f' : CostFunction ℝ} {settings : Settings ℝ}
  {problem : Problem ℝ e q n} {entry : InnerStart ℝ ℝ e q n}

/-- The way into a descent is confined by what confines its calls. -/
theorem confined_prepare
    {D : Scale ℝ e q n → Vector ℝ (q + n) → Mat ℝ (e + q) (q + n) → Prop}
    {C : Scale ℝ e q n → Vector ℝ (q + n) → Prop}
    (hD : ∀ scale : Scale ℝ e q n,
      Scale.compute problem.mode entry.cost.objective (front entry.cost.constraints).toList
        entry.parameters settings.tolerance = .ok scale → e + q ≠ 0 →
      Confined P
        (constraintJacobian (scale.evaluate f) (scale.scaleParameters entry.parameters)
          (scale.scaleCost entry.cost) settings.delta)
        (constraintJacobian (scale.evaluate f') (scale.scaleParameters entry.parameters)
          (scale.scaleCost entry.cost) settings.delta) fun r => D scale r.1 r.2)
    (hC : ∀ (scale : Scale ℝ e q n) (l : Linearisation ℝ e q n),
      Scale.compute problem.mode entry.cost.objective (front entry.cost.constraints).toList
        entry.parameters settings.tolerance = .ok scale →
      Linearises K problem.mode (scale.scaleBounds problem.bounds) settings.tolerance
        (scale.scaleParameters entry.parameters) (scale.scaleCost entry.cost) (D scale) l →
      Confined P (scale.evaluate f l.point) (scale.evaluate f' l.point) fun _ =>
        C scale l.point) :
    Confined P (prepare K f settings problem entry) (prepare K f' settings problem entry)
      fun way => ∃ l, Prepares K settings problem entry D C way l := by
  refine (confined_prepare_follows (C := fun scale l _ => l.stale = true → C scale l.point)
    (fun scale hscale => confined_linearise (hD scale hscale)) fun scale l hscale hl => ?_).mono ?_
  · -- the cost function is called only if the linearisation is stale
    exact Confined.ite (fun _ => (hC scale l hscale hl).mono fun _ h _ => h)
      fun h => Confined.pure fun h' => absurd h' h
  · rintro way ⟨l, hl, hfollows, _, hcost, -⟩
    exact ⟨l, hfollows, hl, hcost⟩

/-- What every way into an inner solve has in common. -/
theorem ensures_prepare_prepares : Ensures (prepare K f settings problem entry) fun way =>
    ∃ l, Prepares K settings problem entry (fun _ _ _ => True) (fun _ _ => True) way l :=
  confined_prepare (fun _ _ _ => Ensures.any _) fun _ _ _ _ => Ensures.any _

end Sqp.Subproblem
