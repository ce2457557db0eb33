import Sqp.Proofs.LineSearch.Choice
import Sqp.Proofs.Returns
import Sqp.Proofs.Subproblem.Steps

/-!
# Merits along an inner solve

In exact arithmetic an inner solve knows the merit of every point that it reaches, and the
merit never rises, whatever the kernels return.

- `Preparation.Merits`: the merit that belongs to a scaled point.
- `ensures_prepare_merits`, `ensures_minorStep_merits`: it is the one that is recorded
  where the descent starts and after each minor iteration, and no minor iteration raises
  it; `ensures_run_merits` says the same of a whole inner solve.
- `ensures_solve_objective_le`: without constraints the merit is the scaled objective, so
  an inner solve does not raise the objective.
-/

namespace Sqp.Subproblem

variable {e q n : Nat}

/-! ## Minor iterations -/

/-- The reduction and the stall test of a minor iteration compare the merits of the two points
between which it moves. -/
theorem ensures_minorStep_accepts {α : Type} [ExactScalar α] {g : Landscape α α e q n}
    {M : Vector α (q + n) → α → Prop} (hM : ∀ p, Ensures (g.meritAt p) (M p))
    {s : Iterate α α e q n} (hs : M s.point s.merit) :
    Ensures (minorStep g s) fun s' => M s'.point s'.merit ∧ s'.merit ≤ s.merit ∧
      s'.reduction = (s.merit - s'.merit) / (1 + Scalar.abs s.merit) ∧
      (s'.stalled = true ↔ s.merit ≤ s'.merit ∨ s'.reduction < g.settings.tolerance) := by
  refine Confined.bind (Ensures.any _) fun gradient _ => ?_
  refine Confined.bind (Ensures.any _) fun t _ => ?_
  refine Confined.bind (LineSearch.ensures_search_accepts hM hs) fun found hfound => ?_
  obtain ⟨-, hmerit, hbest, hle⟩ := hfound
  refine Confined.pure ⟨hmerit, hbest.trans_le hle, ?_, ?_⟩
  · dsimp only
    rw [hbest]
  · dsimp only
    rw [hbest, Bool.or_eq_true, decide_eq_true_iff, decide_eq_true_iff]

/-- A minor iteration records a merit that belongs to its point, and it does not raise the
merit. -/
theorem ensures_minorStep_merits {g : Landscape ℝ ℝ e q n} {M : Vector ℝ (q + n) → ℝ → Prop}
    (hM : ∀ p, Ensures (g.meritAt p) (M p)) {s : Iterate ℝ ℝ e q n} (hs : M s.point s.merit) :
    Ensures (minorStep g s) fun s' => M s'.point s'.merit ∧ s'.merit ≤ s.merit :=
  (@ensures_minorStep_accepts e q n ℝ ExactScalar.real g M hM s hs).mono fun _ h =>
    ⟨h.1, h.2.1⟩

/-! ## The way in -/

section Merits

variable {α β : Type} [Scalar α] [Scalar β] [Storage α β] {K : Kernels β} {f : CostFunction α}
  {settings : Settings α} {problem : Problem β e q n}

/-- The merit of a scaled point: that of the scaled cost vector which the cost function
gives there. -/
def Preparation.Merits (f : CostFunction α) (way : Preparation α β e q n) (p : Vector β (q + n))
    (merit : α) : Prop :=
  ∃ user : Cost β (e + q),
    f ((way.scale.userPoint p).toList.map load) = .ok (user.toList.map load) ∧
      merit = load (way.lagrangian.value (way.scale.scaleCost user) p)

/-- The merit function of a descent is the augmented Lagrangian of the scaled answer of the cost
function. -/
theorem ensures_meritAt (way : Preparation α β e q n) (p : Vector β (q + n)) :
    Ensures ((way.landscape K f settings problem).meritAt p) (way.Merits f p) := by
  refine Confined.bind (Confined.scaleEvaluate_load (fun _ _ => rfl) trivial) fun c hc => ?_
  obtain ⟨user, huser, rfl⟩ := hc
  exact Confined.pure ⟨user, huser, rfl⟩

end Merits

variable {K : Kernels ℝ} {f : CostFunction ℝ} {settings : Settings ℝ} {problem : Problem ℝ e q n}
  {entry : InnerStart ℝ ℝ e q n}

/-- The same over the reals, where nothing is loaded or stored. -/
theorem Preparation.merits_iff {way : Preparation ℝ ℝ e q n} {p : Vector ℝ (q + n)} {merit : ℝ} :
    way.Merits f p merit ↔ ∃ user : Cost ℝ (e + q),
      f (way.scale.userPoint p).toList = .ok user.toList ∧
        merit = way.lagrangian.value (way.scale.scaleCost user) p := by
  simp only [Merits, map_load_real, load_real]

/-- The descent starts with the merit of its point, if the cost vector at entry is the one
of the parameters. -/
theorem ensures_prepare_merits (ht : 0 < settings.tolerance)
    (hcost : f (back entry.parameters).toList = .ok entry.cost.toList) :
    Ensures (prepare K f settings problem entry) fun way =>
      way.Merits f way.start.point way.start.merit := by
  refine (confined_prepare_follows (C := fun scale l base => ∃ user : Cost ℝ (e + q),
    f (scale.userPoint l.point).toList = .ok user.toList ∧ base = scale.scaleCost user)
    (fun _ _ => confined_linearise (D := fun _ _ => True) fun _ => Ensures.any _)
    fun scale l hscale hl => ?_).mono ?_
  · have hs := Scale.compute_positive ht hscale
    refine Confined.ite (fun _ => Confined.scaleEvaluate (fun _ _ => rfl) trivial) fun hstale => ?_
    refine Confined.pure ⟨entry.cost, ?_, rfl⟩
    rw [hl.point_eq hstale, Scale.userPoint_eq, Scale.unscale_scale hs, hcost]
  · rintro way ⟨l, -, hfollows, _, ⟨user, huser, rfl⟩, hmerit⟩
    rw [← hfollows.point] at huser
    exact Preparation.merits_iff.mpr ⟨user, huser, hmerit⟩

/-! ## Inner solves -/

/-- The last point of an inner solve has a merit that is no larger than that of the point
where the descent started. -/
theorem ensures_run_merits (ht : 0 < settings.tolerance)
    (hcost : f (back entry.parameters).toList = .ok entry.cost.toList) :
    Ensures (run K f settings problem entry) fun d => ∃ way l,
      Prepares K settings problem entry (fun _ _ _ => True) (fun _ _ => True) way l ∧
      d.scale = way.scale ∧ way.Merits f way.start.point way.start.merit ∧
      way.Merits f d.last.point d.last.merit ∧ d.last.merit ≤ way.start.merit := by
  refine Confined.bind
    (ensures_prepare_prepares.and_ensures (ensures_prepare_merits ht hcost)) fun way hway => ?_
  obtain ⟨⟨l, hprepares⟩, hstart⟩ := hway
  refine Confined.bind (confined_descend
    (I := fun s => way.Merits f s.point s.merit ∧ s.merit ≤ way.start.merit) (fun s hs => ?_)
    settings.minorLimit way.start ⟨hstart, le_rfl⟩) fun course hcourse => ?_
  · refine (ensures_minorStep_merits (ensures_meritAt way) hs.1).mono ?_
    rintro s' ⟨hmerit, hle⟩
    exact ⟨hmerit, hle.trans hs.2⟩
  · obtain ⟨hmerit, hle⟩ := Descent.last_of_forall
      (d := ⟨way.scale, way.notes, way.start, course⟩) ⟨hstart, le_rfl⟩ hcourse
    exact Confined.pure ⟨way, l, hprepares, rfl, hstart, hmerit, hle⟩

/-- An inner solve without constraints does not raise the objective. -/
theorem ensures_solve_objective_le (hfree : e + q = 0) (ht : 0 < settings.tolerance)
    (hcost : f (back entry.parameters).toList = .ok entry.cost.toList) :
    Ensures (solve K f settings problem entry) fun r => ∃ cost : Cost ℝ (e + q),
      f (back r.parameters).toList = .ok cost.toList ∧ cost.objective ≤ entry.cost.objective := by
  refine Confined.bind (ensures_run_merits ht hcost) fun d hd =>
    Confined.bind (Confined.report _) fun _ _ => Confined.pure ?_
  obtain ⟨way, l, hway, hscale, hstart, hend, hle⟩ := hd
  obtain ⟨first, hfirst, hstart⟩ := Preparation.merits_iff.mp hstart
  obtain ⟨last, hlast, hend⟩ := Preparation.merits_iff.mp hend
  have hs := Scale.compute_positive ht hway.scale
  -- without constraints the descent starts at the point of entry
  have hpoint : way.start.point = way.scale.scaleParameters entry.parameters := by
    rw [hway.point]
    cases hway.linearised with
    | unconstrained => rfl
    | kept h => exact absurd hfree h
    | projected h => exact absurd hfree h
    | restored h => exact absurd hfree h
  have hentry : first = entry.cost := by
    rw [hpoint, Scale.userPoint_eq, Scale.unscale_scale hs, hcost] at hfirst
    exact (Cost.toList_injective (Except.ok.inj hfirst)).symm
  refine ⟨last, ?_, ?_⟩
  · show f (back (d.scale.unscaleParameters d.last.point)).toList = _
    rw [hscale, ← Scale.userPoint_eq, hlast]
  · rw [hstart, hend, AugmentedLagrangian.value, AugmentedLagrangian.value, if_pos hfree,
      if_pos hfree, hentry] at hle
    exact (div_le_div_iff_of_pos_right hs.objective).mp hle

end Sqp.Subproblem
