import Sqp.Proofs.Subproblem.Choice
import Sqp.Proofs.Subproblem.Records
import Sqp.Proofs.Subproblem.Settle

/-!
# How the merit falls during an inner solve

A descent goes on as long as the merit falls by more than the tolerance, at most as often as
it is allowed to. Which of the two has ended it can be told from the last minor iteration.

- `Subproblem.Accepts`: what one minor iteration does to the merit.
- `Subproblem.Decreases`: what a descent does to it (`Subproblem.Course.decreases`).
- `Subproblem.solve_decreases`: what is left of this in the result of an inner solve, and what
  its warning means.
-/

namespace Sqp.Subproblem

/-! ## The merit of one minor iteration -/

section Merit

variable {e q n : Nat} {M : Vector ℝ (q + n) → ℝ → Prop} {tolerance : ℝ}
  {s s' : Iterate ℝ ℝ e q n} {d : Descent ℝ ℝ e q n} {limit : Nat}

/-- What a minor iteration from `s` to `s'` does to the merit, where `M` says which merit belongs
to a point. -/
structure Accepts (M : Vector ℝ (q + n) → ℝ → Prop) (tolerance : ℝ) (s s' : Iterate ℝ ℝ e q n) :
    Prop where
  merit : M s'.point s'.merit
  le : s'.merit ≤ s.merit
  reduction : s'.reduction = (s.merit - s'.merit) / (1 + |s.merit|)
  stalled_iff : s'.stalled = true ↔ s.merit ≤ s'.merit ∨ s'.reduction < tolerance

theorem ensures_minorStep_accept {g : Landscape ℝ ℝ e q n} (hM : ∀ p, Ensures (g.meritAt p) (M p))
    (hs : M s.point s.merit) : Ensures (minorStep g s) (Accepts M g.settings.tolerance s) :=
  (@ensures_minorStep_accepts e q n ℝ ExactScalar.real g M hM s hs).mono fun _ h =>
    ⟨h.1, h.2.1, h.2.2.1, h.2.2.2⟩

/-- A minor iteration that has not stalled has brought enough. -/
theorem Accepts.sufficient (h : Accepts M tolerance s s') (hgoes : s'.stalled = false) :
    tolerance * (1 + |s.merit|) ≤ s.merit - s'.merit := by
  have hstalled := mt h.stalled_iff.mpr (Bool.eq_false_iff.mp hgoes)
  have hreduction : tolerance ≤ s'.reduction := not_lt.mp fun hlt => hstalled (.inr hlt)
  rw [h.reduction] at hreduction
  exact (le_div_iff₀ (by positivity)).mp hreduction

/-- One that has stalled has not brought more than that, for whichever reason it is said to have
stalled. -/
theorem Accepts.reduction_le (h : Accepts M tolerance s s') (ht : 0 < tolerance)
    (hstalled : s'.stalled = true) : s'.reduction ≤ tolerance := by
  rcases h.stalled_iff.mp hstalled with hmerit | hreduction
  · rw [h.reduction]
    exact (div_nonpos_of_nonpos_of_nonneg (sub_nonpos.mpr hmerit) (by positivity)).trans ht.le
  · exact hreduction.le

/-! ## The merits of a descent -/

/-- What a descent of at most `limit` minor iterations does to the merit. -/
structure Decreases (M : Vector ℝ (q + n) → ℝ → Prop) (tolerance : ℝ) (limit : Nat)
    (d : Descent ℝ ℝ e q n) : Prop where
  length_pos : 0 < d.course.length
  length_le : d.course.length ≤ limit
  merit : ∀ k ≤ d.course.length, M (d.after k).point (d.after k).merit
  le : ∀ k < d.course.length, (d.after (k + 1)).merit ≤ (d.after k).merit
  /-- All minor iterations but the last one bring enough. -/
  sufficient : ∀ k, k + 1 < d.course.length →
    tolerance * (1 + |(d.after k).merit|) ≤ (d.after k).merit - (d.after (k + 1)).merit
  reduction : d.last.reduction =
    ((d.after (d.course.length - 1)).merit - (d.after d.course.length).merit) /
      (1 + |(d.after (d.course.length - 1)).merit|)
  /-- If the last one does as well, it is the last one that is allowed. -/
  exhausts : tolerance < d.last.reduction → d.course.length = limit

/-- A course of accepted steps decreases the merit, by what is known of each pair of neighbours.
-/
theorem Course.decreases (h : Course (Accepts M tolerance) limit d.start d.course)
    (ht : 0 < tolerance) (hlimit : 0 < limit) (hstart : M d.start.point d.start.merit) :
    Decreases M tolerance limit d := by
  have hpos : 0 < d.course.length := List.length_pos_iff.mpr (h.nonempty hlimit)
  have hlast : Accepts M tolerance (d.after (d.course.length - 1)) d.last := by
    have := h.step (Nat.sub_lt hpos one_pos)
    rwa [Nat.sub_one_add_one hpos.ne', Descent.after_length] at this
  refine ⟨hpos, h.length_le, fun k hk => ?_, fun k hk => (h.step hk).le, fun k hk =>
    (h.step (Nat.lt_of_succ_lt hk)).sufficient (h.not_stalled hk), ?_, fun hexceeds => ?_⟩
  · cases k with
    | zero => exact hstart
    | succ k => exact (h.step hk).merit
  · rw [Descent.after_length, hlast.reduction]
  · -- a descent that was stopped before has stalled
    refine h.length_le.antisymm (not_lt.mp fun hlt => ?_)
    exact absurd hexceeds (not_lt.mpr (hlast.reduction_le ht (h.stops hlt)))

end Merit

/-! ## Inner solves -/

variable {e q n : Nat} {K : Kernels ℝ} {f : CostFunction ℝ} {settings : Settings ℝ}
  {problem : Problem ℝ e q n} {entry : InnerStart ℝ ℝ e q n}

/-- The warning is noted exactly if the reduction exceeds the tolerance. -/
theorem Descent.mem_warnings_iff {d : Descent ℝ ℝ e q n}
    (hnotes : d.notes.Sublist [.redundantConstraints, .restorationIncomplete])
    (multipliers : List ℝ) (tolerance : ℝ) :
    Warning.subproblemNotConverged.code ∈ (d.result multipliers tolerance).warnings ↔
      tolerance < d.last.reduction := by
  have hcode : ∀ w : Warning, w.code = Warning.subproblemNotConverged.code →
      w = .subproblemNotConverged := fun w => by cases w <;> decide
  -- the way into the descent never notes this warning
  have habsent : Warning.subproblemNotConverged ∉ d.notes := fun h => by
    have := hnotes.subset h
    revert this
    decide
  constructor
  · intro h
    obtain ⟨w, hw, hwcode⟩ := List.mem_map.mp h
    rw [hcode w hwcode] at hw
    rcases List.mem_append.mp hw with hw | hw
    · exact absurd hw habsent
    · split_ifs at hw with hexceeds
      · exact hexceeds
      · exact absurd hw List.not_mem_nil
  · intro h
    refine List.mem_map_of_mem (List.mem_append_right _ ?_)
    rw [if_pos h]
    exact List.mem_singleton_self _

/-- An inner solve that returns has made a descent along which the merit of the points that are
reached falls by enough in all minor iterations but the last one. The warning says that the last
one did the same and that no more were allowed. -/
theorem solve_decreases (ht : 0 < settings.tolerance) (hlimit : 1 ≤ settings.minorLimit)
    (hcost : f (back entry.parameters).toList = .ok entry.cost.toList) {j j' : Journal ℝ}
    {r : InnerResult ℝ ℝ q n}
    (hrun : outcome (solve K f settings problem entry) j = (.ok r, j')) :
    ∃ way d j₁ j₂, outcome (prepare K f settings problem entry) j = (.ok way, j₁) ∧
      outcome (run K f settings problem entry) j = (.ok d, j₂) ∧
      d.start = way.start ∧
      Decreases (way.Merits f) settings.tolerance settings.minorLimit d ∧
      r.parameters = way.scale.unscaleParameters d.last.point ∧
      r.minorIterations = d.course.length ∧
      r.reduction = d.last.reduction ∧
      (Warning.subproblemNotConverged.code ∈ r.warnings ↔
        r.minorIterations = settings.minorLimit ∧ settings.tolerance < r.reduction) := by
  obtain ⟨d, j₂, hd, rfl, -, -⟩ := outcome_solve hrun
  obtain ⟨way, j₁, hprepare, hdescend⟩ := outcome_bind_eq_ok_iff.mp hd
  obtain ⟨course, j₃, hcourse, hpure⟩ := outcome_bind_eq_ok_iff.mp hdescend
  cases hpure
  have hstart := (ensures_prepare_merits ht hcost).of_outcome hprepare
  have hdecreases := ((confined_descend_course
    (fun s hs => (ensures_minorStep_accept (ensures_meritAt way) hs).mono fun _ h => ⟨h.merit, h⟩)
    settings.minorLimit way.start hstart).of_outcome hcourse).decreases
      (d := ⟨way.scale, way.notes, way.start, course⟩) ht hlimit hstart
  have hnotes := (ensures_prepare_records.of_outcome hprepare).2
  refine ⟨way, _, j₁, _, hprepare, hd, rfl, hdecreases, rfl, rfl, rfl, ?_⟩
  rw [Descent.mem_warnings_iff hnotes]
  exact ⟨fun h => ⟨hdecreases.exhausts h, h⟩, fun h => h.2⟩

/-- The inner solve from a point beside a line returns. -/
theorem solve_decreases_line :
    0 < lineSettings.tolerance ∧ 1 ≤ lineSettings.minorLimit ∧
      lineCost (back lineEntry.parameters).toList = .ok lineEntry.cost.toList ∧
      ∃ r j', outcome (solve Kernels.standard lineCost lineSettings lineProblem lineEntry) {} =
          (.ok r, j') ∧
        ∃ way d j₁ j₂,
          outcome (prepare Kernels.standard lineCost lineSettings lineProblem lineEntry) {} =
            (.ok way, j₁) ∧
          outcome (run Kernels.standard lineCost lineSettings lineProblem lineEntry) {} =
            (.ok d, j₂) ∧
          d.start = way.start ∧
          Decreases (way.Merits lineCost) lineSettings.tolerance lineSettings.minorLimit d ∧
          r.parameters = way.scale.unscaleParameters d.last.point ∧
          r.minorIterations = d.course.length ∧
          r.reduction = d.last.reduction ∧
          (Warning.subproblemNotConverged.code ∈ r.warnings ↔
            r.minorIterations = lineSettings.minorLimit ∧
              lineSettings.tolerance < r.reduction) := by
  obtain ⟨r, j', hrun, -, -⟩ := line_affineEntry.returns_solve_unbounded (affineCost_total _ _ _)
    rfl lineProblem_strictlyInside (.inr rfl) {} Journal.fits_empty
  have hlimit : 1 ≤ lineSettings.minorLimit := by
    show 1 ≤ 800
    omega
  exact ⟨line_affineEntry.tolerance, hlimit, line_affineEntry.cost, r, j', hrun,
    solve_decreases line_affineEntry.tolerance hlimit line_affineEntry.cost hrun⟩

end Sqp.Subproblem
