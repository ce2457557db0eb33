import Sqp.Proofs.Restoration.Ray
import Sqp.Proofs.Scalar.Double
import Sqp.Proofs.Subproblem.Records
import Sqp.Proofs.Subproblem.Settle

/-!
# What is said of a repair

A violated linearisation with bounds is restored, and a restoration that does not count as
complete is noted.

- `RestoredShort`: a linearisation is restored, and the restoration does not count as complete.
- `ensures_linearise_note`, `ensures_prepare_note`: this is exactly when it is noted.
- `restoration_flag`: when a restoration counts as complete, when this is the truth about its
  artificial variable, and when an inner solve warns.
- `restore_openTask`: an undefined artificial variable counts as vanished.
-/

namespace Sqp.Subproblem

open Restoration (Ends Task stepLimit restore)

variable {α β : Type} [Scalar α] [Scalar β] [Storage α β] {e q n : Nat}

/-! ## Notes -/

/-- A linearisation with these residuals at `p` is restored, and the restoration does not count
as complete. -/
structure RestoredShort (K : Kernels β) (mode : BoundMode) (bounds : Bounds β (q + n))
    (tolerance : α) (p : Vector β (q + n)) (residuals : Vector β (e + q))
    (jacobian : Mat β (e + q) (q + n)) : Prop where
  constrained : e + q ≠ 0
  bounded : mode ≠ .unbounded
  violated : tolerance ≤ load (infinityNorm residuals)
  short : ∃ o, restore K ⟨jacobian, residuals, bounds, mode, tolerance⟩ p = .ok o ∧
    o.complete = false

section Linearisation

variable {K : Kernels β} {costAt : Vector β (q + n) → Recorded α (Cost β (e + q))}
  {mode : BoundMode} {bounds : Bounds β (q + n)} {settings : Settings α}

/-- The repair of a violated linearisation adds its note exactly for a restoration with bounds
that does not count as complete. -/
theorem ensures_repair_note {tolerance : α} {residuals : Vector β (e + q)}
    {l : Linearisation β e q n} (hconstrained : e + q ≠ 0)
    (hviolated : tolerance ≤ load (infinityNorm residuals))
    (hl : Warning.restorationIncomplete ∉ l.notes) :
    Ensures (repair K mode bounds tolerance residuals l) fun l' =>
      Warning.restorationIncomplete ∈ l'.notes ↔
        RestoredShort K mode bounds tolerance l.point residuals l'.jacobian := by
  -- without bounds the point is projected, and nothing is restored
  cases mode with
  | unbounded =>
    refine Confined.bind (Ensures.any _) fun point _ => Confined.pure ?_
    exact iff_of_false hl fun h => h.bounded rfl
  | slackBounded | fullyBounded =>
    refine Confined.bind (Confined.recorded fun _ ho => ho) fun o ho => ?_
    refine Confined.bind (Ensures.any _) fun _ _ => Confined.pure ?_
    cases hc : o.complete with
    | true =>
      refine iff_of_false (by simpa using hl) fun h => ?_
      obtain ⟨o', ho', hc'⟩ := h.short
      cases Except.ok.inj (ho.symm.trans ho')
      rw [hc] at hc'
      cases hc'
    | false =>
      exact iff_of_true (by simp) ⟨hconstrained, by simp, hviolated, o, ho, hc⟩

/-- A linearisation notes exactly that it was restored short. -/
theorem ensures_linearise_note (p : Vector β (q + n)) (cost : Cost β (e + q)) :
    Ensures (linearise K costAt mode bounds settings p cost) fun l =>
      Warning.restorationIncomplete ∈ l.notes ↔
        RestoredShort K mode bounds settings.tolerance p (slackResiduals cost.constraints p)
          l.jacobian := by
  refine Confined.ite (fun hfree => ?_) fun hconstrained => ?_
  · exact Confined.pure (iff_of_false (by simp) fun h => h.constrained hfree)
  refine Confined.bind (Ensures.any _) fun differences _ => ?_
  have hnote : ∀ flag : Bool, Warning.restorationIncomplete ∉
      (if flag then [Warning.redundantConstraints] else []) := by
    decide
  refine Confined.ite (fun hviolated => ?_) fun hmet => ?_
  · exact ensures_repair_note hconstrained hviolated (hnote _)
  · exact Confined.pure (iff_of_false (hnote _) fun h => hmet h.violated)

end Linearisation

section Run

variable {K : Kernels β} {f : CostFunction α} {settings : Settings α}
  {problem : Problem β e q n} {entry : InnerStart α β e q n}

/-- The linearisation at entry of an inner solve, scaled as it was on the way in, is restored
short. -/
def Preparation.RestoredShort (K : Kernels β) (settings : Settings α) (problem : Problem β e q n)
    (entry : InnerStart α β e q n) (way : Preparation α β e q n) : Prop :=
  Subproblem.RestoredShort K problem.mode (way.scale.scaleBounds problem.bounds)
    settings.tolerance (way.scale.scaleParameters entry.parameters)
    (slackResiduals (way.scale.scaleCost entry.cost).constraints
      (way.scale.scaleParameters entry.parameters))
    way.lagrangian.jacobian

theorem ensures_prepare_note : Ensures (prepare K f settings problem entry) fun way =>
    Warning.restorationIncomplete ∈ way.notes ↔ way.RestoredShort K settings problem entry := by
  refine (ensures_prepare_follows fun _ => ensures_linearise_note _ _).mono ?_
  rintro way ⟨l, hl, hfollows⟩
  rw [Preparation.RestoredShort, hfollows.notes, hfollows.jacobian]
  exact hl

/-- An inner solve warns exactly that its linearisation was restored short. -/
theorem outcome_solve_note {j j' : Journal α} {r : InnerResult α β q n}
    (h : outcome (solve K f settings problem entry) j = (.ok r, j')) :
    ∃ way j₁, outcome (prepare K f settings problem entry) j = (.ok way, j₁) ∧
      (Warning.restorationIncomplete.code ∈ r.warnings ↔
        way.RestoredShort K settings problem entry) := by
  obtain ⟨way, j₁, course, hway, rfl⟩ := outcome_solve_prepare h
  refine ⟨way, j₁, hway, ?_⟩
  rw [Descent.code_mem_warnings_iff _ _ _ (by decide)]
  exact ensures_prepare_note.of_outcome hway

end Run

/-! ## The flag -/

/-- A restoration counts as complete if and only if its loop stops at its test with steps left.
This is the truth about its artificial variable, namely that it is under the tolerance, unless
it is undefined there or falls under the tolerance with the very last step. An inner solve
warns exactly if it restores and the restoration does not count as complete. -/
theorem restoration_flag [Scalar.Ordered α] (hone : load (1 : β) = (1 : α)) :
    (∀ {m k : Nat} (K : Kernels β) (task : Task α β m k) (p : Vector β k), 0 < task.tolerance →
      (m ≤ k + 1 → task.bounds.free = false → ∃ o, restore K task p = .ok o) ∧
      ∀ o, restore K task p = .ok o → ∃ steps s, Ends K task p steps s ∧
        (∀ steps' s', Ends K task p steps' s' → steps' = steps ∧ s' = s) ∧
        o.parameters = s.parameters ∧
        (o.complete = true ↔ steps < stepLimit ∧ ¬ task.tolerance ≤ load s.artificial) ∧
        ((o.complete = true ↔ load s.artificial < task.tolerance) ↔
          ¬ (steps < stepLimit ∧ ¬ Scalar.Defined (load s.artificial)) ∧
            ¬ (steps = stepLimit ∧ load s.artificial < task.tolerance))) ∧
    ∀ (K : Kernels β) (f : CostFunction α) (settings : Settings α) (problem : Problem β e q n)
      (entry : InnerStart α β e q n) (j j' : Journal α) (r : InnerResult α β q n),
      outcome (solve K f settings problem entry) j = (.ok r, j') →
        ∃ way j₁, outcome (prepare K f settings problem entry) j = (.ok way, j₁) ∧
          (Warning.restorationIncomplete.code ∈ r.warnings ↔
            way.RestoredShort K settings problem entry) := by
  refine ⟨fun K task p ht => ⟨fun hmk hbounded => Restoration.exists_restore hmk hbounded p,
    fun o ho => ?_⟩, fun _ _ _ _ _ _ _ _ h => outcome_solve_note h⟩
  obtain ⟨steps, s, hends, hparameters, hcomplete, -⟩ := Restoration.restore_ends hone ho
  refine ⟨steps, s, hends, fun _ _ h' => h'.unique hends, hparameters, hcomplete, ?_⟩
  rw [hcomplete]
  exact hends.stopped_iff ht

/-- A restoration of the constraint `x + y = 2`, and an inner solve that does not restore. -/
theorem restoration_flag_sum :
    0 < Restoration.sumTask.tolerance ∧
      (∃ o steps s, restore Kernels.standard Restoration.sumTask #v[1 / 2, 1 / 2] = .ok o ∧
        Ends Kernels.standard Restoration.sumTask #v[1 / 2, 1 / 2] steps s ∧
        o.parameters = s.parameters ∧
        (o.complete = true ↔ steps < stepLimit ∧ s.artificial < 0.01)) ∧
      ∃ r j', outcome (solve Kernels.standard lineCost lineSettings lineProblem lineEntry) {} =
          (.ok r, j') ∧
        Warning.restorationIncomplete.code ∉ r.warnings := by
  have ht : 0 < Restoration.sumTask.tolerance := by
    rw [Restoration.sumTask]
    norm_num
  obtain ⟨hrestore, hsolve⟩ := restoration_flag (α := ℝ) (β := ℝ) (e := 1) (q := 0) (n := 2) rfl
  obtain ⟨hreturns, hall⟩ :=
    hrestore Kernels.standard Restoration.sumTask #v[1 / 2, 1 / 2] ht
  obtain ⟨o, ho⟩ := hreturns (by decide) (by simp [Bounds.free, Restoration.sumTask])
  obtain ⟨steps, s, hends, -, hparameters, hcomplete, -⟩ := hall o ho
  obtain ⟨r, j', hr, -, -⟩ := line_affineEntry.returns_solve_unbounded (affineCost_total _ _ _)
    rfl lineProblem_strictlyInside (.inr rfl) {} Journal.fits_empty
  obtain ⟨way, _, -, hnote⟩ := hsolve _ _ _ _ _ _ _ _ hr
  exact ⟨ht, ⟨o, steps, s, ho, hends, hparameters, by rw [hcomplete, not_le]; rfl⟩, r, j', hr,
    fun h => (hnote.mp h).bounded rfl⟩

/-! ## An undefined artificial variable -/

/-- One constraint `x + 2 y = 1 / 2` on a variable between infinite bounds and a free one. -/
def openTask : Task Float Cell 1 2 where
  jacobian := #v[#v[1, ⟨2⟩]]
  residuals := #v[⟨0.5⟩]
  bounds := #v[some ⟨⟨-1.0 / 0.0⟩, ⟨1.0 / 0.0⟩⟩, none]
  mode := .slackBounded
  tolerance := 0.01

/-- The point to restore from. -/
def openStart : Vector Cell 2 := #v[⟨0.5⟩, 1]

/-- One step makes the artificial variable undefined, and this counts as complete. -/
theorem restore_openTask :
    0 < openTask.tolerance ∧
      ∃ o s, restore Kernels.standard openTask openStart = .ok o ∧ o.complete = true ∧
        Ends Kernels.standard openTask openStart 1 s ∧ o.parameters = s.parameters ∧
        ¬ Scalar.Defined (load s.artificial) ∧ ¬ load s.artificial < openTask.tolerance := by
  have ht : 0 < openTask.tolerance := by decide +kernel
  have hbounded : openTask.bounds.free = false := by decide +kernel
  have hrun : (match Restoration.loop Kernels.standard openTask stepLimit 1 0 ⟨openStart, 1⟩ with
      | .ok (steps, s) => decide (steps = 1 ∧ ¬ Scalar.Defined (load s.artificial))
      | .error _ => false) = true := by
    decide +kernel
  obtain ⟨⟨steps, s⟩, hloop⟩ := Restoration.exists_loop (K := Kernels.standard) (by decide)
    (Restoration.requireSome_of_bounded hbounded) stepLimit 1 0 ⟨openStart, 1⟩
  rw [hloop] at hrun
  obtain ⟨rfl, hundefined⟩ := of_decide_eq_true hrun
  obtain ⟨k, hends, ⟨rfl, -, -⟩ | ⟨hlimit, -⟩⟩ :=
    Restoration.loop_ends stepLimit 0 _ .start (Nat.zero_add _) 1 s hloop
  · refine ⟨ht, _, s, except_bind_eq_ok_iff.mpr ⟨(1, s), hloop, rfl⟩, rfl, hends, rfl, hundefined,
      fun hlt => hundefined (Scalar.defined_of_lt hlt).1⟩
  · cases hlimit

end Sqp.Subproblem
