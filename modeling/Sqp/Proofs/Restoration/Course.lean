import Sqp.Proofs.Restoration
import Sqp.Proofs.Restoration.Trail

/-!
# The course of a restoration

The states that a restoration goes through in exact arithmetic, and where it ends.

- `StepsAlong`: what must hold at a state for a step to be made from it.
- `Reached`: the states after a number of steps, determined by that number
  (`Reached.unique`); they are the trails of `Trail` over real numbers (`reached_iff_trail`).
- `Last`: the state from which no further step is made. No state is reached later
  (`Last.le`).
- `restore_last`: a restoration ends in the last state of its course, and counts as
  complete only if the artificial variable is under the tolerance there.
- `restore_holds`: a restored point meets all bounds.
-/

namespace Sqp.Restoration

variable {m n : Nat} {K : Kernels ℝ} {task : Task ℝ ℝ m n} {p : Vector ℝ n}

/-! ## Courses -/

/-- From `s` a step is made, against the direction `v`. -/
structure StepsAlong (K : Kernels ℝ) (task : Task ℝ ℝ m n) (s v : Extended ℝ n) : Prop where
  unfinished : task.tolerance ≤ s.artificial
  direction : Restoration.direction K task s = .ok v
  decreases : 0 < v.artificial
  bounded : task.bounds.requireSome = .ok ()

theorem StepsAlong.unique {s v v' : Extended ℝ n} (h : StepsAlong K task s v)
    (h' : StepsAlong K task s v') : v = v' :=
  Except.ok.inj (h.direction.symm.trans h'.direction)

/-- The state of a restoration from `p` after `k` steps. -/
inductive Reached (K : Kernels ℝ) (task : Task ℝ ℝ m n) (p : Vector ℝ n) :
    Nat → Extended ℝ n → Prop
  | start : Reached K task p 0 ⟨p, 1⟩
  | step {k : Nat} {s v : Extended ℝ n} (hs : Reached K task p k s) (hk : k < stepLimit)
      (hv : StepsAlong K task s v) :
      Reached K task p (k + 1) (move s v (stepLength task.bounds s v))

/-- Without rounding, a step along a direction is a step of the trail. -/
theorem next?_eq_some_iff_stepsAlong {s s' : Extended ℝ n} :
    (task.tolerance ≤ load s.artificial ∧ next? K task s = .ok (some s')) ↔
      ∃ v, StepsAlong K task s v ∧ s' = move s v (stepLength task.bounds s v) := by
  rw [next?_eq_some_iff]
  constructor
  · rintro ⟨hgo, v, hv, hdir, hbounded, hs'⟩
    exact ⟨v, ⟨hgo, hv, not_le.mp hdir, hbounded⟩, hs'⟩
  · rintro ⟨v, hv, hs'⟩
    exact ⟨hv.unfinished, v, hv.direction, not_le.mpr hv.decreases, hv.bounded, hs'⟩

/-- Courses are the trails of exact restorations. -/
theorem reached_iff_trail {k : Nat} {s : Extended ℝ n} :
    Reached K task p k s ↔ Trail K task p k s := by
  constructor
  · intro h
    induction h with
    | start => exact .start
    | step _ hk hv ih =>
      obtain ⟨hgo, hnext⟩ := next?_eq_some_iff_stepsAlong.mpr ⟨_, hv, rfl⟩
      exact ih.step hk hgo hnext
  · intro h
    induction h with
    | start => exact .start
    | step _ hk hgo hnext ih =>
      obtain ⟨v, hv, rfl⟩ := next?_eq_some_iff_stepsAlong.mp ⟨hgo, hnext⟩
      exact ih.step hk hv

/-- A course does not branch. -/
theorem Reached.unique {k : Nat} {s s' : Extended ℝ n} (h : Reached K task p k s)
    (h' : Reached K task p k s') : s = s' :=
  (reached_iff_trail.mp h).unique (reached_iff_trail.mp h')

/-- Between two states of a course lies the step from the earlier one. -/
theorem Reached.stepped {j k : Nat} {s s' : Extended ℝ n} (h' : Reached K task p k s')
    (h : Reached K task p j s) (hjk : j < k) :
    ∃ v, StepsAlong K task s v ∧
      Reached K task p (j + 1) (move s v (stepLength task.bounds s v)) := by
  have htrail := reached_iff_trail.mp h'
  obtain ⟨hgo, _, hnext⟩ := htrail.stepped (reached_iff_trail.mp h) hjk
  obtain ⟨v, hv, -⟩ := next?_eq_some_iff_stepsAlong.mp ⟨hgo, hnext⟩
  exact ⟨v, hv, h.step (hjk.trans_le htrail.le_stepLimit) hv⟩

theorem Reached.le_stepLimit {k : Nat} {s : Extended ℝ n} (h : Reached K task p k s) :
    k ≤ stepLimit :=
  (reached_iff_trail.mp h).le_stepLimit

/-- The state `s` is reached after `k` steps, and there is no further one. -/
structure Last (K : Kernels ℝ) (task : Task ℝ ℝ m n) (p : Vector ℝ n) (k : Nat)
    (s : Extended ℝ n) : Prop where
  reached : Reached K task p k s
  stuck : k < stepLimit → ∀ v, ¬ StepsAlong K task s v

/-- Nothing is reached after the last state. -/
theorem Last.le {j k : Nat} {s s' : Extended ℝ n} (h : Last K task p k s)
    (h' : Reached K task p j s') : j ≤ k := by
  by_contra hlt
  obtain ⟨v, hv, hnext⟩ := h'.stepped h.reached (not_le.mp hlt)
  exact h.stuck hnext.le_stepLimit v hv

theorem Last.unique {k k' : Nat} {s s' : Extended ℝ n} (h : Last K task p k s)
    (h' : Last K task p k' s') : s = s' := by
  cases (h'.le h.reached).antisymm (h.le h'.reached)
  exact h.reached.unique h'.reached

/-- The end of a trail is the last state of the course. -/
theorem Ends.last {k : Nat} {s : Extended ℝ n} (h : Ends K task p k s) : Last K task p k s := by
  refine ⟨reached_iff_trail.mpr h.trail, fun hk v hv => ?_⟩
  have hnone := h.stuck hk hv.unfinished
  rw [(next?_eq_some_iff_stepsAlong.mpr ⟨v, hv, rfl⟩).2] at hnone
  cases hnone

/-- A restoration ends at the last state that it reaches; it is complete only if the artificial
variable is below the tolerance there. -/
theorem restore_last {o : Outcome ℝ n} (h : restore K task p = .ok o) :
    ∃ k s, Last K task p k s ∧ o.parameters = s.parameters ∧
      (o.complete = true → o.steps = k ∧ s.artificial < task.tolerance) := by
  obtain ⟨k, s, hends, hparameters, hcomplete, hsteps⟩ := restore_ends rfl h
  refine ⟨k, s, hends.last, hparameters, fun hc => ⟨?_, not_le.mp (hcomplete.mp hc).2⟩⟩
  rw [hsteps, if_pos hc]

/-! ## The box -/

/-- Whatever the kernels return, a course stays in the box, and the artificial variable
does not become negative. -/
theorem Reached.holds (hp : task.bounds.Holds p) {k : Nat} {s : Extended ℝ n}
    (h : Reached K task p k s) : task.bounds.Holds s.parameters ∧ 0 ≤ s.artificial := by
  induction h with
  | start => exact ⟨hp, zero_le_one⟩
  | step _ _ hv ih =>
    exact ⟨move_holds ih.1 ih.2 hv.decreases,
      sub_nonneg.mpr (stepLength_mem ih.1 ih.2 hv.decreases).2⟩

/-- A restoration stays in the box, since none of its steps leaves it. -/
theorem restore_holds (hp : task.bounds.Holds p) {o : Outcome ℝ n}
    (h : restore K task p = .ok o) : task.bounds.Holds o.parameters := by
  obtain ⟨k, s, hlast, ho, -⟩ := restore_last h
  rw [ho]
  exact (hlast.reached.holds hp).1

end Sqp.Restoration
