import Sqp.Proofs.Journal
import Sqp.Proofs.Linear.LeastSquares
import Sqp.Proofs.Scalar.Lawful
import Sqp.Restoration

/-!
# The ways out of a restoration

The steps of a restoration for scalars of any kind, rounded and undefined ones included, and
the ways in which it can end.

- `next?`: one step; there is none if the direction does not decrease the artificial variable.
- `Trail`: the states after a number of steps, `Ends`: the one from which no step is made. Both
  are unique (`Trail.unique`, `Ends.unique`).
- `loop_ends`, `restore_ends`: a restoration returns the end of its trail, and counts as
  complete if it has a step left there but does not find the artificial variable at or over
  the tolerance.
- `Ends.stopped_iff`: this is not quite the same as an artificial variable under the
  tolerance.
- `exists_restore`: with bounds, and with no more constraints than extended variables, a
  restoration does end.
-/

namespace Sqp.Restoration

variable {α β : Type} [Scalar α] [Scalar β] [Storage α β] {m n : Nat} {K : Kernels β}
  {task : Task α β m n} {p : Vector β n}

/-! ## Steps -/

/-- The state one step further, if the direction decreases the artificial variable. -/
def next? (K : Kernels β) (task : Task α β m n) (s : Extended β n) :
    Except Error (Option (Extended β n)) := do
  let v ← direction K task s
  if load v.artificial ≤ 0 then return none
  task.bounds.requireSome
  return some (move s v (store (stepLength task.bounds s v)))

/-- A step is made along a direction that decreases the artificial variable, where something is
bounded. -/
theorem next?_eq_some_iff {s s' : Extended β n} :
    next? K task s = .ok (some s') ↔ ∃ v, direction K task s = .ok v ∧
      ¬ load v.artificial ≤ 0 ∧ task.bounds.requireSome = .ok () ∧
      s' = move s v (store (stepLength task.bounds s v)) := by
  unfold next?
  rw [except_bind_eq_ok_iff]
  refine exists_congr fun v => and_congr_right fun _ => ?_
  split_ifs with hdir
  · exact iff_of_false (fun h => by cases h) fun h => h.1 hdir
  · constructor
    · intro h
      obtain ⟨⟨⟩, hbounded, h⟩ := except_bind_eq_ok_iff.mp h
      cases h
      exact ⟨hdir, hbounded, rfl⟩
    · rintro ⟨-, hbounded, rfl⟩
      exact except_bind_eq_ok_iff.mpr ⟨(), hbounded, rfl⟩

/-- One round of the loop. -/
theorem loop_succ (fuel : Nat) (go : α) (steps : Nat) (s : Extended β n) :
    loop K task (fuel + 1) go steps s =
      if task.tolerance ≤ go then do
        match ← next? K task s with
        | none => return (stepLimit, s)
        | some s' => loop K task fuel (load s'.artificial) (steps + 1) s'
      else pure (steps, s) := by
  rw [loop]
  split_ifs with hgo
  · unfold next?
    cases direction K task s with
    | error cause => rfl
    | ok v =>
      by_cases hdir : load v.artificial ≤ (0 : α)
      · simp [bind, Except.bind, hdir, pure, Except.pure]
      · cases task.bounds.requireSome <;> simp [bind, Except.bind, hdir, pure, Except.pure]
  · rfl

/-! ## Trails -/

/-- The state of a restoration from `p` after `k` steps. -/
inductive Trail (K : Kernels β) (task : Task α β m n) (p : Vector β n) :
    Nat → Extended β n → Prop
  | start : Trail K task p 0 ⟨p, 1⟩
  | step {k : Nat} {s s' : Extended β n} (hs : Trail K task p k s) (hk : k < stepLimit)
      (hgo : task.tolerance ≤ load s.artificial) (hnext : next? K task s = .ok (some s')) :
      Trail K task p (k + 1) s'

/-- The state `s` is reached after `k` steps, and no step is made from it: the steps are used
up, the artificial variable is not found at or over the tolerance, or the direction does not
decrease it. -/
structure Ends (K : Kernels β) (task : Task α β m n) (p : Vector β n) (k : Nat)
    (s : Extended β n) : Prop where
  trail : Trail K task p k s
  stuck : k < stepLimit → task.tolerance ≤ load s.artificial → next? K task s = .ok none

namespace Trail

theorem le_stepLimit {k : Nat} {s : Extended β n} (h : Trail K task p k s) : k ≤ stepLimit := by
  cases h with
  | start => exact Nat.zero_le _
  | step _ hk _ _ => exact hk

/-- A trail does not branch. -/
theorem unique {k : Nat} {s s' : Extended β n} (h : Trail K task p k s)
    (h' : Trail K task p k s') : s = s' := by
  induction h generalizing s' with
  | start =>
    cases h'
    rfl
  | step _ _ _ hnext ih =>
    cases h' with
    | step hs' _ _ hnext' =>
      cases ih hs'
      exact Option.some.inj (Except.ok.inj (hnext.symm.trans hnext'))

/-- From an earlier state of a trail a step is made. -/
theorem stepped {j k : Nat} {s s' : Extended β n} (h' : Trail K task p k s')
    (h : Trail K task p j s) (hjk : j < k) :
    task.tolerance ≤ load s.artificial ∧ ∃ s₁, next? K task s = .ok (some s₁) := by
  induction h' with
  | start => exact absurd hjk (Nat.not_lt_zero j)
  | @step k s' s₁ hs' hk hgo hnext ih =>
    rcases Nat.lt_succ_iff_lt_or_eq.mp hjk with hlt | rfl
    · exact ih hlt
    · cases h.unique hs'
      exact ⟨hgo, s₁, hnext⟩

end Trail

/-- Nothing is reached after the end. -/
theorem Ends.le {j k : Nat} {s s' : Extended β n} (h : Ends K task p k s)
    (h' : Trail K task p j s') : j ≤ k := by
  by_contra hlt
  obtain ⟨hgo, s₁, hnext⟩ := h'.stepped h.trail (not_le.mp hlt)
  have hnone := h.stuck ((not_le.mp hlt).trans_le h'.le_stepLimit) hgo
  rw [hnone] at hnext
  cases hnext

theorem Ends.unique {k k' : Nat} {s s' : Extended β n} (h : Ends K task p k s)
    (h' : Ends K task p k' s') : k = k' ∧ s = s' := by
  obtain rfl : k = k' := (h'.le h.trail).antisymm (h.le h'.trail)
  exact ⟨rfl, h.trail.unique h'.trail⟩

/-! ## The loop -/

/-- The loop goes on to the end of the trail. Its count is that of the steps if the loop stops
at its test with steps left, and otherwise the limit. -/
theorem loop_ends :
    ∀ (fuel steps : Nat) (s : Extended β n), Trail K task p steps s → steps + fuel = stepLimit →
      ∀ steps' s', loop K task fuel (load s.artificial) steps s = .ok (steps', s') →
        ∃ k, Ends K task p k s' ∧
          ((steps' = k ∧ k < stepLimit ∧ ¬ task.tolerance ≤ load s'.artificial) ∨
            (steps' = stepLimit ∧ (k < stepLimit → task.tolerance ≤ load s'.artificial))) := by
  intro fuel
  induction fuel with
  | zero =>
    intro steps s hs hfuel steps' s' h
    cases h
    -- the limit has been reached, so nothing is left to say of shorter trails
    have hnone : ∀ {P : Prop}, steps < stepLimit → P := fun hlt => absurd hfuel hlt.ne
    exact ⟨steps, ⟨hs, hnone⟩, .inr ⟨hfuel, hnone⟩⟩
  | succ fuel ih =>
    intro steps s hs hfuel steps' s' h
    rw [loop_succ] at h
    split_ifs at h with hgo
    · obtain ⟨next, hnext, h⟩ := except_bind_eq_ok_iff.mp h
      cases next with
      -- the direction does not decrease the artificial variable, which uses up all steps
      | none =>
        cases h
        exact ⟨steps, ⟨hs, fun _ _ => hnext⟩, .inr ⟨rfl, fun _ => hgo⟩⟩
      | some s₁ =>
        exact ih (steps + 1) s₁ (hs.step (by omega) hgo hnext) (by omega) steps' s' h
    · cases h
      exact ⟨steps, ⟨hs, fun _ hle => absurd hle hgo⟩, .inl ⟨rfl, by omega, hgo⟩⟩

/-- A restoration counts as complete if the loop stops at its test with steps left. -/
theorem restore_ends (hone : load (1 : β) = (1 : α)) {o : Outcome β n}
    (h : restore K task p = .ok o) :
    ∃ k s, Ends K task p k s ∧ o.parameters = s.parameters ∧
      (o.complete = true ↔ k < stepLimit ∧ ¬ task.tolerance ≤ load s.artificial) ∧
      o.steps = if o.complete then k else stepLimit := by
  obtain ⟨⟨steps, s⟩, hloop, h⟩ := except_bind_eq_ok_iff.mp h
  cases h
  rw [← hone] at hloop
  obtain ⟨k, hends, hstop⟩ := loop_ends stepLimit 0 _ .start (Nat.zero_add _) steps s hloop
  refine ⟨k, s, hends, rfl, ?_⟩
  simp only [decide_eq_true_iff]
  rcases hstop with ⟨rfl, hlt, hgo⟩ | ⟨rfl, hgo⟩
  · exact ⟨iff_of_true hlt ⟨hlt, hgo⟩, (if_pos hlt).symm⟩
  · exact ⟨iff_of_false (lt_irrefl _) fun hk => hk.2 (hgo hk.1), (if_neg (lt_irrefl _)).symm⟩

/-- A restoration that stops at its test with steps left has an artificial variable under the
tolerance, and conversely, with two exceptions: the artificial variable is undefined, or it
falls under the tolerance with the very last step. -/
theorem Ends.stopped_iff [Scalar.Ordered α] (ht : 0 < task.tolerance) {k : Nat}
    {s : Extended β n} (h : Ends K task p k s) :
    ((k < stepLimit ∧ ¬ task.tolerance ≤ load s.artificial) ↔
        load s.artificial < task.tolerance) ↔
      ¬ (k < stepLimit ∧ ¬ Scalar.Defined (load s.artificial)) ∧
        ¬ (k = stepLimit ∧ load s.artificial < task.tolerance) := by
  have hlt := Scalar.Lawful.lt_iff (load s.artificial) task.tolerance
  have htolerance := (Scalar.defined_of_lt ht).2
  have hdefined := Scalar.Ordered.defined_of_le task.tolerance (load s.artificial)
  rcases h.trail.le_stepLimit.lt_or_eq with hk | hk
  · have hne := hk.ne
    tauto
  · have hnlt : ¬ k < stepLimit := hk.not_lt
    tauto

/-! ## Restorations that end -/

omit [Scalar α] [Storage α β] in
/-- A direction exists where something is bounded, and where the constraints are no more
than the extended variables. -/
theorem exists_direction (hmn : m ≤ n + 1) (hbounded : task.bounds.requireSome = .ok ())
    (s : Extended β n) : ∃ v, direction K task s = .ok v := by
  have hscales : ∃ d, scales task.bounds task.mode s.parameters = .ok d := by
    unfold scales
    rw [hbounded]
    cases task.mode.boundsDecisions <;> exact ⟨_, rfl⟩
  obtain ⟨d, hd⟩ := hscales
  obtain ⟨y, hy⟩ := K.exists_leastSquares_of_le _ _ hmn
  exact ⟨_, except_bind_eq_ok_iff.mpr ⟨d, hd, except_bind_eq_ok_iff.mpr ⟨y, hy, rfl⟩⟩⟩

/-- With enough rows for the constraints, a step can always be tried. -/
theorem exists_next? (hmn : m ≤ n + 1) (hbounded : task.bounds.requireSome = .ok ())
    (s : Extended β n) : ∃ next, next? K task s = .ok next := by
  obtain ⟨v, hv⟩ := exists_direction (K := K) hmn hbounded s
  by_cases hdir : load v.artificial ≤ (0 : α)
  · exact ⟨none, except_bind_eq_ok_iff.mpr ⟨v, hv, if_pos hdir⟩⟩
  · exact ⟨_, next?_eq_some_iff.mpr ⟨v, hv, hdir, hbounded, rfl⟩⟩

/-- So the loop does not fail, by induction on the steps left. -/
theorem exists_loop (hmn : m ≤ n + 1) (hbounded : task.bounds.requireSome = .ok ()) :
    ∀ (fuel : Nat) (go : α) (steps : Nat) (s : Extended β n),
      ∃ r, loop K task fuel go steps s = .ok r := by
  intro fuel
  induction fuel with
  | zero => exact fun _ steps s => ⟨(steps, s), rfl⟩
  | succ fuel ih =>
    intro go steps s
    rw [loop_succ]
    split_ifs with hgo
    · obtain ⟨next, hnext⟩ := exists_next? (K := K) hmn hbounded s
      cases next with
      | none => exact ⟨_, except_bind_eq_ok_iff.mpr ⟨none, hnext, rfl⟩⟩
      | some s' =>
        obtain ⟨r, hr⟩ := ih (load s'.artificial) (steps + 1) s'
        exact ⟨r, except_bind_eq_ok_iff.mpr ⟨some s', hnext, hr⟩⟩
    · exact ⟨(steps, s), rfl⟩

omit [Scalar β] in
theorem requireSome_of_bounded {bounds : Bounds β n} (h : bounds.free = false) :
    bounds.requireSome = .ok () := by
  rw [Bounds.requireSome, h]
  rfl

/-- A restoration with bounds ends, if the constraints are no more than the extended
variables. -/
theorem exists_restore (hmn : m ≤ n + 1) (hbounded : task.bounds.free = false)
    (p : Vector β n) : ∃ o, restore K task p = .ok o := by
  obtain ⟨⟨steps, s⟩, hloop⟩ :=
    exists_loop (K := K) hmn (requireSome_of_bounded hbounded) stepLimit 1 0 ⟨p, 1⟩
  exact ⟨_, except_bind_eq_ok_iff.mpr ⟨(steps, s), hloop, rfl⟩⟩

end Sqp.Restoration
