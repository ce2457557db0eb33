import Sqp.Proofs.Bounds
import Sqp.Proofs.Shapes

/-!
# The trials of a Newton step

A Newton step is the first acceptable one of a row of trials, each with three times the
damping of the one before. Nothing is assumed of the numbers or of the kernels here. The limit
on the number of trials is the only thing that keeps the row finite; it is told apart from how
the row ends by itself.

- `NewtonStep.trial`, `NewtonStep.Acceptable`: the point that a damping leads to, and what is
  asked of it.
- `NewtonStep.raised`: the dampings of the row.
- `NewtonStep.Rejected`: no trial so far was acceptable and the next one can be made.
- `NewtonStep.Ends`: the three ways in which the row ends by itself.
- `NewtonStep.ends_or_rejected`: so it does, or it goes on.
- `NewtonStep.Ends.compute_eq`: any limit that leaves room for the last trial gives the same
  result.
-/

namespace Sqp

/-- The same kernels with another limit on the number of trials. -/
def Kernels.withTrialLimit {β : Type} (K : Kernels β) (limit : Nat) : Kernels β :=
  { K with trialLimit := limit }

namespace NewtonStep

variable {α β : Type} [Scalar β] [Storage α β] {m n : Nat} {K : Kernels β}
  {model : Model β m n} {p x : Vector β n} {y : Vector β m} {bounds : Bounds β n} {mu : α}

/-! ## Trials -/

/-- The point that the damping `mu` leads to, and the multipliers found on the way. -/
def trial (K : Kernels β) (model : Model β m n) (p : Vector β n) (mu : α) :
    Except Error (Vector β n × Vector β m) := do
  let (u, y) ← direction K model (store mu)
  return (p + u, y)

/-- A point that is finite and has positive gaps to all bounds. -/
structure Acceptable (bounds : Bounds β n) (x : Vector β n) : Prop where
  finite : allFinite x = true
  gaps_pos : ∀ gap ∈ bounds.gapRows x, 0 < gap.1 ∧ 0 < gap.2

theorem acceptable_iff :
    Acceptable bounds x ↔ (allFinite x && bounds.strictlyInside x) = true := by
  rw [Bool.and_eq_true, Bounds.strictlyInside_iff_gapRows]
  exact ⟨fun h => ⟨h.finite, h.gaps_pos⟩, fun h => ⟨h.1, h.2⟩⟩

theorem trial_eq_ok_iff :
    trial K model p mu = .ok (x, y) ↔
      ∃ u, direction K model (store mu) = .ok (u, y) ∧ x = p + u := by
  constructor
  · intro h
    obtain ⟨⟨u, y'⟩, hdirection, h⟩ := except_bind_eq_ok_iff.mp h
    cases h
    exact ⟨u, hdirection, rfl⟩
  · rintro ⟨u, hdirection, rfl⟩
    exact except_bind_eq_ok_iff.mpr ⟨(u, y), hdirection, rfl⟩

/-- A trial cannot be made if there are more constraints than variables, which leaves too few
equations for the multipliers; nothing else can go wrong. -/
theorem cause_of_trial {cause : Error} (h : trial K model p mu = .error cause) :
    cause = .underdetermined n m ∧ n < m := by
  rcases Nat.lt_or_ge n m with hnm | hmn
  · have hfail : direction K model (store mu) = .error (.underdetermined n m) :=
      except_bind_eq_error_iff.mpr (.inl (K.leastSquares_of_lt _ _ hnm))
    have hcause : trial K model p mu = .error (.underdetermined n m) :=
      except_bind_eq_error_iff.mpr (.inl hfail)
    rw [hcause] at h
    cases h
    exact ⟨rfl, hnm⟩
  · obtain ⟨⟨u, y⟩, hdirection⟩ := exists_direction (K := K) hmn model (store mu)
    rw [trial_eq_ok_iff.mpr ⟨u, hdirection, rfl⟩] at h
    cases h

/-! ## One trial -/

variable [Scalar α] {t fuel trials : Nat} {r : Except Error (NewtonStep α β m n)}

/-- The first acceptable trial is the result. Where variables are bounded the damping has been
tripled once more by then. -/
theorem damp_of_acceptable (h : trial K model p mu = .ok (x, y)) (hx : Acceptable bounds x) :
    damp K model p bounds (fuel + 1) mu trials =
      .ok ⟨x, y, if bounds.free then mu else 3.0 * mu, trials + 1⟩ := by
  obtain ⟨u, hdirection, rfl⟩ := trial_eq_ok_iff.mp h
  rw [damp, hdirection]
  exact if_pos (acceptable_iff.mp hx)

/-- After any other trial the damping is tripled, as long as it stays finite. -/
theorem damp_of_not_acceptable (h : trial K model p mu = .ok (x, y)) (hx : ¬ Acceptable bounds x) :
    damp K model p bounds (fuel + 1) mu trials =
      if Scalar.isFinite (3.0 * mu) then damp K model p bounds fuel (3.0 * mu) (trials + 1)
      else .error .noInteriorStep := by
  obtain ⟨u, hdirection, rfl⟩ := trial_eq_ok_iff.mp h
  rw [damp, hdirection]
  exact if_neg (mt acceptable_iff.mpr hx)

theorem damp_of_error {cause : Error} (h : trial K model p mu = .error cause) :
    damp K model p bounds (fuel + 1) mu trials = .error cause := by
  rw [damp]
  rcases except_bind_eq_error_iff.mp h with h | ⟨_, -, h⟩
  · exact except_bind_eq_error_iff.mpr (.inl h)
  · cases h

/-! ## Rows of trials -/

/-- The damping after `t` triplings. -/
def raised (mu : α) (t : Nat) : α := (fun c => 3.0 * c)^[t] mu

theorem raised_succ (mu : α) (t : Nat) : raised mu (t + 1) = 3.0 * raised mu t :=
  Function.iterate_succ_apply' _ t mu

/-- The first `t` trials were made and none was acceptable, while the damping for the trial
after each of them was finite. -/
structure Rejected (K : Kernels β) (model : Model β m n) (p : Vector β n) (bounds : Bounds β n)
    (mu : α) (t : Nat) : Prop where
  made : ∀ s < t, ∃ x y, trial K model p (raised mu s) = .ok (x, y) ∧ ¬ Acceptable bounds x
  finite : ∀ s < t, Scalar.isFinite (raised mu (s + 1)) = true

/-- After `t` trials that were not acceptable, the next one brings the row to its end. -/
inductive Ends (K : Kernels β) (model : Model β m n) (p : Vector β n) (bounds : Bounds β n)
    (mu : α) (t : Nat) : Except Error (NewtonStep α β m n) → Prop
  /-- The trial is acceptable. -/
  | accepted {x : Vector β n} {y : Vector β m} (before : Rejected K model p bounds mu t)
      (made : trial K model p (raised mu t) = .ok (x, y)) (acceptable : Acceptable bounds x) :
      Ends K model p bounds mu t
        (.ok ⟨x, y, if bounds.free then raised mu t else raised mu (t + 1), t + 1⟩)
  /-- The trial is not acceptable and the damping cannot be raised any more. -/
  | overflows {x : Vector β n} {y : Vector β m} (before : Rejected K model p bounds mu t)
      (made : trial K model p (raised mu t) = .ok (x, y)) (rejected : ¬ Acceptable bounds x)
      (infinite : ¬ Scalar.isFinite (raised mu (t + 1)) = true) :
      Ends K model p bounds mu t (.error .noInteriorStep)
  /-- The trial cannot be made. -/
  | fails {cause : Error} (before : Rejected K model p bounds mu t)
      (failed : trial K model p (raised mu t) = .error cause) :
      Ends K model p bounds mu t (.error cause)

/-- A row of trials breaks off for want of an acceptable point, or because no trial can be
made. -/
theorem Ends.cause {cause : Error} (h : Ends K model p bounds mu t (.error cause)) :
    cause = .noInteriorStep ∨ cause = .underdetermined n m ∧ n < m := by
  cases h with
  | overflows _ _ _ _ => exact .inl rfl
  | fails _ failed => exact .inr (cause_of_trial failed)

theorem Ends.before (h : Ends K model p bounds mu t r) : Rejected K model p bounds mu t := by
  cases h with
  | accepted before _ _ => exact before
  | overflows before _ _ _ => exact before
  | fails before _ => exact before

theorem Ends.trials_eq {step : NewtonStep α β m n} (h : Ends K model p bounds mu t (.ok step)) :
    step.trials = t + 1 := by
  cases h
  rfl

theorem Ends.acceptable {step : NewtonStep α β m n}
    (h : Ends K model p bounds mu t (.ok step)) : Acceptable bounds step.parameters := by
  cases h with
  | accepted _ _ acceptable => exact acceptable

theorem Rejected.of_succ (h : Rejected K model p bounds mu (t + 1)) :
    Rejected K model p bounds mu t where
  made s hs := h.made s (hs.trans t.lt_succ_self)
  finite s hs := h.finite s (hs.trans t.lt_succ_self)

theorem Rejected.succ (h : Rejected K model p bounds mu t)
    (made : trial K model p (raised mu t) = .ok (x, y)) (hx : ¬ Acceptable bounds x)
    (hfinite : Scalar.isFinite (raised mu (t + 1)) = true) :
    Rejected K model p bounds mu (t + 1) where
  made s hs := by
    rcases Nat.lt_succ_iff_lt_or_eq.mp hs with hs | rfl
    · exact h.made s hs
    · exact ⟨x, y, made, hx⟩
  finite s hs := by
    rcases Nat.lt_succ_iff_lt_or_eq.mp hs with hs | rfl
    · exact h.finite s hs
    · exact hfinite

/-- The row goes on for `N` trials, or it ends before. -/
theorem ends_or_rejected (K : Kernels β) (model : Model β m n) (p : Vector β n)
    (bounds : Bounds β n) (mu : α) (N : Nat) :
    Rejected K model p bounds mu N ∨ ∃ t < N, ∃ r, Ends K model p bounds mu t r := by
  induction N with
  | zero => exact .inl ⟨fun s hs => absurd hs s.not_lt_zero, fun s hs => absurd hs s.not_lt_zero⟩
  | succ N ih =>
    rcases ih with hrejected | ⟨t, ht, r, hends⟩
    -- the next trial cannot be made, is acceptable, is the last one, or is followed by another
    · cases hmade : trial K model p (raised mu N) with
      | error cause => exact .inr ⟨N, N.lt_succ_self, _, .fails hrejected hmade⟩
      | ok result =>
        by_cases hx : Acceptable bounds result.1
        · exact .inr ⟨N, N.lt_succ_self, _, .accepted hrejected hmade hx⟩
        · by_cases hfinite : Scalar.isFinite (raised mu (N + 1)) = true
          · exact .inl (hrejected.succ hmade hx hfinite)
          · exact .inr ⟨N, N.lt_succ_self, _, .overflows hrejected hmade hx hfinite⟩
    · exact .inr ⟨t, ht.trans N.lt_succ_self, r, hends⟩

/-! ## Rows of trials and the limit on their number -/

/-- Trials that are not acceptable raise the damping and do nothing else. -/
theorem Rejected.damp_eq (h : Rejected K model p bounds mu t) :
    damp K model p bounds (t + fuel) mu trials =
      damp K model p bounds fuel (raised mu t) (trials + t) := by
  induction t generalizing fuel with
  | zero =>
    rw [Nat.zero_add]
    rfl
  | succ t ih =>
    obtain ⟨x, y, hmade, hx⟩ := h.made t t.lt_succ_self
    rw [Nat.add_assoc, Nat.add_comm 1, ih h.of_succ, damp_of_not_acceptable hmade hx, ← raised_succ,
      if_pos (h.finite t t.lt_succ_self), Nat.add_assoc]

/-- Enough fuel for the last trial is enough. -/
theorem Ends.damp_eq (h : Ends K model p bounds mu t r) (ht : t < fuel) :
    damp K model p bounds fuel mu 0 = r := by
  obtain ⟨rest, rfl⟩ := Nat.exists_eq_add_of_lt ht
  rw [Nat.add_assoc]
  cases h with
  | accepted before made acceptable =>
    rw [before.damp_eq, damp_of_acceptable made acceptable, ← raised_succ, Nat.zero_add]
  | overflows before made rejected infinite =>
    rw [before.damp_eq, damp_of_not_acceptable made rejected, ← raised_succ, if_neg infinite]
  | fails before failed => rw [before.damp_eq, damp_of_error failed]

/-- Any limit that leaves room for the last trial gives the same result. -/
theorem Ends.compute_eq (h : Ends K model p bounds mu t r) {limit : Nat} (hlimit : t < limit) :
    compute (K.withTrialLimit limit) model p bounds mu = r := by
  -- the trials themselves do not look at the limit
  have hsame : ∀ c, direction (K.withTrialLimit limit) model c = direction K model c :=
    fun _ => rfl
  exact (damp_congr hsame limit mu 0).trans (h.damp_eq hlimit)

/-- A row of trials has one end only. -/
theorem Ends.unique {t' : Nat} {r' : Except Error (NewtonStep α β m n)}
    (h : Ends K model p bounds mu t r) (h' : Ends K model p bounds mu t' r') : r = r' := by
  have hroom : t < t + t' + 1 := by omega
  have hroom' : t' < t + t' + 1 := by omega
  rw [← h.damp_eq hroom, h'.damp_eq hroom']

end NewtonStep

end Sqp
