import Sqp.NewtonStep
import Sqp.Proofs.Journal
import Sqp.Proofs.Linear.LeastSquares
import Sqp.Restoration

/-!
# Shapes of least-squares problems

Newton steps, restorations and projections solve least-squares problems, which get their
shapes from the numbers of constraints and variables. A Newton step has enough rows for as
many constraints as variables, a restoration for one more, and a projection for any number.

- `NewtonStep.compute_withWide`, `Restoration.restore_withWide`,
  `projectOntoConstraints_withWide`: with enough rows nothing depends on the factors of
  matrices with too few of them.
- `NewtonStep.cause_of_compute`, `Restoration.cause_of_restore`,
  `cause_of_projectOntoConstraints`: the other causes for which they can fail.
- `NewtonStep.compute_ne_ok`: with more constraints than variables there is no Newton step.
-/

namespace Sqp

variable {α β : Type} {m n : Nat}

theorem Bounds.cause_of_requireSome {b : Bounds α n} {cause : Error}
    (h : b.requireSome = .error cause) : cause = .noExtremum := by
  unfold Bounds.requireSome at h
  split_ifs at h
  · cases h
    rfl
  · cases h

/-! ## Directions -/

section Directions

variable [Scalar β] {K : Kernels β}
  (wide : {m k : Nat} → Mat β m k → Mat β m k × Mat β k k)

theorem NewtonStep.direction_withWide (hmn : m ≤ n) (model : Model β m n) (mu : β) :
    direction (K.withWide wide) model mu = direction K model mu := by
  unfold direction
  simp only [Kernels.leastSquares_withWide wide hmn]
  rfl

/-- A direction consists of the multipliers that solve a least-squares problem, and of what back
substitution makes of the residual that they leave. -/
theorem NewtonStep.direction_eq_ok_iff {model : Model β m n} {mu : β} {u : Vector β n}
    {y : Vector β m} :
    direction K model mu = .ok (u, y) ↔
      K.leastSquares
          (Mat.transpose (model.jacobian.map (K.solveLower (K.cholesky (dampedMatrix model mu)))))
          (K.solveLower (K.cholesky (dampedMatrix model mu)) model.gradient) false = .ok y ∧
        u = -(K.solveUpper (K.cholesky (dampedMatrix model mu)).transpose
          (K.solveLower (K.cholesky (dampedMatrix model mu)) model.gradient -
            (Mat.transpose (model.jacobian.map
              (K.solveLower (K.cholesky (dampedMatrix model mu))))).mulVec y)) := by
  refine except_bind_eq_ok_iff.trans ⟨?_, fun h => ⟨y, h.1, ?_⟩⟩
  · rintro ⟨y', hy, h⟩
    cases h
    exact ⟨hy, rfl⟩
  · rw [h.2]
    rfl

/-- With at most as many constraints as variables there is always a direction, since the
least-squares system of the multipliers is tall or square. -/
theorem NewtonStep.exists_direction (hmn : m ≤ n) (model : Model β m n) (mu : β) :
    ∃ r, direction K model mu = .ok r := by
  obtain ⟨y, hy⟩ := K.exists_leastSquares_of_le
    (Mat.transpose (model.jacobian.map (K.solveLower (K.cholesky (dampedMatrix model mu)))))
    (K.solveLower (K.cholesky (dampedMatrix model mu)) model.gradient) hmn
  exact ⟨(_, y), direction_eq_ok_iff.mpr ⟨hy, rfl⟩⟩

/-- With more constraints than variables there is no direction. -/
theorem NewtonStep.direction_ne_ok (hnm : n < m) (model : Model β m n) (mu : β)
    (r : Vector β n × Vector β m) : direction K model mu ≠ .ok r := by
  intro h
  have hy := (direction_eq_ok_iff.mp h).1
  rw [K.leastSquares_of_lt _ _ hnm] at hy
  cases hy

/-- A projection solves a square system only. -/
theorem projectOntoConstraints_withWide (p : Vector β n) (jacobian : Mat β m n)
    (c : Vector β m) :
    projectOntoConstraints (K.withWide wide) p jacobian c =
      projectOntoConstraints K p jacobian c := by
  unfold projectOntoConstraints leastNormCorrection
  simp only [Kernels.leastSquares_withWide wide (Nat.le_refl m)]

/-- The system of a projection is square. -/
theorem cause_of_projectOntoConstraints {p : Vector β n} {jacobian : Mat β m n} {c : Vector β m}
    {cause : Error} (h : projectOntoConstraints K p jacobian c = .error cause) :
    cause = .singularMatrix := by
  rcases except_bind_eq_error_iff.mp h with h | ⟨_, -, h⟩
  · rcases except_bind_eq_error_iff.mp h with h | ⟨_, -, h⟩
    · exact (Kernels.cause_of_leastSquares (Nat.le_refl m) h).2
    · cases h
  · cases h

variable {task : Restoration.Task α β m n}

/-- The artificial variable adds a row to the system of a restoration, so one constraint more than
variables is still allowed. -/
theorem Restoration.direction_withWide (hmn : m ≤ n + 1) (task : Task α β m n)
    (s : Extended β n) :
    direction (K.withWide wide) task s = direction K task s := by
  unfold direction
  simp only [Kernels.leastSquares_withWide wide hmn]

/-- Then a direction fails only where no bound can be exceeded. -/
theorem Restoration.cause_of_direction (hmn : m ≤ n + 1) {s : Extended β n} {cause : Error}
    (h : direction K task s = .error cause) : cause = .noExtremum := by
  rcases except_bind_eq_error_iff.mp h with h | ⟨d, -, h⟩
  · unfold scales at h
    cases hmode : task.mode.boundsDecisions <;> rw [hmode] at h
    · rcases except_bind_eq_error_iff.mp h with h | ⟨_, -, h⟩
      · exact Bounds.cause_of_requireSome h
      · cases h
    · cases h
  · rcases except_bind_eq_error_iff.mp h with h | ⟨y, -, h⟩
    · exact absurd (Kernels.cause_of_leastSquares hmn h).1 Bool.false_ne_true
    · cases h

end Directions

variable [Scalar α] [Scalar β] [Storage α β] {K : Kernels β}
  (wide : {m k : Nat} → Mat β m k → Mat β m k × Mat β k k)

/-! ## Newton steps -/

namespace NewtonStep

variable {model : Model β m n} {p : Vector β n} {bounds : Bounds β n}

/-- Trials depend on the kernels through the directions only. -/
theorem damp_congr {K' : Kernels β}
    (h : ∀ c : β, direction K' model c = direction K model c) :
    ∀ (fuel : Nat) (mu : α) (trials : Nat),
      damp K' model p bounds fuel mu trials = damp K model p bounds fuel mu trials := by
  intro fuel
  induction fuel with
  | zero => exact fun _ _ => rfl
  | succ fuel ih =>
    intro mu trials
    unfold damp
    simp only [h, ih]

/-- With at most as many constraints as variables, Newton steps do not use wide factorisations. -/
theorem compute_withWide (hmn : m ≤ n) (mu : α) :
    compute (K.withWide wide) model p bounds mu = compute K model p bounds mu :=
  damp_congr (direction_withWide wide hmn model) K.trialLimit mu 0

/-- Trials then end with a step, or because the limit of trials or of the damping is reached. -/
theorem cause_of_damp (hmn : m ≤ n) {cause : Error} :
    ∀ (fuel : Nat) (mu : α) (trials : Nat), damp K model p bounds fuel mu trials = .error cause →
      cause = .trialsExhausted ∨ cause = .noInteriorStep := by
  intro fuel
  induction fuel with
  | zero =>
    intro mu trials h
    cases h
    exact .inl rfl
  | succ fuel ih =>
    intro mu trials h
    -- each trial has a direction, so it can only be refused
    obtain ⟨⟨u, y⟩, hdirection⟩ := exists_direction (K := K) hmn model (store mu)
    unfold damp at h
    rw [hdirection] at h
    change ite _ _ _ = _ at h
    split_ifs at h
    · cases h
    · cases h
    · exact ih _ _ h
    · cases h
      exact .inr rfl

/-- With at most as many constraints as variables, there is no Newton step only if no trial
is accepted. -/
theorem cause_of_compute (hmn : m ≤ n) {mu : α} {cause : Error}
    (h : compute K model p bounds mu = .error cause) :
    cause = .trialsExhausted ∨ cause = .noInteriorStep :=
  cause_of_damp hmn K.trialLimit mu 0 h

/-- With more constraints than variables there is no Newton step. -/
theorem compute_ne_ok (hnm : n < m) (mu : α) (step : NewtonStep α β m n) :
    compute K model p bounds mu ≠ .ok step := by
  unfold compute
  intro h
  cases hfuel : K.trialLimit with
  | zero =>
    rw [hfuel] at h
    cases h
  | succ fuel =>
    rw [hfuel] at h
    obtain ⟨r, hr, -⟩ := except_bind_eq_ok_iff.mp h
    exact direction_ne_ok hnm _ _ r hr

end NewtonStep

/-! ## Restoration -/

namespace Restoration

variable {task : Task α β m n}

theorem loop_withWide (hmn : m ≤ n + 1) :
    ∀ (fuel : Nat) (go : α) (steps : Nat) (s : Extended β n),
      loop (K.withWide wide) task fuel go steps s = loop K task fuel go steps s := by
  intro fuel
  induction fuel with
  | zero => exact fun _ _ _ => rfl
  | succ fuel ih =>
    intro go steps s
    unfold loop
    simp only [direction_withWide wide hmn, ih]

/-- With enough rows, restorations do not use wide factorisations either. -/
theorem restore_withWide (hmn : m ≤ n + 1) (task : Task α β m n) (p : Vector β n) :
    restore (K.withWide wide) task p = restore K task p := by
  unfold restore
  rw [loop_withWide wide hmn]

/-- Steps of a restoration fail only where no bound can be exceeded. -/
theorem cause_of_loop (hmn : m ≤ n + 1) {cause : Error} :
    ∀ (fuel : Nat) (go : α) (steps : Nat) (s : Extended β n),
      loop K task fuel go steps s = .error cause → cause = .noExtremum := by
  intro fuel
  induction fuel with
  | zero =>
    intro go steps s h
    cases h
  | succ fuel ih =>
    intro go steps s h
    unfold loop at h
    split_ifs at h
    · rcases except_bind_eq_error_iff.mp h with h | ⟨v, -, h⟩
      · exact cause_of_direction hmn h
      · dsimp only at h
        split_ifs at h
        · cases h
        · rcases except_bind_eq_error_iff.mp h with h | ⟨_, -, h⟩
          · exact Bounds.cause_of_requireSome h
          · exact ih _ _ _ h
    · cases h

/-- With at most one constraint more than variables, a restoration fails only where nothing
is bounded. -/
theorem cause_of_restore (hmn : m ≤ n + 1) {p : Vector β n} {cause : Error}
    (h : restore K task p = .error cause) : cause = .noExtremum := by
  rcases except_bind_eq_error_iff.mp h with h | ⟨_, -, h⟩
  · exact cause_of_loop hmn _ _ _ _ h
  · cases h

end Restoration

end Sqp
