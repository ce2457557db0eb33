import Sqp.Proofs.Problem
import Sqp.Proofs.Solver.States
import Sqp.Proofs.Subproblem.Box

/-!
# States in the box

- `State.InBox`: a state of a run on a problem whose parameters meet all bounds. The state
  at the start is one (`State.ofCost_inBox`), and so is the state after a major iteration
  (`State.advance_inBox`), since settled slacks lie strictly between their bounds.
- `Options.check_eq_ok_iff`, `Problem.build_strictlyInside`: what is known of accepted options,
  and that accepted problems start strictly inside their bounds.
- `Solver.confined_step_inBox`: a major iteration of a problem with bounds keeps the box
  and calls the cost function at visitable vectors only.
-/

namespace Sqp

variable {e q n : Nat}

/-! ## Settled slacks -/

/-- Slacks may be reset if the new values lie strictly between the bounds. -/
theorem slacksAdmit_iff (problem : Problem ℝ e q n) (values : Vector ℝ q) :
    slacksAdmit problem values = true ↔
      ∀ i interval, problem.bounds.get (i.castAdd n) = some interval →
        interval.lower < values.get i ∧ values.get i < interval.upper := by
  rw [slacksAdmit, Vector.all_eq_true]
  constructor
  · intro h i interval hi
    have hcontains := h i.val i.isLt
    rw [Vector.getElem_zipWith] at hcontains
    rw [show (front problem.bounds)[i.val] = some interval from (get_front _ i).trans hi]
      at hcontains
    exact (interval.contains_iff _).mp hcontains
  · intro h i hi
    rw [Vector.getElem_zipWith]
    cases hb : (front problem.bounds)[i] with
    | none => rfl
    | some interval =>
      exact (interval.contains_iff _).mpr (h ⟨i, hi⟩ interval ((get_front _ ⟨i, hi⟩).symm.trans hb))

/-- Settled slacks lie strictly between their bounds, so settling keeps whatever strictness
implies. -/
theorem forall_settleSlacks (problem : Problem ℝ e q n) {p : Vector ℝ (q + n)}
    (c : Vector ℝ (e + q)) {R : Interval ℝ → ℝ → Prop}
    (hR : ∀ b x, b.lower < x → x < b.upper → R b x)
    (hp : ∀ i interval, problem.bounds.get i = some interval → R interval (p.get i)) :
    ∀ i interval, problem.bounds.get i = some interval →
      R interval ((settleSlacks problem p c).get i) := by
  unfold settleSlacks
  split_ifs with hadmit
  · refine Fin.addCases (fun k interval hi => ?_) fun k interval hi => ?_
    · have hinside := (slacksAdmit_iff problem _).mp hadmit k interval hi
      rw [get_append_castAdd]
      exact hR interval _ hinside.1 hinside.2
    · rw [get_append_natAdd, get_back]
      exact hp _ interval hi
  · exact hp

/-- Settling slacks does not leave the box. -/
theorem settleSlacks_holds (problem : Problem ℝ e q n) {p : Vector ℝ (q + n)}
    (c : Vector ℝ (e + q)) (hp : problem.bounds.Holds p) :
    problem.bounds.Holds (settleSlacks problem p c) :=
  forall_settleSlacks problem c (fun _ _ h₁ h₂ => ⟨h₁.le, h₂.le⟩) hp

/-- Slacks that are reset stay inside, and others are not moved. -/
theorem settleSlacks_strictlyInside (problem : Problem ℝ e q n) {p : Vector ℝ (q + n)}
    (c : Vector ℝ (e + q)) (hp : problem.bounds.strictlyInside p = true) :
    problem.bounds.strictlyInside (settleSlacks problem p c) = true := by
  rw [Bounds.strictlyInside_iff] at hp ⊢
  exact forall_settleSlacks problem c (R := fun b x => b.lower < x ∧ x < b.upper)
    (fun _ _ h₁ h₂ => ⟨h₁, h₂⟩) hp

/-! ## States in the box -/

/-- A state of a run on `problem` whose parameters meet all bounds. -/
structure State.InBox (problem : Problem ℝ 0 q n) (s : State ℝ ℝ e q n) : Prop where
  problem_eq : s.problem = problem.withEqualities e
  holds : problem.bounds.Holds s.parameters

variable {problem : Problem ℝ 0 q n} {options : Options ℝ}

theorem State.ofCost_inBox (h : problem.bounds.Holds problem.parameters)
    (curvature : Mat ℝ (q + n) (q + n)) (cost : Cost ℝ (e + q)) :
    (State.ofCost options (problem.withEqualities e) curvature cost).InBox problem where
  problem_eq := rfl
  holds := settleSlacks_holds (problem.withEqualities e) _ h

/-- A major iteration takes over the point of the inner solve, which is in the box. -/
theorem State.advance_inBox {s : State ℝ ℝ e q n} (hs : s.InBox problem)
    {r : InnerResult ℝ ℝ q n} (hr : problem.bounds.Holds r.parameters) (cost : Cost ℝ (e + q)) :
    (s.advance options r cost).InBox problem where
  problem_eq := by rw [State.advance_problem, hs.problem_eq]
  holds := by
    rw [State.advance_parameters]
    split_ifs
    · exact hr
    · rw [hs.problem_eq]
      exact settleSlacks_holds (problem.withEqualities e) _ hr

/-! ## Runs -/

/-- The rules that options obey, in exact arithmetic. -/
theorem Options.check_eq_ok_iff : options.check = .ok options ↔
    0 < options.tolerance ∧ 0 < options.delta ∧ 0 ≤ options.rho ∧ 1 ≤ options.majorLimit ∧
      1 ≤ options.minorLimit := by
  have hfinite : Scalar.isInfinite (options.tolerance * options.tolerance) = false := rfl
  unfold Options.check
  rw [hfinite]
  constructor
  · intro h
    split_ifs at h with ht _ hdelta hrho hlimits
    obtain ⟨hmajor, hminor⟩ := not_or.mp hlimits
    exact ⟨ht, hdelta, not_lt.mp hrho, not_lt.mp hmajor, not_lt.mp hminor⟩
  · rintro ⟨ht, hdelta, hrho, hmajor, hminor⟩
    rw [if_neg (not_not.mpr ht), if_neg Bool.false_ne_true, if_neg (not_not.mpr hdelta),
      if_neg (not_lt.mpr hrho), if_neg (by omega)]
    rfl

theorem Options.tolerance_pos (h : options.check = .ok options) : 0 < options.tolerance :=
  (Options.check_eq_ok_iff.mp h).1

/-- An accepted problem starts strictly inside its bounds. -/
theorem Problem.build_strictlyInside {parameters : SpecInput ℝ}
    {inequalities : Option (SpecInput ℝ)} (hparameters : parameters.Checked)
    (hinequalities : ∀ input ∈ inequalities, input.Checked) {sized : SizedProblem ℝ}
    (h : Problem.build parameters inequalities = .ok sized) :
    sized.problem.bounds.strictlyInside sized.problem.parameters = true := by
  obtain ⟨spec, hspec, spec?, hspec?, rfl⟩ := Problem.build_eq_ok_iff.mp h
  refine Problem.ofSpecs_strictlyInside (Spec.ofParameters_cases hparameters hspec) ?_
  rintro _ rfl
  exact Spec.ofInequalities_ranged hinequalities hspec?

namespace Solver

variable {solver : Solver ℝ ℝ} {f f' : CostFunction ℝ}

/-- The inner solve of a state in the box ends in the box. -/
theorem confined_inner_holds (ht : 0 < solver.options.tolerance)
    (hmode : problem.mode ≠ .unbounded)
    (hf : ∀ x, Visitable problem.bounds solver.settings.shift x → f x = f' x)
    {s : State ℝ ℝ e q n} (hs : s.InBox problem) :
    Confined (Visitable problem.bounds solver.settings.shift)
      (Subproblem.solve solver.kernels f solver.settings s.problem s.innerStart)
      (Subproblem.solve solver.kernels f' solver.settings s.problem s.innerStart)
      fun r => problem.bounds.Holds r.parameters := by
  rw [hs.problem_eq]
  exact Subproblem.confined_solve (problem.withEqualities e) ht hmode hf hs.holds

/-- A major iteration keeps the box and calls the cost function at visitable vectors. -/
theorem confined_step_inBox (ht : 0 < solver.options.tolerance) (hmode : problem.mode ≠ .unbounded)
    (hf : ∀ x, Visitable problem.bounds solver.settings.shift x → f x = f' x)
    {s : State ℝ ℝ e q n} (hs : s.InBox problem) :
    Confined (Visitable problem.bounds solver.settings.shift) (solver.step f s) (solver.step f' s)
      fun s' => s'.InBox problem := by
  refine (confined_stateStep (confined_inner_holds ht hmode hf hs)
    (fun r hr => ⟨r.parameters, hr, .inl (map_load_real _)⟩) hf).mono ?_
  rintro _ ⟨r, cost, hr, -, rfl⟩
  exact State.advance_inBox hs hr cost

end Solver

end Sqp
