import Sqp.Proofs.Scalar.Dyadic
import Sqp.Proofs.Solver.Ledger

/-!
# How often a run calls the cost function

The number of calls is the only thing that a needless or a forgotten one changes. It is
counted here for any scalars, any kernels and any cost function.

- `Round`: a major iteration with the course of its inner solve, and `Round.calls`, the
  calls that it takes.
- `Solver.Traces`: rounds are the first ones of a run. `Solver.evaluations_after` says that
  every state of a run was reached by such rounds, and how often the cost function was
  called on the way.
- `Solver.evaluations_exact`: the number of calls of an inner solve and of a run, and a
  bound for the latter by the limits on iterations and the tolerance, which exact scalars
  have for every tolerance and doubles for tolerances down to `2⁻⁵²`
  (`Solver.evaluations_le_double`).
-/

namespace Sqp

variable {α β : Type} {e q n : Nat}

/-- A major iteration: the state that it starts from, and the course of its inner solve. -/
structure Round (α β : Type) (e q n : Nat) where
  state : State α β e q n
  descent : Subproblem.Descent α β e q n

variable [Scalar α] [Scalar β] [Storage α β] {f : CostFunction α}

/-- The calls of a major iteration: those of its inner solve, and one at the point that was
found. -/
def Round.calls (round : Round α β e q n) (settings : Subproblem.Settings α) : Nat :=
  round.descent.calls settings round.state.innerStart + 1

namespace Subproblem

variable {K : Kernels β} {settings : Settings α} {problem : Problem β e q n}
  {entry : InnerStart α β e q n}

/-- The calls of an inner solve that returns are those of its course. -/
theorem evaluations_solve {j j' : Journal α} {r : InnerResult α β q n}
    (h : outcome (solve K f settings problem entry) j = (.ok r, j')) :
    ∃ d j₁, outcome (run K f settings problem entry) j = (.ok d, j₁) ∧
      r = d.result entry.multipliers settings.tolerance ∧
      j'.evaluations = j.evaluations + d.calls settings entry := by
  obtain ⟨d, j₁, hrun, hr, hvisited, -⟩ := outcome_solve h
  obtain ⟨_, _, hgrown, rfl, -⟩ := calls_run j d j₁ hrun
  refine ⟨d, j₁, hrun, hr, ?_⟩
  rw [← hgrown.evaluations, Journal.evaluations, Journal.evaluations, hvisited]

end Subproblem

namespace Solver

variable {solver : Solver α β} {problem : Problem β 0 q n} {curvature : Mat β (q + n) (q + n)}

/-- A major iteration adds its calls. -/
theorem evaluations_step {s s' : State α β e q n} {j j' : Journal α}
    (h : outcome (solver.step f s) j = (.ok s', j')) :
    ∃ d j₁, outcome (Subproblem.run solver.kernels f solver.settings s.problem s.innerStart) j =
        (.ok d, j₁) ∧
      j'.evaluations = j.evaluations + Round.calls ⟨s, d⟩ solver.settings := by
  obtain ⟨r, j₁, hinner, h⟩ := outcome_bind_eq_ok_iff.mp h
  obtain ⟨d, j₂, hrun, -, hevaluations⟩ := Subproblem.evaluations_solve hinner
  -- after the inner solve, the cost function is called once
  have hrest : Grows (do
      announce (s.iteration + 1) r.warnings
      let cost ← evaluateSized f (e + q) (back r.parameters).toList
      let next := s.advance solver.options r cost
      report (.majorDone next.iteration next.objective next.objectiveChange next.constraintNorm
        next.rho next.mu r.minorIterations r.reduction)
      return next) fun _ calls _ => calls = 1 := by
    refine Grows.bind (grows_announce _ _) ?_
    rintro _ _ _ ⟨rfl, -⟩
    refine Calls.bind (Calls.evaluateSized f _ _) fun cost => ?_
    exact Calls.bind (Calls.report _) fun _ => Grows.pure rfl
  obtain ⟨_, _, hgrown, rfl⟩ := hrest j₁ s' j' h
  refine ⟨d, j₂, hrun, ?_⟩
  rw [hgrown.evaluations, hevaluations, Round.calls, Nat.add_assoc]

/-- The rounds are the first major iterations of a run that starts with the journal `j`. -/
def Traces (solver : Solver α β) (f : CostFunction α) (problem : Problem β 0 q n)
    (curvature : Mat β (q + n) (q + n)) (j : Journal α) (rounds : List (Round α β e q n)) : Prop :=
  ∀ (k : Nat) (round : Round α β e q n), rounds[k]? = some round → ∃ j₁ j₂,
    outcome (solver.after f problem curvature k) j = (.ok ⟨e, round.state⟩, j₁) ∧
    outcome (Subproblem.run solver.kernels f solver.settings round.state.problem
      round.state.innerStart) j₁ = (.ok round.descent, j₂)

/-- A state of a run was reached by rounds, whose calls add up to those of the run so far;
one more is made at the start. -/
theorem evaluations_after {j : Journal α} :
    ∀ (k : Nat) (s : State α β e q n) (j' : Journal α),
      outcome (solver.after f problem curvature k) j = (.ok ⟨e, s⟩, j') →
      ∃ rounds : List (Round α β e q n), rounds.length = k ∧
        solver.Traces f problem curvature j rounds ∧
        j'.evaluations = j.evaluations + 1 + (rounds.map fun r => r.calls solver.settings).sum := by
  intro k
  induction k with
  | zero =>
    intro s j' h
    obtain ⟨_, _, hgrown, rfl, -⟩ := grows_start problem curvature j _ _ h
    exact ⟨[], rfl, nofun, hgrown.evaluations⟩
  | succ k ih =>
    intro s j' h
    obtain ⟨⟨e, s₀⟩, j₀, hbefore, h⟩ := outcome_bind_eq_ok_iff.mp h
    obtain ⟨s', j₁, hstep, h⟩ := outcome_bind_eq_ok_iff.mp h
    cases h
    obtain ⟨rounds, hlength, htraces, hevaluations⟩ := ih s₀ j₀ hbefore
    -- the last round is known with its descent, whose calls are added to those before
    obtain ⟨d, j₂, hrun, hadded⟩ := evaluations_step hstep
    refine ⟨rounds ++ [⟨s₀, d⟩], ?_, fun i round hi => ?_, ?_⟩
    · rw [List.length_append, hlength, List.length_singleton]
    · rcases lt_or_ge i rounds.length with hlt | hge
      · rw [List.getElem?_append_left hlt] at hi
        exact htraces i round hi
      · rw [List.getElem?_append_right hge, List.getElem?_singleton] at hi
        split_ifs at hi with hzero
        cases hi
        rw [show i = k by omega]
        exact ⟨j₀, j₂, hbefore, hrun⟩
    · rw [hadded, hevaluations, List.map_append, List.sum_append, List.map_singleton,
        List.sum_singleton, Nat.add_assoc (j.evaluations + 1)]

/-- The calls of rounds whose line searches make at most `depth` bisections each. -/
theorem Traces.calls_le {j : Journal α} {rounds : List (Round α β e q n)}
    (h : solver.Traces f problem curvature j rounds) {depth : Nat} (grid : Halving α depth)
    (htolerance : ¬ solver.options.tolerance < grid.grid depth 1) :
    (rounds.map fun r => r.calls solver.settings).sum ≤
      rounds.length * (2 + n + solver.options.minorLimit.toNat * (n + 1 + depth)) := by
  have hround : ∀ calls ∈ rounds.map fun r => r.calls solver.settings,
      calls ≤ 2 + n + solver.options.minorLimit.toNat * (n + 1 + depth) := by
    intro calls hcalls
    obtain ⟨round, hround, rfl⟩ := List.mem_map.mp hcalls
    obtain ⟨k, hk⟩ := List.mem_iff_getElem?.mp hround
    obtain ⟨j₁, j₂, -, hrun⟩ := h k round hk
    have hle : round.descent.calls solver.settings round.state.innerStart ≤
        n + 1 + solver.options.minorLimit.toNat * (n + 1 + depth) :=
      (Subproblem.ensures_run_calls_le grid htolerance).of_outcome hrun
    rw [Round.calls]
    omega
  simpa using List.sum_le_card_nsmul _ _ hround

variable {parameters : SpecInput β} {inequalities : Option (SpecInput β)}
  {curvature : Option (RawArray β)} {r : SizedResult α β} {j : Journal α}

/-- A run that returns has gone through rounds, one for each of its major iterations, and
reports the calls that they and its start took. -/
theorem evaluations_solve (hoptions : solver.options.check = .ok solver.options)
    (h : outcome (solver.solve f parameters inequalities curvature) {} = (.ok r, j)) :
    r.result.evaluations = j.visited.size ∧
    (r.result.iterations : Int) ≤ solver.options.majorLimit ∧
    ∃ (problem : Problem β 0 r.inequalities r.decisions)
      (first : Mat β (r.inequalities + r.decisions) (r.inequalities + r.decisions)) (e : Nat)
      (rounds : List (Round α β e r.inequalities r.decisions)),
      Problem.build parameters inequalities = .ok ⟨r.inequalities, r.decisions, problem⟩ ∧
      Problem.initialCurvature curvature (r.inequalities + r.decisions) = .ok first ∧
      solver.Traces f problem first {} rounds ∧ rounds.length = r.result.iterations ∧
      r.result.evaluations = 1 + (rounds.map fun round => round.calls solver.settings).sum := by
  obtain ⟨⟨q, n, problem⟩, first, result, hbuild, hcurvature, hrun, rfl⟩ := outcome_solve h
  obtain ⟨e, last, j₁, hlast, hresult, -, hlimit, -, -⟩ :=
    outcome_runProblem (Options.accepted_of_check hoptions).2.majorLimit hrun
  obtain ⟨rounds, hlength, htraces, hcount⟩ := evaluations_after _ last j₁ hlast
  obtain ⟨hvisited, -, hr⟩ := outcome_result hresult
  have hreported : result.evaluations = j₁.evaluations := by rw [hr]
  refine ⟨?_, hlimit, problem, first, e, rounds, hbuild, hcurvature, htraces, hlength, ?_⟩
  · rw [hreported, hvisited]
    rfl
  · rw [hreported, hcount]
    rfl

/-- The largest number of calls of a run, if the tolerance is no shorter than an interval of
length one halved `depth` times. -/
theorem evaluations_le (hoptions : solver.options.check = .ok solver.options)
    (h : outcome (solver.solve f parameters inequalities curvature) {} = (.ok r, j)) {depth : Nat}
    (grid : Halving α depth) (htolerance : ¬ solver.options.tolerance < grid.grid depth 1) :
    r.result.evaluations ≤ 1 + solver.options.majorLimit.toNat *
      (2 + r.decisions + solver.options.minorLimit.toNat * (r.decisions + 1 + depth)) := by
  obtain ⟨-, hlimit, problem, first, e, rounds, -, -, htraces, hlength, hsum⟩ :=
    evaluations_solve hoptions h
  rw [hsum]
  refine Nat.add_le_add_left ((htraces.calls_le grid htolerance).trans ?_) 1
  exact Nat.mul_le_mul_right _ (by omega)

/-- The largest number of calls of a run with doubles, for a tolerance of at least
`2 ^ (-depth)`. -/
theorem evaluations_le_double {solver : Solver Float Cell} {f : CostFunction Float}
    {parameters : SpecInput Cell} {inequalities : Option (SpecInput Cell)}
    {curvature : Option (RawArray Cell)} {r : SizedResult Float Cell} {j : Journal Float}
    (hoptions : solver.options.check = .ok solver.options)
    (h : outcome (solver.solve f parameters inequalities curvature) {} = (.ok r, j)) {depth : Nat}
    (hdepth : depth ≤ 52) (htolerance : Double.dyadic 1 depth ≤ solver.options.tolerance) :
    r.result.evaluations ≤ 1 + solver.options.majorLimit.toNat *
      (2 + r.decisions + solver.options.minorLimit.toNat * (r.decisions + 1 + depth)) := by
  refine evaluations_le hoptions h (doubleHalving hdepth) fun hlt => ?_
  exact ((Scalar.Lawful.lt_iff _ _).mp hlt).2.2 htolerance

/-- The number of calls of the cost function. An inner solve takes those of its course. A
run takes one at the start and, for each of its major iterations, those of the inner solve
and one more; the outcome of the run reports this number. It is bounded by the limits on
iterations if the tolerance is no shorter than an interval of length one halved `depth`
times. -/
theorem evaluations_exact :
    (∀ (e q n : Nat) (K : Kernels β) (f : CostFunction α) (settings : Subproblem.Settings α)
      (problem : Problem β e q n) (entry : InnerStart α β e q n) (r : InnerResult α β q n)
      (j j' : Journal α),
      outcome (Subproblem.solve K f settings problem entry) j = (.ok r, j') →
      ∃ d j₁, outcome (Subproblem.run K f settings problem entry) j = (.ok d, j₁) ∧
        d.course.length = r.minorIterations ∧
        j'.evaluations = j.evaluations + d.calls settings entry) ∧
    ∀ (solver : Solver α β) (f : CostFunction α) (parameters : SpecInput β)
      (inequalities : Option (SpecInput β)) (curvature : Option (RawArray β))
      (r : SizedResult α β) (j : Journal α),
      solver.options.check = .ok solver.options →
      outcome (solver.solve f parameters inequalities curvature) {} = (.ok r, j) →
      r.result.evaluations = j.visited.size ∧
      (∃ (problem : Problem β 0 r.inequalities r.decisions)
        (first : Mat β (r.inequalities + r.decisions) (r.inequalities + r.decisions)) (e : Nat)
        (rounds : List (Round α β e r.inequalities r.decisions)),
        Problem.build parameters inequalities = .ok ⟨r.inequalities, r.decisions, problem⟩ ∧
        Problem.initialCurvature curvature (r.inequalities + r.decisions) = .ok first ∧
        solver.Traces f problem first {} rounds ∧ rounds.length = r.result.iterations ∧
        r.result.evaluations = 1 + (rounds.map fun round =>
          round.descent.calls solver.settings round.state.innerStart + 1).sum) ∧
      ∀ (depth : Nat) (grid : Halving α depth), ¬ solver.options.tolerance < grid.grid depth 1 →
        r.result.evaluations ≤ 1 + solver.options.majorLimit.toNat *
          (2 + r.decisions + solver.options.minorLimit.toNat * (r.decisions + 1 + depth)) := by
  constructor
  · intro e q n K f settings problem entry r j j' h
    obtain ⟨d, j₁, hrun, rfl, hevaluations⟩ := Subproblem.evaluations_solve h
    exact ⟨d, j₁, hrun, rfl, hevaluations⟩
  · intro solver f parameters inequalities curvature r j hoptions h
    obtain ⟨hvisited, -, hrounds⟩ := evaluations_solve hoptions h
    exact ⟨hvisited, hrounds, fun depth grid htolerance =>
      evaluations_le hoptions h grid htolerance⟩

/-- The calls of the run on the sample problem and of its last inner solve. -/
theorem evaluations_exact_pin : ∃ (r : SizedResult ℝ ℝ) (j : Journal ℝ),
    outcome (sampleSolver.solve pinCost (.record sampleParameters)
      (some (.record sampleInequalities)) none) {} = (.ok r, j) ∧
    r.result.evaluations = j.visited.size ∧
    r.result.evaluations ≤ 1 + 400 * (2 + r.decisions + 800 * (r.decisions + 1 + 27)) ∧
    ∃ (e : Nat) (s : State ℝ ℝ e r.inequalities r.decisions)
      (inner : InnerResult ℝ ℝ r.inequalities r.decisions)
      (d : Subproblem.Descent ℝ ℝ e r.inequalities r.decisions) (j₁ j₂ : Journal ℝ),
      outcome (Subproblem.solve sampleSolver.kernels pinCost sampleSolver.settings s.problem
        s.innerStart) j₁ = (.ok inner, j₂) ∧
      d.course.length = inner.minorIterations ∧
      j₂.evaluations = j₁.evaluations + d.calls sampleSolver.settings s.innerStart := by
  obtain ⟨_, j, hrun, -⟩ := pinCost_converges
  obtain ⟨sized, first, result, -, -, hproblem, hresult⟩ := outcome_solve hrun
  rw [hresult] at hrun
  obtain ⟨e, last, j', hlast, -, hone, -⟩ :=
    outcome_runProblem (Options.accepted_of_check sampleSolver_check).2.majorLimit hproblem
  -- a run makes at least one round, and so at least one inner solve
  obtain ⟨k, hk⟩ := Nat.exists_eq_succ_of_ne_zero (Nat.one_le_iff_ne_zero.mp hone)
  rw [hk] at hlast
  obtain ⟨s, j₁, -, hlast⟩ := outcome_bind_eq_ok_iff.mp hlast
  obtain ⟨_, _, hstep, -⟩ := outcome_bind_eq_ok_iff.mp hlast
  obtain ⟨inner, j₂, hinner, -⟩ := outcome_bind_eq_ok_iff.mp hstep
  obtain ⟨d, -, -, hlength, hcalls⟩ := evaluations_exact.1 _ _ _ _ _ _ _ _ _ _ _ hinner
  obtain ⟨hvisited, -, hbound⟩ :=
    evaluations_exact.2 sampleSolver pinCost _ _ _ _ _ sampleSolver_check hrun
  refine ⟨_, j, hrun, hvisited, hbound 27 (realHalving 27) ?_, s.equalities, s.state, inner, d, j₁,
    j₂, hinner, hlength, hcalls⟩
  rw [realHalving_cell]
  norm_num [sampleSolver, Options.standard]

end Solver

end Sqp
