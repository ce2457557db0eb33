import Sqp.Proofs.Journal
import Sqp.Solver.Run

/-!
# States of a run

What the parts of a run do to its state, for any scalars and any inner solver.

- `confined_start`, `confined_stateStep`: the state at the initial point and the state
  after a major iteration.
- `State.afterWith`, `Solver.after`: the state after a given number of major iterations, with
  any inner solvers and with the standard one. `confined_afterWith`, `confined_after` and
  `confined_iterate` carry an invariant from the start of a run to all its states.
- `Solver.outcome_solve`, `Solver.outcome_result`: what a run from specifications is made
  of, and what its outcome tells of its last state.
- `State.Consistent`: cost vector, objective and constraint norm of a state belong to its
  parameters. A state is consistent at the start (`State.ofCost_consistent`) and after
  every major iteration (`State.advance_consistent`).
-/

namespace Sqp

variable {α β : Type} {e q n : Nat}

/-! ## Runs -/

section Runs

variable {P : List α → Prop}

theorem confined_announce (iteration : Nat) (codes : List Int) :
    Confined P (announce iteration codes) (announce iteration codes) fun _ => True := by
  induction codes with
  | nil => exact Confined.pure trivial
  | cons code codes ih =>
    refine Confined.bind (Q := fun _ => True) (Confined.recorded fun _ _ => trivial) fun w _ => ?_
    exact Confined.bind (Confined.emit iteration w) fun _ _ => ih

variable [Scalar α] [Scalar β] [Storage α β] {f f' : CostFunction α} {options : Options α}

/-- A run starts with one call of the cost function, at the initial decision variables. -/
theorem confined_start {problem : Problem β 0 q n} {curvature : Mat β (q + n) (q + n)}
    (hx : P ((back problem.parameters).toList.map load))
    (hf : ∀ x, P x → f x = f' x) :
    Confined P (State.start options f problem curvature)
      (State.start options f' problem curvature) fun s =>
        ∃ cost : Cost β (s.equalities + q),
          f ((back problem.parameters).toList.map load) = .ok (cost.toList.map load) ∧
          s.state = State.ofCost options (problem.withEqualities s.equalities) curvature cost := by
  refine Confined.bind (Confined.evaluate hx (hf _ hx)) fun values hvalues => ?_
  refine Confined.bind (Q := fun _ => True) (Confined.recorded fun _ _ => trivial) fun e _ => ?_
  cases hcost : (Cost.ofList? values : Option (Cost β (e + q))) with
  | none => exact Confined.throw _
  | some cost =>
    rw [Cost.toList_of_ofList? hcost] at hvalues
    exact Confined.bind (Confined.report _) fun _ _ => Confined.pure ⟨cost, hvalues, rfl⟩

/-- A major iteration is an inner solve followed by one call of the cost function, at the
decision variables that were found. -/
theorem confined_stateStep {inner inner' : InnerSolver α β e q n} {s : State α β e q n}
    {Q : InnerResult α β q n → Prop}
    (hinner : Confined P (inner s.problem s.innerStart) (inner' s.problem s.innerStart) Q)
    (hx : ∀ r, Q r → P ((back r.parameters).toList.map load)) (hf : ∀ x, P x → f x = f' x) :
    Confined P (s.step options f inner) (s.step options f' inner') fun s' =>
      ∃ r cost, Q r ∧ f ((back r.parameters).toList.map load) = .ok (cost.toList.map load) ∧
        s' = s.advance options r cost := by
  refine Confined.bind hinner fun r hr => ?_
  refine Confined.bind (confined_announce _ _) fun _ _ => ?_
  refine Confined.bind (Confined.evaluateSized (hx r hr) (hf _ (hx r hr))) fun cost hcost => ?_
  exact Confined.bind (Confined.report _) fun _ _ => Confined.pure ⟨r, cost, hr, hcost, rfl⟩

/-- The state after the start and `k` major iterations, whether or not the run would have
ended before. Each major iteration has an inner solver of its own. -/
def State.afterWith (options : Options α) (f : CostFunction α)
    (inner : Nat → (e : Nat) → InnerSolver α β e q n) (problem : Problem β 0 q n)
    (curvature : Mat β (q + n) (q + n)) : Nat → Recorded α (SizedState α β q n)
  | 0 => State.start options f problem curvature
  | k + 1 => do
    let s ← State.afterWith options f inner problem curvature k
    return ⟨s.equalities, ← s.state.step options f (inner k s.equalities)⟩

/-- What holds at the start and is kept by major iterations holds after any number of
them, whatever their inner solvers. -/
theorem confined_afterWith {options' : Options α}
    {inner inner' : Nat → (e : Nat) → InnerSolver α β e q n} {problem : Problem β 0 q n}
    {curvature : Mat β (q + n) (q + n)} {I : SizedState α β q n → Prop}
    (hstart : Confined P (State.start options f problem curvature)
      (State.start options' f' problem curvature) I)
    (hstep : ∀ k s, I s → Confined P (s.state.step options f (inner k s.equalities))
      (s.state.step options' f' (inner' k s.equalities)) fun s' => I ⟨s.equalities, s'⟩) :
    ∀ k, Confined P (State.afterWith options f inner problem curvature k)
      (State.afterWith options' f' inner' problem curvature k) I := by
  intro k
  induction k with
  | zero => exact hstart
  | succ k ih =>
    refine Confined.bind ih fun s hs => ?_
    exact Confined.bind (hstep k s hs) fun _ hs' => Confined.pure hs'

/-- The state after the start and `k` major iterations, whether or not the run would have
ended before. -/
def Solver.after (solver : Solver α β) (f : CostFunction α) (problem : Problem β 0 q n)
    (curvature : Mat β (q + n) (q + n)) : Nat → Recorded α (SizedState α β q n)
  | 0 => State.start solver.options f problem curvature
  | k + 1 => do
    let s ← solver.after f problem curvature k
    return ⟨s.equalities, ← solver.step f s.state⟩

variable {solver solver' : Solver α β}

/-- A run is one whose major iterations all have the standard inner solver. -/
theorem Solver.after_eq_afterWith (solver : Solver α β) (f : CostFunction α)
    (problem : Problem β 0 q n) (curvature : Mat β (q + n) (q + n)) (k : Nat) :
    solver.after f problem curvature k = State.afterWith solver.options f
      (fun _ _ => Subproblem.solve solver.kernels f solver.settings) problem curvature k := by
  induction k with
  | zero => rfl
  | succ k ih =>
    rw [Solver.after, State.afterWith, ih]
    rfl

/-- The same of runs with the standard inner solver. -/
theorem confined_after {problem : Problem β 0 q n} {curvature : Mat β (q + n) (q + n)}
    {I : SizedState α β q n → Prop}
    (hstart : Confined P (State.start solver.options f problem curvature)
      (State.start solver'.options f' problem curvature) I)
    (hstep : ∀ s, I s → Confined P (solver.step f s.state) (solver'.step f' s.state)
      fun s' => I ⟨s.equalities, s'⟩) (k : Nat) :
    Confined P (solver.after f problem curvature k) (solver'.after f' problem curvature k) I := by
  rw [solver.after_eq_afterWith, solver'.after_eq_afterWith]
  refine confined_afterWith hstart (fun _ s hs => ?_) k
  exact hstep s hs

/-- What major iterations keep holds when a run ends. -/
theorem confined_iterate {I : State α β e q n → Prop}
    (hstep : ∀ s, I s → Confined P (solver.step f s) (solver.step f' s) I) :
    ∀ (left : Nat) (s : State α β e q n), I s →
      Confined P (solver.iterate f left s) (solver.iterate f' left s) I := by
  intro left
  induction left with
  | zero =>
    intro s hs
    exact Confined.pure hs
  | succ left ih =>
    intro s hs
    refine Confined.ite (fun _ => Confined.pure hs) fun _ => ?_
    exact Confined.bind (hstep s hs) fun s' hs' => ih s' hs'

/-! ## Outcomes -/

/-- A run from specifications is one on the problem that they make. -/
theorem Solver.outcome_solve {parameters : SpecInput β} {inequalities : Option (SpecInput β)}
    {curvature : Option (RawArray β)} {j j' : Journal α} {r : SizedResult α β}
    (h : outcome (solver.solve f parameters inequalities curvature) j = (.ok r, j')) :
    ∃ sized first result, Problem.build parameters inequalities = .ok sized ∧
      Problem.initialCurvature curvature (sized.inequalities + sized.decisions) = .ok first ∧
      outcome (solver.runProblem f sized.problem first) j = (.ok result, j') ∧
      r = ⟨sized.inequalities, sized.decisions, result⟩ := by
  obtain ⟨sized, j₁, hbuild, h⟩ := outcome_bind_eq_ok_iff.mp h
  obtain ⟨first, j₂, hcurvature, h⟩ := outcome_bind_eq_ok_iff.mp h
  obtain ⟨result, j₃, hrun, h⟩ := outcome_bind_eq_ok_iff.mp h
  cases h
  rw [outcome_recorded, Prod.mk.injEq] at hbuild hcurvature
  obtain ⟨hbuild, rfl⟩ := hbuild
  obtain ⟨hcurvature, rfl⟩ := hcurvature
  exact ⟨sized, first, result, hbuild, hcurvature, hrun, rfl⟩

omit [Scalar α] [Scalar β] [Storage α β] in
/-- The outcome of a run that ends in state `s` tells what the state says, and making it
neither calls the cost function nor emits a warning. -/
theorem Solver.outcome_result {s : State α β e q n} {j j' : Journal α} {r : Result α β q n}
    (h : outcome s.result j = (.ok r, j')) :
    j'.visited = j.visited ∧ j'.emitted = j.emitted ∧
      r = { value := s.objective
            optimum := back s.parameters
            converged := s.converged
            curvature := s.curvature
            multipliers := s.multipliers
            history := s.history
            iterations := s.iteration
            evaluations := j.evaluations
            warnings := s.warnings
            ending := if s.converged then .successful else .iterationsExhausted } := by
  unfold State.result at h
  rw [outcome_bind, outcome_get] at h
  dsimp only at h
  split_ifs at h with hconverged
  · cases h
    exact ⟨rfl, rfl, by rw [if_pos hconverged]⟩
  · cases h
    exact ⟨rfl, rfl, by rw [if_neg hconverged]⟩

end Runs

/-! ## Consistent states -/

variable [Scalar α] [Scalar β] [Storage α β]

/-- Cost vector, objective and constraint norm belong to the parameters. -/
structure State.Consistent (f : CostFunction α) (s : State α β e q n) : Prop where
  cost : f ((back s.parameters).toList.map load) = .ok (s.cost.toList.map load)
  objective : s.objective = load s.cost.objective
  norm : s.constraintNorm = if e + q = 0 then 0
    else load (euclideanNorm (slackResiduals s.cost.constraints s.parameters))

/-- Settling slacks leaves the decision variables alone. -/
@[simp] theorem back_settleSlacks (problem : Problem β e q n) (p : Vector β (q + n))
    (c : Vector β (e + q)) : back (settleSlacks problem p c) = back p := by
  unfold settleSlacks
  split_ifs
  · exact back_append _ _
  · rfl

variable {f : CostFunction α} {options : Options α}

/-- The first state belongs to the cost vector that it was made from. -/
theorem State.ofCost_consistent {problem : Problem β e q n} {curvature : Mat β (q + n) (q + n)}
    {cost : Cost β (e + q)}
    (h : f ((back problem.parameters).toList.map load) = .ok (cost.toList.map load)) :
    (State.ofCost options problem curvature cost).Consistent f where
  cost := by
    show f ((back (settleSlacks problem problem.parameters cost.constraints)).toList.map load) = _
    rwa [back_settleSlacks]
  objective := rfl
  norm := rfl

/-- The parameters after a major iteration: settled if there are constraints. -/
theorem State.advance_parameters (s : State α β e q n) (r : InnerResult α β q n)
    (cost : Cost β (e + q)) :
    (s.advance options r cost).parameters =
      if e + q = 0 then r.parameters else settleSlacks s.problem r.parameters cost.constraints := by
  unfold State.advance
  split_ifs <;> rfl

theorem State.advance_constraintNorm (s : State α β e q n) (r : InnerResult α β q n)
    (cost : Cost β (e + q)) :
    (s.advance options r cost).constraintNorm =
      if e + q = 0 then s.constraintNorm
      else load (euclideanNorm (slackResiduals cost.constraints
        (settleSlacks s.problem r.parameters cost.constraints))) := by
  unfold State.advance
  split_ifs <;> rfl

@[simp] theorem State.advance_problem (s : State α β e q n) (r : InnerResult α β q n)
    (cost : Cost β (e + q)) : (s.advance options r cost).problem = s.problem := by
  unfold State.advance
  split_ifs <;> rfl

@[simp] theorem State.advance_cost (s : State α β e q n) (r : InnerResult α β q n)
    (cost : Cost β (e + q)) : (s.advance options r cost).cost = cost := by
  unfold State.advance
  split_ifs <;> rfl

@[simp] theorem State.advance_objective (s : State α β e q n) (r : InnerResult α β q n)
    (cost : Cost β (e + q)) : (s.advance options r cost).objective = load cost.objective := by
  unfold State.advance
  split_ifs <;> rfl

theorem State.advance_objectiveChange (s : State α β e q n) (r : InnerResult α β q n)
    (cost : Cost β (e + q)) :
    (s.advance options r cost).objectiveChange = (s.objective - load cost.objective) /
      Scalar.keepMax (Scalar.abs (load cost.objective : α)) 1 := by
  unfold State.advance
  split_ifs <;> rfl

@[simp] theorem State.advance_history (s : State α β e q n) (r : InnerResult α β q n)
    (cost : Cost β (e + q)) :
    (s.advance options r cost).history = s.history ++ [load cost.objective] := by
  unfold State.advance
  split_ifs <;> rfl

/-- The convergence test of a major iteration. -/
theorem State.advance_converged (s : State α β e q n) (r : InnerResult α β q n)
    (cost : Cost β (e + q)) :
    (s.advance options r cost).converged = decide (Scalar.length
      [(s.advance options r cost).objectiveChange, (s.advance options r cost).constraintNorm]
        ≤ options.tolerance) :=
  rfl

theorem State.advance_consistent {s : State α β e q n} (hs : s.Consistent f)
    {r : InnerResult α β q n} {cost : Cost β (e + q)}
    (h : f ((back r.parameters).toList.map load) = .ok (cost.toList.map load)) :
    (s.advance options r cost).Consistent f where
  cost := by
    rw [State.advance_parameters, State.advance_cost]
    split_ifs
    · exact h
    · rwa [back_settleSlacks]
  objective := by rw [State.advance_objective, State.advance_cost]
  norm := by
    rw [State.advance_constraintNorm, State.advance_parameters, State.advance_cost, hs.norm]
    split_ifs <;> rfl

end Sqp
