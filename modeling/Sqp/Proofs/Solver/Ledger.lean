import Sqp.Proofs.Acceptance
import Sqp.Proofs.Solver.Feasibility
import Sqp.Proofs.Subproblem.Records

/-!
# What a run notes down

The bookkeeping of a run, for any scalars, any kernels and any cost function.

- `Solver.outcome_iterate`, `Solver.outcome_runProblem`: a run that returns has gone through
  the states `Solver.after` gives, and its last state is the first finished one.
- `State.Ledger`: iteration number, history and warnings of a state belong together, and
  the emitted warnings are the noted ones. `grows_start` and `grows_stateStep` say that a run
  starts with a ledger and that a major iteration continues it, `Solver.grows_after` that
  every state of a run has one.
- `Solver.solve_ledger`: the numbers, history and warnings of the outcome of a run.
-/

namespace Sqp

variable {α β : Type} {e q n : Nat}

/-! ## States of a run that returns -/

section Runs

variable [Scalar α] [Scalar β] [Storage α β] {solver : Solver α β} {f : CostFunction α}
  {problem : Problem β 0 q n} {curvature : Mat β (q + n) (q + n)}

/-- The rounds that a run makes from a state on: there are `m` of them, all but the last of
their states are unfinished, and the last one is finished unless no round is left. -/
theorem Solver.outcome_iterate {j₀ : Journal α} :
    ∀ (left k : Nat) (s last : State α β e q n) (j j' : Journal α),
      outcome (solver.after f problem curvature k) j₀ = (.ok ⟨e, s⟩, j) →
      outcome (solver.iterate f left s) j = (.ok last, j') →
      ∃ m ≤ left, outcome (solver.after f problem curvature (k + m)) j₀ = (.ok ⟨e, last⟩, j') ∧
        (∀ i < m, ∃ (s' : State α β e q n) (j'' : Journal α),
          outcome (solver.after f problem curvature (k + i)) j₀ = (.ok ⟨e, s'⟩, j'') ∧
            s'.finished solver.options = false) ∧
        (last.finished solver.options = true ∨ m = left) := by
  intro left
  induction left with
  | zero =>
    intro k s last j j' hs h
    cases h
    exact ⟨0, le_rfl, hs, nofun, .inr rfl⟩
  | succ left ih =>
    intro k s last j j' hs h
    rw [Solver.iterate] at h
    by_cases hfinished : s.finished solver.options = true
    · rw [if_pos hfinished] at h
      cases h
      exact ⟨0, Nat.zero_le _, hs, nofun, .inl hfinished⟩
    · rw [if_neg hfinished] at h
      obtain ⟨next, j₁, hstep, h⟩ := outcome_bind_eq_ok_iff.mp h
      -- the state after this round is that of a run with one round more, so the rest of the loop
      -- is counted from there
      have hnext : outcome (solver.after f problem curvature (k + 1)) j₀ = (.ok ⟨e, next⟩, j₁) :=
        outcome_bind_eq_ok_iff.mpr ⟨⟨e, s⟩, j, hs,
          outcome_bind_eq_ok_iff.mpr ⟨next, j₁, hstep, rfl⟩⟩
      obtain ⟨m, hm, hlast, hearlier, hend⟩ := ih (k + 1) next last j₁ j' hnext h
      refine ⟨m + 1, by omega, ?_, fun i hi => ?_, ?_⟩
      · rwa [show k + (m + 1) = k + 1 + m by omega]
      · rcases Nat.eq_zero_or_pos i with rfl | hpos
        · exact ⟨s, j, hs, by simpa using hfinished⟩
        · obtain ⟨s', j'', hs', hunfinished⟩ := hearlier (i - 1) (by omega)
          rw [show k + 1 + (i - 1) = k + i by omega] at hs'
          exact ⟨s', j'', hs', hunfinished⟩
      · exact hend.imp_right fun h => by omega

end Runs

/-! ## Ledgers -/

/-- Iteration number, history and warnings of a state after `k` major iterations, in which
the warnings `ws` were emitted. -/
structure State.Ledger (k : Nat) (ws : List (Nat × Warning)) (s : State α β e q n) : Prop where
  iteration : s.iteration = k
  length : s.history.length = k + 1
  last : s.history.getLast? = some s.objective
  /-- Warnings are noted in the order of iterations, those of one iteration in the order of
  their numbers. -/
  increasing : s.warnings.Pairwise (Prod.Lex (· < ·) (· < ·))
  range : ∀ w ∈ s.warnings, 1 ≤ w.1 ∧ w.1 ≤ k ∧ w.2 ∈ [1, 2, 3]
  emitted : ws.map (fun w => (w.1, w.2.code)) = s.warnings

/-- A number that names a warning is the number of that warning. -/
theorem Warning.code_of_ofCode {c : Int} {w : Warning} (h : Warning.ofCode c = .ok w) :
    w.code = c := by
  unfold Warning.ofCode at h
  split at h <;> cases h <;> rfl

/-- What is emitted for a list of numbers are the warnings that they name. -/
theorem grows_announce (iteration : Nat) (codes : List Int) :
    Grows (announce iteration codes : Recorded α Unit) fun _ calls ws => calls = 0 ∧
      ws.map (fun w => (w.1, w.2.code)) = codes.map fun code => (iteration, code) := by
  induction codes with
  | nil => exact Grows.pure ⟨rfl, rfl⟩
  | cons code codes ih =>
    refine Grows.bind (Q := fun w calls ws => calls = 0 ∧ ws = [] ∧ w.code = code)
      (Grows.recorded fun w hw => ⟨rfl, rfl, Warning.code_of_ofCode hw⟩) ?_
    rintro w _ _ ⟨rfl, rfl, hw⟩
    refine Grows.bind (Grows.emit iteration w) ?_
    rintro _ _ _ ⟨rfl, rfl⟩
    refine ih.mono ?_
    rintro _ _ ws ⟨rfl, hws⟩
    refine ⟨rfl, ?_⟩
    rw [List.nil_append, List.map_append, hws, List.map_cons, List.map_nil, hw, List.map_cons,
      List.singleton_append]

variable [Scalar α] [Scalar β] [Storage α β] {f : CostFunction α} {options : Options α}

@[simp] theorem State.advance_iteration (s : State α β e q n) (r : InnerResult α β q n)
    (cost : Cost β (e + q)) : (s.advance options r cost).iteration = s.iteration + 1 := by
  unfold State.advance
  split_ifs <;> rfl

@[simp] theorem State.advance_warnings (s : State α β e q n) (r : InnerResult α β q n)
    (cost : Cost β (e + q)) :
    (s.advance options r cost).warnings =
      s.warnings ++ r.warnings.map fun code => (s.iteration + 1, code) := by
  unfold State.advance
  split_ifs <;> rfl

theorem State.ofCost_ledger (problem : Problem β e q n) (curvature : Mat β (q + n) (q + n))
    (cost : Cost β (e + q)) : (State.ofCost options problem curvature cost).Ledger 0 [] where
  iteration := rfl
  length := rfl
  last := rfl
  increasing := .nil
  range := nofun
  emitted := rfl

/-- A major iteration continues the ledger, if its inner solve notes warnings in the order
of their numbers. -/
theorem State.Ledger.advance {s : State α β e q n} {k : Nat} {ws ws' : List (Nat × Warning)}
    (hs : s.Ledger k ws) {r : InnerResult α β q n} (hr : r.warnings.Sublist [1, 2, 3])
    (hws : ws'.map (fun w => (w.1, w.2.code)) = r.warnings.map fun code => (k + 1, code))
    (cost : Cost β (e + q)) : (s.advance options r cost).Ledger (k + 1) (ws ++ ws') where
  iteration := by rw [State.advance_iteration, hs.iteration]
  length := by rw [State.advance_history, List.length_append, hs.length, List.length_singleton]
  last := by rw [State.advance_history, State.advance_objective, List.getLast?_concat]
  increasing := by
    rw [State.advance_warnings, hs.iteration]
    refine List.pairwise_append.mpr ⟨hs.increasing, ?_, ?_⟩
    -- the new warnings are in the order of their numbers, and come after those of earlier rounds
    · have hcodes : ([1, 2, 3] : List Int).Pairwise (· < ·) := by decide
      exact (hcodes.sublist hr).map _ fun a b hab => Prod.Lex.right (k + 1) hab
    · intro a ha b hb
      obtain ⟨code, -, rfl⟩ := List.mem_map.mp hb
      exact Prod.Lex.left _ _ (Nat.lt_succ_of_le (hs.range a ha).2.1)
  range := by
    intro w hw
    rw [State.advance_warnings, hs.iteration] at hw
    rcases List.mem_append.mp hw with hw | hw
    · obtain ⟨hone, hle, hcode⟩ := hs.range w hw
      exact ⟨hone, hle.trans (Nat.le_succ k), hcode⟩
    · obtain ⟨code, hcode, rfl⟩ := List.mem_map.mp hw
      exact ⟨Nat.succ_pos k, le_rfl, hr.subset hcode⟩
  emitted := by rw [State.advance_warnings, hs.iteration, List.map_append, hs.emitted, hws]

theorem grows_start (problem : Problem β 0 q n) (curvature : Mat β (q + n) (q + n)) :
    Grows (State.start options f problem curvature) fun s calls ws =>
      calls = 1 ∧ s.state.Ledger 0 ws ∧ s.state.converged = false := by
  refine Calls.bind (Calls.evaluate f _) fun values => ?_
  refine Calls.bind (Calls.recorded _) fun e => ?_
  cases (Cost.ofList? values : Option (Cost β (e + q))) with
  | none => exact Grows.throw _
  | some cost =>
    refine Calls.bind (Calls.report _) fun _ => Grows.pure ⟨rfl, ?_, rfl⟩
    exact State.ofCost_ledger _ _ _

/-- What a major iteration adds to a ledger. -/
theorem grows_stateStep {inner : InnerSolver α β e q n} {s : State α β e q n} {k : Nat}
    {ws : List (Nat × Warning)} (hs : s.Ledger k ws)
    (hinner : Grows (inner s.problem s.innerStart) fun r _ ws' =>
      ws' = [] ∧ r.warnings.Sublist [1, 2, 3]) :
    Grows (s.step options f inner) fun s' _ ws' => s'.Ledger (k + 1) (ws ++ ws') := by
  refine Grows.bind hinner ?_
  rintro r calls _ ⟨rfl, hr⟩
  refine Grows.bind (grows_announce _ _) ?_
  rintro _ _ ws' ⟨rfl, hws'⟩
  rw [hs.iteration] at hws'
  refine Calls.bind (Calls.evaluateSized f _ _) fun cost => ?_
  refine Calls.bind (Calls.report _) fun _ => Grows.pure ?_
  rw [List.nil_append, List.append_nil]
  exact hs.advance hr hws' cost

namespace Solver

variable {solver : Solver α β} {problem : Problem β 0 q n} {curvature : Mat β (q + n) (q + n)}

/-- Inner solves emit nothing themselves, and note warnings in the order of their numbers. -/
theorem grows_solve {K : Kernels β} {settings : Subproblem.Settings α} {problem : Problem β e q n}
    {entry : InnerStart α β e q n} :
    Grows (Subproblem.solve K f settings problem entry) fun r _ ws =>
      ws = [] ∧ r.warnings.Sublist [1, 2, 3] := by
  have hquiet : Grows (Subproblem.solve K f settings problem entry) fun _ _ ws => ws = [] := by
    refine Calls.bind Subproblem.calls_run fun d => ?_
    exact Calls.bind (Calls.report _) fun _ => Grows.pure rfl
  exact hquiet.and_ensures Subproblem.ensures_solve_warnings

/-- Every state of a run has a ledger. -/
theorem grows_after (k : Nat) :
    Grows (solver.after f problem curvature k) fun s _ ws => s.state.Ledger k ws := by
  induction k with
  | zero =>
    refine (grows_start problem curvature).mono ?_
    rintro s _ ws ⟨-, hs, -⟩
    exact hs
  | succ k ih =>
    refine Grows.bind ih ?_
    intro s calls ws hs
    refine Grows.bind (grows_stateStep hs grows_solve) ?_
    intro s' calls' ws' hs'
    refine Grows.pure ?_
    rwa [List.append_nil]

/-! ## The outcome of a run -/

/-- A run that returns has made at least one major iteration; it ends in a finished state,
all states before which were unfinished. -/
theorem outcome_runProblem (hlimit : 1 ≤ solver.options.majorLimit) {j j' : Journal α}
    {r : Result α β q n} (h : outcome (solver.runProblem f problem curvature) j = (.ok r, j')) :
    ∃ (e : Nat) (last : State α β e q n) (j₁ : Journal α),
      outcome (solver.after f problem curvature r.iterations) j = (.ok ⟨e, last⟩, j₁) ∧
      outcome last.result j₁ = (.ok r, j') ∧ 1 ≤ r.iterations ∧
      (r.iterations : Int) ≤ solver.options.majorLimit ∧
      last.finished solver.options = true ∧
      ∀ k < r.iterations, ∃ (s : State α β e q n) (j'' : Journal α),
        outcome (solver.after f problem curvature k) j = (.ok ⟨e, s⟩, j'') ∧
          s.finished solver.options = false := by
  obtain ⟨⟨e, first⟩, j₀, hfirst, h⟩ := outcome_bind_eq_ok_iff.mp h
  obtain ⟨last, j₁, hiterate, hresult⟩ := outcome_bind_eq_ok_iff.mp h
  have hstart : outcome (solver.after f problem curvature 0) j = (.ok ⟨e, first⟩, j₀) := hfirst
  obtain ⟨m, hm, hlast, hearlier, hend⟩ := outcome_iterate _ 0 first last j₀ j₁ hstart hiterate
  rw [Nat.zero_add] at hlast
  simp only [Nat.zero_add] at hearlier
  obtain ⟨_, _, -, hledger⟩ := grows_after m _ _ _ hlast
  obtain ⟨-, -, hr⟩ := outcome_result hresult
  have hiterations : r.iterations = m := by rw [hr, hledger.iteration]
  have hfinished : last.finished solver.options = true := by
    rcases hend with hend | rfl
    · exact hend
    · rw [State.finished, hledger.iteration, Bool.or_eq_true, decide_eq_true_iff]
      exact .inr (Int.self_le_toNat _)
  -- the first state is unfinished, so it is not the last one
  have hpos : m ≠ 0 := by
    rintro rfl
    obtain ⟨_, _, -, -, hledger₀, hconverged⟩ := grows_start problem curvature _ _ _ hlast
    rw [State.finished, hconverged, Bool.false_or, decide_eq_true_iff, hledger₀.iteration]
      at hfinished
    omega
  rw [hiterations]
  exact ⟨e, last, j₁, hlast, hresult, Nat.pos_of_ne_zero hpos, by omega, hfinished, hearlier⟩

/-- The bookkeeping of a run that returns: its number of major iterations, its history of
objectives, how it ended, and the warnings, which are emitted as they are noted. -/
theorem solve_ledger (hoptions : solver.options.check = .ok solver.options)
    {parameters : SpecInput β} {inequalities : Option (SpecInput β)}
    {curvature : Option (RawArray β)} {r : SizedResult α β} {j : Journal α}
    (h : outcome (solver.solve f parameters inequalities curvature) {} = (.ok r, j)) :
    1 ≤ r.result.iterations ∧ (r.result.iterations : Int) ≤ solver.options.majorLimit ∧
    r.result.history.length = r.result.iterations + 1 ∧
    r.result.history.getLast? = some r.result.value ∧
    (r.result.converged = true ↔ r.result.ending = .successful) ∧
    (r.result.converged = false →
      (r.result.iterations : Int) = solver.options.majorLimit) ∧
    (∃ (problem : Problem β 0 r.inequalities r.decisions)
      (first : Mat β (r.inequalities + r.decisions) (r.inequalities + r.decisions)),
      Problem.build parameters inequalities = .ok ⟨r.inequalities, r.decisions, problem⟩ ∧
      Problem.initialCurvature curvature (r.inequalities + r.decisions) = .ok first ∧
      (∀ k < r.result.iterations, ∃ s j', s.state.converged = false ∧
        outcome (solver.after f problem first k) {} = (.ok s, j')) ∧
      ∃ s j', s.state.converged = r.result.converged ∧
        outcome (solver.after f problem first r.result.iterations) {} = (.ok s, j')) ∧
    r.result.warnings.Pairwise (Prod.Lex (· < ·) (· < ·)) ∧
    (∀ w ∈ r.result.warnings, 1 ≤ w.1 ∧ w.1 ≤ r.result.iterations ∧ w.2 ∈ [1, 2, 3]) ∧
    List.Forall₂ (fun (text : String) (w : Nat × Int) => ∃ warning,
        Warning.ofCode w.2 = .ok warning ∧
          text = "Major iteration " ++ toString w.1 ++ ": " ++ warning.message)
      j.announcements r.result.warnings := by
  obtain ⟨⟨q, n, problem⟩, first, result, hbuild, hcurvature, hrun, rfl⟩ := outcome_solve h
  obtain ⟨e, last, j₁, hlast, hresult, hone, hlimit, hfinished, hearlier⟩ :=
    outcome_runProblem (Options.accepted_of_check hoptions).2.majorLimit hrun
  -- everything but how the run ended is the ledger of its last state
  obtain ⟨calls, ws, hgrown, hledger⟩ := grows_after _ _ _ _ hlast
  obtain ⟨-, hemitted, hr⟩ := outcome_result hresult
  have hunconverged : ∀ {e : Nat} {s : State α β e q n},
      s.finished solver.options = false → s.converged = false := by
    intro e s hs
    rw [State.finished, Bool.or_eq_false_iff] at hs
    exact hs.1
  have hends : result.converged = last.converged ∧ result.warnings = last.warnings ∧
      result.history = last.history ∧ result.value = last.objective ∧
      result.ending = if last.converged then .successful else .iterationsExhausted := by
    rw [hr]
    exact ⟨rfl, rfl, rfl, rfl, rfl⟩
  obtain ⟨hconverged, hwarnings, hhistory, hvalue, hending⟩ := hends
  refine ⟨hone, hlimit, ?_, ?_, ?_, fun hstopped => ?_,
    ⟨problem, first, hbuild, hcurvature, fun k hk => ?_, ⟨e, last⟩, j₁, hconverged.symm, hlast⟩,
    ?_, ?_, ?_⟩
  · rw [hhistory, hledger.length]
  · rw [hhistory, hvalue, hledger.last]
  · rw [hending, hconverged]
    cases last.converged <;> simp
  · rw [State.finished, ← hconverged, hstopped, Bool.false_or, decide_eq_true_iff,
      hledger.iteration] at hfinished
    exact le_antisymm hlimit hfinished
  · obtain ⟨s, j', hs, hunfinished⟩ := hearlier k hk
    exact ⟨⟨e, s⟩, j', hunconverged hunfinished, hs⟩
  · rw [hwarnings]
    exact hledger.increasing
  · rw [hwarnings]
    exact hledger.range
  · rw [hwarnings, ← hledger.emitted, Journal.announcements, hemitted, hgrown.emitted,
      List.forall₂_map_left_iff, List.forall₂_map_right_iff]
    exact List.forall₂_same.mpr fun w _ => ⟨w.2, w.2.ofCode_code, rfl⟩

/-- The run on the sample problem and its bookkeeping. -/
theorem solve_ledger_pin : ∃ (r : SizedResult ℝ ℝ) (j : Journal ℝ),
    outcome (sampleSolver.solve pinCost (.record sampleParameters)
      (some (.record sampleInequalities)) none) {} = (.ok r, j) ∧
    1 ≤ r.result.iterations ∧ r.result.history.length = r.result.iterations + 1 ∧
    r.result.ending = .successful := by
  obtain ⟨result, j, hrun, hconverged⟩ := pinCost_converges
  obtain ⟨hone, -, hlength, -, hending, -⟩ := solve_ledger sampleSolver_check hrun
  exact ⟨_, j, hrun, hone, hlength, hending.mp hconverged⟩

end Solver

end Sqp
