import Sqp.Proofs.Solver.Ledger
import Sqp.Proofs.Solver.Penalty
import Sqp.Proofs.Subproblem.Failures

/-!
# Runs with too many equality constraints

Whether the least-squares problems of a run have enough rows is decided by its first cost
vector. Nothing compares its length with the number of decision variables beforehand.

- `Solver.failsAlike_runProblem`: with at most as many equality constraints as decision
  variables, a run does not depend on the factors of matrices with too few rows, and does
  not fail for the lack of rows.
- `Solver.length_of_runProblem`: a run that returns has at most as many.
- `Solver.solve_withWide`: both, for runs from specifications.
- `Solver.solve_crowded`: a run with two equality constraints in one variable.
-/

namespace Sqp

variable {α β : Type} {e q n : Nat}

/-- A number that names no warning is refused as such. -/
theorem cause_of_ofCode {code : Int} {cause : Error} (h : Warning.ofCode code = .error cause) :
    cause = .unknownWarning code := by
  unfold Warning.ofCode at h
  split at h <;> cases h
  rfl

/-- Warnings are announced one by one, and a number that names none ends it. -/
theorem failsAlike_announce {E : Error → Prop} (hwarning : ∀ code, E (.unknownWarning code))
    (iteration : Nat) (codes : List Int) :
    FailsAlike E (announce iteration codes : Recorded α Unit) (announce iteration codes) := by
  induction codes with
  | nil => exact FailsAlike.pure ()
  | cons code codes ih =>
    refine FailsAlike.bind (FailsAlike.recorded rfl fun cause h => ?_) fun w => ?_
    · rw [cause_of_ofCode h]
      exact hwarning code
    · exact FailsAlike.bind (FailsAlike.emit iteration w) fun _ => ih

theorem failsAlike_result {E : Error → Prop} (s : State α β e q n) :
    FailsAlike E s.result s.result := by
  refine FailsAlike.bind FailsAlike.get fun j => ?_
  exact FailsAlike.ite (FailsAlike.bind (FailsAlike.report _) fun _ => FailsAlike.pure _)
    (FailsAlike.bind (FailsAlike.report _) fun _ => FailsAlike.pure _)

variable [Scalar α] [Scalar β] [Storage α β] {f : CostFunction α} {options : Options α}

/-- A run may be refused at its start because of the length of its first cost vector. -/
theorem failsAlike_start (problem : Problem β 0 q n) (curvature : Mat β (q + n) (q + n)) :
    FailsAlike (Determined f) (State.start options f problem curvature)
      (State.start options f problem curvature) := by
  refine FailsAlike.bind (FailsAlike.evaluate Determined.of_cost (fun _ _ _ h => nomatch h) _)
    fun values => ?_
  refine FailsAlike.bind (FailsAlike.recorded rfl fun cause h => ?_) fun e => ?_
  · unfold equalityCount at h
    split_ifs at h
    · cases h
      exact fun _ _ h => nomatch h
    · cases h
  · cases (Cost.ofList? values : Option (Cost β (e + q))) with
    | none => exact FailsAlike.throw fun _ _ h => nomatch h
    | some cost => exact FailsAlike.bind (FailsAlike.report _) fun _ => FailsAlike.pure _

/-- A major iteration fails where its inner solve or the cost function does. -/
theorem failsAlike_stateStep {inner inner' : InnerSolver α β e q n} {s : State α β e q n}
    (hinner : FailsAlike (Determined f) (inner s.problem s.innerStart)
      (inner' s.problem s.innerStart)) :
    FailsAlike (Determined f) (s.step options f inner) (s.step options f inner') := by
  refine FailsAlike.bind hinner fun r => ?_
  refine FailsAlike.bind (failsAlike_announce (fun _ _ _ h => nomatch h) _ _) fun _ => ?_
  refine FailsAlike.bind
    (FailsAlike.evaluateSized Determined.of_cost (fun _ _ _ h => nomatch h) _ _) fun cost => ?_
  exact FailsAlike.bind (FailsAlike.report _) fun _ => FailsAlike.pure _

namespace Solver

variable {solver : Solver α β}

/-- The solver with other factors for matrices with fewer rows than columns. -/
def withWide (solver : Solver α β) (wide : {m k : Nat} → Mat β m k → Mat β m k × Mat β k k) :
    Solver α β :=
  { solver with kernels := solver.kernels.withWide wide }

variable (wide : {m k : Nat} → Mat β m k → Mat β m k × Mat β k k)

/-- Rounds of a run fail alike as long as each inner solve does. -/
theorem failsAlike_iterate (hen : e ≤ n) :
    ∀ (left : Nat) (s : State α β e q n),
      FailsAlike (Determined f) (solver.iterate f left s)
        ((solver.withWide wide).iterate f left s) := by
  intro left
  induction left with
  | zero => exact fun _ => FailsAlike.pure _
  | succ left ih =>
    intro s
    refine FailsAlike.ite (FailsAlike.pure _) ?_
    exact FailsAlike.bind
      (failsAlike_stateStep (Subproblem.failsAlike_solve wide hen _ _ _)) fun s' => ih s'

variable {problem : Problem β 0 q n} {curvature : Mat β (q + n) (q + n)}

/-- The cost vector at the start has room for all constraints of a run. -/
theorem ensures_after_length (k : Nat) :
    Ensures (solver.after f problem curvature k) fun s => ∃ values,
      f ((back problem.parameters).toList.map load) = .ok values ∧
        values.length = 1 + s.equalities + q := by
  refine confined_after (P := fun _ => True) ?_ (fun s hs => ?_) k
  · refine (confined_start trivial fun _ _ => rfl).mono fun s hs => ?_
    obtain ⟨cost, hcost, -⟩ := hs
    exact ⟨_, hcost, by rw [List.length_map, Cost.length_toList, Nat.add_assoc]⟩
  · exact (Ensures.any _).mono fun _ _ => hs

/-- The first cost vector decides whether all least-squares problems of a run have enough rows. -/
theorem failsAlike_runProblem
    (hlength : ∀ values, f ((back problem.parameters).toList.map load) = .ok values →
      values.length ≤ 1 + q + n) :
    FailsAlike (Determined f) (solver.runProblem f problem curvature)
      ((solver.withWide wide).runProblem f problem curvature) := by
  have hstart : Ensures (solver.after f problem curvature 0) _ := ensures_after_length 0
  refine FailsAlike.bind_ensures (failsAlike_start problem curvature) hstart
    fun first hfirst => ?_
  obtain ⟨values, hvalues, hequalities⟩ := hfirst
  have hen : first.equalities ≤ n := by
    have := hlength values hvalues
    omega
  exact FailsAlike.bind (failsAlike_iterate wide hen _ _) fun _ => failsAlike_result _

/-- With more equality constraints than decision variables there is no major iteration. -/
theorem ensures_step_crowded (hne : n < e) (hlimit : 1 ≤ solver.options.minorLimit)
    (s : State α β e q n) : Ensures (solver.step f s) fun _ => False := by
  have hlimit' : 0 < solver.settings.minorLimit := by
    show 0 < solver.options.minorLimit.toNat
    omega
  exact Confined.bind (Subproblem.ensures_solve_crowded hne hlimit' _ _) fun _ h => h.elim

/-- A run that returns has made a major iteration, so its first cost vector was short enough. -/
theorem length_of_runProblem (hoptions : solver.options.check = .ok solver.options)
    {j j' : Journal α} {r : Result α β q n}
    (h : outcome (solver.runProblem f problem curvature) j = (.ok r, j')) :
    ∃ values, f ((back problem.parameters).toList.map load) = .ok values ∧
      values.length ≤ 1 + q + n := by
  have haccepted := (Options.accepted_of_check hoptions).2
  obtain ⟨e, last, j₁, hlast, -, hone, -⟩ := outcome_runProblem haccepted.majorLimit h
  obtain ⟨values, hvalues, hlength⟩ := (ensures_after_length _).of_outcome hlast
  -- the last major iteration had an answer
  have hen : e ≤ n := by
    obtain ⟨k, hk⟩ := Nat.exists_eq_succ_of_ne_zero (Nat.ne_of_gt hone)
    rw [hk] at hlast
    obtain ⟨s, j₂, -, hlast⟩ := outcome_bind_eq_ok_iff.mp hlast
    obtain ⟨s', j₃, hstep, hlast⟩ := outcome_bind_eq_ok_iff.mp hlast
    cases hlast
    exact not_lt.mp fun hne => (ensures_step_crowded hne haccepted.minorLimit _).of_outcome hstep
  refine ⟨values, hvalues, ?_⟩
  change values.length = 1 + e + q at hlength
  omega

/-- A run from accepted specifications is one on the problem that they make. -/
theorem solve_eq_runProblem {parameters : SpecInput β} {inequalities : Option (SpecInput β)}
    {given : Option (RawArray β)}
    (hbuild : Problem.build parameters inequalities = .ok ⟨q, n, problem⟩)
    (hcurvature : Problem.initialCurvature given (q + n) = .ok curvature) :
    solver.solve f parameters inequalities given =
      (do return ⟨q, n, ← solver.runProblem f problem curvature⟩) := by
  unfold solve
  rw [hbuild]
  show (recorded (Problem.initialCurvature given (q + n)) >>= _) = _
  rw [hcurvature]
  rfl

/-- Runs on an accepted problem, with accepted options. If the first cost vector has at most
as many equality values as there are decision variables, then all least-squares problems of
the run have enough rows: the run does not depend on the factors of other matrices, and it
does not fail for the lack of rows, unless the cost function itself does. If it has more of
them, the run does not return. -/
theorem solve_withWide (hoptions : solver.options.check = .ok solver.options)
    {parameters : SpecInput β} {inequalities : Option (SpecInput β)}
    {given : Option (RawArray β)}
    (hbuild : Problem.build parameters inequalities = .ok ⟨q, n, problem⟩)
    (hcurvature : Problem.initialCurvature given (q + n) = .ok curvature) :
    ((∀ values, f ((back problem.parameters).toList.map load) = .ok values →
        values.length ≤ 1 + q + n) →
      (∀ wide j, outcome ((solver.withWide wide).solve f parameters inequalities given) j =
        outcome (solver.solve f parameters inequalities given) j) ∧
      ∀ j rows columns, (outcome (solver.solve f parameters inequalities given) j).1 =
        .error (.underdetermined rows columns) →
          ∃ x, f x = .error (.underdetermined rows columns)) ∧
    ∀ j j' r, outcome (solver.solve f parameters inequalities given) j = (.ok r, j') →
      ∃ values, f ((back problem.parameters).toList.map load) = .ok values ∧
        values.length ≤ 1 + q + n := by
  refine ⟨fun hlength => ?_, fun j j' r h => ?_⟩
  · have hsolve : ∀ wide : {m k : Nat} → Mat β m k → Mat β m k × Mat β k k,
        FailsAlike (Determined f) (solver.solve f parameters inequalities given)
          ((solver.withWide wide).solve f parameters inequalities given) := by
      intro wide
      rw [solve_eq_runProblem hbuild hcurvature, solve_eq_runProblem hbuild hcurvature]
      exact FailsAlike.bind (failsAlike_runProblem wide hlength) fun _ => FailsAlike.pure _
    exact ⟨fun wide j => ((hsolve wide).same j).symm,
      fun j rows columns h => (hsolve fun a => (a, Mat.ofFn fun _ _ => 0)).cause j _ h _ _ rfl⟩
  · obtain ⟨sized, first, result, hbuild', -, hrun, -⟩ := outcome_solve h
    cases hbuild.symm.trans hbuild'
    exact length_of_runProblem hoptions hrun

theorem solve_withWide_pin : ∃ (result : Result ℝ ℝ 1 1) (j' : Journal ℝ),
    (∀ wide : {m k : Nat} → Mat ℝ m k → Mat ℝ m k × Mat ℝ k k,
      outcome ((sampleSolver.withWide wide).solve pinCost (.record sampleParameters)
        (some (.record sampleInequalities)) none) {} = (.ok ⟨1, 1, result⟩, j')) ∧
    result.converged = true ∧
    ∃ values, pinCost ((back sampleProblem.parameters).toList.map load) = .ok values ∧
      values.length ≤ 1 + 1 + 1 := by
  have hstart : pinCost ((back sampleProblem.parameters).toList.map load) =
      .ok pinStart.toList := by
    rw [map_load_real]
    exact pinCost_start
  obtain ⟨henough, hreturned⟩ :=
    solve_withWide (f := pinCost) sampleSolver_check build_sample
      (show Problem.initialCurvature none (1 + 1) = .ok _ from rfl)
  obtain ⟨result, j', hrun, hconverged⟩ := pinCost_converges
  obtain ⟨hsame, -⟩ := henough fun values hvalues => by
    rw [hstart, Except.ok.injEq] at hvalues
    rw [← hvalues, Cost.length_toList]
  exact ⟨result, j', fun wide => (hsame wide {}).trans hrun, hconverged, hreturned {} j' _ hrun⟩

/-! ## A run with more equality constraints than variables -/

/-- A constant objective, and two equality constraints that ask all variables to vanish. -/
def crowdedCost : CostFunction Float := fun x => .ok (0.0 :: x ++ x)

/-- One variable without bounds that starts at zero. -/
def crowdedParameters : SpecInput Cell := .record (.unbounded [⟨0.0⟩])

def standardDouble : Solver Float Cell := ⟨.standard, .standard⟩

/-- The failure of a least-squares problem of the given shape. -/
def underdeterminedBy (rows columns : Nat) : Error → Bool
  | .underdetermined r c => r == rows && c == columns
  | _ => false

theorem eq_underdetermined {rows columns : Nat} {cause : Error}
    (h : underdeterminedBy rows columns cause = true) : cause = .underdetermined rows columns := by
  unfold underdeterminedBy at h
  split at h
  · rw [Bool.and_eq_true, beq_iff_eq, beq_iff_eq] at h
    rw [h.1, h.2]
  · cases h

/-- The options and the specification are accepted, the start is feasible, and the first
Newton step asks for a least-squares solution with one row and two columns. -/
theorem solve_crowded :
    standardDouble.options.check = .ok standardDouble.options ∧
    (∃ problem, Problem.build crowdedParameters none = .ok ⟨0, 1, problem⟩ ∧
      crowdedCost ((back problem.parameters).toList.map load) = .ok [0.0, 0.0, 0.0]) ∧
    ∃ j', outcome (standardDouble.solve crowdedCost crowdedParameters none none) {} =
      (.error (.underdetermined 1 2), j') := by
  refine ⟨rfl, ⟨_, rfl, rfl⟩, ?_⟩
  have hfails : (match (outcome (standardDouble.solve crowdedCost crowdedParameters none none)
      {}).1 with
    | .error cause => underdeterminedBy 1 2 cause
    | .ok _ => false) = true := by
    decide +kernel
  rcases hrun : outcome (standardDouble.solve crowdedCost crowdedParameters none none) {}
    with ⟨cause | r, j'⟩ <;> rw [hrun] at hfails
  · rw [eq_underdetermined hfails]
    exact ⟨j', rfl⟩
  · cases hfails

end Solver

end Sqp
