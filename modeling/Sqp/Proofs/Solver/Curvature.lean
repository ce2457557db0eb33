import Sqp.Proofs.Solver.Monotone
import Sqp.Proofs.Subproblem.Curvature

/-!
# Curvature along a run

In exact arithmetic a run that starts with a positive definite curvature, as it does by
default, keeps it positive definite, whatever the cost function and the kernels return.

- `State.Convex`: the curvature of a state is positive definite and its damping positive.
  Every accepted problem starts like this (`State.ofCost_convex`), and every major iteration
  keeps it (`State.advance_convex`, `Solver.confined_step_convex`).
- `Solver.after_posDef`: so it holds in every state, all matrices that are factorised on the
  way are positive definite, and how other matrices would be factorised does not matter.
  From any other curvature, the states after the first one have a symmetric one.
-/

namespace Sqp

variable {e q n : Nat} {options : Options ℝ}

/-! ## States -/

/-- The curvature is positive definite and the damping positive. -/
structure State.Convex (s : State ℝ ℝ e q n) : Prop where
  curvature : s.curvature.toMatrix.PosDef
  mu : 0 < s.mu

/-- At the start the damping is the number of decision variables. -/
theorem State.ofCost_convex {problem : Problem ℝ e q n} {curvature : Mat ℝ (q + n) (q + n)}
    {cost : Cost ℝ (e + q)} (hn : 0 < n) (hcurvature : curvature.toMatrix.PosDef) :
    (State.ofCost options problem curvature cost).Convex :=
  ⟨hcurvature, Nat.cast_pos.mpr hn⟩

/-- The damping is kept, or capped by the tolerance. -/
theorem Penalty.adapt_mu_pos {tolerance last norm : ℝ} {w : Penalty ℝ} (ht : 0 < tolerance)
    (hmu : 0 < w.mu) : 0 < (Penalty.adapt tolerance last norm w).mu := by
  have hrelax : 0 < (Penalty.relax tolerance norm w).mu := by
    unfold Penalty.relax
    split_ifs
    · rw [Scalar.keepMin_eq_min]
      exact lt_min hmu ht
    · exact hmu
  unfold Penalty.adapt Penalty.followTrend
  split_ifs <;> exact hrelax

/-- Damping is kept or lowered to the tolerance, so it stays positive. -/
theorem State.advance_mu_pos (s : State ℝ ℝ e q n) {r : InnerResult ℝ ℝ q n}
    (cost : Cost ℝ (e + q)) (ht : 0 < options.tolerance) (hmu : 0 < r.mu) :
    0 < (s.advance options r cost).mu := by
  unfold State.advance
  split_ifs
  · exact hmu
  · exact Penalty.adapt_mu_pos ht hmu

/-- A major iteration keeps the curvature of its inner solve, or the diagonal of it. -/
theorem State.advance_curvature_cases (s : State ℝ ℝ e q n) (r : InnerResult ℝ ℝ q n)
    (cost : Cost ℝ (e + q)) :
    (s.advance options r cost).curvature = r.curvature ∨
      (s.advance options r cost).curvature = Curvature.diagonalize r.curvature := by
  unfold State.advance
  split_ifs with hfree
  · exact .inl rfl
  · dsimp only
    split_ifs
    · exact .inr rfl
    · exact .inl rfl

/-- A major iteration drops entries of the curvature or keeps it; either way it stays positive
definite. -/
theorem State.advance_convex (s : State ℝ ℝ e q n) {r : InnerResult ℝ ℝ q n}
    (cost : Cost ℝ (e + q)) (ht : 0 < options.tolerance) (hcurvature : r.curvature.toMatrix.PosDef)
    (hmu : 0 < r.mu) : (s.advance options r cost).Convex where
  curvature := by
    rcases State.advance_curvature_cases s r cost with h | h <;> rw [h]
    · exact hcurvature
    · exact Curvature.diagonalize_posDef hcurvature
  mu := State.advance_mu_pos s cost ht hmu

theorem State.advance_isSymm (s : State ℝ ℝ e q n) {r : InnerResult ℝ ℝ q n}
    (cost : Cost ℝ (e + q)) (hcurvature : r.curvature.toMatrix.IsSymm) :
    (s.advance options r cost).curvature.toMatrix.IsSymm := by
  rcases State.advance_curvature_cases s r cost with h | h <;> rw [h]
  · exact hcurvature
  · exact Curvature.diagonalize_isSymm _

/-- Without a given curvature a run starts with the identity. -/
theorem Problem.initialCurvature_posDef {given : Option (RawArray ℝ)} {h : Mat ℝ n n}
    (hgiven : Problem.initialCurvature given n = .ok h) (hh : given = none ∨ h.toMatrix.PosDef) :
    h.toMatrix.PosDef := by
  rcases hh with rfl | hh
  · cases hgiven
    exact Mat.identity_posDef n
  · exact hh

/-! ## Runs -/

namespace Solver

variable {solver : Solver ℝ ℝ} {f : CostFunction ℝ} {c : {k : Nat} → Mat ℝ k k → Mat ℝ k k}

/-- The same solver with another factorisation. -/
def withCholesky (solver : Solver ℝ ℝ) (c : {k : Nat} → Mat ℝ k k → Mat ℝ k k) : Solver ℝ ℝ :=
  { solver with kernels := solver.kernels.withCholesky c }

/-- A major iteration keeps the curvature positive definite, and it depends on the
factorisation of positive definite matrices only. -/
theorem confined_step_convex (ht : 0 < solver.options.tolerance) {s : State ℝ ℝ e q n}
    (hs : s.Convex)
    (hc : ∀ a : Mat ℝ (q + n) (q + n), a.toMatrix.PosDef → c a = solver.kernels.cholesky a) :
    Confined (fun _ => True) (solver.step f s) ((solver.withCholesky c).step f s)
      State.Convex := by
  have hinner : Confined (fun _ => True)
      (Subproblem.solve solver.kernels f solver.settings s.problem s.innerStart)
      (Subproblem.solve (solver.kernels.withCholesky c) f solver.settings s.problem s.innerStart)
      fun r => r.curvature.toMatrix.PosDef ∧ 0 < r.mu :=
    Subproblem.confined_solve_convex ht hs.curvature hs.mu hc
  refine (confined_stateStep hinner (fun _ _ => trivial) fun _ _ => rfl).mono ?_
  rintro _ ⟨r, cost, ⟨hcurvature, hmu⟩, -, rfl⟩
  exact State.advance_convex s cost ht hcurvature hmu

/-- Curvature is symmetric after one major iteration, whatever it was before. -/
theorem ensures_step_isSymm (s : State ℝ ℝ e q n) :
    Ensures (solver.step f s) fun s' => s'.curvature.toMatrix.IsSymm := by
  refine (confined_stateStep Subproblem.ensures_solve_isSymm (fun _ _ => trivial)
    fun _ _ => rfl).mono ?_
  rintro _ ⟨r, cost, hr, -, rfl⟩
  exact State.advance_isSymm s cost hr

/-- States of a run have positive definite curvature, and depend on the factorisation of such
matrices only. -/
theorem confined_after_convex (ht : 0 < solver.options.tolerance) (hn : 0 < n)
    {problem : Problem ℝ 0 q n} {curvature : Mat ℝ (q + n) (q + n)}
    (hcurvature : curvature.toMatrix.PosDef)
    (hc : ∀ a : Mat ℝ (q + n) (q + n), a.toMatrix.PosDef → c a = solver.kernels.cholesky a)
    (k : Nat) :
    Confined (fun _ => True) (solver.after f problem curvature k)
      ((solver.withCholesky c).after f problem curvature k) fun s => s.state.Convex := by
  refine confined_after ?_ (fun s hs => confined_step_convex ht hs hc) k
  refine (confined_start trivial fun _ _ => rfl).mono ?_
  rintro s ⟨cost, -, hs⟩
  rw [hs]
  exact State.ofCost_convex hn hcurvature

/-- Whatever the cost function and the kernels return. From the identity, or from a positive
definite curvature that is given: the curvature of every state is positive definite and its
damping positive, every matrix that the next major iteration may hand to the factorisation is
positive definite, and a factorisation that does the same to positive definite matrices leads
to the same run, failures included. From any curvature: that of every state after at least
one major iteration is symmetric. -/
theorem after_posDef (hoptions : solver.options.check = .ok solver.options)
    {parameters : SpecInput ℝ} {inequalities : Option (SpecInput ℝ)} {sized : SizedProblem ℝ}
    (hproblem : Problem.build parameters inequalities = .ok sized) {given : Option (RawArray ℝ)}
    {curvature : Mat ℝ (sized.inequalities + sized.decisions)
      (sized.inequalities + sized.decisions)}
    (hgiven : Problem.initialCurvature given (sized.inequalities + sized.decisions) =
      .ok curvature) (f : CostFunction ℝ) :
    ((given = none ∨ curvature.toMatrix.PosDef) →
      (∀ k j s j', outcome (solver.after f sized.problem curvature k) j = (.ok s, j') →
        s.state.curvature.toMatrix.PosDef ∧ 0 < s.state.mu ∧
        ∀ a, Subproblem.Factorises solver.kernels f solver.settings s.state.problem
          s.state.innerStart a → a.toMatrix.PosDef) ∧
      ∀ c : {k : Nat} → Mat ℝ k k → Mat ℝ k k,
        (∀ a : Mat ℝ (sized.inequalities + sized.decisions)
          (sized.inequalities + sized.decisions),
          a.toMatrix.PosDef → c a = solver.kernels.cholesky a) →
        ∀ k j, outcome (solver.after f sized.problem curvature k) j =
          outcome ((solver.withCholesky c).after f sized.problem curvature k) j) ∧
    ∀ k j s j', outcome (solver.after f sized.problem curvature (k + 1)) j = (.ok s, j') →
      s.state.curvature.toMatrix.IsSymm := by
  have ht := Options.tolerance_pos hoptions
  refine ⟨fun hstart => ?_, fun k j s j' h => ?_⟩
  · have hn := Problem.decisions_pos_of_build hproblem
    have hcurvature := Problem.initialCurvature_posDef hgiven hstart
    refine ⟨fun k j s j' h => ?_, fun c hc k =>
      (confined_after_convex ht hn hcurvature hc k).same⟩
    have hs : s.state.Convex := (confined_after_convex ht hn hcurvature
      (c := solver.kernels.cholesky) (fun _ _ => rfl) k).of_outcome h
    exact ⟨hs.curvature, hs.mu, fun a ha => ha.posDef ht hs.curvature hs.mu⟩
  · obtain ⟨s₀, j₁, -, h⟩ := outcome_bind_eq_ok_iff.mp h
    obtain ⟨s₁, j₂, hstep, h⟩ := outcome_bind_eq_ok_iff.mp h
    cases h
    exact (ensures_step_isSymm s₀.state).of_outcome hstep

/-- Three major iterations for the squared sum, from the identity, and a fourth one that has
something to factorise. -/
theorem after_posDef_squaredSum : ∃ s j',
    outcome (sampleSolver.after squaredSum freeProblem (Mat.identity ℝ 1) 3) {} = (.ok s, j') ∧
    s.state.curvature.toMatrix.PosDef ∧ 0 < s.state.mu ∧
    s.state.curvature.toMatrix.IsSymm ∧
    ∃ a, Subproblem.Factorises sampleSolver.kernels squaredSum sampleSolver.settings
      s.state.problem s.state.innerStart a ∧ a.toMatrix.PosDef := by
  have hbuild : Problem.build (.record (.unbounded [3.0])) none = .ok ⟨0, 1, freeProblem⟩ := rfl
  have hidentity : Problem.initialCurvature none (0 + 1) = .ok (Mat.identity ℝ (0 + 1)) := rfl
  obtain ⟨hposDef, hsymm⟩ := after_posDef sampleSolver_check hbuild hidentity squaredSum
  -- the fourth major iteration prepares an inner solve
  obtain ⟨_, _, hfourth⟩ := squaredSum_returns 4
  obtain ⟨s, j', h, hfourth⟩ := outcome_bind_eq_ok_iff.mp hfourth
  obtain ⟨_, _, hstep, -⟩ := outcome_bind_eq_ok_iff.mp hfourth
  obtain ⟨_, _, hsolve, -⟩ := outcome_bind_eq_ok_iff.mp hstep
  obtain ⟨_, _, hrun, -⟩ := outcome_bind_eq_ok_iff.mp hsolve
  obtain ⟨way, j₁, hprepare, -⟩ := outcome_bind_eq_ok_iff.mp hrun
  obtain ⟨hcurvature, hmu, hfactorised⟩ := (hposDef (.inl rfl)).1 3 {} s j' h
  have hfirst : Subproblem.Factorises sampleSolver.kernels squaredSum sampleSolver.settings
      s.state.problem s.state.innerStart _ :=
    ⟨way, j', j₁, hprepare, 0, [], {}, {}, rfl, way.start, List.mem_cons_self,
      way.start.gradient, 0, rfl⟩
  exact ⟨s, j', h, hcurvature, hmu, hsymm 2 {} s j' h, _, hfirst, hfactorised _ hfirst⟩

end Solver

end Sqp
