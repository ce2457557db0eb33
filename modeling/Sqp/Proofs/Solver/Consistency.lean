import Sqp.Proofs.Residuals
import Sqp.Proofs.Solver.Feasibility

/-!
# States are consistent

The data of every state of a run belong together, for any scalars and whatever the inner
solvers return, as long as their vectors have the right lengths.

- `InnerSolver.Shaped`: an inner solver whose answers have as many multipliers as a state;
  `Subproblem.solve_shaped` says that the standard one is of this kind.
- `State.afterWith_consistent`: after any number of major iterations the cost vector is the
  one at the decision variables, all lengths are right, and the constraint norm is that of
  the residuals from which the next inner solve starts.
-/

namespace Sqp

variable {α β : Type} {e q n : Nat}

/-! ## Shapes -/

/-- Given as many multipliers as a state has, an inner solver answers with as many: one for
each constraint, or an idle one. -/
def InnerSolver.Shaped (inner : InnerSolver α β e q n) : Prop :=
  ∀ problem entry, entry.multipliers.length = max (e + q) 1 →
    Ensures (inner problem entry) fun r => r.multipliers.length = max (e + q) 1

variable [Scalar α] [Scalar β] [Storage α β]

theorem Subproblem.solve_shaped (K : Kernels β) (f : CostFunction α) (settings : Settings α) :
    InnerSolver.Shaped (solve K f settings : InnerSolver α β e q n) := by
  intro problem entry hentry
  refine Confined.bind (Ensures.any _) fun d _ => Confined.bind (Confined.report _) fun _ _ =>
    Confined.pure ?_
  show (d.multipliers entry.multipliers).length = _
  unfold Descent.multipliers
  split_ifs with hfree
  · rw [List.length_map, hentry]
  · rw [Vector.length_toList]
    omega

variable {f : CostFunction α} {options : Options α}

/-- A major iteration keeps multipliers or resets them, but never their number. -/
theorem State.length_advance_multipliers (s : State α β e q n) (r : InnerResult α β q n)
    (cost : Cost β (e + q)) :
    (s.advance options r cost).multipliers.length = r.multipliers.length := by
  unfold State.advance
  dsimp only
  split_ifs
  · rfl
  · exact List.length_map _
  · rfl

/-! ## Runs -/

/-- The data of a state of a run, whatever the inner solvers of its major iterations do:
the cost vector is what the cost function gives at the decision variables; all vectors
have their lengths; and the constraint norm is that of the residuals at the stored
parameters, measured there on lists or, as the next inner solve does, on vectors. -/
theorem State.afterWith_consistent {inner : Nat → (e : Nat) → InnerSolver α β e q n}
    (hinner : ∀ k e, InnerSolver.Shaped (inner k e)) {problem : Problem β 0 q n}
    {curvature : Mat β (q + n) (q + n)} {k : Nat} {j j' : Journal α} {s : SizedState α β q n}
    (h : outcome (State.afterWith options f inner problem curvature k) j = (.ok s, j')) :
    f ((back s.state.parameters).toList.map load) = .ok (s.state.cost.toList.map load) ∧
    s.state.cost.toList.length = 1 + s.equalities + q ∧
    s.state.objective = load s.state.cost.objective ∧
    s.state.parameters.toList.length = q + n ∧
    s.state.multipliers.length = max (s.equalities + q) 1 ∧
    s.state.curvature.toList.map (fun row => row.toList.length) =
      List.replicate (q + n) (q + n) ∧
    ∃ residuals : Vector β (s.equalities + q),
      measureSlacks s.equalities q s.state.cost.toList s.state.parameters.toList =
        .ok (s.state.cost.objective :: residuals.toList) ∧
      residuals = slackResiduals s.state.innerStart.cost.constraints
        s.state.innerStart.parameters ∧
      s.state.constraintNorm =
        if s.equalities + q = 0 then 0 else load (euclideanNorm residuals) := by
  have hrun : Ensures (State.afterWith options f inner problem curvature k) fun s =>
      s.state.Consistent f ∧ s.state.multipliers.length = max (s.equalities + q) 1 := by
    -- consistency is what one major iteration keeps; the number of multipliers comes from the
    -- inner solver
    refine confined_afterWith ?_ (fun k s hs => ?_) k
    · refine (confined_start trivial fun _ _ => rfl).mono ?_
      rintro s ⟨cost, hcost, hs⟩
      rw [hs]
      exact ⟨State.ofCost_consistent hcost, List.length_replicate⟩
    · refine (confined_stateStep (hinner k s.equalities s.state.problem s.state.innerStart hs.2)
        (fun _ _ => trivial) fun _ _ => rfl).mono ?_
      rintro _ ⟨r, cost, hr, hcost, rfl⟩
      exact ⟨State.advance_consistent hs.1 hcost,
        (State.length_advance_multipliers s.state r cost).trans hr⟩
  obtain ⟨hconsistent, hmultipliers⟩ := hrun.of_outcome h
  refine ⟨hconsistent.cost, ?_, hconsistent.objective, Vector.length_toList, hmultipliers, ?_,
    slackResiduals s.state.cost.constraints s.state.parameters, measureSlacks_toList _ _, rfl,
    hconsistent.norm⟩
  · rw [Cost.length_toList, Nat.add_assoc]
  · refine List.eq_replicate_iff.mpr ⟨?_, ?_⟩
    · rw [List.length_map, Vector.length_toList]
    · rintro _ hrow
      obtain ⟨row, -, rfl⟩ := List.mem_map.mp hrow
      exact Vector.length_toList

namespace Solver

/-- A major iteration with an equality and an inequality constraint. -/
theorem afterWith_consistent_pin : ∃ (s : State ℝ ℝ 1 1 1) (j' : Journal ℝ),
    outcome (State.afterWith sampleSolver.options pinCost
      (fun _ _ => Subproblem.solve sampleSolver.kernels pinCost sampleSolver.settings)
      sampleProblem (Mat.identity ℝ 2) 1) {} = (.ok ⟨1, s⟩, j') ∧
    pinCost (back s.parameters).toList = .ok s.cost.toList ∧
    s.multipliers.length = 2 ∧
    s.constraintNorm = euclideanNorm (slackResiduals s.cost.constraints s.parameters) := by
  obtain ⟨s, j', h⟩ := pinCost_firstStep
  rw [after_eq_afterWith] at h
  obtain ⟨hcost, -, -, -, hmultipliers, -, residuals, -, rfl, hnorm⟩ :=
    State.afterWith_consistent (fun _ _ => Subproblem.solve_shaped _ _ _) h
  rw [map_load_real, map_load_real] at hcost
  exact ⟨s, j', h, hcost, hmultipliers, hnorm⟩

end Solver

end Sqp
