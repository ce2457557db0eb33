import Sqp.Proofs.Acceptance
import Sqp.Proofs.Solver.States

/-!
# Penalty and damping near feasibility

A constraint norm under ten tolerances drops the penalty and caps the damping, and then the
penalty follows the trend of the norm. So a tiny norm that has grown more than tenfold
carries a penalty nevertheless. This is said for all lawful scalars, any cost function and
whatever the inner solvers answer.

- `Penalty.adapt_mu`, `Penalty.adapt_rho`: the adaptation to a norm under ten tolerances.
- `State.advance_adapt`: a major iteration adapts penalty and damping to its norms.
- `State.afterWith_penalty`: penalty and damping of every state after a major iteration
  whose norm is under ten tolerances.
- `State.afterWith_penalty_kept`: states close to feasibility, one that has a penalty, and
  one whose damping is undefined.
-/

namespace Sqp

variable {α β : Type} [Scalar α] [Scalar β] [Storage α β] {e q n : Nat}

namespace Penalty

variable {tolerance last norm : α}

/-- The trend of the norm leaves the damping alone. -/
@[simp] theorem followTrend_mu (w : Penalty α) : (followTrend tolerance last norm w).mu = w.mu := by
  unfold followTrend
  split_ifs <;> rfl

theorem adapt_mu (hnorm : norm < 10.0 * tolerance) (w : Penalty α) :
    (adapt tolerance last norm w).mu = Scalar.keepMin w.mu tolerance := by
  rw [adapt, followTrend_mu, relax, if_pos hnorm]

/-- The penalty that was dropped comes back if the norm has grown more than tenfold. -/
theorem adapt_rho [Scalar.Lawful α] (hnorm : norm < 10.0 * tolerance) (w : Penalty α) :
    (adapt tolerance last norm w).rho = if 10.0 * last < norm ∧ ¬ norm < 5.0 * last then
      5.0 * Scalar.keepMax 0 (Scalar.sqrt tolerance) else 0 := by
  rw [adapt, relax, if_pos hnorm, followTrend]
  by_cases hfell : norm < 5.0 * last
  · rw [if_pos hfell, if_neg fun h => h.2 hfell]
    exact Scalar.Lawful.zero_div_five
  · rw [if_neg hfell]
    by_cases hgrew : 10.0 * last < norm
    · rw [if_pos hgrew, if_pos ⟨hgrew, hfell⟩]
    · rw [if_neg hgrew, if_neg fun h => hgrew h.1]

end Penalty

namespace State

variable {options : Options α} {f : CostFunction α}

/-- Penalty and damping after a major iteration, in terms of the norms before and after. -/
theorem advance_adapt (options : Options α) (hconstrained : 0 < e + q) (s : State α β e q n)
    (r : InnerResult α β q n) (cost : Cost β (e + q)) :
    let weights := Penalty.adapt options.tolerance s.constraintNorm
      (s.advance options r cost).constraintNorm ⟨s.rho, r.mu⟩
    (s.advance options r cost).rho = weights.rho ∧ (s.advance options r cost).mu = weights.mu := by
  unfold State.advance
  split_ifs with hfree
  · omega
  · exact ⟨rfl, rfl⟩

/-- Penalty and damping of a state after at least one major iteration on a problem with
constraints, if its norm is under ten tolerances: the damping is at most the tolerance
unless it is undefined, and there is no penalty unless the norm has grown more than tenfold
since the state before. -/
theorem afterWith_penalty [Scalar.Lawful α] (hoptions : options.check = .ok options)
    {inner : Nat → (e : Nat) → InnerSolver α β e q n} {problem : Problem β 0 q n}
    {curvature : Mat β (q + n) (q + n)} {k : Nat} {j j' : Journal α} {s : SizedState α β q n}
    (h : outcome (afterWith options f inner problem curvature (k + 1)) j = (.ok s, j'))
    (hconstrained : 0 < s.equalities + q)
    (hnorm : s.state.constraintNorm < 10.0 * options.tolerance) :
    (Scalar.Defined s.state.mu → s.state.mu ≤ options.tolerance) ∧
    ∃ (before : State α β s.equalities q n) (j₀ : Journal α),
      outcome (afterWith options f inner problem curvature k) j = (.ok ⟨s.equalities, before⟩, j₀) ∧
      s.state.rho =
        if 10.0 * before.constraintNorm < s.state.constraintNorm ∧
          ¬ s.state.constraintNorm < 5.0 * before.constraintNorm
        then 5.0 * Scalar.keepMax 0 (Scalar.sqrt options.tolerance) else 0 := by
  obtain ⟨⟨e, before⟩, j₀, hbefore, h⟩ := outcome_bind_eq_ok_iff.mp h
  obtain ⟨s', j₁, hstep, h⟩ := outcome_bind_eq_ok_iff.mp h
  cases h
  obtain ⟨r, cost, -, -, rfl⟩ :=
    (confined_stateStep (Ensures.any _) (fun _ _ => trivial) fun _ _ => rfl).of_outcome hstep
  obtain ⟨hrho, hmu⟩ := advance_adapt options hconstrained before r cost
  refine ⟨fun hdefined => ?_, before, j₀, hbefore, ?_⟩
  · dsimp only at hnorm hdefined ⊢
    rw [hmu, Penalty.adapt_mu hnorm] at hdefined ⊢
    have htolerance := (Options.accepted_of_check hoptions).2.tolerance
    exact Scalar.keepMin_le (Scalar.defined_of_lt htolerance).2 hdefined
  · rw [hrho, Penalty.adapt_rho hnorm]

end State

/-! ## Two runs close to feasibility -/

/-- A constant objective and equality constraints that ask all variables to vanish. -/
def vanishingCost : CostFunction Float := fun x => .ok (0.0 :: x)

/-- One free variable that starts at zero. -/
def loneProblem : Problem Cell 0 0 1 := ⟨⟨#[⟨0.0⟩], rfl⟩, ⟨#[none], rfl⟩, .unbounded⟩

/-- An inner solver that always answers with the same point and damping and keeps all else. -/
def goTo (x mu : Float) (e : Nat) : InnerSolver Float Cell e 0 1 := fun _ entry =>
  pure {
    parameters := ⟨#[⟨x⟩], rfl⟩
    multipliers := entry.multipliers
    curvature := entry.curvature
    mu := mu
    reduction := 0
    minorIterations := 1
    warnings := [] }

/-- A run that starts at a feasible point and goes to `x` in its first major iteration. -/
def leavingRun (x mu : Float) (k : Nat) :
    Except Error (SizedState Float Cell 0 1) × Journal Float :=
  outcome (State.afterWith .standard vanishingCost (fun _ => goTo x mu) loneProblem
    (Mat.identity Cell 1) k) {}

/-- A run that gives an answer with a property that can be tested. -/
theorem exists_leavingRun (x mu : Float) (k : Nat) {p : SizedState Float Cell 0 1 → Bool}
    (h : (leavingRun x mu k).1.toOption.any p = true) :
    ∃ s j', leavingRun x mu k = (.ok s, j') ∧ p s = true := by
  rcases hrun : leavingRun x mu k with ⟨cause | s, j'⟩
  · rw [hrun] at h
    cases h
  · rw [hrun] at h
    exact ⟨s, j', rfl, h⟩

namespace State

/-- A major iteration that stays where the one before has gone, half as far from
feasibility as still counts as feasible. -/
theorem afterWith_penalty_leaving : ∃ s j', leavingRun 5e-8 1.0 2 = (.ok s, j') ∧
    s.state.constraintNorm < 10.0 * (Options.standard : Options Float).tolerance ∧
    s.state.mu ≤ (Options.standard : Options Float).tolerance ∧
    ∃ before j₀, leavingRun 5e-8 1.0 1 = (.ok ⟨s.equalities, before⟩, j₀) ∧
      s.state.rho =
        if 10.0 * before.constraintNorm < s.state.constraintNorm ∧
          ¬ s.state.constraintNorm < 5.0 * before.constraintNorm
        then 5.0 * Scalar.keepMax 0 (Scalar.sqrt (Options.standard : Options Float).tolerance)
        else 0 := by
  obtain ⟨s, j', hrun, hs⟩ := exists_leavingRun 5e-8 1.0 2 (p := fun s =>
    decide (0 < s.equalities + 0 ∧ Scalar.Defined s.state.mu ∧
      s.state.constraintNorm < 10.0 * (Options.standard : Options Float).tolerance))
    (by decide +kernel)
  obtain ⟨hconstrained, hdefined, hnorm⟩ := of_decide_eq_true hs
  obtain ⟨hmu, hbefore⟩ := afterWith_penalty rfl hrun hconstrained hnorm
  exact ⟨s, j', hrun, hnorm, hmu hdefined, hbefore⟩

/-- Two states after one major iteration whose norm is under ten tolerances: one has a
penalty, for the norm was zero before; the other keeps the undefined damping of the inner
solver. -/
theorem afterWith_penalty_kept :
    (∃ s j', leavingRun 5e-8 1.0 1 = (.ok s, j') ∧ 0 < s.equalities + 0 ∧
      s.state.constraintNorm < 10.0 * (Options.standard : Options Float).tolerance ∧
      ¬ s.state.rho = 0) ∧
    ∃ s j', leavingRun 0.0 (0.0 / 0.0) 1 = (.ok s, j') ∧ 0 < s.equalities + 0 ∧
      s.state.constraintNorm < 10.0 * (Options.standard : Options Float).tolerance ∧
      ¬ s.state.mu ≤ (Options.standard : Options Float).tolerance := by
  constructor
  · obtain ⟨s, j', hrun, hs⟩ := exists_leavingRun 5e-8 1.0 1 (p := fun s =>
      decide (0 < s.equalities + 0 ∧
        s.state.constraintNorm < 10.0 * (Options.standard : Options Float).tolerance ∧
        (0 : Float) < s.state.rho))
      (by decide +kernel)
    obtain ⟨hconstrained, hnorm, hrho⟩ := of_decide_eq_true hs
    refine ⟨s, j', hrun, hconstrained, hnorm, fun h => ?_⟩
    rw [h] at hrho
    exact absurd hrho (by decide)
  · obtain ⟨s, j', hrun, hs⟩ := exists_leavingRun 0.0 (0.0 / 0.0) 1 (p := fun s =>
      decide (0 < s.equalities + 0 ∧
        s.state.constraintNorm < 10.0 * (Options.standard : Options Float).tolerance ∧
        ¬ s.state.mu ≤ (Options.standard : Options Float).tolerance))
      (by decide +kernel)
    obtain ⟨hconstrained, hnorm, hmu⟩ := of_decide_eq_true hs
    exact ⟨s, j', hrun, hconstrained, hnorm, hmu⟩

end State

end Sqp
