import Sqp.Proofs.Solver.Monotone
import Sqp.Proofs.Solver.Penalty

/-!
# The penalty along a run

In exact arithmetic, and whatever the inner solvers and the cost function answer, the
penalty of a run is never negative, at most five times larger after each major iteration,
and larger only where the constraint norm has grown more than tenfold.

- `State.Follows`: what a major iteration may do to the penalty of a state
  (`State.advance_follows`).
- `State.exists_trajectory`: a run is a sequence of states, each the one before advanced by
  one answer of an inner solver.
- `State.Follows.rho_le_pow`, `State.Follows.rho_antitone`: what follows for the penalties of
  such a sequence.
- `State.afterWith_penalty_trend`: the penalties of a run.
-/

namespace Sqp

variable {e q n : Nat}

/-! ## One major iteration -/

/-- The adaptation does not make a penalty negative, and at most makes it five times
`max rho (√tolerance)`. -/
theorem Penalty.adapt_rho_mem (tolerance last norm : ℝ) {w : Penalty ℝ} (hw : 0 ≤ w.rho) :
    0 ≤ (adapt tolerance last norm w).rho ∧
      (adapt tolerance last norm w).rho ≤ 5 * max w.rho (√tolerance) ∧
      (w.rho < (adapt tolerance last norm w).rho → 10 * last < norm) := by
  obtain ⟨hrelaxed, hle⟩ : 0 ≤ (relax tolerance norm w).rho ∧
      (relax tolerance norm w).rho ≤ w.rho := by
    unfold relax
    split_ifs
    · exact ⟨le_rfl, hw⟩
    · exact ⟨hw, le_rfl⟩
  have hmax : w.rho ≤ max w.rho (√tolerance) := le_max_left _ _
  rw [adapt, followTrend, show (5.0 : ℝ) = 5 by norm_num, show (10.0 : ℝ) = 10 by norm_num]
  split_ifs with hfell hgrew
  · -- a norm under five times the last one
    dsimp only
    exact ⟨by positivity, by linarith, fun h => by linarith⟩
  · simp only [Scalar.keepMax_eq_max, Scalar.sqrt_real]
    exact ⟨by positivity, by gcongr, fun _ => hgrew⟩
  · exact ⟨hrelaxed, by linarith, fun h => absurd hle h.not_ge⟩

namespace State

/-- The penalty of `s'` is one that may come after that of `s`. -/
structure Follows (options : Options ℝ) (s s' : State ℝ ℝ e q n) : Prop where
  nonneg : 0 ≤ s'.rho
  le : s'.rho ≤ 5 * max s.rho (√options.tolerance)
  grows : s.rho < s'.rho → 0 < e + q ∧ 10 * s.constraintNorm < s'.constraintNorm
  kept : e + q = 0 → s'.rho = s.rho

theorem advance_rho_of_unconstrained (options : Options ℝ) (hfree : e + q = 0)
    (s : State ℝ ℝ e q n) (r : InnerResult ℝ ℝ q n) (cost : Cost ℝ (e + q)) :
    (s.advance options r cost).rho = s.rho := by
  unfold State.advance
  dsimp only
  rw [if_pos hfree]

theorem advance_follows {options : Options ℝ} {s : State ℝ ℝ e q n} (hs : 0 ≤ s.rho)
    (r : InnerResult ℝ ℝ q n) (cost : Cost ℝ (e + q)) :
    Follows options s (s.advance options r cost) := by
  rcases Nat.eq_zero_or_pos (e + q) with hfree | hconstrained
  · have hrho := advance_rho_of_unconstrained options hfree s r cost
    refine ⟨hrho ▸ hs, ?_, fun h => absurd h hrho.not_gt, fun _ => hrho⟩
    rw [hrho]
    linarith [le_max_left s.rho (√options.tolerance)]
  · obtain ⟨hrho, -⟩ := advance_adapt options hconstrained s r cost
    obtain ⟨hnonneg, hle, hgrows⟩ := Penalty.adapt_rho_mem options.tolerance s.constraintNorm
      (s.advance options r cost).constraintNorm (w := ⟨s.rho, r.mu⟩) hs
    rw [← hrho] at hnonneg hle hgrows
    exact ⟨hnonneg, hle, fun h => ⟨hconstrained, hgrows h⟩, fun h => absurd h hconstrained.ne'⟩

/-! ## Sequences of states -/

/-- The penalty at the start is the given one, or there is none. -/
theorem ofCost_rho_mem {options : Options ℝ} (hrho : 0 ≤ options.rho) (problem : Problem ℝ e q n)
    (curvature : Mat ℝ (q + n) (q + n)) (cost : Cost ℝ (e + q)) :
    0 ≤ (ofCost options problem curvature cost).rho ∧
      (ofCost options problem curvature cost).rho ≤ options.rho ∧
      (e + q = 0 → (ofCost options problem curvature cost).rho = options.rho) := by
  unfold ofCost initialPenalty
  dsimp only
  split_ifs with hfree hzero
  · exact ⟨hrho, le_rfl, fun _ => rfl⟩
  · exact ⟨le_rfl, hrho, fun h => absurd h hfree⟩
  · exact ⟨hrho, le_rfl, fun _ => rfl⟩

section Trajectory

variable {options : Options ℝ} {s : Nat → State ℝ ℝ e q n} {last : Nat}

/-- A penalty that starts nonnegative stays so, by induction along the trajectory. -/
theorem rho_nonneg_of_follows (hstart : 0 ≤ (s 0).rho)
    (hstep : ∀ k < last, 0 ≤ (s k).rho → Follows options (s k) (s (k + 1))) :
    ∀ k ≤ last, 0 ≤ (s k).rho := by
  intro k
  induction k with
  | zero => exact fun _ => hstart
  | succ k ih => exact fun hk => (hstep k hk (ih (Nat.le_of_lt hk))).nonneg

/-- The penalty grows at most fivefold with each major iteration. -/
theorem rho_le_pow (hstart : (s 0).rho ≤ options.rho)
    (hstep : ∀ k < last, Follows options (s k) (s (k + 1))) :
    ∀ k ≤ last, (s k).rho ≤ 5 ^ k * max options.rho (√options.tolerance) := by
  set m := max options.rho (√options.tolerance)
  have hm : √options.tolerance ≤ m := le_max_right _ _
  have hm₀ : 0 ≤ m := (Real.sqrt_nonneg _).trans hm
  intro k
  induction k with
  | zero =>
    rw [pow_zero, one_mul]
    exact fun _ => hstart.trans (le_max_left _ _)
  | succ k ih =>
    intro hk
    -- both sides of the maximum in the step are below the bound that holds already
    have hpow : m ≤ 5 ^ k * m := le_mul_of_one_le_left hm₀ (one_le_pow₀ (by norm_num))
    calc (s (k + 1)).rho ≤ 5 * max (s k).rho (√options.tolerance) := (hstep k hk).le
      _ ≤ 5 * (5 ^ k * m) := by
        gcongr
        exact max_le (ih (Nat.le_of_lt hk)) (hm.trans hpow)
      _ = 5 ^ (k + 1) * m := by ring

/-- While the norm grows at most tenfold, the penalty does not grow. -/
theorem rho_antitone (hstep : ∀ k < last, Follows options (s k) (s (k + 1))) {a b : Nat}
    (hab : a ≤ b) (hb : b ≤ last)
    (hnorm : ∀ k, a ≤ k → k < b → (s (k + 1)).constraintNorm ≤ 10 * (s k).constraintNorm) :
    (s b).rho ≤ (s a).rho := by
  induction b, hab using Nat.le_induction with
  | base => exact le_rfl
  | succ b hab ih =>
    have hone : (s (b + 1)).rho ≤ (s b).rho :=
      not_lt.mp fun h => (hnorm b hab b.lt_succ_self).not_gt ((hstep b hb).grows h).2
    exact hone.trans (ih (Nat.le_of_succ_le hb) fun k hk hkb => hnorm k hk (by omega))

/-- Without constraints the penalty stays what it is. -/
theorem rho_eq_of_unconstrained (hfree : e + q = 0)
    (hstep : ∀ k < last, Follows options (s k) (s (k + 1))) :
    ∀ k ≤ last, (s k).rho = (s 0).rho := by
  intro k
  induction k with
  | zero => exact fun _ => rfl
  | succ k ih => exact fun hk => ((hstep k hk).kept hfree).trans (ih (Nat.le_of_lt hk))

end Trajectory

/-! ## Runs -/

section Run

variable {options : Options ℝ} {f : CostFunction ℝ}
  {inner : Nat → (e : Nat) → InnerSolver ℝ ℝ e q n} {problem : Problem ℝ 0 q n}
  {curvature : Mat ℝ (q + n) (q + n)} {j j' : Journal ℝ}

/-- A run is a sequence of states. The first one belongs to a cost vector at the initial
point, and each of the others is the one before advanced by an answer. -/
theorem exists_trajectory {last : Nat} {z : SizedState ℝ ℝ q n}
    (h : outcome (afterWith options f inner problem curvature last) j = (.ok z, j')) :
    ∃ s : Nat → State ℝ ℝ z.equalities q n, s last = z.state ∧
      (∀ k ≤ last, ∃ j₀, outcome (afterWith options f inner problem curvature k) j =
        (.ok ⟨z.equalities, s k⟩, j₀)) ∧
      (∃ cost, s 0 = ofCost options (problem.withEqualities z.equalities) curvature cost) ∧
      ∀ k < last, ∃ r cost, s (k + 1) = (s k).advance options r cost := by
  induction last generalizing z j' with
  | zero =>
    obtain ⟨cost, -, hcost⟩ := (confined_start (P := fun _ => True) trivial
      fun _ _ => rfl).of_outcome h
    refine ⟨fun _ => z.state, rfl, fun k hk => ?_, ⟨cost, hcost⟩,
      fun k hk => absurd hk k.not_lt_zero⟩
    rw [Nat.le_zero.mp hk]
    exact ⟨j', h⟩
  | succ last ih =>
    obtain ⟨⟨e, before⟩, j₀, hbefore, hlast⟩ := outcome_bind_eq_ok_iff.mp h
    obtain ⟨s', j₁, hstep, hlast⟩ := outcome_bind_eq_ok_iff.mp hlast
    cases hlast
    obtain ⟨r, cost, -, -, hadvance⟩ :=
      (confined_stateStep (Ensures.any _) (fun _ _ => trivial) fun _ _ => rfl).of_outcome hstep
    -- one more state is put at the end of the sequence, which changes none of the earlier ones
    obtain ⟨s, hs, hreached, hstart, hsteps⟩ := ih hbefore
    have hsame : ∀ k ≤ last, Function.update s (last + 1) s' k = s k := fun k hk =>
      Function.update_of_ne (Nat.lt_succ_of_le hk).ne _ _
    have hnew : Function.update s (last + 1) s' (last + 1) = s' := Function.update_self ..
    refine ⟨Function.update s (last + 1) s', hnew, fun k hk => ?_, ?_, fun k hk => ?_⟩
    · rcases Nat.le_succ_iff.mp hk with hk | rfl
      · rw [hsame k hk]
        exact hreached k hk
      · rw [hnew]
        exact ⟨_, h⟩
    · rw [hsame 0 (Nat.zero_le _)]
      exact hstart
    · rcases Nat.lt_succ_iff_lt_or_eq.mp hk with hk | rfl
      · rw [hsame k (Nat.le_of_lt hk), hsame (k + 1) hk]
        exact hsteps k hk
      · rw [hsame k le_rfl, hnew, hs]
        exact ⟨r, cost, hadvance⟩

/-- The penalty along a run with `last` major iterations. It is not negative, and grows at
most fivefold with each major iteration. It grows only where there are constraints and
their norm has grown more than tenfold, so not over a stretch in which the norm nowhere
does. Without constraints it stays what it was at the start. -/
theorem afterWith_penalty_trend (hrho : 0 ≤ options.rho) {last : Nat} {z : SizedState ℝ ℝ q n}
    (h : outcome (afterWith options f inner problem curvature last) j = (.ok z, j')) :
    ∃ s : Nat → State ℝ ℝ z.equalities q n, s last = z.state ∧
      (∀ k ≤ last,
        (∃ j₀, outcome (afterWith options f inner problem curvature k) j =
          (.ok ⟨z.equalities, s k⟩, j₀)) ∧
        0 ≤ (s k).rho ∧ (s k).rho ≤ 5 ^ k * max options.rho (√options.tolerance)) ∧
      (∀ k < last, (s k).rho < (s (k + 1)).rho →
        0 < z.equalities + q ∧ 10 * (s k).constraintNorm < (s (k + 1)).constraintNorm) ∧
      (∀ a b, a ≤ b → b ≤ last →
        (∀ k, a ≤ k → k < b → (s (k + 1)).constraintNorm ≤ 10 * (s k).constraintNorm) →
        (s b).rho ≤ (s a).rho) ∧
      (z.equalities + q = 0 → ∀ k ≤ last, (s k).rho = options.rho) := by
  obtain ⟨s, hs, hreached, ⟨cost, hcost⟩, hsteps⟩ := exists_trajectory h
  obtain ⟨hnonneg, hle, hkept⟩ :=
    ofCost_rho_mem hrho (problem.withEqualities z.equalities) curvature cost
  rw [← hcost] at hnonneg hle hkept
  have hadvance : ∀ k < last, 0 ≤ (s k).rho → Follows options (s k) (s (k + 1)) := by
    intro k hk hpos
    obtain ⟨r, cost, hr⟩ := hsteps k hk
    rw [hr]
    exact advance_follows hpos r cost
  have hpos := rho_nonneg_of_follows hnonneg hadvance
  have hfollows : ∀ k < last, Follows options (s k) (s (k + 1)) :=
    fun k hk => hadvance k hk (hpos k hk.le)
  refine ⟨s, hs, fun k hk => ⟨hreached k hk, hpos k hk, rho_le_pow hle hfollows k hk⟩,
    fun k hk => (hfollows k hk).grows, fun a b => rho_antitone hfollows, fun hfree k hk => ?_⟩
  exact (rho_eq_of_unconstrained hfree hfollows k hk).trans (hkept hfree)

end Run

/-! ## A run that moves away -/

/-- An equality constraint that asks the only variable to vanish. -/
noncomputable def zeroCost : CostFunction ℝ :=
  affineCost (fun _ => 0) (Mat.identity ℝ 1) (zeros ℝ 1)

/-- The inner solver of a major iteration goes to a power of twenty. -/
noncomputable def climb (k e : Nat) : InnerSolver ℝ ℝ e 0 1 := fun _ entry =>
  pure {
    parameters := Vector.replicate 1 (20.0 ^ k)
    multipliers := entry.multipliers
    curvature := entry.curvature
    mu := entry.mu
    reduction := 0
    minorIterations := 1
    warnings := [] }

theorem returns_climb (k : Nat) : Returns (Journal.Fits (1 + (1 + 0)))
    (afterWith .standard zeroCost climb Solver.freeProblem (Mat.identity ℝ 1) k)
    fun z => ∃ s : State ℝ ℝ 1 0 1, z = ⟨1, s⟩ := by
  have htotal : zeroCost.Total 1 (1 + 0) := affineCost_total _ _ _
  induction k with
  | zero =>
    obtain ⟨cost, hcost⟩ := htotal (back Solver.freeProblem.parameters)
    exact (returns_start hcost).mono fun z hz => ⟨_, hz⟩
  | succ k ih =>
    refine Returns.bind ih ?_
    rintro _ ⟨s, rfl⟩
    have hstep : Returns (Journal.Fits (1 + (1 + 0))) (climb k 1 s.problem s.innerStart)
        fun r => True ∧ ∃ ws : List Warning, r.warnings = ws.map Warning.code :=
      Returns.pure ⟨trivial, [], rfl⟩
    exact Returns.bind (returns_stateStep htotal hstep) fun s' _ => Returns.pure ⟨s', rfl⟩

/-- Three rounds in which the norm grows enough for the penalty to grow with it. -/
theorem afterWith_penalty_trend_climb : ∃ z j',
    0 ≤ (Options.standard : Options ℝ).rho ∧
    outcome (afterWith .standard zeroCost climb Solver.freeProblem (Mat.identity ℝ 1) 3) {} =
      (.ok z, j') ∧
    0 ≤ z.state.rho ∧ z.state.rho ≤ 5 ^ 3 *
      max (Options.standard : Options ℝ).rho (√(Options.standard : Options ℝ).tolerance) := by
  have hrho : 0 ≤ (Options.standard : Options ℝ).rho := zero_le_one
  obtain ⟨z, j', hrun, -, -⟩ := returns_climb 3 {} Journal.fits_empty
  obtain ⟨s, hs, hbounds, -⟩ := afterWith_penalty_trend hrho hrun
  obtain ⟨-, hnonneg, hle⟩ := hbounds 3 le_rfl
  rw [hs] at hnonneg hle
  exact ⟨z, j', hrho, hrun, hnonneg, hle⟩

end State

end Sqp
