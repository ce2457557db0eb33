import Sqp.Proofs.Journal.Failures
import Sqp.Proofs.Shapes
import Sqp.Subproblem

/-!
# How inner solves fail

An inner solve has `e + q` constraints and `q + n` slacks and decision variables.

- `Determined f`: the causes other than a least-squares problem with too few rows, and all
  causes for which the cost function `f` fails.
- `Subproblem.failsAlike_minorStep`, `Subproblem.failsAlike_prepare`,
  `Subproblem.failsAlike_solve`: with at most as many equality constraints as decision
  variables, an inner solve does not depend on the factors of matrices with too few rows,
  and fails for such causes only.
- `Subproblem.ensures_solve_crowded`: with more of them it has no answer.
-/

namespace Sqp

variable {α β : Type} {e q n : Nat}

/-- A failure is not due to a least-squares problem with too few rows, unless the cost
function itself fails with this cause. -/
def Determined (f : CostFunction α) (cause : Error) : Prop :=
  ∀ rows columns, cause = .underdetermined rows columns → ∃ x, f x = .error cause

/-- Whatever the cost function fails with is allowed. -/
theorem Determined.of_cost {f : CostFunction α} (x : List α) (cause : Error)
    (h : f x = .error cause) : Determined f cause :=
  fun _ _ _ => ⟨x, h⟩

/-! ## Parts of an inner solve -/

section Parts

variable [Scalar β] {E : Error → Prop}

/-- Multipliers are refused because of their number only. -/
theorem Subproblem.cause_of_constraintMultipliers {m : Nat} {ys : List β} {cause : Error}
    (h : Subproblem.constraintMultipliers m ys = .error cause) : cause = .incompatible := by
  unfold Subproblem.constraintMultipliers fitted at h
  split_ifs at h
  · cases h
  · cases h
  · split at h
    · cases h
    · cases h
      rfl

/-- Differencing fails where the cost function does. -/
theorem failsAlike_constraintJacobian {costAt : Vector β (q + n) → Recorded α (Cost β (e + q))}
    (h : ∀ p, FailsAlike E (costAt p) (costAt p)) (p : Vector β (q + n))
    (cost : Cost β (e + q)) (delta : β) :
    FailsAlike E (constraintJacobian costAt p cost delta)
      (constraintJacobian costAt p cost delta) := by
  refine FailsAlike.bind (FailsAlike.tabulateM fun i => ?_) fun _ => FailsAlike.pure _
  exact FailsAlike.bind (h _) fun _ => FailsAlike.pure _

variable [Storage α β]

theorem FailsAlike.scaleEvaluate {f : CostFunction α} (s : Scale β e q n) (p : Vector β (q + n)) :
    FailsAlike (Determined f) (s.evaluate f p) (s.evaluate f p) :=
  FailsAlike.bind
    (FailsAlike.evaluateSized Determined.of_cost (fun _ _ _ h => nomatch h) _ _)
    fun _ => FailsAlike.pure _

variable [Scalar α]

/-- Scale factors fail for a tolerance of zero only. -/
theorem Scale.cause_of_compute {mode : BoundMode} {objective : β} {equalities : List β}
    {p : Vector β (q + n)} {tolerance : α} {cause : Error}
    (h : (Scale.compute mode objective equalities p tolerance : Except Error (Scale β e q n)) =
      .error cause) : cause = .divisionByZero := by
  rcases except_bind_eq_error_iff.mp h with h | ⟨_, -, h⟩
  · unfold Scalar.quotient at h
    split_ifs at h
    · cases h
      rfl
    · cases h
  · cases h

theorem FailsAlike.quotient (hzero : E .divisionByZero) (a b : α) :
    FailsAlike E (Scalar.quotient a b : Recorded α α) (Scalar.quotient a b) :=
  FailsAlike.ite (FailsAlike.throw hzero) (FailsAlike.pure _)

/-- A gradient of the merit fails where the merit does, or for a step of zero. -/
theorem failsAlike_meritGradient (hzero : E .divisionByZero)
    {meritAt : Vector β (q + n) → Recorded α α} (h : ∀ p, FailsAlike E (meritAt p) (meritAt p))
    (p : Vector β (q + n)) (merit delta : α) :
    FailsAlike E (meritGradient meritAt p merit delta) (meritGradient meritAt p merit delta) := by
  refine FailsAlike.bind (FailsAlike.tabulateM fun i => ?_) fun _ => FailsAlike.pure _
  exact FailsAlike.bind (h _) fun _ => FailsAlike.quotient hzero _ _

theorem LineSearch.failsAlike_bisect {meritAt : Vector β n → Recorded α α}
    (h : ∀ p, FailsAlike E (meritAt p) (meritAt p)) (start trial : Vector β n)
    (merit tolerance : α) :
    ∀ (fuel : Nat) (go : α) (steps : Nat) (b : Bracket α β n),
      FailsAlike E (bisect meritAt start trial merit tolerance fuel go steps b)
        (bisect meritAt start trial merit tolerance fuel go steps b) := by
  intro fuel
  induction fuel with
  | zero => exact fun _ _ _ => FailsAlike.pure _
  | succ fuel ih =>
    intro go steps b
    exact FailsAlike.ite (FailsAlike.bind (h _) fun _ => ih _ _ _) (FailsAlike.pure _)

theorem LineSearch.failsAlike_search {meritAt : Vector β n → Recorded α α}
    (h : ∀ p, FailsAlike E (meritAt p) (meritAt p)) (start trial : Vector β n)
    (merit tolerance : α) :
    FailsAlike E (search meritAt start trial merit tolerance)
      (search meritAt start trial merit tolerance) :=
  FailsAlike.bind (h trial) fun _ =>
    FailsAlike.bind (LineSearch.failsAlike_bisect h _ _ _ _ _ _ _ _) fun _ => FailsAlike.pure _

end Parts

namespace Subproblem

variable [Scalar α] [Scalar β] [Storage α β] {f : CostFunction α} {K : Kernels β}
  (wide : {m k : Nat} → Mat β m k → Mat β m k × Mat β k k)

/-! ## The way in -/

/-- A projection solves a square system, and a restoration one with a row more than there are
variables; both have enough rows. -/
theorem failsAlike_repair (hen : e ≤ n) (mode : BoundMode) (bounds : Bounds β (q + n))
    (tolerance : α) (residuals : Vector β (e + q)) (l : Linearisation β e q n) :
    FailsAlike (Determined f) (repair K mode bounds tolerance residuals l)
      (repair (K.withWide wide) mode bounds tolerance residuals l) := by
  have hmn : e + q ≤ q + n + 1 := by omega
  cases mode with
  | unbounded =>
    refine FailsAlike.bind (FailsAlike.recorded
      (projectOntoConstraints_withWide wide _ _ _).symm fun cause h => ?_) fun _ =>
      FailsAlike.pure _
    rw [cause_of_projectOntoConstraints h]
    exact fun _ _ h => nomatch h
  | slackBounded | fullyBounded =>
    refine FailsAlike.bind (FailsAlike.recorded
      (Restoration.restore_withWide wide hmn _ _).symm fun cause h => ?_) fun _ => ?_
    · rw [Restoration.cause_of_restore hmn h]
      exact fun _ _ h => nomatch h
    · exact FailsAlike.bind (FailsAlike.report _) fun _ => FailsAlike.pure _

/-- So the rows suffice for a linearisation. -/
theorem failsAlike_linearise (hen : e ≤ n)
    {costAt : Vector β (q + n) → Recorded α (Cost β (e + q))}
    (hcost : ∀ p, FailsAlike (Determined f) (costAt p) (costAt p)) (mode : BoundMode)
    (bounds : Bounds β (q + n)) (settings : Settings α) (p : Vector β (q + n))
    (cost : Cost β (e + q)) :
    FailsAlike (Determined f) (linearise K costAt mode bounds settings p cost)
      (linearise (K.withWide wide) costAt mode bounds settings p cost) := by
  refine FailsAlike.ite (FailsAlike.pure _) ?_
  refine FailsAlike.bind (failsAlike_constraintJacobian hcost _ _ _) fun _ => ?_
  exact FailsAlike.ite (failsAlike_repair wide hen _ _ _ _ _) (FailsAlike.pure _)

/-- Neither the scale factors nor the multipliers solve a least-squares problem. -/
theorem failsAlike_prepare (hen : e ≤ n) (settings : Settings α) (problem : Problem β e q n)
    (entry : InnerStart α β e q n) :
    FailsAlike (Determined f) (prepare K f settings problem entry)
      (prepare (K.withWide wide) f settings problem entry) := by
  refine FailsAlike.bind (FailsAlike.recorded rfl fun cause h => ?_) fun scale => ?_
  · rw [Scale.cause_of_compute h]
    exact fun _ _ h => nomatch h
  refine FailsAlike.bind (FailsAlike.recorded rfl fun cause h => ?_) fun _ => ?_
  · rw [cause_of_constraintMultipliers h]
    exact fun _ _ h => nomatch h
  refine FailsAlike.bind (failsAlike_linearise wide hen (FailsAlike.scaleEvaluate scale)
    _ _ _ _ _) fun l => ?_
  refine FailsAlike.bind (FailsAlike.ite (FailsAlike.scaleEvaluate scale _) (FailsAlike.pure _))
    fun _ => FailsAlike.pure _

/-! ## Descent -/

section Descent

variable {g : Landscape α β e q n}

/-- A minor iteration solves one, for the multipliers of its Newton step. -/
theorem failsAlike_minorStep (hen : e ≤ n)
    (hcost : ∀ p, FailsAlike (Determined f) (g.costAt p) (g.costAt p))
    (s : Iterate α β e q n) :
    FailsAlike (Determined f) (minorStep g s)
      (minorStep { g with kernels := g.kernels.withWide wide } s) := by
  have hmn : e + q ≤ q + n := by omega
  have hmerit : ∀ p, FailsAlike (Determined f) (g.meritAt p) (g.meritAt p) :=
    fun p => FailsAlike.bind (hcost p) fun _ => FailsAlike.pure _
  have hgradient : FailsAlike (Determined f) (g.gradientAt s) (g.gradientAt s) :=
    FailsAlike.ite (failsAlike_meritGradient (fun _ _ h => nomatch h) hmerit _ _ _)
      (FailsAlike.pure _)
  refine FailsAlike.bind hgradient fun gradient => ?_
  refine FailsAlike.bind (FailsAlike.recorded (NewtonStep.compute_withWide wide hmn _).symm
    fun cause h => ?_) fun step => ?_
  · rcases NewtonStep.cause_of_compute hmn h with rfl | rfl <;> exact fun _ _ h => nomatch h
  · exact FailsAlike.bind (LineSearch.failsAlike_search hmerit _ _ _ _) fun _ =>
      FailsAlike.pure _

/-- A descent fails for the same reasons whatever the wide factors are, since no minor iteration
asks for them. -/
theorem failsAlike_descend (hen : e ≤ n)
    (hcost : ∀ p, FailsAlike (Determined f) (g.costAt p) (g.costAt p)) :
    ∀ (left : Nat) (s : Iterate α β e q n),
      FailsAlike (Determined f) (descend g left s)
        (descend { g with kernels := g.kernels.withWide wide } left s) := by
  intro left
  induction left with
  | zero => exact fun _ => FailsAlike.pure _
  | succ left ih =>
    intro s
    refine FailsAlike.bind (failsAlike_minorStep wide hen hcost s) fun next => ?_
    exact FailsAlike.ite (FailsAlike.pure _)
      (FailsAlike.bind (ih next) fun _ => FailsAlike.pure _)

/-- With more equality constraints than decision variables there is no minor iteration. -/
theorem ensures_minorStep_crowded (hne : n < e) (s : Iterate α β e q n) :
    Ensures (minorStep g s) fun _ => False := by
  refine Confined.bind (Ensures.any _) fun gradient _ => ?_
  refine Confined.bind (Q := fun _ => False) (Confined.recorded fun step h => ?_)
    fun _ h => h.elim
  exact NewtonStep.compute_ne_ok (by omega) _ _ h

end Descent

/-! ## Inner solves -/

/-- With at most as many equality constraints as decision variables, no least-squares problem of
an inner solve lacks rows. -/
theorem failsAlike_solve (hen : e ≤ n) (settings : Settings α) (problem : Problem β e q n)
    (entry : InnerStart α β e q n) :
    FailsAlike (Determined f) (solve K f settings problem entry)
      (solve (K.withWide wide) f settings problem entry) := by
  have hrun : FailsAlike (Determined f) (run K f settings problem entry)
      (run (K.withWide wide) f settings problem entry) := by
    refine FailsAlike.bind (failsAlike_prepare wide hen settings problem entry) fun way => ?_
    exact FailsAlike.bind (failsAlike_descend wide hen (FailsAlike.scaleEvaluate way.scale) _ _)
      fun _ => FailsAlike.pure _
  exact FailsAlike.bind hrun fun _ =>
    FailsAlike.bind (FailsAlike.report _) fun _ => FailsAlike.pure _

/-- With more equality constraints than decision variables, an inner solve that may make a
minor iteration has no answer. -/
theorem ensures_solve_crowded (hne : n < e) {settings : Settings α}
    (hlimit : 0 < settings.minorLimit) (problem : Problem β e q n)
    (entry : InnerStart α β e q n) : Ensures (solve K f settings problem entry) fun _ => False := by
  refine Confined.bind (Q := fun _ => False) ?_ fun _ h => h.elim
  refine Confined.bind (Ensures.any _) fun way _ => ?_
  refine Confined.bind (Q := fun _ => False) ?_ fun _ h => h.elim
  -- the first minor iteration already needs a direction
  obtain ⟨left, hleft⟩ := Nat.exists_eq_succ_of_ne_zero (Nat.ne_of_gt hlimit)
  rw [hleft]
  exact Confined.bind (ensures_minorStep_crowded hne _) fun _ h => h.elim

end Subproblem

end Sqp
