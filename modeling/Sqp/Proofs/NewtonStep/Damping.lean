import Sqp.Proofs.NewtonStep.Trials
import Sqp.Proofs.Problem
import Sqp.Proofs.Scalar.Overflow

/-!
# How a Newton step ends

The damping overflows sooner or later, so that a row of trials ends by itself, whatever the
kernels return and whatever the bounds are.

- `NewtonStep.Concludes`: the result of a Newton step if enough trials are allowed.
- `NewtonStep.represents_raised`: the dampings of the row, up to the first infinite one.
- `NewtonStep.Returned`: what is known of a step that is returned: its trial is the first
  acceptable one, and which damping goes with it.
- `NewtonStep.computeWithin_concludes`: there is always a result, a step of this kind or an
  error for one of four reasons.
-/

namespace Sqp

variable {α β : Type} {m n : Nat}

/-- Rows that fit are no bounds exactly if there are none of them. -/
theorem Bounds.free_leading_iff {rows : List (Interval β)} (hrows : rows.length ≤ n) :
    (leading rows n).free = true ↔ rows = [] := by
  rw [free, Vector.all_eq_true]
  constructor
  · intro h
    cases rows with
    | nil => rfl
    | cons row rows =>
      have hfirst := h 0 (Nat.lt_of_lt_of_le (Nat.succ_pos _) hrows)
      rw [leading, Vector.getElem_ofFn] at hfirst
      cases hfirst
  · rintro rfl i hi
    rw [leading, Vector.getElem_ofFn]
    rfl

/-- Apart from rows that are given but empty, all is free exactly if no rows are given. -/
theorem Bounds.free_leading {rows? : Option (List (Interval β))}
    (hrows : (rows?.getD []).length ≤ n) (hsome : rows? ≠ some []) :
    (leading (rows?.getD []) n).free = rows?.isNone := by
  cases rows? with
  | none => exact (free_leading_iff hrows).mpr rfl
  | some rows =>
    exact Bool.eq_false_iff.mpr fun hfree =>
      hsome (congrArg some ((free_leading_iff hrows).mp hfree))

namespace NewtonStep

open Overflowing

variable [Scalar α] [Scalar β] [Storage α β] {K : Kernels β} {model : Model β m n}
  {p x : Vector β n} {y : Vector β m} {bounds : Bounds β n} {rows? : Option (List (Interval β))}
  {mu : α} {t : Nat}

/-! ## Results without a limit -/

/-- If at least `N` trials are allowed, the result is `r`. -/
def Concludes (K : Kernels β) (model : Model β m n) (p : Vector β n)
    (rows? : Option (List (Interval β))) (mu : α) (N : Nat)
    (r : Except Error (NewtonStep α β m n)) : Prop :=
  ∀ limit ≥ N, computeWithin (K.withTrialLimit limit) model p rows? mu = r

/-- More rows than variables are refused before the first trial. -/
theorem concludes_of_lt (hrows : n < (rows?.getD []).length) :
    Concludes K model p rows? mu 0 (.error .incompatible) :=
  fun _ _ => except_bind_eq_error_iff.mpr (.inl (if_neg (not_le.mpr hrows)))

variable {r : Except Error (NewtonStep α β m n)}

/-- With rows that fit, the row of trials decides, before the bounds are asked for a gap. -/
theorem Ends.computeWithin_eq (hrows : (rows?.getD []).length ≤ n)
    (h : Ends K model p (Bounds.leading (rows?.getD []) n) mu t r) {limit : Nat}
    (hlimit : t < limit) :
    computeWithin (K.withTrialLimit limit) model p rows? mu = do
      let step ← r
      if rows?.isSome then (Bounds.leading (rows?.getD []) n).requireSome
      return step := by
  have hofRows : Bounds.ofRows n (rows?.getD []) = .ok (Bounds.leading (rows?.getD []) n) :=
    if_pos hrows
  rw [computeWithin, hofRows]
  show (compute (K.withTrialLimit limit) model p _ mu >>= _) = _
  rw [h.compute_eq hlimit]

/-- How the row of trials ends is how the Newton step ends, with any limit that leaves room. -/
theorem Ends.concludes (hrows : (rows?.getD []).length ≤ n) (hsome : rows? ≠ some [])
    (h : Ends K model p (Bounds.leading (rows?.getD []) n) mu t r) :
    Concludes K model p rows? mu (t + 1) r := by
  refine fun limit hlimit => (h.computeWithin_eq hrows hlimit).trans ?_
  cases r with
  | error cause => rfl
  | ok step =>
    rw [Bounds.requireSome, Bounds.free_leading hrows hsome]
    cases rows? <;> rfl

/-- Rows that are given but empty have no smallest gap, so that no finite trial counts. -/
theorem Ends.concludes_of_nil (h : Ends K model p (Bounds.leading [] n) mu t r) :
    Concludes K model p (some []) mu (t + 1) (r >>= fun _ => .error .noExtremum) := by
  refine fun limit hlimit => (h.computeWithin_eq n.zero_le hlimit).trans ?_
  rw [Option.getD_some, Bounds.requireSome, if_pos ((Bounds.free_leading_iff n.zero_le).mpr rfl)]
  rfl

/-! ## Dampings that overflow -/

variable [Overflowing α]

/-- Below the threshold nothing is rounded, by induction on the number of triplings. -/
theorem raised_exact (hpos : 0 < mu) (hfinite : Scalar.isFinite mu = true) :
    ∀ {t : Nat}, 3 ^ t * value mu < threshold α →
      0 < raised mu t ∧ Scalar.isFinite (raised mu t) = true ∧
        value (raised mu t) = 3 ^ t * value mu := by
  intro t
  induction t with
  | zero => exact fun _ => ⟨hpos, hfinite, by rw [pow_zero, one_mul]; rfl⟩
  | succ t ih =>
    intro ht
    have hvalue := value_pos mu hpos hfinite
    have hstep : 3 ^ (t + 1) * value mu = 3 * (3 ^ t * value mu) := by ring
    obtain ⟨hpos', hfinite', heq⟩ := ih (by linarith [mul_pos (pow_pos three_pos t) hvalue])
    rw [hstep, ← heq] at ht ⊢
    rw [raised_succ]
    exact triple_exact _ hpos' hfinite' ht

/-- The damping is tripled exactly until it is infinite. -/
theorem represents_raised (hpos : 0 < mu) (hfinite : Scalar.isFinite mu = true)
    (ht : 3 ^ t * value mu < threshold α) :
    Represents (raised mu t) (3 ^ t * value mu) ∧
      Represents (raised mu (t + 1)) (3 ^ (t + 1) * value mu) := by
  obtain ⟨hpos', hfinite', heq⟩ := raised_exact hpos hfinite ht
  have hstep : 3 ^ (t + 1) * value mu = 3 * (3 ^ t * value mu) := by ring
  refine ⟨.of_lt ht ⟨hfinite', heq⟩, ?_⟩
  rw [raised_succ, hstep, ← heq]
  exact represents_triple hpos' hfinite'

/-- A trial is made only with a damping below the threshold. -/
theorem Rejected.lt_threshold (h : Rejected K model p bounds mu t) (hpos : 0 < mu)
    (hfinite : Scalar.isFinite mu = true) : 3 ^ t * value mu < threshold α := by
  induction t with
  | zero => simpa using value_lt mu hpos hfinite
  | succ t ih =>
    have hnext := (represents_raised hpos hfinite (ih h.of_succ)).2
    exact hnext.isFinite_iff.mp (h.finite t t.lt_succ_self)

/-- Triplings that stay below the threshold are fewer than those that reach it. -/
theorem lt_of_threshold_le (hpos : 0 < mu) (hfinite : Scalar.isFinite mu = true) {s k : Nat}
    (hs : 3 ^ s * value mu < threshold α) (hk : threshold α ≤ 3 ^ k * value mu) : s < k := by
  by_contra hle
  have hpow : (3 : ℝ) ^ k ≤ 3 ^ s := pow_le_pow_right₀ (by norm_num) (not_lt.mp hle)
  have hgrown := mul_le_mul_of_nonneg_right hpow (value_pos mu hpos hfinite).le
  linarith

/-- A row of trials does not get past the threshold, so it ends by itself. -/
theorem exists_ends (K : Kernels β) (model : Model β m n) (p : Vector β n) (bounds : Bounds β n)
    (hpos : 0 < mu) (hfinite : Scalar.isFinite mu = true) :
    ∃ t r, Ends K model p bounds mu t r := by
  obtain ⟨N, hN⟩ := pow_unbounded_of_one_lt (threshold α / value mu) (by norm_num : (1 : ℝ) < 3)
  rw [div_lt_iff₀ (value_pos mu hpos hfinite)] at hN
  rcases ends_or_rejected K model p bounds mu N with hrejected | ⟨t, -, r, hends⟩
  · exact absurd (hrejected.lt_threshold hpos hfinite) hN.not_gt
  · exact ⟨t, r, hends⟩

/-! ## The step that is returned -/

/-- The step is the first acceptable one of the trials that start from the damping `mu`, and it
accounts for the damping. -/
structure Returned (K : Kernels β) (model : Model β m n) (p : Vector β n)
    (rows? : Option (List (Interval β))) (mu : α) (step : NewtonStep α β m n) : Prop where
  trials_pos : 0 < step.trials
  /-- The last trial was made with a damping that is finite, and exact. -/
  made : trial K model p (raised mu (step.trials - 1)) = .ok (step.parameters, step.multipliers)
  damping_lt : 3 ^ (step.trials - 1) * value mu < threshold α
  damping : Represents (raised mu (step.trials - 1)) (3 ^ (step.trials - 1) * value mu)
  acceptable : Acceptable (Bounds.leading (rows?.getD []) n) step.parameters
  first : ∀ s < step.trials - 1, ∃ x y, trial K model p (raised mu s) = .ok (x, y) ∧
    ¬ Acceptable (Bounds.leading (rows?.getD []) n) x
  mu_of_bounds : rows?.isSome = true → Represents step.mu (3 ^ step.trials * value mu)
  mu_of_none : rows? = none → Represents step.mu (3 ^ (step.trials - 1) * value mu)
  /-- Without constraints the multipliers are kept. -/
  multipliers : m = 0 → ∀ kept, step.multipliersAfter kept = kept

/-- An accepted trial has all that is said of a step that is returned. -/
theorem Ends.returned {step : NewtonStep α β m n} (hpos : 0 < mu)
    (hfinite : Scalar.isFinite mu = true) (hrows : (rows?.getD []).length ≤ n)
    (hsome : rows? ≠ some [])
    (h : Ends K model p (Bounds.leading (rows?.getD []) n) mu t (.ok step)) :
    Returned K model p rows? mu step := by
  cases h with
  | accepted before made acceptable =>
    have hlt := before.lt_threshold hpos hfinite
    obtain ⟨hdamping, hnext⟩ := represents_raised hpos hfinite hlt
    have hfree := Bounds.free_leading hrows hsome
    refine ⟨Nat.succ_pos t, made, hlt, hdamping, acceptable, before.made, fun hgiven => ?_,
      fun hnone => ?_, fun hm _ => if_pos hm⟩
    · obtain ⟨rows, rfl⟩ := Option.isSome_iff_exists.mp hgiven
      show Represents (if _ then _ else _) _
      rw [hfree]
      exact hnext
    · subst hnone
      show Represents (if _ then _ else _) _
      rw [hfree]
      exact hdamping

/-- A Newton step is given up only after a trial with every damping below the threshold. -/
theorem Ends.rejected_of_noInteriorStep (hpos : 0 < mu) (hfinite : Scalar.isFinite mu = true)
    (h : Ends K model p bounds mu t (.error .noInteriorStep)) {s : Nat}
    (hs : 3 ^ s * value mu < threshold α) :
    ∃ x y, trial K model p (raised mu s) = .ok (x, y) ∧ ¬ Acceptable bounds x := by
  cases h with
  | overflows before made rejected infinite =>
    have hnext := (represents_raised hpos hfinite (before.lt_threshold hpos hfinite)).2
    have hthreshold : threshold α ≤ 3 ^ (t + 1) * value mu :=
      not_lt.mp (mt hnext.isFinite_iff.mpr infinite)
    have hle : s ≤ t := Nat.lt_succ_iff.mp (lt_of_threshold_le hpos hfinite hs hthreshold)
    rcases hle.lt_or_eq with hlt | rfl
    · exact before.made s hlt
    · exact ⟨_, _, made, rejected⟩
  | fails before failed => cases (cause_of_trial failed).1

/-- From a finite positive damping, a Newton step comes to a result whatever the kernels return,
at the latest after as many trials as it takes to get past the threshold. A step is the first
acceptable trial. The error that there is none is raised only if no trial with a damping below
the threshold is acceptable; the other errors are about the shapes of the arguments. -/
theorem computeWithin_concludes (K : Kernels β) (model : Model β m n) (p : Vector β n)
    (rows? : Option (List (Interval β))) {mu : α} (hpos : 0 < mu)
    (hfinite : Scalar.isFinite mu = true) :
    ∃ N r, Concludes K model p rows? mu N r ∧
      (∀ limit, threshold α ≤ 3 ^ limit * value mu → N ≤ limit) ∧
      (∀ step, r = .ok step → Returned K model p rows? mu step) ∧
      (r = .error .noInteriorStep → ∀ s, 3 ^ s * value mu < threshold α →
        ∃ x y, trial K model p (raised mu s) = .ok (x, y) ∧
          ¬ Acceptable (Bounds.leading (rows?.getD []) n) x) ∧
      ∀ cause, r = .error cause → cause = .noInteriorStep ∨
        cause = .underdetermined n m ∧ n < m ∨
        cause = .incompatible ∧ n < (rows?.getD []).length ∨
        cause = .noExtremum ∧ rows? = some [] := by
  -- too many rows are refused at once; rows that are given but empty are refused after the first
  -- trial that counts
  rcases Nat.lt_or_ge n (rows?.getD []).length with hmany | hrows
  · refine ⟨0, _, concludes_of_lt hmany, fun _ _ => Nat.zero_le _, fun step h => ?_, fun h => ?_,
      fun cause h => ?_⟩ <;> cases h
    exact .inr (.inr (.inl ⟨rfl, hmany⟩))
  obtain ⟨t, r, hends⟩ := exists_ends K model p (Bounds.leading (rows?.getD []) n) hpos hfinite
  have hlimit : ∀ limit, threshold α ≤ 3 ^ limit * value mu → t + 1 ≤ limit := fun _ =>
    lt_of_threshold_le hpos hfinite (hends.before.lt_threshold hpos hfinite)
  have hcause : ∀ cause, r = .error cause → cause = .noInteriorStep ∨
      cause = .underdetermined n m ∧ n < m := fun cause h => (h ▸ hends).cause
  by_cases hsome : rows? = some []
  · -- no row, hence no trial that counts
    subst hsome
    refine ⟨t + 1, _, hends.concludes_of_nil, hlimit, fun step h => ?_, fun h => ?_,
      fun cause h => ?_⟩
    · obtain ⟨_, -, h⟩ := except_bind_eq_ok_iff.mp h
      cases h
    · rcases except_bind_eq_error_iff.mp h with rfl | ⟨_, -, h⟩
      · exact fun s hs => hends.rejected_of_noInteriorStep hpos hfinite hs
      · cases h
    · rcases except_bind_eq_error_iff.mp h with h | ⟨_, -, h⟩
      · exact (hcause cause h).imp_right .inl
      · cases h
        exact .inr (.inr (.inr ⟨rfl, rfl⟩))
  · refine ⟨t + 1, r, hends.concludes hrows hsome, hlimit, fun step h => ?_, fun h => ?_,
      fun cause h => ?_⟩
    · exact (h ▸ hends).returned hpos hfinite hrows hsome
    · exact fun s hs => (h ▸ hends).rejected_of_noInteriorStep hpos hfinite hs
    · exact (hcause cause h).imp_right .inl

/-- Kernels that take a diagonal matrix for its own factor. -/
def plainKernels : Kernels Capped where
  cholesky a := a
  solveLower _ b := b
  solveUpper u b := Vector.ofFn fun i => b.get i / u.entry i i
  orthogonal a := (a, Mat.identity Capped _)
  singularValues _ := zeros Capped _
  trialLimit := 0

/-- A steep slope in one variable. -/
def steepModel : Model Capped 0 1 := ⟨#v[#v[0]], #v[100.0], #v[], #v[1]⟩

/-- From the damping five, the fifth trial stays between zero and one. The damping to go on with
would be 1215, which is past the threshold. -/
theorem computeWithin_concludes_steep :
    (0 : Capped) < 5.0 ∧ Scalar.isFinite (5.0 : Capped) = true ∧
      (computeWithin (plainKernels.withTrialLimit 9) steepModel #v[0.5] (some [⟨0, 1⟩])
        (5.0 : Capped)).toOption.map (fun step => (step.trials, Scalar.isInfinite step.mu)) =
          some (5, true) ∧
      ∃ N r, Concludes plainKernels steepModel #v[0.5] (some [⟨0, 1⟩]) (5.0 : Capped) N r ∧
        (∀ limit, threshold Capped ≤ 3 ^ limit * value (5.0 : Capped) → N ≤ limit) ∧
        (∀ step, r = .ok step →
          Returned plainKernels steepModel #v[0.5] (some [⟨0, 1⟩]) 5.0 step) ∧
        (r = .error .noInteriorStep → ∀ s, 3 ^ s * value (5.0 : Capped) < threshold Capped →
          ∃ x y, trial plainKernels steepModel #v[0.5] (raised (5.0 : Capped) s) = .ok (x, y) ∧
            ¬ Acceptable (Bounds.leading [⟨0, 1⟩] 1) x) ∧
        ∀ cause, r = .error cause → cause = .noInteriorStep ∨
          cause = .underdetermined 1 0 ∧ 1 < 0 ∨ cause = .incompatible ∧ 1 < 1 ∨
          cause = .noExtremum ∧ some [(⟨0, 1⟩ : Interval Capped)] = some [] := by
  have hpos : (0 : Capped) < 5.0 := by decide +kernel
  have hfinite : Scalar.isFinite (5.0 : Capped) = true := by decide +kernel
  exact ⟨hpos, hfinite, by decide +kernel,
    computeWithin_concludes plainKernels steepModel #v[0.5] (some [⟨0, 1⟩]) hpos hfinite⟩

end NewtonStep

end Sqp
