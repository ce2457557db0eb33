import Sqp.Proofs.NewtonStep.Minimiser
import Sqp.Proofs.NewtonStep.Trials

/-!
# Damped steps end inside the bounds

With exact kernels a step gets shorter as its damping grows, in inverse proportion, whatever
the curvature and the constraints are. Once it is shorter than the smallest gap at the current
point, it ends inside the bounds.

- `Bounds.gaps`, `Bounds.strictlyInside_add`: a step that is shorter than all gaps.
- `NewtonStep.Model.SolvedBy.norm_le`: how long a step can be.
- `NewtonStep.exists_interior`: a Newton step is found, and how many trials that takes.
-/

namespace Sqp

open Matrix

variable {m n : Nat}

/-! ## Short steps -/

namespace Bounds

/-- The gaps of the bounded entries on both sides. -/
def gaps {β : Type} [Scalar β] (b : Bounds β n) (p : Vector β n) : List β :=
  (b.gapRows p).flatMap fun pair => [pair.1, pair.2]

variable {b : Bounds ℝ n} {p : Vector ℝ n}

theorem mem_gaps {i : Fin n} {interval : Interval ℝ} (hi : b.get i = some interval) :
    p.get i - interval.lower ∈ b.gaps p ∧ interval.upper - p.get i ∈ b.gaps p := by
  have hmem : interval.gaps (p.get i) ∈ b.gapRows p := mem_gapRows_iff.mpr ⟨i, interval, hi, rfl⟩
  exact ⟨List.mem_flatMap.mpr ⟨_, hmem, List.mem_cons_self⟩,
    List.mem_flatMap.mpr ⟨_, hmem, List.mem_cons_of_mem _ List.mem_cons_self⟩⟩

/-- All gaps of a point strictly inside are positive. -/
theorem gaps_pos (hp : b.strictlyInside p = true) : ∀ a ∈ b.gaps p, 0 < a := by
  intro a ha
  obtain ⟨pair, hpair, ha⟩ := List.mem_flatMap.mp ha
  have hpos := strictlyInside_iff_gapRows.mp hp pair hpair
  rcases List.mem_cons.mp ha with rfl | ha
  · exact hpos.1
  · rw [List.mem_singleton.mp ha]
    exact hpos.2

/-- A step that is shorter than all gaps ends strictly inside the bounds. -/
theorem strictlyInside_add {u : Vector ℝ n} (hgap : ∀ a ∈ b.gaps p, euclideanNorm u < a) :
    b.strictlyInside (p + u) = true := by
  rw [strictlyInside_iff]
  intro i interval hi
  obtain ⟨hlower, hupper⟩ := mem_gaps (p := p) hi
  have hentry := abs_le.mp (abs_get_le_euclideanNorm u i)
  rw [get_add]
  constructor
  · linarith [hgap _ hlower]
  · linarith [hgap _ hupper]

/-- Unless everything is free, something is bounded. -/
theorem exists_bounded (hbounded : ¬ b.free = true) :
    ∃ i interval, b.get i = some interval := by
  by_contra hnone
  push Not at hnone
  refine hbounded (Vector.all_eq_true.mpr fun i hi => ?_)
  cases hb : b[i] with
  | none => rfl
  | some interval => exact absurd hb (hnone ⟨i, hi⟩ interval)

/-- Then there is a smallest gap. -/
theorem exists_least_gap {i : Fin n} {interval : Interval ℝ} (hi : b.get i = some interval)
    (p : Vector ℝ n) : ∃ gap, IsLeast {a | a ∈ b.gaps p} gap := by
  obtain ⟨gap, hmem, hleast⟩ := Set.exists_min_image {a | a ∈ b.gaps p} id (List.finite_toSet _)
    ⟨_, (mem_gaps (p := p) hi).1⟩
  exact ⟨gap, hmem, hleast⟩

theorem strictlyInside_of_free (hfree : b.free = true) (p : Vector ℝ n) :
    b.strictlyInside p = true := by
  rw [strictlyInside_iff]
  intro i interval hi
  have hnone := Vector.all_eq_true.mp hfree i.val i.isLt
  rw [show b[i.val] = some interval from hi] at hnone
  cases hnone

end Bounds

namespace NewtonStep

variable {K : Kernels ℝ} {model : Model ℝ m n} {p : Vector ℝ n} {bounds : Bounds ℝ n} {mu : ℝ}

/-! ## The length of a step -/

/-- The curvature adds to what the damping takes off along a step. -/
theorem Model.dotProduct_damped_ge (hcurvature : model.curvature.toMatrix.PosDef) {c d : ℝ}
    (hc : 0 ≤ c) (hd : 0 ≤ d) (htrust : ∀ i, d ≤ model.trust.get i) (v : Fin n → ℝ) :
    c * d ^ 2 * (v ⬝ᵥ v) ≤ v ⬝ᵥ (model.damped c *ᵥ v) := by
  have hcurved : 0 ≤ v ⬝ᵥ (model.curvature.toMatrix *ᵥ v) := by
    simpa using hcurvature.posSemidef.dotProduct_mulVec_nonneg v
  have htrusted : d ^ 2 * (v ⬝ᵥ v) ≤
      v ⬝ᵥ ((diagonal fun i => model.trust.get i ^ 2) *ᵥ v) := by
    rw [dotProduct_eq_sum, dotProduct_eq_sum, Finset.mul_sum]
    refine Finset.sum_le_sum fun i _ => ?_
    have hsquare : d ^ 2 ≤ model.trust.get i ^ 2 := pow_le_pow_left₀ hd (htrust i) 2
    calc d ^ 2 * (v i * v i) ≤ model.trust.get i ^ 2 * (v i * v i) :=
          mul_le_mul_of_nonneg_right hsquare (mul_self_nonneg _)
      _ = v i * ((diagonal fun i => model.trust.get i ^ 2) *ᵥ v) i := by
          rw [mulVec_diagonal]
          ring
  rw [Model.damped, add_mulVec, smul_mulVec, dotProduct_add, dotProduct_smul, smul_eq_mul]
  linarith [mul_le_mul_of_nonneg_left htrusted hc]

/-- The length of the step that solves a damped model is at most in inverse proportion to the
damping. -/
theorem Model.SolvedBy.norm_le (hcurvature : model.curvature.toMatrix.PosDef) {c d : ℝ}
    (hc : 0 ≤ c) (hd : 0 ≤ d) (htrust : ∀ i, d ≤ model.trust.get i) {u : Vector ℝ n}
    {y : Vector ℝ m} (h : model.SolvedBy c u y) :
    c * d ^ 2 * euclideanNorm u ≤ euclideanNorm model.gradient := by
  -- the slope along the step pays for its curvature
  have hslope : u.get ⬝ᵥ (model.damped c *ᵥ u.get) = model.gradient.get ⬝ᵥ (-u).get := by
    have hzero := Model.slope_eq_zero h.stationary h.feasible
    rw [add_dotProduct, dotProduct_comm (model.damped c *ᵥ u.get)] at hzero
    rw [get_neg_eq, dotProduct_neg]
    exact eq_neg_of_add_eq_zero_right hzero
  have hneg : euclideanNorm (-u) = euclideanNorm u := by
    rw [euclideanNorm_eq_sqrt, euclideanNorm_eq_sqrt, get_neg_eq, neg_dotProduct_neg]
  have hsquare : c * d ^ 2 * euclideanNorm u * euclideanNorm u ≤
      euclideanNorm model.gradient * euclideanNorm u :=
    calc c * d ^ 2 * euclideanNorm u * euclideanNorm u
        = c * d ^ 2 * (u.get ⬝ᵥ u.get) := by rw [← euclideanNorm_mul_self]; ring
      _ ≤ u.get ⬝ᵥ (model.damped c *ᵥ u.get) :=
          Model.dotProduct_damped_ge hcurvature hc hd htrust u.get
      _ = model.gradient.get ⬝ᵥ (-u).get := hslope
      _ ≤ euclideanNorm model.gradient * euclideanNorm (-u) := dotProduct_le_euclideanNorm _ _
      _ = euclideanNorm model.gradient * euclideanNorm u := by rw [hneg]
  rcases (euclideanNorm_nonneg u).eq_or_lt with hzero | hpos
  · rw [← hzero, mul_zero]
    exact euclideanNorm_nonneg _
  · exact le_of_mul_le_mul_right hsquare hpos

/-! ## Rows of trials that end -/

theorem raised_real (mu : ℝ) (t : Nat) : raised mu t = 3 ^ t * mu := by
  induction t with
  | zero => exact (one_mul mu).symm
  | succ t ih =>
    rw [raised_succ, ih]
    norm_num
    ring

/-- A row of trials ends at the latest with a trial strictly inside the bounds. -/
theorem exists_ends_le (hmn : m ≤ n) {k : Nat}
    (hinside : ∀ u y, direction K model (3 ^ k * mu) = .ok (u, y) →
      bounds.strictlyInside (p + u) = true) :
    ∃ t ≤ k, ∃ step, Ends K model p bounds mu t (.ok step) := by
  rcases ends_or_rejected K model p bounds mu (k + 1) with hrejected | ⟨t, ht, r, hends⟩
  · -- the last of these trials is acceptable
    obtain ⟨x, y, hmade, hx⟩ := hrejected.made k k.lt_succ_self
    obtain ⟨u, hdirection, rfl⟩ := trial_eq_ok_iff.mp hmade
    rw [store_real, raised_real] at hdirection
    have hfinite : allFinite (p + u) = true := Vector.all_eq_true.mpr fun _ _ => rfl
    exact absurd (acceptable_iff.mpr (by rw [hfinite, hinside u y hdirection]; rfl)) hx
  · refine ⟨t, Nat.lt_succ_iff.mp ht, ?_⟩
    cases r with
    | ok step => exact ⟨step, hends⟩
    | error cause =>
      cases hends with
      | overflows _ _ _ infinite => exact absurd rfl infinite
      | fails _ failed => exact absurd (cause_of_trial failed).2 (not_lt.mpr hmn)

/-- A trial lies strictly inside the bounds if its damping is large against the gradient, the
trust scale and the gaps. -/
theorem strictlyInside_direction (hK : K.Exact) (hcurvature : model.curvature.toMatrix.PosDef)
    (hjacobian : LinearIndependent ℝ model.jacobian.toMatrix.row) {c d gap : ℝ} (hc : 0 < c)
    (hd : 0 < d) (htrust : ∀ i, d ≤ model.trust.get i) (hgap : 0 < gap)
    (hgaps : ∀ a ∈ bounds.gaps p, gap ≤ a)
    (hlarge : euclideanNorm model.gradient / (d ^ 2 * gap) < c) {u : Vector ℝ n} {y : Vector ℝ m}
    (h : direction K model c = .ok (u, y)) : bounds.strictlyInside (p + u) = true := by
  have hnorm := (direction_solves hK hcurvature hjacobian hc.le h).norm_le hcurvature hc.le hd.le
    htrust
  have hpos : 0 < c * d ^ 2 := by positivity
  rw [div_lt_iff₀ (by positivity)] at hlarge
  have hshort : euclideanNorm u < gap := by
    by_contra hlong
    have := mul_le_mul_of_nonneg_left (not_lt.mp hlong) hpos.le
    linarith
  exact Bounds.strictlyInside_add fun a ha => hshort.trans_le (hgaps a ha)

/-- So the row of trials ends as soon as the damping is as large as that. -/
theorem exists_ends_of_large (hK : K.Exact) (hcurvature : model.curvature.toMatrix.PosDef)
    (hjacobian : LinearIndependent ℝ model.jacobian.toMatrix.row)
    (htrust : ∀ i, 0 < model.trust.get i) (hp : bounds.strictlyInside p = true) (hmu : 0 < mu)
    {d gap : ℝ} {k : Nat} (hd : IsLeast (Set.range model.trust.get) d)
    (hgap : IsLeast {a | a ∈ bounds.gaps p} gap)
    (hlarge : euclideanNorm model.gradient / (d ^ 2 * gap) < 3 ^ k * mu) :
    ∃ t ≤ k, ∃ step, Ends K model p bounds mu t (.ok step) := by
  obtain ⟨i, hi⟩ := hd.1
  exact exists_ends_le (le_of_row_independent hjacobian) fun u y h =>
    strictlyInside_direction hK hcurvature hjacobian (by positivity) (hi ▸ htrust i)
      (fun i => hd.2 (Set.mem_range_self i)) (Bounds.gaps_pos hp gap hgap.1)
      (fun a ha => hgap.2 ha) hlarge h

/-- With exact kernels a Newton step is found that ends strictly inside the bounds. It takes one
trial without bounds, and otherwise as many as the damping needs to get past a quantity that
does not depend on the curvature and the constraints. -/
theorem exists_interior (hK : K.Exact) (hcurvature : model.curvature.toMatrix.PosDef)
    (hjacobian : LinearIndependent ℝ model.jacobian.toMatrix.row)
    (htrust : ∀ i, 0 < model.trust.get i) (hp : bounds.strictlyInside p = true) (hmu : 0 < mu) :
    ∃ step, (∀ limit ≥ step.trials,
        compute (K.withTrialLimit limit) model p bounds mu = .ok step) ∧
      bounds.strictlyInside step.parameters = true ∧
      (bounds.free = true → step.trials = 1) ∧
      ∀ d gap k, IsLeast (Set.range model.trust.get) d → IsLeast {a | a ∈ bounds.gaps p} gap →
        euclideanNorm model.gradient / (d ^ 2 * gap) < 3 ^ k * mu → step.trials ≤ k + 1 := by
  have hfree : bounds.free = true → ∃ t ≤ 0, ∃ step, Ends K model p bounds mu t (.ok step) :=
    fun h => exists_ends_le (le_of_row_independent hjacobian) fun u _ _ =>
      Bounds.strictlyInside_of_free h (p + u)
  obtain ⟨t, step, hends⟩ : ∃ t step, Ends K model p bounds mu t (.ok step) := by
    by_cases h : bounds.free = true
    · obtain ⟨t, -, step, hends⟩ := hfree h
      exact ⟨t, step, hends⟩
    · obtain ⟨i, interval, hi⟩ := Bounds.exists_bounded h
      obtain ⟨gap, hgap⟩ := Bounds.exists_least_gap hi p
      have : Nonempty (Fin n) := ⟨i⟩
      obtain ⟨j, hj⟩ := Finite.exists_min model.trust.get
      have hd : IsLeast (Set.range model.trust.get) (model.trust.get j) :=
        ⟨Set.mem_range_self j, Set.forall_mem_range.mpr hj⟩
      obtain ⟨k, hk⟩ := pow_unbounded_of_one_lt
        (euclideanNorm model.gradient / (model.trust.get j ^ 2 * gap) / mu)
        (by norm_num : (1 : ℝ) < 3)
      obtain ⟨t, -, step, hends⟩ := exists_ends_of_large hK hcurvature hjacobian htrust hp hmu hd
        hgap ((div_lt_iff₀ hmu).mp hk)
      exact ⟨t, step, hends⟩
  -- the row of trials has this end only
  have htrials : ∀ k, (∃ t ≤ k, ∃ step, Ends K model p bounds mu t (.ok step)) →
      step.trials ≤ k + 1 := by
    rintro k ⟨t', ht', step', hends'⟩
    rw [Except.ok.inj (hends.unique hends'), hends'.trials_eq]
    exact Nat.succ_le_succ ht'
  refine ⟨step, fun limit hlimit => hends.compute_eq (by rwa [hends.trials_eq] at hlimit),
    Bounds.strictlyInside_iff_gapRows.mpr hends.acceptable.gaps_pos, fun h => ?_,
    fun d gap k hd hgap hlarge => htrials k
      (exists_ends_of_large hK hcurvature hjacobian htrust hp hmu hd hgap hlarge)⟩
  have hone := htrials 0 (hfree h)
  rw [hends.trials_eq] at hone ⊢
  omega

theorem gaps_slantBounds {pair : ℝ × ℝ} (h : pair ∈ slantBounds.gapRows (zeros ℝ 2)) :
    pair = (1, 1) := by
  obtain ⟨i, interval, hi, rfl⟩ := Bounds.mem_gapRows_iff.mp h
  rw [slantBounds, get_ofFn] at hi
  split_ifs at hi
  cases hi
  norm_num [Interval.gaps]

theorem isLeast_gaps_slantBounds : IsLeast {a | a ∈ slantBounds.gaps (zeros ℝ 2)} 1 := by
  constructor
  · have hfirst : slantBounds.get 0 = some ⟨-1, 1⟩ := get_ofFn _ 0
    simpa using (Bounds.mem_gaps (p := zeros ℝ 2) hfirst).2
  · intro a ha
    obtain ⟨pair, hpair, ha⟩ := List.mem_flatMap.mp ha
    rw [gaps_slantBounds hpair] at ha
    rcases List.mem_pair.mp ha with rfl | rfl <;> exact le_rfl

/-- The gradient has length one, and so have the gaps. A damping of three is more than
enough. -/
theorem exists_interior_slant :
    (Kernels.standard : Kernels ℝ).Exact ∧ slantModel.curvature.toMatrix.PosDef ∧
      LinearIndependent ℝ slantModel.jacobian.toMatrix.row ∧
      (∀ i, 0 < slantModel.trust.get i) ∧ slantBounds.strictlyInside (zeros ℝ 2) = true ∧
      ∃ step, (∀ limit ≥ step.trials,
          compute (Kernels.standard.withTrialLimit limit) slantModel (zeros ℝ 2) slantBounds 1 =
            .ok step) ∧
        slantBounds.strictlyInside step.parameters = true ∧ step.trials ≤ 2 := by
  have hcurvature : slantModel.curvature.toMatrix.PosDef := Mat.identity_posDef 2
  have htrust : ∀ i, slantModel.trust.get i = 1 := get_replicate 1
  have hpos : ∀ i, 0 < slantModel.trust.get i := fun i => by rw [htrust]; exact one_pos
  have hinside : slantBounds.strictlyInside (zeros ℝ 2) = true := by
    refine Bounds.strictlyInside_iff_gapRows.mpr fun pair hpair => ?_
    rw [gaps_slantBounds hpair]
    exact ⟨one_pos, one_pos⟩
  have hleast : IsLeast (Set.range slantModel.trust.get) 1 :=
    ⟨⟨0, htrust 0⟩, Set.forall_mem_range.mpr fun i => (htrust i).ge⟩
  have hnorm : euclideanNorm slantModel.gradient = 1 := by
    have hgradient : slantModel.gradient.get = ![1, 0] := by
      funext i
      rw [slantModel, get_ofFn]
      fin_cases i <;> rfl
    rw [euclideanNorm_eq_sqrt, hgradient]
    norm_num
  obtain ⟨step, hcompute, hstep, -, htrials⟩ := exists_interior Kernels.standard_exact hcurvature
    slantModel_row_independent hpos hinside one_pos
  exact ⟨Kernels.standard_exact, hcurvature, slantModel_row_independent, hpos, hinside, step,
    hcompute, hstep, htrials 1 1 1 hleast isLeast_gaps_slantBounds (by rw [hnorm]; norm_num)⟩

end NewtonStep

end Sqp
