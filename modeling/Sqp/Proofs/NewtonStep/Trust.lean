import Sqp.NewtonStep
import Sqp.Proofs.Bounds
import Sqp.Proofs.Linear.Entries
import Sqp.Proofs.Scalar.Dividing

/-!
# Trust scales are positive in the box

The trust scale of a bounded variable is one over its distance to the nearest bound, plus a small
constant. Outside its bounds by exactly this constant, a variable would have no trust scale; on its
bounds and between them the sum is positive.

- `Interval.nearest_add_pos`: the divisor of a trust scale.
- `TrustPositive`: all these divisors, and all trust scales, are positive;
  `TrustPositive.of_holds` says so of a point in the box.
- `trustScale_dividing`: so trust scales in the box do not depend on divisions by zero.
-/

namespace Sqp

variable {z : ℝ → ℝ} {n : Nat} {bounds : Bounds ℝ n} {p : Vector ℝ n} {mode : BoundMode}

/-! ## One variable -/

theorem Interval.nearest_nonneg {b : Interval ℝ} {x : ℝ} (h : b.Holds x) : 0 ≤ b.nearest x := by
  rw [nearest, gaps, Scalar.lesser_eq_min]
  exact le_min (sub_nonneg.mpr h.1) (sub_nonneg.mpr h.2)

theorem Interval.nearest_add_pos {b : Interval ℝ} {x : ℝ} (h : b.Holds x) :
    0 < b.nearest x + Scalar.sqrt Scalar.epsilon :=
  add_pos_of_nonneg_of_pos (nearest_nonneg h) (Real.sqrt_pos.mpr Scalar.epsilon_pos)

theorem boundedTrust_pos {b : Interval ℝ} {x : ℝ} (h : b.Holds x) : 0 < boundedTrust b x :=
  one_div_pos.mpr (Interval.nearest_add_pos h)

theorem boundedTrust_dividing {b : Interval ℝ} {x : ℝ} (h : b.Holds x) :
    @boundedTrust ℝ (dividing z) b x = boundedTrust b x := by
  unfold boundedTrust
  rw [Scalar.epsilon_dividing]
  exact div_dividing _ (Interval.nearest_add_pos h).ne'

theorem defaultTrust_pos : (0 : ℝ) < defaultTrust := by norm_num [defaultTrust]

/-! ## The smallest trust scale -/

/-- In the box each bounded entry lies in its own interval. -/
theorem holds_of_mem_zip (h : bounds.Holds p) {b : Interval ℝ} {x : ℝ}
    (hmem : (some b, x) ∈ (Vector.zip bounds p).toList) : b.Holds x := by
  obtain ⟨i, hi⟩ := (mem_toList_iff _ _).mp hmem
  have hget : (Vector.zip bounds p).get i = (bounds.get i, p.get i) := Vector.getElem_zip
  obtain ⟨hb, hx⟩ := Prod.mk.inj (hget.symm.trans hi)
  exact hx ▸ h i b hb

/-- The smallest trust scale is the minimum of positive numbers, by induction along the fold. -/
theorem trustFloor_pos (h : bounds.Holds p) : 0 < trustFloor bounds p := by
  rw [trustFloor, ← Vector.foldl_toList]
  -- the invariant of the fold is that the smallest trust scale so far is positive
  refine List.foldlRecOn _ _ defaultTrust_pos fun least hleast pair hpair => ?_
  obtain ⟨_ | b, x⟩ := pair
  · exact hleast
  · show 0 < Scalar.lesser least (boundedTrust b x)
    rw [Scalar.lesser_eq_min]
    exact lt_min hleast (boundedTrust_pos (holds_of_mem_zip h hpair))

theorem trustFloor_dividing (h : bounds.Holds p) :
    @trustFloor ℝ (dividing z) n bounds p = trustFloor bounds p := by
  unfold trustFloor
  rw [← Vector.foldl_toList, ← Vector.foldl_toList]
  refine List.foldl_ext _ _ _ fun least pair hpair => ?_
  obtain ⟨_ | b, x⟩ := pair
  · rfl
  · exact congrArg (Scalar.lesser least) (boundedTrust_dividing (holds_of_mem_zip h hpair))

/-! ## All variables -/

/-- The trust scales of a problem with bounds. -/
theorem get_trustScale {β : Type} [Scalar β] {bounds : Bounds β n} {p : Vector β n}
    (hmode : mode ≠ .unbounded) (i : Fin n) :
    (trustScale p bounds mode).get i = match bounds.get i with
      | some b => boundedTrust b (p.get i)
      | none => if mode.boundsDecisions then defaultTrust else trustFloor bounds p := by
  cases mode with
  | unbounded => exact absurd rfl hmode
  | slackBounded | fullyBounded => exact get_zipWith _ bounds p i

/-- All trust scales are positive in the box, whether they are divided out, copied from the
smallest one or constant. -/
theorem trustScale_pos (h : mode ≠ .unbounded → bounds.Holds p) (i : Fin n) :
    0 < (trustScale p bounds mode).get i := by
  by_cases hmode : mode = .unbounded
  · subst hmode
    rw [trustScale, get_replicate]
    exact defaultTrust_pos
  · rw [get_trustScale hmode]
    cases hi : bounds.get i with
    | some b => exact boundedTrust_pos (h hmode i b hi)
    | none =>
      show 0 < if mode.boundsDecisions then defaultTrust else trustFloor bounds p
      split_ifs
      · exact defaultTrust_pos
      · exact trustFloor_pos (h hmode)

/-- So none of them depends on divisions by zero. -/
theorem trustScale_dividing (h : mode ≠ .unbounded → bounds.Holds p) :
    @trustScale ℝ (dividing z) n p bounds mode = trustScale p bounds mode := by
  by_cases hmode : mode = .unbounded
  · subst hmode
    rfl
  · refine vector_ext fun i => (@get_trustScale n mode ℝ (dividing z) bounds p hmode i).trans
      (Eq.trans ?_ (get_trustScale hmode i).symm)
    rw [trustFloor_dividing (h hmode)]
    cases hi : bounds.get i with
    | some b => exact boundedTrust_dividing (h hmode i b hi)
    | none => rfl

/-- The divisors of all trust scales at a point are positive, and so are the trust scales. Without
bounds in the mode nothing is divided. -/
structure TrustPositive (bounds : Bounds ℝ n) (mode : BoundMode) (p : Vector ℝ n) : Prop where
  divisor : mode ≠ .unbounded → ∀ i b, bounds.get i = some b →
    0 < b.nearest (p.get i) + Scalar.sqrt Scalar.epsilon
  scale : ∀ i, 0 < (trustScale p bounds mode).get i

theorem TrustPositive.of_holds (h : mode ≠ .unbounded → bounds.Holds p) :
    TrustPositive bounds mode p where
  divisor hmode i b hi := Interval.nearest_add_pos (h hmode i b hi)
  scale := trustScale_pos h

end Sqp
