import Sqp.Proofs.Linear.Standard
import Sqp.Proofs.Restoration.Course
import Sqp.Proofs.Restoration.Direction

/-!
# Restorations and the interior of the box

A damped step ends strictly inside the bounds. A full step need not: it may be exactly as
long as the ratio test allows, and then ends on a bound.

- `Tied`: the length of the step that makes the artificial variable vanish is the smallest
  ratio.
- `move_strictlyInside_iff`: a step from the interior ends on a bound exactly in a tie.
- `Reached.strictlyInside`: so a course is in the interior as long as the artificial
  variable has not vanished, and `Reached.artificial_lt`: each step makes it smaller.
- `restore_strictlyInside_iff`: a restored point is strictly inside unless a step of the
  restoration was tied.
- `restore_touching`: a restoration from the middle of an interval to its upper bound.
-/

namespace Sqp.Restoration

open Matrix

variable {m n : Nat}

/-! ## Ties -/

/-- The step that makes the artificial variable vanish is as long as the ratio test
allows. -/
def Tied (bounds : Bounds ℝ n) (s v : Extended ℝ n) : Prop :=
  smallestRatio? bounds s.parameters v.parameters = some (s.artificial / v.artificial)

section Step

variable {bounds : Bounds ℝ n} {s v : Extended ℝ n}

/-- A tie is a full step that is as long as the smallest ratio. -/
theorem tied_iff : Tied bounds s v ↔
    s.artificial / v.artificial ∈ ratios bounds s.parameters v.parameters ∧
      ∀ r ∈ ratios bounds s.parameters v.parameters, s.artificial / v.artificial ≤ r := by
  rw [Tied, smallestRatio?_eq_min?, List.min?_eq_some_iff]

/-- A step as long as the ratio of a variable takes it to a bound. -/
theorem on_bound_of_ratio {b : Interval ℝ} {x w r : ℝ} (h : ratio? b x w = some r) :
    ¬(b.lower < x - r * w ∧ x - r * w < b.upper) := by
  unfold ratio? at h
  split_ifs at h with hneg hpos
  · cases h
    rw [div_mul_cancel₀ _ hneg.ne, sub_neg_eq_add, add_sub_cancel]
    exact fun hinside => lt_irrefl _ hinside.2
  · cases h
    rw [div_mul_cancel₀ _ hpos.ne', sub_sub_cancel]
    exact fun hinside => lt_irrefl _ hinside.1

/-- A tied step makes the artificial variable vanish. -/
theorem stepLength_of_tied (h : Tied bounds s v) :
    stepLength bounds s v = s.artificial / v.artificial := by
  rcases stepLength_cases bounds s v with ⟨hz, -⟩ | ⟨r, hr, -, hfull, -⟩
  · exact hz
  · exact absurd ((tied_iff.mp h).2 r hr) hfull.not_ge

theorem artificial_move_of_tied (hv : 0 < v.artificial) (h : Tied bounds s v) :
    (move s v (stepLength bounds s v)).artificial = 0 := by
  rw [stepLength_of_tied h, move, div_mul_cancel₀ _ hv.ne', sub_self]

/-- From the interior, a step ends on a bound exactly in a tie. -/
theorem move_strictlyInside_iff (hs : bounds.strictlyInside s.parameters = true)
    (hs₀ : 0 ≤ s.artificial) (hv : 0 < v.artificial) :
    bounds.strictlyInside (move s v (stepLength bounds s v)).parameters = true ↔
      ¬ Tied bounds s v := by
  have hp := (Bounds.strictlyInside_iff bounds _).mp hs
  rw [Bounds.strictlyInside_iff]
  constructor
  · intro hinside htied
    -- the tied step goes as far as the ratio of some variable, which takes it onto its bound
    obtain ⟨i, b, hb, hratio⟩ := mem_ratios_iff.mp (tied_iff.mp htied).1
    have hi := hinside i b hb
    rw [get_move, stepLength_of_tied htied] at hi
    exact on_bound_of_ratio hratio hi
  · intro htied i b hb
    rw [get_move]
    refine inside_of_lt_ratio (hp i b hb)
      (stepLength_mem (Bounds.holds_of_strictlyInside hs) hs₀ hv).1 fun r hr => ?_
    have hmem : r ∈ ratios bounds s.parameters v.parameters :=
      mem_ratios_iff.mpr ⟨i, b, hb, hr⟩
    rcases stepLength_cases bounds s v with ⟨hz, hle⟩ | ⟨r', -, hz, -, hle⟩
    · -- the full step is no longer than any ratio, and not as long as one of them
      rw [hz]
      refine lt_of_le_of_ne (hle r hmem) fun heq => htied (tied_iff.mpr ⟨?_, hle⟩)
      rwa [heq]
    · have hr₀ : 0 < r := ratio?_pos (hp i b hb) hr
      rw [hz]
      linarith [hle r hmem]

/-- From the interior, a step makes the artificial variable smaller. -/
theorem artificial_move_lt (hs : bounds.strictlyInside s.parameters = true)
    (hs₀ : 0 < s.artificial) (hv : 0 < v.artificial) :
    (move s v (stepLength bounds s v)).artificial < s.artificial := by
  have hz : 0 < stepLength bounds s v := by
    rcases stepLength_cases bounds s v with ⟨hz, -⟩ | ⟨r, hr, hz, -, -⟩
    · rw [hz]
      exact div_pos hs₀ hv
    · obtain ⟨i, b, hb, hratio⟩ := mem_ratios_iff.mp hr
      rw [hz]
      have hr₀ : 0 < r := ratio?_pos ((Bounds.strictlyInside_iff bounds _).mp hs i b hb) hratio
      positivity
  exact sub_lt_self _ (mul_pos hz hv)

end Step

/-! ## Courses -/

section Course

variable {K : Kernels ℝ} {task : Task ℝ ℝ m n} {p : Vector ℝ n}

/-- A course is in the interior as long as the artificial variable has not vanished. -/
theorem Reached.strictlyInside (ht : 0 < task.tolerance)
    (hp : task.bounds.strictlyInside p = true) {k : Nat} {s : Extended ℝ n}
    (h : Reached K task p k s) (hs : 0 < s.artificial) :
    task.bounds.strictlyInside s.parameters = true := by
  induction h with
  | start => exact hp
  | step hs' _ hv ih =>
    have hpos := ht.trans_le hv.unfinished
    refine (move_strictlyInside_iff (ih hpos) hpos.le hv.decreases).mpr fun htied => ?_
    exact hs.ne' (artificial_move_of_tied hv.decreases htied)

/-- Each step of a course starts in the interior. -/
theorem StepsAlong.strictlyInside {s v : Extended ℝ n} {k : Nat} (hv : StepsAlong K task s v)
    (ht : 0 < task.tolerance) (hp : task.bounds.strictlyInside p = true)
    (h : Reached K task p k s) : task.bounds.strictlyInside s.parameters = true :=
  h.strictlyInside ht hp (ht.trans_le hv.unfinished)

/-- Along a course the artificial variable gets smaller. -/
theorem Reached.artificial_lt (ht : 0 < task.tolerance)
    (hp : task.bounds.strictlyInside p = true) {j k : Nat} {s s' : Extended ℝ n}
    (h' : Reached K task p k s') (h : Reached K task p j s) (hjk : j < k) :
    s'.artificial < s.artificial := by
  induction h' with
  | start => exact absurd hjk (Nat.not_lt_zero j)
  | step hs' _ hv ih =>
    have hlt := artificial_move_lt (hv.strictlyInside ht hp hs') (ht.trans_le hv.unfinished)
      hv.decreases
    rcases Nat.lt_succ_iff_lt_or_eq.mp hjk with hlt' | rfl
    · exact hlt.trans (ih hlt')
    · rwa [h.unique hs']

/-- The artificial variable does not grow along a restoration. -/
theorem Reached.artificial_le (ht : 0 < task.tolerance)
    (hp : task.bounds.strictlyInside p = true) {j k : Nat} {s s' : Extended ℝ n}
    (h' : Reached K task p k s') (h : Reached K task p j s) (hjk : j ≤ k) :
    s'.artificial ≤ s.artificial := by
  rcases hjk.lt_or_eq with hjk | rfl
  · exact (h'.artificial_lt ht hp h hjk).le
  · rw [h.unique h']

/-- There is no step once the artificial variable has vanished. -/
theorem Reached.last_of_tied (ht : 0 < task.tolerance) {k : Nat} {s v : Extended ℝ n}
    (hs : Reached K task p k s) (hk : k < stepLimit) (hv : StepsAlong K task s v)
    (htied : Tied task.bounds s v) :
    Last K task p (k + 1) (move s v (stepLength task.bounds s v)) where
  reached := hs.step hk hv
  stuck := fun _ v' hv' => by
    have hzero := hv'.unfinished
    rw [artificial_move_of_tied hv.decreases htied] at hzero
    exact ht.not_ge hzero

/-- The last state is in the interior unless a step was tied. -/
theorem Last.strictlyInside_iff (ht : 0 < task.tolerance)
    (hp : task.bounds.strictlyInside p = true) {k : Nat} {s : Extended ℝ n}
    (h : Last K task p k s) :
    task.bounds.strictlyInside s.parameters = true ↔
      ¬ ∃ j s' v, Reached K task p j s' ∧ j < stepLimit ∧ StepsAlong K task s' v ∧
        Tied task.bounds s' v := by
  have hmove : ∀ {j : Nat} {s' v : Extended ℝ n}, Reached K task p j s' →
      StepsAlong K task s' v →
      (task.bounds.strictlyInside (move s' v (stepLength task.bounds s' v)).parameters = true ↔
        ¬ Tied task.bounds s' v) := fun hs' hv =>
    move_strictlyInside_iff (hv.strictlyInside ht hp hs') (ht.trans_le hv.unfinished).le
      hv.decreases
  constructor
  · rintro hinside ⟨j, s', v, hs', hj, hv, htied⟩
    rw [h.unique (hs'.last_of_tied ht hj hv htied)] at hinside
    exact (hmove hs' hv).mp hinside htied
  · intro hties
    cases h.reached with
    | start => exact hp
    | step hs' hj hv =>
      exact (hmove hs' hv).mpr fun htied => hties ⟨_, _, _, hs', hj, hv, htied⟩

/-- A restoration that starts in the interior of the box does not leave the box. It ends
in the interior unless one of its steps is tied. -/
theorem restore_strictlyInside_iff (ht : 0 < task.tolerance)
    (hp : task.bounds.strictlyInside p = true) :
    (m ≤ n + 1 → task.bounds.free = false → ∃ o, restore K task p = .ok o) ∧
      ∀ o, restore K task p = .ok o → task.bounds.Holds o.parameters ∧
        (task.bounds.strictlyInside o.parameters = true ↔
          ¬ ∃ k s v, Reached K task p k s ∧ k < stepLimit ∧ StepsAlong K task s v ∧
            Tied task.bounds s v) := by
  refine ⟨fun hmn hbounded => exists_restore hmn hbounded p, fun o ho => ?_⟩
  refine ⟨restore_holds (Bounds.holds_of_strictlyInside hp) ho, ?_⟩
  obtain ⟨k, s, hlast, hparameters, -⟩ := restore_last ho
  rw [hparameters]
  exact hlast.strictlyInside_iff ht hp

end Course

/-! ## A restoration that ends on a bound -/

/-- The constraint `x = 1`, to be restored from `1 / 2` between the bounds zero and one. -/
noncomputable def touchingTask : Task ℝ ℝ 1 1 where
  jacobian := Mat.identity ℝ 1
  residuals := Vector.replicate 1 (-0.5)
  bounds := Vector.replicate 1 (some ⟨0, 1⟩)
  mode := .fullyBounded
  tolerance := 0.05

theorem touchingTask_strictlyInside :
    touchingTask.bounds.strictlyInside #v[(1 / 2 : ℝ)] = true := by
  rw [Bounds.strictlyInside_iff]
  intro i b hb
  fin_cases i
  cases hb
  norm_num [Vector.get]

theorem touchingTask_bounded : touchingTask.bounds.free = false := by
  simp [Bounds.free, touchingTask]

theorem touchingTask_residual : touchingTask.residuals.get 0 = -(1 / 2) := by
  rw [touchingTask, get_replicate]
  norm_num

theorem touchingTask_tolerance : 0 < touchingTask.tolerance := by
  rw [touchingTask]
  norm_num

/-- The scaled columns of the one direction, and its target. -/
theorem leastSquares_touching :
    Kernels.standard.leastSquares (#v[#v[(1 / 2 : ℝ)], #v[1 / 2]] : Mat ℝ 2 1) #v[0, 1] false =
      .ok #v[1] := by
  -- one column, so that the normal equations are one equation for the one unknown
  set a : Mat ℝ 2 1 := #v[#v[1 / 2], #v[1 / 2]]
  have hentry : ∀ i, a.toMatrix i 0 = 1 / 2 := fun i => by fin_cases i <;> rfl
  have hcol : LinearIndependent ℝ a.toMatrix.col := by
    refine col_independent_iff.mpr fun x hx => ?_
    have h₀ := congrFun hx 0
    rw [mulVec_eq_sum, Fin.sum_univ_one, hentry] at h₀
    funext j
    rw [Subsingleton.elim j 0]
    simpa using h₀
  obtain ⟨y, hy⟩ := Kernels.exists_leastSquares hcol #v[(0 : ℝ), 1] false
  have hnormal := congrFun (Kernels.standard_exact.leastSquares hcol hy) 0
  have hy₁ : y.get 0 = 1 := by
    simp only [mulVec_eq_sum, Fin.sum_univ_two, Fin.sum_univ_one, transpose_apply, hentry,
      show (#v[(0 : ℝ), 1]).get 0 = 0 from rfl, show (#v[(0 : ℝ), 1]).get 1 = 1 from rfl] at hnormal
    linarith
  rw [hy]
  congr 1
  refine vector_ext fun i => ?_
  rw [Subsingleton.elim i 0, hy₁]
  rfl

theorem direction_touching : ∃ v, direction Kernels.standard touchingTask ⟨#v[1 / 2], 1⟩ = .ok v ∧
    v.parameters.get 0 = -(1 / 4) ∧ v.artificial = 1 / 2 := by
  have hscales : scales touchingTask.bounds touchingTask.mode #v[(1 / 2 : ℝ)] = .ok #v[1 / 2] := by
    refine congrArg Except.ok (vector_ext fun i => ?_)
    rw [get_zipWith, Subsingleton.elim i 0]
    show (Interval.mk (0 : ℝ) 1).nearest (1 / 2) = 1 / 2
    rw [Interval.nearest, Interval.gaps, Scalar.lesser_eq_min]
    norm_num
  set d : Vector ℝ 2 := #v[1 / 2, 1]
  have hsystem : system touchingTask d = #v[#v[1 / 2], #v[1 / 2]] := by
    refine Mat.ext_entry fun i j => ?_
    rw [Subsingleton.elim j 0, ← Mat.toMatrix_apply, toMatrix_system, diagonal_mul,
      Mat.toMatrix_apply]
    fin_cases i
    · exact (congrArg _ (entry_extendedColumns_castSucc touchingTask 0 0)).trans (mul_one _)
    · refine (congrArg _ (entry_extendedColumns_last touchingTask 0)).trans ?_
      rw [touchingTask_residual]
      exact (one_mul _).trans (neg_neg _)
  have htarget : target d = #v[0, 1] := by
    refine vector_ext fun i => ?_
    rw [target, get_mulEach]
    fin_cases i
    · exact mul_zero _
    · exact mul_one _
  refine ⟨along touchingTask d #v[1], direction_eq_ok_iff.mpr ⟨_, _, hscales, ?_, rfl⟩, ?_, ?_⟩
  · exact (congrArg₂ (Kernels.standard.leastSquares · · false) hsystem htarget).trans
      leastSquares_touching
  · rw [get_along, Fin.sum_univ_one]
    show -((1 / 2 : ℝ) ^ 2 * (1 * 1)) = _
    norm_num
  · rw [artificial_along, Fin.sum_univ_one, touchingTask_residual]
    show (1 : ℝ) ^ 2 * (1 + -(1 / 2) * 1) = _
    norm_num

/-- The first step is tied. -/
theorem tied_touching : ∃ v, StepsAlong Kernels.standard touchingTask ⟨#v[1 / 2], 1⟩ v ∧
    v.parameters.get 0 = -(1 / 4) ∧ v.artificial = 1 / 2 ∧
    Tied touchingTask.bounds ⟨#v[1 / 2], 1⟩ v := by
  obtain ⟨v, hv, hparameter, hartificial⟩ := direction_touching
  have hratio : ∀ i b, touchingTask.bounds.get i = some b →
      ratio? b ((#v[1 / 2] : Vector ℝ 1).get i) (v.parameters.get i) = some 2 := by
    intro i b hb
    rw [Subsingleton.elim i 0] at hb ⊢
    cases hb
    rw [hparameter, ratio?, if_pos (by norm_num)]
    show some (-((1 : ℝ) - 1 / 2) / -(1 / 4)) = some 2
    norm_num
  -- the artificial variable would vanish where the variable reaches its bound
  have hfull : (1 : ℝ) / v.artificial = 2 := by
    rw [hartificial]
    norm_num
  have hbounded := requireSome_of_bounded touchingTask_bounded
  refine ⟨v, ⟨?_, hv, ?_, hbounded⟩, hparameter, hartificial, tied_iff.mpr ⟨?_, fun r hr => ?_⟩⟩
  · show (0.05 : ℝ) ≤ 1
    norm_num
  · rw [hartificial]
    norm_num
  · rw [hfull]
    exact mem_ratios_iff.mpr ⟨0, ⟨0, 1⟩, rfl, hratio 0 _ rfl⟩
  · obtain ⟨i, b, hb, hr⟩ := mem_ratios_iff.mp hr
    rw [hfull]
    exact (Option.some.inj ((hratio i b hb).symm.trans hr)).le

/-- A restoration that ends on a bound, since its only step is tied. -/
theorem restore_strictlyInside_iff_touching :
    0 < touchingTask.tolerance ∧ touchingTask.bounds.strictlyInside #v[1 / 2] = true ∧
      ∃ o, restore Kernels.standard touchingTask #v[1 / 2] = .ok o ∧
        touchingTask.bounds.Holds o.parameters ∧
        ¬ touchingTask.bounds.strictlyInside o.parameters = true := by
  obtain ⟨hreturns, hall⟩ := restore_strictlyInside_iff (K := Kernels.standard)
    touchingTask_tolerance touchingTask_strictlyInside
  obtain ⟨o, ho⟩ := hreturns (by decide) touchingTask_bounded
  obtain ⟨v, hv, -, -, htied⟩ := tied_touching
  obtain ⟨hholds, hinside⟩ := hall o ho
  refine ⟨touchingTask_tolerance, touchingTask_strictlyInside, o, ho, hholds, ?_⟩
  exact fun h => hinside.mp h ⟨0, _, v, .start, by decide, hv, htied⟩

/-- A full step from the interior can end on a bound. -/
theorem restore_touching :
    touchingTask.bounds.strictlyInside #v[1 / 2] = true ∧ 0 < touchingTask.tolerance ∧
      (Kernels.standard : Kernels ℝ).Exact ∧
      ∃ o, restore Kernels.standard touchingTask #v[1 / 2] = .ok o ∧ o.parameters.get 0 = 1 ∧
        touchingTask.bounds.strictlyInside o.parameters = false := by
  refine ⟨touchingTask_strictlyInside, touchingTask_tolerance, Kernels.standard_exact, ?_⟩
  obtain ⟨o, ho⟩ :=
    exists_restore (K := Kernels.standard) (by decide) touchingTask_bounded #v[1 / 2]
  obtain ⟨k, s, hlast, hparameters, -⟩ := restore_last ho
  obtain ⟨v, hv, hparameter, hartificial, htied⟩ := tied_touching
  cases hlast.unique (Reached.start.last_of_tied touchingTask_tolerance (by decide) hv htied)
  refine ⟨o, ho, ?_, ?_⟩
  · rw [hparameters, get_move, stepLength_of_tied htied, hparameter, hartificial]
    show (1 / 2 : ℝ) - 1 / (1 / 2) * -(1 / 4) = 1
    norm_num
  · rw [hparameters, ← Bool.not_eq_true, move_strictlyInside_iff touchingTask_strictlyInside
      zero_le_one hv.decreases]
    exact not_not_intro htied

end Sqp.Restoration
