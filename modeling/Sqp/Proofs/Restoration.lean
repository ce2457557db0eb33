import Sqp.Proofs.Bounds
import Sqp.Restoration

/-!
# Restoration steps stay in the box

In exact arithmetic, and whatever directions the kernels lead to, a restoration step goes
at most as far as the ratio test allows, so no bounded variable leaves its interval and
the artificial variable does not become negative.

- `smallestRatio?_eq_min?`: the fold of the ratio test is the minimum of the ratios.
- `stepLength_cases`: a step either makes the artificial variable vanish, or goes nine
  tenths of the way to the nearest bound.
- `move_holds`: a step does not leave the box.
-/

namespace Sqp.Restoration

variable {m n : Nat}

/-! ## The ratio test -/

/-- The ratios of the bounded variables that move. -/
noncomputable def ratios (bounds : Bounds ℝ n) (p v : Vector ℝ n) : List ℝ :=
  (List.finRange n).filterMap fun i => (bounds.get i).bind fun b => ratio? b (p.get i) (v.get i)

theorem mem_ratios_iff {bounds : Bounds ℝ n} {p v : Vector ℝ n} {r : ℝ} :
    r ∈ ratios bounds p v ↔
      ∃ i b, bounds.get i = some b ∧ ratio? b (p.get i) (v.get i) = some r := by
  simp [ratios, List.mem_filterMap, Option.bind_eq_some_iff]

/-- A fold that keeps the smallest value met so far, and ignores what has none, computes
a minimum. The step is described by what it does, so that any way to write it fits. -/
theorem foldl_eq_min? {γ : Type} {g : γ → Option ℝ} {step : Option ℝ → γ → Option ℝ}
    (hskip : ∀ least? x, g x = none → step least? x = least?)
    (hfirst : ∀ x r, g x = some r → step none x = some r)
    (hnext : ∀ a x r, g x = some r → step (some a) x = some (min a r)) (l : List γ) :
    l.foldl step none = (l.filterMap g).min? := by
  -- once there is a least ratio, the loop only takes minima
  have hsome : ∀ (l : List γ) (a : ℝ),
      l.foldl step (some a) = some ((l.filterMap g).foldl min a) := by
    intro l
    induction l with
    | nil => exact fun _ => rfl
    | cons x l ih =>
      intro a
      cases hx : g x with
      | none => rw [List.foldl_cons, hskip _ x hx, ih, List.filterMap_cons_none hx]
      | some r =>
        rw [List.foldl_cons, hnext a x r hx, ih, List.filterMap_cons_some hx, List.foldl_cons]
  induction l with
  | nil => rfl
  | cons x l ih =>
    cases hx : g x with
    | none => rw [List.foldl_cons, hskip _ x hx, ih, List.filterMap_cons_none hx]
    | some r =>
      rw [List.foldl_cons, hfirst x r hx, hsome, List.filterMap_cons_some hx, List.min?_cons']

theorem smallestRatio?_eq_min? (bounds : Bounds ℝ n) (p v : Vector ℝ n) :
    smallestRatio? bounds p v = (ratios bounds p v).min? := by
  have hlist : (Vector.zip bounds (Vector.zip p v)).toList =
      (List.finRange n).map fun i => (bounds.get i, p.get i, v.get i) := by
    rw [toList_eq_ofFn, List.ofFn_eq_map]
    congr 1
    funext i
    rw [get_zip, get_zip]
  rw [smallestRatio?, ← Vector.foldl_toList, hlist, List.foldl_map]
  refine foldl_eq_min? (fun least? i hi => ?_) (fun i r hi => ?_) (fun a i r hi => ?_) _
  · simp only [hi]
  · simp only [hi]
  · simp only [hi, Scalar.lesser_eq_min]

/-- A variable inside its interval is no negative way from its bounds. -/
theorem ratio?_nonneg {b : Interval ℝ} {x v r : ℝ} (hx : b.Holds x) (h : ratio? b x v = some r) :
    0 ≤ r := by
  unfold ratio? at h
  split_ifs at h with hneg hpos
  · cases h
    exact div_nonneg_of_nonpos (by linarith [hx.2]) hneg.le
  · cases h
    exact div_nonneg (by linarith [hx.1]) hpos.le

theorem ratio?_pos {b : Interval ℝ} {x v r : ℝ} (hx : b.lower < x ∧ x < b.upper)
    (h : ratio? b x v = some r) : 0 < r := by
  unfold ratio? at h
  split_ifs at h with hneg hpos
  · cases h
    exact div_pos_of_neg_of_neg (by linarith [hx.2]) hneg
  · cases h
    exact div_pos (by linarith [hx.1]) hpos

/-- A step no longer than the ratio of a variable keeps it in its interval. -/
theorem holds_of_le_ratio {b : Interval ℝ} {x v z : ℝ} (hx : b.Holds x) (hz : 0 ≤ z)
    (h : ∀ r, ratio? b x v = some r → z ≤ r) : b.Holds (x - z * v) := by
  obtain ⟨hlower, hupper⟩ := hx
  unfold ratio? at h
  rcases lt_trichotomy v 0 with hv | rfl | hv
  · have hr := h _ (if_pos hv)
    rw [le_div_iff_of_neg hv] at hr
    exact ⟨by nlinarith, by linarith⟩
  · simpa using ⟨hlower, hupper⟩
  · have hr := h _ (by rw [if_neg hv.not_gt, if_pos hv])
    rw [le_div_iff₀ hv] at hr
    exact ⟨by linarith, by nlinarith⟩

/-- A step shorter than the ratio of a variable keeps it strictly inside. -/
theorem inside_of_lt_ratio {b : Interval ℝ} {x v z : ℝ} (hx : b.lower < x ∧ x < b.upper)
    (hz : 0 ≤ z) (h : ∀ r, ratio? b x v = some r → z < r) :
    b.lower < x - z * v ∧ x - z * v < b.upper := by
  -- a longer step `r` does not leave the interval yet
  obtain ⟨r, hzr, hr⟩ : ∃ r, z < r ∧ ∀ r', ratio? b x v = some r' → r ≤ r' := by
    cases hratio : ratio? b x v with
    | none => exact ⟨z + 1, lt_add_one z, nofun⟩
    | some r => exact ⟨r, h r hratio, fun _ h' => (Option.some.inj h').le⟩
  have hend : b.Holds (x - r * v) := holds_of_le_ratio ⟨hx.1.le, hx.2.le⟩ (hz.trans hzr.le) hr
  have hrest : 0 < r - z := sub_pos.mpr hzr
  -- the shorter one ends at a mean of `x` and of the end of that step, with a part of `x` in it
  have hmean : r * (x - z * v) = (r - z) * x + z * (x - r * v) := by ring
  have hpos : 0 < r := hz.trans_lt hzr
  refine ⟨lt_of_mul_lt_mul_left ?_ hpos.le, lt_of_mul_lt_mul_left ?_ hpos.le⟩
  · rw [hmean]
    linarith [mul_lt_mul_of_pos_left hx.1 hrest, mul_le_mul_of_nonneg_left hend.1 hz]
  · rw [hmean]
    linarith [mul_lt_mul_of_pos_left hx.2 hrest, mul_le_mul_of_nonneg_left hend.2 hz]

/-! ## Step lengths -/

/-- A step makes the artificial variable vanish if no ratio is smaller, and otherwise
goes nine tenths of the smallest ratio. -/
theorem stepLength_cases (bounds : Bounds ℝ n) (s v : Extended ℝ n) :
    (stepLength bounds s v = s.artificial / v.artificial ∧
      ∀ r ∈ ratios bounds s.parameters v.parameters, s.artificial / v.artificial ≤ r) ∨
    ∃ r ∈ ratios bounds s.parameters v.parameters,
      stepLength bounds s v = 9 / 10 * r ∧ r < s.artificial / v.artificial ∧
        ∀ r' ∈ ratios bounds s.parameters v.parameters, r ≤ r' := by
  unfold stepLength
  rw [smallestRatio?_eq_min?]
  simp only [load_real]
  cases hmin : (ratios bounds s.parameters v.parameters).min? with
  | none =>
    -- no variable moves towards a bound
    rw [List.min?_eq_none_iff] at hmin
    left
    simp [hmin]
  | some r =>
    obtain ⟨hmem, hle⟩ := List.min?_eq_some_iff.mp hmin
    simp only [Scalar.keepMin_eq_min]
    rcases le_or_gt (s.artificial / v.artificial) r with hfull | hfull
    · left
      rw [min_eq_left hfull, if_pos le_rfl]
      exact ⟨rfl, fun r' hr' => hfull.trans (hle r' hr')⟩
    · right
      rw [min_eq_right hfull.le, if_neg hfull.not_ge]
      exact ⟨r, hmem, by norm_num [safety], hfull, hle⟩

/-- A step moves each variable against its part of the direction. -/
theorem get_move (s v : Extended ℝ n) (z : ℝ) (i : Fin n) :
    (move s v z).parameters.get i = s.parameters.get i - z * v.parameters.get i := by
  rw [move, get_sub, get_scaled]

/-- The length of a step is not negative and at most what makes the artificial variable
vanish. -/
theorem stepLength_mem {bounds : Bounds ℝ n} {s v : Extended ℝ n}
    (hp : bounds.Holds s.parameters) (hs : 0 ≤ s.artificial) (hv : 0 < v.artificial) :
    0 ≤ stepLength bounds s v ∧ stepLength bounds s v * v.artificial ≤ s.artificial := by
  rcases stepLength_cases bounds s v with ⟨hz, -⟩ | ⟨r, hr, hz, hfull, -⟩
  · rw [hz, div_mul_cancel₀ _ hv.ne']
    exact ⟨div_nonneg hs hv.le, le_rfl⟩
  · obtain ⟨i, b, hb, hratio⟩ := mem_ratios_iff.mp hr
    have hr₀ : 0 ≤ r := ratio?_nonneg (hp i b hb) hratio
    rw [lt_div_iff₀ hv] at hfull
    rw [hz]
    exact ⟨by linarith, by nlinarith⟩

/-- A step does not leave the box. -/
theorem move_holds {bounds : Bounds ℝ n} {s v : Extended ℝ n} (hp : bounds.Holds s.parameters)
    (hs : 0 ≤ s.artificial) (hv : 0 < v.artificial) :
    bounds.Holds (move s v (stepLength bounds s v)).parameters := by
  intro i b hb
  rw [get_move]
  refine holds_of_le_ratio (hp i b hb) (stepLength_mem hp hs hv).1 fun r hr => ?_
  have hmem : r ∈ ratios bounds s.parameters v.parameters := mem_ratios_iff.mpr ⟨i, b, hb, hr⟩
  rcases stepLength_cases bounds s v with ⟨hz, hle⟩ | ⟨r', hr', hz, -, hle⟩
  · rw [hz]
    exact hle r hmem
  · have hr₀ : 0 ≤ r := ratio?_nonneg (hp i b hb) hr
    rw [hz]
    linarith [hle r hmem]

end Sqp.Restoration
