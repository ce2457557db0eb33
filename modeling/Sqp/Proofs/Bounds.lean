import Sqp.Proofs.LineSearch
import Sqp.Problem.Bounds

/-!
# Boxes

The points that meet all bounds form a closed box; the solver keeps its points in it.

- `Bounds.strictlyInside_iff_gapRows`: the test of trial points, in terms of the gaps.
- `Bounds.Holds`: every bounded entry lies in its closed interval.
- `Bounds.strictlyInside_iff`: the test of trial points, in terms of the order.
- `Bounds.holds_along`: a box is convex.
- `Bounds.holds_divide_iff`: dividing bounds and point by positive factors changes
  nothing.
-/

namespace Sqp

variable {n : Nat}

namespace Interval

/-- The value lies between the bounds or on one of them. -/
def Holds (b : Interval ℝ) (x : ℝ) : Prop := b.lower ≤ x ∧ x ≤ b.upper

theorem contains_iff (b : Interval ℝ) (x : ℝ) :
    b.contains x = true ↔ b.lower < x ∧ x < b.upper := by
  rw [contains, Bool.and_eq_true, decide_eq_true_iff, decide_eq_true_iff]

/-- The distance to the nearer bound is positive exactly strictly between the bounds. -/
theorem nearest_pos_iff (b : Interval ℝ) (x : ℝ) :
    0 < b.nearest x ↔ b.lower < x ∧ x < b.upper := by
  rw [nearest, gaps, Scalar.lesser_eq_min, lt_min_iff]
  exact and_congr sub_pos sub_pos

end Interval

namespace Bounds

/-- The pairs of gaps are those of the bounded entries. -/
theorem mem_gapRows_iff {β : Type} [Scalar β] {b : Bounds β n} {p : Vector β n} {gap : β × β} :
    gap ∈ b.gapRows p ↔ ∃ i interval, b.get i = some interval ∧ gap = interval.gaps (p.get i) := by
  rw [gapRows, List.mem_filterMap]
  constructor
  · rintro ⟨gap?, hmem, hgap⟩
    obtain ⟨i, rfl⟩ := (mem_toList_iff _ _).mp hmem
    rw [get_zipWith, id_eq, Option.map_eq_some_iff] at hgap
    obtain ⟨interval, hi, rfl⟩ := hgap
    exact ⟨i, interval, hi, rfl⟩
  · rintro ⟨i, interval, hi, rfl⟩
    refine ⟨_, (mem_toList_iff _ _).mpr ⟨i, rfl⟩, ?_⟩
    rw [get_zipWith, hi]
    rfl

/-- The test of trial points asks for positive gaps on both sides. -/
theorem strictlyInside_iff_gapRows {β : Type} [Scalar β] {b : Bounds β n} {p : Vector β n} :
    b.strictlyInside p = true ↔ ∀ gap ∈ b.gapRows p, 0 < gap.1 ∧ 0 < gap.2 := by
  -- one entry first; entries without bounds pass the test and have no gaps
  have hclears : ∀ (interval : Interval β) (x : β),
      interval.clears x = true ↔ 0 < (interval.gaps x).1 ∧ 0 < (interval.gaps x).2 := fun _ _ => by
    rw [Interval.clears, Bool.and_eq_true, decide_eq_true_iff, decide_eq_true_iff]
  rw [strictlyInside, Vector.all_eq_true]
  constructor
  · intro h gap hgap
    obtain ⟨i, interval, hi, rfl⟩ := mem_gapRows_iff.mp hgap
    have hclear := h i.val i.isLt
    rw [Vector.getElem_zipWith] at hclear
    rw [show b[i.val] = some interval from hi] at hclear
    exact (hclears interval _).mp hclear
  · intro h i hi
    rw [Vector.getElem_zipWith]
    cases hb : b[i] with
    | none => rfl
    | some interval =>
      exact (hclears interval _).mpr (h _ (mem_gapRows_iff.mpr ⟨⟨i, hi⟩, interval, hb, rfl⟩))

/-- Every bounded entry lies in its closed interval. -/
def Holds (b : Bounds ℝ n) (p : Vector ℝ n) : Prop :=
  ∀ i interval, b.get i = some interval → interval.Holds (p.get i)

theorem strictlyInside_iff (b : Bounds ℝ n) (p : Vector ℝ n) :
    b.strictlyInside p = true ↔
      ∀ i interval, b.get i = some interval →
        interval.lower < p.get i ∧ p.get i < interval.upper := by
  rw [strictlyInside_iff_gapRows]
  constructor
  · intro h i interval hi
    obtain ⟨hlower, hupper⟩ := h _ (mem_gapRows_iff.mpr ⟨i, interval, hi, rfl⟩)
    exact ⟨sub_pos.mp hlower, sub_pos.mp hupper⟩
  · intro h gap hgap
    obtain ⟨i, interval, hi, rfl⟩ := mem_gapRows_iff.mp hgap
    obtain ⟨hlower, hupper⟩ := h i interval hi
    exact ⟨sub_pos.mpr hlower, sub_pos.mpr hupper⟩

theorem holds_of_strictlyInside {b : Bounds ℝ n} {p : Vector ℝ n}
    (h : b.strictlyInside p = true) : b.Holds p := by
  intro i interval hi
  have := (strictlyInside_iff b p).mp h i interval hi
  exact ⟨this.1.le, this.2.le⟩

/-- A box is convex. -/
theorem holds_along {b : Bounds ℝ n} {p v : Vector ℝ n} (hp : b.Holds p) (hv : b.Holds v) {a : ℝ}
    (ha₀ : 0 ≤ a) (ha₁ : a ≤ 1) : b.Holds (LineSearch.along p v a) := by
  intro i interval hi
  obtain ⟨hp₁, hp₂⟩ := hp i interval hi
  obtain ⟨hv₁, hv₂⟩ := hv i interval hi
  rw [LineSearch.get_along]
  have ha : 0 ≤ 1 - a := sub_nonneg.mpr ha₁
  constructor
  · calc interval.lower = (1 - a) * interval.lower + a * interval.lower := by ring
      _ ≤ (1 - a) * p.get i + a * v.get i := by gcongr
  · calc (1 - a) * p.get i + a * v.get i
        ≤ (1 - a) * interval.upper + a * interval.upper := by gcongr
      _ = interval.upper := by ring

theorem get_divide (b : Bounds ℝ n) (s : Vector ℝ n) (i : Fin n) :
    (b.divide s).get i = (b.get i).map fun interval => interval.divide (s.get i) :=
  get_zipWith _ b s i

/-- What holds of all divided intervals. -/
theorem forall_divide_iff {b : Bounds ℝ n} {s : Vector ℝ n} {R : Fin n → Interval ℝ → Prop} :
    (∀ i interval, (b.divide s).get i = some interval → R i interval) ↔
      ∀ i interval, b.get i = some interval → R i (interval.divide (s.get i)) := by
  constructor
  · intro h i interval hi
    exact h i _ (by rw [get_divide, hi]; rfl)
  · intro h i interval hi
    rw [get_divide, Option.map_eq_some_iff] at hi
    obtain ⟨interval', hi, rfl⟩ := hi
    exact h i interval' hi

/-- Positive scale factors take a box to a box. -/
theorem holds_divide_iff {b : Bounds ℝ n} {s p : Vector ℝ n} (hs : ∀ i, 0 < s.get i) :
    (b.divide s).Holds p ↔ b.Holds (mulEach p s) := by
  refine forall_divide_iff.trans (forall₃_congr fun i interval _ => ?_)
  rw [get_mulEach, Interval.Holds, Interval.divide, mul_one_div, mul_one_div,
    div_le_iff₀ (hs i), le_div_iff₀ (hs i)]
  rfl

/-- Positive scale factors take the interior of a box to the interior of a box. -/
theorem strictlyInside_divide_iff {b : Bounds ℝ n} {s p : Vector ℝ n} (hs : ∀ i, 0 < s.get i) :
    (b.divide s).strictlyInside p = true ↔ b.strictlyInside (mulEach p s) = true := by
  rw [strictlyInside_iff, strictlyInside_iff]
  refine forall_divide_iff.trans (forall₃_congr fun i interval _ => ?_)
  rw [get_mulEach, Interval.divide, mul_one_div, mul_one_div, div_lt_iff₀ (hs i),
    lt_div_iff₀ (hs i)]

end Bounds

end Sqp
