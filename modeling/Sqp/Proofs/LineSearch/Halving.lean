import Sqp.Proofs.Journal
import Sqp.Proofs.Scalar.Real
import Sqp.LineSearch

/-!
# How often a line search bisects

Whatever the merit function answers, undefined values included, the ends of the bracket
are neighbours on a grid that every bisection makes twice as fine. So the search ends once
a cell of the grid is no longer than the tolerance.

- `Halving`: a grid on the unit interval on which halving is exact down to some depth;
  `realHalving` is the one of the real numbers, exact at every depth.
- `Bracket.OnGrid`: the ends of a bracket are neighbours on the grid.
  `Bracket.narrow_onGrid` says what a bisection does to it.
- `ensures_search_steps_le`: a search makes no more bisections than the depth at which a
  cell is no longer than the tolerance, for any merit function.
-/

namespace Sqp

/-- Positions on the unit interval: `grid k i` stands for `i / 2 ^ k`, and down to the
given depth the middle of two neighbours and their distance are computed exactly. -/
structure Halving (α : Type) [Scalar α] (depth : Nat) where
  grid : Nat → Nat → α
  grid_zero : grid 0 0 = 0
  grid_one : grid 0 1 = 1
  /-- Every position is one of the next finer grid. -/
  grid_double : ∀ k i, k < depth → i ≤ 2 ^ k → grid (k + 1) (2 * i) = grid k i
  middle : ∀ k i, k < depth → i < 2 ^ k →
    0.5 * (grid k i + grid k (i + 1)) = grid (k + 1) (2 * i + 1)
  width : ∀ k i, k ≤ depth → i < 2 ^ k → grid k (i + 1) - grid k i = grid k 1
  /-- What is larger is not smaller. -/
  le_of_lt : ∀ a b : α, a < b → a ≤ b

/-- The real numbers can be halved without end. -/
noncomputable def realHalving (depth : Nat) : Halving ℝ depth where
  grid k i := i * 0.5 ^ k
  grid_zero := by norm_num
  grid_one := by norm_num
  grid_double k i _ _ := by
    push_cast
    rw [pow_succ]
    ring
  middle k i _ _ := by
    push_cast
    rw [pow_succ]
    ring
  width k i _ _ := by
    push_cast
    ring
  le_of_lt _ _ h := h.le

theorem realHalving_cell (depth k : Nat) : (realHalving depth).grid k 1 = (1 / 2) ^ k := by
  show ((1 : Nat) : ℝ) * 0.5 ^ k = _
  norm_num

namespace LineSearch

variable {α β : Type} [Scalar α] {n depth : Nat}

/-! ## Brackets on the grid -/

/-- The ends of a bracket are neighbours on the grid that `k` bisections make. -/
def Bracket.OnGrid (h : Halving α depth) (k : Nat) (b : Bracket α β n) : Prop :=
  ∃ i < 2 ^ k, b.low.alpha = h.grid k i ∧ b.high.alpha = h.grid k (i + 1)

variable {h : Halving α depth} {k : Nat} {b : Bracket α β n}

/-- The bracket is one cell of the grid long. -/
theorem Bracket.OnGrid.width_eq (hb : b.OnGrid h k) (hk : k ≤ depth) : b.width = h.grid k 1 := by
  obtain ⟨i, hi, hlow, hhigh⟩ := hb
  rw [Bracket.width, hlow, hhigh, h.width k i hk hi]

/-- A bisection leaves one half of the bracket, whichever end it moves. -/
theorem Bracket.narrow_onGrid (hb : b.OnGrid h k) (hk : k < depth) (point : Vector β n)
    (merit : α) :
    Bracket.OnGrid h (k + 1)
      (narrow { b with mid := ⟨0.5 * (b.low.alpha + b.high.alpha), point, merit⟩ }) := by
  obtain ⟨i, hi, hlow, hhigh⟩ := hb
  have hmid : (0.5 : α) * (b.low.alpha + b.high.alpha) = h.grid (k + 1) (2 * i + 1) := by
    rw [hlow, hhigh, h.middle k i hk hi]
  unfold Bracket.narrow
  split_ifs
  · refine ⟨2 * i, by rw [pow_succ]; omega, ?_, hmid⟩
    show b.low.alpha = _
    rw [hlow, h.grid_double k i hk hi.le]
  · refine ⟨2 * i + 1, by rw [pow_succ]; omega, hmid, ?_⟩
    show b.high.alpha = _
    rw [hhigh, show 2 * i + 1 + 1 = 2 * (i + 1) by omega, h.grid_double k (i + 1) hk hi]

/-! ## The search -/

variable [Scalar β] [Storage α β] {meritAt : Vector β n → Recorded α α} {start trial : Vector β n}
  {merit tolerance : α}

/-- The invariant is that `steps` bisections have made the grid, and that at the full
depth `go` no longer exceeds the tolerance. -/
theorem ensures_bisect_steps_le (htolerance : ¬ tolerance < h.grid depth 1) :
    ∀ (fuel : Nat) (go : α) (steps : Nat) (b : Bracket α β n), b.OnGrid h steps →
      steps ≤ depth → (steps = depth → ¬ tolerance < go) →
      Ensures (bisect meritAt start trial merit tolerance fuel go steps b)
        fun r => r.1 ≤ depth := by
  intro fuel
  induction fuel with
  | zero =>
    intro go steps b _ hsteps _
    exact Confined.pure hsteps
  | succ fuel ih =>
    intro go steps b hb hsteps hgo
    refine Confined.ite (fun hlt => ?_) fun _ => Confined.pure hsteps
    have hroom : steps < depth := lt_of_le_of_ne hsteps fun heq => hgo heq hlt
    refine Confined.bind (Ensures.any _) fun value _ => ?_
    have hnarrow := Bracket.narrow_onGrid hb hroom
      (along start trial (0.5 * (b.low.alpha + b.high.alpha))) value
    refine ih _ _ _ hnarrow hroom fun hdepth => ?_
    -- what `go` becomes is the width of the bracket, or an estimate under the tolerance
    split_ifs with hle
    · rwa [hnarrow.width_eq hroom, hdepth]
    · exact fun hlt => hle (h.le_of_lt _ _ hlt)

/-- A search makes at most as many bisections as it takes to make a cell of the grid no
longer than the tolerance. -/
theorem ensures_search_steps_le (htolerance : ¬ tolerance < h.grid depth 1) :
    Ensures (search meritAt start trial merit tolerance) fun o => o.steps ≤ depth := by
  refine Confined.bind (Ensures.any _) fun value _ => ?_
  have hfirst : Bracket.OnGrid h 0
      (⟨⟨0, start, merit⟩, ⟨0, start, merit⟩, ⟨1, trial, value⟩⟩ : Bracket α β n) :=
    ⟨0, Nat.one_pos, h.grid_zero.symm, h.grid_one.symm⟩
  refine Confined.bind (ensures_bisect_steps_le htolerance _ _ _ _ hfirst (Nat.zero_le _) ?_)
    fun r hr => Confined.pure hr
  rintro rfl
  rwa [h.grid_one] at htolerance

end LineSearch

end Sqp
