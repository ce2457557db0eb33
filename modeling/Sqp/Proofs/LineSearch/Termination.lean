import Sqp.Proofs.LineSearch.Course
import Sqp.Proofs.LineSearch.Halving
import Sqp.Proofs.Scalar.Extended

/-!
# How a line search ends

The loop of a search has no limit of its own: it goes on while `go` exceeds the tolerance. What
`go` is after a bisection is an estimate made from merits, which may be anything, or the length of
the bracket, which is not. So the loop is looked at for every sequence of answers that a merit
function could give.

- `answering`: a merit function with memory. The answers may depend on how often it has been asked
  before, and it counts how often it is.
- `Progress`, `Progress.next`: what the loop keeps between two bisections, and one bisection.
- `progressAfter`: the course of the loop if it were never left.
- `bisect_answering`: the loop runs along this course and leaves it at the first `go` that does not
  exceed the tolerance, unless its limit comes first.
- `progressAfter_go`: the limit does not come first, since `go` is never more than the length of the
  bracket unless the tolerance is more than `go`.
- `search_ends`: so the search ends by its own test.
-/

namespace Sqp.LineSearch

variable {α β : Type} [Scalar α] {n : Nat}

/-! ## The loop -/

/-- A merit function that answers `f i p` if it is asked for the merit of `p` after `i` earlier
questions, and counts the questions. -/
def answering (f : Nat → Vector β n → α) (p : Vector β n) : StateM Nat α :=
  fun i => (f i p, i + 1)

/-- What the loop keeps: the number it compares with the tolerance, and the bracket. -/
structure Progress (α β : Type) (n : Nat) where
  go : α
  bracket : Bracket α β n

section Loop

variable [Scalar β] [Storage α β] (start trial : Vector β n) (merit tolerance : α)

/-- One bisection, at whose middle the merit is `value`. -/
def Progress.next (s : Progress α β n) (value : α) : Progress α β n :=
  let halved := s.bracket.halved start trial value
  let estimate := improvement merit tolerance s.go halved
  ⟨if tolerance ≤ estimate then halved.narrow.width else estimate, halved.narrow⟩

/-- The loop after `k` bisections, whether it would have made them or not. -/
def progressAfter (f : Nat → Vector β n → α) : Nat → Progress α β n
  | 0 => ⟨1, opening start trial merit (f 0 trial)⟩
  | k + 1 =>
    let s := progressAfter f k
    s.next start trial merit tolerance (f (k + 1) (along start trial s.bracket.middle))

/-- The loop ends after the first bisection that leaves no `go` above the tolerance, or after as
many as its limit allows. By induction on the limit. -/
theorem bisect_answering (f : Nat → Vector β n → α) (fuel : Nat) :
    ∀ k, ∃ j, k ≤ j ∧ j ≤ k + fuel ∧
      (∀ i, k ≤ i → i < j → tolerance < (progressAfter start trial merit tolerance f i).go) ∧
      (j < k + fuel → ¬ tolerance < (progressAfter start trial merit tolerance f j).go) ∧
      (bisect (answering f) start trial merit tolerance fuel
        (progressAfter start trial merit tolerance f k).go k
        (progressAfter start trial merit tolerance f k).bracket).run (k + 1) =
        ((j, (progressAfter start trial merit tolerance f j).bracket), j + 1) := by
  induction fuel with
  | zero =>
    intro k
    exact ⟨k, le_rfl, le_rfl, fun i hi hik => absurd hik hi.not_gt, fun h => absurd h (lt_irrefl k),
      rfl⟩
  | succ fuel ih =>
    intro k
    by_cases hgo : tolerance < (progressAfter start trial merit tolerance f k).go
    -- one bisection, and the rest of the loop from there
    · obtain ⟨j, hkj, hj, hbefore, hend, hrun⟩ := ih (k + 1)
      refine ⟨j, Nat.le_of_succ_le hkj, by omega, fun i hki hij => ?_, fun h => hend (by omega), ?_⟩
      · rcases Nat.eq_or_lt_of_le hki with rfl | hlt
        · exact hgo
        · exact hbefore i hlt hij
      · rw [bisect, if_pos hgo]
        exact hrun
    · refine ⟨k, le_rfl, Nat.le_add_right _ _, fun i hi hik => absurd hik hi.not_gt,
        fun _ => hgo, ?_⟩
      rw [bisect, if_neg hgo]
      rfl

end Loop

section Next

variable [Scalar β] [Storage α β] {start trial : Vector β n} {merit tolerance : α}
  {s : Progress α β n} {value : α}

/-- An estimate that is not under the tolerance is replaced by the length of the bracket. -/
theorem Progress.next_go_of_le
    (h : tolerance ≤ improvement merit tolerance s.go (s.bracket.halved start trial value)) :
    (s.next start trial merit tolerance value).go =
      (s.next start trial merit tolerance value).bracket.width :=
  if_pos h

/-- Any other estimate is kept. -/
theorem Progress.next_go_of_not_le
    (h : ¬ tolerance ≤ improvement merit tolerance s.go (s.bracket.halved start trial value)) :
    (s.next start trial merit tolerance value).go =
      improvement merit tolerance s.go (s.bracket.halved start trial value) :=
  if_neg h

end Next

/-! ## The brackets -/

/-- Positions that halve for ever. -/
noncomputable def extendedHalving (depth : Nat) : Halving Extended depth where
  grid k i := Rounded.number (i * 0.5 ^ k)
  grid_zero := by
    show Rounded.number _ = Rounded.number 0
    norm_num
  grid_one := by
    show Rounded.number _ = Rounded.number 1
    norm_num
  grid_double k i _ _ := by
    congr 1
    push_cast
    rw [pow_succ]
    ring
  middle k i _ _ := by
    rw [Extended.one_half, Extended.number_add, Extended.number_mul]
    congr 1
    push_cast
    rw [pow_succ]
    ring
  width k i _ _ := by
    rw [Extended.number_sub]
    congr 1
    push_cast
    ring
  le_of_lt _ _ := Extended.le_of_lt

theorem extendedHalving_cell (depth k : Nat) :
    (extendedHalving depth).grid k 1 = Rounded.number (0.5 ^ k) := by
  show Rounded.number _ = _
  rw [Nat.cast_one, one_mul]

/-- The ends of a bracket are real numbers of the unit interval, in order and `0.5 ^ k` apart. -/
structure Bracket.Halved (k : Nat) (b : Bracket Extended β n) (low high : ℝ) : Prop where
  low_eq : b.low.alpha = Rounded.number low
  high_eq : b.high.alpha = Rounded.number high
  low_nonneg : 0 ≤ low
  low_le_high : low ≤ high
  high_le_one : high ≤ 1
  width : high - low = 0.5 ^ k

theorem Bracket.OnGrid.exists_halved {depth k : Nat} {b : Bracket Extended β n}
    (hb : b.OnGrid (extendedHalving depth) k) : ∃ low high, b.Halved k low high := by
  obtain ⟨i, hi, hlow, hhigh⟩ := hb
  have hpos : (0 : ℝ) < 0.5 ^ k := pow_pos (by norm_num) k
  have hend : ((i + 1 : Nat) : ℝ) * 0.5 ^ k ≤ 1 := by
    calc ((i + 1 : Nat) : ℝ) * 0.5 ^ k ≤ ((2 ^ k : Nat) : ℝ) * 0.5 ^ k := by gcongr; exact hi
      _ = 1 := by
        push_cast
        rw [← mul_pow]
        norm_num
  have hwidth : ((i + 1 : Nat) : ℝ) * 0.5 ^ k - i * 0.5 ^ k = 0.5 ^ k := by
    push_cast
    ring
  exact ⟨i * 0.5 ^ k, (i + 1 : Nat) * 0.5 ^ k, hlow, hhigh, by positivity, by linarith, hend,
    hwidth⟩

section Brackets

variable [Scalar β] [Storage α β] {depth : Nat} (h : Halving α depth) (f : Nat → Vector β n → α)
  (start trial : Vector β n) (merit tolerance : α)

/-- Whatever the answers are, `k` bisections lead to the grid that is `k` times as fine. -/
theorem progressAfter_onGrid {k : Nat} (hk : k ≤ depth) :
    (progressAfter start trial merit tolerance f k).bracket.OnGrid h k := by
  induction k with
  | zero => exact ⟨0, Nat.one_pos, h.grid_zero.symm, h.grid_one.symm⟩
  | succ k ih => exact Bracket.narrow_onGrid (ih (Nat.le_of_succ_le hk)) hk _ _

/-- At a depth at which a cell of the grid is no longer than the tolerance, the loop has ended. -/
theorem progressAfter_go (htolerance : ¬ tolerance < h.grid depth 1) :
    ¬ tolerance < (progressAfter start trial merit tolerance f depth).go := by
  have hgrid := progressAfter_onGrid h f start trial merit tolerance le_rfl
  cases depth with
  | zero => rwa [h.grid_one] at htolerance
  | succ k =>
    have hwidth := hgrid.width_eq le_rfl
    rw [progressAfter] at hwidth ⊢
    set s := progressAfter start trial merit tolerance f k
    -- the last `go` is the length of one cell, or an estimate that is under the tolerance
    by_cases hle : tolerance ≤ improvement merit tolerance s.go
        (s.bracket.halved start trial (f (k + 1) (along start trial s.bracket.middle)))
    · rwa [Progress.next_go_of_le hle, hwidth]
    · rw [Progress.next_go_of_not_le hle]
      exact fun hlt => hle (h.le_of_lt _ _ hlt)

end Brackets

/-! ## The search -/

/-- In exact arithmetic, a search comes to an end whatever the merit function answers, undefined
values and infinities included. Of its loop, the bracket after `k` bisections has the length
`0.5 ^ k`. The search makes as many bisections as it takes until `go` does not exceed the tolerance,
at most as many as it takes for this length not to exceed it, and asks once more than that. -/
theorem search_ends [Scalar β] [Storage Extended β] (f : Nat → Vector β n → Extended)
    (start trial : Vector β n) (merit : Extended) {tolerance : Extended}
    (htolerance : 0 < tolerance) :
    (∀ k, ∃ low high,
        (progressAfter start trial merit tolerance f k).bracket.Halved k low high) ∧
      ∃ limit steps,
        IsLeast {k : ℕ | Rounded.number (0.5 ^ k) ≤ tolerance} limit ∧
        IsLeast {k : ℕ | ¬ tolerance < (progressAfter start trial merit tolerance f k).go} steps ∧
        steps ≤ limit ∧ (1 ≤ tolerance → steps = 0) ∧
        (search (answering f) start trial merit tolerance).run 0 =
          ((progressAfter start trial merit tolerance f steps).bracket.outcome steps,
            steps + 1) := by
  have hlimit := Extended.isLeast_halvingLimit htolerance
  set limit := Scalar.halvingLimit tolerance
  refine ⟨fun k => (progressAfter_onGrid (extendedHalving k) f start trial merit tolerance
    le_rfl).exists_halved, ?_⟩
  have hcell : ¬ tolerance < (extendedHalving limit).grid limit 1 := by
    rw [extendedHalving_cell]
    exact Extended.not_lt_of_le hlimit.1
  have hdone := progressAfter_go (extendedHalving limit) f start trial merit tolerance hcell
  -- the limit of the loop is the least sufficient depth, so the loop has ended by its own test
  -- there
  obtain ⟨steps, -, hsteps, hbefore, hend, hrun⟩ :=
    bisect_answering start trial merit tolerance f limit 0
  rw [Nat.zero_add] at hsteps hend
  have hleast : IsLeast {k : ℕ | ¬ tolerance < (progressAfter start trial merit tolerance f k).go}
      steps := by
    constructor
    · rcases Nat.eq_or_lt_of_le hsteps with rfl | hlt
      · exact hdone
      · exact hend hlt
    · intro k hk
      by_contra hlt
      exact hk (hbefore k (Nat.zero_le k) (not_le.mp hlt))
  refine ⟨limit, steps, hlimit, hleast, hsteps, fun hone => ?_, ?_⟩
  · exact Nat.le_zero.mp (hleast.2 (Extended.not_lt_of_le hone))
  · have hsearch : (search (answering f) start trial merit tolerance).run 0 =
        (fun r => (r.1.2.outcome r.1.1, r.2)) ((bisect (answering f) start trial merit tolerance
          limit (progressAfter start trial merit tolerance f 0).go 0
          (progressAfter start trial merit tolerance f 0).bracket).run 1) := rfl
    rw [hsearch, hrun]

/-- A merit function that never gives a merit. -/
def noMerit (_ : Nat) (_ : Vector Extended 1) : Extended := Rounded.undefined

/-- Without any merit, `go` is the length of the bracket, so a tolerance of a quarter takes two
bisections and three questions. -/
theorem search_ends_noMerit :
    0 < (Rounded.number 0.25 : Extended) ∧
      ∃ o, o.steps = 2 ∧ (search (answering noMerit) #v[0] #v[1] Rounded.undefined
        (Rounded.number 0.25)).run 0 = (o, 3) := by
  have hlt : ∀ x : ℝ, 0.25 < x → (Rounded.number 0.25 : Extended) < Rounded.number x :=
    fun x hx => Rounded.value_lt_value.mpr (EReal.coe_lt_coe_iff.mpr hx)
  have htolerance : 0 < (Rounded.number 0.25 : Extended) :=
    Rounded.value_lt_value.mpr (EReal.coe_lt_coe_iff.mpr (by norm_num))
  obtain ⟨-, limit, steps, hlimit, hsteps, hle, -, hrun⟩ :=
    search_ends noMerit #v[0] #v[1] Rounded.undefined htolerance
  have hlimit_le : limit ≤ 2 := hlimit.2 (Extended.number_le_number.mpr (by norm_num))
  have hgo : ∀ k < 2, Rounded.number 0.25 < (progressAfter #v[(0 : Extended)] #v[1]
      Rounded.undefined (Rounded.number 0.25) noMerit k).go := by
    intro k hk
    have hone := hlt 1 (by norm_num)
    -- `go` is one before the first bisection and one half after it
    obtain rfl | rfl : k = 0 ∨ k = 1 := by omega
    · exact hone
    · have hwidth := (progressAfter_onGrid (extendedHalving 1) noMerit #v[0] #v[1]
        Rounded.undefined (Rounded.number 0.25) le_rfl).width_eq le_rfl
      rw [extendedHalving_cell] at hwidth
      rw [progressAfter] at hwidth ⊢
      rw [Progress.next_go_of_le, hwidth]
      · exact hlt _ (by norm_num)
      · -- no merit lies under an undefined one, so there is no estimate
        rw [improvement, if_neg (Rounded.not_lt_undefined _)]
        exact Extended.le_of_lt hone
  have hsteps_eq : steps = 2 := by
    refine le_antisymm (hle.trans hlimit_le) ?_
    by_contra hfew
    exact hsteps.1 (hgo steps (not_le.mp hfew))
  subst hsteps_eq
  exact ⟨htolerance, _, rfl, hrun⟩

end Sqp.LineSearch
