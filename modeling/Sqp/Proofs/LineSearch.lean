import Sqp.Proofs.LineSearch.Course

/-!
# Where a line search ends

In exact arithmetic every point that a line search looks at lies on the segment from its
start to its trial point, and so does the point that it accepts.

- `Trial.OnSegment`: a trial on the segment whose merit is one that a relation `M`
  between points and merits allows there.
- `Bracket.narrow_onSegment`: a bisection keeps the bracket on the segment.
- `confined_search`: the accepted point is on the segment and has an allowed merit, and
  the merit function is called on the segment only.
-/

namespace Sqp.LineSearch

variable {n : Nat} {start trial : Vector ℝ n}

/-! ## The segment -/

theorem get_along (start trial : Vector ℝ n) (a : ℝ) (i : Fin n) :
    (along start trial a).get i = (1 - a) * start.get i + a * trial.get i :=
  @get_along_of_exact ℝ _ ExactScalar.real start trial a i

@[simp] theorem along_zero (start trial : Vector ℝ n) : along start trial (0 : ℝ) = start :=
  @along_zero_of_exact ℝ _ ExactScalar.real start trial

@[simp] theorem along_one (start trial : Vector ℝ n) : along start trial (1 : ℝ) = trial :=
  @along_one_of_exact ℝ _ ExactScalar.real start trial

/-! ## Brackets on the segment -/

/-- A trial on the segment with a merit that `M` allows there. -/
structure Trial.OnSegment (start trial : Vector ℝ n) (M : Vector ℝ n → ℝ → Prop)
    (t : Trial ℝ ℝ n) : Prop where
  nonneg : 0 ≤ t.alpha
  le_one : t.alpha ≤ 1
  point_eq : t.point = along start trial t.alpha
  merit : M t.point t.merit

/-- A bracket of three trials on the segment. -/
structure Bracket.OnSegment (start trial : Vector ℝ n) (M : Vector ℝ n → ℝ → Prop)
    (b : Bracket ℝ ℝ n) : Prop where
  low : b.low.OnSegment start trial M
  mid : b.mid.OnSegment start trial M
  high : b.high.OnSegment start trial M

variable {M : Vector ℝ n → ℝ → Prop}

theorem Bracket.onSegment_iff {b : Bracket ℝ ℝ n} :
    b.OnSegment start trial M ↔ b.All (Trial.OnSegment start trial M) :=
  ⟨fun h => ⟨h.low, h.mid, h.high⟩, fun h => ⟨h.low, h.mid, h.high⟩⟩

/-- Moving an end of the bracket onto its middle makes no new trial. -/
theorem Bracket.narrow_onSegment {b : Bracket ℝ ℝ n} (h : b.OnSegment start trial M) :
    b.narrow.OnSegment start trial M :=
  onSegment_iff.mpr (onSegment_iff.mp h).narrow

theorem Bracket.accepted_onSegment {b : Bracket ℝ ℝ n} (h : b.OnSegment start trial M) :
    b.accepted.OnSegment start trial M :=
  (onSegment_iff.mp h).accepted

/-- The position halfway between the ends of a bracket is on the segment. -/
theorem Bracket.middle_mem {b : Bracket ℝ ℝ n} (h : b.OnSegment start trial M) :
    0 ≤ b.middle ∧ b.middle ≤ 1 := by
  have h₁ := h.low.nonneg
  have h₂ := h.low.le_one
  have h₃ := h.high.nonneg
  have h₄ := h.high.le_one
  have hmiddle : b.middle = (b.low.alpha + b.high.alpha) / 2 := by
    show (0.5 : ℝ) * (b.low.alpha + b.high.alpha) = _
    norm_num
    ring
  rw [hmiddle]
  constructor <;> linarith

/-! ## The search -/

variable {P : List ℝ → Prop} {meritAt meritAt' : Vector ℝ n → Recorded ℝ ℝ} {merit tolerance : ℝ}

/-- A search stays on its segment, and the merit that it returns is one that the merit
function gave at the point that it returns, or the one handed over with the start. -/
theorem confined_search (hstart : M start merit)
    (hM : ∀ a, 0 ≤ a → a ≤ 1 → Confined P (meritAt (along start trial a))
      (meritAt' (along start trial a)) (M (along start trial a))) :
    Confined P (search meritAt start trial merit tolerance)
      (search meritAt' start trial merit tolerance)
      fun o => ∃ a, 0 ≤ a ∧ a ≤ 1 ∧ o.parameters = along start trial a ∧
        M o.parameters o.merit := by
  have htrial := hM 1 zero_le_one le_rfl
  rw [along_one] at htrial
  -- the invariant also says where the next call is, since the middle of such a bracket is on the
  -- segment
  refine (confined_search_of_invariant (I := fun _ b => b.OnSegment start trial M) htrial
    (fun _ b hb => ?_) (fun value hvalue => ?_) fun _ b value hb hvalue => ?_).mono ?_
  · exact hM _ (Bracket.middle_mem hb).1 (Bracket.middle_mem hb).2
  · have hfirst : Trial.OnSegment start trial M ⟨0, start, merit⟩ :=
      ⟨le_rfl, zero_le_one, (along_zero start trial).symm, hstart⟩
    exact ⟨hfirst, hfirst, ⟨zero_le_one, le_rfl, (along_one start trial).symm, hvalue⟩⟩
  · obtain ⟨hnonneg, hle⟩ := Bracket.middle_mem hb
    exact Bracket.narrow_onSegment ⟨hb.low, ⟨hnonneg, hle, rfl, hvalue⟩, hb.high⟩
  · rintro o ⟨b, hb, ho⟩
    have hchoice := Bracket.accepted_onSegment hb
    rw [ho]
    exact ⟨_, hchoice.nonneg, hchoice.le_one, hchoice.point_eq, hchoice.merit⟩

end Sqp.LineSearch
