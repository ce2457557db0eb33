import Sqp.Proofs.Linear.Entries
import Sqp.Proofs.Journal
import Sqp.Proofs.Scalar.Exact
import Sqp.LineSearch

/-!
# The course of a line search

What all line searches have in common, whatever scalars they compute with and however
their merits are obtained.

- `opening`, `Bracket.halved`: the bracket that a search starts with, and a bracket whose
  middle has been looked at.
- `confined_search_of_invariant`: what holds at the opening and survives bisections holds of
  the bracket that a search reads its outcome off.
- `searchOf`: the search with a merit function that always answers; any such search is this
  one (`search_pure`).
- `Bracket.MidAtEnd`: after each bisection the middle is one of the two ends.
- `Bracket.Blind`: the low end is about to move without having been compared, and loses its
  merit (`Bracket.Blind.narrow_low`). Otherwise it moves to a smaller merit only
  (`Bracket.narrow_low_le`).
- `Bracket.defined_accepted_iff`, `Bracket.accepted_le_low`: the final choice has a merit if
  the middle has one, and then it is no worse than the low end.
- `get_along_of_exact`: the entries of a point of the segment, without rounding.
-/

namespace Sqp.LineSearch

variable {α β : Type} {n : Nat}

/-! ## The segment -/

section Segment

variable [ExactScalar α]

/-- An entry of a point of the segment is the weighted mean of the two ends. -/
theorem get_along_of_exact (start trial : Vector α n) (a : α) (i : Fin n) :
    (along start trial a).get i = (1 - a) * start.get i + a * trial.get i := by
  rw [along, get_add, get_scaled, get_scaled, ExactScalar.store_eq, ExactScalar.store_eq]

theorem along_zero_of_exact (start trial : Vector α n) : along start trial (0 : α) = start :=
  vector_ext fun i => by rw [get_along_of_exact]; ring

theorem along_one_of_exact (start trial : Vector α n) : along start trial (1 : α) = trial :=
  vector_ext fun i => by rw [get_along_of_exact]; ring

end Segment

/-! ## Brackets -/

/-- A property of all three trials of a bracket. -/
structure Bracket.All (P : Trial α β n → Prop) (b : Bracket α β n) : Prop where
  low : P b.low
  mid : P b.mid
  high : P b.high

/-- The middle of a bracket is one of its ends. -/
def Bracket.MidAtEnd (b : Bracket α β n) : Prop := b.mid = b.low ∨ b.mid = b.high

section Brackets

variable [Scalar α] {P : Trial α β n → Prop} {b : Bracket α β n}

/-- Narrowing copies trials and makes none. -/
theorem Bracket.All.narrow (h : b.All P) : b.narrow.All P := by
  unfold Bracket.narrow
  split_ifs
  · exact ⟨h.low, h.mid, h.mid⟩
  · exact ⟨h.mid, h.mid, h.high⟩

theorem Bracket.All.accepted (h : b.All P) : P b.accepted := by
  unfold Bracket.accepted
  split_ifs
  · exact h.low
  · exact h.high
  · exact h.mid

/-- Narrowing moves one of the ends onto the middle. -/
theorem Bracket.narrow_midAtEnd (b : Bracket α β n) : b.narrow.MidAtEnd := by
  unfold Bracket.narrow
  split_ifs
  · exact .inr rfl
  · exact .inl rfl

@[simp] theorem Bracket.narrow_mid (b : Bracket α β n) : b.narrow.mid = b.mid := by
  unfold Bracket.narrow
  split_ifs <;> rfl

end Brackets

/-! ## The final choice -/

section Choice

variable [Scalar α] {b : Bracket α β n}

/-- The accepted merit is undefined only if that of the middle is. -/
theorem Bracket.defined_accepted_iff [Scalar.Lawful α] :
    Scalar.Defined b.accepted.merit ↔ Scalar.Defined b.mid.merit := by
  unfold Bracket.accepted
  split_ifs with hlow hhigh
  · exact iff_of_true (Scalar.defined_of_lt hlow).1 (Scalar.defined_of_lt hlow).2
  · exact iff_of_true (Scalar.defined_of_lt hhigh).1 (Scalar.defined_of_lt hhigh).2
  · exact Iff.rfl

/-- A defined merit that is accepted does not exceed that of the low end. -/
theorem Bracket.accepted_le_low [Scalar.Ordered α] (hlow : Scalar.Defined b.low.merit)
    (h : Scalar.Defined b.accepted.merit) : b.accepted.merit ≤ b.low.merit := by
  unfold Bracket.accepted at h ⊢
  split_ifs at h ⊢ with hlt hhigh
  · exact hlow
  -- the high end is better than the middle, which is no worse than the low end
  · have hmid := (Scalar.defined_of_lt hhigh).2
    exact Scalar.Ordered.le_trans _ _ _ (Scalar.Ordered.le_of_lt _ _ hhigh)
      (Scalar.le_of_not_lt hlow hmid hlt)
  · exact Scalar.le_of_not_lt hlow h hlt

/-- The middle has no merit, and the low end is not known to be as good as the high end: a
bisection then moves the low end without having compared it. -/
def Bracket.Blind (b : Bracket α β n) : Prop :=
  ¬ Scalar.Defined b.mid.merit ∧ ¬ b.low.merit ≤ b.high.merit

instance (b : Bracket α β n) : Decidable b.Blind := inferInstanceAs (Decidable (_ ∧ _))

/-- The low end moves only to a smaller merit, unless it moves blindly. -/
theorem Bracket.narrow_low_le [Scalar.Ordered α] (hlow : Scalar.Defined b.low.merit)
    (hsight : ¬ b.Blind) : b.narrow.low.merit ≤ b.low.merit := by
  unfold Bracket.narrow
  split_ifs with h
  · exact hlow
  · rw [not_or] at h
    -- the low end moves, so it is not as good as the high end; without sight of the middle this
    -- is blind
    have hmid : Scalar.Defined b.mid.merit := by
      by_contra hmid
      exact hsight ⟨hmid, h.2⟩
    exact Scalar.Ordered.le_of_lt _ _ (Scalar.lt_of_not_le hmid hlow h.1)

/-- A blind bisection leaves a low end without a merit. -/
theorem Bracket.Blind.narrow_low [Scalar.Ordered α] (h : b.Blind) :
    ¬ Scalar.Defined b.narrow.low.merit := by
  have hmid : ¬ b.low.merit ≤ b.mid.merit := fun hle =>
    h.1 (Scalar.Ordered.defined_of_le _ _ hle).2
  rw [narrow, if_neg (not_or.mpr ⟨hmid, h.2⟩)]
  exact h.1

end Choice

/-! ## Searches -/

variable [Scalar α] [Scalar β] [Storage α β]

/-- The bracket that a search starts with: the start twice, and the trial point. -/
def opening (start trial : Vector β n) (merit trialMerit : α) : Bracket α β n :=
  ⟨⟨0, start, merit⟩, ⟨0, start, merit⟩, ⟨1, trial, trialMerit⟩⟩

namespace Bracket

/-- The position halfway between the ends of a bracket. -/
def middle (b : Bracket α β n) : α := Scalar.halfway b.low.alpha b.high.alpha

/-- The bracket with its middle halfway between its ends, where the merit is `value`. -/
def halved (start trial : Vector β n) (b : Bracket α β n) (value : α) : Bracket α β n :=
  { b with mid := ⟨b.middle, along start trial b.middle, value⟩ }

/-- The outcome of a search that ends with the bracket `b` after `steps` bisections. -/
def outcome (b : Bracket α β n) (steps : Nat) : Outcome α β n :=
  ⟨b.accepted.point, b.accepted.merit, b.best, steps⟩

end Bracket

variable {start trial : Vector β n} {merit tolerance : α}

section Invariant

variable {P : List α → Prop} {meritAt meritAt' : Vector β n → Recorded α α}
  {M : Vector β n → α → Prop} {I : Nat → Bracket α β n → Prop}

/-- The induction behind all that is said of searches: `I` may mention the number of bisections,
and it may confine the calls of the merit function to certain positions. -/
theorem confined_bisect
    (hM : ∀ k b, I k b → Confined P (meritAt (along start trial b.middle))
      (meritAt' (along start trial b.middle)) (M (along start trial b.middle)))
    (hstep : ∀ k b value, I k b → M (along start trial b.middle) value →
      I (k + 1) (b.halved start trial value).narrow) :
    ∀ (fuel : Nat) (go : α) (steps : Nat) (b : Bracket α β n), I steps b →
      Confined P (bisect meritAt start trial merit tolerance fuel go steps b)
        (bisect meritAt' start trial merit tolerance fuel go steps b) fun r => I r.1 r.2 := by
  intro fuel
  induction fuel with
  | zero =>
    intro go steps b hb
    exact Confined.pure hb
  | succ fuel ih =>
    intro go steps b hb
    refine Confined.ite (fun _ => ?_) fun _ => Confined.pure hb
    exact Confined.bind (hM _ b hb) fun value hvalue => ih _ _ _ (hstep _ _ _ hb hvalue)

/-- A search reads its outcome off a bracket of which every invariant holds. -/
theorem confined_search_of_invariant
    (htrial : Confined P (meritAt trial) (meritAt' trial) (M trial))
    (hM : ∀ k b, I k b → Confined P (meritAt (along start trial b.middle))
      (meritAt' (along start trial b.middle)) (M (along start trial b.middle)))
    (hopening : ∀ value, M trial value → I 0 (opening start trial merit value))
    (hstep : ∀ k b value, I k b → M (along start trial b.middle) value →
      I (k + 1) (b.halved start trial value).narrow) :
    Confined P (search meritAt start trial merit tolerance)
      (search meritAt' start trial merit tolerance) fun o =>
        ∃ b, I o.steps b ∧ o = b.outcome o.steps := by
  refine Confined.bind htrial fun value hvalue => ?_
  refine Confined.bind (confined_bisect hM hstep _ _ _ _ (hopening value hvalue)) fun r hr => ?_
  exact Confined.pure ⟨r.2, hr, rfl⟩

/-- The same with a merit function that may be called anywhere. -/
theorem ensures_search_of_invariant (hM : ∀ p, Ensures (meritAt p) (M p))
    (hopening : ∀ value, M trial value → I 0 (opening start trial merit value))
    (hstep : ∀ k b value, I k b → M (along start trial b.middle) value →
      I (k + 1) (b.halved start trial value).narrow) :
    Ensures (search meritAt start trial merit tolerance) fun o =>
      ∃ b, I o.steps b ∧ o = b.outcome o.steps :=
  confined_search_of_invariant (hM _) (fun _ _ _ => hM _) hopening hstep

end Invariant

/-! ## Merit functions that always answer -/

/-- The search with the merit function `f`. -/
def searchOf (f : Vector β n → α) (start trial : Vector β n) (merit tolerance : α) :
    Outcome α β n :=
  Id.run (search (fun p => pure (f p)) start trial merit tolerance)

/-- The loop of a search whose merit function only answers, by induction on its limit. -/
theorem bisect_pure {m : Type → Type} [Monad m] [LawfulMonad m] (f : Vector β n → α) :
    ∀ (fuel : Nat) (go : α) (steps : Nat) (b : Bracket α β n),
      bisect (fun p => (pure (f p) : m α)) start trial merit tolerance fuel go steps b =
        pure (Id.run
          (bisect (fun p => pure (f p)) start trial merit tolerance fuel go steps b)) := by
  intro fuel
  induction fuel with
  | zero => exact fun _ _ _ => rfl
  | succ fuel ih =>
    intro go steps b
    rw [bisect, bisect]
    split_ifs
    · rw [pure_bind]
      exact ih _ _ _
    · rfl

/-- Whatever the surrounding computation can do besides, a search whose merit function only
answers does no more than answer. -/
theorem search_pure {m : Type → Type} [Monad m] [LawfulMonad m] (f : Vector β n → α) :
    search (fun p => (pure (f p) : m α)) start trial merit tolerance =
      pure (searchOf f start trial merit tolerance) := by
  rw [search, pure_bind]
  dsimp only
  rw [bisect_pure, pure_bind]
  rfl

/-- Invariants of a search with the merit function `f`. -/
theorem searchOf_of_invariant {f : Vector β n → α} {I : Nat → Bracket α β n → Prop}
    (hopening : I 0 (opening start trial merit (f trial)))
    (hstep : ∀ k b, I k b →
      I (k + 1) (b.halved start trial (f (along start trial b.middle))).narrow) :
    ∃ b, I (searchOf f start trial merit tolerance).steps b ∧
      searchOf f start trial merit tolerance =
        b.outcome (searchOf f start trial merit tolerance).steps := by
  have hsearch : Ensures (search (fun p => (pure (f p) : Recorded α α)) start trial merit tolerance)
      fun o => ∃ b, I o.steps b ∧ o = b.outcome o.steps :=
    ensures_search_of_invariant (M := fun p v => v = f p) (fun p => Confined.pure rfl)
      (fun _ h => h ▸ hopening) fun k b value hb hv => hv ▸ hstep k b hb
  rw [search_pure] at hsearch
  exact hsearch.answer {} _ rfl

end Sqp.LineSearch
