import Sqp.Proofs.LineSearch.Course

/-!
# What a line search accepts

Without rounding and undefined values, a line search accepts the best of the points that it
ends with, and reports the merit that belongs to it.

- `Trial.Probed`: a trial at a dyadic position of the segment, with a merit that belongs to
  its point.
- `Bracket.best_eq_accepted`: if the middle of a bracket is one of its ends, the final
  choice has the smallest of the three merits.
- `Bracket.Settled`: what all brackets of a search satisfy.
- `ensures_search_accepts`, `searchOf_accepts`: what a search returns.
-/

namespace Sqp.LineSearch

open ExactScalar (Dyadic)

variable {α : Type} [ExactScalar α] {n : Nat} {start trial : Vector α n}

/-! ## Brackets -/

variable {M : Vector α n → α → Prop} {merit tolerance : α}

/-- A trial at a dyadic position with a merit that `M` allows at its point. -/
structure Trial.Probed (start trial : Vector α n) (M : Vector α n → α → Prop) (t : Trial α α n) :
    Prop where
  dyadic : Dyadic t.alpha
  point_eq : t.point = along start trial t.alpha
  merit : M t.point t.merit

/-- What holds of a bracket at every moment of a search from a point with merit `merit`. -/
structure Bracket.Settled (start trial : Vector α n) (M : Vector α n → α → Prop) (merit : α)
    (b : Bracket α α n) : Prop where
  trials : b.All (Trial.Probed start trial M)
  low_le : b.low.merit ≤ merit
  mid : b.MidAtEnd

/-- A search starts with two positions, zero and one, and with its start as the best point. -/
theorem settled_opening (hstart : M start merit) {value : α} (hvalue : M trial value) :
    (opening start trial merit value).Settled start trial M merit := by
  have hfirst : Trial.Probed start trial M ⟨0, start, merit⟩ :=
    ⟨ExactScalar.dyadic_zero, (along_zero_of_exact start trial).symm, hstart⟩
  have hlast : Trial.Probed start trial M ⟨1, trial, value⟩ :=
    ⟨ExactScalar.dyadic_one, (along_one_of_exact start trial).symm, hvalue⟩
  exact ⟨⟨hfirst, hfirst, hlast⟩, le_rfl, .inl rfl⟩

/-- A bisection keeps a bracket settled, whichever end it moves. -/
theorem Bracket.Settled.bisected {b : Bracket α α n} (h : b.Settled start trial M merit)
    {value : α} (hvalue : M (along start trial b.middle) value) :
    ((b.halved start trial value).narrow).Settled start trial M merit := by
  have hmid : Trial.Probed start trial M ⟨b.middle, along start trial b.middle, value⟩ :=
    ⟨h.trials.low.dyadic.middle h.trials.high.dyadic, rfl, hvalue⟩
  have hlow : (b.halved start trial value).narrow.low.merit ≤ b.low.merit :=
    narrow_low_le (ExactScalar.defined _) fun hblind => hblind.1 (ExactScalar.defined _)
  exact ⟨All.narrow ⟨h.trials.low, hmid, h.trials.high⟩, hlow.trans h.low_le,
    narrow_midAtEnd _⟩

/-- The three-way choice finds the smallest merit, since the middle is one of the ends. -/
theorem Bracket.best_eq_accepted {b : Bracket α α n} (hb : b.MidAtEnd) :
    b.best = b.accepted.merit := by
  unfold best accepted Scalar.keepMin
  rcases hb with hmid | hmid <;> rw [hmid]
  · rw [if_neg (lt_irrefl b.low.merit), if_neg (lt_irrefl b.low.merit)]
    split_ifs <;> rfl
  · -- the ends differ, or both have the merit that is accepted
    rcases lt_trichotomy b.low.merit b.high.merit with hlt | heq | hgt
    · rw [if_neg hlt.not_gt, if_neg hlt.not_gt, if_pos hlt]
    · rw [heq, if_neg (lt_irrefl b.high.merit)]
      simp
    · rw [if_pos hgt, if_neg hgt.not_gt, if_neg (lt_irrefl b.high.merit)]
      simp

/-! ## Searches -/

/-- A search ends at a dyadic position of its segment with the merit of that point, which is
the smallest one that it ends with and no larger than the merit of its start. -/
theorem ensures_search_accepts {meritAt : Vector α n → Recorded α α}
    (hM : ∀ p, Ensures (meritAt p) (M p)) (hstart : M start merit) :
    Ensures (search meritAt start trial merit tolerance) fun o =>
      (∃ a, Dyadic a ∧ o.parameters = along start trial a) ∧ M o.parameters o.merit ∧
        o.merit = o.bestMerit ∧ o.bestMerit ≤ merit := by
  refine (ensures_search_of_invariant (I := fun _ b => b.Settled start trial M merit) hM
    (fun _ => settled_opening hstart) fun _ _ _ hb => hb.bisected).mono ?_
  rintro o ⟨b, hb, ho⟩
  have hchoice := hb.trials.accepted
  have hle : b.accepted.merit ≤ merit :=
    (Bracket.accepted_le_low (ExactScalar.defined _) (ExactScalar.defined _)).trans hb.low_le
  have hbest := Bracket.best_eq_accepted hb.mid
  rw [ho]
  exact ⟨⟨_, hchoice.dyadic, hchoice.point_eq⟩, hchoice.merit, hbest.symm, hbest.trans_le hle⟩

/-- The same for a merit function that always answers, and for every entry of the point. -/
theorem searchOf_accepts (f : Vector α n → α) (start trial : Vector α n) (tolerance : α) :
    (∃ a, Dyadic a ∧ ∀ i, (searchOf f start trial (f start) tolerance).parameters.get i =
        (1 - a) * start.get i + a * trial.get i) ∧
      (searchOf f start trial (f start) tolerance).merit =
        f (searchOf f start trial (f start) tolerance).parameters ∧
      (searchOf f start trial (f start) tolerance).merit =
        (searchOf f start trial (f start) tolerance).bestMerit ∧
      (searchOf f start trial (f start) tolerance).bestMerit ≤ f start := by
  have hsearch : Ensures
      (search (fun p => (pure (f p) : Recorded α α)) start trial (f start) tolerance) fun o =>
        (∃ a, Dyadic a ∧ o.parameters = along start trial a) ∧ o.merit = f o.parameters ∧
          o.merit = o.bestMerit ∧ o.bestMerit ≤ f start :=
    ensures_search_accepts (M := fun p v => v = f p) (fun _ => Confined.pure rfl) rfl
  rw [search_pure] at hsearch
  obtain ⟨⟨a, ha, hpoint⟩, hmerit, hbest, hle⟩ := hsearch.answer {} _ rfl
  exact ⟨⟨a, ha, fun i => by rw [hpoint, get_along_of_exact]⟩, hmerit, hbest, hle⟩

end Sqp.LineSearch
