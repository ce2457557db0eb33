import Mathlib.Data.List.Forall2
import Sqp.Proofs.Bounds
import Sqp.Proofs.Spec
import Sqp.Problem.Basic

/-!
# Accepted problems

- `Spec.Ranged`: all variables are bounded and start strictly between their bounds.
  `Spec.ofParameters_cases` and `Spec.ofInequalities_ranged` say that in exact arithmetic
  checked inputs specify free variables or variables of this kind.
- `Problem.build_eq_ok_iff`: an accepted problem is that of two accepted specifications.
- `Problem.ofSpecs_rows`: what holds of the rows of both specifications holds of the bounds of
  the problem and of its initial point; so the initial point is strictly inside the bounds
  (`Problem.ofSpecs_strictlyInside`).
- `Problem.decisions_pos_of_build`: an accepted problem has decision variables.
- `Problem.ofSpecs_get_bounds_of_unbounded`: the mode without bounds is that of a problem
  without bounds.
- `Problem.forall₂_slackRows`, `Problem.forall₂_decisionRows`: what holds of the bounded
  entries of a parameter vector, in terms of the specified rows.
-/

namespace Sqp

/-! ## Rows and entries -/

/-- Lists related entry by entry are related at each index. -/
theorem forall₂_getElem {β γ : Type} {R : β → γ → Prop} {bs : List β} {xs : List γ}
    (h : List.Forall₂ R bs xs) {i : Nat} {b : β} (hb : bs[i]? = some b) (hi : i < xs.length) :
    R b xs[i] := by
  obtain ⟨hi', rfl⟩ := List.getElem?_eq_some_iff.mp hb
  exact h.get hi' hi

/-- Rows related to the entries of a vector at each index. -/
theorem forall₂_toList {β γ : Type} {R : β → γ → Prop} {n : Nat} {bs : List β} {x : Vector γ n}
    (hlength : bs.length = n) (h : ∀ (i : Fin n) b, bs[i.val]? = some b → R b (x.get i)) :
    List.Forall₂ R bs x.toList := by
  refine List.forall₂_iff_get.mpr ⟨by simpa using hlength, fun i h₁ h₂ => ?_⟩
  have hi : i < n := hlength ▸ h₁
  have hrel := h ⟨i, hi⟩ bs[i] (List.getElem?_eq_getElem h₁)
  have hget : x.toList.get ⟨i, h₂⟩ = x.get ⟨i, hi⟩ := Vector.getElem_toList h₂
  rw [hget]
  exact hrel

/-! ## Specifications -/

namespace Spec

/-- `R` holds between the interval of each bounded variable and its initial value. -/
def RowsSatisfy {α : Type} [Scalar α] (spec : Spec α) (R : Interval α → α → Prop) : Prop :=
  ∀ i b, (spec.intervals?.getD [])[i]? = some b → ∀ hi : i < spec.guess.length,
    R b spec.guess[i]

theorem rowsSatisfy_unbounded {α : Type} [Scalar α] {R : Interval α → α → Prop} (guess : List α) :
    (unbounded guess).RowsSatisfy R :=
  nofun

/-- Bounded variables that start strictly between their bounds. -/
def Ranged (spec : Spec ℝ) : Prop :=
  ∃ rows, spec.intervals? = some rows ∧
    List.Forall₂ (fun b x => b.lower < x ∧ x < b.upper) rows spec.guess

theorem Ranged.rowsSatisfy {spec : Spec ℝ} (h : spec.Ranged) :
    spec.RowsSatisfy fun b x => b.lower < x ∧ x < b.upper := by
  intro i b hb hi
  obtain ⟨rows, hrows, hforall⟩ := h
  exact forall₂_getElem hforall (by simpa [hrows] using hb) hi

/-- The middle of a range lies strictly inside it. -/
theorem ranged_of_ofRange {lower upper : List ℝ} {spec : Spec ℝ}
    (h : ofRange lower upper = .ok spec) : spec.Ranged := by
  obtain ⟨rows, hrows, rfl⟩ := ofRange_eq_ok_iff.mp h
  refine ⟨rows, rfl, List.forall₂_map_right_iff.mpr (List.forall₂_same.mpr fun b hb => ?_)⟩
  have hlt := not_le.mp ((pairBounds_eq_ok_iff.mp hrows).2.2 b hb)
  unfold Interval.middle
  norm_num
  constructor <;> linarith

/-- Initial values that are accepted lie strictly inside their ranges. -/
theorem ranged_of_ofGuessedRange {guess lower upper : List ℝ} {spec : Spec ℝ}
    (h : ofGuessedRange guess lower upper = .ok spec) : spec.Ranged := by
  obtain ⟨bounds, -, -, hinside, rfl⟩ := ofGuessedRange_eq_ok_iff.mp h
  refine ⟨_, rfl, List.forall₂_map_left_iff.mpr (List.forall₂_map_right_iff.mpr
    (List.forall₂_same.mpr fun row hrow => ?_))⟩
  exact ⟨not_le.mp (hinside row hrow).1, not_le.mp (hinside row hrow).2⟩

/-- A checked record has no bounds at all, or initial values strictly between them. -/
theorem Checked.cases {spec : Spec ℝ} (h : spec.Checked) :
    (∃ guess, spec = .unbounded guess) ∨ spec.Ranged := by
  cases h with
  | unbounded guess => exact .inl ⟨guess, rfl⟩
  | range h => exact .inr (ranged_of_ofRange h)
  | guessedRange h => exact .inr (ranged_of_ofGuessedRange h)

/-- Parameters are free, or bounded with initial values strictly inside. -/
theorem ofParameters_cases {input : SpecInput ℝ} (hinput : input.Checked) {spec : Spec ℝ}
    (h : ofParameters input = .ok spec) : (∃ guess, spec = .unbounded guess) ∨ spec.Ranged :=
  (checked_of_ofParameters hinput h).cases

/-- Inequality values are always bounded. -/
theorem ofInequalities_ranged {input? : Option (SpecInput ℝ)}
    (hinput : ∀ input ∈ input?, input.Checked) {spec : Spec ℝ}
    (h : ofInequalities input? = .ok (some spec)) : spec.Ranged := by
  refine (checked_of_ofInequalities hinput h).cases.resolve_left ?_
  rintro ⟨guess, rfl⟩
  exact Bool.false_ne_true (bounded_of_ofInequalities h).1

end Spec

/-! ## Problems -/

theorem Bounds.get_leading {β : Type} (rows : List (Interval β)) (n : Nat) (i : Fin n) :
    (Bounds.leading rows n).get i = rows[i.val]? :=
  get_ofFn _ i

namespace Problem

variable {α : Type}

/-- The specified bounds of the inequality values. -/
def slackRows (inequalities : Option (Spec α)) : List (Interval α) :=
  (inequalities.bind Spec.intervals?).getD []

/-- The specified bounds of the decision variables. -/
def decisionRows (parameters : Spec α) : List (Interval α) := parameters.intervals?.getD []

section Entries

variable [Scalar α] {parameters : Spec α} {inequalities : Option (Spec α)}

/-- A problem is accepted if both of its specifications are. -/
theorem build_eq_ok_iff {parameters : SpecInput α} {inequalities : Option (SpecInput α)}
    {sized : SizedProblem α} :
    build parameters inequalities = .ok sized ↔ ∃ spec, Spec.ofParameters parameters = .ok spec ∧
      ∃ spec?, Spec.ofInequalities inequalities = .ok spec? ∧ sized = ofSpecs spec spec? := by
  refine except_bind_eq_ok_iff.trans (exists_congr fun spec => and_congr_right fun _ => ?_)
  refine except_bind_eq_ok_iff.trans (exists_congr fun spec? => and_congr_right fun _ => ?_)
  exact ⟨fun h => (Except.ok.inj h).symm, fun h => congrArg Except.ok h.symm⟩

/-- An accepted problem has at least one decision variable. -/
theorem decisions_pos_of_build {parameters : SpecInput α} {inequalities : Option (SpecInput α)}
    {sized : SizedProblem α} (h : build parameters inequalities = .ok sized) :
    0 < sized.decisions := by
  obtain ⟨spec, hspec, spec?, -, rfl⟩ := build_eq_ok_iff.mp h
  exact Spec.length_guess_pos_of_ofParameters hspec

/-- The first bounds of a problem are those of the inequality values. -/
theorem get_bounds_slack (i : Fin (ofSpecs parameters inequalities).inequalities) :
    (ofSpecs parameters inequalities).problem.bounds.get (i.castAdd _) =
      (slackRows inequalities)[i.val]? :=
  (get_append_castAdd _ _ i).trans (Bounds.get_leading _ _ i)

/-- The others are those of the parameters. -/
theorem get_bounds_decision (i : Fin (ofSpecs parameters inequalities).decisions) :
    (ofSpecs parameters inequalities).problem.bounds.get (i.natAdd _) =
      (decisionRows parameters)[i.val]? :=
  (get_append_natAdd _ _ i).trans (Bounds.get_leading _ _ i)

/-- What holds between the intervals of both specifications and the initial values of their
variables holds between bounds and initial point of the problem. -/
theorem ofSpecs_rows {R : Interval α → α → Prop} (hparameters : parameters.RowsSatisfy R)
    (hinequalities : ∀ spec ∈ inequalities, spec.RowsSatisfy R) (i : Fin _) (b : Interval α)
    (hb : (ofSpecs parameters inequalities).problem.bounds.get i = some b) :
    R b ((ofSpecs parameters inequalities).problem.parameters.get i) := by
  revert hb
  -- an entry is a slack or a decision variable, each with a specification of its own
  refine Fin.addCases (fun k hb => ?_) (fun k hb => ?_) i
  · have hget : (ofSpecs parameters inequalities).problem.parameters.get (k.castAdd _) =
        ((inequalities.map Spec.guess).getD [])[k.val] :=
      get_append_castAdd _ _ k
    rw [get_bounds_slack] at hb
    rw [hget]
    cases inequalities with
    | none => cases hb
    | some spec => exact hinequalities spec rfl _ b hb k.isLt
  · have hget : (ofSpecs parameters inequalities).problem.parameters.get (k.natAdd _) =
        parameters.guess[k.val] :=
      get_append_natAdd _ _ k
    rw [get_bounds_decision] at hb
    rw [hget]
    exact hparameters _ b hb k.isLt

/-- Without bounds in the mode there are none in the problem. -/
theorem ofSpecs_get_bounds_of_unbounded
    (h : (ofSpecs parameters inequalities).problem.mode = .unbounded)
    (i : Fin ((ofSpecs parameters inequalities).inequalities +
      (ofSpecs parameters inequalities).decisions)) :
    (ofSpecs parameters inequalities).problem.bounds.get i = none := by
  have hmode : modeOf parameters.intervals? (ofSpecs parameters inequalities).inequalities =
      .unbounded := h
  unfold modeOf at hmode
  -- neither specification has bounds, and so there are no inequality constraints
  split_ifs at hmode with hsome hpos
  refine Fin.addCases (fun k => ?_) (fun k => ?_) i
  · exact absurd k.pos hpos
  · rw [get_bounds_decision, decisionRows, Option.not_isSome_iff_eq_none.mp hsome]
    rfl

end Entries

variable {parameters : Spec ℝ} {inequalities : Option (Spec ℝ)}

/-- The initial point of a problem lies strictly inside its bounds. -/
theorem ofSpecs_strictlyInside
    (hparameters : (∃ guess, parameters = .unbounded guess) ∨ parameters.Ranged)
    (hinequalities : ∀ spec ∈ inequalities, spec.Ranged) :
    (ofSpecs parameters inequalities).problem.bounds.strictlyInside
      (ofSpecs parameters inequalities).problem.parameters = true := by
  rw [Bounds.strictlyInside_iff]
  refine ofSpecs_rows (R := fun b x => b.lower < x ∧ x < b.upper) ?_ fun spec hspec =>
    (hinequalities spec hspec).rowsSatisfy
  rcases hparameters with ⟨guess, rfl⟩ | hranged
  · exact Spec.rowsSatisfy_unbounded guess
  · exact hranged.rowsSatisfy

/-- What the bounds of a problem demand of the slacks, row by row. -/
theorem forall₂_slackRows (hinequalities : ∀ spec ∈ inequalities, spec.Ranged)
    {R : Interval ℝ → ℝ → Prop} {x : Vector ℝ (ofSpecs parameters inequalities).inequalities}
    (h : ∀ i b, (ofSpecs parameters inequalities).problem.bounds.get (i.castAdd _) = some b →
      R b (x.get i)) : List.Forall₂ R (slackRows inequalities) x.toList := by
  refine forall₂_toList ?_ fun i b hb => h i b (by rw [get_bounds_slack, hb])
  cases inequalities with
  | none => rfl
  | some spec =>
    obtain ⟨rows, hrows, hforall⟩ := hinequalities spec rfl
    show ((spec.intervals?).getD []).length = spec.guess.length
    rw [hrows]
    exact hforall.length_eq

/-- What the bounds of a problem demand of the decision variables, row by row. -/
theorem forall₂_decisionRows (hranged : parameters.Ranged) {R : Interval ℝ → ℝ → Prop}
    {x : Vector ℝ (ofSpecs parameters inequalities).decisions}
    (h : ∀ i b, (ofSpecs parameters inequalities).problem.bounds.get (i.natAdd _) = some b →
      R b (x.get i)) : List.Forall₂ R (decisionRows parameters) x.toList := by
  refine forall₂_toList ?_ fun i b hb => h i b (by rw [get_bounds_decision, hb])
  obtain ⟨rows, hrows, hforall⟩ := hranged
  show (parameters.intervals?.getD []).length = parameters.guess.length
  rw [hrows]
  exact hforall.length_eq

end Problem

end Sqp
