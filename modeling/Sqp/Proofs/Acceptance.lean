import Sqp.Proofs.Problem
import Sqp.Proofs.Scalar.Double
import Sqp.Solver.Options

/-!
# What acceptance of an input is worth

Options and specifications are refused if a comparison finds them wrong. A comparison with
an undefined value finds nothing, so what a check makes sure of holds of defined values
only; and the middle of a range is not checked at all. This is said here for all lawful
scalars, doubles included.

- `Options.Accepted`: what the check of options makes sure of.
- `Interval.Sound`, `Interval.Encloses`: what the checks of bounds and of initial values make
  sure of.
- `Spec.Sound`: both, for the rows of a specification. Accepted arrays have it
  (`Spec.ofParameters_sound`, `Spec.ofInequalities_sound`), and it carries over to the
  initial point of a problem (`Problem.build_sound`).
- `accepted_sound`: all of it together.
- `undefined_accepted`: what is accepted although the documented rules exclude it.
-/

namespace Sqp

open Scalar (Defined)

variable {α β : Type} [Scalar α] [Scalar β]

/-! ## Options -/

/-- What the check of options makes sure of. -/
structure Options.Accepted (o : Options α) : Prop where
  tolerance : 0 < o.tolerance
  square : Scalar.isInfinite (o.tolerance * o.tolerance) = false
  delta : 0 < o.delta
  rho : ¬ o.rho < 0
  majorLimit : 1 ≤ o.majorLimit
  minorLimit : 1 ≤ o.minorLimit

/-- Options are accepted as they are. -/
theorem Options.accepted_of_check {o o' : Options α} (h : o.check = .ok o') :
    o' = o ∧ o.Accepted := by
  unfold Options.check at h
  split_ifs at h with htolerance hsquare hdelta hrho hlimits
  cases h
  have hlimits := not_or.mp hlimits
  exact ⟨rfl, htolerance, by simpa using hsquare, hdelta, hrho, not_lt.mp hlimits.1,
    not_lt.mp hlimits.2⟩

/-! ## Specifications -/

/-- The bounds are in strict order, unless their difference is undefined. -/
def Interval.Sound (b : Interval β) : Prop := Defined (b.upper - b.lower) → b.lower < b.upper

/-- The value lies strictly between the bounds, unless one of the three is undefined. -/
def Interval.Encloses (b : Interval β) (x : β) : Prop :=
  Defined b.lower → Defined x → Defined b.upper → b.lower < x ∧ x < b.upper

/-- Bounds in order, and initial values between them. -/
def Spec.Sound : Spec β → Prop
  | .unbounded _ => True
  | .range rows => ∀ b ∈ rows, b.Sound
  | .guessedRange rows => ∀ row ∈ rows, row.2.Sound ∧ row.2.Encloses row.1

/-- Records are checked when they are made; arrays may hold anything. -/
def SpecInput.Sound : SpecInput β → Prop
  | .array _ => True
  | .record spec => spec.Sound

namespace Spec

variable [Scalar.Lawful β]

/-- A pair of bounds that is not found to be out of order is in order, if its difference is
defined. -/
theorem pairBounds_sound {lower upper : List β} {rows : List (Interval β)}
    (h : pairBounds lower upper = .ok rows) : ∀ b ∈ rows, b.Sound := by
  -- the check compares the difference, so without a difference it finds nothing
  intro b hb hdefined
  exact Scalar.Lawful.lt_of_sub_pos _ _ (Scalar.lt_of_not_le Scalar.Lawful.zero_defined hdefined
    ((pairBounds_eq_ok_iff.mp h).2.2 b hb))

/-- A range that is accepted has bounds in order. -/
theorem ofRange_sound {lower upper : List β} {spec : Spec β}
    (h : ofRange lower upper = .ok spec) : spec.Sound := by
  obtain ⟨rows, hrows, rfl⟩ := ofRange_eq_ok_iff.mp h
  exact pairBounds_sound hrows

theorem ofGuessedRange_sound {guess lower upper : List β} {spec : Spec β}
    (h : ofGuessedRange guess lower upper = .ok spec) : spec.Sound := by
  obtain ⟨bounds, hbounds, -, hinside, rfl⟩ := ofGuessedRange_eq_ok_iff.mp h
  intro row hrow
  refine ⟨pairBounds_sound hbounds _ (List.of_mem_zip hrow).2, fun hlower hx hupper => ?_⟩
  exact ⟨Scalar.lt_of_not_le hlower hx (hinside row hrow).1,
    Scalar.lt_of_not_le hx hupper (hinside row hrow).2⟩

/-- Every constructor that checks makes sound records. -/
theorem Checked.sound {spec : Spec β} (h : spec.Checked) : spec.Sound := by
  cases h with
  | unbounded => trivial
  | range h => exact ofRange_sound h
  | guessedRange h => exact ofGuessedRange_sound h

/-- Parameters that are accepted are sound, whether they are read off an array or given as a sound
record. -/
theorem ofParameters_sound {input : SpecInput β} (hinput : input.Sound) {spec : Spec β}
    (h : ofParameters input = .ok spec) : spec.Sound := by
  obtain ⟨rfl | ⟨data, rfl, hdata⟩, -⟩ := ofParameters_eq_ok_iff.mp h
  · exact hinput
  · exact (checked_of_ofParameterArray hdata).sound

theorem ofInequalities_sound {input? : Option (SpecInput β)}
    (hinput : ∀ input ∈ input?, input.Sound) {spec : Spec β}
    (h : ofInequalities input? = .ok (some spec)) : spec.Sound := by
  obtain ⟨rfl, -⟩ | ⟨data, rfl, hdata⟩ := ofInequalities_eq_some_iff.mp h
  · exact hinput _ rfl
  · exact (checked_of_ofInequalityArray hdata).sound

omit [Scalar.Lawful β] in
/-- The initial value of a bounded variable is the middle of its range, which is not checked,
or a given one, which is. -/
theorem Sound.rowsSatisfy {spec : Spec β} (h : spec.Sound) :
    spec.RowsSatisfy fun b x => b.Sound ∧ (x = b.middle ∨ b.Encloses x) := by
  intro i b hb hi
  obtain ⟨hlength, rfl⟩ := List.getElem?_eq_some_iff.mp hb
  cases spec with
  | unbounded guess => exact absurd hlength (Nat.not_lt_zero i)
  | range rows =>
    refine ⟨h _ (List.getElem_mem hlength), .inl ?_⟩
    exact List.getElem_map _
  | guessedRange rows =>
    have hi' : i < rows.length := by simpa [Spec.guess] using hi
    have hrow := h (rows.get ⟨i, hi'⟩) (List.get_mem rows _)
    simpa [Spec.intervals?, Spec.guess] using And.intro hrow.1 (.inr hrow.2)

end Spec

/-! ## Problems -/

/-- The bounds and the initial point of a problem, entry by entry. -/
theorem Problem.build_sound [Scalar.Lawful β] {parameters : SpecInput β}
    {inequalities : Option (SpecInput β)} (hparameters : parameters.Sound)
    (hinequalities : ∀ input ∈ inequalities, input.Sound) {sized : SizedProblem β}
    (h : build parameters inequalities = .ok sized)
    (i : Fin (sized.inequalities + sized.decisions)) {b : Interval β}
    (hb : sized.problem.bounds.get i = some b) :
    b.Sound ∧ (sized.problem.parameters.get i = b.middle ∨
      b.Encloses (sized.problem.parameters.get i)) := by
  obtain ⟨spec, hspec, spec?, hspec?, rfl⟩ := build_eq_ok_iff.mp h
  refine ofSpecs_rows (Spec.ofParameters_sound hparameters hspec).rowsSatisfy ?_ i b hb
  rintro _ rfl
  exact (Spec.ofInequalities_sound hinequalities hspec?).rowsSatisfy

/-! ## Acceptance -/

/-- Accepted options have a positive tolerance whose square is not infinite, a positive
step and a penalty that is not negative, or undefined. The rows of an accepted specification
and of the problem that is built from it have bounds in strict order, and the given initial
values lie strictly between them, or something is undefined. -/
theorem accepted_sound [Scalar.Lawful α] [Scalar.Lawful β] :
    (∀ o o' : Options α, o.check = .ok o' → o' = o ∧ 0 < o.tolerance ∧
      Scalar.isInfinite (o.tolerance * o.tolerance) = false ∧ 0 < o.delta ∧
      (Defined o.rho → 0 ≤ o.rho)) ∧
    (∀ (lower upper : List β) (spec : Spec β),
      Spec.ofRange lower upper = .ok spec → spec.Sound) ∧
    (∀ (guess lower upper : List β) (spec : Spec β),
      Spec.ofGuessedRange guess lower upper = .ok spec → spec.Sound) ∧
    (∀ (input : SpecInput β) (spec : Spec β), input.Sound →
      Spec.ofParameters input = .ok spec → spec.Sound) ∧
    (∀ (input? : Option (SpecInput β)) (spec : Spec β), (∀ input ∈ input?, input.Sound) →
      Spec.ofInequalities input? = .ok (some spec) → spec.Sound) ∧
    ∀ (parameters : SpecInput β) (inequalities : Option (SpecInput β)) (sized : SizedProblem β),
      parameters.Sound → (∀ input ∈ inequalities, input.Sound) →
      Problem.build parameters inequalities = .ok sized →
      ∀ i b, sized.problem.bounds.get i = some b → b.Sound ∧
        (sized.problem.parameters.get i = b.middle ∨
          b.Encloses (sized.problem.parameters.get i)) := by
  refine ⟨fun o o' h => ?_, fun _ _ _ h => Spec.ofRange_sound h,
    fun _ _ _ _ h => Spec.ofGuessedRange_sound h, fun _ _ hinput h =>
      Spec.ofParameters_sound hinput h, fun _ _ hinput h => Spec.ofInequalities_sound hinput h,
    fun _ _ _ hparameters hinequalities h i _ hb =>
      Problem.build_sound hparameters hinequalities h i hb⟩
  obtain ⟨rfl, haccepted⟩ := Options.accepted_of_check h
  refine ⟨rfl, haccepted.tolerance, haccepted.square, haccepted.delta, fun hrho => ?_⟩
  exact Scalar.le_of_not_lt hrho Scalar.Lawful.zero_defined haccepted.rho

/-- The standard options of doubles, and a range of entries. -/
theorem accepted_sound_standard :
    (Options.standard : Options Float).check = .ok .standard ∧
    (0 : Float) ≤ (Options.standard : Options Float).rho ∧
    Spec.ofGuessedRange [(⟨1.0⟩ : Cell)] [⟨0.0⟩] [⟨2.0⟩] =
      .ok (.guessedRange [(⟨1.0⟩, ⟨⟨0.0⟩, ⟨2.0⟩⟩)]) ∧
    (⟨0.0⟩ : Cell) < ⟨1.0⟩ ∧ (⟨1.0⟩ : Cell) < ⟨2.0⟩ := by
  have hspec : Spec.ofGuessedRange [(⟨1.0⟩ : Cell)] [⟨0.0⟩] [⟨2.0⟩] =
      .ok (.guessedRange [(⟨1.0⟩, ⟨⟨0.0⟩, ⟨2.0⟩⟩)]) :=
    Spec.ofGuessedRange_singleton (by decide +kernel) (by decide +kernel) (by decide +kernel)
  obtain ⟨hoptions, -, hguessed, -⟩ := accepted_sound (α := Float) (β := Cell)
  obtain ⟨-, -, -, -, hrho⟩ := hoptions .standard .standard rfl
  obtain ⟨-, hencloses⟩ := hguessed _ _ _ _ hspec _ List.mem_cons_self
  exact ⟨rfl, hrho (by decide), hspec,
    hencloses (by decide +kernel) (by decide +kernel) (by decide +kernel)⟩

/-- What is accepted although the documented rules exclude it: an undefined penalty, an
undefined bound, an undefined initial value, and a range whose middle is its lower bound. -/
theorem undefined_accepted :
    (∃ o : Options Float, o.check = .ok o ∧ ¬ 0 ≤ o.rho) ∧
    (∃ lower upper : Cell, Spec.ofRange [lower] [upper] = .ok (.range [⟨lower, upper⟩]) ∧
      ¬ lower < upper) ∧
    (∃ x lower upper : Cell,
      Spec.ofGuessedRange [x] [lower] [upper] = .ok (.guessedRange [(x, ⟨lower, upper⟩)]) ∧
      lower < upper ∧ ¬ (lower < x ∧ x < upper)) ∧
    ∃ lower upper : Cell, Spec.ofRange [lower] [upper] = .ok (.range [⟨lower, upper⟩]) ∧
      lower < upper ∧ ¬ lower < Interval.middle ⟨lower, upper⟩ := by
  refine ⟨⟨{ Options.standard with rho := 0.0 / 0.0 }, rfl, by decide⟩,
    ⟨⟨0.0 / 0.0⟩, ⟨1.0⟩, ?_, ?_⟩, ⟨⟨0.0 / 0.0⟩, ⟨0.0⟩, ⟨1.0⟩, ?_, ?_, ?_⟩,
    ⟨⟨1.0⟩, ⟨1.0000000000000002⟩, ?_, ?_, ?_⟩⟩
  · exact Spec.ofRange_singleton (by decide +kernel)
  · decide +kernel
  · exact Spec.ofGuessedRange_singleton (by decide +kernel) (by decide +kernel) (by decide +kernel)
  · decide +kernel
  · decide +kernel
  · exact Spec.ofRange_singleton (by decide +kernel)
  · decide +kernel
  · decide +kernel

end Sqp
