import Sqp.Proofs.Linear.Entries
import Sqp.Proofs.Problem

/-!
# The layout of a problem

A parameter vector holds the inequality values and then the decision variables, and the bounds are
those of its leading entries in the same order. Which entries these are can be read off the mode.

- `Bounds.rows_leading`, `Bounds.leading_append`: bounds of leading entries as a list of rows.
- `Spec.length_rows`: bounded variables have one row each.
- `Spec.ofInequalities_record`: what an input means as inequality constraints is bounded, has at
  least one variable, and means the same as a record.
- `Problem.Layout`: the layout of a problem with given slacks and decision variables.
- `Problem.build_layout`: every accepted problem has it, and records may take the place of the
  inputs that they are read from.
-/

namespace Sqp

variable {α : Type} {e q n : Nat}

/-! ## Bounds of leading entries -/

namespace Bounds

/-- Bounds are given first to the leading entries, and the others have none. -/
theorem toList_leading {rows : List (Interval α)} (h : rows.length ≤ n) :
    (leading rows n).toList = rows.map some ++ List.replicate (n - rows.length) none := by
  apply List.ext_getElem
  · simp [h]
  · intro i h₁ h₂
    have hi : i < n := by simpa using h₁
    have hget : (leading rows n).toList[i] = (leading rows n).get ⟨i, hi⟩ :=
      Vector.getElem_toList h₁
    rw [hget, get_leading]
    by_cases hrow : i < rows.length
    · rw [List.getElem_append_left (by simpa using hrow), List.getElem_map,
        List.getElem?_eq_getElem hrow]
    · rw [List.getElem_append_right (by simpa using hrow), List.getElem_replicate,
        List.getElem?_eq_none (not_lt.mp hrow)]

/-- The bounded entries have the rows they were given. -/
theorem rows_leading {rows : List (Interval α)} (h : rows.length ≤ n) :
    (leading rows n).rows = rows := by
  rw [Bounds.rows, toList_leading h, List.filterMap_append, List.filterMap_map,
    List.filterMap_replicate_of_none rfl, List.append_nil]
  exact List.filterMap_some

/-- Rows for all entries of a first part leave no gap before those of the second part. -/
theorem leading_append {slacks decisions : List (Interval α)} (h : slacks.length = q) :
    leading slacks q ++ leading decisions n = leading (slacks ++ decisions) (q + n) := by
  refine vector_ext (Fin.addCases (fun i => ?_) fun i => ?_)
  · rw [get_append_castAdd, get_leading, get_leading]
    exact (List.getElem?_append_left (h.symm ▸ i.isLt)).symm
  · rw [get_append_natAdd, get_leading, get_leading, Fin.val_natAdd,
      List.getElem?_append_right (h.le.trans (Nat.le_add_right q i)), h, Nat.add_sub_cancel_left]

end Bounds

/-! ## Specifications -/

namespace Spec

/-- The bounds of the variables; free variables have none. -/
def rows (spec : Spec α) : List (Interval α) := spec.intervals?.getD []

theorem rows_of_free {spec : Spec α} (h : ¬ spec.intervals?.isSome = true) : spec.rows = [] := by
  rw [rows, Option.not_isSome_iff_eq_none.mp h, Option.getD_none]

variable [Scalar α] {spec : Spec α}

/-- Bounded variables have one row each. -/
theorem length_rows (h : spec.intervals?.isSome = true) : spec.rows.length = spec.guess.length := by
  cases spec with
  | unbounded guess => cases h
  | range rows => exact (List.length_map _).symm
  | guessedRange rows => exact (List.length_map _).trans (List.length_map _).symm

/-- A record of parameters means itself. -/
theorem ofParameters_record (h : 0 < spec.guess.length) :
    ofParameters (.record spec) = .ok spec :=
  ofParameters_eq_ok_iff.mpr ⟨.inl rfl, h⟩

/-- A record of inequality constraints means itself. -/
theorem ofInequalities_record (hbounded : spec.intervals?.isSome = true)
    (hsome : 0 < spec.guess.length) : ofInequalities (some (.record spec)) = .ok (some spec) :=
  ofInequalities_eq_some_iff.mpr (.inl ⟨rfl, hbounded, hsome⟩)

end Spec

/-! ## Problems -/

namespace Problem

/-- A problem whose parameters are the variables of `slacks` and then those of `decisions`, each
with its bounds. The bounded ones come first, and the mode tells which ones they are. -/
structure Layout [Scalar α] (p : Problem α e q n) (slacks decisions : Spec α) : Prop where
  decisions_pos : 0 < n
  length_slacks : slacks.guess.length = q
  length_decisions : decisions.guess.length = n
  parameters : p.parameters.toList = slacks.guess ++ decisions.guess
  decisionVariables : (back p.parameters).toList = decisions.guess
  rows : p.bounds.rows = slacks.rows ++ decisions.rows
  get_bounds : ∀ i, p.bounds.get i = p.bounds.rows[i.val]?
  get_slackBounds : ∀ i : Fin q, p.bounds.get (i.castAdd n) = slacks.rows[i.val]?
  get_decisionBounds : ∀ i : Fin n, p.bounds.get (i.natAdd q) = decisions.rows[i.val]?
  unbounded_iff : p.mode = .unbounded ↔ p.bounds.rows = []
  slackBounded : p.mode = .slackBounded → p.bounds.rows.length = q
  fullyBounded : p.mode = .fullyBounded → p.bounds.rows.length = q + n
  bounded_of_slacks : 0 < q → p.bounds.rows ≠ []

variable [Scalar α]

/-- The number of equality constraints has no part in the layout. -/
theorem Layout.withEqualities {p : Problem α e q n} {slacks decisions : Spec α}
    (h : p.Layout slacks decisions) (e' : Nat) : (p.withEqualities e').Layout slacks decisions :=
  ⟨h.decisions_pos, h.length_slacks, h.length_decisions, h.parameters, h.decisionVariables, h.rows,
    h.get_bounds, h.get_slackBounds, h.get_decisionBounds, h.unbounded_iff, h.slackBounded,
    h.fullyBounded, h.bounded_of_slacks⟩

/-- The problem of bounded slacks and any decision variables. -/
def ofParts (slacks decisions : Spec α) :
    Problem α 0 slacks.guess.length decisions.guess.length where
  parameters := ofList slacks.guess ++ ofList decisions.guess
  bounds := Bounds.leading slacks.rows slacks.guess.length
    ++ Bounds.leading decisions.rows decisions.guess.length
  mode := modeOf decisions.intervals? slacks.guess.length

section Parts

variable {slacks decisions : Spec α} (hslacks : slacks.intervals?.isSome = true)
include hslacks

theorem ofParts_bounds : (ofParts slacks decisions).bounds =
    Bounds.leading (slacks.rows ++ decisions.rows)
      (slacks.guess.length + decisions.guess.length) :=
  Bounds.leading_append (Spec.length_rows hslacks)

theorem ofParts_rows : (ofParts slacks decisions).bounds.rows = slacks.rows ++ decisions.rows := by
  rw [ofParts_bounds hslacks]
  refine Bounds.rows_leading ?_
  rw [List.length_append, Spec.length_rows hslacks]
  refine Nat.add_le_add_left ?_ _
  by_cases hbounded : decisions.intervals?.isSome = true
  · exact (Spec.length_rows hbounded).le
  · rw [Spec.rows_of_free hbounded]
    exact Nat.zero_le _

/-- The three modes with what is bounded in them. -/
theorem ofParts_mode_cases (decisions : Spec α) :
    ((ofParts slacks decisions).mode = .fullyBounded ∧
        (ofParts slacks decisions).bounds.rows.length =
          slacks.guess.length + decisions.guess.length) ∨
      ((ofParts slacks decisions).mode = .slackBounded ∧ 0 < slacks.guess.length ∧
        (ofParts slacks decisions).bounds.rows.length = slacks.guess.length) ∨
      ((ofParts slacks decisions).mode = .unbounded ∧ slacks.guess.length = 0 ∧
        (ofParts slacks decisions).bounds.rows.length = 0) := by
  rw [ofParts_rows hslacks, List.length_append, Spec.length_rows hslacks]
  by_cases hbounded : decisions.intervals?.isSome = true
  · exact .inl ⟨if_pos hbounded, by rw [Spec.length_rows hbounded]⟩
  · rw [Spec.rows_of_free hbounded]
    rcases Nat.eq_zero_or_pos slacks.guess.length with hnone | hsome
    · exact .inr (.inr ⟨(if_neg hbounded).trans (if_neg hnone.not_gt), hnone, hnone⟩)
    · exact .inr (.inl ⟨(if_neg hbounded).trans (if_pos hsome), hsome, rfl⟩)

/-- A problem that is put together from two specifications has their layout. -/
theorem ofParts_layout (hdecisions : 0 < decisions.guess.length) :
    (ofParts slacks decisions).Layout slacks decisions := by
  refine ⟨hdecisions, rfl, rfl, ?_, ?_, ofParts_rows hslacks, fun i => ?_, fun i => ?_,
    fun i => ?_, ?_, ?_, ?_, ?_⟩
  · exact Vector.toList_append
  · exact congrArg Vector.toList (back_append (ofList slacks.guess) (ofList decisions.guess))
  · rw [ofParts_rows hslacks, ofParts_bounds hslacks, Bounds.get_leading]
  · exact (get_append_castAdd _ _ i).trans (Bounds.get_leading _ _ i)
  · exact (get_append_natAdd _ _ i).trans (Bounds.get_leading _ _ i)
  -- mode by mode, what is left is arithmetic of the lengths
  all_goals
    rcases ofParts_mode_cases hslacks decisions with
      ⟨hmode, hlength⟩ | ⟨hmode, hsome, hlength⟩ | ⟨hmode, hnone, hlength⟩ <;>
    simp only [hmode, ← List.length_eq_zero_iff, hlength, ne_eq, reduceCtorEq, false_iff,
      IsEmpty.forall_iff, forall_const] <;> omega

end Parts

/-- Every accepted problem has its layout, whatever the number of its equality constraints turns
out to be, and the records of its variables specify the same problems as the inputs that they are
read from. Inputs that mean that there are no inequality constraints are as good as none. -/
theorem build_layout {parameters : SpecInput α} {inequalities : Option (SpecInput α)}
    {sized : SizedProblem α} (h : build parameters inequalities = .ok sized) :
    ∃ (decisions : Spec α) (slacks? : Option (Spec α)),
      Spec.ofParameters parameters = .ok decisions ∧
      Spec.ofInequalities inequalities = .ok slacks? ∧
      (∀ e, (sized.problem.withEqualities e).Layout (slacks?.getD (.range [])) decisions) ∧
      (∀ other, build parameters other = build (.record decisions) other) ∧
      ∀ other, build other inequalities = build other (slacks?.map .record) := by
  obtain ⟨decisions, hdecisions, slacks?, hslacks, rfl⟩ := build_eq_ok_iff.mp h
  have hpos := Spec.length_guess_pos_of_ofParameters hdecisions
  refine ⟨decisions, slacks?, hdecisions, hslacks, fun e => Layout.withEqualities ?_ e,
    fun other => ?_, fun other => ?_⟩
  -- no constraints are laid out as an empty range
  · cases slacks? with
    | none =>
      have hnone : (Spec.range [] : Spec α).intervals?.isSome = true := rfl
      exact ofParts_layout hnone hpos
    | some slacks => exact ofParts_layout (Spec.bounded_of_ofInequalities hslacks).1 hpos
  · rw [build, build, hdecisions, Spec.ofParameters_record hpos]
  · have hslacks' : Spec.ofInequalities (slacks?.map .record) = .ok slacks? := by
      cases slacks? with
      | none => rfl
      | some slacks =>
        obtain ⟨hbounded, hsome⟩ := Spec.bounded_of_ofInequalities hslacks
        exact Spec.ofInequalities_record hbounded hsome
    rw [build, build, hslacks, hslacks']

/-- Two initial values. -/
noncomputable def rawParameters : SpecInput ℝ := .array (.nested (.list [.leaf 1, .leaf 0]))

/-- A single row with a lower and an upper bound. -/
noncomputable def rawInequalities : SpecInput ℝ :=
  .array (.nested (.list [.list [.leaf 0, .leaf 1]]))

theorem ofInequalities_raw :
    Spec.ofInequalities (some rawInequalities) = .ok (some (.range [⟨0, 1⟩])) := by
  have hrange : (Spec.ofRange [0] [1] : Except Error (Spec ℝ)) = .ok (.range [⟨0, 1⟩]) :=
    Spec.ofRange_singleton (by norm_num)
  show (do return some (← Spec.ofRange [0] [1]) : Except Error (Option (Spec ℝ))) = _
  rw [hrange]
  rfl

/-- One slack in front of two free decision variables. -/
theorem build_layout_raw :
    ∃ sized, build rawParameters (some rawInequalities) = .ok sized ∧
      ∀ e, (sized.problem.withEqualities e).Layout (.range [⟨0, 1⟩]) (.unbounded [1, 0]) := by
  have hbuild : build rawParameters (some rawInequalities) =
      .ok (ofSpecs (.unbounded [1, 0]) (some (.range [⟨0, 1⟩]))) := by
    rw [build, ofInequalities_raw]
    rfl
  obtain ⟨decisions, slacks?, hdecisions, hslacks, hlayout, -⟩ := build_layout hbuild
  have hraw : Spec.ofParameters rawParameters = .ok (.unbounded [1, 0]) := rfl
  cases hdecisions.symm.trans hraw
  cases hslacks.symm.trans ofInequalities_raw
  exact ⟨_, hbuild, hlayout⟩

end Problem

end Sqp
