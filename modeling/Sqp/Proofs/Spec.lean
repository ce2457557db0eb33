import Sqp.Problem.Spec
import Sqp.Proofs.Journal

/-!
# Accepted specifications

What each way to specify variables accepts, for any scalars. Everything else that is said of
accepted specifications follows from these equivalences.

- `Spec.pairBounds_eq_ok_iff`, `Spec.ofRange_eq_ok_iff`, `Spec.ofGuessedRange_eq_ok_iff`: the
  checked constructors.
- `Spec.Checked`: a record that one of them has made; `SpecInput.Checked` asks this of records only,
  since arrays are checked when they are read.
- `Spec.ofParameterArray_eq_ok_iff`, `Spec.ofInequalityArray_eq_some_iff`: which arrays are read,
  and by which constructor.
- `Spec.ofParameters_eq_ok_iff`, `Spec.ofInequalities_eq_some_iff`: what inputs mean. A record means
  itself, unless it is empty or, as inequality constraints, has no bounds.
- `Spec.checked_of_ofParameters`, `Spec.checked_of_ofInequalities`: so checked inputs mean checked
  records.
-/

namespace Sqp

variable {α : Type} [Scalar α]

namespace Spec

variable {spec : Spec α}

/-! ## Checked construction -/

/-- Bounds are paired if there are as many lower as upper ones, and none of the pairs is found to be
out of order. -/
theorem pairBounds_eq_ok_iff {lower upper : List α} {rows : List (Interval α)} :
    pairBounds lower upper = .ok rows ↔ lower.length = upper.length ∧
      rows = List.zipWith Interval.mk lower upper ∧ ∀ b ∈ rows, ¬ b.upper - b.lower ≤ 0 := by
  unfold pairBounds
  dsimp only
  constructor
  · intro h
    split_ifs at h with hlength hany
    cases h
    exact ⟨not_not.mp hlength, rfl, fun b hb hle =>
      hany (List.any_eq_true.mpr ⟨b, hb, decide_eq_true hle⟩)⟩
  · rintro ⟨hlength, rfl, hrows⟩
    rw [if_neg (not_not.mpr hlength)]
    refine if_neg fun hany => ?_
    obtain ⟨b, hb, hle⟩ := List.any_eq_true.mp hany
    exact hrows b hb (of_decide_eq_true hle)

/-- A range is accepted if its bounds can be paired. -/
theorem ofRange_eq_ok_iff {lower upper : List α} :
    ofRange lower upper = .ok spec ↔
      ∃ rows, pairBounds lower upper = .ok rows ∧ spec = .range rows := by
  refine except_bind_eq_ok_iff.trans (exists_congr fun rows => and_congr_right fun _ => ?_)
  exact ⟨fun h => (Except.ok.inj h).symm, fun h => congrArg Except.ok h.symm⟩

/-- Initial values are accepted if there is one for each pair of bounds, and none of them is found
to be on a bound or beyond it. -/
theorem ofGuessedRange_eq_ok_iff {given lower upper : List α} :
    ofGuessedRange given lower upper = .ok spec ↔
      ∃ bounds, pairBounds lower upper = .ok bounds ∧ given.length = bounds.length ∧
        (∀ row ∈ given.zip bounds, ¬ row.1 ≤ row.2.lower ∧ ¬ row.2.upper ≤ row.1) ∧
        spec = .guessedRange (given.zip bounds) := by
  refine except_bind_eq_ok_iff.trans (exists_congr fun bounds => and_congr_right fun _ => ?_)
  dsimp only
  constructor
  · intro h
    split at h
    · cases h
    -- the number of initial values is checked before their places
    · rename_i hlength
      split at h
      · cases h
      · rename_i hany
        cases h
        refine ⟨not_not.mp hlength, fun row hrow => ?_, rfl⟩
        have hout := mt (fun hout => List.any_eq_true.mpr ⟨row, hrow, hout⟩) hany
        rwa [Bool.or_eq_true, decide_eq_true_iff, decide_eq_true_iff, not_or] at hout
  · rintro ⟨hlength, hrows, rfl⟩
    rw [if_neg (not_not.mpr hlength)]
    refine if_neg fun hany => ?_
    obtain ⟨row, hrow, hout⟩ := List.any_eq_true.mp hany
    rw [Bool.or_eq_true, decide_eq_true_iff, decide_eq_true_iff] at hout
    exact hout.elim (hrows row hrow).1 (hrows row hrow).2

/-- A record as its constructor makes it: free variables, or the outcome of a check that
succeeded. -/
inductive Checked : Spec α → Prop where
  | unbounded (guess : List α) : Checked (.unbounded guess)
  | range {lower upper : List α} {spec : Spec α} (h : ofRange lower upper = .ok spec) : Checked spec
  | guessedRange {guess lower upper : List α} {spec : Spec α}
    (h : ofGuessedRange guess lower upper = .ok spec) : Checked spec

theorem length_of_pairBounds {lower upper : List α} {rows : List (Interval α)}
    (h : pairBounds lower upper = .ok rows) : rows.length = lower.length := by
  obtain ⟨hlength, rfl, -⟩ := pairBounds_eq_ok_iff.mp h
  rw [List.length_zipWith, ← hlength, Nat.min_self]

/-- A range has bounds, and an initial value for each of them. -/
theorem bounded_of_ofRange {lower upper : List α} (h : ofRange lower upper = .ok spec) :
    spec.intervals?.isSome = true ∧ spec.guess.length = lower.length := by
  obtain ⟨rows, hrows, rfl⟩ := ofRange_eq_ok_iff.mp h
  exact ⟨rfl, (List.length_map _).trans (length_of_pairBounds hrows)⟩

theorem bounded_of_ofGuessedRange {given lower upper : List α}
    (h : ofGuessedRange given lower upper = .ok spec) :
    spec.intervals?.isSome = true ∧ spec.guess.length = given.length := by
  obtain ⟨bounds, -, hlength, -, rfl⟩ := ofGuessedRange_eq_ok_iff.mp h
  refine ⟨rfl, ?_⟩
  rw [guess, List.length_map, List.length_zip, ← hlength, Nat.min_self]

/-- One pair of bounds. -/
theorem ofRange_singleton {lower upper : α} (h : ¬ upper - lower ≤ 0) :
    ofRange [lower] [upper] = .ok (.range [⟨lower, upper⟩]) :=
  ofRange_eq_ok_iff.mpr ⟨_, pairBounds_eq_ok_iff.mpr ⟨rfl, rfl, by simpa using h⟩, rfl⟩

/-- One initial value with its bounds. -/
theorem ofGuessedRange_singleton {x lower upper : α} (h : ¬ upper - lower ≤ 0)
    (hlower : ¬ x ≤ lower) (hupper : ¬ upper ≤ x) :
    ofGuessedRange [x] [lower] [upper] = .ok (.guessedRange [(x, ⟨lower, upper⟩)]) :=
  ofGuessedRange_eq_ok_iff.mpr
    ⟨_, pairBounds_eq_ok_iff.mpr ⟨rfl, rfl, by simpa using h⟩, rfl,
      by simpa using ⟨hlower, hupper⟩, rfl⟩

/-! ## Arrays -/

/-- Parameters are read off an array with one to three columns, whose number selects the
constructor. -/
theorem ofParameterArray_eq_ok_iff {data : RawArray α} :
    ofParameterArray data = .ok spec ↔
      ∃ table, tableOf .parameters data = .ok table ∧ 0 < table.height ∧
        (table.width = 1 ∧ spec = .unbounded (table.column 0) ∨
          table.width = 2 ∧ ofRange (table.column 0) (table.column 1) = .ok spec ∨
          table.width = 3 ∧
            ofGuessedRange (table.column 0) (table.column 1) (table.column 2) = .ok spec) := by
  refine except_bind_eq_ok_iff.trans (exists_congr fun table => and_congr_right fun _ => ?_)
  dsimp only
  by_cases hheight : table.height = 0
  · rw [if_pos hheight, hheight]
    exact iff_of_false nofun fun h => Nat.lt_irrefl 0 h.1
  · rw [if_neg hheight, and_iff_right (Nat.pos_of_ne_zero hheight)]
    split
    · rename_i hwidth
      simp [hwidth, pure, Except.pure, eq_comm]
    · rename_i hwidth
      simp [hwidth]
    · rename_i hwidth
      simp [hwidth]
    · rename_i hone htwo hthree
      exact iff_of_false nofun fun h => h.elim (hone ·.1) (·.elim (htwo ·.1) (hthree ·.1))

/-- Inequality constraints are read off an array with two or three columns and some row. -/
theorem ofInequalityArray_eq_some_iff {data : RawArray α} :
    ofInequalityArray data = .ok (some spec) ↔
      ∃ table, tableOf .inequalities data = .ok table ∧ 0 < table.height ∧
        (table.width = 2 ∧ ofRange (table.column 0) (table.column 1) = .ok spec ∨
          table.width = 3 ∧
            ofGuessedRange (table.column 0) (table.column 1) (table.column 2) = .ok spec) := by
  -- a record that is read is wrapped, since there may be none
  have hsome : ∀ c : Except Error (Spec α),
      (do return some (← c)) = .ok (some spec) ↔ c = .ok spec := by
    intro c
    cases c with
    | error cause => exact iff_of_false nofun nofun
    | ok spec' => simp [bind, Except.bind, pure, Except.pure]
  refine except_bind_eq_ok_iff.trans (exists_congr fun table => and_congr_right fun _ => ?_)
  by_cases hnone : (table.height = 0 || table.width ≤ 1) = true
  · rw [if_pos hnone]
    rw [Bool.or_eq_true, decide_eq_true_iff, decide_eq_true_iff] at hnone
    exact iff_of_false nofun fun h => by omega
  · rw [if_neg hnone]
    rw [Bool.or_eq_true, decide_eq_true_iff, decide_eq_true_iff, not_or] at hnone
    rw [and_iff_right (Nat.pos_of_ne_zero hnone.1)]
    split
    · rename_i hwidth
      exact (hsome _).trans (by simp [hwidth])
    · rename_i hwidth
      exact (hsome _).trans (by simp [hwidth])
    · rename_i htwo hthree
      exact iff_of_false nofun fun h => h.elim (htwo ·.1) (hthree ·.1)

/-- Reading an array of parameters goes through the checks. -/
theorem checked_of_ofParameterArray {data : RawArray α} (h : ofParameterArray data = .ok spec) :
    spec.Checked := by
  obtain ⟨table, -, -, ⟨-, rfl⟩ | ⟨-, h⟩ | ⟨-, h⟩⟩ := ofParameterArray_eq_ok_iff.mp h
  · exact .unbounded _
  · exact .range h
  · exact .guessedRange h

theorem checked_of_ofInequalityArray {data : RawArray α}
    (h : ofInequalityArray data = .ok (some spec)) : spec.Checked := by
  obtain ⟨table, -, -, ⟨-, h⟩ | ⟨-, h⟩⟩ := ofInequalityArray_eq_some_iff.mp h
  · exact .range h
  · exact .guessedRange h

theorem length_column (table : Tensor.Table α) (j : Nat) :
    (table.column j).length = table.height := by
  rw [Tensor.Table.column, List.length_map, Vector.length_toList]

/-- An array of inequality constraints has bounds and some row. -/
theorem bounded_of_ofInequalityArray {data : RawArray α}
    (h : ofInequalityArray data = .ok (some spec)) :
    spec.intervals?.isSome = true ∧ 0 < spec.guess.length := by
  obtain ⟨table, -, hheight, ⟨-, h⟩ | ⟨-, h⟩⟩ := ofInequalityArray_eq_some_iff.mp h
  · obtain ⟨hbounded, hlength⟩ := bounded_of_ofRange h
    exact ⟨hbounded, by rwa [hlength, length_column]⟩
  · obtain ⟨hbounded, hlength⟩ := bounded_of_ofGuessedRange h
    exact ⟨hbounded, by rwa [hlength, length_column]⟩

/-! ## Inputs -/

theorem guess_isEmpty_iff : ¬ spec.guess.isEmpty = true ↔ 0 < spec.guess.length := by
  rw [List.isEmpty_iff, List.length_pos_iff]

/-- Parameters are what a record says or what is read off an array, as long as there are any. -/
theorem ofParameters_eq_ok_iff {input : SpecInput α} :
    ofParameters input = .ok spec ↔
      (input = .record spec ∨ ∃ data, input = .array data ∧ ofParameterArray data = .ok spec) ∧
        0 < spec.guess.length := by
  -- the last check is the same for records and arrays
  have hnonempty : ∀ spec' : Spec α,
      (if spec'.guess.isEmpty then throw (.precondition .someParameter) else pure spec') =
        (.ok spec : Except Error (Spec α)) ↔ spec' = spec ∧ 0 < spec.guess.length := by
    intro spec'
    split_ifs with hempty
    · refine iff_of_false nofun ?_
      rintro ⟨rfl, hpos⟩
      exact guess_isEmpty_iff.mpr hpos hempty
    · constructor
      · rintro ⟨rfl⟩
        exact ⟨rfl, guess_isEmpty_iff.mp hempty⟩
      · rintro ⟨rfl, -⟩
        rfl
  cases input with
  | record spec' =>
    refine (hnonempty spec').trans (and_congr_left fun _ => ?_)
    simp
  | array data =>
    refine (except_bind_eq_ok_iff.trans
      (exists_congr fun spec' => and_congr_right fun _ => hnonempty spec')).trans ?_
    simp

/-- Inequality constraints are what a record with bounds says, as long as it says anything, or what
is read off an array. -/
theorem ofInequalities_eq_some_iff {input? : Option (SpecInput α)} :
    ofInequalities input? = .ok (some spec) ↔
      (input? = some (.record spec) ∧ spec.intervals?.isSome = true ∧ 0 < spec.guess.length) ∨
        ∃ data, input? = some (.array data) ∧ ofInequalityArray data = .ok (some spec) := by
  -- an empty record counts as none
  have hkept : ∀ record : Spec α, record.intervals?.isSome = true →
      ((pure (if record.guess.isEmpty then none else some record) :
          Except Error (Option (Spec α))) = .ok (some spec) ↔
        record = spec ∧ spec.intervals?.isSome = true ∧ 0 < spec.guess.length) := by
    intro record hbounded
    split_ifs with hempty
    · refine iff_of_false nofun ?_
      rintro ⟨rfl, -, hpos⟩
      exact guess_isEmpty_iff.mpr hpos hempty
    · constructor
      · rintro ⟨rfl⟩
        exact ⟨rfl, hbounded, guess_isEmpty_iff.mp hempty⟩
      · rintro ⟨rfl, -⟩
        rfl
  match input? with
  | none => exact iff_of_false nofun (by simp)
  | some (.array data) => simp [ofInequalities]
  | some (.record (.unbounded guess)) =>
    refine iff_of_false nofun ?_
    rintro (⟨⟨rfl⟩, hbounded, -⟩ | ⟨_, ⟨⟩, -⟩)
    cases hbounded
  | some (.record (.range rows)) => exact (hkept (.range rows) rfl).trans (by simp)
  | some (.record (.guessedRange rows)) => exact (hkept (.guessedRange rows) rfl).trans (by simp)

/-- There is at least one parameter. -/
theorem length_guess_pos_of_ofParameters {input : SpecInput α} (h : ofParameters input = .ok spec) :
    0 < spec.guess.length :=
  (ofParameters_eq_ok_iff.mp h).2

/-- Inequality constraints are bounded, and where there are any there is at least one. -/
theorem bounded_of_ofInequalities {input? : Option (SpecInput α)}
    (h : ofInequalities input? = .ok (some spec)) :
    spec.intervals?.isSome = true ∧ 0 < spec.guess.length := by
  rcases ofInequalities_eq_some_iff.mp h with ⟨-, hbounded⟩ | ⟨data, -, h⟩
  · exact hbounded
  · exact bounded_of_ofInequalityArray h

end Spec

/-! ## Checked inputs -/

/-- Records are checked when they are made; arrays may hold anything. -/
def SpecInput.Checked : SpecInput α → Prop
  | .array _ => True
  | .record spec => spec.Checked

namespace Spec

variable {spec : Spec α}

/-- A checked input means a checked record. -/
theorem checked_of_ofParameters {input : SpecInput α} (hinput : input.Checked)
    (h : ofParameters input = .ok spec) : spec.Checked := by
  obtain ⟨rfl | ⟨data, rfl, hdata⟩, -⟩ := ofParameters_eq_ok_iff.mp h
  · exact hinput
  · exact checked_of_ofParameterArray hdata

theorem checked_of_ofInequalities {input? : Option (SpecInput α)}
    (hinput : ∀ input ∈ input?, input.Checked) (h : ofInequalities input? = .ok (some spec)) :
    spec.Checked := by
  obtain ⟨rfl, -⟩ | ⟨data, rfl, hdata⟩ := ofInequalities_eq_some_iff.mp h
  · exact hinput _ rfl
  · exact checked_of_ofInequalityArray hdata

end Spec

end Sqp
