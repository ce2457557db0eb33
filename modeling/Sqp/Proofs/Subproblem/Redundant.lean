import Sqp.Proofs.Linear.Condition
import Sqp.Proofs.Subproblem.Projection

/-!
# What is said of redundant constraints

An inner solve notes that its constraints may be redundant if the condition number of their
Jacobian exceeds the reciprocal of the machine precision.

- `Subproblem.ensures_linearise_redundant`, `Subproblem.outcome_solve_redundant`: this is exactly
  when it warns.
- `Subproblem.redundant_of_row_dependent`, `Subproblem.lt_of_redundant`: with exact singular values,
  dependent rows are seen, unless the Jacobian is zero or has independent columns and too many
  rows, and independent ones only if they are close to dependent.
- `Subproblem.redundancy_noted`: all of this; `Subproblem.redundancy_missed`: the two exceptions.
-/

namespace Sqp.Subproblem

/-! ## The test -/

section Test

variable {r : ℝ → EReal} {K : Kernels (Rounded r)} {e q n : Nat}

/-- Dependent rows are seen: their rank is below the number of singular values, so the smallest
one is zero. A zero matrix has no positive singular value to divide, and a tall one with
independent columns has full rank in spite of its rows, so both are excluded. -/
theorem redundant_of_row_dependent (hr : IsRounding r) (hK : K.ExactSingularValues)
    {jacobian : Mat ℝ (e + q) (q + n)} (hrow : ¬ LinearIndependent ℝ jacobian.toMatrix.row)
    (hne : jacobian.toMatrix ≠ 0)
    (hshape : e + q ≤ q + n ∨ ¬ LinearIndependent ℝ jacobian.toMatrix.col) :
    redundant K (Rounded.ofReal jacobian) = true :=
  Kernels.illConditioned_of_rank_lt hr hK hne (rank_lt_of_row_dependent hrow hshape)

/-- Independent rows are taken for redundant only if they are nearly dependent, with singular
values further apart than the machine precision resolves. -/
theorem lt_of_redundant (hr : IsRounding r) (hK : K.ExactSingularValues)
    {jacobian : Mat ℝ (e + q) (q + n)} (hrow : LinearIndependent ℝ jacobian.toMatrix.row)
    (h : redundant K (Rounded.ofReal jacobian) = true) :
    1 / Scalar.epsilon * jacobian.singularValue (min (e + q) (q + n) - 1) <
      jacobian.singularValue 0 :=
  Kernels.lt_of_illConditioned hr hK
    ((min_le_left _ _).trans (row_independent_iff_rank.mp hrow).ge) h

end Test

/-! ## The note -/

section Note

variable {α β : Type} [Scalar α] [Scalar β] [Storage α β] {e q n : Nat} {K : Kernels β}
  {costAt : Vector β (q + n) → Recorded α (Cost β (e + q))} {mode : BoundMode}
  {bounds : Bounds β (q + n)} {settings : Settings α}

/-- A repair keeps the Jacobian and leaves this note as it is. -/
theorem ensures_repair_redundant {tolerance : α} {residuals : Vector β (e + q)}
    {l : Linearisation β e q n} :
    Ensures (repair K mode bounds tolerance residuals l) fun l' =>
      l'.jacobian = l.jacobian ∧
        (Warning.redundantConstraints ∈ l'.notes ↔ Warning.redundantConstraints ∈ l.notes) := by
  cases mode with
  | unbounded =>
    exact Confined.bind (Ensures.any _) fun point _ => Confined.pure ⟨rfl, Iff.rfl⟩
  | slackBounded | fullyBounded =>
    refine Confined.bind (Ensures.any _) fun o _ => ?_
    refine Confined.bind (Ensures.any _) fun _ _ => Confined.pure ⟨rfl, ?_⟩
    cases o.complete <;> simp

/-- A linearisation notes redundancy exactly if there are constraints and the test of their
Jacobian is true. It makes the note before the repair, which keeps both. -/
theorem ensures_linearise_redundant (p : Vector β (q + n)) (cost : Cost β (e + q)) :
    Ensures (linearise K costAt mode bounds settings p cost) fun l =>
      Warning.redundantConstraints ∈ l.notes ↔ e + q ≠ 0 ∧ redundant K l.jacobian = true := by
  refine Confined.ite (fun hfree => ?_) fun hconstrained => ?_
  · exact Confined.pure (iff_of_false List.not_mem_nil fun h => h.1 hfree)
  refine Confined.bind (Ensures.any _) fun differences _ => ?_
  have hnote : Warning.redundantConstraints ∈
      (if redundant K differences.2 then [Warning.redundantConstraints] else []) ↔
        e + q ≠ 0 ∧ redundant K differences.2 = true := by
    rw [and_iff_right hconstrained]
    by_cases hredundant : redundant K differences.2 = true <;> simp [hredundant]
  refine Confined.ite (fun _ => ?_) fun _ => Confined.pure hnote
  refine ensures_repair_redundant.mono ?_
  rintro l ⟨hjacobian, hkept⟩
  rw [hkept, hjacobian]
  exact hnote

variable {f : CostFunction α} {problem : Problem β e q n} {entry : InnerStart α β e q n}

/-- A preparation keeps the note of its linearisation, and the Jacobian that the test read. -/
theorem ensures_prepare_redundant : Ensures (prepare K f settings problem entry) fun way =>
    Warning.redundantConstraints ∈ way.notes ↔
      e + q ≠ 0 ∧ redundant K way.lagrangian.jacobian = true := by
  -- the merits that follow a linearisation add no note of this kind
  refine (ensures_prepare_follows fun _ => ensures_linearise_redundant _ _).mono ?_
  rintro way ⟨l, hl, hfollows⟩
  rw [hfollows.notes, hfollows.jacobian]
  exact hl

/-- An inner solve warns exactly if the test of its Jacobian says so. -/
theorem outcome_solve_redundant {j j' : Journal α} {r : InnerResult α β q n}
    (h : outcome (solve K f settings problem entry) j = (.ok r, j')) :
    ∃ way j₁, outcome (prepare K f settings problem entry) j = (.ok way, j₁) ∧
      (Warning.redundantConstraints.code ∈ r.warnings ↔
        e + q ≠ 0 ∧ redundant K way.lagrangian.jacobian = true) := by
  obtain ⟨way, j₁, course, hway, rfl⟩ := outcome_solve_prepare h
  refine ⟨way, j₁, hway, ?_⟩
  rw [Descent.code_mem_warnings_iff _ _ _ (by decide)]
  exact ensures_prepare_redundant.of_outcome hway

end Note

/-! ## Both together -/

/-- Let singular values be exact and quotients rounded, with the special values of a machine. The
test of a Jacobian of any shape is true if its rows are dependent, provided that it is not zero
and that its columns are dependent too if it has more rows than columns. If the rows are
independent, it is true only if the largest singular value exceeds the smallest one by more than
the reciprocal of the machine precision. An inner solve with constraints warns exactly if the test
of its Jacobian is true. -/
theorem redundancy_noted {r : ℝ → EReal} (hr : IsRounding r) {K : Kernels (Rounded r)}
    (hK : K.ExactSingularValues) {α β : Type} [Scalar α] [Scalar β] [Storage α β] :
    (∀ {e q n : Nat} (jacobian : Mat ℝ (e + q) (q + n)),
      (¬ LinearIndependent ℝ jacobian.toMatrix.row → jacobian.toMatrix ≠ 0 →
        (e + q ≤ q + n ∨ ¬ LinearIndependent ℝ jacobian.toMatrix.col) →
          redundant K (Rounded.ofReal jacobian) = true) ∧
      (LinearIndependent ℝ jacobian.toMatrix.row →
        redundant K (Rounded.ofReal jacobian) = true →
          1 / Scalar.epsilon * jacobian.singularValue (min (e + q) (q + n) - 1) <
            jacobian.singularValue 0)) ∧
    ∀ {e q n : Nat} (L : Kernels β) (f : CostFunction α) (settings : Settings α)
      (problem : Problem β e q n) (entry : InnerStart α β e q n) (j j' : Journal α)
      (res : InnerResult α β q n), outcome (solve L f settings problem entry) j = (.ok res, j') →
        ∃ way j₁, outcome (prepare L f settings problem entry) j = (.ok way, j₁) ∧
          (Warning.redundantConstraints.code ∈ res.warnings ↔
            e + q ≠ 0 ∧ redundant L way.lagrangian.jacobian = true) :=
  ⟨fun _ => ⟨redundant_of_row_dependent hr hK, lt_of_redundant hr hK⟩,
    fun _ _ _ _ _ _ _ _ h => outcome_solve_redundant h⟩

/-- Kernels with exact singular values, for numbers that are not rounded. -/
noncomputable abbrev exactKernels : Kernels (Rounded fun x => (x : EReal)) :=
  Kernels.ofSingularValues fun x => (x : EReal)

theorem exactKernels_exact : exactKernels.ExactSingularValues :=
  Kernels.exactSingularValues_ofSingularValues _

/-- Two parallel rows are seen, with quotients that are not rounded, and an inner solve with a
single constraint warns as its test says. -/
theorem redundancy_noted_parallel :
    IsRounding (fun x : ℝ => (x : EReal)) ∧
      exactKernels.ExactSingularValues ∧
      ¬ LinearIndependent ℝ parallelRows.toMatrix.row ∧ parallelRows.toMatrix ≠ 0 ∧
      redundant (e := 2) (q := 0) (n := 2) exactKernels (Rounded.ofReal parallelRows) = true ∧
      ∃ (res : InnerResult ℝ ℝ 0 2) (j' : Journal ℝ) (way : Preparation ℝ ℝ 1 0 2)
        (j₁ : Journal ℝ),
        outcome (solve Kernels.standard lineCost lineSettings lineProblem lineEntry) {} =
          (.ok res, j') ∧
        outcome (prepare Kernels.standard lineCost lineSettings lineProblem lineEntry) {} =
          (.ok way, j₁) ∧
        (Warning.redundantConstraints.code ∈ res.warnings ↔
          redundant Kernels.standard way.lagrangian.jacobian = true) := by
  have hK := exactKernels_exact
  obtain ⟨htest, hsolve⟩ := redundancy_noted isRounding_coe hK (α := ℝ) (β := ℝ)
  have hne : parallelRows.toMatrix ≠ 0 :=
    Mat.toMatrix_ne_zero 0 0 (by norm_num [parallelRows])
  obtain ⟨res, j', hrun, -, -⟩ := line_affineEntry.returns_solve_unbounded (affineCost_total _ _ _)
    rfl lineProblem_strictlyInside (.inr rfl) {} Journal.fits_empty
  obtain ⟨way, j₁, hway, hwarns⟩ := hsolve _ _ _ _ _ _ _ _ hrun
  exact ⟨isRounding_coe, hK, parallelRows_dependent, hne,
    (htest (e := 2) (q := 0) (n := 2) parallelRows).1 parallelRows_dependent hne (.inl le_rfl),
    res, j', way, j₁, hrun, hway, hwarns.trans (and_iff_right (by decide))⟩

/-! ## What is not seen -/

/-- The slopes of a constant, which meets no constraint or all of them. -/
def flatRow : Mat ℝ 1 1 := Mat.ofFn fun _ _ => 0

/-- The slopes of `x` and `2 x`. -/
noncomputable def steepColumn : Mat ℝ 2 1 := Mat.ofFn ![![1.0], ![2.0]]

theorem flatRow_eq_zero : flatRow.toMatrix = 0 := by
  rw [flatRow, Mat.toMatrix_ofFn]
  rfl

/-- The slopes of `x` and `2 x` are not all zero, so this matrix is missed for its shape only. -/
theorem steepColumn_ne_zero : steepColumn.toMatrix ≠ 0 :=
  Mat.toMatrix_ne_zero 0 0 (by norm_num [steepColumn])

/-- The rows of a zero Jacobian are dependent, and so are two rows with one column. The quotient of
the singular values is undefined for the first one. For the second one it is one, since there is
only one singular value. -/
theorem redundancy_missed :
    exactKernels.ExactSingularValues ∧
      (¬ LinearIndependent ℝ flatRow.toMatrix.row ∧
        redundant (e := 1) (q := 0) (n := 1) exactKernels (Rounded.ofReal flatRow) = false) ∧
      (¬ LinearIndependent ℝ steepColumn.toMatrix.row ∧
        redundant (e := 2) (q := 0) (n := 1) exactKernels (Rounded.ofReal steepColumn) =
          false) := by
  have hK := exactKernels_exact
  refine ⟨hK, ⟨?_, Kernels.illConditioned_zero hK flatRow_eq_zero⟩, ?_,
    Kernels.illConditioned_single isRounding_coe hK steepColumn_ne_zero rfl⟩
  -- one row, but rank zero
  · rw [row_independent_iff_rank, flatRow_eq_zero, Matrix.rank_zero]
    exact Nat.zero_ne_one
  -- two independent rows would need two columns
  · intro hrow
    exact absurd (le_of_row_independent hrow) (by decide)

end Sqp.Subproblem
