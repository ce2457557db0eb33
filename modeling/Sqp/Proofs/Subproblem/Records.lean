import Mathlib.Algebra.BigOperators.Fin
import Mathlib.Algebra.Order.BigOperators.Group.Finset
import Sqp.Proofs.Journal.Growth
import Sqp.Proofs.LineSearch.Halving
import Sqp.Proofs.Subproblem.Course

/-!
# What an inner solve records

How often an inner solve calls the cost function, and which warnings it notes, for any
scalars, any kernels and any cost function.

- `calls_constraintJacobian`, `calls_meritGradient`, `LineSearch.calls_search`: the calls
  of finite differences and of a line search.
- `Subproblem.StartsAfresh`: the descent starts with a new cost vector, since nothing was
  differenced at entry or the point was moved.
- `Subproblem.Descent.calls`: the calls of an inner solve as a sum over its minor
  iterations. `Subproblem.calls_run` says that it takes exactly these, and
  `Subproblem.Descent.calls_le` bounds them.
- `Subproblem.ensures_solve_warnings`: the noted warnings have increasing numbers.
-/

namespace Sqp

variable {α β : Type} [Scalar β] {e q n : Nat}

/-! ## Finite differences -/

/-- Differencing the constraints takes one call for each decision variable. -/
theorem calls_constraintJacobian {costAt : Vector β (q + n) → Recorded α (Cost β (e + q))}
    (h : ∀ p, Calls (costAt p) fun _ => 1) (p : Vector β (q + n)) (cost : Cost β (e + q))
    (delta : β) : Calls (constraintJacobian costAt p cost delta) fun _ => n := by
  have hslope : ∀ i : Fin n, Calls
      (do return (← costAt (nudge p (i.natAdd q) delta)).slope cost delta) fun _ => 1 :=
    fun i => Calls.bind (h _) fun _ => Grows.pure ⟨rfl, rfl⟩
  exact Calls.bind (Calls.tabulateM hslope) fun _ => Grows.pure ⟨Nat.mul_one n, rfl⟩

variable [Storage α β]

theorem Calls.scaleEvaluate (s : Scale β e q n) (f : CostFunction α) (p : Vector β (q + n)) :
    Calls (s.evaluate f p) fun _ => 1 :=
  Calls.bind (Calls.evaluateSized f (e + q) _) fun _ => Grows.pure ⟨rfl, rfl⟩

variable [Scalar α]

/-- A gradient of the merit calls it once for each decision variable. -/
theorem calls_meritGradient {meritAt : Vector β (q + n) → Recorded α α}
    (h : ∀ p, Calls (meritAt p) fun _ => 1) (p : Vector β (q + n)) (merit delta : α) :
    Calls (meritGradient meritAt p merit delta) fun _ => n := by
  have hslope : ∀ i : Fin n, Calls
      (do
        let shifted ← meritAt (nudge p (i.natAdd q) (store delta))
        Scalar.quotient (shifted - merit) delta) fun _ => 1 := by
    intro i
    refine Calls.bind (h _) fun shifted => (Calls.quotient _ _).mono ?_
    rintro slope _ _ ⟨rfl, rfl⟩
    exact ⟨rfl, rfl⟩
  exact Calls.bind (Calls.tabulateM hslope) fun _ => Grows.pure ⟨Nat.mul_one n, rfl⟩

/-! ## Line search -/

namespace LineSearch

variable {meritAt : Vector β n → Recorded α α}

/-- Every bisection takes one call and is counted. -/
theorem grows_bisect (h : ∀ p, Calls (meritAt p) fun _ => 1) (start trial : Vector β n)
    (merit tolerance : α) :
    ∀ (fuel : Nat) (go : α) (steps : Nat) (b : Bracket α β n),
      Grows (bisect meritAt start trial merit tolerance fuel go steps b)
        fun r calls ws => r.1 = steps + calls ∧ ws = [] := by
  intro fuel
  induction fuel with
  | zero =>
    intro go steps b
    exact Grows.pure ⟨rfl, rfl⟩
  | succ fuel ih =>
    intro go steps b
    refine Grows.ite (fun _ => ?_) fun _ => Grows.pure ⟨rfl, rfl⟩
    refine Calls.bind (h _) fun value => (ih _ _ _).mono ?_
    rintro r calls _ ⟨hr, rfl⟩
    exact ⟨by omega, rfl⟩

/-- A search takes one call for its trial point and one for each bisection. -/
theorem calls_search (h : ∀ p, Calls (meritAt p) fun _ => 1) (start trial : Vector β n)
    (merit tolerance : α) :
    Calls (search meritAt start trial merit tolerance) fun o => 1 + o.steps := by
  refine Calls.bind (h trial) fun value => ?_
  refine Grows.bind (grows_bisect h start trial merit tolerance _ _ _ _) ?_
  rintro r calls _ ⟨hr, rfl⟩
  refine Grows.pure ⟨?_, rfl⟩
  show 1 + (calls + 0) = 1 + r.1
  omega

end LineSearch

namespace Subproblem

/-! ## Minor iterations -/

section Descent

variable {g : Landscape α β e q n}

omit [Scalar α] in
theorem calls_meritAt (h : ∀ p, Calls (g.costAt p) fun _ => 1) (p : Vector β (q + n)) :
    Calls (g.meritAt p) fun _ => 1 :=
  Calls.bind (h p) fun _ => Grows.pure ⟨rfl, rfl⟩

/-- A gradient that is known takes no call. -/
theorem calls_gradientAt (h : ∀ p, Calls (g.costAt p) fun _ => 1) (s : Iterate α β e q n) :
    Calls (g.gradientAt s) fun _ => if s.stale then n else 0 := by
  refine Grows.ite (fun hstale => ?_) fun hknown => ?_
  · rw [if_pos hstale]
    exact calls_meritGradient (calls_meritAt h) _ _ _
  · rw [if_neg hknown]
    exact Grows.pure ⟨rfl, rfl⟩

/-- A minor iteration calls the cost function for its gradient if that is stale, at its trial
point, and once for each bisection. -/
theorem calls_minorStep (h : ∀ p, Calls (g.costAt p) fun _ => 1) (s : Iterate α β e q n) :
    Calls (minorStep g s) fun s' => (if s.stale then n else 0) + 1 + s'.bisections := by
  refine Calls.bind (calls_gradientAt h s) fun gradient => ?_
  refine Calls.bind (Calls.recorded _) fun step => ?_
  refine Calls.bind (LineSearch.calls_search (calls_meritAt h) _ _ _ _) fun found => ?_
  refine Grows.pure ⟨?_, rfl⟩
  dsimp only
  omega

theorem ensures_minorStep_stale (s : Iterate α β e q n) :
    Ensures (minorStep g s) fun s' => s'.stale = true := by
  refine Confined.bind (Ensures.any _) fun gradient _ => ?_
  refine Confined.bind (Ensures.any _) fun step _ => ?_
  exact Confined.bind (Ensures.any _) fun found _ => Confined.pure rfl

/-- Its line search makes no more bisections than the grid allows. -/
theorem ensures_minorStep_bisections_le {depth : Nat} {grid : Halving α depth}
    (htolerance : ¬ g.settings.tolerance < grid.grid depth 1) (s : Iterate α β e q n) :
    Ensures (minorStep g s) fun s' => s'.bisections ≤ depth := by
  refine Confined.bind (Ensures.any _) fun gradient _ => ?_
  refine Confined.bind (Ensures.any _) fun step _ => ?_
  exact Confined.bind (LineSearch.ensures_search_steps_le htolerance) fun found hfound =>
    Confined.pure hfound

/-- The calls of the minor iterations `course`: the first one has to compute its gradient
only if `fresh`, all others always have to. -/
def minorCalls (fresh : Prop) [Decidable fresh] (course : List (Iterate α β e q n)) : Nat :=
  ∑ j : Fin course.length,
    ((if 0 < j.val ∨ fresh then n else 0) + 1 + (course.get j).bisections)

omit [Scalar α] [Scalar β] [Storage α β] in
theorem minorCalls_cons (fresh : Prop) [Decidable fresh] (s : Iterate α β e q n)
    (course : List (Iterate α β e q n)) :
    minorCalls fresh (s :: course) =
      (if fresh then n else 0) + 1 + s.bisections + minorCalls True course := by
  refine (Fin.sum_univ_succ _).trans ?_
  simp [minorCalls]

omit [Scalar α] [Scalar β] [Storage α β] in
/-- The calls of a course, if each of its searches is bounded. -/
theorem minorCalls_le (fresh : Prop) [Decidable fresh] {depth : Nat}
    {course : List (Iterate α β e q n)} (h : ∀ s ∈ course, s.bisections ≤ depth) :
    minorCalls fresh course ≤ course.length * (n + 1 + depth) := by
  have hterm : ∀ j ∈ (Finset.univ : Finset (Fin course.length)),
      (if 0 < j.val ∨ fresh then n else 0) + 1 + (course.get j).bisections ≤ n + 1 + depth := by
    intro j _
    have hj := h (course.get j) (course.get_mem j)
    split_ifs <;> omega
  simpa [minorCalls] using Finset.sum_le_card_nsmul _ _ _ hterm

/-- A descent takes the calls of its minor iterations. -/
theorem calls_descend (h : ∀ p, Calls (g.costAt p) fun _ => 1) :
    ∀ (left : Nat) (s : Iterate α β e q n),
      Calls (descend g left s) fun course => minorCalls (s.stale = true) course := by
  intro left
  induction left with
  | zero =>
    intro s
    exact Grows.pure ⟨rfl, rfl⟩
  | succ left ih =>
    intro s
    refine Grows.bind ((calls_minorStep h s).and_ensures (ensures_minorStep_stale s)) ?_
    rintro next _ _ ⟨⟨rfl, rfl⟩, hstale⟩
    refine Grows.ite (fun _ => ?_) fun _ => ?_
    · exact Grows.pure ⟨(minorCalls_cons _ next []).symm, rfl⟩
    · refine Calls.bind (ih next) fun rest => Grows.pure ⟨?_, rfl⟩
      simp only [minorCalls_cons, hstale, Nat.add_zero]

/-- A descent makes no more minor iterations than it may, and each of its line searches ends
before the grid does. -/
theorem ensures_descend_course {depth : Nat} {grid : Halving α depth}
    (htolerance : ¬ g.settings.tolerance < grid.grid depth 1) (left : Nat)
    (s : Iterate α β e q n) :
    Ensures (descend g left s) (Course (fun _ s' => s'.bisections ≤ depth) left s) :=
  confined_descend_course (I := fun _ => True)
    (fun s _ => (ensures_minorStep_bisections_le htolerance s).mono fun _ h => ⟨trivial, h⟩)
    left s trivial

end Descent

/-! ## Linearisation -/

section Linearisation

variable {K : Kernels β} {costAt : Vector β (q + n) → Recorded α (Cost β (e + q))}
  {mode : BoundMode} {bounds : Bounds β (q + n)} {settings : Settings α}

theorem calls_repair (tolerance : α) (residuals : Vector β (e + q))
    (l : Linearisation β e q n) :
    Calls (repair K mode bounds tolerance residuals l) fun _ => 0 := by
  cases mode with
  | unbounded => exact Calls.bind (Calls.recorded _) fun point => Grows.pure ⟨rfl, rfl⟩
  | _ =>
    refine Calls.bind (Calls.recorded _) fun restored => ?_
    exact Calls.bind (Calls.report _) fun _ => Grows.pure ⟨rfl, rfl⟩

/-- A repair leaves the point of entry behind, and notes at most that it is incomplete. -/
theorem ensures_repair (tolerance : α) (residuals : Vector β (e + q))
    (l : Linearisation β e q n) :
    Ensures (repair K mode bounds tolerance residuals l) fun l' => l'.stale = true ∧
      ∃ notes, notes.Sublist [Warning.restorationIncomplete] ∧ l'.notes = l.notes ++ notes := by
  have hnote : ∀ complete : Bool,
      (if complete then [] else [Warning.restorationIncomplete]).Sublist
        [Warning.restorationIncomplete] := by
    decide
  cases mode with
  | unbounded =>
    refine Confined.bind (Ensures.any _) fun point _ => Confined.pure ⟨rfl, [], ?_⟩
    simp
  | _ =>
    refine Confined.bind (Ensures.any _) fun restored _ => ?_
    exact Confined.bind (Ensures.any _) fun _ _ => Confined.pure ⟨rfl, _, hnote _, rfl⟩

/-- The constraints are differenced if there are any. -/
theorem calls_linearise (h : ∀ p, Calls (costAt p) fun _ => 1) (p : Vector β (q + n))
    (cost : Cost β (e + q)) :
    Calls (linearise K costAt mode bounds settings p cost)
      fun _ => if e + q = 0 then 0 else n := by
  refine Grows.ite (fun hfree => ?_) fun hconstrained => ?_
  · exact Grows.pure ⟨(if_pos hfree).symm, rfl⟩
  · rw [if_neg hconstrained]
    refine Calls.bind (calls_constraintJacobian h _ _ _) fun differences => ?_
    refine Grows.ite (fun _ => ?_) fun _ => Grows.pure ⟨rfl, rfl⟩
    refine (calls_repair _ _ _).mono ?_
    rintro l _ _ ⟨rfl, rfl⟩
    exact ⟨rfl, rfl⟩

/-- At a scaled point `p` of entry with its cost vector: there is nothing to difference, or
the constraints are violated and the point is moved. The descent then has to start with a
new cost vector and a new gradient. -/
def StartsAfresh (tolerance : α) (cost : Cost β (e + q)) (p : Vector β (q + n)) : Prop :=
  e + q = 0 ∨ tolerance ≤ load (infinityNorm (slackResiduals cost.constraints p))

instance (tolerance : α) (cost : Cost β (e + q)) (p : Vector β (q + n)) :
    Decidable (StartsAfresh tolerance cost p) :=
  inferInstanceAs (Decidable (_ ∨ _))

/-- What the linearisation leaves stale, and what it may note. -/
theorem ensures_linearise (p : Vector β (q + n)) (cost : Cost β (e + q)) :
    Ensures (linearise K costAt mode bounds settings p cost) fun l =>
      (l.stale = true ↔ StartsAfresh settings.tolerance cost p) ∧
      l.notes.Sublist [.redundantConstraints, .restorationIncomplete] := by
  -- of the first note there is at most one copy
  have hnote : ∀ flag : Bool, (if flag then [Warning.redundantConstraints] else []).Sublist
      [Warning.redundantConstraints] := by
    decide
  refine Confined.ite (fun hfree => ?_) fun hconstrained => ?_
  · exact Confined.pure ⟨⟨fun _ => .inl hfree, fun _ => rfl⟩, List.nil_sublist _⟩
  refine Confined.bind (Ensures.any _) fun differences _ => ?_
  refine Confined.ite (fun hviolated => ?_) fun hmet => ?_
  · refine (ensures_repair _ _ _).mono ?_
    rintro l ⟨hstale, notes, hnotes, heq⟩
    -- a repair moves the point, so the gradient that came with the Jacobian is no longer that of
    -- the point
    refine ⟨⟨fun _ => .inr hviolated, fun _ => hstale⟩, ?_⟩
    rw [heq]
    exact (hnote _).append hnotes
  · refine Confined.pure ⟨⟨nofun, ?_⟩, ?_⟩
    · rintro (hfree | hviolated)
      · exact absurd hfree hconstrained
      · exact absurd hviolated hmet
    · exact (hnote _).trans (List.sublist_append_left _ [Warning.restorationIncomplete])

end Linearisation

/-! ## Inner solves -/

section Run

variable {K : Kernels β} {f : CostFunction α} {settings : Settings α}
  {problem : Problem β e q n} {entry : InnerStart α β e q n}

/-- What the scaled point of entry asks for. -/
abbrev Descent.Afresh (settings : Settings α) (entry : InnerStart α β e q n)
    (scale : Scale β e q n) : Prop :=
  StartsAfresh settings.tolerance (scale.scaleCost entry.cost)
    (scale.scaleParameters entry.parameters)

/-- The way into an inner solve differences the constraints, if there are any, and takes
one more call if the descent starts afresh. -/
theorem calls_prepare : Calls (prepare K f settings problem entry) fun way =>
    (if e + q = 0 then 0 else n) + if Descent.Afresh settings entry way.scale then 1 else 0 := by
  refine Calls.bind (Calls.recorded _) fun scale => ?_
  refine Calls.bind (Calls.recorded _) fun multipliers => ?_
  refine Grows.bind ((calls_linearise (Calls.scaleEvaluate scale f) _ _).and_ensures
    (ensures_linearise _ _)) ?_
  rintro l _ _ ⟨⟨rfl, rfl⟩, hstale, -⟩
  have hcost : Calls (l.cost (scale.evaluate f) (scale.scaleCost entry.cost))
      fun _ => if Descent.Afresh settings entry scale then 1 else 0 := by
    simp only [← hstale]
    refine Grows.ite (fun h => ?_) fun h => ?_
    · rw [if_pos h]
      exact Calls.scaleEvaluate scale f l.point
    · rw [if_neg h]
      exact Grows.pure ⟨rfl, rfl⟩
  refine Calls.bind hcost fun base => Grows.pure ⟨?_, rfl⟩
  simp only [Nat.zero_add, Nat.add_zero]

/-- A preparation is as stale as its linearisation, and notes the same. -/
theorem ensures_prepare_records : Ensures (prepare K f settings problem entry) fun way =>
    (way.start.stale = true ↔ Descent.Afresh settings entry way.scale) ∧
      way.notes.Sublist [.redundantConstraints, .restorationIncomplete] := by
  refine (ensures_prepare_follows fun _ => ensures_linearise _ _).mono ?_
  rintro way ⟨l, hl, hfollows⟩
  rw [hfollows.stale, hfollows.notes]
  exact hl

/-- The calls of the cost function that an inner solve with a given course takes. -/
def Descent.calls (d : Descent α β e q n) (settings : Settings α)
    (entry : InnerStart α β e q n) : Nat :=
  (if e + q = 0 then 0 else n) + (if Descent.Afresh settings entry d.scale then 1 else 0) +
    minorCalls (Descent.Afresh settings entry d.scale) d.course

/-- The calls of an inner solve are those for its Jacobian, its first merit and its minor
iterations. -/
theorem calls_run : Calls (run K f settings problem entry) fun d => d.calls settings entry := by
  refine Grows.bind (calls_prepare.and_ensures ensures_prepare_records) ?_
  rintro way _ _ ⟨⟨rfl, rfl⟩, hstale, -⟩
  refine Calls.bind (calls_descend (Calls.scaleEvaluate way.scale f) _ _) fun course => ?_
  refine Grows.pure ⟨?_, rfl⟩
  simp only [hstale, Descent.calls, Nat.add_zero]

/-- An inner solve is a descent of which only the outcome is kept. -/
theorem outcome_solve {j j' : Journal α} {r : InnerResult α β q n}
    (h : outcome (solve K f settings problem entry) j = (.ok r, j')) :
    ∃ d j₁, outcome (run K f settings problem entry) j = (.ok d, j₁) ∧
      r = d.result entry.multipliers settings.tolerance ∧ j'.visited = j₁.visited ∧
      j'.emitted = j₁.emitted := by
  obtain ⟨d, j₁, hrun, h⟩ := outcome_bind_eq_ok_iff.mp h
  cases h
  exact ⟨d, j₁, hrun, rfl, rfl, rfl⟩

/-- An inner solve that returns was prepared, and starts from there. -/
theorem outcome_solve_prepare {j j' : Journal α} {r : InnerResult α β q n}
    (h : outcome (solve K f settings problem entry) j = (.ok r, j')) :
    ∃ (way : Preparation α β e q n) (j₁ : Journal α) (course : List (Iterate α β e q n)),
      outcome (prepare K f settings problem entry) j = (.ok way, j₁) ∧
        r = Descent.result ⟨way.scale, way.notes, way.start, course⟩ entry.multipliers
          settings.tolerance := by
  obtain ⟨d, _, hrun, rfl, -, -⟩ := outcome_solve h
  obtain ⟨way, j₁, hway, hrun⟩ := outcome_bind_eq_ok_iff.mp hrun
  obtain ⟨course, _, -, hrun⟩ := outcome_bind_eq_ok_iff.mp hrun
  cases hrun
  exact ⟨way, j₁, course, hway, rfl⟩

omit [Storage α β] in
/-- What was noted before a descent is warned of under its number. The note at its end is another
one. -/
theorem Descent.code_mem_warnings_iff (d : Descent α β e q n) (ys : List β) (tolerance : α)
    {w : Warning} (hw : w ≠ .subproblemNotConverged) :
    w.code ∈ (d.result ys tolerance).warnings ↔ w ∈ d.notes := by
  have hcode : ∀ w' : Warning, w'.code = w.code ↔ w' = w := by
    intro w'
    cases w' <;> cases w <;> decide
  have hlast : w ∉
      (if tolerance < d.last.reduction then [Warning.subproblemNotConverged] else []) := by
    split_ifs
    · exact mt List.mem_singleton.mp hw
    · exact List.not_mem_nil
  simp only [Descent.result, List.mem_map, hcode, exists_eq_right, List.mem_append, hlast, or_false]

/-- An inner solve notes its warnings in the order of their numbers. -/
theorem ensures_solve_warnings :
    Ensures (solve K f settings problem entry) fun r => r.warnings.Sublist [1, 2, 3] := by
  refine Confined.bind (Q := fun d => d.notes.Sublist
    [.redundantConstraints, .restorationIncomplete]) ?_ fun d hd => ?_
  · refine Confined.bind ensures_prepare_records fun way hway => ?_
    exact Confined.bind (Ensures.any _) fun course _ => Confined.pure hway.2
  · refine Confined.bind (Ensures.any _) fun _ _ => Confined.pure ?_
    have hnote : ∀ flag : Prop, [Decidable flag] →
        (if flag then [Warning.subproblemNotConverged] else []).Sublist
          [Warning.subproblemNotConverged] := by
      intro flag _
      split_ifs
      · exact List.Sublist.refl _
      · exact List.nil_sublist _
    exact (hd.append (hnote _)).map Warning.code

/-- The largest number of calls of an inner solve whose line searches make at most `depth`
bisections each. -/
theorem ensures_run_calls_le {depth : Nat} (grid : Halving α depth)
    (htolerance : ¬ settings.tolerance < grid.grid depth 1) :
    Ensures (run K f settings problem entry) fun d =>
      d.calls settings entry ≤ n + 1 + settings.minorLimit * (n + 1 + depth) := by
  refine Confined.bind (Ensures.any _) fun way _ => ?_
  refine Confined.bind (ensures_descend_course (g := way.landscape K f settings problem) htolerance
    _ _) fun course hcourse => ?_
  refine Confined.pure (Nat.add_le_add ?_ ?_)
  · split_ifs <;> omega
  · exact (minorCalls_le _ (hcourse.forall_mem fun _ _ h => h)).trans
      (Nat.mul_le_mul_right _ hcourse.length_le)

end Run

end Subproblem

end Sqp
