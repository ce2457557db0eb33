import Mathlib.Data.List.Chain
import Sqp.Proofs.Journal
import Sqp.Subproblem

/-!
# The course of an inner solve

Two walks through an inner solve, made once and for any scalars: the one through its
preparation, and the one through its minor iterations.

- `Preparation.Follows`: what a preparation takes over from its linearisation.
  `confined_prepare_follows` carries what linearisations guarantee to preparations.
- `Course`: minor iterations of which each but the last one went on, and the last one only
  if no more were allowed. `confined_descend_course` says that a descent is one, and that
  what each minor iteration keeps is kept throughout.
- `Descent.after`: the point after a number of minor iterations.
-/

namespace Sqp.Subproblem

variable {α β : Type} {e q n : Nat}

/-! ## The way in -/

section Preparation

variable [Scalar α] [Scalar β] [Storage α β] {P : List α → Prop} {K : Kernels β}
  {f f' : CostFunction α} {settings : Settings α} {problem : Problem β e q n}
  {entry : InnerStart α β e q n}

/-- What a preparation takes over from its linearisation `l`, and what it scales. -/
structure Preparation.Follows (way : Preparation α β e q n) (settings : Settings α)
    (problem : Problem β e q n) (entry : InnerStart α β e q n)
    (l : Linearisation β e q n) : Prop where
  scale : Scale.compute problem.mode entry.cost.objective (front entry.cost.constraints).toList
    entry.parameters settings.tolerance = .ok way.scale
  point : way.start.point = l.point
  gradient : way.start.gradient = l.gradient
  stale : way.start.stale = l.stale
  notes : way.notes = l.notes
  jacobian : way.lagrangian.jacobian = l.jacobian
  offset : way.lagrangian.offset = l.offset
  curvature : way.start.curvature = way.scale.scaleCurvature entry.curvature
  mu : way.start.mu = entry.mu

/-- A preparation follows a linearisation, and its merit is that of the cost vector at the
linearised point. What `L` says of the one and `C` of the other needs to be known for the
scale that is computed only. -/
theorem confined_prepare_follows {L : Scale β e q n → Linearisation β e q n → Prop}
    {C : Scale β e q n → Linearisation β e q n → Cost β (e + q) → Prop}
    (hL : ∀ scale : Scale β e q n,
      Scale.compute problem.mode entry.cost.objective (front entry.cost.constraints).toList
        entry.parameters settings.tolerance = .ok scale →
      Confined P
        (linearise K (scale.evaluate f) problem.mode (scale.scaleBounds problem.bounds) settings
          (scale.scaleParameters entry.parameters) (scale.scaleCost entry.cost))
        (linearise K (scale.evaluate f') problem.mode (scale.scaleBounds problem.bounds) settings
          (scale.scaleParameters entry.parameters) (scale.scaleCost entry.cost)) (L scale))
    (hC : ∀ (scale : Scale β e q n) (l : Linearisation β e q n),
      Scale.compute problem.mode entry.cost.objective (front entry.cost.constraints).toList
        entry.parameters settings.tolerance = .ok scale → L scale l →
      Confined P (l.cost (scale.evaluate f) (scale.scaleCost entry.cost))
        (l.cost (scale.evaluate f') (scale.scaleCost entry.cost)) (C scale l)) :
    Confined P (prepare K f settings problem entry) (prepare K f' settings problem entry)
      fun way => ∃ l, L way.scale l ∧ way.Follows settings problem entry l ∧
        ∃ base, C way.scale l base ∧
          way.start.merit = load (way.lagrangian.value base way.start.point) := by
  refine Confined.bind (Confined.recorded fun _ h => h) fun scale hscale => ?_
  refine Confined.bind (Q := fun _ => True) (Confined.recorded fun _ _ => trivial)
    fun multipliers _ => ?_
  refine Confined.bind (hL scale hscale) fun l hl => ?_
  refine Confined.bind (hC scale l hscale hl) fun base hbase => Confined.pure ?_
  exact ⟨l, hl, ⟨hscale, rfl, rfl, rfl, rfl, rfl, rfl, rfl, rfl⟩, base, hbase, rfl⟩

/-- The same with one cost function, of which nothing is asked. -/
theorem ensures_prepare_follows {L : Scale β e q n → Linearisation β e q n → Prop}
    (hL : ∀ scale : Scale β e q n, Ensures
      (linearise K (scale.evaluate f) problem.mode (scale.scaleBounds problem.bounds) settings
        (scale.scaleParameters entry.parameters) (scale.scaleCost entry.cost)) (L scale)) :
    Ensures (prepare K f settings problem entry) fun way =>
      ∃ l, L way.scale l ∧ way.Follows settings problem entry l := by
  refine (confined_prepare_follows (fun scale _ => hL scale)
    fun _ _ _ _ => Ensures.any _).mono ?_
  rintro way ⟨l, hl, hfollows, -⟩
  exact ⟨l, hl, hfollows⟩

end Preparation

/-! ## Minor iterations in a row -/

variable {R : Iterate α β e q n → Iterate α β e q n → Prop} {left : Nat}
  {s next : Iterate α β e q n} {course : List (Iterate α β e q n)}

/-- Minor iterations from `s` on, with `R` between each point and the next one. -/
structure Course (R : Iterate α β e q n → Iterate α β e q n → Prop) (left : Nat)
    (s : Iterate α β e q n) (course : List (Iterate α β e q n)) : Prop where
  steps : (s :: course).IsChain R
  length_le : course.length ≤ left
  nonempty : 0 < left → course ≠ []
  goes_on : ∀ s' ∈ course.dropLast, s'.stalled = false
  stops : course.length < left → (course.getLastD s).stalled = true

theorem Course.spent : Course R 0 s [] where
  steps := List.isChain_singleton s
  length_le := le_rfl
  nonempty h := absurd h (Nat.lt_irrefl 0)
  goes_on _ h := absurd h List.not_mem_nil
  stops h := absurd h (Nat.lt_irrefl 0)

/-- An iterate that has stalled is the last one. -/
theorem Course.stalled (h : R s next) (hstalled : next.stalled = true) :
    Course R (left + 1) s [next] where
  steps := List.isChain_pair.mpr h
  length_le := Nat.le_add_left 1 left
  nonempty _ := List.cons_ne_nil next []
  goes_on _ h := absurd h List.not_mem_nil
  stops _ := hstalled

/-- Any other iterate is followed by a course with one iteration less. -/
theorem Course.cons (h : R s next) (hnext : ¬ next.stalled = true)
    (hrest : Course R left next course) : Course R (left + 1) s (next :: course) where
  steps := List.isChain_cons_cons.mpr ⟨h, hrest.steps⟩
  length_le := Nat.succ_le_succ hrest.length_le
  nonempty _ := List.cons_ne_nil next course
  goes_on s' hs' := by
    cases course with
    | nil => exact absurd hs' List.not_mem_nil
    | cons _ _ =>
      rcases List.mem_cons.mp hs' with rfl | hs'
      · exact Bool.eq_false_iff.mpr hnext
      · exact hrest.goes_on s' hs'
  stops hlt := by
    rw [List.getLastD_cons]
    exact hrest.stops (Nat.lt_of_succ_lt_succ hlt)

/-- What each step establishes of the point it leads to holds of all points of a course. -/
theorem Course.forall_mem {I : Iterate α β e q n → Prop} (h : Course R left s course)
    (hR : ∀ s s', R s s' → I s') : ∀ s' ∈ course, I s' := by
  have hchain := h.steps
  clear h
  induction course generalizing s with
  | nil => exact fun _ hs' => absurd hs' List.not_mem_nil
  | cons next course ih =>
    obtain ⟨hnext, hrest⟩ := List.isChain_cons_cons.mp hchain
    exact List.forall_mem_cons.mpr ⟨hR _ _ hnext, ih hrest⟩

section Descend

variable [Scalar α] [Scalar β] [Storage α β] {P : List α → Prop} {g g' : Landscape α β e q n}
  {I : Iterate α β e q n → Prop}

/-- Minor iterations that keep `I` and establish `R` make up a course. -/
theorem confined_descend_course
    (hstep : ∀ s, I s → Confined P (minorStep g s) (minorStep g' s) fun s' => I s' ∧ R s s') :
    ∀ (left : Nat) (s : Iterate α β e q n), I s →
      Confined P (descend g left s) (descend g' left s) (Course R left s) := by
  intro left
  induction left with
  | zero => exact fun _ _ => Confined.pure .spent
  | succ left ih =>
    intro s hs
    refine Confined.bind (hstep s hs) fun next hnext => ?_
    refine Confined.ite (fun hstalled => Confined.pure (.stalled hnext.2 hstalled)) fun hgoes => ?_
    exact Confined.bind (ih next hnext.1) fun rest hrest =>
      Confined.pure (.cons hnext.2 hgoes hrest)

/-- A descent keeps what each of its minor iterations keeps. -/
theorem confined_descend
    (hstep : ∀ s, I s → Confined P (minorStep g s) (minorStep g' s) I) (left : Nat)
    (s : Iterate α β e q n) (hs : I s) :
    Confined P (descend g left s) (descend g' left s) fun course => ∀ s' ∈ course, I s' :=
  (confined_descend_course (R := fun _ => I)
    (fun s hs => (hstep s hs).mono fun _ h => ⟨h, h⟩) left s hs).mono
      fun _ h => h.forall_mem fun _ _ h => h

end Descend

/-! ## Points of a descent -/

variable {d : Descent α β e q n} {k : Nat}

/-- A property of the start and of every point after it is one of the last point. -/
theorem Descent.last_of_forall {I : Iterate α β e q n → Prop} (hstart : I d.start)
    (hcourse : ∀ s ∈ d.course, I s) : I d.last := by
  have hmem : d.last ∈ d.start :: d.course := List.getLastD_mem_cons
  rcases List.mem_cons.mp hmem with h | h
  · rw [h]
    exact hstart
  · exact hcourse _ h

/-- The point after `k` minor iterations. -/
def Descent.after (d : Descent α β e q n) (k : Nat) : Iterate α β e q n :=
  (d.start :: d.course)[k]?.getD d.last

theorem Descent.after_eq (hk : k < (d.start :: d.course).length) :
    d.after k = (d.start :: d.course)[k] := by
  rw [after, List.getElem?_eq_getElem hk, Option.getD_some]

/-- After all minor iterations, the last point is reached. -/
theorem Descent.after_length : d.after d.course.length = d.last := by
  have hlast : (d.start :: d.course)[d.course.length]? = (d.start :: d.course).getLast? :=
    List.getLast?_eq_getElem?.symm
  rw [after, hlast, List.getLast?_cons, Option.getD_some, last, List.getLastD_eq_getLast?]

/-- Each minor iteration leads from one point to the next one. -/
theorem Course.step (h : Course R left d.start d.course) (hk : k < d.course.length) :
    R (d.after k) (d.after (k + 1)) := by
  have hnext : k + 1 < (d.start :: d.course).length := Nat.succ_lt_succ hk
  rw [Descent.after_eq hnext, Descent.after_eq (Nat.lt_of_succ_lt hnext)]
  exact h.steps.getElem k hnext

/-- A minor iteration that is not the last one has not stalled. -/
theorem Course.not_stalled (h : Course R left d.start d.course) (hk : k + 1 < d.course.length) :
    (d.after (k + 1)).stalled = false := by
  have hnext : k + 1 < (d.start :: d.course).length := Nat.lt_succ_of_lt hk
  have hdrop : k < d.course.dropLast.length := by
    rw [List.length_dropLast]
    omega
  rw [Descent.after_eq hnext, List.getElem_cons_succ]
  refine h.goes_on _ ?_
  rw [← List.getElem_dropLast hdrop]
  exact List.getElem_mem hdrop

end Sqp.Subproblem
