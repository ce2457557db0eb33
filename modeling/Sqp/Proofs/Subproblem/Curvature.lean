import Sqp.Proofs.Subproblem.Descent

/-!
# Curvature along an inner solve

In exact arithmetic an inner solve that starts with a positive definite curvature and a
positive damping keeps both, whatever the kernels return, and every matrix that it
factorises is positive definite.

- `Iterate.Convex`: the two properties. A descent starts with them (`Prepares.convex`), and
  every minor iteration keeps them (`Move.convex`).
- `Factorises`: the matrices that the minor iterations of an inner solve may hand to the
  factorisation; `Factorises.posDef` says that they are positive definite.
- `confined_solve_convex`: the answer has both properties again, and a factorisation that
  does the same to positive definite matrices leads to the same inner solve, failures
  included.
- `ensures_solve_isSymm`: from whatever curvature it starts, an inner solve ends with a
  symmetric one.
-/

namespace Sqp.Subproblem

variable {e q n : Nat}

/-! ## Minor iterations -/

/-- The curvature is positive definite and the damping positive. -/
structure Iterate.Convex (s : Iterate ℝ ℝ e q n) : Prop where
  curvature : s.curvature.toMatrix.PosDef
  mu : 0 < s.mu

/-- Every minor iteration is a move, whatever the kernels return. -/
theorem ensures_minorStep_move (g : Landscape ℝ ℝ e q n) (s : Iterate ℝ ℝ e q n) :
    Ensures (minorStep g s) (Move g s) := by
  have region : Region (fun _ => True) g g.costAt (fun _ => True) fun _ => True :=
    ⟨fun _ _ _ _ _ _ _ => trivial, fun _ _ => Ensures.any _, fun _ _ _ => Ensures.any _⟩
  refine (confined_minorStep region trivial trivial fun _ _ _ _ _ => trivial).ensures.mono ?_
  rintro s' ⟨-, -, hmove⟩
  exact hmove

/-- A minor iteration keeps curvature positive definite, by the secant update, and damping
positive. -/
theorem Move.convex {g : Landscape ℝ ℝ e q n} {s s' : Iterate ℝ ℝ e q n} (hmove : Move g s s')
    (hs : s.Convex) : s'.Convex := by
  obtain ⟨gradient, t, a, ht, hmu, -, -, -⟩ := hmove.point
  refine ⟨curvature_posDef hs.curvature hmove.curvature, ?_⟩
  rw [hmu]
  exact NewtonStep.compute_mu_pos (by linarith [hs.mu]) ht

/-- The matrices that a minor iteration may factorise: for some gradient, the curvature that
it has learned, damped by a power of three times a tenth of the last damping. -/
def Landscape.Factorises (g : Landscape ℝ ℝ e q n) (s : Iterate ℝ ℝ e q n)
    (a : Mat ℝ (q + n) (q + n)) : Prop :=
  ∃ (gradient : Vector ℝ (q + n)) (t : Nat), a = NewtonStep.dampedMatrix
    ⟨s.learned gradient, gradient, g.lagrangian.jacobian, trustScale s.point g.bounds g.mode⟩
    (3 ^ t * (s.mu / 10))

/-- What a minor iteration factorises is curvature with damping added. -/
theorem Landscape.Factorises.posDef {g : Landscape ℝ ℝ e q n} {s : Iterate ℝ ℝ e q n}
    (hs : s.Convex) {a : Mat ℝ (q + n) (q + n)} (h : g.Factorises s a) : a.toMatrix.PosDef := by
  obtain ⟨gradient, t, rfl⟩ := h
  have hmu : 0 < s.mu := hs.mu
  exact NewtonStep.dampedMatrix_posDef (curvature_posDef hs.curvature (learned_cases s gradient))
    (by positivity)

variable {c : {k : Nat} → Mat ℝ k k → Mat ℝ k k}

/-- A minor iteration depends on the factorisation of these matrices only. -/
theorem minorStep_withCholesky {g : Landscape ℝ ℝ e q n} {s : Iterate ℝ ℝ e q n}
    (hc : ∀ a, g.Factorises s a → c a = g.kernels.cholesky a) :
    minorStep { g with kernels := g.kernels.withCholesky c } s = minorStep g s := by
  have hten : s.mu / (10.0 : ℝ) = s.mu / 10 := by norm_num
  have hnewton : ∀ gradient : Vector ℝ (q + n),
      NewtonStep.compute (g.kernels.withCholesky c)
        ⟨s.learned gradient, gradient, g.lagrangian.jacobian, trustScale s.point g.bounds g.mode⟩
        s.point g.bounds (s.mu / 10.0) =
      NewtonStep.compute g.kernels
        ⟨s.learned gradient, gradient, g.lagrangian.jacobian, trustScale s.point g.bounds g.mode⟩
        s.point g.bounds (s.mu / 10.0) := by
    intro gradient
    rw [hten]
    exact NewtonStep.compute_withCholesky fun t => hc _ ⟨gradient, t, rfl⟩
  unfold minorStep
  simp only [hnewton]
  rfl

/-! ## Inner solves -/

variable {K : Kernels ℝ} {f : CostFunction ℝ} {settings : Settings ℝ} {problem : Problem ℝ e q n}
  {entry : InnerStart ℝ ℝ e q n}

/-- A descent starts with the curvature of its entry in scaled units. -/
theorem Prepares.convex {D : Scale ℝ e q n → Vector ℝ (q + n) → Mat ℝ (e + q) (q + n) → Prop}
    {C : Scale ℝ e q n → Vector ℝ (q + n) → Prop} {way : Preparation ℝ ℝ e q n}
    {l : Linearisation ℝ e q n} (h : Prepares K settings problem entry D C way l)
    (ht : 0 < settings.tolerance) (hcurvature : entry.curvature.toMatrix.PosDef)
    (hmu : 0 < entry.mu) : way.start.Convex where
  curvature := by
    have hs := Scale.compute_positive ht h.scale
    rw [h.curvature]
    exact Scale.scaleCurvature_posDef hs.objective hs.parameters hcurvature
  mu := by rwa [h.mu]

/-- The matrices that an inner solve may hand to the factorisation: those of a minor
iteration from an iterate to which it may come. -/
def Factorises (K : Kernels ℝ) (f : CostFunction ℝ) (settings : Settings ℝ)
    (problem : Problem ℝ e q n) (entry : InnerStart ℝ ℝ e q n) (a : Mat ℝ (q + n) (q + n)) : Prop :=
  ∃ (way : Preparation ℝ ℝ e q n) (j j' : Journal ℝ),
    outcome (prepare K f settings problem entry) j = (.ok way, j') ∧
    ∃ (left : Nat) (course : List (Iterate ℝ ℝ e q n)) (j₁ j₂ : Journal ℝ),
      outcome (descend (way.landscape K f settings problem) left way.start) j₁ = (.ok course, j₂) ∧
      ∃ s ∈ way.start :: course, (way.landscape K f settings problem).Factorises s a

/-- A descent starts with the curvature of the entry in scaled units. -/
theorem ensures_prepare_convex (ht : 0 < settings.tolerance)
    (hcurvature : entry.curvature.toMatrix.PosDef) (hmu : 0 < entry.mu) :
    Ensures (prepare K f settings problem entry) fun way =>
      way.scale.Positive ∧ way.start.Convex := by
  refine ensures_prepare_prepares.mono ?_
  rintro way ⟨l, hway⟩
  exact ⟨Scale.compute_positive ht hway.scale, hway.convex ht hcurvature hmu⟩

/-- So everything that an inner solve factorises is positive definite. -/
theorem Factorises.posDef {a : Mat ℝ (q + n) (q + n)}
    (h : Factorises K f settings problem entry a) (ht : 0 < settings.tolerance)
    (hcurvature : entry.curvature.toMatrix.PosDef) (hmu : 0 < entry.mu) : a.toMatrix.PosDef := by
  obtain ⟨way, j, j', hway, left, course, j₁, j₂, hcourse, s, hs, ha⟩ := h
  obtain ⟨-, hstart⟩ := (ensures_prepare_convex ht hcurvature hmu).of_outcome hway
  have hconvex := (confined_descend (fun s hs => (ensures_minorStep_move _ s).mono
    fun s' hmove => hmove.convex hs) left way.start hstart).of_outcome hcourse
  rcases List.mem_cons.mp hs with rfl | hs
  · exact ha.posDef hstart
  · exact ha.posDef (hconvex s hs)

/-- A descent keeps both properties, and it depends on the factorisation of positive definite
matrices only; what precedes it uses no factorisation. -/
theorem confined_run_convex (ht : 0 < settings.tolerance)
    (hcurvature : entry.curvature.toMatrix.PosDef) (hmu : 0 < entry.mu)
    (hc : ∀ a : Mat ℝ (q + n) (q + n), a.toMatrix.PosDef → c a = K.cholesky a) :
    Confined (fun _ => True) (run K f settings problem entry)
      (run (K.withCholesky c) f settings problem entry) fun d =>
        d.scale.Positive ∧ d.last.Convex := by
  have hprepare : prepare (K.withCholesky c) f settings problem entry =
      prepare K f settings problem entry := rfl
  unfold run
  rw [hprepare]
  refine Confined.bind (ensures_prepare_convex ht hcurvature hmu) fun way hway => ?_
  obtain ⟨hscale, hstart⟩ := hway
  refine Confined.bind (confined_descend (I := Iterate.Convex) (fun s hs => ?_)
    settings.minorLimit way.start hstart) fun course hcourse => ?_
  -- only positive definite matrices are factorised from an iterate with these properties
  · have hsame : minorStep (way.landscape (K.withCholesky c) f settings problem) s =
        minorStep (way.landscape K f settings problem) s :=
      minorStep_withCholesky (g := way.landscape K f settings problem) fun a ha =>
        hc a (ha.posDef hs)
    rw [hsame]
    exact (ensures_minorStep_move _ s).mono fun s' hmove => hmove.convex hs
  · exact Confined.pure ⟨hscale, Descent.last_of_forall
      (d := ⟨way.scale, way.notes, way.start, course⟩) hstart hcourse⟩

/-- An inner solve gives back positive definite curvature in user units, and depends on the
factorisation of such matrices only. -/
theorem confined_solve_convex (ht : 0 < settings.tolerance)
    (hcurvature : entry.curvature.toMatrix.PosDef) (hmu : 0 < entry.mu)
    (hc : ∀ a : Mat ℝ (q + n) (q + n), a.toMatrix.PosDef → c a = K.cholesky a) :
    Confined (fun _ => True) (solve K f settings problem entry)
      (solve (K.withCholesky c) f settings problem entry) fun r =>
        r.curvature.toMatrix.PosDef ∧ 0 < r.mu := by
  refine Confined.bind (confined_run_convex ht hcurvature hmu hc) fun d hd =>
    Confined.bind (Confined.report _) fun _ _ => Confined.pure ?_
  obtain ⟨hscale, hlast⟩ := hd
  exact ⟨Curvature.symmetrize_posDef
    (Scale.unscaleCurvature_posDef hscale.objective hscale.parameters hlast.curvature), hlast.mu⟩

/-- An inner solve ends with a symmetric curvature. -/
theorem ensures_solve_isSymm : Ensures (solve K f settings problem entry) fun r =>
    r.curvature.toMatrix.IsSymm := by
  refine Confined.bind (Ensures.any _) fun d _ => Confined.bind (Confined.report _) fun _ _ => ?_
  exact Confined.pure (Curvature.symmetrize_isSymm _)

end Sqp.Subproblem
