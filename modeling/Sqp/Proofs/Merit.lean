import Sqp.Proofs.Scale

/-!
# Finite differences in exact arithmetic

- `Differences`: the gradient and the Jacobian that belong to given cost vectors at the
  shifted points, entry by entry.
- `confined_constraintJacobian`: `constraintJacobian` returns these, for the cost vectors
  that it was given on the way.
- `confined_meritGradient`: a gradient of the merit calls the merit function at the
  shifted points only.
- `Confined.scaleEvaluate`: a scaled cost vector is the scaled answer of the cost
  function.
-/

namespace Sqp

variable {e q n : Nat} {P : List ℝ → Prop}

/-- A scaled cost vector comes from one call of the cost function. -/
theorem Confined.scaleEvaluate_load {α β : Type} [Scalar α] [Scalar β] [Storage α β]
    {P : List α → Prop} {f f' : CostFunction α} (hf : ∀ x, P x → f x = f' x) {s : Scale β e q n}
    {p : Vector β (q + n)} (hp : P ((s.userPoint p).toList.map load)) :
    Confined P (s.evaluate f p) (s.evaluate f' p) fun c => ∃ user : Cost β (e + q),
      f ((s.userPoint p).toList.map load) = .ok (user.toList.map load) ∧ c = s.scaleCost user :=
  Confined.bind (Confined.evaluateSized hp (hf _ hp)) fun user huser =>
    Confined.pure ⟨user, huser, rfl⟩

/-- The same over the reals, which are stored as they are. -/
theorem Confined.scaleEvaluate {f f' : CostFunction ℝ} (hf : ∀ x, P x → f x = f' x)
    {s : Scale ℝ e q n} {p : Vector ℝ (q + n)} (hp : P (s.userPoint p).toList) :
    Confined P (s.evaluate f p) (s.evaluate f' p) fun c =>
      ∃ user : Cost ℝ (e + q), f (s.userPoint p).toList = .ok user.toList ∧
        c = s.scaleCost user := by
  have hcall := Confined.scaleEvaluate_load hf (s := s) (p := p) (by rwa [map_load_real])
  simpa only [map_load_real] using hcall

theorem Confined.quotient (a b : ℝ) :
    Confined P (Scalar.quotient a b) (Scalar.quotient a b) fun _ => True :=
  Confined.ite (fun _ => Confined.throw _) fun _ => Confined.pure trivial

/-! ## Differences -/

/-- The forward differences of cost vectors `shifted`, one for each decision variable,
against the cost vector at the point itself. -/
structure Differences (cost : Cost ℝ (e + q)) (delta : ℝ) (shifted : Fin n → Cost ℝ (e + q))
    (gradient : Vector ℝ (q + n)) (jacobian : Mat ℝ (e + q) (q + n)) : Prop where
  gradient_slack : ∀ k : Fin q, gradient.get (k.castAdd n) = 0
  gradient_decision : ∀ k : Fin n,
    gradient.get (k.natAdd q) = ((shifted k).objective - cost.objective) / delta
  jacobian_slack : ∀ (i : Fin (e + q)) (k : Fin q),
    jacobian.entry i (k.castAdd n) = if i = k.natAdd e then -1 else 0
  jacobian_decision : ∀ (i : Fin (e + q)) (k : Fin n),
    jacobian.entry i (k.natAdd q) =
      ((shifted k).constraints.get i - cost.constraints.get i) / delta

variable {costAt costAt' : Vector ℝ (q + n) → Recorded ℝ (Cost ℝ (e + q))}
  {p : Vector ℝ (q + n)} {cost : Cost ℝ (e + q)} {delta : ℝ}

/-- The Jacobian is made of calls at the shifted points only, and its entries are the differences
of what these calls answer. -/
theorem confined_constraintJacobian {C : Fin n → Cost ℝ (e + q) → Prop}
    (hC : ∀ i, Confined P (costAt (nudge p (i.natAdd q) delta))
      (costAt' (nudge p (i.natAdd q) delta)) (C i)) :
    Confined P (constraintJacobian costAt p cost delta) (constraintJacobian costAt' p cost delta)
      fun r => ∃ shifted, (∀ i, C i (shifted i)) ∧ Differences cost delta shifted r.1 r.2 := by
  -- one call for each decision variable; slacks are known to have no slope but their own
  have hslopes : ∀ i : Fin n, Confined P
      (do return (← costAt (nudge p (i.natAdd q) delta)).slope cost delta)
      (do return (← costAt' (nudge p (i.natAdd q) delta)).slope cost delta)
      fun slope => ∃ c, C i c ∧ slope = c.slope cost delta := fun i =>
    Confined.bind (hC i) fun c hc => Confined.pure ⟨c, hc, rfl⟩
  refine Confined.bind (Confined.tabulateM hslopes) fun slopes h => Confined.pure ?_
  choose shifted hshifted hslope using h
  refine ⟨shifted, hshifted, fun k => ?_, fun k => ?_, fun i k => ?_, fun i k => ?_⟩
  · rw [get_append_castAdd, get_zeros]
  · rw [get_append_natAdd, get_map, hslope]
    rfl
  · rw [Mat.entry_ofFn, dif_pos (by simp)]
    exact if_congr (Fin.ext_iff (b := k.natAdd e)).symm rfl rfl
  · have hk : (⟨(k.natAdd q).val - q, by simp⟩ : Fin n) = k := Fin.ext (by simp)
    rw [Mat.entry_ofFn, dif_neg (by simp), hk, hslope, Cost.slope, get_map, get_sub,
      Scalar.share_eq_div]

/-- A gradient of a merit calls it at the shifted points only. -/
theorem confined_meritGradient {meritAt meritAt' : Vector ℝ (q + n) → Recorded ℝ ℝ} {merit : ℝ}
    (h : ∀ i : Fin n, Confined P (meritAt (nudge p (i.natAdd q) delta))
      (meritAt' (nudge p (i.natAdd q) delta)) fun _ => True) :
    Confined P (meritGradient meritAt p merit delta) (meritGradient meritAt' p merit delta)
      fun _ => True :=
  Confined.bind
    (Confined.tabulateM fun i => Confined.bind (h i) fun _ _ => Confined.quotient _ _)
    fun _ _ => Confined.pure trivial

end Sqp
