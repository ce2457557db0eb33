import Sqp.Proofs.Returns
import Sqp.Proofs.Scalar.Real

/-!
# Two computations side by side

Two computations whose cost functions are called at different decision vectors can still
do the same, step by step.

- `Journal.mapVisited`: a journal with other names for the visited decision vectors.
- `Mirrors φ h c c'`: from a renamed journal, `c'` does what `c` does: it fails with the
  same error, or it gives the answer that `h` makes of the one of `c`, and the journal that
  it leaves is again the renamed one. So both make the same number of calls.

The rules follow the constructs of `do` blocks; `Mirrors.evaluate` is the only one in which
something is visited.
-/

namespace Sqp

variable {α γ γ' δ δ' : Type}

/-! ## Renamed journals -/

/-- The journal with every visited decision vector passed through `φ`. -/
def Journal.mapVisited (φ : List α → List α) (j : Journal α) : Journal α :=
  { j with visited := j.visited.map φ }

@[simp] theorem Journal.mapVisited_empty (φ : List α → List α) :
    ({} : Journal α).mapVisited φ = {} := by
  rw [Journal.mapVisited, Array.map_empty]

@[simp] theorem Journal.evaluations_mapVisited (φ : List α → List α) (j : Journal α) :
    (j.mapVisited φ).evaluations = j.evaluations :=
  Array.size_map

/-- A call is recorded under its new name. -/
theorem Journal.mapVisited_visit (φ : List α → List α) (j : Journal α) (x : List α)
    (values : Nat) : (j.visit x values).mapVisited φ = (j.mapVisited φ).visit (φ x) values := by
  unfold Journal.mapVisited Journal.visit
  rw [Array.map_push]

/-! ## Mirrored computations -/

/-- From a renamed journal, `c'` fails like `c` or gives the answer that `h` makes of the one
of `c`, and it leaves the renamed journal of `c`. -/
def Mirrors (φ : List α → List α) (h : γ → γ') (c : Recorded α γ) (c' : Recorded α γ') : Prop :=
  ∀ j, outcome c' (j.mapVisited φ) = ((outcome c j).1.map h, (outcome c j).2.mapVisited φ)

namespace Mirrors

variable {φ : List α → List α} {h : γ → γ'} {g : δ → δ'} {c : Recorded α γ} {c' : Recorded α γ'}

theorem pure (a : γ) : Mirrors φ h (pure a) (pure (h a)) := fun _ => rfl

theorem throw (cause : Error) : Mirrors φ h (throw cause) (throw cause) := fun _ => rfl

/-- Two pure computations whose answers differ by `h`. -/
theorem recorded (x : Except Error γ) : Mirrors φ h (recorded x) (recorded (x.map h)) := by
  intro j
  rw [outcome_recorded, outcome_recorded]

theorem recorded_same (x : Except Error γ) :
    Mirrors φ id (Sqp.recorded x) (Sqp.recorded x) := by
  intro j
  rw [outcome_recorded, outcome_recorded]
  cases x <;> rfl

theorem report (event : Event α) : Mirrors φ id (report event) (report event) := fun _ => rfl

/-- What follows must do the same with the answers that differ by `h`. -/
theorem bind {k : γ → Recorded α δ} {k' : γ' → Recorded α δ'} (hc : Mirrors φ h c c')
    (hk : ∀ a, Mirrors φ g (k a) (k' (h a))) : Mirrors φ g (c >>= k) (c' >>= k') := by
  intro j
  rw [outcome_bind, outcome_bind, hc j]
  rcases outcome c j with ⟨cause | a, j'⟩
  · rfl
  · exact hk a j'

/-- A computation that gives the same answer, and what follows it. -/
theorem bind_same {c c' : Recorded α γ} {k : γ → Recorded α δ} {k' : γ → Recorded α δ'}
    (hc : Mirrors φ id c c') (hk : ∀ a, Mirrors φ g (k a) (k' a)) :
    Mirrors φ g (c >>= k) (c' >>= k') :=
  hc.bind hk

theorem ite {p : Prop} [Decidable p] {d : Recorded α γ} {d' : Recorded α γ'}
    (ht : Mirrors φ h c c') (he : Mirrors φ h d d') :
    Mirrors φ h (if p then c else d) (if p then c' else d') := by
  split_ifs
  · exact ht
  · exact he

/-- A vector is filled with the same entries, one by one. -/
theorem tabulateM : ∀ {n : Nat} {f f' : Fin n → Recorded α γ},
    (∀ i, Mirrors φ id (f i) (f' i)) → Mirrors φ id (tabulateM f) (tabulateM f')
  | 0, _, _, _ => Mirrors.pure _
  | n + 1, _, _, hf => by
    refine Mirrors.bind_same (tabulateM fun i => hf i.castSucc) fun init => ?_
    exact Mirrors.bind_same (hf (Fin.last n)) fun last => Mirrors.pure _

/-- Two cost functions that answer alike, up to `ψ`, at a decision vector and its new name. -/
theorem evaluate {φ : List ℝ → List ℝ} {ψ : List ℝ → List ℝ} {f f' : CostFunction ℝ} {x : List ℝ}
    (hf : f' (φ x) = (f x).map ψ) (hψ : ∀ values, (ψ values).length = values.length) :
    Mirrors φ ψ (evaluate f x) (evaluate f' (φ x)) := by
  intro j
  rw [outcome_evaluate, outcome_evaluate, map_load_real, map_load_real, hf]
  cases f x with
  | error cause => rfl
  | ok values =>
    show (_, (j.mapVisited φ).visit (φ x) (ψ values).length) = _
    rw [← Journal.mapVisited_visit, hψ]
    refine Prod.ext ?_ rfl
    show (if ∀ m ∈ j.costLength?, values.length = m then _ else _) = _
    dsimp only
    -- the length is tested against the first one, which has kept its value
    split_ifs
    · show Except.ok ((ψ values).map id) = Except.ok (ψ (values.map id))
      rw [List.map_id, List.map_id]
    · rfl

/-- The same for calls whose answers are split into objective and constraints. -/
theorem evaluateSized {φ : List ℝ → List ℝ} {ψ : List ℝ → List ℝ} {f f' : CostFunction ℝ}
    {x : List ℝ} {m : Nat} {ψ' : Cost ℝ m → Cost ℝ m} (hf : f' (φ x) = (f x).map ψ)
    (hψ : ∀ values, (ψ values).length = values.length)
    (hψ' : ∀ values, Cost.ofList? (ψ values) = (Cost.ofList? values).map ψ') :
    Mirrors φ ψ' (evaluateSized f m x) (evaluateSized f' m (φ x)) := by
  refine Mirrors.bind (Mirrors.evaluate hf hψ) fun values => ?_
  rw [hψ', hψ]
  cases (Cost.ofList? values : Option (Cost ℝ m)) with
  | none => exact Mirrors.throw _
  | some cost => exact Mirrors.pure cost

end Mirrors

end Sqp
