import Sqp.Proofs.Journal

/-!
# What a computation adds to its journal

A computation that gives an answer has called the cost function a number of times and has
emitted some warnings; nothing that was in the journal before is lost.

- `Journal.GrownBy`: a journal after further calls of the cost function and further
  emitted warnings.
- `Grows c Q`: an answer of `c` is in `Q` together with the number of calls and the
  emitted warnings that it took.
- `Calls c N`: the special case of a computation that emits nothing and whose answer tells
  how often the cost function was called.

The rules follow the constructs of `do` blocks: `Grows.bind` adds up what two parts add,
`Calls.evaluate` is the one in which the cost function is called, and `Grows.emit` the one
in which a warning is emitted.
-/

namespace Sqp

variable {α β γ δ : Type}

/-! ## Growth -/

/-- `j'` is `j` after `calls` calls of the cost function, with the warnings `ws` emitted
on the way. -/
structure Journal.GrownBy (j : Journal α) (calls : Nat) (ws : List (Nat × Warning))
    (j' : Journal α) : Prop where
  evaluations : j'.evaluations = j.evaluations + calls
  emitted : j'.emitted.toList = j.emitted.toList ++ ws

theorem Journal.GrownBy.refl (j : Journal α) : j.GrownBy 0 [] j := ⟨rfl, by simp⟩

/-- What is added twice adds up: the calls as numbers, the warnings in their order. -/
theorem Journal.GrownBy.trans {j j₁ j₂ : Journal α} {calls calls' : Nat}
    {ws ws' : List (Nat × Warning)} (h : j.GrownBy calls ws j₁) (h' : j₁.GrownBy calls' ws' j₂) :
    j.GrownBy (calls + calls') (ws ++ ws') j₂ where
  evaluations := by rw [h'.evaluations, h.evaluations, Nat.add_assoc]
  emitted := by rw [h'.emitted, h.emitted, List.append_assoc]

/-- An answer of `c` is in `Q`, together with the calls of the cost function and the
emitted warnings that it took. -/
def Grows (c : Recorded α γ) (Q : γ → Nat → List (Nat × Warning) → Prop) : Prop :=
  ∀ j a j', outcome c j = (.ok a, j') → ∃ calls ws, j.GrownBy calls ws j' ∧ Q a calls ws

/-- `c` emits nothing, and an answer `a` of it took `N a` calls of the cost function. -/
abbrev Calls (c : Recorded α γ) (N : γ → Nat) : Prop :=
  Grows c fun a calls ws => calls = N a ∧ ws = []

namespace Grows

variable {c : Recorded α γ} {Q : γ → Nat → List (Nat × Warning) → Prop}

theorem mono {Q' : γ → Nat → List (Nat × Warning) → Prop} (h : Grows c Q)
    (hQ : ∀ a calls ws, Q a calls ws → Q' a calls ws) : Grows c Q' := by
  intro j a j' ha
  obtain ⟨calls, ws, hgrown, hq⟩ := h j a j' ha
  exact ⟨calls, ws, hgrown, hQ a calls ws hq⟩

/-- What is known of answers may be added. -/
theorem and_ensures {P : γ → Prop} (h : Grows c Q) (hP : Ensures c P) :
    Grows c fun a calls ws => Q a calls ws ∧ P a := by
  intro j a j' ha
  obtain ⟨calls, ws, hgrown, hq⟩ := h j a j' ha
  exact ⟨calls, ws, hgrown, hq, hP.of_outcome ha⟩

theorem pure {a : γ} (h : Q a 0 []) : Grows (pure a : Recorded α γ) Q := by
  intro j b j' hb
  cases hb
  exact ⟨0, [], .refl j, h⟩

/-- Nothing is claimed of a computation without an answer. -/
theorem throw (cause : Error) : Grows (throw cause : Recorded α γ) Q := by
  intro j b j' hb
  cases hb

theorem recorded {x : Except Error γ} (h : ∀ a, x = .ok a → Q a 0 []) :
    Grows (recorded x : Recorded α γ) Q := by
  intro j a j' ha
  rw [outcome_recorded, Prod.mk.injEq] at ha
  obtain ⟨hx, rfl⟩ := ha
  exact ⟨0, [], .refl j, h a hx⟩

theorem bind {k : γ → Recorded α δ} {R : δ → Nat → List (Nat × Warning) → Prop} (hc : Grows c Q)
    (hk : ∀ a calls ws, Q a calls ws →
      Grows (k a) fun b calls' ws' => R b (calls + calls') (ws ++ ws')) : Grows (c >>= k) R := by
  intro j b j₂ hb
  obtain ⟨a, j₁, ha, hb⟩ := outcome_bind_eq_ok_iff.mp hb
  obtain ⟨calls, ws, hfirst, hq⟩ := hc j a j₁ ha
  obtain ⟨calls', ws', hsecond, hr⟩ := hk a calls ws hq j₁ b j₂ hb
  exact ⟨calls + calls', ws ++ ws', hfirst.trans hsecond, hr⟩

theorem ite {p : Prop} [Decidable p] {d : Recorded α γ} (ht : p → Grows c Q)
    (he : ¬ p → Grows d Q) : Grows (if p then c else d) Q := by
  by_cases h : p
  · rw [if_pos h]
    exact ht h
  · rw [if_neg h]
    exact he h

theorem emit (iteration : Nat) (w : Warning) :
    Grows (emit iteration w : Recorded α Unit) fun _ calls ws =>
      calls = 0 ∧ ws = [(iteration, w)] := by
  intro j a j' ha
  cases ha
  exact ⟨0, [(iteration, w)], ⟨rfl, by simp⟩, rfl, rfl⟩

end Grows

/-! ## Calls of the cost function -/

namespace Calls

/-- What is added after a computation that only calls the cost function. -/
theorem bind {c : Recorded α γ} {N : γ → Nat} {k : γ → Recorded α δ}
    {R : δ → Nat → List (Nat × Warning) → Prop} (hc : Calls c N)
    (hk : ∀ a, Grows (k a) fun b calls ws => R b (N a + calls) ws) : Grows (c >>= k) R := by
  refine Grows.bind hc ?_
  rintro a _ _ ⟨rfl, rfl⟩
  exact hk a

theorem recorded (x : Except Error γ) : Calls (recorded x : Recorded α γ) fun _ => 0 :=
  Grows.recorded fun _ _ => ⟨rfl, rfl⟩

theorem report (event : Event α) : Calls (report event) fun _ => 0 := by
  intro j a j' ha
  cases ha
  exact ⟨0, [], ⟨rfl, by simp⟩, rfl, rfl⟩

/-- A vector is filled entry by entry, so what each entry takes adds up. -/
theorem tabulateM {m : Nat} : ∀ {n : Nat} {g : Fin n → Recorded α γ},
    (∀ i, Calls (g i) fun _ => m) → Calls (tabulateM g) fun _ => n * m
  | 0, _, _ => Grows.pure ⟨by simp, rfl⟩
  | n + 1, g, h => by
    refine Calls.bind (tabulateM fun i => h i.castSucc) fun init => ?_
    refine Calls.bind (h (Fin.last n)) fun last => ?_
    exact Grows.pure ⟨by rw [Nat.add_zero, Nat.succ_mul], rfl⟩

/-- One call, whatever the cost function answers. -/
theorem evaluate [Storage α β] (f : CostFunction α) (x : List β) :
    Calls (evaluate f x) fun _ => 1 := by
  intro j values j' h
  rw [outcome_evaluate] at h
  cases hf : f (x.map load) with
  | error cause =>
    rw [hf] at h
    cases h
  | ok answer =>
    rw [hf, Prod.mk.injEq] at h
    obtain ⟨-, rfl⟩ := h
    exact ⟨1, [], ⟨Array.size_push _, (List.append_nil _).symm⟩, rfl, rfl⟩

/-- The length of the answer is tested after the call, so it is still one call. -/
theorem evaluateSized [Storage α β] (f : CostFunction α) (m : Nat) (x : List β) :
    Calls (evaluateSized f m x) fun _ => 1 := by
  refine Calls.bind (evaluate f x) fun values => ?_
  cases (Cost.ofList? values : Option (Cost β m)) with
  | none => exact Grows.throw _
  | some cost => exact Grows.pure ⟨rfl, rfl⟩

theorem quotient [Scalar α] (a b : α) :
    Calls (Scalar.quotient a b : Recorded α α) fun _ => 0 :=
  Grows.ite (fun _ => Grows.throw _) fun _ => Grows.pure ⟨rfl, rfl⟩

end Calls

end Sqp
