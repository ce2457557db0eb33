import Sqp.Proofs.Journal

/-!
# Computations that fail alike

Two computations that cannot be told apart, and the causes for which they fail.

- `FailsAlike E c c'`: from every journal, `c` and `c'` have the same outcome, and a
  failure has a cause in `E`.

The rules follow the constructs of `do` blocks. `FailsAlike.bind_ensures` hands what is
known of the answer of the first part to the second, and `FailsAlike.evaluate` is the rule
in which the cost function may fail.
-/

namespace Sqp

variable {α β γ δ : Type}

/-- `c` and `c'` have the same outcomes, and fail only for causes in `E`. -/
structure FailsAlike (E : Error → Prop) (c c' : Recorded α γ) : Prop where
  same : ∀ j, outcome c j = outcome c' j
  cause : ∀ j cause, (outcome c j).1 = .error cause → E cause

namespace FailsAlike

variable {E : Error → Prop} {c c' : Recorded α γ}

theorem pure (a : γ) : FailsAlike E (pure a : Recorded α γ) (pure a) where
  same _ := rfl
  cause _ _ h := by cases h

theorem throw {cause : Error} (h : E cause) :
    FailsAlike E (throw cause : Recorded α γ) (throw cause) where
  same _ := rfl
  cause _ _ h' := by
    cases h'
    exact h

/-- Two pure computations fail alike if they are equal, for a cause that the first one has. -/
theorem recorded {x x' : Except Error γ} (hx : x = x') (h : ∀ cause, x = .error cause → E cause) :
    FailsAlike E (recorded x : Recorded α γ) (recorded x') where
  same _ := by rw [hx]
  cause j cause h' := h cause (by rwa [outcome_recorded] at h')

theorem get : FailsAlike E (get : Recorded α (Journal α)) get where
  same _ := rfl
  cause _ _ h := by cases h

theorem report (event : Event α) : FailsAlike E (report event) (report event) where
  same _ := rfl
  cause _ _ h := by cases h

theorem emit (iteration : Nat) (w : Warning) :
    FailsAlike E (emit iteration w : Recorded α Unit) (emit iteration w) where
  same _ := rfl
  cause _ _ h := by cases h

/-- The second part may rely on what is known of the answer of the first. -/
theorem bind_ensures {Q : γ → Prop} {k k' : γ → Recorded α δ} (hc : FailsAlike E c c')
    (hQ : Ensures c Q) (hk : ∀ a, Q a → FailsAlike E (k a) (k' a)) :
    FailsAlike E (c >>= k) (c' >>= k') := by
  refine ⟨fun j => ?_, fun j cause hcause => ?_⟩
  · rw [outcome_bind, outcome_bind, ← hc.same j]
    rcases h : outcome c j with ⟨_ | a, j'⟩
    · rfl
    · exact (hk a (hQ.of_outcome h)).same j'
  · rw [outcome_bind] at hcause
    rcases h : outcome c j with ⟨_ | a, j'⟩ <;> rw [h] at hcause
    · cases hcause
      exact hc.cause j _ (by rw [h])
    · exact (hk a (hQ.of_outcome h)).cause j' cause hcause

/-- The same without such knowledge. -/
theorem bind {k k' : γ → Recorded α δ} (hc : FailsAlike E c c')
    (hk : ∀ a, FailsAlike E (k a) (k' a)) : FailsAlike E (c >>= k) (c' >>= k') :=
  bind_ensures hc (Ensures.any c) fun a _ => hk a

theorem ite {p : Prop} [Decidable p] {d d' : Recorded α γ} (ht : FailsAlike E c c')
    (he : FailsAlike E d d') : FailsAlike E (if p then c else d) (if p then c' else d') := by
  split_ifs
  · exact ht
  · exact he

/-- A vector is filled entry by entry, and the first entry that fails ends it. -/
theorem tabulateM : ∀ {n : Nat} {g g' : Fin n → Recorded α γ},
    (∀ i, FailsAlike E (g i) (g' i)) → FailsAlike E (tabulateM g) (tabulateM g')
  | 0, _, _, _ => FailsAlike.pure _
  | n + 1, _, _, h => by
    refine FailsAlike.bind (tabulateM fun i => h i.castSucc) fun _ => ?_
    exact FailsAlike.bind (h (Fin.last n)) fun _ => FailsAlike.pure _

variable [Storage α β] {f : CostFunction α}

/-- A call of the cost function fails where the cost function does, or because of the
length of its answer. -/
theorem evaluate (hf : ∀ x cause, f x = .error cause → E cause)
    (hlength : ∀ rule, E (.precondition rule)) (x : List β) :
    FailsAlike E (evaluate f x) (evaluate f x) where
  same _ := rfl
  cause j cause h := by
    rw [outcome_evaluate] at h
    cases hx : f (x.map load) with
    | error cause' =>
      rw [hx] at h
      cases h
      exact hf _ _ hx
    | ok values =>
      rw [hx] at h
      dsimp only at h
      split_ifs at h
      cases h
      exact hlength _

/-- A sized call may also fail because its answer is too long or too short. -/
theorem evaluateSized (hf : ∀ x cause, f x = .error cause → E cause)
    (hlength : ∀ rule, E (.precondition rule)) (m : Nat) (x : List β) :
    FailsAlike E (evaluateSized f m x) (evaluateSized f m x) := by
  refine FailsAlike.bind (FailsAlike.evaluate hf hlength x) fun values => ?_
  cases (Cost.ofList? values : Option (Cost β m)) with
  | none => exact FailsAlike.throw (hlength _)
  | some cost => exact FailsAlike.pure cost

end FailsAlike

end Sqp
