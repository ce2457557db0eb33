import Sqp.Proofs.Journal

/-!
# Computations that return

`Confined` and `Ensures` speak of answers only where there are any. Here is their
counterpart for computations that do give an answer.

- `Journal.Fits`: a cost vector with a given number of values is one that the journal
  allows. A sized call of the cost function that succeeds leaves a journal of this kind
  (`fits_of_evaluateSized`), and so does a tabulation of such calls
  (`fits_of_tabulateM`).
- `Returns J c Q`: from every journal in `J`, `c` gives an answer in `Q` and leaves a
  journal in `J`. The rules are those of `Confined`; `Returns.evaluate` asks the cost
  function for an answer, and `Returns.and_ensures` adds what is known of answers.
-/

namespace Sqp

variable {α β γ δ : Type}

/-! ## Journals that fit -/

/-- A cost vector with `values` values has the length of the first one, if there was
one. -/
def Journal.Fits (values : Nat) (j : Journal α) : Prop := ∀ m ∈ j.costLength?, values = m

/-- Without a call before, every length is allowed. -/
theorem Journal.fits_empty {values : Nat} : ({} : Journal α).Fits values := fun _ h => nomatch h

/-- A call with an answer of the allowed length allows that length again. -/
theorem Journal.fits_visit {values : Nat} {j : Journal α} (h : j.Fits values) (x : List α) :
    (j.visit x values).Fits values := by
  intro m hm
  cases hj : j.costLength? with
  | none =>
    rw [Journal.visit, hj] at hm
    exact Option.some.inj hm
  | some m' =>
    rw [Journal.visit, hj] at hm
    exact (h m' hj).trans (Option.some.inj hm)

/-- A cost vector has one more value than constraints. -/
theorem Cost.length_toList {m : Nat} (c : Cost β m) : c.toList.length = 1 + m := by
  rw [Cost.toList, List.length_cons, Vector.length_toList, Nat.add_comm]

@[simp] theorem Cost.ofList?_toList {m : Nat} (c : Cost β m) :
    (Cost.ofList? c.toList : Option (Cost β m)) = some c := by
  have hlength : c.constraints.toList.length = m := by simp
  rw [Cost.toList, Cost.ofList?, dif_pos hlength]
  rfl

/-- The values determine a cost vector. -/
theorem Cost.toList_injective {m : Nat} {c c' : Cost β m} (h : c.toList = c'.toList) : c = c' := by
  have hsome := congrArg (Cost.ofList? (m := m)) h
  rwa [Cost.ofList?_toList, Cost.ofList?_toList, Option.some.injEq] at hsome

/-- A sized call of the cost function that succeeds was allowed by the journal, and so are
further ones. -/
theorem fits_of_evaluateSized [Storage α β] {f : CostFunction α} {m : Nat} {x : List β}
    {j j' : Journal α} {c : Cost β m} (h : outcome (evaluateSized f m x) j = (.ok c, j')) :
    j'.Fits (1 + m) := by
  obtain ⟨values, j₁, hvalues, h⟩ := outcome_bind_eq_ok_iff.mp h
  have hc : Cost.ofList? values = some c ∧ j₁ = j' := by
    cases hlist : (Cost.ofList? values : Option (Cost β m)) with
    | none => rw [hlist] at h; cases h
    | some c' => rw [hlist] at h; cases h; exact ⟨rfl, rfl⟩
  have hlength : values.length = 1 + m := by
    rw [Cost.toList_of_ofList? hc.1, Cost.length_toList]
  rw [outcome_evaluate] at hvalues
  cases hf : f (x.map load) with
  | error cause => rw [hf] at hvalues; cases hvalues
  | ok answer =>
    rw [hf] at hvalues
    simp only [Prod.mk.injEq] at hvalues
    obtain ⟨hanswer, hj⟩ := hvalues
    -- the answer was accepted, so the journal knew no length or this one
    split_ifs at hanswer with hfits
    cases hanswer
    rw [List.length_map] at hlength
    rw [← hc.2, ← hj, ← hlength]
    exact Journal.fits_visit hfits _

/-- A tabulation with at least one entry leaves what each of its entries leaves. -/
theorem fits_of_tabulateM {J : Journal α → Prop} :
    ∀ {n : Nat} {g : Fin n → Recorded α γ}, 0 < n →
      (∀ i j a j', outcome (g i) j = (.ok a, j') → J j') →
      ∀ {j j' : Journal α} {v : Vector γ n}, outcome (tabulateM g) j = (.ok v, j') → J j'
  | 0, _, hn, _, _, _, _, _ => absurd hn (Nat.lt_irrefl 0)
  | n + 1, g, _, h, j, j', v, hv => by
    obtain ⟨init, j₁, _, hv⟩ := outcome_bind_eq_ok_iff.mp hv
    obtain ⟨last, j₂, hlast, hv⟩ := outcome_bind_eq_ok_iff.mp hv
    cases hv
    exact h _ _ _ _ hlast

/-! ## Answers -/

/-- From every journal in `J`, `c` gives an answer in `Q` and leaves a journal in `J`. -/
def Returns (J : Journal α → Prop) (c : Recorded α γ) (Q : γ → Prop) : Prop :=
  ∀ j, J j → ∃ a j', outcome c j = (.ok a, j') ∧ J j' ∧ Q a

namespace Returns

variable {J : Journal α → Prop} {c : Recorded α γ} {Q : γ → Prop}

theorem mono {Q' : γ → Prop} (h : Returns J c Q) (hQ : ∀ a, Q a → Q' a) : Returns J c Q' := by
  intro j hj
  obtain ⟨a, j', ha, hj', hQa⟩ := h j hj
  exact ⟨a, j', ha, hj', hQ a hQa⟩

theorem pure {a : γ} (h : Q a) : Returns J (pure a) Q := fun j hj => ⟨a, j, rfl, hj, h⟩

/-- The answer of the first part starts the second, with a journal that is still in `J`. -/
theorem bind {k : γ → Recorded α δ} {R : δ → Prop} (hc : Returns J c Q)
    (hk : ∀ a, Q a → Returns J (k a) R) : Returns J (c >>= k) R := by
  intro j hj
  obtain ⟨a, j₁, ha, hj₁, hQ⟩ := hc j hj
  obtain ⟨b, j₂, hb, hj₂, hR⟩ := hk a hQ j₁ hj₁
  exact ⟨b, j₂, outcome_bind_eq_ok_iff.mpr ⟨a, j₁, ha, hb⟩, hj₂, hR⟩

/-- A vector is filled if each of its entries is. -/
theorem tabulateM : ∀ {n : Nat} {g : Fin n → Recorded α γ} {Q : Fin n → γ → Prop},
    (∀ i, Returns J (g i) (Q i)) → Returns J (tabulateM g) fun v => ∀ i, Q i (v.get i)
  | 0, _, _, _ => Returns.pure fun i => i.elim0
  | n + 1, _, _, h => by
    refine Returns.bind (tabulateM fun i => h i.castSucc) fun init hinit => ?_
    exact Returns.bind (h (Fin.last n)) fun last hlast => Returns.pure (forall_get_push hinit hlast)

/-- What is known of answers may be added, since there is one. -/
theorem and_ensures {R : γ → Prop} (h : Returns J c Q) (hR : Ensures c R) :
    Returns J c fun a => Q a ∧ R a := by
  intro j hj
  obtain ⟨a, j', ha, hj', hQ⟩ := h j hj
  exact ⟨a, j', ha, hj', hQ, hR.of_outcome ha⟩

/-- A pure computation returns if it does not fail. -/
theorem recorded {x : Except Error γ} (h : ∃ a, x = .ok a) :
    Returns J (recorded x) fun a => x = .ok a := by
  obtain ⟨a, rfl⟩ := h
  exact Returns.pure rfl

theorem ite {p : Prop} [Decidable p] {d : Recorded α γ} (ht : p → Returns J c Q)
    (he : ¬ p → Returns J d Q) : Returns J (if p then c else d) Q := by
  split_ifs with h
  · exact ht h
  · exact he h

theorem report {values : Nat} (event : Event α) :
    Returns (Journal.Fits values) (report event) fun _ => True :=
  fun j hj => ⟨(), { j with events := j.events.push event }, rfl, hj, trivial⟩

theorem emit {values : Nat} (iteration : Nat) (w : Warning) :
    Returns (Journal.Fits values) (emit iteration w : Recorded α Unit) fun _ => True :=
  fun j hj => ⟨(), { j with emitted := j.emitted.push (iteration, w) }, rfl, hj, trivial⟩

/-- A call of the cost function where it gives an answer of the right length. -/
theorem evaluate [Storage α β] {f : CostFunction α} {m : Nat} {x : List β} {cost : Cost β m}
    (hf : f (x.map load) = .ok (cost.toList.map load)) :
    Returns (Journal.Fits (1 + m)) (evaluate f x) (· = cost.toList) := by
  intro j hj
  have hlength : (cost.toList.map (load : β → α)).length = 1 + m := by
    rw [List.length_map, Cost.length_toList]
  have hstore : (cost.toList.map (load : β → α)).map store = cost.toList := by
    rw [List.map_map, show (store ∘ load : β → β) = id from funext Storage.store_load, List.map_id]
  refine ⟨cost.toList, j.visit (x.map load) (1 + m), ?_, Journal.fits_visit hj _, rfl⟩
  -- the call is recorded first, and then its length is compared with that of the first one
  rw [outcome_evaluate, hf]
  simp only [hlength, hstore]
  rw [if_pos (show ∀ k ∈ j.costLength?, 1 + m = k from hj)]

/-- The same of a sized call, whose answer is the cost vector itself. -/
theorem evaluateSized [Storage α β] {f : CostFunction α} {m : Nat} {x : List β} {cost : Cost β m}
    (hf : f (x.map load) = .ok (cost.toList.map load)) :
    Returns (Journal.Fits (1 + m)) (evaluateSized f m x) (· = cost) := by
  refine Returns.bind (Returns.evaluate hf) ?_
  rintro _ rfl
  rw [Cost.ofList?_toList]
  exact Returns.pure rfl

end Returns

end Sqp
