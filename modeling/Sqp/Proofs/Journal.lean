import Mathlib.Tactic.Common
import Sqp.Journal
import Sqp.Linear.Vec

/-!
# Reasoning about recorded computations

A recorded computation maps a journal to an answer, or to a failure, and to the journal
it leaves behind.

- `outcome`: this map; `outcome_bind` and its companions compute it along a `do` block.
- `Confined P c c' Q`: the computations `c` and `c'` behave alike, they visit no decision
  vector outside `P`, and an answer satisfies `Q`. Where `c` and `c'` are one computation
  run with two cost functions, this says that the cost functions matter on `P` only, so
  it also covers calls that fail and are not in the journal.
- `Ensures c Q`: the special case of one computation and no restriction on its visits,
  that is, an answer satisfies `Q`.

The rules follow the constructs of `do` blocks: `Confined.bind`, `Confined.pure`,
`Confined.ite`, `Confined.tabulateM` and so on; `Confined.evaluate` is the only one in
which something is visited.
-/

namespace Sqp

variable {α β γ δ : Type}

/-- A sequence of two computations that may fail gives an answer iff both do. -/
theorem except_bind_eq_ok_iff {x : Except Error γ} {k : γ → Except Error δ} {b : δ} :
    (x >>= k) = .ok b ↔ ∃ a, x = .ok a ∧ k a = .ok b := by
  cases x with
  | error cause =>
    constructor
    · intro h
      cases h
    · rintro ⟨_, h, _⟩
      cases h
  | ok a =>
    constructor
    · intro h
      exact ⟨a, rfl, h⟩
    · rintro ⟨_, h, hk⟩
      cases h
      exact hk

/-- A sequence of two computations fails where one of them does. -/
theorem except_bind_eq_error_iff {x : Except Error γ} {k : γ → Except Error δ} {cause : Error} :
    (x >>= k) = .error cause ↔ x = .error cause ∨ ∃ a, x = .ok a ∧ k a = .error cause := by
  cases x with
  | error cause' =>
    constructor
    · intro h
      cases h
      exact .inl rfl
    · rintro (h | ⟨_, h, _⟩)
      · cases h
        rfl
      · cases h
  | ok a =>
    constructor
    · intro h
      exact .inr ⟨a, rfl, h⟩
    · rintro (h | ⟨_, h, hk⟩)
      · cases h
      · cases h
        exact hk

/-- What holds of the entries of a vector and of an entry added at its end. -/
theorem forall_get_push {n : Nat} {Q : Fin (n + 1) → γ → Prop} {init : Vector γ n} {last : γ}
    (hinit : ∀ i : Fin n, Q i.castSucc (init.get i)) (hlast : Q (Fin.last n) last) :
    ∀ i, Q i ((init.push last).get i) := by
  intro i
  refine Fin.lastCases ?_ (fun i => ?_) i
  · have hget : (init.push last).get (Fin.last n) = last := Vector.getElem_push_last
    rwa [hget]
  · have hget : (init.push last).get i.castSucc = init.get i := Vector.getElem_push_lt i.isLt
    rw [hget]
    exact hinit i

/-! ## Outcomes -/

/-- The answer or failure of a computation that starts with the journal `j`, and the
journal afterwards. -/
def outcome (c : Recorded α γ) (j : Journal α) : Except Error γ × Journal α := c.run.run j

@[simp] theorem outcome_pure (a : γ) (j : Journal α) :
    outcome (pure a : Recorded α γ) j = (.ok a, j) := rfl

@[simp] theorem outcome_throw (cause : Error) (j : Journal α) :
    outcome (throw cause : Recorded α γ) j = (.error cause, j) := rfl

@[simp] theorem outcome_get (j : Journal α) :
    outcome (get : Recorded α (Journal α)) j = (.ok j, j) := rfl

@[simp] theorem outcome_modify (f : Journal α → Journal α) (j : Journal α) :
    outcome (modify f : Recorded α Unit) j = (.ok (), f j) := rfl

@[simp] theorem outcome_report (event : Event α) (j : Journal α) :
    outcome (report event) j = (.ok (), { j with events := j.events.push event }) := rfl

@[simp] theorem outcome_emit (iteration : Nat) (w : Warning) (j : Journal α) :
    outcome (emit iteration w) j = (.ok (), { j with emitted := j.emitted.push (iteration, w) }) :=
  rfl

@[simp] theorem outcome_recorded (x : Except Error γ) (j : Journal α) :
    outcome (recorded x) j = (x, j) := by
  cases x <;> rfl

/-- A sequence passes the journal of its first part on to its second, and ends with the first
failure. -/
theorem outcome_bind (c : Recorded α γ) (k : γ → Recorded α δ) (j : Journal α) :
    outcome (c >>= k) j = match outcome c j with
      | (.ok a, j') => outcome (k a) j'
      | (.error cause, j') => (.error cause, j') := by
  show StateT.run (ExceptT.run (c >>= k)) j = _
  rw [ExceptT.run_bind, StateT.run_bind]
  unfold outcome
  rcases StateT.run (ExceptT.run c) j with ⟨_ | a, j'⟩ <;> rfl

/-- A sequence of two computations gives an answer iff both do. -/
theorem outcome_bind_eq_ok_iff {c : Recorded α γ} {k : γ → Recorded α δ} {j j' : Journal α}
    {b : δ} :
    outcome (c >>= k) j = (.ok b, j') ↔
      ∃ a j₁, outcome c j = (.ok a, j₁) ∧ outcome (k a) j₁ = (.ok b, j') := by
  rw [outcome_bind]
  rcases outcome c j with ⟨cause | a, j₁⟩
  · simp
  · constructor
    · intro h
      exact ⟨a, j₁, rfl, h⟩
    · rintro ⟨_, _, h, hk⟩
      cases h
      exact hk

/-- The journal after a call of the cost function at `x` that gave `values` values. -/
def Journal.visit (j : Journal α) (x : List α) (values : Nat) : Journal α :=
  { j with visited := j.visited.push x, costLength? := j.costLength?.or (some values) }

/-- What a call of the cost function amounts to. -/
theorem outcome_evaluate [Storage α β] (f : CostFunction α) (x : List β) (j : Journal α) :
    outcome (evaluate f x) j = match f (x.map load) with
      | .error cause => (.error cause, j)
      | .ok values =>
        (if ∀ m ∈ j.costLength?, values.length = m then .ok (values.map store)
          else .error (.precondition (.costLength values.length (j.costLength?.getD 0))),
          j.visit (x.map load) values.length) := by
  unfold evaluate
  rw [outcome_bind, outcome_recorded]
  cases f (x.map load) with
  | error cause => rfl
  | ok values =>
    simp only [outcome_bind, outcome_get, outcome_modify]
    cases hj : j.costLength? with
    | none => simp [Journal.visit, hj]
    | some m =>
      by_cases h : values.length = m <;> simp [Journal.visit, h, hj]

/-! ## Confinement -/

/-- `c` and `c'` behave alike, visit only decision vectors in `P`, and have only answers
in `Q`. -/
structure Confined (P : List α → Prop) (c c' : Recorded α γ) (Q : γ → Prop) : Prop where
  same : ∀ j, outcome c j = outcome c' j
  visited : ∀ j, ∀ x ∈ (outcome c j).2.visited, x ∈ j.visited ∨ P x
  answer : ∀ j a, (outcome c j).1 = .ok a → Q a

/-- Whatever the journal, an answer of `c` is in `Q`. -/
abbrev Ensures (c : Recorded α γ) (Q : γ → Prop) : Prop := Confined (fun _ => True) c c Q

/-- For a single computation that may visit everything, only the answers matter. -/
theorem ensures_iff {c : Recorded α γ} {Q : γ → Prop} :
    Ensures c Q ↔ ∀ j a, (outcome c j).1 = .ok a → Q a :=
  ⟨fun h => h.answer, fun h => ⟨fun _ => rfl, fun _ _ _ => .inr trivial, h⟩⟩

/-- Nothing is said of the answers. -/
theorem Ensures.any (c : Recorded α γ) : Ensures c fun _ => True :=
  ensures_iff.mpr fun _ _ _ => trivial

/-- What follows a computation matters at its answers only. -/
theorem Ensures.bind_congr {c : Recorded α γ} {Q : γ → Prop} (h : Ensures c Q)
    {k k' : γ → Recorded α δ} (hk : ∀ a, Q a → k a = k' a) : c >>= k = c >>= k' := by
  funext j
  show outcome (c >>= k) j = outcome (c >>= k') j
  rw [outcome_bind, outcome_bind]
  rcases hc : outcome c j with ⟨_ | a, j'⟩
  · rfl
  · exact congrArg (outcome · j') (hk a (h.answer j a (by rw [hc])))

namespace Confined

variable {P : List α → Prop} {c c' : Recorded α γ} {Q : γ → Prop}

/-- Confinement forgotten: what is known of the answers. -/
theorem ensures (h : Confined P c c' Q) : Ensures c Q := ensures_iff.mpr h.answer

theorem of_outcome (h : Confined P c c' Q) {j j' : Journal α} {a : γ}
    (ha : outcome c j = (.ok a, j')) : Q a :=
  h.answer j a (by rw [ha])

theorem mono {Q' : γ → Prop} (h : Confined P c c' Q) (hQ : ∀ a, Q a → Q' a) :
    Confined P c c' Q' :=
  ⟨h.same, h.visited, fun j a ha => hQ a (h.answer j a ha)⟩

/-- What is known of the answers for another reason may be added to the postcondition. -/
theorem and_ensures {R : γ → Prop} (h : Confined P c c' Q) (hR : Ensures c R) :
    Confined P c c' fun a => Q a ∧ R a :=
  ⟨h.same, h.visited, fun j a ha => ⟨h.answer j a ha, hR.answer j a ha⟩⟩

theorem pure {a : γ} (h : Q a) : Confined P (pure a) (pure a) Q where
  same _ := rfl
  visited _ _ hx := .inl hx
  answer _ _ ha := by cases ha; exact h

theorem throw (cause : Error) : Confined P (throw cause) (throw cause) Q where
  same _ := rfl
  visited _ _ hx := .inl hx
  answer _ _ ha := by cases ha

theorem report (event : Event α) : Confined P (report event) (report event) fun _ => True where
  same _ := rfl
  visited _ _ hx := .inl hx
  answer _ _ _ := trivial

theorem emit (iteration : Nat) (w : Warning) :
    Confined P (emit iteration w) (emit iteration w) fun _ => True where
  same _ := rfl
  visited _ _ hx := .inl hx
  answer _ _ _ := trivial

theorem recorded {x : Except Error γ} (h : ∀ a, x = .ok a → Q a) :
    Confined P (recorded x) (recorded x) Q where
  same _ := rfl
  visited j y hy := .inl (by rwa [outcome_recorded] at hy)
  answer j a ha := h a (by rwa [outcome_recorded] at ha)

/-- Two computations in sequence are confined to what both are confined to. The second one starts
with an answer of the first, so the postcondition of the first is what it may assume. -/
theorem bind {k k' : γ → Recorded α δ} {R : δ → Prop} (hc : Confined P c c' Q)
    (hk : ∀ a, Q a → Confined P (k a) (k' a) R) : Confined P (c >>= k) (c' >>= k') R := by
  -- each of the three parts splits on the outcome of the first computation
  refine ⟨fun j => ?_, fun j x hx => ?_, fun j b hb => ?_⟩
  · rw [outcome_bind, outcome_bind, ← hc.same j]
    rcases h : outcome c j with ⟨_ | a, j'⟩
    · rfl
    · exact (hk a (hc.answer j a (by rw [h]))).same j'
  · have hv := hc.visited j
    rw [outcome_bind] at hx
    rcases h : outcome c j with ⟨_ | a, j'⟩ <;> rw [h] at hx hv
    · exact hv x hx
    · rcases (hk a (hc.answer j a (by rw [h]))).visited j' x hx with hx | hx
      · exact hv x hx
      · exact .inr hx
  · rw [outcome_bind] at hb
    rcases h : outcome c j with ⟨_ | a, j'⟩ <;> rw [h] at hb
    · cases hb
    · exact (hk a (hc.answer j a (by rw [h]))).answer j' b hb

theorem ite {p : Prop} [Decidable p] {d d' : Recorded α γ} (ht : p → Confined P c c' Q)
    (he : ¬ p → Confined P d d' Q) :
    Confined P (if p then c else d) (if p then c' else d') Q := by
  split_ifs with h
  · exact ht h
  · exact he h

/-- A vector is filled entry by entry, so what holds of each entry holds of all. -/
theorem tabulateM : ∀ {n : Nat} {g g' : Fin n → Recorded α γ} {Q : Fin n → γ → Prop},
    (∀ i, Confined P (g i) (g' i) (Q i)) →
      Confined P (tabulateM g) (tabulateM g') fun v => ∀ i, Q i (v.get i)
  | 0, _, _, _, _ => Confined.pure fun i => i.elim0
  | n + 1, _, _, _, h => by
    refine Confined.bind (tabulateM fun i => h i.castSucc) fun init hinit => ?_
    exact Confined.bind (h (Fin.last n)) fun last hlast =>
      Confined.pure (forall_get_push hinit hlast)

/-- A call of the cost function, at a vector in `P` where the two cost functions agree. -/
theorem evaluate [Storage α β] {f f' : CostFunction α} {x : List β} (hx : P (x.map load))
    (hf : f (x.map load) = f' (x.map load)) :
    Confined P (evaluate f x) (evaluate f' x) fun values =>
      f (x.map load) = .ok (values.map load) := by
  refine ⟨fun j => ?_, fun j y hy => ?_, fun j values h => ?_⟩
  · rw [outcome_evaluate, outcome_evaluate, hf]
  · rw [outcome_evaluate] at hy
    cases h : f (x.map load) with
    | error cause =>
      rw [h] at hy
      exact .inl hy
    | ok values =>
      rw [h] at hy
      rcases Array.mem_push.mp hy with hy | rfl
      · exact .inl hy
      · exact .inr hx
  · rw [outcome_evaluate] at h
    cases hv : f (x.map load) with
    | error cause =>
      rw [hv] at h
      cases h
    | ok values' =>
      rw [hv] at h
      simp only at h
      split_ifs at h
      cases h
      rw [List.map_map, show (load ∘ store : α → α) = id from funext Storage.load_store,
        List.map_id]

end Confined

/-- A cost vector is read off a list that holds exactly its values. -/
theorem Cost.toList_of_ofList? {m : Nat} {values : List β} {c : Cost β m}
    (h : Cost.ofList? values = some c) : values = c.toList := by
  cases values with
  | nil => cases h
  | cons objective rest =>
    rw [Cost.ofList?] at h
    -- only a list of the right length is read
    split_ifs at h
    cases h
    rfl

/-- A call of the cost function that also checks the number of values. -/
theorem Confined.evaluateSized [Storage α β] {P : List α → Prop} {f f' : CostFunction α} {m : Nat}
    {x : List β} (hx : P (x.map load)) (hf : f (x.map load) = f' (x.map load)) :
    Confined P (evaluateSized f m x) (evaluateSized f' m x) fun c =>
      f (x.map load) = .ok (c.toList.map load) := by
  refine Confined.bind (Confined.evaluate hx hf) fun values hvalues => ?_
  cases h : (Cost.ofList? values : Option (Cost β m)) with
  | none => exact Confined.throw _
  | some c =>
    rw [Cost.toList_of_ofList? h] at hvalues
    exact Confined.pure hvalues

end Sqp
