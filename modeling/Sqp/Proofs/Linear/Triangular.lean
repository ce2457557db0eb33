import Sqp.Proofs.Linear.Entries
import Sqp.Linear.Triangular

/-!
# Substitution in exact arithmetic

- `foldl_solves`: a loop that finds one unknown after the other, each from those found
  before it, ends with a vector that satisfies all the equations.
- `Triangular.mulVec_solveLower`, `Triangular.mulVec_solveUpper`: so substitution solves a
  triangular system whose diagonal has no zero.
-/

namespace Sqp

open Matrix

variable {n : Nat}

/-! ## One unknown after the other -/

/-- The unknowns are found in the order of the list `l`, the one at `i` from the equation
`w i i * x i + ∑ w i j * x j = c i` over the `j` in `before i`, which come earlier in the
list. Other entries stay as they are. -/
theorem foldl_solves {w : Fin n → Fin n → ℝ} {c : Fin n → ℝ} (before : Fin n → List (Fin n))
    {r : Fin n → Fin n → Prop} (hr : ∀ i j, r i j → ¬ r j i)
    {step : Vector ℝ n → Fin n → Vector ℝ n}
    (hstep : ∀ x i, step x i =
      put x i ((c i - ((before i).map fun j => w i j * x.get j).sum) / w i i)) (x₀ : Vector ℝ n)
    (l : List (Fin n)) (hl : l.Pairwise r) (hbefore : ∀ i ∈ l, ∀ j ∈ before i, j ∈ l ∧ r j i)
    (hw : ∀ i ∈ l, w i i ≠ 0) :
    (∀ i ∈ l, w i i * (l.foldl step x₀).get i +
      ((before i).map fun j => w i j * (l.foldl step x₀).get j).sum = c i) ∧
    ∀ i ∉ l, (l.foldl step x₀).get i = x₀.get i := by
  -- from the end of the list: the last unknown appears in no equation before its own
  induction l using List.reverseRecOn with
  | nil => simp
  | append_singleton l k ih =>
    obtain ⟨hl, -, hlk⟩ := List.pairwise_append.mp hl
    have hk : ∀ i ∈ l, r i k := fun i hi => hlk i hi k (List.mem_singleton_self k)
    have hne : ∀ i ∈ l, k ≠ i := by
      rintro i hi rfl
      exact hr _ _ (hk k hi) (hk k hi)
    have hinit : ∀ i ∈ l, ∀ j ∈ before i, j ∈ l ∧ r j i := by
      intro i hi j hj
      obtain ⟨hmem, hrel⟩ := hbefore i (List.mem_append_left _ hi) j hj
      rcases List.mem_append.mp hmem with hmem | hmem
      · exact ⟨hmem, hrel⟩
      · rw [List.mem_singleton.mp hmem] at hrel
        exact absurd (hk i hi) (hr _ _ hrel)
    obtain ⟨hsolved, hkept⟩ := ih hl hinit fun i hi => hw i (List.mem_append_left _ hi)
    have hother : ∀ i, k ≠ i →
        ((l ++ [k]).foldl step x₀).get i = (l.foldl step x₀).get i := by
      intro i hi
      rw [List.foldl_append, List.foldl_cons, List.foldl_nil, hstep, get_put_of_ne _ _ hi]
    refine ⟨fun i hi => ?_, fun i hi => ?_⟩
    · rcases List.mem_append.mp hi with hi | hi
      · -- an equation of the loop so far does not involve the new unknown
        rw [hother i (hne i hi), List.map_congr_left fun j hj => by
          rw [hother j (hne j (hinit i hi j hj).1)]]
        exact hsolved i hi
      · rw [List.mem_singleton.mp hi]
        have hearlier : ∀ j ∈ before k, k ≠ j := by
          rintro j hj rfl
          have hrel := (hbefore k (List.mem_append_right _ (List.mem_singleton_self k)) k hj).2
          exact hr _ _ hrel hrel
        rw [List.map_congr_left fun j hj => by rw [hother j (hearlier j hj)], List.foldl_append,
          List.foldl_cons, List.foldl_nil, hstep, get_put_self,
          mul_div_cancel₀ _ (hw k (List.mem_append_right _ (List.mem_singleton_self k))),
          sub_add_cancel]
    · rw [List.mem_append, not_or, List.mem_singleton] at hi
      rw [hother i (Ne.symm hi.2), hkept i hi.1]

namespace Triangular

/-! ## Triangular systems -/

/-- What the substitution in one row puts in the place of its unknown. -/
theorem substitute_eq (a : Mat ℝ n n) (b : Vector ℝ n) (found : List (Fin n)) (x : Vector ℝ n)
    (i : Fin n) :
    substitute a b found x i =
      put x i ((b.get i - (found.map fun j => a.entry i j * x.get j).sum) / a.entry i i) := by
  have hrest : ∀ (l : List (Fin n)) (c : ℝ),
      l.foldl (fun r j => Scalar.mulAdd (-(x.get j)) (a.entry i j) r) c =
        c - (l.map fun j => a.entry i j * x.get j).sum := by
    intro l
    induction l with
    | nil => simp
    | cons j l ih =>
      intro c
      rw [List.foldl_cons, ih, Scalar.mulAdd_real, List.map_cons, List.sum_cons]
      ring
  rw [substitute, hrest, mul_one_div]

/-- A row of a triangular system. -/
theorem mulVec_apply_of_zero {a : Matrix (Fin n) (Fin n) ℝ} {p : Fin n → Bool} {i : Fin n}
    (hp : p i = false) (ha : ∀ j, p j = false → j ≠ i → a i j = 0) (x : Fin n → ℝ) :
    (a *ᵥ x) i = a i i * x i + ∑ j, if p j = true then a i j * x j else 0 := by
  have hterm : ∀ j, a i j * x j =
      (if i = j then a i j * x j else 0) + if p j = true then a i j * x j else 0 := by
    intro j
    by_cases hij : i = j
    · subst hij
      simp [hp]
    · cases hpj : p j with
      | true => simp [hij]
      | false => simp [hij, ha j hpj (Ne.symm hij)]
  simp only [mulVec, dotProduct]
  rw [Finset.sum_congr rfl fun j _ => hterm j, Finset.sum_add_distrib, Finset.sum_ite_eq]
  simp

theorem mulVec_solveLower {l : Mat ℝ n n} (hl : l.toMatrix.IsLowerTriangular)
    (hdiag : ∀ i, l.entry i i ≠ 0) (b : Vector ℝ n) :
    l.toMatrix *ᵥ (solveLower l b).get = b.get := by
  have hsolved := (foldl_solves (fun i => (List.finRange n).filter fun j => decide (j < i))
    (fun _ _ => lt_asymm) (fun x i => substitute_eq l b _ x i) (zeros ℝ n) (List.finRange n)
    (List.pairwise_lt_finRange n) (fun i _ j hj => by simpa using hj) fun i _ => hdiag i).1
  funext i
  rw [mulVec_apply_of_zero (p := fun j => decide (j < i)) (by simp) (fun j hj hne => hl ?_),
    ← sum_filter_eq_sum_ite]
  · exact hsolved i (List.mem_finRange i)
  · show i < j
    exact lt_of_le_of_ne (not_lt.mp (of_decide_eq_false hj)) (Ne.symm hne)

theorem mulVec_solveUpper {u : Mat ℝ n n} (hu : u.toMatrix.IsUpperTriangular)
    (hdiag : ∀ i, u.entry i i ≠ 0) (b : Vector ℝ n) :
    u.toMatrix *ᵥ (solveUpper u b).get = b.get := by
  have hsolved := (foldl_solves (fun i => (List.finRange n).reverse.filter fun j => decide (i < j))
    (fun _ _ => lt_asymm) (fun x i => substitute_eq u b _ x i) (zeros ℝ n) (List.finRange n).reverse
    (List.pairwise_reverse.mpr (List.pairwise_lt_finRange n)) (fun i _ j hj => by simpa using hj)
    fun i _ => hdiag i).1
  funext i
  rw [mulVec_apply_of_zero (p := fun j => decide (i < j)) (by simp) (fun j hj hne => hu ?_),
    ← sum_filter_eq_sum_ite]
  · have hi := hsolved i (List.mem_reverse.mpr (List.mem_finRange i))
    rwa [List.filter_reverse, List.map_reverse, List.sum_reverse] at hi
  · exact lt_of_le_of_ne (not_lt.mp (of_decide_eq_false hj)) hne

end Triangular

end Sqp
