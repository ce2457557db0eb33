import Mathlib.LinearAlgebra.Matrix.Block
import Mathlib.LinearAlgebra.Matrix.PosDef
import Sqp.Proofs.Scalar.Real
import Sqp.Linear.Mat

/-!
# Exact vectors and matrices

Over the real numbers, a vector is looked at as the function of its entries and a matrix
as a matrix of the mathematical library, so that the algebra of either can be used.

- `get_add`, `get_sub`, `get_nudge` and so on: the entries of what the operations make.
- `dot_eq_dotProduct`, `Mat.get_mulVec_eq`: inner products and matrix products are the
  ones of the mathematical library.
- `Mat.toMatrix`: the view of a matrix; `toMatrix_…` says what the operations do to it.
- `dotProduct_le_euclideanNorm`, `abs_get_le_euclideanNorm`, `infinityNorm_eq_zero`,
  `infinityNorm_scaled`: what is known of the norms.
-/

namespace Sqp

open Matrix

variable {m n k q : Nat}

/-! ## Vectors -/

section Entries

variable {β : Type}

@[simp] theorem get_add [Add β] (x y : Vector β n) (i : Fin n) :
    (x + y).get i = x.get i + y.get i :=
  Vector.getElem_add x y i i.isLt

@[simp] theorem get_sub [Sub β] (x y : Vector β n) (i : Fin n) :
    (x - y).get i = x.get i - y.get i :=
  Vector.getElem_sub x y i i.isLt

@[simp] theorem get_neg [Neg β] (x : Vector β n) (i : Fin n) : (-x).get i = -x.get i :=
  Vector.getElem_neg x i i.isLt

@[simp] theorem get_replicate (a : β) (i : Fin n) : (Vector.replicate n a).get i = a :=
  Vector.getElem_replicate i.isLt

@[simp] theorem get_zip {γ : Type} (x : Vector β n) (y : Vector γ n) (i : Fin n) :
    (Vector.zip x y).get i = (x.get i, y.get i) :=
  Vector.getElem_zip

@[simp] theorem get_push_last (x : Vector β n) (a : β) : (x.push a).get (Fin.last n) = a :=
  Vector.getElem_push_last

@[simp] theorem get_push_castSucc (x : Vector β n) (a : β) (i : Fin n) :
    (x.push a).get i.castSucc = x.get i :=
  Vector.getElem_push_lt i.isLt

/-- The entries of a vector in order. -/
theorem toList_eq_ofFn (x : Vector β n) : x.toList = List.ofFn x.get := by
  apply List.ext_getElem
  · simp
  · intro i h₁ h₂
    rw [Vector.getElem_toList, List.getElem_ofFn]
    rfl

theorem mem_toList_iff (x : Vector β n) (a : β) : a ∈ x.toList ↔ ∃ i, x.get i = a := by
  rw [toList_eq_ofFn, List.mem_ofFn]

theorem toList_injective {x y : Vector β n} (h : x.toList = y.toList) : x = y := by
  rw [toList_eq_ofFn, toList_eq_ofFn] at h
  exact vector_ext fun i => congrFun (List.ofFn_injective h) i

/-- A list of the right length is that of a vector. -/
theorem exists_toList_eq {xs : List β} (h : xs.length = n) : ∃ x : Vector β n, x.toList = xs := by
  subst h
  exact ⟨ofList xs, by simp [ofList]⟩

/-- The entries for slacks come before those for decision variables. -/
theorem toList_eq_append (p : Vector β (q + n)) :
    p.toList = (front p).toList ++ (back p).toList := by
  rw [← Vector.toList_append, front_append_back]

theorem toList_front (p : Vector β (q + n)) : (front p).toList = p.toList.take q := by
  rw [toList_eq_append p, List.take_left' Vector.length_toList]

end Entries

@[simp] theorem get_zeros (i : Fin n) : (zeros ℝ n).get i = 0 := get_replicate 0 i

/-- One entry is increased and the others stay. -/
theorem get_nudge (x : Vector ℝ n) (i j : Fin n) (h : ℝ) :
    (nudge x i h).get j = x.get j + if i = j then h else 0 := by
  unfold nudge
  split_ifs with hij
  · rw [← hij, get_put_self]
  · rw [get_put_of_ne _ _ hij, add_zero]

/-! The operations seen as operations on functions. -/

theorem get_add_eq (x y : Vector ℝ n) : (x + y).get = x.get + y.get := funext (get_add x y)

theorem get_sub_eq (x y : Vector ℝ n) : (x - y).get = x.get - y.get := funext (get_sub x y)

theorem get_neg_eq (x : Vector ℝ n) : (-x).get = -x.get := funext (get_neg x)

theorem get_scaled_eq (c : ℝ) (x : Vector ℝ n) : (scaled c x).get = c • x.get :=
  funext (get_scaled c x)

/-- Multiplying entry by entry is multiplying with a diagonal matrix. -/
theorem get_mulEach_eq (d x : Vector ℝ n) : (mulEach d x).get = diagonal d.get *ᵥ x.get :=
  funext fun i => by rw [get_mulEach, mulVec_diagonal]

theorem get_zeros_eq : (zeros ℝ n).get = 0 := funext get_zeros

/-- Without rounding, the order of a sum does not matter. -/
theorem foldl_add_eq_sum (x : Vector ℝ n) : x.foldl (· + ·) 0 = ∑ i, x.get i := by
  rw [← Vector.foldl_toList, toList_eq_ofFn, ← List.sum_ofFn, List.sum_eq_foldl]

/-- The inner product is that of the mathematical library. -/
theorem dot_eq_dotProduct (x y : Vector ℝ n) : dot x y = x.get ⬝ᵥ y.get := by
  rw [dot, foldl_add_eq_sum]
  exact Finset.sum_congr rfl fun i _ => get_zipWith _ x y i

/-- The norm of a single entry, which is its magnitude, is no special case. -/
theorem euclideanNorm_eq_sqrt (x : Vector ℝ n) :
    euclideanNorm x = Real.sqrt (x.get ⬝ᵥ x.get) := by
  unfold euclideanNorm
  split
  · rename_i a ha
    have hsum : x.get ⬝ᵥ x.get = (x.toList.map fun b => b * b).sum := by
      rw [toList_eq_ofFn, List.map_ofFn, List.sum_ofFn]
      rfl
    rw [hsum, ha, List.map_singleton, List.sum_singleton, Real.sqrt_mul_self_eq_abs,
      Scalar.abs_real]
  · rw [dot_eq_dotProduct, Scalar.sqrt_real]

theorem euclideanNorm_nonneg (x : Vector ℝ n) : 0 ≤ euclideanNorm x := by
  rw [euclideanNorm_eq_sqrt]
  exact Real.sqrt_nonneg _

/-- A norm squared is the inner product of the vector with itself. -/
theorem euclideanNorm_mul_self (x : Vector ℝ n) :
    euclideanNorm x * euclideanNorm x = x.get ⬝ᵥ x.get := by
  rw [euclideanNorm_eq_sqrt]
  exact Real.mul_self_sqrt (Finset.sum_nonneg fun i _ => mul_self_nonneg _)

/-- An inner product does not exceed the product of the norms. -/
theorem dotProduct_le_euclideanNorm (x y : Vector ℝ n) :
    x.get ⬝ᵥ y.get ≤ euclideanNorm x * euclideanNorm y := by
  have hschwarz := Real.sum_mul_le_sqrt_mul_sqrt Finset.univ x.get y.get
  simp only [pow_two] at hschwarz
  rw [euclideanNorm_eq_sqrt, euclideanNorm_eq_sqrt]
  exact hschwarz

/-- No entry is larger than the Euclidean norm. -/
theorem abs_get_le_euclideanNorm (x : Vector ℝ n) (i : Fin n) : |x.get i| ≤ euclideanNorm x := by
  rw [euclideanNorm_eq_sqrt]
  refine Real.abs_le_sqrt ?_
  rw [pow_two]
  exact Finset.single_le_sum (f := fun j => x.get j * x.get j)
    (fun j _ => mul_self_nonneg _) (Finset.mem_univ i)

theorem euclideanNorm_eq_zero {x : Vector ℝ n} (h : ∀ i, x.get i = 0) : euclideanNorm x = 0 := by
  rw [euclideanNorm_eq_sqrt, dotProduct_self_eq_zero.mpr (funext h), Real.sqrt_zero]

/-- A vector of zeros, such as one without entries, has norm zero. -/
theorem infinityNorm_eq_zero {x : Vector ℝ n} (h : ∀ i, x.get i = 0) : infinityNorm x = 0 := by
  have hmem : ∀ a ∈ x.toList, a = 0 := by
    intro a ha
    obtain ⟨i, rfl⟩ := (mem_toList_iff x a).mp ha
    exact h i
  -- the largest magnitude so far starts at zero and stays there
  have hfold : ∀ l : List ℝ, (∀ a ∈ l, a = 0) →
      l.foldl (fun largest b => Scalar.greater largest (Scalar.abs b)) 0 = 0 := by
    intro l
    induction l with
    | nil => exact fun _ => rfl
    | cons a l ih =>
      intro hl
      rw [List.foldl_cons, hl a List.mem_cons_self, Scalar.abs_real, abs_zero,
        Scalar.greater_eq_max, max_self]
      exact ih fun b hb => hl b (List.mem_cons_of_mem _ hb)
  unfold infinityNorm
  split
  · rfl
  · rename_i a rest hlist
    rw [hlist] at hmem
    rw [hmem a List.mem_cons_self, Scalar.abs_real, abs_zero]
    exact hfold rest fun b hb => hmem b (List.mem_cons_of_mem _ hb)

theorem infinityNorm_single (x : Vector ℝ 1) : infinityNorm x = |x.get 0| := by
  unfold infinityNorm
  rw [toList_eq_ofFn]
  rfl

/-- A norm has the unit of its entries. -/
theorem infinityNorm_scaled {c : ℝ} (hc : 0 ≤ c) (x : Vector ℝ n) :
    infinityNorm (scaled c x) = c * infinityNorm x := by
  -- generalised to any largest magnitude so far, which the factor multiplies as well
  have hfold : ∀ (l : List ℝ) (largest : ℝ),
      (l.map (c * ·)).foldl (fun largest b => Scalar.greater largest (Scalar.abs b)) (c * largest) =
        c * l.foldl (fun largest b => Scalar.greater largest (Scalar.abs b)) largest := by
    intro l
    induction l with
    | nil => exact fun _ => rfl
    | cons a l ih =>
      intro largest
      rw [List.map_cons, List.foldl_cons, List.foldl_cons, ← ih, Scalar.greater_eq_max,
        Scalar.greater_eq_max, Scalar.abs_real, Scalar.abs_real, abs_mul, abs_of_nonneg hc,
        mul_max_of_nonneg _ _ hc]
  have hlist : (scaled c x).toList = x.toList.map (c * ·) := Vector.toList_map
  unfold infinityNorm
  rw [hlist]
  cases x.toList with
  | nil => exact (mul_zero c).symm
  | cons a rest =>
    show (rest.map (c * ·)).foldl _ |c * a| = _
    rw [abs_mul, abs_of_nonneg hc]
    exact hfold rest |a|

/-! ## Loops over indices -/

/-- A sum over selected indices. -/
theorem sum_filter_eq_sum_ite (p : Fin n → Bool) (g : Fin n → ℝ) :
    (((List.finRange n).filter p).map g).sum = ∑ j, if p j = true then g j else 0 := by
  rw [Fin.sum_univ_def]
  induction List.finRange n with
  | nil => rfl
  | cons j l ih =>
    cases hj : p j <;> simp [hj, ih]

/-- Without rounding, a fused product and sum is the sum of the products. -/
theorem fusedDot_eq_sum (l : List (Fin n)) (x y : Vector ℝ n) :
    fusedDot l x y = (l.map fun i => x.get i * y.get i).sum := by
  -- generalised to any sum so far
  have hfold : ∀ (l : List (Fin n)) (c : ℝ),
      l.foldl (fun s i => Scalar.mulAdd (x.get i) (y.get i) s) c =
        c + (l.map fun i => x.get i * y.get i).sum := by
    intro l
    induction l with
    | nil => simp
    | cons i l ih =>
      intro c
      rw [List.foldl_cons, ih, Scalar.mulAdd_real, List.map_cons, List.sum_cons]
      ring
  rw [fusedDot, hfold, zero_add]

/-- A partial inner product is the whole one if the other entries of a factor are zero. -/
theorem fusedDot_filter {p : Fin n → Bool} {x : Vector ℝ n} (y : Vector ℝ n)
    (hx : ∀ j, p j = false → x.get j = 0) :
    fusedDot ((List.finRange n).filter p) x y = x.get ⬝ᵥ y.get := by
  rw [fusedDot_eq_sum, sum_filter_eq_sum_ite]
  refine Finset.sum_congr rfl fun j _ => ?_
  cases hj : p j with
  | true => rw [if_pos rfl]
  | false => rw [if_neg Bool.false_ne_true, hx j hj, zero_mul]

/-- A loop over all indices, one index later. -/
theorem take_finRange_succ {t : Nat} (ht : t < n) :
    (List.finRange n).take (t + 1) = (List.finRange n).take t ++ [⟨t, ht⟩] := by
  rw [List.take_add_one, List.getElem?_eq_getElem (by simpa using ht), List.getElem_finRange]
  rfl

/-! ## Matrices -/

theorem mulVec_eq_sum (a : Matrix (Fin m) (Fin n) ℝ) (x : Fin n → ℝ) (i : Fin m) :
    (a *ᵥ x) i = ∑ j, a i j * x j := rfl

theorem dotProduct_eq_sum (x y : Fin n → ℝ) : x ⬝ᵥ y = ∑ j, x j * y j := rfl

namespace Mat

/-- A matrix as a matrix of the mathematical library. -/
def toMatrix (a : Mat ℝ m n) : Matrix (Fin m) (Fin n) ℝ := Matrix.of a.entry

@[simp] theorem toMatrix_apply (a : Mat ℝ m n) (i : Fin m) (j : Fin n) :
    a.toMatrix i j = a.entry i j := rfl

@[simp] theorem toMatrix_ofFn (f : Fin m → Fin n → ℝ) : (ofFn f).toMatrix = Matrix.of f := by
  ext i j
  exact entry_ofFn f i j

@[simp] theorem toMatrix_transpose (a : Mat ℝ m n) : a.transpose.toMatrix = a.toMatrixᵀ := by
  ext i j
  exact entry_transpose a j i

/-- The product with a vector is that of the mathematical library. -/
theorem get_mulVec_eq (a : Mat ℝ m n) (x : Vector ℝ n) :
    (a.mulVec x).get = a.toMatrix *ᵥ x.get := by
  funext i
  rw [get_mulVec, dot_eq_dotProduct]
  rfl

/-- A shift of one entry moves a product by the column of that entry. -/
theorem get_mulVec_nudge (a : Mat ℝ m n) (x : Vector ℝ n) (j : Fin n) (h : ℝ) (i : Fin m) :
    (a.mulVec (nudge x j h)).get i = (a.mulVec x).get i + h * a.entry i j := by
  have hnudge : (nudge x j h).get = x.get + Pi.single j h := by
    funext k
    rw [get_nudge, Pi.add_apply, Pi.single_apply]
    simp only [eq_comm]
  rw [get_mulVec_eq, get_mulVec_eq, hnudge, Matrix.mulVec_add, Matrix.mulVec_single,
    Pi.add_apply]
  congr 1
  exact mul_comm _ _

@[simp] theorem toMatrix_mul (a : Mat ℝ m n) (b : Mat ℝ n k) :
    (a.mul b).toMatrix = a.toMatrix * b.toMatrix := by
  ext i j
  rw [toMatrix_apply, entry, mul, get_map, get_map, dot_eq_dotProduct]
  refine Finset.sum_congr rfl fun l _ => ?_
  congr 1
  exact entry_transpose b l j

@[simp] theorem toMatrix_add (a b : Mat ℝ m n) : (a + b).toMatrix = a.toMatrix + b.toMatrix := by
  ext i j
  rw [toMatrix_apply, entry, get_add, get_add]
  rfl

@[simp] theorem toMatrix_diagonal (d : Vector ℝ n) :
    (diagonal d).toMatrix = Matrix.diagonal d.get := by
  ext i j
  rw [toMatrix_apply, entry_diagonal, Matrix.diagonal_apply]

@[simp] theorem toMatrix_identity : (identity ℝ n).toMatrix = 1 := by
  rw [identity, toMatrix_diagonal, ← Matrix.diagonal_one]
  congr 1
  funext i
  exact get_replicate 1 i

theorem toMatrix_mapEntries_mul (c : ℝ) (a : Mat ℝ m n) :
    (a.mapEntries (c * ·)).toMatrix = c • a.toMatrix := by
  ext i j
  rw [toMatrix_apply, entry, mapEntries, get_map, get_map]
  rfl

end Mat

end Sqp
