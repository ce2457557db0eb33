import Sqp.Proofs.Linear.Triangular
import Sqp.Linear.Cholesky

/-!
# Cholesky factors in exact arithmetic

- `Cholesky.FactorsBelow`: a matrix whose first rows are those of a factor.
- `Cholesky.square_pos`: for a positive definite matrix the square of the next pivot is
  positive. It is the value of the quadratic form at a vector that is found from the rows
  so far.
- `Cholesky.nextRow_spec`: so the next row exists, and with it one more row is known.
- `Cholesky.factor_spec`: the factor of a positive definite symmetric part is lower
  triangular, and its product with its transpose is that part.
-/

namespace Sqp.Cholesky

open Matrix

variable {n : Nat} {a l : Mat ℝ n n}

/-- The first `t` rows of `l` are those of a lower triangular factor of `a`, and the other
rows are still zero. -/
structure FactorsBelow (a l : Mat ℝ n n) (t : Nat) : Prop where
  zero : ∀ i k, t ≤ i.val → l.entry i k = 0
  lower : ∀ i k, i < k → l.entry i k = 0
  pivot : ∀ i, i.val < t → 0 < l.entry i i
  product : ∀ i k, i.val < t → k.val < t → (l.get i).get ⬝ᵥ (l.get k).get = a.entry i k

/-! ## The square of a pivot -/

/-- The value of a quadratic form with one entry increased by one. -/
theorem dotProduct_mulVec_add_single {m : Matrix (Fin n) (Fin n) ℝ} (hm : m.IsHermitian)
    (w : Fin n → ℝ) (i : Fin n) :
    (w + Pi.single i 1) ⬝ᵥ (m *ᵥ (w + Pi.single i 1)) =
      w ⬝ᵥ (m *ᵥ w) + 2 * (m *ᵥ w) i + m i i := by
  have hsymm : m.IsSymm := by simpa using hm
  have hcross : w ⬝ᵥ (m *ᵥ Pi.single i 1) = (m *ᵥ w) i := by
    rw [dotProduct_mulVec, ← mulVec_transpose, hsymm.eq, dotProduct_single, mul_one]
  rw [mulVec_add, add_dotProduct, dotProduct_add, dotProduct_add, hcross, single_dotProduct,
    single_dotProduct, mulVec_single_one, one_mul, one_mul, col_apply]
  ring

/-- With the rows of a factor so far, every vector that ends where they do is a
combination of them. -/
theorem FactorsBelow.exists_combination {i : Fin n} (hl : FactorsBelow a l i) {x : Fin n → ℝ}
    (hx : ∀ k, i ≤ k → x k = 0) :
    ∃ w : Fin n → ℝ, (∀ k, i ≤ k → w k = 0) ∧ l.toMatrixᵀ *ᵥ w = x := by
  -- the rows that are missing are filled with unit vectors
  let u : Mat ℝ n n := Mat.ofFn fun k j => if j < i then l.entry j k else if j = k then 1 else 0
  have hu : ∀ k j, u.entry k j = if j < i then l.entry j k else if j = k then 1 else 0 :=
    fun k j => Mat.entry_ofFn _ k j
  have hupper : u.toMatrix.IsUpperTriangular := by
    intro k j hjk
    rw [Mat.toMatrix_apply, hu]
    split_ifs with hj heq
    · exact hl.lower j k hjk
    · exact absurd hjk heq.not_lt
    · rfl
  have hdiag : ∀ k, u.entry k k ≠ 0 := by
    intro k
    rw [hu, if_pos rfl]
    split_ifs with hk
    · exact (hl.pivot k hk).ne'
    · exact one_ne_zero
  have hsolved := Triangular.mulVec_solveUpper hupper hdiag (Vector.ofFn x)
  set w := (Triangular.solveUpper u (Vector.ofFn x)).get
  have hrow : ∀ k, (u.toMatrix *ᵥ w) k = x k := fun k => by rw [hsolved, get_ofFn]
  have hw : ∀ k, i ≤ k → w k = 0 := by
    intro k hk
    have hunit : (u.toMatrix *ᵥ w) k = w k := by
      rw [mulVec_eq_sum]
      refine (Finset.sum_eq_single k (fun j _ hjk => ?_)
        fun h => absurd (Finset.mem_univ k) h).trans ?_
      · rw [Mat.toMatrix_apply, hu, if_neg hjk]
        split_ifs with hj
        · rw [hl.lower j k (hj.trans_le hk), zero_mul]
        · rw [zero_mul]
      · rw [Mat.toMatrix_apply, hu, if_neg hk.not_gt, if_pos rfl, one_mul]
    rw [← hunit, hrow, hx k hk]
  refine ⟨w, hw, funext fun k => ?_⟩
  rw [← hrow k, mulVec_eq_sum, mulVec_eq_sum]
  refine Finset.sum_congr rfl fun j _ => ?_
  rw [transpose_apply, Mat.toMatrix_apply, Mat.toMatrix_apply, hu]
  split_ifs with hj hjk
  · rfl
  · rw [hw j (not_lt.mp hj), mul_zero, mul_zero]
  · rw [hw j (not_lt.mp hj), mul_zero, mul_zero]

/-- The square of the next pivot of a positive definite matrix is positive. -/
theorem FactorsBelow.square_pos (ha : a.toMatrix.PosDef) {i : Fin n} (hl : FactorsBelow a l i)
    {x : Fin n → ℝ} (hx : ∀ k, i ≤ k → x k = 0)
    (hrow : ∀ k, k < i → (l.get k).get ⬝ᵥ x = a.entry i k) :
    0 < a.entry i i - x ⬝ᵥ x := by
  obtain ⟨w, hw, hcombination⟩ := hl.exists_combination (x := -x)
    fun k hk => by rw [Pi.neg_apply, hx k hk, neg_zero]
  -- what the rows so far say about the matrix, on vectors that end where they do
  have hproduct : ∀ j, j < i → (a.toMatrix *ᵥ w) j = (l.toMatrix *ᵥ (l.toMatrixᵀ *ᵥ w)) j := by
    intro j hj
    rw [mulVec_mulVec, mulVec_eq_sum, mulVec_eq_sum]
    refine Finset.sum_congr rfl fun k _ => ?_
    rcases lt_or_ge k i with hk | hk
    · congr 1
      exact (hl.product j k hj hk).symm
    · rw [hw k hk, mul_zero, mul_zero]
  have hquadratic : w ⬝ᵥ (a.toMatrix *ᵥ w) = x ⬝ᵥ x := by
    calc w ⬝ᵥ (a.toMatrix *ᵥ w) = w ⬝ᵥ (l.toMatrix *ᵥ (l.toMatrixᵀ *ᵥ w)) := by
          rw [dotProduct_eq_sum, dotProduct_eq_sum]
          refine Finset.sum_congr rfl fun j _ => ?_
          rcases lt_or_ge j i with hj | hj
          · rw [hproduct j hj]
          · rw [hw j hj, zero_mul, zero_mul]
      _ = (l.toMatrixᵀ *ᵥ w) ⬝ᵥ (l.toMatrixᵀ *ᵥ w) := by
          rw [dotProduct_mulVec, ← mulVec_transpose]
      _ = x ⬝ᵥ x := by rw [hcombination, neg_dotProduct, dotProduct_neg, neg_neg]
  have hcross : (a.toMatrix *ᵥ w) i = -(x ⬝ᵥ x) := by
    calc (a.toMatrix *ᵥ w) i = (l.toMatrix *ᵥ x) ⬝ᵥ w := by
          rw [mulVec_eq_sum, dotProduct_eq_sum]
          refine Finset.sum_congr rfl fun k _ => ?_
          rcases lt_or_ge k i with hk | hk
          · congr 1
            exact (hrow k hk).symm
          · rw [hw k hk, mul_zero, mul_zero]
      _ = x ⬝ᵥ (l.toMatrixᵀ *ᵥ w) := by
          rw [dotProduct_mulVec, vecMul_transpose]
      _ = -(x ⬝ᵥ x) := by rw [hcombination, dotProduct_neg]
  have hne : w + Pi.single i 1 ≠ 0 := by
    intro h
    have hi := congrFun h i
    rw [Pi.add_apply, hw i le_rfl, Pi.single_eq_same, zero_add] at hi
    exact one_ne_zero hi
  have hpos := ha.dotProduct_mulVec_pos hne
  rw [star_trivial, dotProduct_mulVec_add_single ha.isHermitian, hquadratic, hcross] at hpos
  have hentry : a.toMatrix i i = a.entry i i := rfl
  linarith

/-! ## The rows -/

/-- The entries of a row left of its diagonal. -/
noncomputable def rowBefore (a l : Mat ℝ n n) (i : Fin n) : Vector ℝ n :=
  ((List.finRange n).filter fun j => decide (j < i)).foldl
    (fun row j => put row j (remainder (a.entry i j) row (l.get j) j * (1 / l.entry j j)))
    (zeros ℝ n)

theorem FactorsBelow.rowBefore_spec {i : Fin n} (hl : FactorsBelow a l i) :
    (∀ k, k < i → (l.get k).get ⬝ᵥ (rowBefore a l i).get = a.entry i k) ∧
      ∀ k, i ≤ k → (rowBefore a l i).get k = 0 := by
  have hstep : ∀ (x : Vector ℝ n) (j : Fin n),
      put x j (remainder (a.entry i j) x (l.get j) j * (1 / l.entry j j)) =
        put x j ((a.entry i j - (((List.finRange n).filter fun k => decide (k < j)).map
          fun k => l.entry j k * x.get k).sum) / l.entry j j) := by
    intro x j
    rw [remainder, fusedDot_eq_sum, mul_one_div]
    simp only [mul_comm (x.get _)]
    rfl
  -- left of the diagonal, a row is found by forward substitution in the rows above it
  obtain ⟨hsolved, hkept⟩ := foldl_solves
    (fun j => (List.finRange n).filter fun k => decide (k < j)) (fun _ _ => lt_asymm) hstep
    (zeros ℝ n) ((List.finRange n).filter fun j => decide (j < i))
    ((List.pairwise_lt_finRange n).filter _)
    (fun j hj k hk => by
      simp only [List.mem_filter, List.mem_finRange, true_and, decide_eq_true_eq] at hj hk ⊢
      exact ⟨hk.trans hj, hk⟩)
    fun j hj => (hl.pivot j (by simpa using hj)).ne'
  constructor
  · intro k hk
    refine Eq.trans (Triangular.mulVec_apply_of_zero (a := l.toMatrix)
      (p := fun j => decide (j < k)) (by simp) (fun j hj hne => ?_) _) ?_
    · exact hl.lower k j (lt_of_le_of_ne (not_lt.mp (of_decide_eq_false hj)) (Ne.symm hne))
    · rw [← sum_filter_eq_sum_ite]
      exact hsolved k (by simpa using hk)
  · intro k hk
    exact (hkept k (by simpa using hk)).trans (get_zeros k)

/-- A row that fits the rows above it is one more row of the factor. -/
theorem FactorsBelow.put {i : Fin n} (hl : FactorsBelow a l i) {row : Vector ℝ n}
    (hsymm : ∀ k, a.entry k i = a.entry i k) (hzero : ∀ k, i < k → row.get k = 0)
    (hpivot : 0 < row.get i) (habove : ∀ k, k < i → (l.get k).get ⬝ᵥ row.get = a.entry i k)
    (hself : row.get ⬝ᵥ row.get = a.entry i i) : FactorsBelow a (put l i row) (i + 1) := by
  have hother : ∀ k, i ≠ k → (Sqp.put l i row).get k = l.get k := fun k hk => get_put_of_ne _ _ hk
  refine ⟨fun k j hk => ?_, fun k j hkj => ?_, fun k hk => ?_, fun k j hk hj => ?_⟩
  · have hik : i ≠ k := fun h => by subst h; omega
    rw [Mat.entry, hother k hik]
    exact hl.zero k j (by omega)
  · rw [Mat.entry]
    by_cases hik : i = k
    · subst hik
      rw [get_put_self, hzero j hkj]
    · rw [hother k hik]
      exact hl.lower k j hkj
  · rw [Mat.entry]
    by_cases hik : i = k
    · subst hik
      rwa [get_put_self]
    · rw [hother k hik]
      exact hl.pivot k (by omega)
  · -- either of the two rows can be the new one
    by_cases hik : i = k <;> by_cases hij : i = j
    · subst hik hij
      rw [get_put_self, hself]
    · subst hik
      rw [get_put_self, hother j hij, dotProduct_comm, habove j (by omega)]
    · subst hij
      rw [get_put_self, hother k hik, habove k (by omega), hsymm]
    · rw [hother k hik, hother j hij]
      exact hl.product k j (by omega) (by omega)

/-- The next row exists, and with it one more row of the factor is known. -/
theorem FactorsBelow.nextRow_spec (ha : a.toMatrix.PosDef) {i : Fin n} (hl : FactorsBelow a l i) :
    ∃ row, nextRow a l i = some row ∧ FactorsBelow a (Sqp.put l i row) (i + 1) := by
  obtain ⟨hrow, hzero⟩ := hl.rowBefore_spec
  have hsquare := hl.square_pos ha hzero hrow
  have hremainder : remainder (a.entry i i) (rowBefore a l i) (rowBefore a l i) i =
      a.entry i i - (rowBefore a l i).get ⬝ᵥ (rowBefore a l i).get := by
    rw [remainder, fusedDot_filter _ fun j hj => hzero j (not_lt.mp (of_decide_eq_false hj))]
  set x := rowBefore a l i
  -- what the row lacks of the diagonal entry is positive, so it has a root
  set pivot := Real.sqrt (a.entry i i - x.get ⬝ᵥ x.get) with hpivot
  have hget : (Sqp.put x i pivot).get = x.get + Pi.single i pivot := by
    funext k
    by_cases hk : i = k
    · subst hk
      rw [get_put_self, Pi.add_apply, hzero i le_rfl, Pi.single_eq_same, zero_add]
    · rw [get_put_of_ne _ _ hk, Pi.add_apply, Pi.single_eq_of_ne (Ne.symm hk), add_zero]
  refine ⟨Sqp.put x i pivot, ?_, hl.put (fun k => ?_) (fun k hk => ?_) ?_ (fun k hk => ?_) ?_⟩
  · show (if 0 < remainder (a.entry i i) x x i then
      some (Sqp.put x i (Scalar.sqrt (remainder (a.entry i i) x x i))) else none) = _
    rw [hremainder, if_pos hsquare, Scalar.sqrt_real]
  · simpa using ha.isHermitian.apply i k
  · rw [get_put_of_ne _ _ hk.ne, hzero k hk.le]
  · rw [get_put_self]
    exact Real.sqrt_pos.mpr hsquare
  · have hik : (l.get k).get i = 0 := hl.lower k i hk
    rw [hget, dotProduct_add, dotProduct_single, hik, zero_mul, add_zero, hrow k hk]
  · rw [hget, add_dotProduct, dotProduct_add, dotProduct_add, dotProduct_single, single_dotProduct,
      single_dotProduct, hzero i le_rfl, Pi.single_eq_same, hpivot, Real.mul_self_sqrt hsquare.le]
    ring

/-! ## The factor -/

/-- The loop over the rows succeeds as far as it goes. -/
theorem exists_factorsBelow (ha : a.toMatrix.PosDef) :
    ∀ t ≤ n, ∃ l, ((List.finRange n).take t).foldlM
        (fun (l : Mat ℝ n n) i => (nextRow a l i).map fun row => Sqp.put l i row)
        (Mat.ofFn fun _ _ => 0) = some l ∧ FactorsBelow a l t := by
  intro t
  induction t with
  | zero =>
    intro _
    refine ⟨_, rfl, fun i k _ => Mat.entry_ofFn _ i k, fun i k _ => Mat.entry_ofFn _ i k, ?_, ?_⟩
    · exact fun i hi => absurd hi (Nat.not_lt_zero _)
    · exact fun i k hi => absurd hi (Nat.not_lt_zero _)
  | succ t ih =>
    intro ht
    obtain ⟨l, hfold, hl⟩ := ih (Nat.le_of_succ_le ht)
    -- no row fails, so the loop that may fail goes on
    obtain ⟨row, hrow, hnext⟩ := FactorsBelow.nextRow_spec (i := ⟨t, ht⟩) ha hl
    refine ⟨_, ?_, hnext⟩
    rw [take_finRange_succ ht, List.foldlM_append, hfold]
    show (nextRow a l ⟨t, ht⟩).map _ >>= pure = _
    rw [hrow]
    rfl

/-- The factor of a matrix whose symmetric part is positive definite. -/
theorem factor_spec (ha : (symmetricPart a).toMatrix.PosDef) :
    (factor a).toMatrix.IsLowerTriangular ∧
      (factor a).toMatrix * (factor a).toMatrixᵀ = (symmetricPart a).toMatrix := by
  obtain ⟨l, hfold, hl⟩ := exists_factorsBelow ha n le_rfl
  have hfactor : factor a = l := by
    rw [List.take_of_length_le (by simp)] at hfold
    unfold factor
    dsimp only
    rw [hfold, Option.getD_some]
  rw [hfactor]
  refine ⟨fun i k hik => hl.lower i k hik, ?_⟩
  ext i k
  rw [mul_apply]
  exact hl.product i k i.isLt k.isLt

end Sqp.Cholesky
