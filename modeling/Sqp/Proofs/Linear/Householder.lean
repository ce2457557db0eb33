import Mathlib.Tactic.FieldSimp
import Mathlib.Tactic.LinearCombination
import Sqp.Proofs.Linear.Entries
import Sqp.Linear.Householder

/-!
# Orthogonal factorisation in exact arithmetic

- `Reflection.toMatrix`: the matrix of a reflection; `Reflection.get_apply` says that the
  reflection multiplies by it, for a reflection that is `Proper`, and
  `Reflection.Proper.mul_self` that it is its own inverse.
- `reflectionTo_spec`, `reflection_spec`: the reflection of a column is proper and clears the
  column under its pivot.
- `Swept`: the columns and reflections after some columns have been cleared.
- `factor_spec`: for a matrix with at least as many rows as columns, the two factors have
  the matrix as their product, the first one has orthonormal columns, and the second one
  is upper triangular.
-/

namespace Sqp.Householder

open Matrix

variable {m k : Nat}

/-! ## Reflections -/

/-- The matrix of a reflection. -/
noncomputable def Reflection.toMatrix (h : Reflection ℝ m) : Matrix (Fin m) (Fin m) ℝ :=
  1 - h.weight • vecMulVec h.axis.get h.axis.get

/-- The axis vanishes above its row, and the weight is the one that makes the reflection
its own inverse, or zero. -/
structure Reflection.Proper (h : Reflection ℝ m) : Prop where
  above : ∀ i : Fin m, i.val < h.row → h.axis.get i = 0
  weight : h.weight = 0 ∨ h.weight * (h.axis.get ⬝ᵥ h.axis.get) = 2

/-- A reflection takes off a multiple of its axis. -/
theorem Reflection.toMatrix_mulVec (h : Reflection ℝ m) (x : Fin m → ℝ) :
    h.toMatrix *ᵥ x = x - (h.weight * (h.axis.get ⬝ᵥ x)) • h.axis.get := by
  rw [toMatrix, sub_mulVec, one_mulVec, smul_mulVec, vecMulVec_mulVec, op_smul_eq_smul, smul_smul]

@[simp] theorem Reflection.toMatrix_transpose (h : Reflection ℝ m) : h.toMatrixᵀ = h.toMatrix := by
  rw [toMatrix, transpose_sub, transpose_one, transpose_smul, transpose_vecMulVec]

/-- A proper reflection multiplies by its matrix. -/
theorem Reflection.get_apply {h : Reflection ℝ m} (hh : h.Proper) (x : Vector ℝ m) :
    (h.apply x).get = h.toMatrix *ᵥ x.get := by
  rw [toMatrix_mulVec]
  unfold Reflection.apply
  split_ifs with hzero
  · rw [(Scalar.isZero_iff _).mp hzero, zero_mul, zero_smul, sub_zero]
  · have hdot : fusedDot (rowsFrom m h.row) h.axis x = h.axis.get ⬝ᵥ x.get :=
      fusedDot_filter x fun j hj => hh.above j (not_le.mp (of_decide_eq_false hj))
    funext i
    rw [get_ofFn, hdot, Pi.sub_apply, Pi.smul_apply, smul_eq_mul]
    split_ifs with hi
    · rw [Scalar.mulAdd_real]
      ring
    · rw [hh.above i (not_le.mp hi), mul_zero, sub_zero]

/-- A proper reflection is its own inverse. -/
theorem Reflection.Proper.mul_self {h : Reflection ℝ m} (hh : h.Proper) :
    h.toMatrix * h.toMatrix = 1 := by
  refine toLin'.injective (LinearMap.ext fun x => ?_)
  rw [toLin'_apply, toLin'_apply, one_mulVec, ← mulVec_mulVec, toMatrix_mulVec, toMatrix_mulVec,
    dotProduct_sub, dotProduct_smul, smul_eq_mul]
  rcases hh.weight with hw | hw
  · simp [hw]
  · have hback : h.weight * (h.axis.get ⬝ᵥ x - h.weight * (h.axis.get ⬝ᵥ x) *
        (h.axis.get ⬝ᵥ h.axis.get)) = -(h.weight * (h.axis.get ⬝ᵥ x)) := by
      linear_combination (-(h.weight * (h.axis.get ⬝ᵥ x))) * hw
    rw [hback, neg_smul, sub_neg_eq_add, sub_add_cancel]

/-- A vector that ends above the row of a proper reflection is left alone. -/
theorem Reflection.Proper.mulVec_of_zero {h : Reflection ℝ m} (hh : h.Proper) {x : Fin m → ℝ}
    (hx : ∀ i : Fin m, h.row ≤ i.val → x i = 0) : h.toMatrix *ᵥ x = x := by
  have hdot : h.axis.get ⬝ᵥ x = 0 := by
    refine Finset.sum_eq_zero fun i _ => ?_
    rcases lt_or_ge i.val h.row with hi | hi
    · rw [hh.above i hi, zero_mul]
    · rw [hx i hi, mul_zero]
  rw [toMatrix_mulVec, hdot, mul_zero, zero_smul, sub_zero]

/-! ## The reflection of a column -/

/-- The squares of the entries of a column under row `j`. -/
noncomputable def squaresBelow (x : Vector ℝ m) (j : Fin m) : ℝ :=
  ∑ i, if j < i then x.get i * x.get i else 0

theorem length_mul_self_below (x : Vector ℝ m) (j : Fin m) :
    Scalar.length ((rowsFrom m (j.val + 1)).map x.get) *
      Scalar.length ((rowsFrom m (j.val + 1)).map x.get) = squaresBelow x j := by
  rw [Scalar.length_mul_self, List.map_map, rowsFrom, sum_filter_eq_sum_ite]
  refine Finset.sum_congr rfl fun i _ => ?_
  simp only [decide_eq_true_eq, Nat.succ_le_iff]
  rfl

/-- Where the squares below the pivot add up to nothing, there is nothing below it. -/
theorem eq_zero_of_squaresBelow {x : Vector ℝ m} {j i : Fin m} (h : squaresBelow x j = 0)
    (hi : j < i) : x.get i = 0 := by
  have hterms := (Finset.sum_eq_zero_iff_of_nonneg fun i _ => by
    split_ifs
    · exact mul_self_nonneg (x.get i)
    · exact le_rfl).mp h i (Finset.mem_univ i)
  rw [if_pos hi] at hterms
  exact mul_self_eq_zero.mp hterms

/-- The axis of the reflection of a column. -/
noncomputable def axisOf (x : Vector ℝ m) (j : Fin m) (c : ℝ) : Vector ℝ m :=
  Vector.ofFn fun i => if i = j then 1 else if j < i then x.get i * c else 0

/-- The axis takes its row and a multiple of the column below it off a vector. -/
theorem axisOf_dotProduct (x : Vector ℝ m) (j : Fin m) (c : ℝ) (y : Fin m → ℝ) :
    (axisOf x j c).get ⬝ᵥ y = y j + c * ∑ i, if j < i then x.get i * y i else 0 := by
  have hterm : ∀ i, (axisOf x j c).get i * y i =
      (if i = j then y i else 0) + c * if j < i then x.get i * y i else 0 := by
    intro i
    rw [axisOf, get_ofFn]
    rcases lt_trichotomy i j with hi | rfl | hi
    · simp [hi.ne, hi.not_gt]
    · simp
    · simp only [hi, hi.ne', if_false, if_true]
      ring
  rw [dotProduct_eq_sum, Finset.sum_congr rfl fun i _ => hterm i, Finset.sum_add_distrib,
    ← Finset.mul_sum, Finset.sum_ite_eq', if_pos (Finset.mem_univ j)]

theorem axisOf_dotProduct_column (x : Vector ℝ m) (j : Fin m) (c : ℝ) :
    (axisOf x j c).get ⬝ᵥ x.get = x.get j + c * squaresBelow x j :=
  axisOf_dotProduct x j c x.get

theorem axisOf_dotProduct_self (x : Vector ℝ m) (j : Fin m) (c : ℝ) :
    (axisOf x j c).get ⬝ᵥ (axisOf x j c).get = 1 + c * c * squaresBelow x j := by
  have hpivot : (axisOf x j c).get j = 1 := by rw [axisOf, get_ofFn, if_pos rfl]
  have hbelow : ∀ i, (if j < i then x.get i * (axisOf x j c).get i else 0) =
      c * if j < i then x.get i * x.get i else 0 := by
    intro i
    split_ifs with hi
    · rw [axisOf, get_ofFn, if_neg hi.ne', if_pos hi]
      ring
    · rw [mul_zero]
  rw [axisOf_dotProduct, hpivot, Finset.sum_congr rfl fun i _ => hbelow i, ← Finset.mul_sum,
    ← mul_assoc, squaresBelow]

/-- The reflection that puts a target in place of the pivot of a column. -/
noncomputable def reflectionTo (x : Vector ℝ m) (j : Fin m) (target : ℝ) : Reflection ℝ m :=
  ⟨j, axisOf x j (1 / (x.get j - target)), (target - x.get j) / target⟩

/-- If the target is as long as the column from its pivot on, and not the pivot itself, this
reflection is proper and clears what is under the pivot. -/
theorem reflectionTo_spec {x : Vector ℝ m} {j : Fin m} {target : ℝ} (hne : target ≠ 0)
    (hpivot : x.get j - target ≠ 0)
    (hlength : target * target = x.get j * x.get j + squaresBelow x j) :
    (reflectionTo x j target).Proper ∧ (reflectionTo x j target).toMatrix *ᵥ x.get = fun i =>
      if i < j then x.get i else if i = j then target else 0 := by
  refine ⟨⟨fun i hi => ?_, .inr ?_⟩, ?_⟩
  · have hij : i < j := Fin.lt_def.mpr hi
    rw [reflectionTo, axisOf, get_ofFn, if_neg hij.ne, if_neg hij.not_gt]
  · rw [reflectionTo, axisOf_dotProduct_self]
    field_simp
    linear_combination (x.get j - target) * hlength
  · -- the multiple `pivot - target` of the axis is taken off the column
    have hdot : (axisOf x j (1 / (x.get j - target))).get ⬝ᵥ x.get = -target := by
      rw [axisOf_dotProduct_column]
      field_simp
      linear_combination -hlength
    have hweight : (target - x.get j) / target * -target = x.get j - target := by
      field_simp
      ring
    rw [Reflection.toMatrix_mulVec, reflectionTo, hdot, hweight]
    funext i
    rw [Pi.sub_apply, Pi.smul_apply, smul_eq_mul, axisOf, get_ofFn]
    rcases lt_trichotomy i j with hi | hi | hi
    · simp [hi, hi.ne, hi.not_gt]
    · simp [hi]
    · simp only [hi, hi.ne', hi.not_gt, if_false, if_true]
      field_simp
      ring

/-- The reflection of a column is proper and clears the column under its pivot. -/
theorem reflection_spec (x : Vector ℝ m) (j : Fin m) :
    (reflection x j).2.Proper ∧ (reflection x j).2.row = j.val ∧
      (reflection x j).2.toMatrix *ᵥ x.get = fun i =>
        if i < j then x.get i else if i = j then (reflection x j).1 else 0 := by
  have hbelow := length_mul_self_below x j
  set below := Scalar.length ((rowsFrom m (j.val + 1)).map x.get)
  by_cases hzero : Scalar.isZero below = true
  · -- nothing to clear
    have hreflection : reflection x j = (x.get j, ⟨j, zeros ℝ m, 0⟩) := by
      unfold reflection
      rw [if_pos hzero]
    have hsquares : squaresBelow x j = 0 := by
      rw [← hbelow, (Scalar.isZero_iff below).mp hzero, mul_zero]
    rw [hreflection]
    refine ⟨⟨fun i _ => get_zeros i, .inl rfl⟩, rfl, ?_⟩
    rw [Reflection.toMatrix_mulVec]
    funext i
    rcases lt_trichotomy i j with hi | hi | hi
    · simp [hi]
    · simp [hi]
    · simp [hi.not_gt, hi.ne', eq_zero_of_squaresBelow hsquares hi]
  · have hne : below ≠ 0 := mt (Scalar.isZero_iff below).mpr hzero
    set size := Scalar.hypot (x.get j) below with hsize
    set target := if x.get j < 0 then size else -size with htarget
    have hreflection : reflection x j = (target, reflectionTo x j target) := by
      unfold reflection
      rw [if_neg hzero]
      rfl
    have hpos : 0 < x.get j * x.get j + below * below :=
      add_pos_of_nonneg_of_pos (mul_self_nonneg _) (mul_self_pos.mpr hne)
    have hsizePos : 0 < size := by
      rw [hsize, Scalar.hypot_eq_sqrt]
      exact Real.sqrt_pos.mpr hpos
    have hroot : size * size = x.get j * x.get j + below * below := by
      rw [hsize, Scalar.hypot_eq_sqrt, Real.mul_self_sqrt hpos.le]
    have hlength : target * target = x.get j * x.get j + squaresBelow x j := by
      rw [← hbelow, ← hroot, htarget]
      split_ifs
      · rfl
      · ring
    -- the pivot and its target lie on different sides of zero
    have hsides : target ≠ 0 ∧ x.get j - target ≠ 0 := by
      rw [htarget]
      split_ifs with hneg
      · exact ⟨hsizePos.ne', by linarith⟩
      · exact ⟨neg_ne_zero.mpr hsizePos.ne', by linarith [not_lt.mp hneg]⟩
    obtain ⟨hproper, hclear⟩ := reflectionTo_spec hsides.1 hsides.2 hlength
    rw [hreflection]
    exact ⟨hproper, rfl, hclear⟩

/-! ## Products of reflections -/

/-- The product of reflections, the first one leftmost. -/
noncomputable def total (rs : List (Reflection ℝ m)) : Matrix (Fin m) (Fin m) ℝ :=
  (rs.map Reflection.toMatrix).prod

theorem total_nil : total ([] : List (Reflection ℝ m)) = 1 := rfl

theorem total_append (rs rs' : List (Reflection ℝ m)) :
    total (rs ++ rs') = total rs * total rs' := by
  rw [total, List.map_append, List.prod_append]
  rfl

theorem total_cons (r : Reflection ℝ m) (rs : List (Reflection ℝ m)) :
    total (r :: rs) = r.toMatrix * total rs := by
  rw [total, List.map_cons, List.prod_cons]
  rfl

variable {rs : List (Reflection ℝ m)}

/-- A product of proper reflections is orthogonal. -/
theorem transpose_total_mul (hrs : ∀ r ∈ rs, r.Proper) : (total rs)ᵀ * total rs = 1 := by
  induction rs with
  | nil => simp [total_nil]
  | cons r rs ih =>
    calc (total (r :: rs))ᵀ * total (r :: rs)
        = (total rs)ᵀ * (r.toMatrix * r.toMatrix) * total rs := by
          rw [total_cons, transpose_mul, Reflection.toMatrix_transpose]
          simp only [Matrix.mul_assoc]
      _ = 1 := by
          rw [(hrs r List.mem_cons_self).mul_self, Matrix.mul_one,
            ih fun r hr => hrs r (List.mem_cons_of_mem _ hr)]

/-- Reflections applied from the last one to the first. -/
theorem get_foldl_apply (hrs : ∀ r ∈ rs, r.Proper) (x : Vector ℝ m) :
    (rs.reverse.foldl (fun x r => r.apply x) x).get = total rs *ᵥ x.get := by
  induction rs with
  | nil => simp [total_nil]
  | cons r rs ih =>
    rw [List.reverse_cons, List.foldl_append, List.foldl_cons, List.foldl_nil,
      Reflection.get_apply (hrs r List.mem_cons_self),
      ih fun r hr => hrs r (List.mem_cons_of_mem _ hr), mulVec_mulVec, total_cons]

/-- A vector that ends above the rows of all reflections is left alone. -/
theorem total_mulVec_of_zero (hrs : ∀ r ∈ rs, r.Proper) {x : Fin m → ℝ}
    (hx : ∀ r ∈ rs, ∀ i : Fin m, r.row ≤ i.val → x i = 0) : total rs *ᵥ x = x := by
  induction rs with
  | nil => simp [total_nil]
  | cons r rs ih =>
    rw [total_cons, ← mulVec_mulVec,
      ih (fun r hr => hrs r (List.mem_cons_of_mem _ hr))
        fun r hr => hx r (List.mem_cons_of_mem _ hr),
      (hrs r List.mem_cons_self).mulVec_of_zero (hx r List.mem_cons_self)]

/-! ## The sweep -/

/-- A column after `t` columns have been cleared; what is stored under the diagonal of a
cleared column does not count. -/
def cleared (cs : Mat ℝ k m) (t : Nat) (c : Fin k) : Fin m → ℝ := fun i =>
  if c.val < t ∧ c.val < i.val then 0 else (cs.get c).get i

/-- The columns and reflections after `t` columns have been cleared: the reflections take
the columns back to what they were. -/
structure Swept (columns cs : Mat ℝ k m) (rs : List (Reflection ℝ m)) (t : Nat) : Prop where
  length_eq : rs.length = t
  proper : ∀ r ∈ rs, r.Proper
  row : ∀ s (hs : s < rs.length), rs[s].row = s
  column : ∀ c, total rs *ᵥ cleared cs t c = (columns.get c).get

/-- The reflection that clears a column takes all columns back to what they were. -/
theorem toMatrix_mulVec_cleared (cs : Mat ℝ k m) (j : Fin k) (h : j.val < m) (c : Fin k) :
    (eliminate cs j h).2.toMatrix *ᵥ cleared (eliminate cs j h).1 (j + 1) c = cleared cs j c := by
  obtain ⟨hproper, hrow, hclear⟩ := reflection_spec (cs.get j) ⟨j, h⟩
  set r := (reflection (cs.get j) ⟨j, h⟩).2
  set pivot := (reflection (cs.get j) ⟨j, h⟩).1
  have hreflection : (eliminate cs j h).2 = r := rfl
  have hcolumn : ∀ c, ((eliminate cs j h).1).get c =
      if c.val = j.val then put (cs.get c) ⟨j, h⟩ pivot
      else if j.val < c.val then r.apply (cs.get c) else cs.get c :=
    fun c => Vector.getElem_mapFinIdx ..
  -- a column that was reflected comes back, since the reflection is its own inverse
  have hinverse : ∀ x y : Fin m → ℝ, x = r.toMatrix *ᵥ y → r.toMatrix *ᵥ x = y := by
    rintro x y rfl
    rw [mulVec_mulVec, hproper.mul_self, one_mulVec]
  rw [hreflection]
  rcases lt_trichotomy c j with hc | hc | hc
  · have hsame : cleared (eliminate cs j h).1 (j + 1) c = cleared cs j c := by
      have hc' : c.val < j.val := hc
      funext i
      rw [cleared, cleared, hcolumn, if_neg hc'.ne, if_neg hc'.not_gt]
      simp only [hc', Nat.lt_succ_of_lt hc', true_and]
    rw [hsame]
    refine hproper.mulVec_of_zero fun i hi => ?_
    have hji : j.val ≤ i.val := hrow ▸ hi
    exact if_pos ⟨hc, lt_of_lt_of_le hc hji⟩
  · subst hc
    have hold : cleared cs c c = (cs.get c).get :=
      funext fun i => if_neg fun hi => lt_irrefl _ hi.1
    rw [hold]
    refine hinverse _ _ (Eq.trans (funext fun i => ?_) hclear.symm)
    rw [cleared, hcolumn, if_pos rfl]
    rcases lt_trichotomy i ⟨c.val, h⟩ with hi | hi | hi
    · rw [if_neg fun hlt => lt_asymm hlt.2 hi, if_pos hi, get_put_of_ne _ _ hi.ne']
    · subst hi
      rw [if_neg fun hlt => lt_irrefl _ hlt.2, if_neg (lt_irrefl _), if_pos rfl, get_put_self]
    · rw [if_pos ⟨Nat.lt_succ_self _, hi⟩, if_neg hi.not_gt, if_neg hi.ne']
  · have hc' : j.val < c.val := hc
    have hold : cleared cs j c = (cs.get c).get :=
      funext fun i => if_neg fun hi => hc'.not_gt hi.1
    rw [hold]
    refine hinverse _ _ (Eq.trans (funext fun i => ?_) (Reflection.get_apply hproper _))
    rw [cleared, hcolumn, if_neg hc'.ne', if_pos hc', if_neg fun hi => absurd hi.1 (by omega)]

/-- One more column is cleared. -/
theorem Swept.eliminate {columns cs : Mat ℝ k m} {j : Fin k} (hs : Swept columns cs rs j)
    (h : j.val < m) :
    Swept columns (eliminate cs j h).1 (rs ++ [(eliminate cs j h).2]) (j + 1) := by
  obtain ⟨hproper, hrow, -⟩ := reflection_spec (cs.get j) ⟨j, h⟩
  refine ⟨?_, ?_, ?_, ?_⟩
  · rw [List.length_append, hs.length_eq, List.length_singleton]
  · intro r hr
    rcases List.mem_append.mp hr with hmem | hmem
    · exact hs.proper r hmem
    · rw [List.mem_singleton.mp hmem]
      exact hproper
  · intro s hslt
    rcases Nat.lt_or_ge s rs.length with hlt | hge
    · rw [List.getElem_append_left hlt]
      exact hs.row s hlt
    -- the new reflection has the number of its column as its pivot row
    · have hlast : s = rs.length := by
        rw [List.length_append, List.length_singleton] at hslt
        omega
      subst hlast
      rw [List.getElem_concat_length rfl, hs.length_eq]
      exact hrow
  · intro c
    rw [total_append, total_cons, total_nil, Matrix.mul_one, ← mulVec_mulVec,
      toMatrix_mulVec_cleared]
    exact hs.column c

/-- The sweep over the columns of a matrix that has as many rows. -/
theorem sweep_swept (columns : Mat ℝ k m) (hk : k ≤ m) :
    Swept columns (sweep columns).1 (sweep columns).2 k := by
  set step := fun (state : Mat ℝ k m × List (Reflection ℝ m)) (j : Fin k) =>
    if h : j.val < m then
      ((eliminate state.1 j h).1, state.2 ++ [(eliminate state.1 j h).2])
    else state with hstep
  -- what is known after the first `t` columns
  have hprefix : ∀ t ≤ k, Swept columns (((List.finRange k).take t).foldl step (columns, [])).1
      (((List.finRange k).take t).foldl step (columns, [])).2 t := by
    intro t
    induction t with
    | zero =>
      refine fun _ => ⟨rfl, fun r hr => absurd hr List.not_mem_nil, fun s hs => ?_, fun c => ?_⟩
      · exact absurd hs (Nat.not_lt_zero _)
      · rw [List.take_zero, List.foldl_nil, total_nil, one_mulVec]
        exact funext fun i => if_neg fun hi => Nat.not_lt_zero _ hi.1
    | succ t ih =>
      intro ht
      have hlt : t < m := Nat.lt_of_lt_of_le ht hk
      rw [take_finRange_succ ht, List.foldl_append, List.foldl_cons, List.foldl_nil, hstep]
      simp only [hlt, dif_pos]
      exact (ih (Nat.le_of_succ_le ht)).eliminate hlt
  have hall := hprefix k le_rfl
  rw [List.take_of_length_le (by simp)] at hall
  exact hall

/-! ## The factors -/

/-- The column of the first factor that the reflections make of a unit vector; the ones
that are left out would not move it. -/
theorem Swept.get_foldl_unit {columns cs : Mat ℝ k m} (hs : Swept columns cs rs k) (hk : k ≤ m)
    (j : Fin k) :
    ((rs.take (j + 1)).reverse.foldl (fun x r => r.apply x)
      (Vector.ofFn fun i => if i.val = j.val then 1 else 0)).get =
        (total rs).col (Fin.castLE hk j) := by
  set unit : Vector ℝ m := Vector.ofFn fun i => if i.val = j.val then 1 else 0
  have hunit : unit.get = Pi.single (Fin.castLE hk j) 1 := by
    funext i
    rw [get_ofFn, Pi.single_apply]
    simp only [Fin.ext_iff, Fin.val_castLE]
  -- later reflections act on later rows only, where the unit vector is zero
  have hrest : total (rs.drop (j + 1)) *ᵥ unit.get = unit.get := by
    refine total_mulVec_of_zero (fun r hr => hs.proper r (List.mem_of_mem_drop hr)) ?_
    intro r hr i hi
    obtain ⟨s, hlt, rfl⟩ := List.mem_drop_iff_getElem.mp hr
    rw [hs.row] at hi
    rw [get_ofFn, if_neg (by omega)]
  calc _ = total (rs.take (j + 1)) *ᵥ unit.get :=
        get_foldl_apply (fun r hr => hs.proper r (List.mem_of_mem_take hr)) unit
    _ = total (rs.take (j + 1)) *ᵥ (total (rs.drop (j + 1)) *ᵥ unit.get) := by rw [hrest]
    _ = total rs *ᵥ unit.get := by rw [mulVec_mulVec, ← total_append, List.take_append_drop]
    _ = (total rs).col (Fin.castLE hk j) := by rw [hunit, mulVec_single_one]

/-- For a matrix with as many rows as columns, the first factor has orthonormal columns,
the second one is upper triangular, and their product is the matrix. -/
theorem factor_spec (a : Mat ℝ m k) (hk : k ≤ m) :
    (factor a).1.toMatrixᵀ * (factor a).1.toMatrix = 1 ∧
      (factor a).2.toMatrix.IsUpperTriangular ∧
        (factor a).1.toMatrix * (factor a).2.toMatrix = a.toMatrix := by
  have hs := sweep_swept a.transpose hk
  set cs := (sweep a.transpose).1 with hcs
  set rs := (sweep a.transpose).2 with hrs
  have hq : (factor a).1.toMatrix = (total rs).submatrix id (Fin.castLE hk) := by
    ext i j
    refine Eq.trans ?_ (congrFun (hs.get_foldl_unit hk j) i)
    rw [Mat.toMatrix_apply, factor, Mat.entry_transpose, Mat.entry, get_ofFn]
  have hr : ∀ i j : Fin k, (factor a).2.entry i j =
      if i ≤ j then (cs.get j).get (Fin.castLE hk i) else 0 := by
    intro i j
    refine (Mat.entry_ofFn _ i j).trans ?_
    split_ifs
    · exact (Array.getElem_eq_getD 0).symm
    · rfl
  refine ⟨?_, fun i j hij => ?_, ?_⟩
  · rw [hq, transpose_submatrix, ← submatrix_mul _ _ _ _ _ Function.bijective_id,
      transpose_total_mul hs.proper, submatrix_one _ (Fin.castLE_injective hk)]
  · exact (hr i j).trans (if_neg (not_le.mpr hij))
  · ext i j
    have hcolumn := congrFun (hs.column j) i
    rw [mul_apply, Mat.toMatrix_apply, ← Mat.entry_transpose, Mat.entry, ← hcolumn, mulVec_eq_sum]
    -- a cleared column ends on the diagonal, so only the first columns count
    refine Fintype.sum_of_injective (Fin.castLE hk) (Fin.castLE_injective hk) _ _ ?_ fun l => ?_
    · intro i hi
      have hki : k ≤ i.val := not_lt.mp fun hlt => hi ⟨⟨i, hlt⟩, rfl⟩
      rw [cleared, if_pos ⟨j.isLt, j.isLt.trans_le hki⟩, mul_zero]
    · rw [hq, Mat.toMatrix_apply, hr, cleared, Fin.val_castLE]
      congr 1
      split_ifs with h₁ h₂ h₂
      · exact absurd h₂.2 (not_lt.mpr h₁)
      · rfl
      · rfl
      · exact absurd ⟨j.isLt, not_le.mp h₁⟩ h₂

end Sqp.Householder
