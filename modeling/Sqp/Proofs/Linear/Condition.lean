import Mathlib.Analysis.InnerProductSpace.SingularValues
import Mathlib.LinearAlgebra.Matrix.Rank
import Sqp.Proofs.Linear.Exact
import Sqp.Proofs.Scalar.Rounded

/-!
# Condition numbers and rank

What the quotient of the extreme singular values says about the rank of a matrix, if the singular
values are exact and the quotient is taken as a machine does.

- `Mat.singularValue`: the singular values of a matrix in decreasing order;
  `Mat.singularValue_eq_zero_iff` counts those that are not zero.
- `row_independent_iff_rank`, `col_independent_iff_rank`: full rank in terms of rows and columns.
- `Kernels.ExactSingularValues`: kernels that find them, such as `Kernels.ofSingularValues`.
- `Kernels.conditionNumber?_eq`: the condition number as a quotient of two entries.
- `Kernels.illConditioned`: it exceeds the reciprocal of the machine precision.
- `Kernels.illConditioned_of_rank_lt`, `Kernels.lt_of_illConditioned`: a zero among the singular
  values is seen unless all are zero, and without one the extreme ones are far apart.
- `Kernels.illConditioned_single`, `Kernels.illConditioned_zero`: a single row or column and the
  zero matrix are never said to be close to dependent.
-/

namespace Sqp

open Matrix Module

variable {m n : Nat}

/-! ## Rank -/

theorem row_independent_iff_rank {a : Matrix (Fin m) (Fin n) ℝ} :
    LinearIndependent ℝ a.row ↔ a.rank = m := by
  rw [linearIndependent_iff_card_eq_finrank_span, Fintype.card_fin, rank_eq_finrank_span_row]
  exact eq_comm

theorem col_independent_iff_rank {a : Matrix (Fin m) (Fin n) ℝ} :
    LinearIndependent ℝ a.col ↔ a.rank = n := by
  rw [linearIndependent_iff_card_eq_finrank_span, Fintype.card_fin, rank_eq_finrank_span_cols]
  exact eq_comm

/-- Dependent rows lower the rank, unless they are too many anyway. -/
theorem rank_lt_of_row_dependent {a : Matrix (Fin m) (Fin n) ℝ}
    (hrow : ¬ LinearIndependent ℝ a.row) (hshape : m ≤ n ∨ ¬ LinearIndependent ℝ a.col) :
    a.rank < min m n := by
  have hm : a.rank < m := a.rank_le_height.lt_of_ne (mt row_independent_iff_rank.mpr hrow)
  refine lt_min hm ?_
  rcases hshape with hmn | hcol
  · exact hm.trans_le hmn
  · exact a.rank_le_width.lt_of_ne (mt col_independent_iff_rank.mpr hcol)

theorem rank_pos {a : Matrix (Fin m) (Fin n) ℝ} (ha : a ≠ 0) : 0 < a.rank := by
  by_contra hzero
  have hrange : LinearMap.range a.mulVecLin = ⊥ :=
    Submodule.finrank_eq_zero.mp (Nat.eq_zero_of_not_pos hzero)
  refine ha (ext_of_mulVec_single fun j => ?_)
  rw [zero_mulVec, ← mulVecLin_apply, LinearMap.range_eq_bot.mp hrange, LinearMap.zero_apply]

theorem Mat.toMatrix_ne_zero {a : Mat ℝ m n} (i : Fin m) (j : Fin n) (h : a.entry i j ≠ 0) :
    a.toMatrix ≠ 0 := by
  intro hzero
  exact h (congrFun (congrFun hzero i) j)

/-! ## Singular values -/

namespace Mat

/-- The singular values of a matrix in decreasing order, followed by zeros. -/
noncomputable def singularValue (a : Mat ℝ m n) (i : ℕ) : ℝ :=
  (toEuclideanLin a.toMatrix).singularValues i

theorem singularValue_nonneg (a : Mat ℝ m n) (i : ℕ) : 0 ≤ a.singularValue i :=
  LinearMap.singularValues_nonneg _ i

/-- As many singular values as the rank are not zero. -/
theorem singularValue_eq_zero_iff (a : Mat ℝ m n) (i : ℕ) :
    a.singularValue i = 0 ↔ a.toMatrix.rank ≤ i := by
  have hrank : a.toMatrix.rank = finrank ℝ (LinearMap.range (toEuclideanLin a.toMatrix)) := by
    rw [toEuclideanLin, toLpLin_eq_toLin]
    exact rank_eq_finrank_range_toLin _ _ _
  rw [hrank]
  exact LinearMap.singularValues_eq_zero_iff_le_finrank_range _

/-- There are as many positive singular values as the rank. -/
theorem singularValue_pos_iff (a : Mat ℝ m n) (i : ℕ) :
    0 < a.singularValue i ↔ i < a.toMatrix.rank := by
  rw [(a.singularValue_nonneg i).lt_iff_ne', ne_eq, singularValue_eq_zero_iff, not_le]

end Mat

/-- A matrix of real numbers as a machine holds it. -/
def Rounded.ofReal {r : ℝ → EReal} (a : Mat ℝ m n) : Mat (Rounded r) m n :=
  Mat.ofFn fun i j => Rounded.number (a.entry i j)

/-- A matrix of a machine as a matrix of real numbers, with zeros for what is none. -/
noncomputable def Rounded.toReal {r : ℝ → EReal} (a : Mat (Rounded r) m n) : Mat ℝ m n :=
  Mat.ofFn fun i j => (Option.getD (a.entry i j) 0).toReal

theorem Rounded.toReal_ofReal {r : ℝ → EReal} (a : Mat ℝ m n) :
    Rounded.toReal (Rounded.ofReal a : Mat (Rounded r) m n) = a :=
  Mat.ext_entry fun i j => by
    rw [toReal, ofReal, Mat.entry_ofFn, Mat.entry_ofFn]
    exact EReal.toReal_coe _

namespace Kernels

/-- The kernels find the singular values of every matrix of real numbers. -/
structure ExactSingularValues {r : ℝ → EReal} (K : Kernels (Rounded r)) : Prop where
  get_eq : ∀ {m n : Nat} (a : Mat ℝ m n) (i : Fin (min m n)),
    (K.singularValues (Rounded.ofReal a)).get i = Rounded.number (a.singularValue i)

/-- Kernels with the singular values of the real numbers that a matrix holds. -/
noncomputable def ofSingularValues (r : ℝ → EReal) : Kernels (Rounded r) :=
  { standard with
    singularValues := fun a => Vector.ofFn fun i =>
      Rounded.number ((Rounded.toReal a).singularValue i) }

theorem exactSingularValues_ofSingularValues (r : ℝ → EReal) :
    (ofSingularValues r).ExactSingularValues where
  get_eq a i := by
    rw [ofSingularValues]
    dsimp only
    rw [get_ofFn, Rounded.toReal_ofReal]

/-! ## Condition numbers -/

/-- The first entry of a vector, and the last one as the last of a list that starts with it. -/
theorem toList_eq_cons_getLastD {β : Type} {k : Nat} (hk : 0 < k) (v : Vector β k) :
    ∃ rest, v.toList = v.get ⟨0, hk⟩ :: rest ∧
      rest.getLastD (v.get ⟨0, hk⟩) = v.get ⟨k - 1, Nat.sub_one_lt hk.ne'⟩ := by
  obtain ⟨k, rfl⟩ := Nat.exists_eq_succ_of_ne_zero hk.ne'
  refine ⟨List.ofFn fun i : Fin k => v.get i.succ, ?_, ?_⟩
  · rw [toList_eq_ofFn, List.ofFn_succ]
    rfl
  · cases k with
    | zero => rfl
    | succ k =>
      rw [List.ofFn_succ', List.concat_eq_append, List.getLastD_concat]
      rfl

section Quotient

variable {α : Type} [Scalar α]

/-- The first singular value divided by the last one. -/
theorem conditionNumber?_eq (K : Kernels α) (a : Mat α m n) (hpos : 0 < min m n) :
    K.conditionNumber? a =
      some ((K.singularValues a).get ⟨0, hpos⟩ /
        (K.singularValues a).get ⟨min m n - 1, Nat.sub_one_lt hpos.ne'⟩) := by
  obtain ⟨rest, hvalues, hlast⟩ := toList_eq_cons_getLastD hpos (K.singularValues a)
  rw [conditionNumber?, hvalues]
  dsimp only
  rw [hlast]

/-- The condition number exceeds the reciprocal of the machine precision. -/
def illConditioned (K : Kernels α) (a : Mat α m n) : Bool :=
  (K.conditionNumber? a).any fun c => decide (1 / Scalar.epsilon < c)

/-- A matrix without entries is not. -/
theorem pos_of_illConditioned {K : Kernels α} {a : Mat α m n} (h : K.illConditioned a = true) :
    0 < min m n := by
  by_contra hnone
  have hvalues : (K.singularValues a).toList = [] :=
    List.eq_nil_of_length_eq_zero (Vector.length_toList.trans (Nat.eq_zero_of_not_pos hnone))
  rw [illConditioned, conditionNumber?, hvalues] at h
  cases h

end Quotient

variable {r : ℝ → EReal} {K : Kernels (Rounded r)} {a : Mat ℝ m n}

/-- The test compares the rounded quotient of the largest and the smallest singular value. -/
theorem illConditioned_iff (hK : K.ExactSingularValues) (hpos : 0 < min m n) :
    K.illConditioned (Rounded.ofReal a) = true ↔
      1 / Scalar.epsilon < (Rounded.number (a.singularValue 0) /
        Rounded.number (a.singularValue (min m n - 1)) : Rounded r) := by
  rw [illConditioned, conditionNumber?_eq K _ hpos, hK.get_eq, hK.get_eq, Option.any_some,
    decide_eq_true_iff]

/-- If some but not all of the singular values are zero, the condition number is infinite. -/
theorem illConditioned_of_rank_lt (hr : IsRounding r) (hK : K.ExactSingularValues)
    (ha : a.toMatrix ≠ 0) (hrank : a.toMatrix.rank < min m n) :
    K.illConditioned (Rounded.ofReal a) = true := by
  have hfirst : 0 < a.singularValue 0 := (a.singularValue_pos_iff 0).mpr (rank_pos ha)
  have hlast : a.singularValue (min m n - 1) = 0 :=
    (a.singularValue_eq_zero_iff _).mpr (Nat.le_sub_one_of_lt hrank)
  rw [illConditioned_iff hK (Nat.zero_lt_of_lt hrank), hlast, Rounded.number_div_zero hfirst,
    Rounded.one_div_epsilon hr, Rounded.number, Rounded.value_lt_value]
  exact EReal.coe_lt_top _

/-- If no singular value is zero, only far apart ones are seen: rounding does not lift a quotient
over a power of two. -/
theorem lt_of_illConditioned (hr : IsRounding r) (hK : K.ExactSingularValues)
    (hrank : min m n ≤ a.toMatrix.rank) (h : K.illConditioned (Rounded.ofReal a) = true) :
    1 / Scalar.epsilon * a.singularValue (min m n - 1) < a.singularValue 0 := by
  have hpos := pos_of_illConditioned h
  have hlast : 0 < a.singularValue (min m n - 1) :=
    (a.singularValue_pos_iff _).mpr ((Nat.sub_one_lt hpos.ne').trans_le hrank)
  have hprecision : (1 / Scalar.epsilon : ℝ) = 2 ^ (52 : ℤ) := by
    norm_num [Scalar.epsilon]
  rw [illConditioned_iff hK hpos, Rounded.number_div _ hlast.ne', Rounded.one_div_epsilon hr,
    Rounded.number, Rounded.value_lt_value, ← hr.powers 52 (by norm_num) (by norm_num)] at h
  rw [hprecision, ← lt_div_iff₀ hlast]
  exact hr.mono.reflect_lt h

/-- The quotient of a single singular value by itself is one, whatever the rank says. -/
theorem illConditioned_single (hr : IsRounding r) (hK : K.ExactSingularValues)
    (ha : a.toMatrix ≠ 0) (hsingle : min m n = 1) :
    K.illConditioned (Rounded.ofReal a) = false := by
  have hrank : min m n ≤ a.toMatrix.rank := hsingle.trans_le (rank_pos ha)
  have hvalue : 0 ≤ a.singularValue 0 := a.singularValue_nonneg 0
  refine Bool.eq_false_iff.mpr fun h => ?_
  have hapart : 1 / Scalar.epsilon * a.singularValue 0 < a.singularValue 0 := by
    simpa only [hsingle] using lt_of_illConditioned hr hK hrank h
  refine absurd hapart (not_lt.mpr (le_mul_of_one_le_left hvalue ?_))
  norm_num [Scalar.epsilon]

/-- For the zero matrix the condition number is undefined. -/
theorem illConditioned_zero (hK : K.ExactSingularValues) (ha : a.toMatrix = 0) :
    K.illConditioned (Rounded.ofReal a) = false := by
  have hzero : ∀ i, a.singularValue i = 0 := fun i =>
    (a.singularValue_eq_zero_iff i).mpr (by rw [ha, rank_zero]; exact Nat.zero_le i)
  refine Bool.eq_false_iff.mpr fun h => ?_
  rw [illConditioned_iff hK (pos_of_illConditioned h), hzero, hzero, Rounded.zero_div_zero] at h
  exact Rounded.not_lt_undefined _ h

end Kernels

end Sqp
