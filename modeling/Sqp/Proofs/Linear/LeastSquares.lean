import Mathlib.Tactic.SplitIfs
import Sqp.Linear.Kernels

/-!
# Least-squares problems that have a solution

- `Kernels.withWide`: other factors for matrices with fewer rows than columns. A
  least-squares problem with enough rows does not get to see them
  (`Kernels.leastSquares_withWide`).
- `Kernels.cause_of_leastSquares`: with enough rows, only a zero pivot can be refused, so a
  problem that allows zero pivots has a solution (`Kernels.exists_leastSquares_of_le`).
- `Kernels.leastSquares_of_lt`: with fewer rows it has none.
-/

namespace Sqp.Kernels

variable {α : Type} {m k : Nat}

/-- The kernels with other factors for matrices with fewer rows than columns. -/
def withWide (K : Kernels α) (wide : {m k : Nat} → Mat α m k → Mat α m k × Mat α k k) :
    Kernels α :=
  { K with orthogonal := fun {m k} a => if k ≤ m then K.orthogonal a else wide a }

variable [Scalar α] {K : Kernels α} {a : Mat α m k} {b : Vector α m}

theorem leastSquares_withWide (wide : {m k : Nat} → Mat α m k → Mat α m k × Mat α k k)
    (hk : k ≤ m) (a : Mat α m k) (b : Vector α m) (refuse : Bool) :
    (K.withWide wide).leastSquares a b refuse = K.leastSquares a b refuse := by
  unfold leastSquares withWide
  dsimp only
  rw [if_pos hk]

/-- With enough rows, only a zero pivot can be refused. -/
theorem cause_of_leastSquares (hk : k ≤ m) {refuse : Bool} {cause : Error}
    (h : K.leastSquares a b refuse = .error cause) : refuse = true ∧ cause = .singularMatrix := by
  unfold leastSquares at h
  dsimp only at h
  split_ifs at h with hrefused hmk
  · cases h
    exact ⟨(Bool.and_eq_true_iff.mp hrefused).1, rfl⟩
  · exact absurd hmk (Nat.not_lt.mpr hk)
  · cases h

theorem exists_leastSquares_of_le (K : Kernels α) (a : Mat α m k) (b : Vector α m) (hk : k ≤ m) :
    ∃ y, K.leastSquares a b false = .ok y := by
  cases h : K.leastSquares a b false with
  | ok y => exact ⟨y, rfl⟩
  | error cause => exact absurd (cause_of_leastSquares hk h).1 Bool.false_ne_true

/-- With fewer rows than columns, a problem that allows zero pivots has no solution. -/
theorem leastSquares_of_lt (K : Kernels α) (a : Mat α m k) (b : Vector α m) (hk : m < k) :
    K.leastSquares a b false = .error (.underdetermined m k) := by
  unfold leastSquares
  dsimp only
  rw [Bool.false_and, if_neg Bool.false_ne_true, if_pos hk]
  rfl

end Sqp.Kernels
