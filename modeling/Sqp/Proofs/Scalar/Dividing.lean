import Sqp.Linear.Vec
import Sqp.Proofs.Scalar.Real

/-!
# Division by zero made visible

Exact arithmetic gives every quotient a value, also the one of a division by zero. Whether such a
division matters shows if that value is left open: a computation that divides by zero, and makes
use of the result, depends on it.

- `dividing`: exact arithmetic with any value for a division by zero.
- `div_dividing`: all other quotients are the exact ones. Lemmas whose names end in `_dividing` say
  that a computation does not depend on the value.
- `Scalar.quotient_dividing`, `Scalar.share_dividing`, `divEach_dividing`: the quotients that
  routines are written in. The first one refuses to divide by zero by itself.
-/

namespace Sqp

/-- Real numbers with exact operations, except that `a` divided by zero is `z a`. -/
@[reducible] noncomputable def dividing (z : ℝ → ℝ) : Scalar ℝ :=
  { realScalar with div := fun a b => open Classical in if b = 0 then z a else a / b }

variable {z : ℝ → ℝ} {n : Nat}

/-- A quotient with any other divisor is the exact one. -/
theorem div_dividing (a : ℝ) {b : ℝ} (hb : b ≠ 0) :
    @HDiv.hDiv ℝ ℝ ℝ (@instHDiv ℝ (dividing z).toDiv) a b = a / b :=
  if_neg hb

/-- What is divided by zero. -/
theorem div_dividing_zero (a : ℝ) :
    @HDiv.hDiv ℝ ℝ ℝ (@instHDiv ℝ (dividing z).toDiv) a 0 = z a :=
  if_pos rfl

namespace Scalar

theorem epsilon_pos : 0 < (epsilon : ℝ) := by norm_num [epsilon]

theorem epsilon_dividing : @epsilon ℝ (dividing z) = epsilon := by
  have hspacings : (4503599627370496.0 : ℝ) ≠ 0 := by norm_num
  exact div_dividing 1 hspacings

/-- A refused quotient is not computed. -/
theorem quotient_dividing {m : Type → Type} [Monad m] [MonadExceptOf Error m] (a b : ℝ) :
    @quotient ℝ (dividing z) m _ _ a b = quotient a b := by
  by_cases hzero : isZero b = true
  · exact (if_pos hzero).trans (if_pos hzero).symm
  · have hb := mt (isZero_iff b).mpr hzero
    exact (if_neg hzero).trans ((congrArg pure (div_dividing a hb)).trans (if_neg hzero).symm)

/-- Both ways to compute a share divide by the same number. -/
theorem share_dividing (entries : Nat) (a : ℝ) {c : ℝ} (hc : c ≠ 0) :
    @share ℝ (dividing z) entries a c = share entries a c := by
  unfold share
  rw [div_dividing _ hc, div_dividing _ hc]

end Scalar

/-- A quotient of vectors needs every entry of the divisor to differ from zero. -/
theorem divEach_dividing (x : Vector ℝ n) {y : Vector ℝ n} (hy : ∀ i, y.get i ≠ 0) :
    @divEach ℝ (dividing z) n x y = divEach x y := by
  refine vector_ext fun i => ?_
  rw [get_divEach x y]
  exact (@get_divEach ℝ (dividing z) n x y i).trans (div_dividing _ (hy i))

end Sqp
