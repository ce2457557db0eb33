import Sqp.Merit
import Sqp.Proofs.Linear.Entries
import Sqp.Proofs.Returns

/-!
# Residuals of lists

Cost values and slacks are handed over as lists. Lists of the right lengths are converted and
measured as vectors.

- `fitted_toList`, `onFitting_toList`: a list of the right length is taken as the vector that
  it is.
- `measureSlacks_toList`: residuals measured on lists are those measured on vectors.
-/

namespace Sqp

variable {β : Type} {e q n : Nat}

theorem fitted_toList (x : Vector β n) : fitted n x.toList = .ok x := by
  have hlength : x.toList.length = n := Vector.length_toList
  rw [fitted, dif_pos hlength]
  rfl

/-- A map of vectors is applied to a list of the expected length without a detour. -/
theorem onFitting_toList (f : Vector β n → Vector β n)
    (otherwise : List β → Except Error (List β)) (x : Vector β n) :
    onFitting f otherwise x.toList = .ok (f x).toList := by
  have hlength : x.toList.length = n := Vector.length_toList
  rw [onFitting, dif_pos hlength]
  rfl

variable [Scalar β]

theorem toList_sub (x y : Vector β n) :
    (x - y).toList = List.zipWith (· - ·) x.toList y.toList := by
  refine List.ext_getElem (by simp) fun i h₁ h₂ => ?_
  simp

/-- Residuals in order: the equality values, then the inequality values minus the slacks. -/
theorem toList_slackResiduals (c : Vector β (e + q)) (p : Vector β (q + n)) :
    (slackResiduals c p).toList =
      (front c).toList ++ List.zipWith (· - ·) (back c).toList (front p).toList := by
  rw [slackResiduals, Vector.toList_append, toList_sub]

/-- A cost vector of the right length is measured as a vector. -/
theorem measureSlacks_toList (c : Cost β (e + q)) (p : Vector β (q + n)) :
    measureSlacks e q c.toList p.toList =
      .ok (c.objective :: (slackResiduals c.constraints p).toList) := by
  -- objective and equality values come first, and after the inequality values there is nothing
  have hvalues : c.toList =
      (c.objective :: (front c.constraints).toList) ++ (back c.constraints).toList := by
    rw [Cost.toList, toList_eq_append c.constraints, List.cons_append]
  have hfirst : (c.objective :: (front c.constraints).toList).length = 1 + e := by
    rw [List.length_cons, Vector.length_toList, Nat.add_comm]
  have hrest : (back c.constraints).toList.length = q := Vector.length_toList
  unfold measureSlacks
  rw [toList_slackResiduals, ← toList_front, fitted_toList]
  split_ifs with hq
  · subst hq
    rw [hvalues, List.eq_nil_of_length_eq_zero hrest, List.zipWith_nil_left, List.append_nil,
      List.append_nil]
    rfl
  · have hend : c.toList.drop (1 + e + q) = [] :=
      List.drop_eq_nil_of_le (by rw [Cost.length_toList]; omega)
    rw [hend, hvalues, List.drop_left' hfirst, List.take_left' hfirst,
      List.take_of_length_le hrest.le]
    dsimp only
    rw [if_pos hrest, List.append_nil, List.cons_append]
    rfl

end Sqp
