import Sqp.Linear.Mat

/-!
# Curvature matrices

The dense approximation of second derivatives that is carried from iteration to
iteration.

- `Curvature.update`: the rank-two secant update
  `h - (h s)(h s)ᵀ / (sᵀ h s) + y yᵀ / (sᵀ y)`, skipped unless both denominators are
  positive.
- `Curvature.symmetrize`, `Curvature.diagonalize`: rounding asymmetry or all cross
  curvature removed.
-/

namespace Sqp.Curvature

variable {α : Type} [Scalar α] {n : Nat}

/-- The secant update from a step `s` and the gradient change `y` along it. -/
def update (h : Mat α n n) (s y : Vector α n) : Mat α n n :=
  let hs := h.mulVec s
  let curvature := dot s hs
  let secant := dot s y
  if 0 < curvature ∧ 0 < secant then
    Mat.ofFn fun i j =>
      h.entry i j - Scalar.share (n * n) (hs.get i * hs.get j) curvature
        + Scalar.share (n * n) (y.get i * y.get j) secant
  else h

/-- The mean of a matrix and its transpose. -/
def symmetrize (h : Mat α n n) : Mat α n n := Mat.ofFn fun i j => 0.5 * (h.entry i j + h.entry j i)

/-- The diagonal of a matrix with zeros elsewhere. -/
def diagonalize (h : Mat α n n) : Mat α n n := Mat.diagonal h.diag

end Sqp.Curvature
