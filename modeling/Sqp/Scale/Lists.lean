import Sqp.Linear.Broadcast
import Sqp.Scale

/-!
# Scaling of lists

The conversions of a scale for lists of any length. A list of the right length is
converted as a vector; any other list is combined with the factors entry by entry, if it
can be.
-/

namespace Sqp.Scale

variable {β : Type} [Scalar β] {e q n : Nat}

/-- Cost values in scaled units. -/
def scaleCostValues (s : Scale β e q n) (values : List β) : Except Error (List β) :=
  match (Cost.ofList? values : Option (Cost β (e + q))) with
  | some c => pure (s.scaleCost c).toList
  | none => quotients values s.cost.toList

/-- Parameter values in scaled units. -/
def scaleParameterValues (s : Scale β e q n) : List β → Except Error (List β) :=
  onFitting s.scaleParameters fun values => quotients values s.parameters.toList

/-- Scaled parameter values in user units. -/
def unscaleParameterValues (s : Scale β e q n) : List β → Except Error (List β) :=
  onFitting s.unscaleParameters fun values => combine (· * ·) values s.parameters.toList

/-- Multipliers in scaled units. Without constraints they stay as they are, however many
there are. -/
def scaleMultiplierValues (s : Scale β e q n) (ys : List β) : Except Error (List β) :=
  if e + q = 0 then pure ys
  else onFitting s.scaleMultipliers (fun ys => do
    let products ← combine (· * ·) s.constraints.toList ys
    quotients products [s.objective]) ys

/-- Scaled multipliers in user units. Without constraints they stay as they are, however
many there are. -/
def unscaleMultiplierValues (s : Scale β e q n) (ys : List β) : Except Error (List β) :=
  if e + q = 0 then pure ys
  else onFitting s.unscaleMultipliers
    (fun ys => quotients (ys.map (s.objective * ·)) s.constraints.toList) ys

/-- The rows of bounds in scaled units; a single factor is shared by all rows. -/
def scaleBoundRows (s : Scale β e q n) (rows : List (Interval β)) :
    Except Error (List (Interval β)) :=
  match s.parameters.toList with
  | [c] => pure (rows.map fun row => row.divide c)
  | _ => do return (s.scaleBounds (← Bounds.ofRows (q + n) rows)).rows

/-- The decision variables of scaled parameter values in user units. -/
def userValues (s : Scale β e q n) (values : List β) : Except Error (List β) :=
  onFitting (fun x => s.userPoint (zeros β q ++ x))
    (fun x => combine (· * ·) x s.decisions.toList) (values.drop q)

end Sqp.Scale
