import Sqp.Proofs.LineSearch.Course
import Sqp.Proofs.Scalar.Double

/-!
# Line searches over undefined merits

A merit function may have no value between the start of a search and its trial point. Every
decision of a search is a comparison that fails on an undefined merit, so what such a merit
does depends on where it is met.

- `bracketAfter`: the bracket of a search after each bisection.
- `lastMerit`: the merit that a search looks up last.
- `searchOf_defined`: a search returns a defined merit if and only if the last one was defined,
  and if no bisection was blind, this merit is no larger than the one at the start.
- `searchOf_leaves_start`: otherwise a search may leave a start that is the only point with a
  merit.
-/

namespace Sqp.LineSearch

open Scalar (Defined)

variable {α β : Type} [Scalar α] [Scalar β] [Storage α β] {n : Nat}

/-! ## The course of a search -/

/-- A bracket with its middle halfway between its ends. -/
def Bracket.probed (f : Vector β n → α) (start trial : Vector β n) (b : Bracket α β n) :
    Bracket α β n :=
  b.halved start trial (f (along start trial b.middle))

/-- The bracket of a search with the merit function `f` after `k` bisections. -/
def bracketAfter (f : Vector β n → α) (start trial : Vector β n) : Nat → Bracket α β n
  | 0 => opening start trial (f start) (f trial)
  | k + 1 => ((bracketAfter f start trial k).probed f start trial).narrow

/-- The merit that a search looks up last if it makes `k` bisections; before the first one it
knows that of the start. -/
def lastMerit (f : Vector β n → α) (start trial : Vector β n) : Nat → α
  | 0 => f start
  | k + 1 => f (along start trial (bracketAfter f start trial k).middle)

variable (f : Vector β n → α) (start trial : Vector β n)

/-- The outcome of a search is read off the bracket after its last bisection. -/
theorem searchOf_eq (tolerance : α) :
    searchOf f start trial (f start) tolerance =
      (bracketAfter f start trial (searchOf f start trial (f start) tolerance).steps).outcome
        (searchOf f start trial (f start) tolerance).steps := by
  have hcourse : ∃ b, b = bracketAfter f start trial
        (searchOf f start trial (f start) tolerance).steps ∧
      searchOf f start trial (f start) tolerance =
        b.outcome (searchOf f start trial (f start) tolerance).steps :=
    searchOf_of_invariant (I := fun k b => b = bracketAfter f start trial k) rfl
      fun k b hb => by rw [hb]; rfl
  obtain ⟨b, rfl, hsearch⟩ := hcourse
  exact hsearch

/-- All merits of a bracket belong to their points. -/
theorem bracketAfter_merits (k : Nat) :
    (bracketAfter f start trial k).All fun t => t.merit = f t.point := by
  induction k with
  | zero => exact ⟨rfl, rfl, rfl⟩
  | succ k ih => exact Bracket.All.narrow ⟨ih.low, rfl, ih.high⟩

theorem bracketAfter_mid (k : Nat) :
    (bracketAfter f start trial k).mid.merit = lastMerit f start trial k := by
  cases k with
  | zero => rfl
  | succ k =>
    rw [bracketAfter, Bracket.narrow_mid]
    rfl

/-- As long as no bisection is blind, the low end is no worse than the start. -/
theorem bracketAfter_low_le [Scalar.Ordered α] (hstart : Defined (f start)) {k : Nat}
    (hsight : ∀ j < k, ¬ ((bracketAfter f start trial j).probed f start trial).Blind) :
    (bracketAfter f start trial k).low.merit ≤ f start := by
  induction k with
  | zero => exact hstart
  | succ k ih =>
    -- the low end has had a merit so far, so one more step with open eyes compares it
    have hlow := ih fun j hj => hsight j (Nat.lt_succ_of_lt hj)
    have hdefined := (Scalar.Ordered.defined_of_le _ _ hlow).1
    have hstep : (bracketAfter f start trial (k + 1)).low.merit ≤
        (bracketAfter f start trial k).low.merit :=
      Bracket.narrow_low_le hdefined (hsight k (Nat.lt_succ_self k))
    exact Scalar.Ordered.le_trans _ _ _ hstep hlow

/-! ## The outcome of a search -/

/-- From a start with a defined merit, a search returns the merit of the point it returns. It
is defined if and only if the merit looked up last is. It is no larger than the merit at the
start unless some bisection is blind, and only such a bisection takes the merit from the low
end of the bracket. -/
theorem searchOf_defined [Scalar.Ordered α] (tolerance : α) (hstart : Defined (f start)) :
    (searchOf f start trial (f start) tolerance).merit =
        f (searchOf f start trial (f start) tolerance).parameters ∧
      (Defined (searchOf f start trial (f start) tolerance).merit ↔
        Defined (lastMerit f start trial (searchOf f start trial (f start) tolerance).steps)) ∧
      ((∀ k < (searchOf f start trial (f start) tolerance).steps,
          ¬ ((bracketAfter f start trial k).probed f start trial).Blind) →
        Defined (searchOf f start trial (f start) tolerance).merit →
          (searchOf f start trial (f start) tolerance).merit ≤ f start) ∧
      ∀ k, Defined (bracketAfter f start trial k).low.merit →
        (((bracketAfter f start trial k).probed f start trial).Blind ↔
          ¬ Defined (bracketAfter f start trial (k + 1)).low.merit) := by
  have hsearch := searchOf_eq f start trial tolerance
  -- of the search itself only the number of its bisections matters from here on
  generalize searchOf f start trial (f start) tolerance = o at hsearch
  have hmerit : o.merit = (bracketAfter f start trial o.steps).accepted.merit :=
    congrArg Outcome.merit hsearch
  have hpoint : o.parameters = (bracketAfter f start trial o.steps).accepted.point :=
    congrArg Outcome.parameters hsearch
  refine ⟨?_, ?_, fun hsight hdefined => ?_, fun k hlow => ⟨Bracket.Blind.narrow_low, ?_⟩⟩
  · rw [hmerit, hpoint]
    exact (bracketAfter_merits f start trial o.steps).accepted
  · rw [hmerit, Bracket.defined_accepted_iff, bracketAfter_mid]
  · have hlow := bracketAfter_low_le f start trial hstart hsight
    rw [hmerit] at hdefined ⊢
    exact Scalar.Ordered.le_trans _ _ _
      (Bracket.accepted_le_low (Scalar.Ordered.defined_of_le _ _ hlow).1 hdefined) hlow
  · intro hundefined
    by_contra hsight
    have hle : (bracketAfter f start trial (k + 1)).low.merit ≤
        (bracketAfter f start trial k).low.merit := Bracket.narrow_low_le hlow hsight
    exact hundefined (Scalar.Ordered.defined_of_le _ _ hle).1

/-- A merit that is one minus `x`, computed so that it is undefined at one. -/
def gap (p : Vector Cell 1) : Float :=
  (1 - load (p.get (Fin.last 0))) * (1 - load (p.get (Fin.last 0))) /
    (1 - load (p.get (Fin.last 0)))

/-- A trial point without a merit does not mislead a search. -/
theorem searchOf_defined_gap :
    Defined (gap #v[0]) ∧ ¬ Defined (gap #v[1]) ∧
      Defined (searchOf gap #v[0] #v[1] (gap #v[0]) 0.5).merit ∧
      (searchOf gap #v[0] #v[1] (gap #v[0]) 0.5).merit ≤ gap #v[0] := by
  have hstart : Defined (gap #v[0]) := by decide +kernel
  obtain ⟨-, hdefined, hle, -⟩ := searchOf_defined gap #v[0] #v[1] 0.5 hstart
  have hlast := hdefined.mpr (by decide +kernel)
  exact ⟨hstart, by decide +kernel, hlast, hle (by decide +kernel) hlast⟩

/-- A merit that is the root of `-x`, so that it is defined up to zero only. -/
def rootOfNegative (p : Vector Cell 1) : Float := Scalar.sqrt (-load (p.get (Fin.last 0)))

/-- A search from zero to one gives up the only point that has a merit. -/
theorem searchOf_leaves_start :
    Defined (rootOfNegative #v[0]) ∧ (0 : Float) < 0.5 ∧
      ¬ Defined (searchOf rootOfNegative #v[0] #v[1] (rootOfNegative #v[0]) 0.5).merit := by
  decide +kernel

end Sqp.LineSearch
