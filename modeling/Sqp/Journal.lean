import Sqp.Event
import Sqp.Scalar
import Sqp.Warning

/-!
# Journals

A run calls the cost function, reports its progress and emits warnings. All of this is
kept in a journal, which an error does not erase.

- `CostFunction`: objective, equality values and inequality values at a decision vector,
  computed with plain numbers.
- `Journal`: the decision vectors at which the cost function was called, the length of
  its first answer, the events and the emitted warnings.
- `Recorded`: computations that keep a journal and may fail.
- `evaluate`: one call of the cost function. A call that fails is not counted; an answer
  of another length than the first one is an error, after the call has been counted.
- `evaluateSized`: a call whose answer is split into objective and constraints.
-/

namespace Sqp

variable {α β : Type}

/-- A function from decision variables to objective, equality values and inequality
values, in this order; it may fail. -/
abbrev CostFunction (α : Type) : Type := List α → Except Error (List α)

/-- A cost vector: the objective and `m` constraint values. -/
structure Cost (β : Type) (m : Nat) where
  objective : β
  constraints : Vector β m

namespace Cost

/-- The cost vector of a list of one objective and `m` constraint values. -/
def ofList? {m : Nat} : List β → Option (Cost β m)
  | [] => none
  | objective :: rest =>
    if h : rest.length = m then some ⟨objective, ⟨rest.toArray, by simp [h]⟩⟩ else none

/-- Objective and constraint values in one list. -/
def toList {m : Nat} (c : Cost β m) : List β := c.objective :: c.constraints.toList

end Cost

/-- What a run leaves behind besides its answer. -/
structure Journal (α : Type) where
  /-- The decision vectors at which the cost function was called, oldest first. -/
  visited : Array (List α) := #[]
  /-- The length of the first cost vector. -/
  costLength? : Option Nat := none
  /-- The reported events, oldest first. -/
  events : Array (Event α) := #[]
  /-- The emitted warnings with their major iterations, oldest first. -/
  emitted : Array (Nat × Warning) := #[]

namespace Journal

/-- The number of calls of the cost function. -/
def evaluations (j : Journal α) : Nat := j.visited.size

/-- The texts of the emitted warnings. -/
def announcements (j : Journal α) : List String :=
  j.emitted.toList.map fun (iteration, w) => w.announcement iteration

/-- The log lines of the events that are kept. -/
def log (j : Journal Float) (lowest : Level) : List String :=
  (j.events.toList.filter fun event => lowest.kept event.level).map Event.line

end Journal

/-- Computations that keep a journal and may fail; a failure keeps the journal. -/
abbrev Recorded (α : Type) : Type → Type := ExceptT Error (StateM (Journal α))

/-- A computation that neither reads nor writes the journal. -/
def recorded {γ : Type} : Except Error γ → Recorded α γ
  | .ok c => pure c
  | .error cause => throw cause

/-- Reports an event. -/
def report (event : Event α) : Recorded α Unit :=
  modify fun j => { j with events := j.events.push event }

/-- Emits a warning of a major iteration. -/
def emit (iteration : Nat) (w : Warning) : Recorded α Unit :=
  modify fun j => { j with emitted := j.emitted.push (iteration, w) }

/-- Calls the cost function at an array of decision variables and counts the call. The
first answer fixes the length of all later ones. -/
def evaluate [Storage α β] (f : CostFunction α) (x : List β) : Recorded α (List β) := do
  let point := x.map load
  let cost ← recorded (f point)
  let expected? := (← get).costLength?
  modify fun j =>
    { j with visited := j.visited.push point, costLength? := j.costLength?.or (some cost.length) }
  match expected? with
  | none => return cost.map store
  | some expected =>
    if cost.length = expected then return cost.map store
    else throw (.precondition (.costLength cost.length expected))

/-- Calls the cost function for an objective and `m` constraint values. -/
def evaluateSized [Storage α β] (f : CostFunction α) (m : Nat) (x : List β) :
    Recorded α (Cost β m) := do
  let values ← evaluate f x
  match Cost.ofList? values with
  | some cost => return cost
  | none => throw (.precondition (.costLength values.length (1 + m)))

end Sqp
