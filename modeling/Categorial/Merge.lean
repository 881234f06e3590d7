/-
  Categorial.Merge

  Merging the semantics of signs.  What the signs know is first brought together over one set of
  variables; then pending dependencies are resolved, and what belongs to the variables of the result
  is carried over to its canonical form.
-/

import Categorial.Sign

namespace Categorial

/-- Assignments and dependencies over one set of variables. -/
structure Merge where
  assignments : List Assignment
  pending : List Pending
  abandoned : List Pending
  deriving DecidableEq, Repr

namespace Merge

/-- Nothing brought together yet. -/
def empty : Merge := ⟨[], [], []⟩

/-- Starts from a sign whose variables are those of the merge. -/
def ofSign (s : Sign) : Merge := ⟨s.assignments, s.unfilled, []⟩

/-- Takes in the assignments of a sign, as far as its variables have an image, and its pending
    dependencies. A dependency on a variable without an image is abandoned as it stands. -/
def absorb (m : Merge) (s : Sign) (heads : Renaming) : Merge where
  assignments := m.assignments ++
    s.assignments.filterMap fun a => (heads.image? a.var).map (⟨·, a.predicate⟩)
  pending := m.pending ++ s.unfilled.filterMap (·.rename? heads)
  abandoned := m.abandoned ++ s.unfilled.filter fun d => (d.rename? heads).isNone

/-- Adds pending dependencies. -/
def addPending (m : Merge) (ds : List Pending) : Merge := { m with pending := m.pending ++ ds }

/-- The predicates known for a variable, ascending. -/
def predicatesOf (m : Merge) (v : Var) : List Predicate :=
  sortedSet ((m.assignments.filter (·.var == v)).map Assignment.predicate)

/-- Resolves the pending dependencies and moves to the canonical form of `result`. Assignments to
    variables that `result` does not have are dropped, and dependencies that wait for such a
    variable are abandoned. -/
def finish (m : Merge) (result : Headed) : Combination :=
  let numbering := result.numbering
  let resolved := m.pending.map fun d => (d, d.resolve m.predicatesOf)
  let pending := resolved.flatMap fun (d, r) => r.pendingPart d
  { sign := .ofParts (result.rename numbering)
      (m.assignments.filterMap fun a => (numbering.image? a.var).map (⟨·, a.predicate⟩))
      (pending.filterMap (·.rename? numbering))
    filled := sorted (resolved.flatMap fun (_, r) => r.filledPart)
    abandoned := m.abandoned ++ pending.filter fun d => (d.rename? numbering).isNone }

end Merge

end Categorial
