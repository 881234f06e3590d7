/-
  Categorial.Sign

  Signs: a canonical category together with what is known about its head variables.  Combinators and
  rules turn signs into signs; what they settle on the way is recorded beside the new sign.
-/

import Categorial.Dependency

namespace Categorial

/-- A predicate known for a variable. -/
structure Assignment where
  var : Var
  predicate : Predicate
  deriving DecidableEq, Repr

/-- Assignments are ordered by variable, then by predicate. -/
instance : Ord Assignment :=
  ⟨compareLex (compareOn Assignment.var) (compareOn Assignment.predicate)⟩

instance : Std.TransOrd Assignment :=
  inferInstanceAs (Std.TransCmp
    (compareLex (compareOn Assignment.var) (compareOn Assignment.predicate)))

/-- A category, the predicates known for its variables, and the dependencies that wait for more. -/
structure Sign where
  category : Headed
  assignments : List Assignment
  unfilled : List Pending
  deriving DecidableEq, Repr

namespace Sign

/-- A sign from its parts in any order: equal parts make equal signs. -/
def ofParts (category : Headed) (assignments : List Assignment) (unfilled : List Pending) : Sign :=
  ⟨category, sortedSet assignments, sorted unfilled⟩

/-- A sign without semantics. -/
def bare (c : Headed) : Sign := ofParts c.canonical [] []

/-- The predicates known for a variable. Assignments ascend, so that those of one variable stand
    side by side. -/
def predicatesOf (s : Sign) (v : Var) : List Predicate :=
  ((s.assignments.dropWhile (·.var < v)).takeWhile (·.var ≤ v)).map Assignment.predicate

/-- The predicates that head the whole sign. -/
def heads (s : Sign) : List Predicate := s.predicatesOf s.category.head

/-- The category, followed by the heads in brackets if there are any. -/
def render (s : Sign) : String :=
  s.category.render ++
    if s.heads.isEmpty then ""
    else " [" ++ String.intercalate " " (s.heads.map Predicate.render) ++ "]"

end Sign

/-- The outcome of a step that makes a sign. -/
structure Combination where
  sign : Sign
  /-- The dependencies that this step filled. -/
  filled : List Dependency
  /-- The pending dependencies whose variable is no longer part of the category. -/
  abandoned : List Pending
  deriving DecidableEq, Repr

end Categorial
