/-
  Categorial.LogicalForm

  Logical forms guessed from a category alone.  A category with arguments becomes a lambda term with
  one parameter per argument; its body is headed by the argument that heads the final result or, if
  none does, by the last argument that looks like the category left after consuming it.
-/

import Categorial.Category.Renaming
import Categorial.Error

namespace Categorial

/-- The body of a lambda term. -/
inductive Body where
  | var (v : Var)
  | app (function : Var) (arguments : List Var)
  deriving DecidableEq, Repr

/-- A guessed logical form. -/
inductive LogicalForm where
  | lambda (parameters : List Var) (body : Body)
  /-- The category is an atom other than `S`. -/
  | unknown
  /-- No argument can be made out as the head of the result. -/
  | indeterminate
  deriving DecidableEq, Repr

namespace LogicalForm

/-- Each argument along the result spine, outermost first, with the category left after it. -/
def spine : Headed → List (Headed × Headed)
  | .atom .. => []
  | .func _ r a _ => (a, r) :: spine r

/-- The head of the last argument that, features aside, looks like the category left after it. -/
def lookalikeHead? (c : Headed) : Option Var :=
  (((spine c).filter fun (a, r) => a.withoutFeatures.unifiable r.withoutFeatures).getLast?).map
    (·.1.head)

/-- The first element that has occurred before. -/
def firstRepeated? : (seen : List Var) → List Var → Option Var
  | _, [] => none
  | seen, v :: vs => if v ∈ seen then some v else firstRepeated? (v :: seen) vs

/-- The argument that heads the body. -/
def headArgument? (c : Headed) : Option Headed :=
  (c.arguments.find? fun (a : Headed) => a.head == c.target.label) <|>
    (lookalikeHead? c).bind fun h => c.arguments.find? fun (a : Headed) => a.head == h

/-- The body headed by an argument. -/
def bodyOf (a : Headed) : Body :=
  if a.isAtom then .var a.head else .app a.head (a.arguments.map Headed.head)

/-- Guesses a logical form. It fails if two arguments are headed by one variable. -/
def induce (c : Headed) : Except Error LogicalForm :=
  let parameters := c.arguments.map Headed.head
  match firstRepeated? [] parameters with
  | some v => .error (.ambiguousArguments c.render v)
  | none =>
    if parameters.isEmpty ∧ c.target.name? ≠ some "S" then .ok .unknown
    else match headArgument? c with
      | some a => .ok (.lambda parameters (bodyOf a))
      | none => .ok .indeterminate

/-- The text of a variable in a logical form. -/
def renderVar (v : Var) : String := "$" ++ toString v

/-- The texts of variables, each after a space. -/
def renderVars (vs : List Var) : String := String.join (vs.map fun v => " " ++ renderVar v)

end LogicalForm

def Body.render : Body → String
  | .var v => LogicalForm.renderVar v
  | .app f vs => "(" ++ LogicalForm.renderVar f ++ LogicalForm.renderVars vs ++ ")"

def LogicalForm.render : LogicalForm → String
  | .lambda vs body => "(lambda" ++ renderVars vs ++ " " ++ body.render ++ ")"
  | .unknown => "unknown"
  | .indeterminate => "indeterminate"

end Categorial
