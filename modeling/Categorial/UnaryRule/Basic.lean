/-
  Categorial.UnaryRule.Basic

  Unary rules: one category becomes another, as in type raising.  Input and result share their head
  variables, and no variable of the input may be lost.
-/

import Categorial.Category.Unification
import Categorial.LexicalCategory

namespace Categorial

/-- A rule that turns one category into another. -/
structure UnaryRule where
  input : Headed
  result : Headed
  dependencies : List LexicalDependency
  deriving DecidableEq, Repr

namespace UnaryRule

/-- Checks a dependency of a rule: both sides have to be variables of the result. -/
def checkDependency (result : Headed) (d : LexicalDependency) : Except Error Unit :=
  match d.subject with
  | .predicate _ => .error (.line (.predicateSubject d.render))
  | .var s =>
    match [s, d.object].find? fun v => !result.vars.contains v with
    | some v => .error (.undeclaredVariable d.render v result.render)
    | none => .ok ()

/-- A rule from its parts. Every variable of the input and of the dependencies has to occur in the
    result. -/
def make (input result : Headed) (ds : List LexicalDependency) : Except Error UnaryRule :=
  match input.vars.find? fun v => !result.vars.contains v with
  | some v => .error (.droppedVariable input.render result.render v)
  | none => do
    ds.forM (checkDependency result)
    return ⟨input, result, ds⟩

/-- Applies a rule to a sign, if its category unifies with the input of the rule. -/
def apply (mode : FeatureMode) (rule : UnaryRule) (s : Sign) : Option Combination :=
  (Headed.unify mode s.category rule.input).map fun u =>
    -- The subjects of a rule's dependencies are variables, so that no word position enters.
    ((Merge.empty.absorb s u.heads).addPending (rule.dependencies.map (·.instantiate 0))).finish
      (Headed.bindFeatures u.features rule.result)

/-- The input and the result, then every dependency after a comma. -/
def render (rule : UnaryRule) : String :=
  rule.input.render ++ " " ++ rule.result.render ++
    String.join (rule.dependencies.map fun d => ", " ++ d.render)

end UnaryRule

end Categorial
