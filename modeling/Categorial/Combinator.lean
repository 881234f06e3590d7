/-
  Categorial.Combinator

  The binary combinators: application and harmonic composition, in both directions.
-/

import Categorial.Category.Unification
import Categorial.Merge

namespace Categorial

namespace Sign

/-- Application: `X/Y` and `Y` give `X`, and so do `Y` and `X\Y`. The argument has to unify with
    what the functor looks for; feature variables bound on the way get their values in the result. -/
def apply (mode : FeatureMode) (dir : Direction) (functor argument : Sign) : Option Combination :=
  match functor.category with
  | .func d result wanted _ =>
    if d = dir then
      (Headed.unify mode argument.category wanted).map fun u =>
        ((Merge.ofSign functor).absorb argument u.heads).finish
          (Headed.bindFeatures u.features result)
    else none
  | .atom .. => none

/-- Gives the variables without an image the numbers from `fresh` on. -/
def extendFresh (m : Renaming) : (fresh : Var) → List Var → Renaming
  | _, [] => m
  | fresh, v :: vs =>
    if (m.image? v).isSome then extendFresh m fresh vs
    else extendFresh (m ++ [(v, fresh)]) (fresh + 1) vs

/-- Composition: `X/Y` and `Y/Z` give `X/Z`, and `Y\Z` and `X\Y` give `X\Z`. The variables of the
    second category that face none of the functor's get numbers above the functor's. -/
def compose (mode : FeatureMode) (dir : Direction) (functor other : Sign) : Option Combination :=
  match functor.category, other.category with
  | .func d result wanted _, .func d' offered argument _ =>
    if d = dir ∧ d' = dir then
      (Headed.unify mode offered wanted).map fun u =>
        let heads := extendFresh u.heads (functor.category.maxVar + 1) other.category.vars
        ((Merge.ofSign functor).absorb other heads).finish
          (.func dir (Headed.bindFeatures u.features result) (Headed.rename heads argument)
            result.label)
    else none
  | _, _ => none

end Sign

/-- A binary combinator. -/
inductive Combinator where
  | forwardApplication
  | backwardApplication
  | forwardComposition
  | backwardComposition
  deriving DecidableEq, Repr

def Combinator.render : Combinator → String
  | .forwardApplication => ">"
  | .backwardApplication => "<"
  | .forwardComposition => ">B"
  | .backwardComposition => "<B"

/-- Combines two adjacent signs by one combinator. -/
def Combinator.apply (mode : FeatureMode) (left right : Sign) : Combinator → Option Combination
  | .forwardApplication => left.apply mode .forward right
  | .backwardApplication => right.apply mode .backward left
  | .forwardComposition => left.compose mode .forward right
  | .backwardComposition => right.compose mode .backward left

/-- The combinators that a parser may use, and how it treats features. -/
structure Combinators where
  composition : Bool
  features : FeatureMode
  deriving DecidableEq, Repr

namespace Combinators

/-- The combinators in the order in which they are tried. -/
def toList (set : Combinators) : List Combinator :=
  [.forwardApplication, .backwardApplication] ++
    if set.composition then [.forwardComposition, .backwardComposition] else []

/-- Every way in which two adjacent signs combine. -/
def combine (set : Combinators) (left right : Sign) : List (Combinator × Combination) :=
  set.toList.filterMap fun c => (c.apply set.features left right).map (c, ·)

end Combinators

end Categorial
