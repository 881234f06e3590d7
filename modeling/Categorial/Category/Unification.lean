/-
  Categorial.Category.Unification

  Unification of a headed category with a pattern.  It aligns the head variables of the category
  with those of the pattern and collects the values that the feature variables of the pattern meet.
-/

import Categorial.Category.Renaming

namespace Categorial

/-- Whether the features of two categories have to agree. -/
inductive FeatureMode where
  /-- Two values have to be equal; anything else agrees. -/
  | strict
  /-- Features always agree. -/
  | ignore
  deriving DecidableEq, Repr

/-- Values of feature variables. The first pair of a variable counts. -/
abbrev FeatureBindings := List (Nat × String)

/-- What a unification has found so far. -/
structure Unifier where
  /-- The variables of the category, with those of the pattern that they face. -/
  heads : Renaming
  /-- The feature variables of the pattern, with the first value that each faces. -/
  features : FeatureBindings
  deriving DecidableEq, Repr

namespace Unifier

/-- Nothing found yet. -/
def empty : Unifier := ⟨[], []⟩

/-- Lets variable `v` face `w`; it fails if `v` faces another variable already. -/
def bindHead (u : Unifier) (v w : Var) : Except Unifier Unifier :=
  match u.heads.image? v with
  | none => .ok { u with heads := u.heads ++ [(v, w)] }
  | some w' => if w' = w then .ok u else .error u

/-- Lets the feature `actual` face the feature `pattern`. -/
def bindFeature (mode : FeatureMode) (u : Unifier) : (actual pattern : Feature) →
    Except Unifier Unifier
  | .value x, .var n =>
    match u.features.lookup n with
    | none => .ok { u with features := u.features ++ [(n, x)] }
    | some y => if mode = .strict ∧ x ≠ y then .error u else .ok u
  | .value x, .value y => if mode = .strict ∧ x ≠ y then .error u else .ok u
  | _, _ => .ok u

end Unifier

namespace Headed

/-- Unifies a category with a pattern, starting from what has been found before. A failure returns
    what was found up to it. -/
def unifyFrom (mode : FeatureMode) (u : Unifier) : (actual pattern : Headed) →
    Except Unifier Unifier
  | .atom name feature h, .atom name' feature' h' =>
    match u.bindHead h h' with
    | .error u => .error u
    | .ok u => if name = name' then u.bindFeature mode feature feature' else .error u
  | .func d r a h, .func d' r' a' h' =>
    match u.bindHead h h' with
    | .error u => .error u
    | .ok u =>
      if d = d' then
        match unifyFrom mode u r r' with
        | .error u => .error u
        | .ok u => unifyFrom mode u a a'
      else .error u
  | .atom _ _ _, .func _ _ _ _ => .error u
  | .func _ _ _ _, .atom _ _ _ => .error u

/-- Unifies a category with a pattern. -/
def unify (mode : FeatureMode) (actual pattern : Headed) : Option Unifier :=
  (unifyFrom mode .empty actual pattern).toOption

/-- Gives the bound feature variables their values. -/
def bindFeatures (bindings : FeatureBindings) : Headed → Headed
  | .atom name (.var n) h =>
    match bindings.lookup n with
    | some x => .atom name (.value x) h
    | none => .atom name (.var n) h
  | .atom name feature h => .atom name feature h
  | .func d r a h => .func d (bindFeatures bindings r) (bindFeatures bindings a) h

end Headed

end Categorial
