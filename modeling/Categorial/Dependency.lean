/-
  Categorial.Dependency

  Predicates, the dependencies between them, and dependencies that still wait for a predicate on one
  side or on both.
-/

import Categorial.Category.Renaming

namespace Categorial

/-! ## Predicates and filled dependencies -/

/-- A predicate, with the position of the word that brought it in. -/
structure Predicate where
  name : String
  index : Nat
  deriving DecidableEq, Repr

/-- Predicates are ordered by name, then by position. -/
instance : Ord Predicate := ⟨compareLex (compareOn Predicate.name) (compareOn Predicate.index)⟩

instance : Std.TransOrd Predicate :=
  inferInstanceAs (Std.TransCmp (compareLex (compareOn Predicate.name) (compareOn Predicate.index)))

instance : Std.LawfulEqOrd Predicate where
  eq_of_compare {a b} h := by
    obtain ⟨hn, hi⟩ := compareLex_eq_eq.1 h
    have hn : a.name = b.name := Std.LawfulEqOrd.eq_of_compare hn
    have hi : a.index = b.index := Std.LawfulEqOrd.eq_of_compare hi
    cases a
    cases b
    simp_all

def Predicate.render (p : Predicate) : String := p.name ++ "@" ++ toString p.index

/-- `object` fills argument number `argument` of `subject`. -/
structure Dependency where
  subject : Predicate
  argument : Nat
  object : Predicate
  deriving DecidableEq, Repr

/-- Dependencies are ordered by subject, argument number and object. -/
instance : Ord Dependency :=
  ⟨compareLex (compareOn Dependency.subject)
    (compareLex (compareOn Dependency.argument) (compareOn Dependency.object))⟩

/-- The text of a dependency, from the texts of its sides. -/
def renderDependency (subject : String) (argument : Nat) (object : String) : String :=
  "(" ++ subject ++ ", " ++ toString argument ++ ", " ++ object ++ ")"

def Dependency.render (d : Dependency) : String :=
  renderDependency d.subject.render d.argument d.object.render

/-! ## Pending dependencies -/

/-- A dependency with a head variable in place of one predicate or of both. -/
inductive Pending where
  /-- The object is a variable. -/
  | objectOpen (subject : Predicate) (argument : Nat) (object : Var)
  /-- The subject is a variable. -/
  | subjectOpen (subject : Var) (argument : Nat) (object : Predicate)
  /-- Both sides are variables. -/
  | bothOpen (subject : Var) (argument : Nat) (object : Var)
  deriving DecidableEq, Repr

namespace Pending

def argument : Pending → Nat
  | .objectOpen _ k _ => k
  | .subjectOpen _ k _ => k
  | .bothOpen _ k _ => k

def subjectVar? : Pending → Option Var
  | .objectOpen .. => none
  | .subjectOpen v _ _ => some v
  | .bothOpen v _ _ => some v

def objectVar? : Pending → Option Var
  | .objectOpen _ _ v => some v
  | .subjectOpen .. => none
  | .bothOpen _ _ v => some v

/-- The variables that a dependency waits for. -/
def vars (d : Pending) : List Var := d.subjectVar?.toList ++ d.objectVar?.toList

/-- The rank of the kind of a dependency in the order: open objects, open subjects, both open. -/
def rank : Pending → Nat
  | .objectOpen .. => 0
  | .subjectOpen .. => 1
  | .bothOpen .. => 2

/-- What the subject is ordered by; a variable counts as a predicate without a name. -/
def subjectKey : Pending → Predicate
  | .objectOpen s _ _ => s
  | .subjectOpen v _ _ => ⟨"", v⟩
  | .bothOpen v _ _ => ⟨"", v⟩

/-- What the object is ordered by; a variable counts as a predicate without a name. -/
def objectKey : Pending → Predicate
  | .objectOpen _ _ v => ⟨"", v⟩
  | .subjectOpen _ _ o => o
  | .bothOpen _ _ v => ⟨"", v⟩

/-- Pending dependencies are ordered by kind, subject, argument number and object. -/
instance : Ord Pending :=
  ⟨compareLex (compareOn rank)
    (compareLex (compareOn subjectKey) (compareLex (compareOn argument) (compareOn objectKey)))⟩

instance : Std.TransOrd Pending :=
  inferInstanceAs (Std.TransCmp (compareLex (compareOn rank)
    (compareLex (compareOn subjectKey) (compareLex (compareOn argument) (compareOn objectKey)))))

/-- Renames the variables, if all of them have an image. -/
def rename? (m : Renaming) : Pending → Option Pending
  | .objectOpen s k o => (m.image? o).map (.objectOpen s k ·)
  | .subjectOpen s k o => (m.image? s).map (.subjectOpen · k o)
  | .bothOpen s k o =>
    match m.image? s, m.image? o with
    | some s, some o => some (.bothOpen s k o)
    | _, _ => none

def render : Pending → String
  | .objectOpen s k o => renderDependency s.render k ("$" ++ toString o)
  | .subjectOpen s k o => renderDependency ("$" ++ toString s) k o.render
  | .bothOpen s k o => renderDependency ("$" ++ toString s) k ("$" ++ toString o)

end Pending

/-! ## Resolution -/

/-- What becomes of a pending dependency once predicates are known for variables. -/
inductive Resolution where
  /-- Both sides are known. -/
  | filled (dependencies : List Dependency)
  /-- One of two open sides is known. -/
  | narrowed (dependencies : List Pending)
  /-- No open side is known. -/
  | unchanged
  deriving DecidableEq, Repr

/-- Puts the predicates that `known` gives for a variable in its place. Each choice of predicates
    gives one dependency, the subject's predicates varying more slowly. -/
def Pending.resolve (known : Var → List Predicate) : Pending → Resolution
  | .objectOpen s k o =>
    match known o with
    | [] => .unchanged
    | objects => .filled (objects.map fun o => ⟨s, k, o⟩)
  | .subjectOpen s k o =>
    match known s with
    | [] => .unchanged
    | subjects => .filled (subjects.map fun s => ⟨s, k, o⟩)
  | .bothOpen s k o =>
    match known s, known o with
    | [], [] => .unchanged
    | [], objects => .narrowed (objects.map fun o => .subjectOpen s k o)
    | subjects, [] => .narrowed (subjects.map fun s => .objectOpen s k o)
    | subjects, objects => .filled (subjects.flatMap fun s => objects.map fun o => ⟨s, k, o⟩)

/-- The dependencies that a resolution fills. -/
def Resolution.filledPart : Resolution → List Dependency
  | .filled ds => ds
  | _ => []

/-- The dependencies that are pending after a resolution of `d`. -/
def Resolution.pendingPart (d : Pending) : Resolution → List Pending
  | .filled _ => []
  | .narrowed ds => ds
  | .unchanged => [d]

end Categorial
