/-
  Categorial.LexicalCategory

  Lexical categories: a canonical headed category, with hand-written semantics or without.  The
  semantics names predicates for the head variables and states dependencies among them.
-/

import Categorial.Error
import Categorial.LogicalForm
import Categorial.Merge

namespace Categorial

/-! ## Lexical dependencies -/

/-- The subject of a lexical dependency. -/
inductive Subject where
  /-- A predicate of the word itself. -/
  | predicate (name : String)
  /-- Whatever the variable stands for. -/
  | var (v : Var)
  deriving DecidableEq, Repr

def Subject.render : Subject → String
  | .predicate name => name
  | .var v => renderHead v

/-- A dependency as a grammar states it: what `object` stands for fills argument number `argument`
    of `subject`. -/
structure LexicalDependency where
  subject : Subject
  argument : Nat
  object : Var
  deriving DecidableEq, Repr

namespace LexicalDependency

def render (d : LexicalDependency) : String :=
  d.subject.render ++ " " ++ toString d.argument ++ " " ++ toString d.object

/-- The variables of a dependency, the object's first. -/
def vars (d : LexicalDependency) : List Var :=
  match d.subject with
  | .var v => [d.object, v]
  | .predicate _ => [d.object]

def rename (m : Renaming) (d : LexicalDependency) : LexicalDependency where
  subject := match d.subject with
    | .var v => .var (m.apply v)
    | .predicate name => .predicate name
  argument := d.argument
  object := m.apply d.object

/-- The dependency that a word at a position brings in. -/
def instantiate (index : Nat) (d : LexicalDependency) : Pending :=
  match d.subject with
  | .predicate name => .objectOpen ⟨name, index⟩ d.argument d.object
  | .var v => .bothOpen v d.argument d.object

end LexicalDependency

/-! ## Lexical categories -/

/-- The semantics of a lexical category: the names for each of its variables, in the order of the
    variables, and its dependencies. -/
structure Semantics where
  names : List (List String)
  dependencies : List LexicalDependency
  deriving DecidableEq, Repr

/-- A category that a word can have. -/
structure LexicalCategory where
  category : Headed
  semantics : Option Semantics
  deriving DecidableEq, Repr

namespace LexicalCategory

/-- A lexical category without semantics. -/
def ofCategory (c : Headed) : LexicalCategory := ⟨c.canonical, none⟩

/-- The first variable of a dependency that is none of `vars`. -/
def undeclared? (vars : List Var) (d : LexicalDependency) : Option Var :=
  d.vars.find? fun v => !vars.contains v

/-- The first dependency with a variable that is none of `vars`, and that variable. -/
def firstUndeclared? (vars : List Var) (ds : List LexicalDependency) :
    Option (LexicalDependency × Var) :=
  ds.findSome? fun d => (undeclared? vars d).map (d, ·)

/-- Moves the semantics of a category to its canonical form. -/
def canonicalSemantics (c : Headed) (s : Semantics) : Semantics where
  names := c.labels.eraseDups.map fun v => sortedSet (((c.vars.zip s.names).lookup v).getD [])
  dependencies := s.dependencies.map (·.rename c.numbering)

/-- A lexical category with semantics. There has to be one list of names per variable, and no
    dependency may mention another variable. -/
def withSemantics (c : Headed) (s : Semantics) : Except Error LexicalCategory :=
  let vars := c.vars
  if s.names.length ≠ vars.length then
    .error (.assignmentArity c.render vars.length s.names.length)
  else match firstUndeclared? vars s.dependencies with
    | some (d, v) => .error (.undeclaredVariable d.render v c.render)
    | none => .ok ⟨c.canonical, some (canonicalSemantics c s)⟩

/-- The lists of names; none without semantics. -/
def names (c : LexicalCategory) : List (List String) :=
  match c.semantics with
  | some s => s.names
  | none => []

/-- The dependencies; none without semantics. -/
def dependencies (c : LexicalCategory) : List LexicalDependency :=
  match c.semantics with
  | some s => s.dependencies
  | none => []

/-- Each name with its variable. -/
def namings (c : LexicalCategory) : List (Var × String) :=
  c.names.zipIdx.flatMap fun (names, v) => names.map (v, ·)

/-- The names for the head of the whole category. -/
def heads? (c : LexicalCategory) : Option (List String) :=
  c.semantics.bind fun s => s.names[c.category.head]?

/-- The sign of a word with this category, when the last token of the word is at `index`.
    Dependencies between variables that have names are filled at once. -/
def signAt (c : LexicalCategory) (index : Nat) : Combination :=
  Merge.finish
    { assignments := c.namings.map fun (v, name) => ⟨v, name, index⟩
      pending := c.dependencies.map (·.instantiate index)
      abandoned := [] }
    c.category

/-- The logical form guessed from the category; the semantics is not looked at. -/
def logicalForm (c : LexicalCategory) : Except Error LogicalForm := LogicalForm.induce c.category

/-- The category, then every naming and every dependency, separated by commas. -/
def render (c : LexicalCategory) : String :=
  c.category.render ++
    String.join (c.namings.map fun (v, name) => ", " ++ toString v ++ " " ++ name) ++
    String.join (c.dependencies.map fun d => ", " ++ d.render)

end LexicalCategory

end Categorial
