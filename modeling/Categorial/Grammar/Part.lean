/-
  Categorial.Grammar.Part

  The fields of a grammar line that state semantics: `variable name` gives a name to a head variable,
  `subject argument variable` states a dependency.  A variable may stand in braces; a subject in
  braces is a variable, any other subject a predicate.
-/

import Categorial.LexicalCategory
import Categorial.Text.Numeral
import Categorial.Text.Quotation

namespace Categorial

open Text

/-- A statement of semantics. -/
inductive Part where
  | naming (v : Var) (name : String)
  | dependency (d : LexicalDependency)
  deriving DecidableEq, Repr

namespace Part

/-- Takes away a pair of enclosing braces. -/
def stripBraces : List Char → List Char
  | '{' :: cs => if cs.getLast? = some '}' then cs.dropLast else '{' :: cs
  | cs => cs

def readVariable (cs : List Char) : Except LineFault Var :=
  match readNumeral wordBound (stripBraces cs) with
  | some v => .ok v
  | none => .error (.noVariable (String.ofList cs))

def readSubject (cs : List Char) : Except LineFault Subject :=
  if cs.head? = some '{' then (readVariable cs).map .var
  else .ok (.predicate (String.ofList cs))

/-- Reads a dependency from its three words; `part` is the whole field. -/
def readDependency (part subject argument object : List Char) :
    Except LineFault LexicalDependency := do
  let subject ← readSubject subject
  match readNumeral wordBound argument with
  | none => throw (.badArgument (String.ofList argument) (String.ofList part))
  | some argument => return ⟨subject, argument, ← readVariable object⟩

/-- Reads a part: two words are a naming, three are a dependency. -/
def read (part : List Char) : Except LineFault Part :=
  match words part with
  | [v, name] => (readVariable v).map (.naming · (String.ofList name))
  | [subject, argument, object] =>
    (readDependency part subject argument object).map .dependency
  | _ => .error (.badPart (String.ofList part))

end Part

/-- Splits a grammar line into its fields. -/
def lineFields (line : List Char) : Except LineFault (List (List Char)) :=
  match splitFields line with
  | .ok fields => .ok fields
  | .error .danglingEscape => .error .danglingEscape
  | .error .unterminated => .error (.unterminatedQuote (String.ofList line))

end Categorial
