/-
  Categorial.Lexicon.Reader

  Reading lexicon files.  A line has the words of an entry, its category, and any number of parts
  that state its semantics, separated by commas.
-/

import Categorial.Category.Reader
import Categorial.Grammar.Lines
import Categorial.Grammar.Part
import Categorial.Lexicon.Basic

namespace Categorial

open Text

namespace LexicalCategory

/-- Adds a name to the list of a variable. -/
def addName (v : Var) (name : String) : List Var → List (List String) → List (List String)
  | w :: ws, ns :: nss => if w = v then (ns ++ [name]) :: nss else ns :: addName v name ws nss
  | _, nss => nss

/-- Takes a part into the semantics of `c`. -/
def addPart (c : Headed) (s : Semantics) (part : List Char) : Except Error Semantics :=
  match Part.read part with
  | .error fault => .error (.line fault)
  | .ok (.dependency d) => .ok { s with dependencies := s.dependencies ++ [d] }
  | .ok (.naming v name) =>
    if v ∈ c.vars then .ok { s with names := addName v name c.vars s.names }
    else .error (.undeclaredVariable (String.ofList part) v c.render)

/-- Reads the semantics of a category from its parts. Empty parts are passed over; if there are no
    others, there is no semantics. -/
def readParts (c : Headed) (parts : List (List Char)) : Except Error LexicalCategory :=
  match parts.filter (!·.isEmpty) with
  | [] => .ok (.ofCategory c)
  | parts =>
    (parts.foldlM (addPart c) ⟨c.vars.map fun _ => [], []⟩).bind (withSemantics c)

end LexicalCategory

namespace LexicalEntry

/-- Reads an entry from its words and the fields after them. -/
def readFields (ws category : List Char) (parts : List (List Char)) : Except Error LexicalEntry :=
  match Text.words ws with
  | [] => .error (.line .noWords)
  | ws => do
    let c ← Headed.parse (String.ofList category)
    return ⟨ws.map String.ofList, ← LexicalCategory.readParts c parts⟩

/-- Reads an entry from a line. -/
def read (line : List Char) : Except Error LexicalEntry :=
  match lineFields line with
  | .error fault => .error (.line fault)
  | .ok (ws :: category :: parts) => readFields ws category parts
  | .ok _ => .error (.line (.tooFewFields (String.ofList line)))

def parse (s : String) : Except Error LexicalEntry := read s.toList

end LexicalEntry

/-- Reads a lexicon file. -/
def Lexicon.parse (text : String) : Except Error Lexicon :=
  (readItems LexicalEntry.read text).map .ofList

end Categorial
