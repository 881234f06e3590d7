/-
  Categorial.UnaryRule.Reader

  Reading files of unary rules.  A line has the input and the result of a rule, separated by blanks,
  and any number of dependencies after commas.
-/

import Categorial.Category.Reader
import Categorial.Grammar.Lines
import Categorial.Grammar.Part
import Categorial.UnaryRule.Basic

namespace Categorial

open Text

namespace UnaryRule

/-- Reads a dependency of a rule; its subject has to be a variable. -/
def readPart (part : List Char) : Except Error LexicalDependency :=
  match Part.read part with
  | .error fault => .error (.line fault)
  | .ok (.dependency ⟨.var s, k, o⟩) => .ok ⟨.var s, k, o⟩
  | .ok _ => .error (.line (.badRulePart (String.ofList part)))

/-- Reads a rule from the field with its two categories and the fields after it. -/
def readFields (categories : List Char) (parts : List (List Char)) : Except Error UnaryRule :=
  match words categories with
  | [input, result] => do
    let input ← Headed.parse (String.ofList input)
    let result ← Headed.parse (String.ofList result)
    make input result (← (parts.filter (!·.isEmpty)).mapM readPart)
  | _ => .error (.line (.notTwoCategories (String.ofList categories)))

/-- Reads a rule from a line. -/
def read (line : List Char) : Except Error UnaryRule :=
  match lineFields line with
  | .error fault => .error (.line fault)
  | .ok [] => readFields [] []
  | .ok (categories :: parts) => readFields categories parts

def parse (s : String) : Except Error UnaryRule := read s.toList

/-- Reads a file of rules. -/
def parseAll (text : String) : Except Error (List UnaryRule) := readItems read text

end UnaryRule

end Categorial
