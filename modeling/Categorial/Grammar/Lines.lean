/-
  Categorial.Grammar.Lines

  Grammar files: one item per line.  Blanks around a line do not count; empty lines and lines that
  start with `//` are passed over, but they are counted.
-/

import Categorial.Error
import Categorial.Text.Blank

namespace Categorial

open Text

/-- Whether a trimmed line holds an item. -/
def holdsItem (line : List Char) : Bool :=
  match line with
  | [] => false
  | '/' :: '/' :: _ => false
  | _ => true

/-- The lines that hold an item, trimmed, each with its number counted from one. -/
def itemLines (text : String) : List (Nat × List Char) :=
  ((lines text.toList).zipIdx 1).filterMap fun (line, number) =>
    let line := trim line
    if holdsItem line then some (number, line) else none

/-- Reads the item of every line. The first line that cannot be read is reported by its number. -/
def readItems {α : Type} (readItem : List Char → Except Error α) (text : String) :
    Except Error (List α) :=
  (itemLines text).mapM fun (number, line) => (readItem line).mapError (.atLine number)

end Categorial
