/-
  Categorial.Text.Quotation

  Comma-separated fields.  A double quote opens or closes a quotation anywhere in a field and is not
  part of it; inside a quotation a comma is an ordinary character and a tilde stands for the
  character after it.
-/

import Categorial.Text.Blank

namespace Categorial.Text

/-- How a line can end too early. -/
inductive QuotationFault where
  /-- The line ends inside a quotation. -/
  | unterminated
  /-- The line ends right after an escaping tilde. -/
  | danglingEscape
  deriving DecidableEq, Repr

/-- Puts a character in front of the first field. -/
def prependToFirst (c : Char) : List (List Char) → List (List Char)
  | [] => [[c]]
  | field :: fields => (c :: field) :: fields

/-- The fields of a text that starts inside a quotation (`quoted`) or outside one, blanks and all. -/
def rawFields : (quoted : Bool) → List Char → Except QuotationFault (List (List Char))
  | false, [] => .ok [[]]
  | true, [] => .error .unterminated
  | quoted, '"' :: cs => rawFields (!quoted) cs
  | true, ['~'] => .error .danglingEscape
  | true, '~' :: c :: cs => (rawFields true cs).map (prependToFirst c)
  | false, ',' :: cs => (rawFields false cs).map ([] :: ·)
  | quoted, c :: cs => (rawFields quoted cs).map (prependToFirst c)

/-- Splits a line at the commas outside quotations and trims each field. -/
def splitFields (line : List Char) : Except QuotationFault (List (List Char)) :=
  (rawFields false line).map (·.map trim)

end Categorial.Text
