/-
  Categorial.Text.Escape

  Texts in double quotes, as error reports show them.  Quotes, backslashes and controls are escaped,
  and so is every character that would not show by itself.
-/

import Categorial.Text.Unprintable

namespace Categorial.Text

/-- The form of a character inside double quotes. -/
def escapeChar (c : Char) : List Char :=
  match c with
  | '"' => ['\\', '"']
  | '\\' => ['\\', '\\']
  | '\n' => ['\\', 'n']
  | '\r' => ['\\', 'r']
  | '\t' => ['\\', 't']
  | '\x00' => ['\\', '0']
  | c => if isUnprintable c then ['\\', 'u', '{'] ++ Nat.toDigits 16 c.toNat ++ ['}'] else [c]

/-- A text in double quotes. -/
def quoted (s : String) : String :=
  String.ofList ('"' :: s.toList.flatMap escapeChar ++ ['"'])

end Categorial.Text
