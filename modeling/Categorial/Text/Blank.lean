/-
  Categorial.Text.Blank

  Blank characters, and the cuts that a text gets at them: trimming at both ends, skipping at the
  front, splitting into words and into lines.  Texts are lists of characters here, so that each cut
  is an ordinary list function.
-/

namespace Categorial.Text

/-- The characters with the Unicode property `White_Space`. -/
def isBlank (c : Char) : Bool :=
  let n := c.toNat
  (0x9 ≤ n && n ≤ 0xD) || n == 0x20 || n == 0x85 || n == 0xA0 || n == 0x1680 ||
    (0x2000 ≤ n && n ≤ 0x200A) || n == 0x2028 || n == 0x2029 || n == 0x202F || n == 0x205F ||
    n == 0x3000

/-- Drops the blanks in front. -/
def skipBlanks (cs : List Char) : List Char := cs.dropWhile isBlank

/-- Drops the blanks at both ends. -/
def trim (cs : List Char) : List Char := (skipBlanks (skipBlanks cs).reverse).reverse

/-- Cuts a text at every character that satisfies `cut`; the cut characters are dropped. There is
    one piece more than there are cuts, and a piece may be empty. -/
def splitWhere (cut : Char → Bool) : List Char → List (List Char)
  | [] => [[]]
  | c :: cs =>
    if cut c then [] :: splitWhere cut cs
    else match splitWhere cut cs with
      | [] => [[c]]
      | piece :: pieces => (c :: piece) :: pieces

/-- The maximal runs of characters that are not blank. -/
def words (cs : List Char) : List (List Char) :=
  (splitWhere isBlank cs).filter fun piece => !piece.isEmpty

/-- The pieces between line feeds. A carriage return before a line feed stays on its line; every
    reader of lines trims them. -/
def lines (cs : List Char) : List (List Char) := splitWhere (· == '\n') cs

/-- The words of a string. -/
def wordsOf (s : String) : List String := (words s.toList).map String.ofList

theorem splitWhere_ne_nil (cut : Char → Bool) (cs : List Char) : splitWhere cut cs ≠ [] := by
  cases cs with
  | nil => simp [splitWhere]
  | cons c cs =>
    simp only [splitWhere]
    split
    · simp
    · split <;> simp

end Categorial.Text
