/-
  Categorial.Text.CodeRange

  Sets of characters given by a table of ranges of code points.
-/

namespace Categorial.Text

/-- A table of ranges of code points; both ends of a range belong to it. -/
abbrev CodeRanges := List (Nat × Nat)

/-- Whether a character lies in one of the ranges. -/
def CodeRanges.has (ranges : CodeRanges) (c : Char) : Bool :=
  ranges.any fun range => range.1 ≤ c.toNat && c.toNat ≤ range.2

/-- Whether the ranges are non-empty and ascending, with a gap between any two. -/
def CodeRanges.ascending : CodeRanges → Bool
  | [] => true
  | [range] => range.1 ≤ range.2
  | range :: next :: ranges =>
    range.1 ≤ range.2 && range.2 + 1 < next.1 && CodeRanges.ascending (next :: ranges)

end Categorial.Text
