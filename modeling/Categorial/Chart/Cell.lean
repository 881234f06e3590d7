/-
  Categorial.Chart.Cell

  Chart cells: the analyses of one span, each with its probability.  No two have the same sign, and
  a beam keeps only the most probable ones.
-/

import Categorial.Chart.Entry

namespace Categorial

/-- How many entries a cell may hold. -/
inductive Inference where
  /-- Any number. -/
  | exact
  /-- The `size` most probable ones. -/
  | beam (size : Nat)
  deriving DecidableEq, Repr

/-- An entry with its probability. -/
structure Item where
  entry : Entry
  probability : Float

/-- The entries of one span with their probabilities. -/
abbrev Cell := List Item

namespace Cell

/-- Puts an item in the place of one with the same sign, if it is more probable, or else at the end
    if there is none. Also says whether the item is in the cell now. -/
def insert (item : Item) : Cell → Cell × Bool
  | [] => ([item], true)
  | other :: cell =>
    if other.entry.Equivalent item.entry then
      if other.probability < item.probability then (item :: cell, true) else (other :: cell, false)
    else
      let (cell, kept) := insert item cell
      (other :: cell, kept)

/-- The position of the last item of least probability, where `cell` starts at position `i`, and
    `worst` is the position of the item of least probability, `least`, before it. -/
def worstFrom : (i worst : Nat) → (least : Float) → Cell → Nat
  | _, worst, _, [] => worst
  | i, worst, least, item :: cell =>
    if item.probability ≤ least then worstFrom (i + 1) i item.probability cell
    else worstFrom (i + 1) worst least cell

/-- The position of the last item of least probability. -/
def worst : Cell → Nat
  | [] => 0
  | item :: cell => worstFrom 1 0 item.probability cell

/-- Offers an item to a cell. If a beam is exceeded, the last item of least probability goes. Also
    says whether the item is in the cell now. -/
def offer (inference : Inference) (item : Item) (cell : Cell) : Cell × Bool :=
  let (grown, kept) := cell.insert item
  match inference with
  | .exact => (grown, kept)
  | .beam size =>
    if grown.length ≤ size then (grown, kept)
    else
      let i := worst grown
      (grown.eraseIdx i, i + 1 ≠ grown.length)

/-- The items in the order of descending probability; ties stay in their order. -/
def ranked (cell : Cell) : Cell := sortBy (fun a b => b.probability ≤ a.probability) cell

end Cell

end Categorial
