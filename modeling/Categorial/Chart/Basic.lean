/-
  Categorial.Chart.Basic

  Charts: a triangular table with one cell per span of a sentence.
-/

import Categorial.Chart.Cell
import Categorial.Decimal
import Categorial.Filter

namespace Categorial

/-- A span that lies outside a chart. -/
structure OutsideSpan where
  span : Span
  length : Nat
  deriving DecidableEq, Repr

def OutsideSpan.message (o : OutsideSpan) : String :=
  "span " ++ o.span.render ++ " outside chart of length " ++ toString o.length

/-- A table of cells for a sentence of `length` words. -/
structure Chart where
  length : Nat
  inference : Inference
  filter : Filter
  cells : Array Cell

namespace Chart

/-- A chart without entries. -/
def empty (length : Nat) (inference : Inference) (filter : Filter) : Chart :=
  ⟨length, inference, filter, Array.replicate (Span.count length) []⟩

/-- The cell of a span; empty outside the chart. -/
def cell (chart : Chart) (span : Span) : Cell :=
  if span.Within chart.length then chart.cells.getD span.index [] else []

/-- Replaces the cell of a span; outside the chart nothing changes. -/
def setCell (chart : Chart) (span : Span) (cell : Cell) : Chart :=
  if span.Within chart.length then
    { chart with cells := chart.cells.setIfInBounds span.index cell }
  else chart

/-- Whether an entry with this probability may enter the cell of a span. -/
def admits (chart : Chart) (item : Item) (span : Span) : Bool :=
  0 < item.probability && chart.filter item.entry span

/-- Offers items for a span to a cell one after the other. Those that may not enter are left out. -/
def offerAll (chart : Chart) (span : Span) (cell : Cell) (items : List Item) : Cell :=
  items.foldl
    (fun cell item =>
      if chart.admits item span then (cell.offer chart.inference item).1 else cell)
    cell

/-- Fails for spans outside the chart. -/
def check (chart : Chart) (span : Span) : Except OutsideSpan Unit :=
  if span.Within chart.length then .ok () else .error ⟨span, chart.length⟩

/-- Offers an item to the cell of a span. Also says whether it is in the cell now. -/
def offer (chart : Chart) (item : Item) (span : Span) : Except OutsideSpan (Chart × Bool) :=
  if chart.admits item span then
    (chart.check span).map fun _ =>
      let (cell, kept) := (chart.cell span).offer chart.inference item
      (chart.setCell span cell, kept)
  else .ok (chart, false)

/-- Puts the items of a cell in the order of descending probability. -/
def rank (chart : Chart) (span : Span) : Except OutsideSpan Chart :=
  (chart.check span).map fun _ => chart.setCell span (chart.cell span).ranked

/-- Empties the cell of a span. -/
def clear (chart : Chart) (span : Span) : Except OutsideSpan Chart :=
  (chart.check span).map fun _ => chart.setCell span []

/-- The cell of a span within the chart. -/
def checkedCell (chart : Chart) (span : Span) : Except OutsideSpan Cell :=
  (chart.check span).map fun _ => chart.cell span

/-- The number of entries in all cells. -/
def size (chart : Chart) : Nat := chart.cells.foldl (fun n cell => n + cell.length) 0

/-- The spans with their cells, shorter spans first, then from left to right; empty cells are left
    out. -/
def filledCells (chart : Chart) : List (Span × Cell) :=
  ((Span.within chart.length).map fun span => (span, chart.cell span)).filter fun (_, cell) =>
    !cell.isEmpty

/-- A line for an item: its sign, its probability, and the category before the unary rule. -/
def renderItem (item : Item) : String :=
  "  " ++ item.entry.sign.render ++ " (" ++ Decimal.renderProbability item.probability ++ ")" ++
    (match item.entry.unary? with
      | some step => " <- " ++ step.input.render
      | none => "") ++
    "\n"

/-- The cells with entries, a line for each span and a line for each entry. -/
def render (chart : Chart) : String :=
  String.join <| chart.filledCells.map fun (span, cell) =>
    "Span " ++ span.render ++ ":\n" ++ String.join (cell.map renderItem)

end Chart

end Categorial
