/-
  Categorial.Proofs.Chart.Origin

  Where the items of a cell come from.  Before any unary rule a cell is offered lexical items and
  combinations of items of two shorter spans (`Combined`); on top of what it keeps of them every
  unary rule is offered once (`Raised`).  Nothing else gets into the cell (`mem_finalCell`), and
  with exact inference nothing of this is lost (`covers_combinedCell`, `covers_finalCell`).
-/

import Categorial.Parser
import Categorial.Proofs.Chart.Cell
import Categorial.Proofs.Span

namespace Categorial

@[simp] theorem Entry.node_withUnary (rule : UnaryRule) (c : Combination) (e : Entry) :
    (e.withUnary rule c).node = e.node.withUnary rule c := by
  cases e <;> rfl

namespace Parser

variable (parser : Parser) (scorer : Scorer) (sentence : Sentence) (chart : Chart) (span : Span)

/-! ## Offered items -/

/-- The items that a cell is offered before any unary rule. -/
inductive Combined : Item → Prop
  | terminal {lexical : LexicalEntry} (h : lexical ∈ parser.lexicalEntries sentence span) :
      Combined (terminalItem scorer sentence span lexical)
  | binary {split : Nat} {left right : Item} {combinator : Combinator} {c : Combination}
      (hstart : span.start ≤ split) (hlast : split < span.last)
      (hleft : left ∈ chart.cell ⟨span.start, split⟩)
      (hright : right ∈ chart.cell ⟨split + 1, span.last⟩)
      (h : (combinator, c) ∈
        parser.config.combinators.combine left.entry.sign right.entry.sign) :
      Combined (binaryItem scorer span split left right combinator c)

/-- The items that unary rules make of `base`. -/
inductive Raised (base : Item) : Item → Prop
  | intro {rule : UnaryRule} {c : Combination} (hbase : base.entry.unary? = none)
      (hrule : rule ∈ parser.rules)
      (h : rule.apply parser.config.features base.entry.sign = some c) :
      Raised base (unaryItem scorer base rule c)

/-- The items that a cell is offered before any unary rule, in their order. -/
def combinedItems : List Item :=
  parser.terminalItems scorer sentence span ++ span.splits.flatMap fun (left, right) =>
    parser.binaryItems scorer span left.last (chart.cell left) (chart.cell right)

variable {parser scorer sentence chart span}

theorem mem_binaryItems {split : Nat} {lefts rights : Cell} {it : Item} :
    it ∈ parser.binaryItems scorer span split lefts rights ↔
      ∃ left ∈ lefts, ∃ right ∈ rights, ∃ combinator c,
        (combinator, c) ∈
          parser.config.combinators.combine left.entry.sign right.entry.sign ∧
        binaryItem scorer span split left right combinator c = it := by
  simp only [binaryItems, List.mem_flatMap, List.mem_map, Prod.exists]

theorem mem_combinedItems {it : Item} :
    it ∈ parser.combinedItems scorer sentence chart span ↔
      parser.Combined scorer sentence chart span it := by
  simp only [combinedItems, terminalItems, List.mem_append, List.mem_map, List.mem_flatMap,
    Prod.exists, mem_binaryItems]
  constructor
  · rintro (⟨lexical, hlexical, rfl⟩ |
      ⟨l, r, hsplit, left, hleft, right, hright, combinator, c, h, rfl⟩)
    · exact .terminal hlexical
    · obtain ⟨m, hstart, hlast, rfl, rfl⟩ := Span.mem_splits.1 hsplit
      exact .binary hstart hlast hleft hright h
  · intro h
    cases h with
    | terminal h => exact .inl ⟨_, h, rfl⟩
    | binary hstart hlast hleft hright h =>
      have hsplit := Span.mem_splits.2 ⟨_, hstart, hlast, rfl, rfl⟩
      exact .inr ⟨_, _, hsplit, _, hleft, _, hright, _, _, h, rfl⟩

theorem mem_unaryItems {base it : Item} :
    it ∈ parser.unaryItems scorer base ↔ parser.Raised scorer base it := by
  unfold unaryItems
  constructor
  · intro h
    split at h
    · -- Nothing comes from an item that has a unary rule on top already.
      cases h
    · rename_i hbase
      simp only [List.mem_filterMap, Option.map_eq_some_iff] at h
      obtain ⟨rule, hrule, c, h, rfl⟩ := h
      exact .intro hbase hrule h
  · intro h
    cases h with
    | intro hbase hrule h =>
      simp only [hbase, List.mem_filterMap, Option.map_eq_some_iff]
      exact ⟨_, hrule, _, h, rfl⟩

theorem Combined.unary?_eq_none {it : Item} (h : parser.Combined scorer sentence chart span it) :
    it.entry.unary? = none := by
  cases h <;> rfl

theorem Combined.span_eq {it : Item} (h : parser.Combined scorer sentence chart span it) :
    it.entry.span = span := by
  cases h <;> rfl

theorem Raised.span_eq {base it : Item} (h : parser.Raised scorer base it) :
    it.entry.span = base.entry.span := by
  cases h
  rw [unaryItem, Entry.span, Entry.node_withUnary]
  rfl

theorem sign_unaryItem (base : Item) (rule : UnaryRule) (c : Combination) :
    (unaryItem scorer base rule c).entry.sign = c.sign := by
  rw [unaryItem, Entry.sign, Entry.node_withUnary]
  rfl

/-! ## Cells -/

theorem combinedCell_eq :
    parser.combinedCell scorer sentence chart span =
      chart.offerAll span [] (parser.combinedItems scorer sentence chart span) := by
  -- One run over the splits, each a run of offers, is one run over all that is offered.
  simp only [combinedCell, combinedItems, Chart.offerAll, List.foldl_append, List.foldl_flatMap]

theorem mem_combinedCell {it : Item}
    (h : it ∈ parser.combinedCell scorer sentence chart span) :
    parser.Combined scorer sentence chart span it ∧ chart.admits it span = true := by
  rw [combinedCell_eq] at h
  rcases Chart.mem_offerAll h with h | ⟨h, hadm⟩
  · cases h
  · exact ⟨mem_combinedItems.1 h, hadm⟩

/-- An item of a cell is a combined one, or comes by a unary rule from one that was kept. -/
theorem mem_finalCell {it : Item} (h : it ∈ parser.finalCell scorer sentence chart span) :
    chart.admits it span = true ∧
      (parser.Combined scorer sentence chart span it ∨
        ∃ base ∈ parser.combinedCell scorer sentence chart span,
          parser.Raised scorer base it) := by
  rcases Chart.mem_offerAll (Cell.mem_ranked.1 h) with h | ⟨h, hadm⟩
  · obtain ⟨hcombined, hadm⟩ := mem_combinedCell h
    exact ⟨hadm, .inl hcombined⟩
  · obtain ⟨base, hbase, h⟩ := List.mem_flatMap.1 h
    exact ⟨hadm, .inr ⟨base, hbase, mem_unaryItems.1 h⟩⟩

theorem positive_combinedCell : (parser.combinedCell scorer sentence chart span).Positive :=
  fun _ hit => (Chart.admits_iff.1 (mem_combinedCell hit).2).1

theorem distinct_finalCell : (parser.finalCell scorer sentence chart span).Distinct := by
  refine (Chart.distinct_offerAll ?_ _).ranked
  rw [combinedCell_eq]
  exact Chart.distinct_offerAll List.Pairwise.nil _

theorem covers_combinedCell (hexact : chart.inference = .exact) {it : Item}
    (h : parser.Combined scorer sentence chart span it) (hadm : chart.admits it span = true) :
    (parser.combinedCell scorer sentence chart span).Covers it.entry.sign it.probability := by
  rw [combinedCell_eq]
  refine Chart.covers_offerAll_of_mem hexact (fun _ hit => ?_) (mem_combinedItems.2 h) hadm
  cases hit

/-- The unary rules do not lose what was there before. -/
theorem covers_finalCell (hexact : chart.inference = .exact) {sign : Sign} {p : Float} (hp : 0 < p)
    (h : (parser.combinedCell scorer sentence chart span).Covers sign p) :
    (parser.finalCell scorer sentence chart span).Covers sign p :=
  (Chart.covers_offerAll hexact positive_combinedCell hp h _).ranked

theorem covers_finalCell_of_raised (hexact : chart.inference = .exact) {base it : Item}
    (hbase : base ∈ parser.combinedCell scorer sentence chart span)
    (h : parser.Raised scorer base it) (hadm : chart.admits it span = true) :
    (parser.finalCell scorer sentence chart span).Covers it.entry.sign it.probability := by
  have hmem : it ∈ (parser.combinedCell scorer sentence chart span).flatMap
      (parser.unaryItems scorer) :=
    List.mem_flatMap.2 ⟨base, hbase, mem_unaryItems.2 h⟩
  exact (Chart.covers_offerAll_of_mem hexact positive_combinedCell hmem hadm).ranked

end Parser

end Categorial
