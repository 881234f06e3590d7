/-
  Categorial.Parser

  The parser.  It fills a chart from short spans to long ones: a cell is offered the lexical entries
  for its words, then every combination of two smaller cells, then every unary rule once on what is
  there, and is ranked by probability.  The analyses of a sentence are the entries of the cell for
  all its words.
-/

import Categorial.Chart.Basic
import Categorial.Lexicon.Reader
import Categorial.Scorer
import Categorial.UnaryRule.Reader

namespace Categorial

/-- How a parser works. -/
structure Config where
  inference : Inference
  features : FeatureMode
  /-- Whether composition is allowed beside application. -/
  composition : Bool
  /-- The largest number of analyses to keep. -/
  maxParses? : Option Nat
  /-- What stands before a tag in the pseudo-words for unknown words. -/
  unknownMark : String
  deriving DecidableEq, Repr

/-- Exact inference with strict features, application only, and all analyses. -/
def Config.default : Config := ⟨.exact, .strict, false, none, "UNK-"⟩

def Config.combinators (config : Config) : Combinators := ⟨config.composition, config.features⟩

/-- A grammar and the way it is used. -/
structure Parser where
  lexicon : Lexicon
  rules : List UnaryRule
  config : Config

/-- An analysis of a whole sentence with its probability. -/
abbrev Parse := Item

namespace Parser

/-- A parser from the texts of a lexicon file and of a rule file. -/
def ofGrammar (lexicon rules : String) (config : Config) : Except Error Parser := do
  let lexicon ← Lexicon.parse lexicon
  let rules ← UnaryRule.parseAll rules
  return ⟨lexicon, rules, config⟩

/-! ## Lexical entries for spans -/

/-- The entries for the words of a span. Spans longer than the longest entry are not looked up. -/
def knownEntries (parser : Parser) (sentence : Sentence) (span : Span) : List LexicalEntry :=
  if span.last < span.start + parser.lexicon.longest then
    parser.lexicon.entriesFor (sentence.slice span)
  else []

/-- The entries for a single unknown word, found by its tag. -/
def unknownEntries (parser : Parser) (sentence : Sentence) (span : Span) : List LexicalEntry :=
  if span.start = span.last ∧ parser.lexicon.entriesFor (sentence.slice span) = [] then
    match sentence.tag? span.start with
    | some tag => parser.lexicon.unknownEntries tag parser.config.unknownMark
    | none => []
  else []

/-- The entries that are offered for a span. -/
def lexicalEntries (parser : Parser) (sentence : Sentence) (span : Span) : List LexicalEntry :=
  parser.knownEntries sentence span ++ parser.unknownEntries sentence span

/-- The positions of the words that no lexical entry covers, ascending. -/
def uncovered (parser : Parser) (sentence : Sentence) : List Nat :=
  let covered := (Span.within sentence.length).filter fun span =>
    !(parser.lexicalEntries sentence span).isEmpty
  (List.range sentence.length).filter fun i =>
    !covered.any fun span => span.start ≤ i && i ≤ span.last

/-- A warning for each word that no lexical entry covers. -/
def warnings (parser : Parser) (sentence : Sentence) : List String :=
  (parser.uncovered sentence).map fun i =>
    "no lexicon entry covers " ++ accented (sentence.words.getD i "") ++ " at " ++ toString i

/-! ## Items for cells -/

variable (parser : Parser) (scorer : Scorer)

/-- A lexical entry at a span. -/
def terminalItem (sentence : Sentence) (span : Span) (lexical : LexicalEntry) : Item :=
  let c := lexical.category.signAt span.last
  { entry := .terminal (.ofCombination c span) lexical (sentence.slice span)
    probability := (scorer.lexical sentence span lexical).toFloat * scorer.dependencies c.filled }

/-- One combination of two items, the left one of which ends at `split`. -/
def binaryItem (span : Span) (split : Nat) (left right : Item) (combinator : Combinator)
    (c : Combination) : Item where
  entry := .binary (.ofCombination c span) combinator split left.entry left.probability
    right.entry right.probability
  probability := left.probability * right.probability *
    (scorer.binary combinator left.entry right.entry c.sign).toFloat *
      scorer.dependencies c.filled

/-- An item after a unary rule. -/
def unaryItem (item : Item) (rule : UnaryRule) (c : Combination) : Item where
  entry := item.entry.withUnary rule c
  probability :=
    item.probability * (scorer.unary rule item.entry).toFloat * scorer.dependencies c.filled

/-- The lexical items for a span. -/
def terminalItems (sentence : Sentence) (span : Span) : List Item :=
  (parser.lexicalEntries sentence span).map (terminalItem scorer sentence span)

/-- Every combination of an item on the left with one on the right. -/
def binaryItems (span : Span) (split : Nat) (lefts rights : Cell) : List Item :=
  lefts.flatMap fun left => rights.flatMap fun right =>
    (parser.config.combinators.combine left.entry.sign right.entry.sign).map fun (combinator, c) =>
      binaryItem scorer span split left right combinator c

/-- Every unary rule on an item, unless it comes from a unary rule itself. -/
def unaryItems (item : Item) : List Item :=
  match item.entry.unary? with
  | some _ => []
  | none => parser.rules.filterMap fun rule =>
    (rule.apply parser.config.features item.entry.sign).map (unaryItem scorer item rule)

/-! ## Filling the chart -/

/-- The cell of a span before any unary rule, from the cells of the shorter spans. -/
def combinedCell (sentence : Sentence) (chart : Chart) (span : Span) : Cell :=
  span.splits.foldl
    (fun cell (left, right) =>
      chart.offerAll span cell
        (parser.binaryItems scorer span left.last (chart.cell left) (chart.cell right)))
    (chart.offerAll span [] (parser.terminalItems scorer sentence span))

/-- The cell of a span, from the cells of the shorter spans. -/
def finalCell (sentence : Sentence) (chart : Chart) (span : Span) : Cell :=
  let combined := parser.combinedCell scorer sentence chart span
  (chart.offerAll span combined (combined.flatMap (parser.unaryItems scorer))).ranked

/-- Fills the cell of a span. -/
def fillSpan (sentence : Sentence) (chart : Chart) (span : Span) : Chart :=
  chart.setCell span (parser.finalCell scorer sentence chart span)

/-- Fills a chart for a sentence. -/
def parseChart (sentence : Sentence) (filter : Filter) : Chart :=
  (Span.within sentence.length).foldl (parser.fillSpan scorer sentence)
    (.empty sentence.length parser.config.inference filter)

/-- The analyses of a sentence, the most probable first. -/
def parse (sentence : Sentence) (filter : Filter) : List Parse :=
  if sentence.length = 0 then []
  else
    let chart := parser.parseChart scorer sentence filter
    let ranked := (chart.cell ⟨0, sentence.length - 1⟩).ranked
    match parser.config.maxParses? with
    | some n => ranked.take n
    | none => ranked

/-- The most probable analysis of a sentence. -/
def bestParse? (sentence : Sentence) (filter : Filter) : Option Parse :=
  (parser.parse scorer sentence filter).head?

end Parser

end Categorial
