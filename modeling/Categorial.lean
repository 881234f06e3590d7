import Categorial.Category.Basic
import Categorial.Category.Order
import Categorial.Category.Reader
import Categorial.Category.Renaming
import Categorial.Category.Unification
import Categorial.Chart.Basic
import Categorial.Chart.Cell
import Categorial.Chart.Entry
import Categorial.Combinator
import Categorial.CommandLine.Options
import Categorial.CommandLine.Session
import Categorial.Decimal
import Categorial.Dependency
import Categorial.Error
import Categorial.Filter
import Categorial.GoldTree.Basic
import Categorial.GoldTree.Reader
import Categorial.Grammar.Lines
import Categorial.Grammar.Part
import Categorial.LexicalCategory
import Categorial.Lexicon.Basic
import Categorial.Lexicon.Reader
import Categorial.LogicalForm
import Categorial.Main
import Categorial.Merge
import Categorial.Parser
import Categorial.Proofs.Category.Alignment
import Categorial.Proofs.Category.Canonical
import Categorial.Proofs.Category.Characters
import Categorial.Proofs.Category.Features
import Categorial.Proofs.Category.Grammar
import Categorial.Proofs.Category.Numbering
import Categorial.Proofs.Category.Reading
import Categorial.Proofs.Category.Unification
import Categorial.Proofs.Chart.Addressing
import Categorial.Proofs.Chart.Beam
import Categorial.Proofs.Chart.BeamGrowth
import Categorial.Proofs.Chart.Cell
import Categorial.Proofs.Chart.Completeness
import Categorial.Proofs.Chart.Conservation
import Categorial.Proofs.Chart.Filling
import Categorial.Proofs.Chart.FillingOrder
import Categorial.Proofs.Chart.Locality
import Categorial.Proofs.Chart.Origin
import Categorial.Proofs.Chart.Retention
import Categorial.Proofs.Chart.Soundness
import Categorial.Proofs.Chart.WideBeam
import Categorial.Proofs.Combinator
import Categorial.Proofs.Derivation
import Categorial.Proofs.GoldTree.Agreement
import Categorial.Proofs.GoldTree.Coverage
import Categorial.Proofs.GoldTree.Nodes
import Categorial.Proofs.GoldTree.Printing
import Categorial.Proofs.GoldTree.Reading
import Categorial.Proofs.Grammar.Fields
import Categorial.Proofs.Grammar.Lines
import Categorial.Proofs.Grammar.Parts
import Categorial.Proofs.Grammar.Printing
import Categorial.Proofs.Grammar.Semantics
import Categorial.Proofs.LexicalCategory
import Categorial.Proofs.Lexicon
import Categorial.Proofs.LogicalForm
import Categorial.Proofs.Merge
import Categorial.Proofs.Outcome
import Categorial.Proofs.Probability.Order
import Categorial.Proofs.Probability.Product
import Categorial.Proofs.Sign.Assignments
import Categorial.Proofs.Sign.Composition
import Categorial.Proofs.Sign.Conservation
import Categorial.Proofs.Sign.Invariant
import Categorial.Proofs.Sign.Resolution
import Categorial.Proofs.Sorting
import Categorial.Proofs.Span
import Categorial.Proofs.Text
import Categorial.Proofs.UnaryRule
import Categorial.Scorer
import Categorial.Sentence
import Categorial.Sign
import Categorial.Sorting
import Categorial.Span
import Categorial.Text.Blank
import Categorial.Text.Cased
import Categorial.Text.CodeRange
import Categorial.Text.Escape
import Categorial.Text.Lowercase
import Categorial.Text.Numeral
import Categorial.Text.Quotation
import Categorial.Text.Unprintable
import Categorial.UnaryRule.Basic
import Categorial.UnaryRule.Reader
import Categorial.Weight
import Categorial.Proofs.Chart.Columns
import Categorial.Proofs.Chart.Runs
import Categorial.Proofs.Category.Printing
import Categorial.Proofs.Chart.LetterCase
import Categorial.Proofs.Chart.Seeding
