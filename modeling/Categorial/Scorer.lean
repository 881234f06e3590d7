/-
  Categorial.Scorer

  Scorers give weights to the steps of a derivation.  The probability of a derivation is the product
  of the weights of its steps and of the dependencies they fill.
-/

import Categorial.Chart.Entry
import Categorial.Sentence
import Categorial.Weight

namespace Categorial

/-- Weights for the steps of a derivation. -/
structure Scorer where
  /-- The weight of an entry for the words of a span. -/
  lexical : Sentence → Span → LexicalEntry → Weight
  /-- The weight of combining two entries to a sign. -/
  binary : Combinator → Entry → Entry → Sign → Weight
  /-- The weight of applying a rule to an entry. -/
  unary : UnaryRule → Entry → Weight
  /-- The weight of filling a dependency. -/
  dependency : Dependency → Weight

namespace Scorer

/-- Weighs everything one. -/
def uniform : Scorer where
  lexical _ _ _ := .one
  binary _ _ _ _ := .one
  unary _ _ := .one
  dependency _ := .one

/-- The product of the weights of dependencies. -/
def dependencies (scorer : Scorer) (ds : List Dependency) : Float :=
  ds.foldl (fun weight d => weight * (scorer.dependency d).toFloat) 1.0

end Scorer

/-! ## Weight tables -/

/-- Weights by keys. What has no weight weighs one, and of two rows for one key the later counts.
    Tables of weights proper have rows for lexical entries, unary rules and dependencies only. Rows
    for combinators are an extension of this library; without them every combinator weighs one. -/
structure WeightTable where
  /-- By words, upper and lower case making no difference, and canonical category. -/
  lexical : List ((List String × Headed) × Weight)
  unary : List (UnaryRule × Weight)
  /-- By the names of the subject and the object, wherever they occur. -/
  dependency : List ((String × Nat × String) × Weight)
  /-- By combinator, whatever it combines: the extension. -/
  binary : List (Combinator × Weight)

namespace WeightTable

def empty : WeightTable := ⟨[], [], [], []⟩

def addLexical (t : WeightTable) (words : List String) (c : Headed) (weight : Weight) :
    WeightTable :=
  { t with lexical := ((lookupKey words, c.canonical), weight) :: t.lexical }

def addUnary (t : WeightTable) (rule : UnaryRule) (weight : Weight) : WeightTable :=
  { t with unary := (rule, weight) :: t.unary }

def addDependency (t : WeightTable) (subject : String) (argument : Nat) (object : String)
    (weight : Weight) : WeightTable :=
  { t with dependency := ((subject, argument, object), weight) :: t.dependency }

/-- Adds a row of the extension. -/
def addBinary (t : WeightTable) (c : Combinator) (weight : Weight) : WeightTable :=
  { t with binary := (c, weight) :: t.binary }

/-- The scorer that looks weights up. -/
def toScorer (t : WeightTable) : Scorer where
  lexical _ _ e := (t.lexical.lookup (lookupKey e.words, e.category.category)).getD .one
  binary c _ _ _ := (t.binary.lookup c).getD .one
  unary rule _ := (t.unary.lookup rule).getD .one
  dependency d := (t.dependency.lookup (d.subject.name, d.argument, d.object.name)).getD .one

end WeightTable

end Categorial
