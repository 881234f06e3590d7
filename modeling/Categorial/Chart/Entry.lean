/-
  Categorial.Chart.Entry

  Chart entries: analyses of a span of words.  An entry is a lexical entry or a combination of two
  entries, and at most one unary rule is applied on top.  It records its sign and the dependencies
  settled at its node.
-/

import Categorial.Combinator
import Categorial.Lexicon.Basic
import Categorial.Span
import Categorial.UnaryRule.Basic

namespace Categorial

/-- A unary rule that was applied, with the category it was applied to. -/
structure UnaryStep where
  rule : UnaryRule
  input : Headed
  deriving DecidableEq, Repr

/-- What an entry records at its node. -/
structure Node where
  sign : Sign
  span : Span
  unary? : Option UnaryStep
  /-- The dependencies filled at this node. -/
  filled : List Dependency
  /-- The dependencies abandoned at this node. -/
  abandoned : List Pending
  deriving DecidableEq, Repr

/-- The node of a combination, with no unary rule on top. -/
def Node.ofCombination (c : Combination) (span : Span) : Node :=
  ⟨c.sign, span, none, c.filled, c.abandoned⟩

/-- The node after a unary rule. What the rule settles comes after what was settled before. -/
def Node.withUnary (n : Node) (rule : UnaryRule) (c : Combination) : Node where
  sign := c.sign
  span := n.span
  unary? := some ⟨rule, n.sign.category⟩
  filled := n.filled ++ c.filled
  abandoned := n.abandoned ++ c.abandoned

/-- An analysis of a span. -/
inductive Entry where
  /-- A lexical entry, with its words as the sentence has them. -/
  | terminal (node : Node) (lexical : LexicalEntry) (words : List String)
  /-- A combination of two entries, each with the probability it had when it was used. `split` is
      the position of the last word of the left one. -/
  | binary (node : Node) (combinator : Combinator) (split : Nat)
      (left : Entry) (leftProbability : Float) (right : Entry) (rightProbability : Float)

namespace Entry

def node : Entry → Node
  | .terminal n _ _ => n
  | .binary n _ _ _ _ _ _ => n

def sign (e : Entry) : Sign := e.node.sign

def category (e : Entry) : Headed := e.sign.category

def span (e : Entry) : Span := e.node.span

def unary? (e : Entry) : Option UnaryStep := e.node.unary?

def isTerminal : Entry → Bool
  | .terminal .. => true
  | .binary .. => false

/-- The category before the unary rule; the category itself if there was none. -/
def beforeUnary (e : Entry) : Headed :=
  match e.unary? with
  | some step => step.input
  | none => e.category

/-- The two entries of a combination. -/
def children? : Entry → Option (Entry × Entry)
  | .terminal .. => none
  | .binary _ _ _ l _ r _ => some (l, r)

/-- The entry after a unary rule. -/
def withUnary (rule : UnaryRule) (c : Combination) : Entry → Entry
  | .terminal n lexical words => .terminal (n.withUnary rule c) lexical words
  | .binary n combinator split l lp r rp => .binary (n.withUnary rule c) combinator split l lp r rp

/-- Entries with one sign behave alike in every later combination. -/
def Equivalent (a b : Entry) : Prop := a.sign = b.sign

instance (a b : Entry) : Decidable (a.Equivalent b) := inferInstanceAs (Decidable (a.sign = b.sign))

/-! ## Whole derivations -/

/-- The words of the derivation. -/
def words : Entry → List String
  | .terminal _ _ ws => ws
  | .binary _ _ _ l _ r _ => l.words ++ r.words

/-- The nodes of the derivation: a node before its children, the left child before the right one. -/
def nodes : Entry → List Node
  | .terminal n _ _ => [n]
  | .binary n _ _ l _ r _ => n :: (l.nodes ++ r.nodes)

/-- The dependencies filled anywhere in the derivation. -/
def dependencies (e : Entry) : List Dependency := e.nodes.flatMap Node.filled

/-- The dependencies never filled: those still pending at the root, then those abandoned anywhere. -/
def unfilled (e : Entry) : List Pending := e.sign.unfilled ++ e.nodes.flatMap Node.abandoned

/-- The label of a node in a rendered derivation. -/
def renderLabel (n : Node) : String :=
  n.sign.category.plain.render ++
    match n.unary? with
    | some step => "_" ++ step.input.plain.render
    | none => ""

/-- The derivation in brackets. -/
def render : Entry → String
  | .terminal n _ ws => "<" ++ renderLabel n ++ String.join (ws.map (" " ++ ·)) ++ ">"
  | .binary n _ _ l _ r _ => "<" ++ renderLabel n ++ " " ++ l.render ++ " " ++ r.render ++ ">"

end Entry

end Categorial
