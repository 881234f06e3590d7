/-
  Categorial.GoldTree.Basic

  Gold trees: derivations given in advance, to which parsing can be restricted.  Every inner node
  has two children; a node at which a unary rule applied is labelled with the category after the
  rule and the one before it.
-/

import Categorial.Category.Renaming
import Categorial.Span

namespace Categorial

/-- The category of a node, and the category before the unary rule if one applied. -/
structure GoldCategory where
  category : Plain
  beforeUnary? : Option Plain
  deriving DecidableEq, Repr

namespace GoldCategory

/-- The category before any unary rule. -/
def beforeUnary (g : GoldCategory) : Plain := g.beforeUnary?.getD g.category

/-- Whether a unary rule applied. -/
def hasUnary (g : GoldCategory) : Bool := g.beforeUnary?.isSome

def render (g : GoldCategory) : String :=
  g.category.render ++
    match g.beforeUnary? with
    | some c => "_" ++ c.render
    | none => ""

end GoldCategory

/-- A derivation given in advance. -/
inductive GoldTree where
  /-- A lexical constituent: its words share one tag. `headed?` is its exact lexical category, if
      the tree says. -/
  | leaf (category : GoldCategory) (span : Span) (tag : String) (words : List String)
      (headed? : Option Headed)
  | branch (category : GoldCategory) (span : Span) (left right : GoldTree)
  deriving DecidableEq, Repr

namespace GoldTree

def category : GoldTree → GoldCategory
  | .leaf c .. => c
  | .branch c .. => c

def span : GoldTree → Span
  | .leaf _ s .. => s
  | .branch _ s .. => s

def isLeaf : GoldTree → Bool
  | .leaf .. => true
  | .branch .. => false

def words : GoldTree → List String
  | .leaf _ _ _ ws _ => ws
  | .branch _ _ l r => l.words ++ r.words

/-- The tag of every word. -/
def tags : GoldTree → List String
  | .leaf _ _ tag ws _ => ws.map fun _ => tag
  | .branch _ _ l r => l.tags ++ r.tags

/-- The nodes: a node before its children, the left child before the right one. -/
def nodes : GoldTree → List GoldTree
  | .leaf c s tag ws h => [.leaf c s tag ws h]
  | .branch c s l r => .branch c s l r :: (l.nodes ++ r.nodes)

/-- The node with exactly this span. A span that sticks out of a node is not looked for below. -/
def find? (target : Span) (t : GoldTree) : Option GoldTree :=
  if t.span = target then some t
  else if target.start < t.span.start ∨ t.span.last < target.last then none
  else match t with
    | .leaf .. => none
    | .branch _ _ l r => l.find? target <|> r.find? target

def render : GoldTree → String
  | .leaf c _ tag ws _ =>
    "<" ++ c.render ++ " " ++ tag ++ String.join (ws.map (" " ++ ·)) ++ ">"
  | .branch c _ l r => "<" ++ c.render ++ " " ++ l.render ++ " " ++ r.render ++ ">"

end GoldTree

end Categorial
