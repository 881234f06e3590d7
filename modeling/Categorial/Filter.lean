/-
  Categorial.Filter

  Filters decide which entries may enter a chart.
-/

import Categorial.Chart.Entry
import Categorial.GoldTree.Basic

namespace Categorial

/-- Whether an entry may enter the cell of a span. -/
abbrev Filter := Entry → Span → Bool

namespace Filter

/-- Accepts every entry. -/
def none : Filter := fun _ _ => true

/-- Accepts what all of the filters accept. -/
def all (filters : List Filter) : Filter := fun e span => filters.all fun f => f e span

/-- Accepts entries whose category is an atom. -/
def atoms : Filter := fun e _ => e.category.isAtom

/-- Restricts single words to the categories proposed for them. A word without proposals is
    unrestricted. -/
def supertags (tags : List (List Headed)) : Filter :=
  let tags := tags.map (·.map Headed.canonical)
  fun e span =>
    if span.start = span.last then
      match tags[span.start]? with
      | some (tag :: tags) => (tag :: tags).contains e.category
      | _ => true
    else true

/-! ## Gold trees -/

/-- What a gold tree demands at a span. -/
structure Demand where
  category : GoldCategory
  terminal : Bool
  headed? : Option Headed
  /-- The category that a unary rule has to give the left child. -/
  leftUnary? : Option Plain
  /-- The category that a unary rule has to give the right child. -/
  rightUnary? : Option Plain
  deriving DecidableEq, Repr

/-- The category that a unary rule gives a node, if one applies there. -/
def unaryResult? (t : GoldTree) : Option Plain :=
  if t.category.hasUnary then some t.category.category else .none

/-- What the root of a tree demands. -/
def demandOf : GoldTree → Demand
  | .leaf c _ _ _ headed? => ⟨c, true, headed?, .none, .none⟩
  | .branch c _ l r => ⟨c, false, .none, unaryResult? l, unaryResult? r⟩

/-- Whether a child has a unary rule just where one is demanded, with the demanded result. -/
def childAgrees (demanded? : Option Plain) (child : Entry) : Bool :=
  match demanded?, child.unary? with
  | some demanded, some _ => demanded.accepts child.category
  | .none, .none => true
  | _, _ => false

/-- Whether the category of an entry is the demanded one. Where the tree has a unary rule, an entry
    without one is the input of the rule. -/
def categoryAgrees (gold : GoldCategory) (e : Entry) : Bool :=
  match e.unary? with
  | some step =>
    gold.hasUnary && gold.category.accepts e.category && gold.beforeUnary.accepts step.input
  | .none => gold.beforeUnary.accepts e.category

/-- Whether an entry meets a demand. -/
def Demand.metBy (d : Demand) (e : Entry) : Bool :=
  d.terminal == e.isTerminal && categoryAgrees d.category e &&
    (match e.children? with
      | some (l, r) => childAgrees d.leftUnary? l && childAgrees d.rightUnary? r
      | .none => true) &&
    match d.headed? with
    | some c => e.beforeUnary == c
    | .none => true

/-- The demands of a tree at its spans; of nodes with one span, the one nearest the root counts. -/
def demands (t : GoldTree) : List (Span × Demand) := t.nodes.map fun n => (n.span, demandOf n)

/-- Restricts parsing to the derivation of a gold tree. -/
def gold (t : GoldTree) : Filter :=
  let demands := demands t
  fun e span =>
    match demands.lookup span with
    | some d => d.metBy e
    | .none => false

end Filter

end Categorial
