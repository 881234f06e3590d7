/-
  Categorial.GoldTree.Reader

  Reading gold trees.  The grammar is

      node  ::= '<' label node node '>' | '<' label tag word+ '>'
      label ::= category | category '_' category

  with blanks between any two of these.  Labels, tags and words are runs of characters other than
  blanks and angle brackets.  Words are counted from zero across the whole tree.
-/

import Categorial.Category.Reader
import Categorial.GoldTree.Basic

namespace Categorial

open Text

namespace GoldTree

/-! ## Labels -/

/-- The characters of a label, tag or word. -/
def isTokenChar (c : Char) : Bool := !isBlank c && c != '<' && c != '>'

/-- Reads half of a label. -/
def readCategory (cs : List Char) : Except TreeFault Written :=
  let input := trim cs
  match Written.readAll input with
  | .ok c => .ok c
  | .error fault => .error (.badLabel (String.ofList input) fault)

/-- The canonical headed form of a category with heads. -/
def headedForm (c : Written) : Except TreeFault (Option Headed) :=
  if c.hasHeads then
    match c.toHeaded with
    | .ok c => .ok (some (Headed.canonical c))
    | .error fault => .error (.badLabelHeads fault)
  else .ok none

/-- Reads a label; the first low line divides it. The headed form is that of the category before
    any unary rule, if it has heads. -/
def readLabel (label : List Char) : Except TreeFault (GoldCategory × Option Headed) := do
  let after ← readCategory (label.takeWhile (· != '_'))
  match label.dropWhile (· != '_') with
  | _ :: before =>
    let before ← readCategory before
    return (⟨after.plain, some before.plain⟩, ← headedForm before)
  | [] => return (⟨after.plain, none⟩, ← headedForm after)

/-! ## Nodes -/

/-- Reads the words of a leaf up to its end. -/
def readWords (label : List Char) : (fuel : Nat) → List Char →
    Except TreeFault (List String × List Char)
  | 0, cs => .error (.noWord (String.ofList label) (String.ofList cs))
  | fuel + 1, cs =>
    match skipBlanks cs with
    | '>' :: rest => .ok ([], rest)
    | cs =>
      match cs.takeWhile isTokenChar with
      | [] => .error (.noWord (String.ofList label) (String.ofList cs))
      | c :: word => do
        let (words, rest) ← readWords label fuel (cs.dropWhile isTokenChar)
        return (String.ofList (c :: word) :: words, rest)

/-- Reads the rest of a leaf, after its label. The first word has the position `start`. -/
def readLeaf (label : List Char) (category : GoldCategory) (headed? : Option Headed) (start : Nat)
    (cs : List Char) : Except TreeFault (GoldTree × List Char) :=
  match cs.takeWhile isTokenChar with
  | [] => .error (.noTag (String.ofList cs))
  | c :: tag => do
    let (words, rest) ← readWords label (cs.length + 1) (cs.dropWhile isTokenChar)
    if words.isEmpty then throw (.emptyLeaf (String.ofList label))
    return (.leaf category ⟨start, start + words.length - 1⟩ (String.ofList (c :: tag)) words headed?,
      rest)

/-- Reads a node whose first word has the position `start`. Each node has a character at least, so
    that the length of the text bounds the depth of the calls. -/
def readNode : (fuel start : Nat) → List Char → Except TreeFault (GoldTree × List Char)
  | 0, _, cs => .error (.noNode (String.ofList cs))
  | fuel + 1, start, '<' :: cs =>
    let cs := skipBlanks cs
    match cs.takeWhile isTokenChar with
    | [] => .error (.noLabel (String.ofList cs))
    | c :: label => do
      let label := c :: label
      let (category, headed?) ← readLabel label
      match skipBlanks (cs.dropWhile isTokenChar) with
      | '<' :: rest =>
        let (left, rest) ← readNode fuel start ('<' :: rest)
        let (right, rest) ← readNode fuel (left.span.last + 1) (skipBlanks rest)
        match skipBlanks rest with
        | '>' :: rest => return (.branch category ⟨start, right.span.last⟩ left right, rest)
        | rest => throw (.branchNotClosed (String.ofList label) (String.ofList rest))
      | rest => readLeaf label category headed? start rest
  | _ + 1, _, cs => .error (.noNode (String.ofList cs))

/-- Reads a tree that takes up the whole text, blanks aside. -/
def readAll (cs : List Char) : Except TreeFault GoldTree := do
  let (t, rest) ← readNode (cs.length + 1) 0 cs
  if (skipBlanks rest).isEmpty then return t
  throw (.trailing (String.ofList rest))

/-- Reads a tree. -/
def parse (s : String) : Except Error GoldTree :=
  let input := trim s.toList
  (readAll input).mapError (.tree (String.ofList input))

end GoldTree

end Categorial
