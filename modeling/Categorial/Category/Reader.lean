/-
  Categorial.Category.Reader

  Reading categories.  The grammar is

      category ::= term (slash term)*
      term     ::= '(' category ')' head? | atom feature? head?
      slash    ::= '/' | '\'

  where an atom is a non-empty run of characters other than blanks and `/ \ ( ) [ ] { } < > _`, a
  feature is a non-empty run without blanks and brackets in brackets, and a head is a numeral in
  braces, with blanks around it or not.  Slashes associate to the left.
-/

import Categorial.Category.Basic
import Categorial.Error
import Categorial.Text.Blank
import Categorial.Text.Numeral

namespace Categorial

open Text

namespace Written

/-! ## Parts of a term -/

/-- The characters of an atom's name. -/
def isAtomChar (c : Char) : Bool :=
  !isBlank c && c ∉ ['/', '\\', '(', ')', '[', ']', '{', '}', '<', '>', '_']

/-- The characters of a feature's name. -/
def isFeatureChar (c : Char) : Bool := !isBlank c && c != '[' && c != ']'

/-- A feature is a variable if its name is a numeral, and a value otherwise. -/
def featureOfName (name : List Char) : Feature :=
  match readNumeral featureBound name with
  | some n => .var n
  | none => .value (String.ofList name)

/-- Reads a feature. Where there is none, nothing is read. -/
def readFeature : List Char → Feature × List Char
  | '[' :: cs =>
    match cs.takeWhile isFeatureChar, cs.dropWhile isFeatureChar with
    | c :: name, ']' :: rest => (featureOfName (c :: name), rest)
    | _, _ => (.unspecified, '[' :: cs)
  | cs => (.unspecified, cs)

/-- Splits a head annotation into its blanks, digits, blanks and what follows it. -/
def splitHead? : List Char → Option (List Char × List Char × List Char × List Char)
  | '{' :: cs =>
    let afterBlanks := cs.dropWhile isBlank
    let afterDigits := afterBlanks.dropWhile Char.isDigit
    match afterBlanks.takeWhile Char.isDigit, afterDigits.dropWhile isBlank with
    | d :: digits, '}' :: rest =>
      some (cs.takeWhile isBlank, d :: digits, afterDigits.takeWhile isBlank, rest)
    | _, _ => none
  | _ => none

/-- Reads a head annotation. Where there is none, nothing is read. -/
def readHead (cs : List Char) : Except CategoryFault (Option Var × List Char) :=
  match splitHead? cs with
  | none => .ok (none, cs)
  | some (before, digits, after, rest) =>
    match readDigits wordBound digits with
    | some v => .ok (some v, rest)
    | none =>
      .error (.headTooLarge (String.ofList ('{' :: before ++ digits ++ after ++ ['}'])))

/-- Reads an atom with its feature and head. -/
def readAtom (cs : List Char) : Except CategoryFault (Written × List Char) :=
  match cs.takeWhile isAtomChar with
  | [] => .error (.noAtom (String.ofList cs))
  | c :: name =>
    let (feature, rest) := readFeature (cs.dropWhile isAtomChar)
    match readHead rest with
    | .error fault => .error fault
    | .ok (head, rest) => .ok (.atom (String.ofList (c :: name)) feature head, rest)

/-- Replaces the head of a category, if there is one to put in its place. -/
def overrideHead (head : Option Var) : Written → Written
  | .atom name feature h => .atom name feature (head <|> h)
  | .func d r a h => .func d r a (head <|> h)

/-- Reads the end of a term in parentheses. -/
def readClosing (c : Written) : List Char → Except CategoryFault (Written × List Char)
  | ')' :: cs =>
    match readHead cs with
    | .error fault => .error fault
    | .ok (head, rest) => .ok (c.overrideHead head, rest)
  | cs => .error (.notClosed (String.ofList cs))

/-! ## Categories -/

/-- Makes the category on the left of a slash, if there is one, a function to the term after it. -/
def attach : (left : Option (Written × Direction)) → (term : Written) → Written
  | none, term => term
  | some (left, d), term => .func d left term none

/-- Reads a slash. -/
def readSlash? : List Char → Option (Direction × List Char)
  | [] => none
  | c :: cs => (Direction.ofSlash? c).map (·, cs)

/-- Reads terms and slashes as far as they go; `left` is what stands before the next term. Each
    term has a character at least, so that the length of the text bounds the depth of the calls. -/
def readTerms : (fuel : Nat) → (left : Option (Written × Direction)) → List Char →
    Except CategoryFault (Written × List Char)
  | 0, _, cs => .error (.noAtom (String.ofList cs))
  | fuel + 1, left, cs =>
    let term : Except CategoryFault (Written × List Char) :=
      match cs with
      | '(' :: inner =>
        match readTerms fuel none inner with
        | .error fault => .error fault
        | .ok (c, rest) => readClosing c rest
      | _ => readAtom cs
    match term with
    | .error fault => .error fault
    | .ok (term, rest) =>
      match readSlash? rest with
      | none => .ok (attach left term, rest)
      | some (d, rest) => readTerms fuel (some (attach left term, d)) rest

/-- Reads a category that takes up the whole text. -/
def readAll (cs : List Char) : Except CategoryFault Written :=
  match readTerms (cs.length + 1) none cs with
  | .error fault => .error fault
  | .ok (c, []) => .ok c
  | .ok (_, rest) => .error (.trailing (String.ofList rest))

/-- Whether any node has a head. -/
def hasHeads (c : Written) : Bool := c.labels.any Option.isSome

/-- The headed category that is meant: every atom needs a head, and a function without one takes
    the head of its result. -/
def toHeaded : Written → Except CategoryFault Headed
  | .atom name feature (some h) => .ok (.atom name feature h)
  | .atom name feature none => .error (.headMissing (name ++ feature.render))
  | .func d r a head =>
    match toHeaded r with
    | .error fault => .error fault
    | .ok r =>
      match toHeaded a with
      | .error fault => .error fault
      | .ok a => .ok (.func d r a (head.getD r.label))

end Written

/-- Reads a plain category, blanks around it aside. Heads are read over. -/
def Plain.parse (s : String) : Except Error Plain :=
  let input := trim s.toList
  match Written.readAll input with
  | .error fault => .error (.category (String.ofList input) fault)
  | .ok c => .ok c.plain

/-- Reads a headed category, blanks around it aside. Variables stay as they are written. -/
def Headed.parse (s : String) : Except Error Headed :=
  let input := trim s.toList
  match Written.readAll input with
  | .error fault => .error (.category (String.ofList input) fault)
  | .ok c =>
    match c.toHeaded with
    | .error fault => .error (.category (String.ofList input) fault)
    | .ok c => .ok c

end Categorial
