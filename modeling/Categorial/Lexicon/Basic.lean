/-
  Categorial.Lexicon.Basic

  Lexicons: sequences of words with the categories that they can have.  Upper and lower case make no
  difference in looking them up.
-/

import Categorial.LexicalCategory
import Categorial.Text.Lowercase

namespace Categorial

/-- A sequence of words with one of its categories. -/
structure LexicalEntry where
  words : List String
  category : LexicalCategory
  deriving DecidableEq, Repr

/-- The words, and the category without its semantics. -/
def LexicalEntry.render (e : LexicalEntry) : String :=
  String.intercalate " " e.words ++ " := " ++ e.category.category.render

/-- What a sequence of words is looked up by. -/
def lookupKey (words : List String) : List String := words.map Text.lowercase

/-- Entries by key. The entries of a key stand in the order in which they were added. -/
structure Lexicon where
  groups : List (List String × List LexicalEntry)
  /-- The number of words of the longest entry. -/
  longest : Nat
  /-- The number of entries. -/
  size : Nat
  deriving DecidableEq, Repr

namespace Lexicon

def empty : Lexicon := ⟨[], 0, 0⟩

/-- Adds an entry at the end of the group of its key. -/
def addToGroup (key : List String) (e : LexicalEntry) :
    List (List String × List LexicalEntry) → List (List String × List LexicalEntry)
  | [] => [(key, [e])]
  | (k, es) :: groups =>
    if k = key then (k, es ++ [e]) :: groups else (k, es) :: addToGroup key e groups

def add (l : Lexicon) (e : LexicalEntry) : Lexicon where
  groups := addToGroup (lookupKey e.words) e l.groups
  longest := max l.longest e.words.length
  size := l.size + 1

def ofList (es : List LexicalEntry) : Lexicon := es.foldl add empty

/-- The entries for a sequence of words, in the order in which they were added. -/
def entriesFor (l : Lexicon) (words : List String) : List LexicalEntry :=
  (l.groups.lookup (lookupKey words)).getD []

/-- The entries for unknown words with a tag: those of the pseudo-word that the tag makes with what
    marks unknown words. -/
def unknownEntries (l : Lexicon) (tag mark : String) : List LexicalEntry :=
  l.entriesFor [mark ++ tag]

/-- All entries, by groups. -/
def entries (l : Lexicon) : List LexicalEntry := l.groups.flatMap (·.2)

end Lexicon

end Categorial
