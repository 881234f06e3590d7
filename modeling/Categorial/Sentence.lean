/-
  Categorial.Sentence

  Sentences: words, with a part-of-speech tag each or without tags.
-/

import Categorial.Error
import Categorial.Span
import Categorial.Text.Blank

namespace Categorial

structure Sentence where
  words : List String
  tags? : Option (List String)
  deriving DecidableEq, Repr

namespace Sentence

def ofWords (words : List String) : Sentence := ⟨words, none⟩

/-- The sentence of the words in a text. -/
def ofText (s : String) : Sentence := ofWords (Text.wordsOf s)

/-- Gives every word its tag. -/
def withTags (s : Sentence) (tags : List String) : Except Error Sentence :=
  if tags.length = s.words.length then .ok { s with tags? := some tags }
  else .error (.tagCount s.words.length tags.length)

def length (s : Sentence) : Nat := s.words.length

/-- The tag of the word at a position. -/
def tag? (s : Sentence) (i : Nat) : Option String := s.tags?.bind (·[i]?)

/-- The words of a span. -/
def slice (s : Sentence) (span : Span) : List String :=
  (s.words.drop span.start).take (span.last + 1 - span.start)

end Sentence

end Categorial
