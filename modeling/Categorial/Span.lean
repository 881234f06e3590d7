/-
  Categorial.Span

  Spans of words in a sentence, both ends included, and their place in a triangular table.
-/

namespace Categorial

/-- The positions of the first and of the last word of a constituent. -/
structure Span where
  start : Nat
  last : Nat
  deriving DecidableEq, Repr

def Span.render (s : Span) : String := toString s.start ++ ".." ++ toString s.last

namespace Span

/-- Whether a span lies within a sentence of `n` words. -/
def Within (n : Nat) (s : Span) : Prop := s.start ≤ s.last ∧ s.last < n

instance (n : Nat) (s : Span) : Decidable (s.Within n) :=
  inferInstanceAs (Decidable (s.start ≤ s.last ∧ s.last < n))

/-- The number of spans within a sentence of `n` words. -/
def count (n : Nat) : Nat := n * (n + 1) / 2

/-- The place of a span in a table of spans, ordered by their last word and then by their first. -/
def index (s : Span) : Nat := s.last * (s.last + 1) / 2 + s.start

/-- The spans of `length + 1` words within a sentence of `n` words, from left to right. -/
def ofLength (n length : Nat) : List Span :=
  (List.range (n - length)).map fun start => ⟨start, start + length⟩

/-- The spans within a sentence of `n` words, shorter ones first, then from left to right. -/
def within (n : Nat) : List Span := (List.range n).flatMap (ofLength n)

/-- The ways to cut a span into two. -/
def splits (s : Span) : List (Span × Span) :=
  (List.range' s.start (s.last - s.start)).map fun m => (⟨s.start, m⟩, ⟨m + 1, s.last⟩)

end Span

end Categorial
