/-
  Categorial.Proofs.Derivation

  Derivations that a grammar licenses, and their weights.  Nothing here mentions a chart: a span is
  derived by a lexical entry that matches its words, or by combining derivations of its two parts,
  and a derivation that is not the result of a unary rule may be followed by one.  Weights are
  given by scorers that look at signs only, not at how the parts of a step were derived.
-/

import Categorial.Parser
import Categorial.Proofs.Lexicon
import Categorial.Proofs.Probability.Product

namespace Categorial

/-! ## Grammars -/

theorem Sentence.length_slice {sentence : Sentence} {span : Span}
    (h : span.Within sentence.length) :
    (sentence.slice span).length = span.last + 1 - span.start := by
  have hlast : span.last < sentence.words.length := h.2
  rw [slice, List.length_take, List.length_drop]
  omega

/-- A grammar as the list of its entries and rules, and the way it is used. -/
structure Grammar where
  entries : List LexicalEntry
  rules : List UnaryRule
  config : Config

namespace Grammar

/-- The parser for a grammar. -/
def parser (g : Grammar) : Parser := ⟨.ofList g.entries, g.rules, g.config⟩

/-- An intransitive verb, an entry for unknown plural nouns, and a rule that makes nouns phrases. -/
def sample : Grammar where
  entries :=
    [⟨["UNK-NNS"], ⟨.atom "N" .unspecified 0, some ⟨[["thing"]], []⟩⟩⟩,
      ⟨["sleep"], ⟨.func .backward (.atom "S" .unspecified 0) (.atom "NP" .unspecified 1) 0,
        some ⟨[["sleep"], []], [⟨.predicate "sleep", 1, 1⟩]⟩⟩⟩]
  rules := [⟨.atom "N" .unspecified 0, .atom "NP" .unspecified 0, []⟩]
  config := .default

/-- The entries that a span may have. -/
inductive Matches (g : Grammar) (sentence : Sentence) (span : Span) (e : LexicalEntry) : Prop
  /-- An entry for the words of the span. -/
  | known (hmem : e ∈ g.entries) (hkey : lookupKey e.words = lookupKey (sentence.slice span))
  /-- An entry for the tag of a single word that has no entry. -/
  | unknown (tag : String) (hsingle : span.start = span.last)
      (hunknown : ∀ e ∈ g.entries, lookupKey e.words ≠ lookupKey (sentence.slice span))
      (htag : sentence.tag? span.start = some tag) (hmem : e ∈ g.entries)
      (hkey : lookupKey e.words = lookupKey [g.config.unknownMark ++ tag])

theorem mem_knownEntries {g : Grammar} {sentence : Sentence} {span : Span} {e : LexicalEntry}
    (hspan : span.Within sentence.length) :
    e ∈ g.parser.knownEntries sentence span ↔
      e ∈ g.entries ∧ lookupKey e.words = lookupKey (sentence.slice span) := by
  unfold Parser.knownEntries
  constructor
  · intro h
    split at h
    · exact Lexicon.mem_entriesFor_ofList.1 h
    · cases h
  · rintro ⟨hmem, hkey⟩
    -- The bound on the length of a span never hides an entry for its words.
    have hlength : e.words.length = span.last + 1 - span.start :=
      (Lexicon.length_eq_of_lookupKey_eq hkey).trans (Sentence.length_slice hspan)
    have hlongest : e.words.length ≤ g.parser.lexicon.longest := Lexicon.length_le_longest hmem
    rw [if_pos (by omega)]
    exact Lexicon.mem_entriesFor_ofList.2 ⟨hmem, hkey⟩

theorem mem_unknownEntries {g : Grammar} {sentence : Sentence} {span : Span} {e : LexicalEntry} :
    e ∈ g.parser.unknownEntries sentence span ↔
      (span.start = span.last ∧
        ∀ e ∈ g.entries, lookupKey e.words ≠ lookupKey (sentence.slice span)) ∧
      ∃ tag, sentence.tag? span.start = some tag ∧ e ∈ g.entries ∧
        lookupKey e.words = lookupKey [g.config.unknownMark ++ tag] := by
  have hnone : g.parser.lexicon.entriesFor (sentence.slice span) = [] ↔
      ∀ e ∈ g.entries, lookupKey e.words ≠ lookupKey (sentence.slice span) :=
    Lexicon.entriesFor_ofList_eq_nil_iff
  rw [← hnone]
  unfold Parser.unknownEntries
  constructor
  · intro h
    split at h
    · rename_i hunknown
      split at h
      · rename_i tag htag
        exact ⟨hunknown, tag, htag, Lexicon.mem_entriesFor_ofList.1 h⟩
      · cases h
    · cases h
  · rintro ⟨hunknown, tag, htag, h⟩
    rw [if_pos hunknown, htag]
    exact Lexicon.mem_entriesFor_ofList.2 h

theorem matches_iff {g : Grammar} {sentence : Sentence} {span : Span} {e : LexicalEntry}
    (hspan : span.Within sentence.length) :
    g.Matches sentence span e ↔ e ∈ g.parser.lexicalEntries sentence span := by
  rw [Parser.lexicalEntries, List.mem_append, mem_knownEntries hspan, mem_unknownEntries]
  constructor
  · intro h
    cases h with
    | known hmem hkey => exact .inl ⟨hmem, hkey⟩
    | unknown tag hsingle hunknown htag hmem hkey =>
      exact .inr ⟨⟨hsingle, hunknown⟩, tag, htag, hmem, hkey⟩
  · rintro (⟨hmem, hkey⟩ | ⟨⟨hsingle, hunknown⟩, tag, htag, hmem, hkey⟩)
    · exact .known hmem hkey
    · exact .unknown tag hsingle hunknown htag hmem hkey

end Grammar

/-- Two words, the first of which has no entry. -/
def Sentence.sample : Sentence := ⟨["Dogs", "sleep"], some ["NNS", "VB"]⟩

/-! ## Scorers on signs -/

/-- Weights that do not depend on how the parts of a step were derived. -/
structure SignScorer where
  lexical : Sentence → Span → LexicalEntry → Weight
  binary : Combinator → (left right result : Sign) → Weight
  unary : UnaryRule → Sign → Weight
  dependency : Dependency → Weight

namespace SignScorer

/-- The scorer that looks at the signs of the parts. -/
def toScorer (scorer : SignScorer) : Scorer where
  lexical := scorer.lexical
  binary combinator left right result := scorer.binary combinator left.sign right.sign result
  unary rule e := scorer.unary rule e.sign
  dependency := scorer.dependency

/-- All weights are positive. -/
structure Positive (scorer : SignScorer) : Prop where
  lexical : ∀ sentence span e, 0 < (scorer.lexical sentence span e).toFloat
  binary : ∀ combinator left right result,
    0 < (scorer.binary combinator left right result).toFloat
  unary : ∀ rule sign, 0 < (scorer.unary rule sign).toFloat
  dependency : ∀ d, 0 < (scorer.dependency d).toFloat

/-- The product of the weights of dependencies. -/
def dependencies (scorer : SignScorer) (ds : List Dependency) : Float :=
  scorer.toScorer.dependencies ds

/-- A long product may come out as zero, but never as a negative number. -/
theorem Positive.unsigned_dependencies {scorer : SignScorer} (h : scorer.Positive)
    (ds : List Dependency) : Probability.Unsigned (scorer.dependencies ds) := by
  have hone : Probability.Unsigned 1.0 := .of_pos (by decide +kernel)
  exact List.foldlRecOn ds _ hone fun _ hw d _ => hw.mul (.of_pos (h.dependency d))

/-- Weighs everything one. -/
def uniform : SignScorer where
  lexical _ _ _ := .one
  binary _ _ _ _ := .one
  unary _ _ := .one
  dependency _ := .one

theorem positive_uniform : uniform.Positive := by
  have hone : 0 < Weight.one.toFloat := by decide +kernel
  exact ⟨fun _ _ _ => hone, fun _ _ _ _ => hone, fun _ _ => hone, fun _ => hone⟩

end SignScorer

/-! ## Derivations -/

/-- The derivations of a span with a sign. `raised` says whether a unary rule comes last. -/
inductive Derivation (g : Grammar) (sentence : Sentence) : (raised : Bool) → Span → Sign → Type
  | lexical (span : Span) (e : LexicalEntry) (hspan : span.Within sentence.length)
      (h : g.Matches sentence span e) :
      Derivation g sentence false span (e.category.signAt span.last).sign
  | binary {start split last : Nat} {raised raised' : Bool} {sign sign' : Sign}
      (combinator : Combinator) (c : Combination)
      (left : Derivation g sentence raised ⟨start, split⟩ sign)
      (right : Derivation g sentence raised' ⟨split + 1, last⟩ sign')
      (h : (combinator, c) ∈ g.config.combinators.combine sign sign') :
      Derivation g sentence false ⟨start, last⟩ c.sign
  | unary {span : Span} {sign : Sign} (rule : UnaryRule) (c : Combination)
      (base : Derivation g sentence false span sign) (hrule : rule ∈ g.rules)
      (h : rule.apply g.config.features sign = some c) :
      Derivation g sentence true span c.sign

namespace Derivation

variable {g : Grammar} {sentence : Sentence} {raised : Bool} {span : Span} {sign : Sign}

/-- The weight of a derivation: the product of the weights of its parts, of its last step and of the
    dependencies that this step fills. -/
def weight (scorer : SignScorer) {raised : Bool} {span : Span} {sign : Sign} :
    Derivation g sentence raised span sign → Float
  | lexical span e _ _ =>
    (scorer.lexical sentence span e).toFloat *
      scorer.dependencies (e.category.signAt span.last).filled
  | @binary _ _ _ _ _ _ _ sign sign' combinator c left right _ =>
    left.weight scorer * right.weight scorer *
      (scorer.binary combinator sign sign' c.sign).toFloat * scorer.dependencies c.filled
  | @unary _ _ _ sign rule c base _ _ =>
    base.weight scorer * (scorer.unary rule sign).toFloat * scorer.dependencies c.filled

/-- A derivation and all derivations in it have a positive weight. -/
def Positive (scorer : SignScorer) {raised : Bool} {span : Span} {sign : Sign} :
    Derivation g sentence raised span sign → Prop
  | d@(lexical _ _ _ _) => 0 < d.weight scorer
  | d@(binary _ _ left right _) =>
    left.Positive scorer ∧ right.Positive scorer ∧ 0 < d.weight scorer
  | d@(unary _ _ base _ _) => base.Positive scorer ∧ 0 < d.weight scorer

instance decidablePositive (scorer : SignScorer) {raised : Bool} {span : Span} {sign : Sign} :
    (d : Derivation g sentence raised span sign) → Decidable (d.Positive scorer)
  | lexical _ _ _ _ => inferInstanceAs (Decidable (_ < _))
  | binary _ _ left right _ =>
    have := decidablePositive scorer left
    have := decidablePositive scorer right
    inferInstanceAs (Decidable (_ ∧ _ ∧ _ < _))
  | unary _ _ base _ _ =>
    have := decidablePositive scorer base
    inferInstanceAs (Decidable (_ ∧ _ < _))

theorem Positive.weight_pos {scorer : SignScorer} {d : Derivation g sentence raised span sign}
    (h : d.Positive scorer) : 0 < d.weight scorer := by
  cases d with
  | lexical => exact h
  | binary => exact h.2.2
  | unary => exact h.2

theorem within (d : Derivation g sentence raised span sign) : span.Within sentence.length := by
  induction d with
  | lexical span e hspan h => exact hspan
  | binary combinator c left right h ihl ihr =>
    obtain ⟨hl, -⟩ := ihl
    obtain ⟨hr, hlast⟩ := ihr
    dsimp only at hl hr
    exact ⟨by dsimp only; omega, hlast⟩
  | unary rule c base hrule h ih => exact ih

end Derivation

end Categorial
