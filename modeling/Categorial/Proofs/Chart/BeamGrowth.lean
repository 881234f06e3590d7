/-
  Categorial.Proofs.Chart.BeamGrowth

  What a larger beam finds.  It may find less than a smaller one: what it keeps of shorter spans
  competes for its room in longer ones (`exists_larger_beam_finds_less`).  But it finds no less if
  it keeps the signs of the parts of what the smaller one has found, or if it has room for every
  cell (`bestProbability_beam_le`), and no beam finds more than there is without one
  (`bestProbability_le_exact`).
-/

import Categorial.Proofs.Chart.Retention

namespace Categorial

open Probability

/-! ## The best analysis -/

theorem Cell.exists_head?_ranked {cell : Cell} (h : cell.Positive) {it : Item} (hit : it ∈ cell) :
    ∃ best, cell.ranked.head? = some best ∧ it.probability ≤ best.probability := by
  have hpairwise := pairwise_ranked h
  have hmem := mem_ranked.2 hit
  cases hranked : cell.ranked with
  | nil =>
    rw [hranked] at hmem
    cases hmem
  | cons best rest =>
    rw [hranked] at hmem hpairwise
    refine ⟨best, rfl, ?_⟩
    rcases List.mem_cons.1 hmem with rfl | hmem
    · exact le_refl_of_pos (h it hit)
    · exact (List.pairwise_cons.1 hpairwise).1 it hmem

namespace Parser

/-- The probability of the best analysis; zero if there is none. -/
def bestProbability (parser : Parser) (scorer : Scorer) (sentence : Sentence) (filter : Filter) :
    Float :=
  match parser.bestParse? scorer sentence filter with
  | some best => best.probability
  | none => 0

section Best

variable {parser : Parser} {scorer : Scorer} {sentence : Sentence} {filter : Filter}

theorem bestParse?_eq (hlength : sentence.length ≠ 0) (hlimit : parser.config.maxParses? ≠ some 0) :
    parser.bestParse? scorer sentence filter =
      ((parser.parseChart scorer sentence filter).cell ⟨0, sentence.length - 1⟩).ranked.head? := by
  unfold bestParse? parse
  rw [if_neg hlength]
  dsimp only
  split
  · rename_i n hn
    have hpos : n ≠ 0 := by
      rintro rfl
      exact hlimit hn
    rw [List.head?_take, if_neg hpos]
  · rfl

theorem limit_of_bestParse? {best : Parse}
    (h : parser.bestParse? scorer sentence filter = some best) :
    parser.config.maxParses? ≠ some 0 := by
  intro hlimit
  unfold bestParse? parse at h
  split at h
  · cases h
  · rw [hlimit] at h
    cases h

theorem mem_cell_of_bestParse? {best : Parse}
    (h : parser.bestParse? scorer sentence filter = some best) :
    best ∈ (parser.parseChart scorer sentence filter).cell ⟨0, sentence.length - 1⟩ :=
  mem_cell_of_mem_parse (List.mem_of_mem_head? h)

theorem positive_parseChart (span : Span) :
    ((parser.parseChart scorer sentence filter).cell span).Positive :=
  fun _ hit => (replays_of_mem_cell hit).positive

theorem le_bestProbability (hlimit : parser.config.maxParses? ≠ some 0) {it : Item}
    (hit : it ∈ (parser.parseChart scorer sentence filter).cell ⟨0, sentence.length - 1⟩) :
    it.probability ≤ parser.bestProbability scorer sentence filter := by
  have hwithin := Chart.within_of_mem_cell hit
  rw [length_parseChart] at hwithin
  have hlength : sentence.length ≠ 0 := Nat.ne_of_gt (Nat.zero_lt_of_lt hwithin.2)
  obtain ⟨best, hbest, hle⟩ := Cell.exists_head?_ranked (positive_parseChart _) hit
  rw [bestProbability, bestParse?_eq hlength hlimit, hbest]
  exact hle

theorem zero_le_bestProbability : 0 ≤ parser.bestProbability scorer sentence filter := by
  unfold bestProbability
  split
  · rename_i best hbest
    obtain ⟨hpos, hle⟩ :=
      (pos_iff_bits _).1 (replays_of_mem_cell (mem_cell_of_bestParse? hbest)).positive
    rw [le_iff_bits (by rw [bitsOf_zero]; exact Nat.zero_le _) hle, bitsOf_zero]
    exact Nat.zero_le _
  · decide +kernel

end Best

variable {parser : Parser} {scorer : SignScorer} {sentence : Sentence}
variable {accepts : Sign → Span → Bool} {narrow wide : Inference}

/-- The wider chart is offered the best analysis of the narrower one, if it keeps its parts, and
    then keeps something as probable, if it has room for anything. -/
theorem bestProbability_le_of_keepsParts (hscorer : scorer.Positive)
    (hkept : ∀ best, (parser.withInference narrow).bestParse? scorer.toScorer sentence
        (.onSigns accepts) = some best →
      wide ≠ .beam 0 ∧
        parser.KeepsParts scorer.toScorer sentence (parser.signChart scorer sentence accepts wide)
          best.entry) :
    (parser.withInference narrow).bestProbability scorer.toScorer sentence (.onSigns accepts) ≤
      (parser.withInference wide).bestProbability scorer.toScorer sentence (.onSigns accepts) := by
  rw [bestProbability]
  split
  · rename_i best hbest
    have hmem := mem_cell_of_bestParse? hbest
    have hp := (replays_of_mem_cell hmem).positive
    obtain ⟨hroom, hparts⟩ := hkept best hbest
    obtain ⟨it, hit, hadm, -, hle⟩ := offers_of_mem_cell hscorer hmem hparts
    have hinference : (parser.signChart scorer sentence accepts wide).inference ≠ .beam 0 := by
      rw [signChart, inference_parseChart]
      exact hroom
    obtain ⟨kept, hkeptmem, hkeptle⟩ := Chart.exists_le_offerAll hinference hit hadm
    have hcell : kept ∈ (parser.signChart scorer sentence accepts wide).cell
        ⟨0, sentence.length - 1⟩ := by
      rw [signChart_cell (within_of_mem_signChart hmem)]
      exact Cell.mem_ranked.2 hkeptmem
    -- The limit on the number of analyses is the same for both.
    have hnarrow := limit_of_bestParse? hbest
    have hwide : (parser.withInference wide).config.maxParses? ≠ some 0 := hnarrow
    have hbound := le_bestProbability hwide hcell
    exact le_trans_of_pos hp (le_trans_of_pos hp hle hkeptle) hbound
  · exact zero_le_bestProbability

/-- A beam never finds a more probable analysis than there is without one. -/
theorem bestProbability_le_exact (hscorer : scorer.Positive) (narrow : Inference) :
    (parser.withInference narrow).bestProbability scorer.toScorer sentence (.onSigns accepts) ≤
      (parser.withInference .exact).bestProbability scorer.toScorer sentence
        (.onSigns accepts) := by
  refine bestProbability_le_of_keepsParts hscorer fun best hbest => ⟨by decide, ?_⟩
  exact keepsParts_exact hscorer (mem_cell_of_bestParse? hbest)

/-- A beam with room for every cell finds what there is to find. -/
theorem bestProbability_of_fits {scorer : Scorer} {filter : Filter} {size : Nat}
    (hfits : ∀ span, (((parser.withInference .exact).parseChart scorer sentence filter).cell
      span).length ≤ size) :
    (parser.withInference (.beam size)).bestProbability scorer sentence filter =
      (parser.withInference .exact).bestProbability scorer sentence filter := by
  have hchart : (parser.withInference (.beam size)).parseChart scorer sentence filter =
      ((parser.withInference .exact).parseChart scorer sentence filter).withInference
        (.beam size) := by
    refine fillSpans_withInference rfl (Chart.wellFormed_empty _ _ _) ?_ (Span.within_nodup _) ?_
    · intro span hspan
      exact Span.mem_within.1 hspan
    · intro span _
      exact hfits span
  unfold bestProbability bestParse? parse
  rw [hchart]
  rfl

theorem ne_zero_of_bestParse? {scorer : Scorer} {filter : Filter} {size : Nat} {best : Parse}
    (h : (parser.withInference (.beam size)).bestParse? scorer sentence filter = some best) :
    size ≠ 0 := by
  have hmem := mem_cell_of_bestParse? h
  have hwithin := Chart.within_of_mem_cell hmem
  rw [length_parseChart] at hwithin
  rw [parseChart_cell hwithin, finalCell_eq, Cell.mem_ranked] at hmem
  have hpos := List.length_pos_of_mem hmem
  have hlength := Nat.lt_of_lt_of_le hpos (Chart.length_offerAll_le inference_parseChart _)
  exact Nat.ne_of_gt hlength

/-- A larger beam finds no less probable an analysis than a smaller one if it keeps the signs of the
    parts of the analysis that the smaller one finds, or if it has room for every cell that exact
    inference gives. -/
theorem bestProbability_beam_le (parser : Parser) (scorer : SignScorer) (hscorer : scorer.Positive)
    (sentence : Sentence) (accepts : Sign → Span → Bool) (small large : Nat)
    (hsizes : small ≤ large)
    (hkept : (∀ best, (parser.withInference (.beam small)).bestParse? scorer.toScorer sentence
          (.onSigns accepts) = some best →
        parser.KeepsParts scorer.toScorer sentence
          ((parser.withInference (.beam large)).parseChart scorer.toScorer sentence
            (.onSigns accepts)) best.entry) ∨
      ∀ span, (((parser.withInference .exact).parseChart scorer.toScorer sentence
        (.onSigns accepts)).cell span).length ≤ large) :
    (parser.withInference (.beam small)).bestProbability scorer.toScorer sentence
        (.onSigns accepts) ≤
      (parser.withInference (.beam large)).bestProbability scorer.toScorer sentence
        (.onSigns accepts) := by
  rcases hkept with hkept | hfits
  · refine bestProbability_le_of_keepsParts hscorer fun best hbest => ⟨?_, hkept best hbest⟩
    have hsmall := ne_zero_of_bestParse? hbest
    rintro ⟨⟩
    omega
  · rw [bestProbability_of_fits hfits]
    exact bestProbability_le_exact hscorer _

end Parser

/-! ## Weight tables -/

/-- All weights are positive. -/
structure Scorer.Positive (scorer : Scorer) : Prop where
  lexical : ∀ sentence span e, 0 < (scorer.lexical sentence span e).toFloat
  binary : ∀ combinator left right result,
    0 < (scorer.binary combinator left right result).toFloat
  unary : ∀ rule e, 0 < (scorer.unary rule e).toFloat
  dependency : ∀ d, 0 < (scorer.dependency d).toFloat

theorem SignScorer.Positive.toScorer {scorer : SignScorer} (h : scorer.Positive) :
    scorer.toScorer.Positive where
  lexical := h.lexical
  binary combinator left right := h.binary combinator left.sign right.sign
  unary rule e := h.unary rule e.sign
  dependency := h.dependency

theorem Weight.one_pos : 0 < Weight.one.toFloat := by decide +kernel

namespace WeightTable

/-- The scorer that looks weights up. It does not even look at signs. -/
def toSignScorer (t : WeightTable) : SignScorer where
  lexical _ _ e := (t.lexical.lookup (lookupKey e.words, e.category.category)).getD .one
  binary c _ _ _ := (t.binary.lookup c).getD .one
  unary rule _ := (t.unary.lookup rule).getD .one
  dependency d := (t.dependency.lookup (d.subject.name, d.argument, d.object.name)).getD .one

theorem toScorer_toSignScorer (t : WeightTable) : t.toSignScorer.toScorer = t.toScorer := rfl

/-- All weights of a table are positive. -/
structure Positive (t : WeightTable) : Prop where
  lexical : ∀ row ∈ t.lexical, 0 < row.2.toFloat
  unary : ∀ row ∈ t.unary, 0 < row.2.toFloat
  dependency : ∀ row ∈ t.dependency, 0 < row.2.toFloat
  binary : ∀ row ∈ t.binary, 0 < row.2.toFloat

theorem pos_lookup {κ : Type} [BEq κ] {rows : List (κ × Weight)}
    (h : ∀ row ∈ rows, 0 < row.2.toFloat) (key : κ) :
    0 < ((rows.lookup key).getD .one).toFloat := by
  induction rows with
  | nil => exact Weight.one_pos
  | cons row rows ih =>
    rw [List.lookup_cons]
    split
    · exact h row List.mem_cons_self
    · exact ih fun row hrow => h row (List.mem_cons_of_mem _ hrow)

theorem Positive.toSignScorer {t : WeightTable} (h : t.Positive) : t.toSignScorer.Positive where
  lexical _ _ _ := pos_lookup h.lexical _
  binary _ _ _ _ := pos_lookup h.binary _
  unary _ _ := pos_lookup h.unary _
  dependency _ := pos_lookup h.dependency _

end WeightTable

/-! ## Beams that lose -/

/-- The first two words combine in three ways, and the third one needs one of them. -/
def Grammar.crowded : Grammar where
  entries :=
    [⟨["a"], ⟨.func .forward (.atom "X" .unspecified 1) (.atom "B" .unspecified 1) 0,
        some ⟨[["a"], []], [⟨.predicate "a", 1, 1⟩]⟩⟩⟩,
      ⟨["a"], ⟨.func .forward (.atom "Y" .unspecified 0) (.atom "B" .unspecified 1) 0, none⟩⟩,
      ⟨["b"], ⟨.atom "B" .unspecified 0, some ⟨[["b"]], []⟩⟩⟩,
      ⟨["b"], ⟨.func .backward (.atom "Z" .unspecified 0)
        (.func .forward (.atom "Y" .unspecified 1) (.atom "B" .unspecified 2) 1) 0, none⟩⟩,
      ⟨["c"], ⟨.func .backward (.atom "S" .unspecified 0) (.atom "X" .unspecified 1) 0, none⟩⟩]
  rules := []
  config := .default

def Sentence.crowded : Sentence := ⟨["a", "b", "c"], none⟩

/-- Halves what the third word does not need, and weighs the dependency in what it needs. -/
def WeightTable.crowded (weight : Weight) : WeightTable where
  lexical :=
    [((["a"], .func .forward (.atom "Y" .unspecified 0) (.atom "B" .unspecified 1) 0),
        .ofFloat 0.5),
      ((["b"], .func .backward (.atom "Z" .unspecified 0)
        (.func .forward (.atom "Y" .unspecified 1) (.atom "B" .unspecified 2) 1) 0),
        .ofFloat 0.5)]
  unary := []
  dependency := [(("a", 1, "b"), weight)]
  binary := []

theorem WeightTable.positive_crowded {weight : Weight} (h : 0 < weight.toFloat) :
    (WeightTable.crowded weight).Positive := by
  have hhalf : 0 < (Weight.ofFloat 0.5).toFloat := by decide +kernel
  refine ⟨fun row hrow => ?_, nofun, fun row hrow => ?_, nofun⟩
  · rcases List.mem_pair.1 hrow with rfl | rfl <;> exact hhalf
  · rw [List.mem_singleton.1 hrow]
    exact h

/-- A phrase that is also a noun, a rule that makes nouns phrases, and a verb. -/
def Grammar.twofold : Grammar where
  entries :=
    [⟨["a"], ⟨.atom "NP" .unspecified 0, some ⟨[["a"]], []⟩⟩⟩,
      ⟨["a"], ⟨.atom "N" .unspecified 0, some ⟨[["a"]], []⟩⟩⟩,
      ⟨["b"], ⟨.func .backward (.atom "S" .unspecified 0) (.atom "NP" .unspecified 1) 0, none⟩⟩]
  rules := [⟨.atom "N" .unspecified 0, .atom "NP" .unspecified 0, []⟩]
  config := .default

def Sentence.twofold : Sentence := ⟨["a", "b"], none⟩

/-- Doubles unary rules, and gives `penalty` to combinations whose left part has one on top. -/
def Scorer.twofold (penalty : Weight) : Scorer where
  lexical _ _ _ := .one
  binary _ left _ _ := if left.unary?.isSome then penalty else .one
  unary _ _ := .ofFloat 2.0
  dependency _ := .one

theorem Scorer.positive_twofold {penalty : Weight} (h : 0 < penalty.toFloat) :
    (Scorer.twofold penalty).Positive := by
  have htwo : 0 < (Weight.ofFloat 2.0).toFloat := by decide +kernel
  have hpenalty : ∀ b : Bool, 0 < (if b then penalty else .one : Weight).toFloat := by
    rintro (_ | _)
    · exact Weight.one_pos
    · exact h
  exact ⟨fun _ _ _ => Weight.one_pos, fun _ _ _ _ => hpenalty _, fun _ _ => htwo,
    fun _ => Weight.one_pos⟩

/-- Accepts combinations only if their left part has no unary rule on top. -/
def Filter.twofold : Filter := fun e _ =>
  match e.children? with
  | some (left, _) => left.unary?.isNone
  | Option.none => true

namespace Parser

/-- A larger beam may find less. A beam for two keeps more of the first two words than a beam for
    one, so that there are three combinations of them, and it drops the one that the third word
    needs. Even if it drops nothing, a phrase may give way to a more probable one with the same
    sign, which a scorer or a filter that looks at derivations treats worse. -/
theorem exists_larger_beam_finds_less :
    ((WeightTable.crowded (.ofFloat 0.125)).toScorer.Positive ∧
      ¬ (Grammar.crowded.parser.withInference (.beam 1)).bestProbability
          (WeightTable.crowded (.ofFloat 0.125)).toScorer .crowded .none ≤
        (Grammar.crowded.parser.withInference (.beam 2)).bestProbability
          (WeightTable.crowded (.ofFloat 0.125)).toScorer .crowded .none) ∧
    ((Scorer.twofold (.ofFloat 0.125)).Positive ∧
      (∀ span ∈ Span.within 2, (((Grammar.twofold.parser.withInference .exact).parseChart
        (Scorer.twofold (.ofFloat 0.125)) .twofold .none).cell span).length ≤ 2) ∧
      ¬ (Grammar.twofold.parser.withInference (.beam 1)).bestProbability
          (Scorer.twofold (.ofFloat 0.125)) .twofold .none ≤
        (Grammar.twofold.parser.withInference (.beam 2)).bestProbability
          (Scorer.twofold (.ofFloat 0.125)) .twofold .none) ∧
    (Scorer.twofold .one).Positive ∧
      (∀ span ∈ Span.within 2, (((Grammar.twofold.parser.withInference .exact).parseChart
        (Scorer.twofold .one) .twofold .twofold).cell span).length ≤ 2) ∧
      ¬ (Grammar.twofold.parser.withInference (.beam 1)).bestProbability
          (Scorer.twofold .one) .twofold .twofold ≤
        (Grammar.twofold.parser.withInference (.beam 2)).bestProbability
          (Scorer.twofold .one) .twofold .twofold := by
  have heighth : 0 < (Weight.ofFloat 0.125).toFloat := by decide +kernel
  have hcrowded := (WeightTable.positive_crowded heighth).toSignScorer.toScorer
  refine ⟨⟨hcrowded, ?_⟩, ⟨Scorer.positive_twofold heighth, ?_, ?_⟩,
    Scorer.positive_twofold Weight.one_pos, ?_, ?_⟩ <;> decide +kernel

/-- With another weight for the dependency, a beam for two still drops one of the three combinations
    of the first two words, but keeps the one that is needed. -/
theorem bestProbability_beam_le_crowded :
    (WeightTable.crowded .one).toSignScorer.Positive ∧
    (((Grammar.crowded.parser.withInference .exact).parseChart
      (WeightTable.crowded .one).toScorer .crowded (.onSigns fun _ _ => true)).cell
        ⟨0, 1⟩).length = 3 ∧
    0 < (Grammar.crowded.parser.withInference (.beam 1)).bestProbability
      (WeightTable.crowded .one).toScorer .crowded (.onSigns fun _ _ => true) ∧
    (Grammar.crowded.parser.withInference (.beam 1)).bestProbability
        (WeightTable.crowded .one).toScorer .crowded (.onSigns fun _ _ => true) ≤
      (Grammar.crowded.parser.withInference (.beam 2)).bestProbability
        (WeightTable.crowded .one).toScorer .crowded (.onSigns fun _ _ => true) := by
  have hscorer := (WeightTable.positive_crowded Weight.one_pos).toSignScorer
  have hkept : ((Grammar.crowded.parser.withInference (.beam 1)).bestParse?
      (WeightTable.crowded .one).toScorer .crowded (.onSigns fun _ _ => true)).all (fun best =>
        decide (Grammar.crowded.parser.KeepsParts (WeightTable.crowded .one).toScorer .crowded
          ((Grammar.crowded.parser.withInference (.beam 2)).parseChart
            (WeightTable.crowded .one).toScorer .crowded (.onSigns fun _ _ => true)) best.entry)) =
      true := by decide +kernel
  refine ⟨hscorer, by decide +kernel, by decide +kernel, ?_⟩
  refine bestProbability_beam_le _ _ hscorer _ _ 1 2 (by decide) (.inl fun best hbest => ?_)
  rw [WeightTable.toScorer_toSignScorer] at hbest
  rw [hbest] at hkept
  exact of_decide_eq_true hkept

end Parser

end Categorial
