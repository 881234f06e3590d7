/-
  Categorial.Proofs.Chart.Completeness

  With exact inference and no filter the chart misses no derivation: the cell of its span has just
  one item with its sign, and that item is at least as probable as the derivation
  (`Derivation.covers`).  The argument goes by induction on the derivation.  What has to be carried
  along is that a derivation without a final unary rule is covered already before the unary rules of
  its cell are tried, since those look only at what is there at that time.  Conversely, every item
  has the weight of some derivation (`Derivation.exists_yields`).
-/

import Categorial.Proofs.Chart.Filling
import Categorial.Proofs.Chart.Origin
import Categorial.Proofs.Derivation

namespace Categorial

open Probability

variable {g : Grammar} {sentence : Sentence} {scorer : SignScorer}

/-! ## Probabilities of items -/

/-- A binary item is at least as probable as the same step on less probable parts. -/
theorem le_probability_binaryItem (hscorer : scorer.Positive) {p q : Float} (hp : 0 < p)
    (hq : 0 < q) {left right : Item} (hleft : p ≤ left.probability) (hright : q ≤ right.probability)
    (span : Span) (split : Nat) (combinator : Combinator) (c : Combination)
    (hpos : 0 < p * q *
      (scorer.binary combinator left.entry.sign right.entry.sign c.sign).toFloat *
        scorer.dependencies c.filled) :
    p * q * (scorer.binary combinator left.entry.sign right.entry.sign c.sign).toFloat *
        scorer.dependencies c.filled ≤
      (Parser.binaryItem scorer.toScorer span split left right combinator c).probability := by
  -- Rounding makes each product a step of its own, so the factors are compared one by one.
  have hstep := hscorer.binary combinator left.entry.sign right.entry.sign c.sign
  have hpq : Unsigned (p * q) := (Unsigned.of_pos hp).mul (.of_pos hq)
  refine mul_le_mul_of_pos (hpq.mul (.of_pos hstep)) (hscorer.unsigned_dependencies _) hpos ?_
    le_refl_of_pos
  intro hpos
  refine mul_le_mul_of_pos hpq (.of_pos hstep) hpos (fun _ => ?_) le_refl_of_pos
  exact mul_le_mul hp hleft hq hright

/-- A unary item is at least as probable as the same step on a less probable base. -/
theorem le_probability_unaryItem (hscorer : scorer.Positive) {p : Float} (hp : 0 < p) {base : Item}
    (hbase : p ≤ base.probability) (rule : UnaryRule) (c : Combination)
    (hpos : 0 < p * (scorer.unary rule base.entry.sign).toFloat * scorer.dependencies c.filled) :
    p * (scorer.unary rule base.entry.sign).toFloat * scorer.dependencies c.filled ≤
      (Parser.unaryItem scorer.toScorer base rule c).probability := by
  have hstep := hscorer.unary rule base.entry.sign
  refine mul_le_mul_of_pos ((Unsigned.of_pos hp).mul (.of_pos hstep))
    (hscorer.unsigned_dependencies _) hpos ?_ le_refl_of_pos
  intro _
  exact mul_le_mul hp hbase hstep (le_refl_of_pos hstep)

theorem Cell.Covers.of_le {cell : Cell} {sign : Sign} {p q : Float} (hp : 0 < p) (hpq : p ≤ q)
    (h : cell.Covers sign q) : cell.Covers sign p := by
  obtain ⟨it, hit, hsign, hle⟩ := h
  exact ⟨it, hit, hsign, le_trans_of_pos hp hpq hle⟩

/-! ## The chart without a filter -/

namespace Grammar

/-- The chart of a sentence when no filter is used. -/
def chart (g : Grammar) (scorer : SignScorer) (sentence : Sentence) : Chart :=
  g.parser.parseChart scorer.toScorer sentence Filter.none

/-- The cell of a span before its unary rules. -/
def combinedCell (g : Grammar) (scorer : SignScorer) (sentence : Sentence) (span : Span) : Cell :=
  g.parser.combinedCell scorer.toScorer sentence (g.chart scorer sentence) span

variable {span : Span}

theorem inference_chart : (g.chart scorer sentence).inference = g.config.inference :=
  Parser.inference_parseChart

theorem admits_chart {it : Item} (h : 0 < it.probability) :
    (g.chart scorer sentence).admits it span = true := by
  refine Chart.admits_iff.2 ⟨h, ?_⟩
  rw [chart, Parser.filter_parseChart]
  rfl

theorem cell_chart (hspan : span.Within sentence.length) :
    (g.chart scorer sentence).cell span =
      g.parser.finalCell scorer.toScorer sentence (g.chart scorer sentence) span :=
  Parser.parseChart_cell hspan

theorem covers_cell (hexact : g.config.inference = .exact) (hspan : span.Within sentence.length)
    {sign : Sign} {p : Float} (hp : 0 < p)
    (h : (g.combinedCell scorer sentence span).Covers sign p) :
    ((g.chart scorer sentence).cell span).Covers sign p := by
  rw [cell_chart hspan]
  exact Parser.covers_finalCell (inference_chart.trans hexact) hp h

/-- A combined item covers what is less probable, and the unary rules of its span keep it so. -/
theorem covers_of_combined (hexact : g.config.inference = .exact)
    (hspan : span.Within sentence.length) {it : Item}
    (h : g.parser.Combined scorer.toScorer sentence (g.chart scorer sentence) span it)
    {p : Float} (hp : 0 < p) (hle : p ≤ it.probability) :
    (g.combinedCell scorer sentence span).Covers it.entry.sign p ∧
      ((g.chart scorer sentence).cell span).Covers it.entry.sign p := by
  have hcombined := Parser.covers_combinedCell (inference_chart.trans hexact) h
    (admits_chart (pos_of_pos_of_le hp hle))
  have hearly := hcombined.of_le hp hle
  exact ⟨hearly, covers_cell hexact hspan hp hearly⟩

theorem covers_of_raised (hexact : g.config.inference = .exact)
    (hspan : span.Within sentence.length) {base it : Item}
    (hbase : base ∈ g.combinedCell scorer sentence span)
    (h : g.parser.Raised scorer.toScorer base it) {p : Float} (hp : 0 < p)
    (hle : p ≤ it.probability) :
    ((g.chart scorer sentence).cell span).Covers it.entry.sign p := by
  rw [cell_chart hspan]
  exact (Parser.covers_finalCell_of_raised (inference_chart.trans hexact) hbase h
    (admits_chart (pos_of_pos_of_le hp hle))).of_le hp hle

end Grammar

/-! ## Derivations -/

namespace Derivation

variable {raised : Bool} {span : Span} {sign : Sign}

/-- The chart covers every derivation, and covers it early if it has no final unary rule. -/
theorem covers (hexact : g.config.inference = .exact) (hscorer : scorer.Positive)
    (d : Derivation g sentence raised span sign) (hd : d.Positive scorer) :
    (raised = false → (g.combinedCell scorer sentence span).Covers sign (d.weight scorer)) ∧
      ((g.chart scorer sentence).cell span).Covers sign (d.weight scorer) := by
  induction d with
  | lexical span e hspan h =>
    have hitem : g.parser.Combined scorer.toScorer sentence (g.chart scorer sentence) span
        (Parser.terminalItem scorer.toScorer sentence span e) :=
      .terminal ((Grammar.matches_iff hspan).1 h)
    obtain ⟨hearly, hcell⟩ :=
      Grammar.covers_of_combined hexact hspan hitem hd (le_refl_of_pos hd)
    exact ⟨fun _ => hearly, hcell⟩
  | @binary start split last _ _ _ _ combinator c left right h ihl ihr =>
    obtain ⟨hl, hr, hpos⟩ := hd
    -- The cells of the parts have items with the signs of the parts, so the same step is offered.
    obtain ⟨-, l, hlmem, rfl, hlle⟩ := ihl hl
    obtain ⟨-, r, hrmem, rfl, hrle⟩ := ihr hr
    have hstart : start ≤ split := left.within.1
    have hlast : split < last := right.within.1
    have hitem : g.parser.Combined scorer.toScorer sentence (g.chart scorer sentence) ⟨start, last⟩
        (Parser.binaryItem scorer.toScorer ⟨start, last⟩ split l r combinator c) :=
      .binary hstart hlast hlmem hrmem h
    have hle := le_probability_binaryItem hscorer hl.weight_pos hr.weight_pos hlle hrle
      ⟨start, last⟩ split combinator c hpos
    have hspan : Span.Within sentence.length ⟨start, last⟩ :=
      ⟨Nat.le_of_lt (Nat.lt_of_le_of_lt hstart hlast), right.within.2⟩
    obtain ⟨hearly, hcell⟩ := Grammar.covers_of_combined hexact hspan hitem hpos hle
    exact ⟨fun _ => hearly, hcell⟩
  | unary rule c base hrule h ih =>
    obtain ⟨hbase, hpos⟩ := hd
    -- The base is covered by an item without a unary rule, so the rule is tried on that item.
    obtain ⟨b, hbmem, rfl, hble⟩ := (ih hbase).1 rfl
    have hraised : g.parser.Raised scorer.toScorer b
        (Parser.unaryItem scorer.toScorer b rule c) :=
      .intro (Parser.mem_combinedCell hbmem).1.unary?_eq_none hrule h
    have hle := le_probability_unaryItem hscorer hbase.weight_pos hble rule c hpos
    have hcell := Grammar.covers_of_raised hexact base.within hbmem hraised hpos hle
    rw [Parser.sign_unaryItem] at hcell
    exact ⟨fun hfalse => (Bool.noConfusion hfalse), hcell⟩

/-! ## Items come from derivations -/

/-- An item has the sign and the weight of a derivation. -/
def Yields (g : Grammar) (scorer : SignScorer) (sentence : Sentence) (raised : Bool) (span : Span)
    (it : Item) : Prop :=
  ∃ d : Derivation g sentence raised span it.entry.sign,
    d.Positive scorer ∧ d.weight scorer = it.probability

theorem yields_of_combined (hspan : span.Within sentence.length)
    (hcells : ∀ part : Span, part.extent < span.extent →
      ∀ it ∈ (g.chart scorer sentence).cell part, ∃ raised, Yields g scorer sentence raised part it)
    {it : Item} (hpos : 0 < it.probability)
    (h : g.parser.Combined scorer.toScorer sentence (g.chart scorer sentence) span it) :
    Yields g scorer sentence false span it := by
  cases h with
  | @terminal e h =>
    let d := lexical span e hspan ((Grammar.matches_iff hspan).2 h)
    exact ⟨d, hpos, rfl⟩
  | @binary split left right combinator c hstart hlast hleft hright h =>
    have hparts := Span.extent_lt_of_mem_splits (Span.mem_splits.2 ⟨split, hstart, hlast, rfl, rfl⟩)
    obtain ⟨_, l, hl, hlw⟩ := hcells _ hparts.1 left hleft
    obtain ⟨_, r, hr, hrw⟩ := hcells _ hparts.2 right hright
    let d := binary combinator c l r h
    have hweight : d.weight scorer = (Parser.binaryItem scorer.toScorer span split left right
        combinator c).probability := by
      simp only [d, weight, hlw, hrw, Parser.binaryItem]
      rfl
    exact ⟨d, ⟨hl, hr, hweight ▸ hpos⟩, hweight⟩

theorem yields_of_raised {base it : Item} (hpos : 0 < it.probability)
    (hbase : Yields g scorer sentence false span base)
    (h : g.parser.Raised scorer.toScorer base it) : Yields g scorer sentence true span it := by
  obtain ⟨b, hb, hbw⟩ := hbase
  cases h with
  | @intro rule c _ hrule h =>
    let d := unary rule c b hrule h
    have hweight : d.weight scorer =
        (Parser.unaryItem scorer.toScorer base rule c).probability := by
      simp only [d, weight, hbw, Parser.unaryItem]
      rfl
    unfold Yields
    rw [Parser.sign_unaryItem]
    exact ⟨d, ⟨hb, hweight ▸ hpos⟩, hweight⟩

/-- Every item of the chart has the sign and the weight of a derivation of its span. -/
theorem exists_yields {it : Item} (h : it ∈ (g.chart scorer sentence).cell span) :
    ∃ raised, Yields g scorer sentence raised span it := by
  -- The parts of a combination lie in the cells of shorter spans.
  induction hn : span.extent using Nat.strongRecOn generalizing span it with
  | ind n ih =>
    have hspan : span.Within sentence.length := by
      simpa only [Grammar.chart, Parser.length_parseChart] using Chart.within_of_mem_cell h
    have hcells : ∀ part : Span, part.extent < span.extent →
        ∀ it ∈ (g.chart scorer sentence).cell part,
          ∃ raised, Yields g scorer sentence raised part it :=
      fun part hpart it hit => ih part.extent (hn ▸ hpart) hit rfl
    rw [Grammar.cell_chart hspan] at h
    obtain ⟨hadm, h | ⟨base, hbase, h⟩⟩ := Parser.mem_finalCell h
    · exact ⟨false, yields_of_combined hspan hcells (Chart.admits_iff.1 hadm).1 h⟩
    · obtain ⟨hcombined, hadm'⟩ := Parser.mem_combinedCell hbase
      have hyields := yields_of_combined hspan hcells (Chart.admits_iff.1 hadm').1 hcombined
      exact ⟨true, yields_of_raised (Chart.admits_iff.1 hadm).1 hyields h⟩

/-! ## The best item -/

/-- With exact inference and no filter, the cell of a span has one item for each sign that some
    derivation of the span has, and its probability is the greatest weight of such a derivation. -/
theorem exists_best_item (g : Grammar) (hexact : g.config.inference = .exact)
    (scorer : SignScorer) (hscorer : scorer.Positive) (sentence : Sentence)
    (d : Derivation g sentence raised span sign) (hd : d.Positive scorer) :
    ∃ item,
      ((g.parser.parseChart scorer.toScorer sentence Filter.none).cell span).filter
        (fun it => it.entry.sign = sign) = [item] ∧
      d.weight scorer ≤ item.probability ∧
      ∃ raised, ∃ best : Derivation g sentence raised span sign,
        best.Positive scorer ∧ best.weight scorer = item.probability := by
  obtain ⟨-, item, hmem, rfl, hle⟩ := d.covers hexact hscorer hd
  have hdistinct : ((g.chart scorer sentence).cell span).Distinct := by
    rw [Grammar.cell_chart d.within]
    exact Parser.distinct_finalCell
  exact ⟨item, hdistinct.filter_sign_eq hmem, hle, exists_yields hmem⟩

/-- An unknown noun becomes a phrase, and the verb applies to it. -/
def sampleDerivation : Derivation Grammar.sample Sentence.sample false ⟨0, 1⟩
    ⟨.atom "S" .unspecified 0, [⟨0, "sleep", 1⟩], []⟩ :=
  .binary .backwardApplication
    ⟨⟨.atom "S" .unspecified 0, [⟨0, "sleep", 1⟩], []⟩, [⟨⟨"sleep", 1⟩, 1, ⟨"thing", 0⟩⟩], []⟩
    (.unary ⟨.atom "N" .unspecified 0, .atom "NP" .unspecified 0, []⟩
      ⟨⟨.atom "NP" .unspecified 0, [⟨0, "thing", 0⟩], []⟩, [], []⟩
      (.lexical ⟨0, 0⟩ ⟨["UNK-NNS"], ⟨.atom "N" .unspecified 0, some ⟨[["thing"]], []⟩⟩⟩
        (by decide) ((Grammar.matches_iff (by decide)).2 (by decide +kernel)))
      (by decide +kernel) (by decide +kernel))
    (.lexical ⟨1, 1⟩
      ⟨["sleep"], ⟨.func .backward (.atom "S" .unspecified 0) (.atom "NP" .unspecified 1) 0,
        some ⟨[["sleep"], []], [⟨.predicate "sleep", 1, 1⟩]⟩⟩⟩
      (by decide) ((Grammar.matches_iff (by decide)).2 (by decide +kernel)))
    (by decide +kernel)

theorem positive_sampleDerivation : sampleDerivation.Positive .uniform := by decide +kernel

theorem exists_best_item_sample :
    sampleDerivation.Positive .uniform ∧
    ∃ item,
      ((Grammar.sample.parser.parseChart Scorer.uniform Sentence.sample Filter.none).cell
        ⟨0, 1⟩).filter
        (fun it => it.entry.sign = ⟨.atom "S" .unspecified 0, [⟨0, "sleep", 1⟩], []⟩) = [item] ∧
      sampleDerivation.weight .uniform ≤ item.probability := by
  refine ⟨positive_sampleDerivation, ?_⟩
  obtain ⟨item, hfilter, hle, -⟩ := exists_best_item Grammar.sample rfl .uniform
    SignScorer.positive_uniform Sentence.sample sampleDerivation positive_sampleDerivation
  exact ⟨item, hfilter, hle⟩

end Derivation

end Categorial
