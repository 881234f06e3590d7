/-
  Categorial.Proofs.Chart.Retention

  Following a derivation of one chart in another chart for the same sentence.  A beam that has kept
  a sign has kept it with the greatest probability that was offered (`covers_offerAll_of_has`), so
  it is enough that the other chart has the signs of the parts, and those that unary rules were
  applied to (`KeepsParts`): then it is offered the same steps with no less probability
  (`offers_of_mem_cell`).  Scorers and filters have to look at signs here, since the parts that the
  other chart has may be derived in another way.  A chart without a beam keeps the parts of whatever
  any chart has (`keepsParts_exact`).
-/

import Categorial.Proofs.Chart.Completeness
import Categorial.Proofs.Chart.Conservation
import Categorial.Proofs.Chart.WideBeam

namespace Categorial

open Probability

/-! ## What a run of offers keeps -/

namespace Cell

/-- Some item has the sign. -/
def Has (cell : Cell) (sign : Sign) : Prop := ∃ it ∈ cell, it.entry.sign = sign

instance (cell : Cell) (sign : Sign) : Decidable (cell.Has sign) :=
  inferInstanceAs (Decidable (∃ it ∈ cell, it.entry.sign = sign))

variable {size : Nat} {beam exact : Cell} {sign : Sign} {p : Float}

theorem Covers.has (h : exact.Covers sign p) : exact.Has sign := by
  obtain ⟨it, hit, hsign, -⟩ := h
  exact ⟨it, hit, hsign⟩

/-- If a beam has kept a sign, it has kept it with its probability. -/
theorem IsBeam.covers (h : IsBeam size beam exact) (hexact : exact.Covers sign p)
    (hkept : beam.Has sign) : beam.Covers sign p := by
  obtain ⟨best, hbest, hsign, hle⟩ := hexact
  obtain ⟨it, hit, hit'⟩ := hkept
  have heq : it = best :=
    h.distinct.eq_of_sign_eq (h.toKeepsBest.mem hit) hbest (hit'.trans hsign.symm)
  rw [← heq] at hle
  exact ⟨it, hit, hit', hle⟩

/-- A beam that has room for an item keeps a most probable one. -/
theorem IsBeam.exists_le (h : IsBeam size beam exact) (hsize : 0 < size) (hp : 0 < p)
    (hexact : exact.Covers sign p) : ∃ it ∈ beam, p ≤ it.probability := by
  obtain ⟨best, hbest, -, hle⟩ := hexact
  obtain ⟨lost, hperm, hlost⟩ := h.parts
  rcases List.mem_append.1 (hperm.mem_iff.1 hbest) with hmem | hmem
  · exact ⟨best, hmem, hle⟩
  · -- Whatever the beam has is at least as probable as what it has lost.
    have hlength : beam.length = min size exact.length := h.length
    have hpos : 0 < exact.length := List.length_pos_of_mem hbest
    obtain ⟨kept, hkept⟩ := List.exists_mem_of_length_pos (l := beam) (by omega)
    exact ⟨kept, hkept, le_trans_of_pos hp hle (hlost kept hkept best hmem)⟩

end Cell

namespace Chart

variable {chart : Chart} {span : Span} {size : Nat} {items : List Item} {item : Item}

/-- A run of offers to a cell with a beam and to a cell without one. -/
theorem isBeam_offerAll (hbeam : chart.inference = .beam size) (span : Span) {beam exact : Cell}
    (h : beam.IsBeam size exact) (items : List Item) :
    (chart.offerAll span beam items).IsBeam size
      ((chart.withInference .exact).offerAll span exact items) := by
  induction items generalizing beam exact with
  | nil => exact h
  | cons item items ih =>
    -- The two charts have one filter, so they let in the same items.
    show Cell.IsBeam size
      (chart.offerAll span
        (if chart.admits item span then (beam.offer chart.inference item).1 else beam) items)
      ((chart.withInference .exact).offerAll span
        (if chart.admits item span then (exact.offer .exact item).1 else exact) items)
    by_cases hadm : chart.admits item span = true
    · rw [if_pos hadm, if_pos hadm, hbeam]
      exact ih (h.offer (admits_iff.1 hadm).1)
    · rw [if_neg hadm, if_neg hadm]
      exact ih h

theorem length_offerAll_le (hbeam : chart.inference = .beam size) (items : List Item) :
    (chart.offerAll span [] items).length ≤ size := by
  rw [(isBeam_offerAll hbeam span (.nil size) items).length]
  exact Nat.min_le_left _ _

theorem covers_exact_of_mem (hmem : item ∈ items) (hadm : chart.admits item span = true) :
    ((chart.withInference .exact).offerAll span [] items).Covers item.entry.sign
      item.probability :=
  covers_offerAll_of_mem rfl Cell.positive_nil hmem hadm

/-- What was offered and has its sign in the cell in the end is covered. -/
theorem covers_offerAll_of_has (hmem : item ∈ items) (hadm : chart.admits item span = true)
    (hkept : (chart.offerAll span [] items).Has item.entry.sign) :
    (chart.offerAll span [] items).Covers item.entry.sign item.probability := by
  cases hinference : chart.inference with
  | exact => exact covers_offerAll_of_mem hinference Cell.positive_nil hmem hadm
  | beam size =>
    have hbeam := isBeam_offerAll hinference span (.nil size) items
    exact hbeam.covers (covers_exact_of_mem hmem hadm) hkept

/-- Where there is room for an item, something at least as probable as each offer is kept. -/
theorem exists_le_offerAll (hroom : chart.inference ≠ .beam 0) (hmem : item ∈ items)
    (hadm : chart.admits item span = true) :
    ∃ it ∈ chart.offerAll span [] items, item.probability ≤ it.probability := by
  cases hinference : chart.inference with
  | exact =>
    obtain ⟨it, hit, -, hle⟩ :=
      covers_offerAll_of_mem hinference Cell.positive_nil hmem hadm
    exact ⟨it, hit, hle⟩
  | beam size =>
    have hsize : 0 < size := Nat.pos_of_ne_zero fun hzero => hroom (hzero ▸ hinference)
    have hbeam := isBeam_offerAll hinference span (.nil size) items
    exact hbeam.exists_le hsize (admits_iff.1 hadm).1 (covers_exact_of_mem hmem hadm)

end Chart

namespace Entry

theorem sign_withNode (n : Node) (e : Entry) : (e.withNode n).sign = n.sign := by
  cases e <;> rfl

theorem step?_withUnary (mode : FeatureMode) (rule : UnaryRule) (u : Combination) (e : Entry) :
    (e.withUnary rule u).step? mode = e.step? mode := by
  cases e <;> rfl

end Entry

/-! ## Offers to a cell -/

namespace Parser

variable {parser : Parser} {scorer : Scorer} {sentence : Sentence} {chart : Chart} {span : Span}

/-- All items that the cell of a span is offered, in their order. -/
def offeredItems (parser : Parser) (scorer : Scorer) (sentence : Sentence) (chart : Chart)
    (span : Span) : List Item :=
  parser.combinedItems scorer sentence chart span ++
    (parser.combinedCell scorer sentence chart span).flatMap (parser.unaryItems scorer)

theorem mem_offeredItems {it : Item} :
    it ∈ parser.offeredItems scorer sentence chart span ↔
      parser.Combined scorer sentence chart span it ∨
        ∃ base ∈ parser.combinedCell scorer sentence chart span, parser.Raised scorer base it := by
  simp only [offeredItems, List.mem_append, mem_combinedItems, List.mem_flatMap, mem_unaryItems]

theorem finalCell_eq :
    parser.finalCell scorer sentence chart span =
      (chart.offerAll span [] (parser.offeredItems scorer sentence chart span)).ranked := by
  have hsplit : chart.offerAll span [] (parser.offeredItems scorer sentence chart span) =
      chart.offerAll span (chart.offerAll span [] (parser.combinedItems scorer sentence chart span))
        ((parser.combinedCell scorer sentence chart span).flatMap (parser.unaryItems scorer)) :=
    List.foldl_append
  rw [hsplit, ← combinedCell_eq]
  rfl

theorem covers_combinedCell_of_has {it : Item}
    (h : parser.Combined scorer sentence chart span it) (hadm : chart.admits it span = true)
    (hkept : (parser.combinedCell scorer sentence chart span).Has it.entry.sign) :
    (parser.combinedCell scorer sentence chart span).Covers it.entry.sign it.probability := by
  rw [combinedCell_eq] at hkept ⊢
  exact Chart.covers_offerAll_of_has (mem_combinedItems.2 h) hadm hkept

/-! ## What a chart keeps of a derivation -/

section Keeps

variable (parser : Parser) (scorer : Scorer) (sentence : Sentence) (chart : Chart)

/-- If an entry has a unary rule on top, its cell has the sign that the rule was applied to when the
    rules are tried. -/
def KeepsBase (e : Entry) : Prop :=
  e.unary?.isSome = true → ∀ step ∈ e.step? parser.config.features,
    (parser.combinedCell scorer sentence chart e.span).Has step.outcome.sign

/-- The chart has the signs of all proper parts of a derivation, and those that unary rules were
    applied to in it. -/
def KeepsParts : Entry → Prop
  | e@(.terminal _ _ _) => parser.KeepsBase scorer sentence chart e
  | e@(.binary _ _ _ l _ r _) =>
    parser.KeepsBase scorer sentence chart e ∧
      ((chart.cell l.span).Has l.sign ∧ KeepsParts l) ∧
        (chart.cell r.span).Has r.sign ∧ KeepsParts r

instance decidableKeepsBase (e : Entry) : Decidable (parser.KeepsBase scorer sentence chart e) :=
  inferInstanceAs (Decidable (_ → ∀ step ∈ e.step? parser.config.features,
    (parser.combinedCell scorer sentence chart e.span).Has step.outcome.sign))

instance decidableKeepsParts :
    (e : Entry) → Decidable (parser.KeepsParts scorer sentence chart e)
  | .terminal _ _ _ => inferInstanceAs (Decidable (KeepsBase ..))
  | .binary _ _ _ l _ r _ =>
    have := decidableKeepsParts l
    have := decidableKeepsParts r
    inferInstanceAs (Decidable (_ ∧ (_ ∧ _) ∧ _ ∧ _))

end Keeps

end Parser

/-- A filter that looks at signs, and not at how they were derived. -/
def Filter.onSigns (accepts : Sign → Span → Bool) : Filter := fun e span => accepts e.sign span

namespace Parser

variable {parser : Parser} {scorer : SignScorer} {sentence : Sentence}
variable {accepts : Sign → Span → Bool} {narrow wide : Inference} {span : Span}

/-- The chart of a sentence with a way of inference, when scorer and filter look at signs. -/
def signChart (parser : Parser) (scorer : SignScorer) (sentence : Sentence)
    (accepts : Sign → Span → Bool) (inference : Inference) : Chart :=
  (parser.withInference inference).parseChart scorer.toScorer sentence (.onSigns accepts)

/-- An item of at least probability `p` with a sign is offered to a cell and let in. -/
def Offers (parser : Parser) (scorer : SignScorer) (sentence : Sentence) (chart : Chart)
    (span : Span) (sign : Sign) (p : Float) : Prop :=
  ∃ it ∈ parser.offeredItems scorer.toScorer sentence chart span,
    chart.admits it span = true ∧ it.entry.sign = sign ∧ p ≤ it.probability

theorem signChart_cell (hspan : span.Within sentence.length) :
    (parser.signChart scorer sentence accepts wide).cell span =
      ((parser.signChart scorer sentence accepts wide).offerAll span []
        (parser.offeredItems scorer.toScorer sentence
          (parser.signChart scorer sentence accepts wide) span)).ranked := by
  rw [← finalCell_eq]
  exact parseChart_cell hspan

theorem within_of_mem_signChart {it : Item}
    (h : it ∈ (parser.signChart scorer sentence accepts wide).cell span) :
    span.Within sentence.length := by
  have hwithin := Chart.within_of_mem_cell h
  rwa [signChart, length_parseChart] at hwithin

theorem admits_signChart {it : Item} :
    (parser.signChart scorer sentence accepts wide).admits it span = true ↔
      0 < it.probability ∧ accepts it.entry.sign span = true := by
  rw [Chart.admits_iff, signChart, filter_parseChart]
  rfl

/-- A cell that has the sign of an offer has it with the probability of the offer. -/
theorem covers_of_offers (hspan : span.Within sentence.length) {sign : Sign} {p : Float}
    (hp : 0 < p)
    (h : parser.Offers scorer sentence (parser.signChart scorer sentence accepts wide) span sign p)
    (hkept : ((parser.signChart scorer sentence accepts wide).cell span).Has sign) :
    ((parser.signChart scorer sentence accepts wide).cell span).Covers sign p := by
  obtain ⟨it, hit, hadm, rfl, hle⟩ := h
  rw [signChart_cell hspan] at hkept ⊢
  obtain ⟨kept, hmem, hsign⟩ := hkept
  have hcovers := Chart.covers_offerAll_of_has hit hadm ⟨kept, Cell.mem_ranked.1 hmem, hsign⟩
  exact hcovers.ranked.of_le hp hle

/-! ## Following a derivation in another chart -/

/-- The node of an entry when scorers look at signs: without a rule, or with one. -/
theorem replaysNode_cases {e : Entry} {p q : Float} {c : Combination}
    (h : parser.ReplaysNode scorer.toScorer span e p c q) :
    (e.sign = c.sign ∧ p = q) ∨
      ∃ unary u, e.unary? = some unary ∧ unary.rule ∈ parser.rules ∧
        unary.rule.apply parser.config.features c.sign = some u ∧ e.sign = u.sign ∧
        p = q * (scorer.unary unary.rule c.sign).toFloat * scorer.dependencies u.filled := by
  unfold ReplaysNode at h
  split at h
  · obtain ⟨hsign, -, -, hp⟩ := h
    exact .inl ⟨hsign, hp⟩
  · rename_i unary hunary
    obtain ⟨hrule, -, u, happly, hsign, -, -, hp⟩ := h
    refine .inr ⟨unary, u, hunary, hrule, happly, hsign, hp.trans ?_⟩
    show q * (scorer.unary unary.rule (e.withNode _).sign).toFloat * _ = _
    rw [Entry.sign_withNode]
    rfl

/-- An item that a cell is offered stands for everything with its sign that is less probable. -/
theorem offers_of_mem {it : Item}
    (h : it ∈ parser.offeredItems scorer.toScorer sentence
      (parser.signChart scorer sentence accepts wide) span) {sign : Sign} {p : Float} (hp : 0 < p)
    (haccepted : accepts sign span = true) (hsign : it.entry.sign = sign)
    (hle : p ≤ it.probability) :
    parser.Offers scorer sentence (parser.signChart scorer sentence accepts wide) span sign p := by
  refine ⟨it, h, admits_signChart.2 ⟨pos_of_pos_of_le hp hle, ?_⟩, hsign, hle⟩
  rw [hsign]
  exact haccepted

/-- If a cell has the sign of a combined item when the unary rules are tried, then a rule is applied
    to something that is at least as probable. -/
theorem offers_of_raised (hscorer : scorer.Positive) {b : Item}
    (hb : parser.Combined scorer.toScorer sentence
      (parser.signChart scorer sentence accepts wide) span b)
    (hkept : (parser.combinedCell scorer.toScorer sentence
      (parser.signChart scorer sentence accepts wide) span).Has b.entry.sign)
    {rule : UnaryRule} {u : Combination} (hrule : rule ∈ parser.rules)
    (happly : rule.apply parser.config.features b.entry.sign = some u)
    (haccepted : accepts u.sign span = true) {q : Float} (hq : 0 < q) (hle : q ≤ b.probability)
    (hpos : 0 < q * (scorer.unary rule b.entry.sign).toFloat * scorer.dependencies u.filled) :
    parser.Offers scorer sentence (parser.signChart scorer sentence accepts wide) span u.sign
      (q * (scorer.unary rule b.entry.sign).toFloat * scorer.dependencies u.filled) := by
  -- What the cell has with this sign has been let in, so the filter accepts the sign.
  have hadm : (parser.signChart scorer sentence accepts wide).admits b span = true := by
    obtain ⟨kept, hmem, heq⟩ := hkept
    rw [admits_signChart, ← heq]
    exact ⟨pos_of_pos_of_le hq hle, (admits_signChart.1 (mem_combinedCell hmem).2).2⟩
  obtain ⟨base, hbase, hsign, hble⟩ := (covers_combinedCell_of_has hb hadm hkept).of_le hq hle
  rw [← hsign] at happly hpos ⊢
  have hraised : parser.Raised scorer.toScorer base (unaryItem scorer.toScorer base rule u) :=
    .intro (mem_combinedCell hbase).1.unary?_eq_none hrule happly
  exact offers_of_mem (mem_offeredItems.2 (.inr ⟨base, hbase, hraised⟩)) hpos haccepted
    (sign_unaryItem base rule u) (le_probability_unaryItem hscorer hq hble rule u hpos)

/-- A rule has a positive outcome only on something positive. -/
theorem pos_of_replaysNode (hscorer : scorer.Positive) {e : Entry} {p q : Float} {c : Combination}
    (hp : 0 < p) (hq : Unsigned q) (h : parser.ReplaysNode scorer.toScorer span e p c q) :
    0 < q := by
  rcases replaysNode_cases h with ⟨-, rfl⟩ | ⟨unary, u, -, -, -, -, rfl⟩
  · exact hp
  · have hunary : Unsigned (scorer.unary unary.rule c.sign).toFloat := .of_pos (hscorer.unary _ _)
    have hproduct := pos_of_mul_pos (hq.mul hunary) (hscorer.unsigned_dependencies _) hp
    exact (pos_of_mul_pos hq hunary hproduct.1).1

/-- The step of an entry, before any unary rule, can be taken in a chart with at least its
    probability. -/
structure Follows (parser : Parser) (scorer : SignScorer) (sentence : Sentence) (chart : Chart)
    (span : Span) (e : Entry) (p : Float) (step : Step) (q : Float) (b : Item) : Prop where
  step_eq : e.step? parser.config.features = some step
  node : parser.ReplaysNode scorer.toScorer span e p step.outcome q
  combined : parser.Combined scorer.toScorer sentence chart span b
  sign_eq : b.entry.sign = step.outcome.sign
  pos : 0 < q
  le : q ≤ b.probability

theorem exists_follows_terminal (hscorer : scorer.Positive) {n : Node} {lexical : LexicalEntry}
    {words : List String} {p : Float}
    (h : ⟨.terminal n lexical words, p⟩ ∈
      (parser.signChart scorer sentence accepts narrow).cell span) (chart : Chart) :
    ∃ step q b, parser.Follows scorer sentence chart span (.terminal n lexical words) p step q
      b := by
  have hreplays := replays_of_mem_cell h
  obtain ⟨c, q, hreplay, hnode⟩ := hreplays.step
  obtain ⟨step, hstep, rfl⟩ := exists_step_of_replaysStep hreplays.span_eq hreplay
  obtain ⟨hlexical, -, hc, hq⟩ := hreplay
  have hunsigned : Unsigned q := by
    rw [hq]
    exact (Unsigned.of_pos (hscorer.lexical _ _ _)).mul (hscorer.unsigned_dependencies _)
  have hpos := pos_of_replaysNode hscorer hreplays.positive hunsigned hnode
  refine ⟨step, q, terminalItem scorer.toScorer sentence span lexical, hstep, hnode,
    .terminal hlexical, congrArg Combination.sign hc.symm, hpos, ?_⟩
  rw [hc] at hq
  rw [hq] at hpos ⊢
  exact le_refl_of_pos hpos

theorem exists_follows_binary (hscorer : scorer.Positive) {n : Node} {combinator : Combinator}
    {split : Nat} {l r : Entry} {lp rp p : Float} {chart : Chart}
    (h : ⟨.binary n combinator split l lp r rp, p⟩ ∈
      (parser.signChart scorer sentence accepts narrow).cell span)
    (hleft : (chart.cell ⟨span.start, split⟩).Covers l.sign lp)
    (hright : (chart.cell ⟨split + 1, span.last⟩).Covers r.sign rp) :
    ∃ step q b, parser.Follows scorer sentence chart span (.binary n combinator split l lp r rp) p
      step q b := by
  have hreplays := replays_of_mem_cell h
  obtain ⟨c, q, hreplay, hnode⟩ := hreplays.step
  obtain ⟨step, hstep, rfl⟩ := exists_step_of_replaysStep hreplays.span_eq hreplay
  obtain ⟨⟨hstart, hlast⟩, hl, hr, hcombine, hq⟩ := hreplay
  have hlp := (replays_of_mem_cell hl).positive
  have hrp := (replays_of_mem_cell hr).positive
  have hunsigned : Unsigned q := by
    rw [hq]
    exact (((Unsigned.of_pos hlp).mul (.of_pos hrp)).mul (.of_pos (hscorer.binary _ _ _ _))).mul
      (hscorer.unsigned_dependencies _)
  have hpos := pos_of_replaysNode hscorer hreplays.positive hunsigned hnode
  -- The chart has items with the signs of the children, so the same combinator combines them.
  obtain ⟨l', hl', hlsign, hlle⟩ := hleft
  obtain ⟨r', hr', hrsign, hrle⟩ := hright
  have hle := le_probability_binaryItem hscorer hlp hrp hlle hrle span split combinator step.outcome
  rw [← hlsign, ← hrsign] at hcombine
  rw [hlsign, hrsign] at hle
  refine ⟨step, q, binaryItem scorer.toScorer span split l' r' combinator step.outcome, hstep,
    hnode, .binary hstart hlast hl' hr' hcombine, rfl, hpos, ?_⟩
  rw [hq] at hpos ⊢
  exact hle hpos

/-- Once the step can be taken, so can the unary rule on top, if its input has been kept. -/
theorem Follows.offers (hscorer : scorer.Positive) {e : Entry} {p q : Float} {step : Step}
    {b : Item}
    (h : ⟨e, p⟩ ∈ (parser.signChart scorer sentence accepts narrow).cell span)
    (hfollows : parser.Follows scorer sentence (parser.signChart scorer sentence accepts wide) span
      e p step q b)
    (hkept : parser.KeepsBase scorer.toScorer sentence
      (parser.signChart scorer sentence accepts wide) e) :
    parser.Offers scorer sentence (parser.signChart scorer sentence accepts wide) span e.sign
      p := by
  have hreplays := replays_of_mem_cell h
  have hspan : e.span = span := hreplays.span_eq
  have hp : 0 < p := hreplays.positive
  have haccepted : accepts e.sign span = true := hreplays.accepted
  rcases replaysNode_cases hfollows.node with
    ⟨hsame, rfl⟩ | ⟨unary, u, hunary, hrule, happly, hsame, rfl⟩
  · exact offers_of_mem (mem_offeredItems.2 (.inl hfollows.combined)) hp haccepted
      (hfollows.sign_eq.trans hsame.symm) hfollows.le
  · have hhas := hkept (by rw [hunary]; rfl) step hfollows.step_eq
    rw [hspan] at hhas
    rw [hsame] at haccepted ⊢
    rw [← hfollows.sign_eq] at hhas happly hp ⊢
    exact offers_of_raised hscorer hfollows.combined hhas hrule happly haccepted hfollows.pos
      hfollows.le hp

theorem covers_of_mem_cell {e : Entry} {p : Float}
    (h : ⟨e, p⟩ ∈ (parser.signChart scorer sentence accepts narrow).cell span)
    (hkept : ((parser.signChart scorer sentence accepts wide).cell e.span).Has e.sign)
    (hoffers : parser.Offers scorer sentence (parser.signChart scorer sentence accepts wide) span
      e.sign p) :
    ((parser.signChart scorer sentence accepts wide).cell span).Covers e.sign p := by
  have hreplays := replays_of_mem_cell h
  have hspan : e.span = span := hreplays.span_eq
  have hwithin := within_of_mem_signChart h
  rw [hspan] at hkept
  exact covers_of_offers hwithin hreplays.positive hoffers hkept

/-- Whatever the narrower chart has, the wider one is offered too, with at least that probability,
    if it has kept what the parts were made of. -/
theorem offers_of_mem_cell (hscorer : scorer.Positive) {e : Entry} {p : Float}
    (h : ⟨e, p⟩ ∈ (parser.signChart scorer sentence accepts narrow).cell span)
    (hkept : parser.KeepsParts scorer.toScorer sentence
      (parser.signChart scorer sentence accepts wide) e) :
    parser.Offers scorer sentence (parser.signChart scorer sentence accepts wide) span e.sign
      p := by
  -- Both children have their sign in the wider chart, hence with at least their probability.
  induction e generalizing p span with
  | terminal n lexical words =>
    obtain ⟨step, q, b, hfollows⟩ := exists_follows_terminal hscorer h _
    exact hfollows.offers hscorer h hkept
  | binary n combinator split l lp r rp ihl ihr =>
    obtain ⟨-, -, ⟨-, hleft, hright, -, -⟩, -⟩ := (replays_of_mem_cell h).step
    obtain ⟨hbase, ⟨hhasl, hkeptl⟩, hhasr, hkeptr⟩ := hkept
    have hl := covers_of_mem_cell hleft hhasl (ihl hleft hkeptl)
    have hr := covers_of_mem_cell hright hhasr (ihr hright hkeptr)
    obtain ⟨step, q, b, hfollows⟩ := exists_follows_binary hscorer h hl hr
    exact hfollows.offers hscorer h hbase

/-! ## The chart without a beam -/

/-- What a unary rule was applied to in a chart, its filter has let in. -/
theorem accepts_base {e : Entry} {p : Float} {step : Step}
    (h : ⟨e, p⟩ ∈ (parser.signChart scorer sentence accepts narrow).cell span)
    (hunary : e.unary?.isSome = true) (hstep : e.step? parser.config.features = some step) :
    accepts step.outcome.sign span = true := by
  have hwithin := within_of_mem_signChart h
  rw [signChart, parseChart_cell hwithin] at h
  obtain ⟨-, hcombined | ⟨base, hbase, hraised⟩⟩ := mem_finalCell h
  · rw [hcombined.unary?_eq_none] at hunary
    cases hunary
  · obtain ⟨hcombined, hadm⟩ := mem_combinedCell hbase
    obtain ⟨c, hreplay, hnode⟩ := hcombined.replaysStep
    obtain ⟨step', hstep', rfl⟩ := exists_step_of_replaysStep hcombined.span_eq hreplay
    have hsign : base.entry.sign = step'.outcome.sign := by
      rw [Entry.sign, hnode, Node.ofCombination]
    -- The rule is no part of the step below it.
    have hsame : base.entry.step? parser.config.features = some step := by
      cases hraised
      rw [← hstep]
      exact (Entry.step?_withUnary _ _ _ _).symm
    cases hsame.symm.trans hstep'
    rw [← hsign]
    exact (admits_signChart.1 hadm).2

/-- Without a beam the chart keeps what any chart has applied a unary rule to. -/
theorem Follows.keepsBase_exact {e : Entry} {p q : Float} {step : Step} {b : Item}
    (h : ⟨e, p⟩ ∈ (parser.signChart scorer sentence accepts narrow).cell span)
    (hfollows : parser.Follows scorer sentence (parser.signChart scorer sentence accepts .exact)
      span e p step q b) :
    parser.KeepsBase scorer.toScorer sentence (parser.signChart scorer sentence accepts .exact)
      e := by
  have hspan : e.span = span := (replays_of_mem_cell h).span_eq
  intro hunary step' hstep'
  cases hfollows.step_eq.symm.trans hstep'
  have hadm : (parser.signChart scorer sentence accepts .exact).admits b span = true := by
    rw [admits_signChart, hfollows.sign_eq]
    exact ⟨pos_of_pos_of_le hfollows.pos hfollows.le, accepts_base h hunary hstep'⟩
  rw [hspan, ← hfollows.sign_eq]
  exact (covers_combinedCell (inference_parseChart ..) hfollows.combined hadm).has

theorem covers_exact_of_mem_cell (hscorer : scorer.Positive) {e : Entry} {p : Float}
    (h : ⟨e, p⟩ ∈ (parser.signChart scorer sentence accepts narrow).cell span)
    (hkept : parser.KeepsParts scorer.toScorer sentence
      (parser.signChart scorer sentence accepts .exact) e) :
    ((parser.signChart scorer sentence accepts .exact).cell span).Covers e.sign p := by
  have hwithin := within_of_mem_signChart h
  have hp := (replays_of_mem_cell h).positive
  obtain ⟨it, hit, hadm, hsign, hle⟩ := offers_of_mem_cell hscorer h hkept
  have hcovers := Chart.covers_offerAll_of_mem (inference_parseChart ..) Cell.positive_nil hit hadm
  rw [signChart_cell hwithin, ← hsign]
  exact hcovers.ranked.of_le hp hle

/-- Without a beam the chart keeps all parts of the derivations that any chart has. -/
theorem keepsParts_exact (hscorer : scorer.Positive) {e : Entry} {p : Float}
    (h : ⟨e, p⟩ ∈ (parser.signChart scorer sentence accepts narrow).cell span) :
    parser.KeepsParts scorer.toScorer sentence (parser.signChart scorer sentence accepts .exact)
      e := by
  induction e generalizing p span with
  | terminal n lexical words =>
    obtain ⟨step, q, b, hfollows⟩ := exists_follows_terminal hscorer h _
    exact hfollows.keepsBase_exact h
  | binary n combinator split l lp r rp ihl ihr =>
    obtain ⟨-, -, ⟨-, hleft, hright, -, -⟩, -⟩ := (replays_of_mem_cell h).step
    have hkeptl := ihl hleft
    have hkeptr := ihr hright
    have hl := covers_exact_of_mem_cell hscorer hleft hkeptl
    have hr := covers_exact_of_mem_cell hscorer hright hkeptr
    have hspanl : l.span = ⟨span.start, split⟩ := (replays_of_mem_cell hleft).span_eq
    have hspanr : r.span = ⟨split + 1, span.last⟩ := (replays_of_mem_cell hright).span_eq
    obtain ⟨step, q, b, hfollows⟩ := exists_follows_binary hscorer h hl hr
    exact ⟨hfollows.keepsBase_exact h, ⟨hspanl ▸ hl.has, hkeptl⟩, hspanr ▸ hr.has, hkeptr⟩

end Parser

end Categorial
