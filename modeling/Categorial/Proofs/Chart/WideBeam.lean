/-
  Categorial.Proofs.Chart.WideBeam

  A beam that is wide enough changes nothing.  Without a beam a cell only grows while it is filled,
  so if a beam has room for the cell in the end, it has had room for it all the time and has dropped
  nothing.  A chart with the beam and a chart without one are therefore filled in step, span by span
  (`fillSpans_withInference`), and every cell is the same list of items.
-/

import Categorial.Proofs.Chart.Beam
import Categorial.Proofs.Chart.Origin
import Categorial.Proofs.Derivation

namespace Categorial

/-! ## Growing cells -/

theorem Cell.length_le_insert (item : Item) (cell : Cell) :
    cell.length ≤ (Cell.insert item cell).1.length := by
  induction cell with
  | nil => exact Nat.zero_le _
  | cons other cell ih =>
    simp only [Cell.insert]
    split
    · split <;> exact Nat.le_refl _
    · exact Nat.succ_le_succ ih

namespace Chart

variable {chart : Chart} {span : Span} {size : Nat}

/-- The same chart with another way of inference. -/
def withInference (chart : Chart) (inference : Inference) : Chart :=
  { chart with inference := inference }

theorem setCell_withInference (cell : Cell) (inference : Inference) :
    (chart.withInference inference).setCell span cell =
      (chart.setCell span cell).withInference inference := by
  by_cases hspan : span.Within chart.length <;> simp [setCell, withInference, hspan]

/-- Without a beam a run of offers never shortens a cell. -/
theorem length_le_offerAll (hexact : chart.inference = .exact) (span : Span) (cell : Cell)
    (items : List Item) : cell.length ≤ (chart.offerAll span cell items).length := by
  refine offerAll_induction (P := fun c => cell.length ≤ c.length) items (Nat.le_refl _) ?_
  intro c item _ _ hc
  rw [hexact]
  exact Nat.le_trans hc (Cell.length_le_insert item c)

/-- A beam with room for the result of a run of offers has the same result. -/
theorem offerAll_withInference (hexact : chart.inference = .exact) {cell : Cell}
    {items : List Item} (hfits : (chart.offerAll span cell items).length ≤ size) :
    (chart.withInference (.beam size)).offerAll span cell items =
      chart.offerAll span cell items := by
  induction items generalizing cell with
  | nil => rfl
  | cons item items ih =>
    have hstep : (if chart.admits item span then (cell.offer (.beam size) item).1 else cell) =
        if chart.admits item span then (cell.offer chart.inference item).1 else cell := by
      split
      · rename_i hadm
        -- The cell after this offer is no longer than the one after all of them.
        have hle : (cell.offer chart.inference item).1.length ≤ size := by
          refine Nat.le_trans (length_le_offerAll hexact span _ items) ?_
          simpa only [offerAll, List.foldl_cons, if_pos hadm] using hfits
        rw [hexact] at hle ⊢
        exact Cell.offer_of_fits hle
      · rfl
    show (chart.withInference (.beam size)).offerAll span
      (if chart.admits item span then (cell.offer (.beam size) item).1 else cell) items = _
    rw [hstep]
    exact ih hfits

end Chart

namespace Parser

/-- The same parser with another way of inference. -/
def withInference (parser : Parser) (inference : Inference) : Parser :=
  { parser with config := { parser.config with inference := inference } }

variable {parser : Parser} {scorer : Scorer} {sentence : Sentence} {chart : Chart} {span : Span}
variable {size : Nat}

/-! ## Filling in step -/

theorem combinedCell_withInference (hexact : chart.inference = .exact)
    (hfits : (parser.combinedCell scorer sentence chart span).length ≤ size) :
    (parser.withInference (.beam size)).combinedCell scorer sentence
        (chart.withInference (.beam size)) span =
      parser.combinedCell scorer sentence chart span := by
  rw [combinedCell_eq] at hfits
  rw [combinedCell_eq, combinedCell_eq, ← Chart.offerAll_withInference hexact hfits]
  rfl

/-- A beam with room for the final cell of a span gives the same cell. -/
theorem finalCell_withInference (hexact : chart.inference = .exact)
    (hfits : (parser.finalCell scorer sentence chart span).length ≤ size) :
    (parser.withInference (.beam size)).finalCell scorer sentence
        (chart.withInference (.beam size)) span =
      parser.finalCell scorer sentence chart span := by
  have hlast : (chart.offerAll span (parser.combinedCell scorer sentence chart span)
      ((parser.combinedCell scorer sentence chart span).flatMap
        (parser.unaryItems scorer))).length ≤ size := by
    rwa [finalCell, (Cell.ranked_perm _).length_eq] at hfits
  have hfirst : (parser.combinedCell scorer sentence chart span).length ≤ size :=
    Nat.le_trans (Chart.length_le_offerAll hexact span _ _) hlast
  have hcombined := combinedCell_withInference hexact hfirst
  dsimp only [finalCell]
  rw [hcombined]
  exact congrArg Cell.ranked (Chart.offerAll_withInference hexact hlast)

theorem fillSpan_withInference (hexact : chart.inference = .exact)
    (hfits : (parser.finalCell scorer sentence chart span).length ≤ size) :
    (parser.withInference (.beam size)).fillSpan scorer sentence
        (chart.withInference (.beam size)) span =
      (parser.fillSpan scorer sentence chart span).withInference (.beam size) := by
  rw [fillSpan, fillSpan, finalCell_withInference hexact hfits]
  exact Chart.setCell_withInference _ _

/-- If a beam has room for every cell in the end, the two charts are filled in step. -/
theorem fillSpans_withInference {spans : List Span} (hexact : chart.inference = .exact)
    (hwf : chart.WellFormed) (hspans : ∀ span ∈ spans, span.Within chart.length)
    (hnodup : spans.Nodup)
    (hfits : ∀ span ∈ spans,
      ((parser.fillSpans scorer sentence chart spans).cell span).length ≤ size) :
    (parser.withInference (.beam size)).fillSpans scorer sentence
        (chart.withInference (.beam size)) spans =
      (parser.fillSpans scorer sentence chart spans).withInference (.beam size) := by
  induction spans generalizing chart with
  | nil => rfl
  | cons span spans ih =>
    obtain ⟨hnot, hnodup⟩ := List.nodup_cons.1 hnodup
    have hwithin : span.Within chart.length := hspans span List.mem_cons_self
    have hframe := Chart.sameFrame_setCell chart span (parser.finalCell scorer sentence chart span)
    -- The cell of the span does not change any more, so that its final length is known now.
    have hcell : (parser.finalCell scorer sentence chart span).length ≤ size := by
      have hlength := hfits span List.mem_cons_self
      rw [← cell_fillSpan_self hwf hwithin]
      rwa [fillSpans, List.foldl_cons, ← fillSpans, cell_fillSpans_of_notMem hnot] at hlength
    rw [fillSpans, List.foldl_cons, fillSpan_withInference hexact hcell]
    refine ih ?_ (hwf.setCell span _) ?_ hnodup ?_
    · rw [fillSpan, ← hframe.inference]
      exact hexact
    · intro s hs
      rw [fillSpan, ← hframe.length]
      exact hspans s (List.mem_cons_of_mem _ hs)
    · intro s hs
      exact hfits s (List.mem_cons_of_mem _ hs)

/-! ## Whole charts -/

/-- If every cell that exact inference gives has at most `size` items, then a beam of that size
    gives the same chart, item by item, and the same analyses. -/
theorem parseChart_eq_of_wide_beam (parser : Parser) (scorer : Scorer) (sentence : Sentence)
    (filter : Filter) (size : Nat)
    (hfits : ∀ span, (((parser.withInference .exact).parseChart scorer sentence filter).cell
      span).length ≤ size) :
    (∀ span, ((parser.withInference (.beam size)).parseChart scorer sentence filter).cell span =
      ((parser.withInference .exact).parseChart scorer sentence filter).cell span) ∧
    (parser.withInference (.beam size)).parse scorer sentence filter =
      (parser.withInference .exact).parse scorer sentence filter := by
  have hchart : (parser.withInference (.beam size)).parseChart scorer sentence filter =
      ((parser.withInference .exact).parseChart scorer sentence filter).withInference
        (.beam size) := by
    refine fillSpans_withInference rfl (Chart.wellFormed_empty _ _ _) ?_ (Span.within_nodup _) ?_
    · intro span hspan
      exact Span.mem_within.1 hspan
    · intro span _
      exact hfits span
  have hcells : ∀ span,
      ((parser.withInference (.beam size)).parseChart scorer sentence filter).cell span =
        ((parser.withInference .exact).parseChart scorer sentence filter).cell span := by
    intro span
    rw [hchart]
    rfl
  refine ⟨hcells, ?_⟩
  dsimp only [parse]
  rw [hcells]
  rfl

/-- A beam for two items has room for every cell of two words with a unary rule. -/
theorem parseChart_eq_of_wide_beam_sample :
    (∀ span, (((Grammar.sample.parser.withInference .exact).parseChart .uniform Sentence.sample
      Filter.none).cell span).length ≤ 2) ∧
    (Grammar.sample.parser.withInference (.beam 2)).parse .uniform Sentence.sample Filter.none =
      (Grammar.sample.parser.withInference .exact).parse .uniform Sentence.sample Filter.none := by
  have hfits : ∀ span, (((Grammar.sample.parser.withInference .exact).parseChart .uniform
      Sentence.sample Filter.none).cell span).length ≤ 2 := by
    intro span
    by_cases hspan : span.Within Sentence.sample.length
    · have hall : ∀ s ∈ Span.within Sentence.sample.length,
          (((Grammar.sample.parser.withInference .exact).parseChart .uniform Sentence.sample
            Filter.none).cell s).length ≤ 2 := by
        decide +kernel
      exact hall span (Span.mem_within.2 hspan)
    · rw [Chart.cell_of_not_within (by rwa [length_parseChart])]
      exact Nat.zero_le 2
  exact ⟨hfits, (parseChart_eq_of_wide_beam _ .uniform Sentence.sample Filter.none 2 hfits).2⟩

end Parser

end Categorial
