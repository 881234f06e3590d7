/-
  Categorial.Proofs.Chart.Filling

  Filling a chart span by span.  Filling one span leaves the other cells as they are, and the cell
  that is filled reads only the cells of its parts.  So, when shorter spans come first, no cell
  changes after a longer span has read it, and every cell of the finished chart is what the finished
  chart itself gives for its span (`parseChart_cell`).
-/

import Categorial.Parser
import Categorial.Proofs.Span

namespace Categorial

namespace Chart

/-! ## One cell -/

variable {chart : Chart} {span other : Span} {cell : Cell}

/-- A chart has a place for the cell of every span. -/
def WellFormed (chart : Chart) : Prop := chart.cells.size = Span.count chart.length

theorem wellFormed_empty (length : Nat) (inference : Inference) (filter : Filter) :
    (empty length inference filter).WellFormed :=
  Array.size_replicate

theorem cell_empty (length : Nat) (inference : Inference) (filter : Filter) (span : Span) :
    (empty length inference filter).cell span = [] := by
  unfold cell empty
  split
  · simp [Array.getD]
  · rfl

/-- Two charts differ at most in their cells. -/
structure SameFrame (chart chart' : Chart) : Prop where
  length : chart.length = chart'.length
  inference : chart.inference = chart'.inference
  filter : chart.filter = chart'.filter

theorem SameFrame.refl (chart : Chart) : chart.SameFrame chart := ⟨rfl, rfl, rfl⟩

theorem SameFrame.symm {chart chart' : Chart} (h : chart.SameFrame chart') :
    chart'.SameFrame chart :=
  ⟨h.length.symm, h.inference.symm, h.filter.symm⟩

theorem SameFrame.trans {chart chart' chart'' : Chart} (h : chart.SameFrame chart')
    (h' : chart'.SameFrame chart'') : chart.SameFrame chart'' :=
  ⟨h.length.trans h'.length, h.inference.trans h'.inference, h.filter.trans h'.filter⟩

theorem sameFrame_setCell (chart : Chart) (span : Span) (cell : Cell) :
    chart.SameFrame (chart.setCell span cell) := by
  unfold setCell
  split
  · exact ⟨rfl, rfl, rfl⟩
  · exact SameFrame.refl chart

theorem WellFormed.setCell (h : chart.WellFormed) (span : Span) (cell : Cell) :
    (chart.setCell span cell).WellFormed := by
  unfold WellFormed
  rw [← (sameFrame_setCell chart span cell).length, ← h]
  unfold Chart.setCell
  split
  · exact Array.size_setIfInBounds
  · rfl

theorem cell_setCell_self (h : chart.WellFormed) (hspan : span.Within chart.length) :
    (chart.setCell span cell).cell span = cell := by
  have hplace : span.index < chart.cells.size := by
    rw [h]
    exact Span.index_lt_count hspan
  simp [Chart.cell, Chart.setCell, hspan, hplace]

theorem cell_setCell_of_ne (hne : other ≠ span) :
    (chart.setCell span cell).cell other = chart.cell other := by
  by_cases hspan : span.Within chart.length
  · by_cases hother : other.Within chart.length
    · -- Outside the chart places may coincide, so this needs both spans to be within.
      have hindex : span.index ≠ other.index :=
        fun heq => hne (Span.index_inj hspan.1 hother.1 heq).symm
      simp [Chart.cell, Chart.setCell, hspan, hother, hindex]
    · simp [Chart.cell, Chart.setCell, hspan, hother]
  · simp [Chart.setCell, hspan]

theorem cell_of_not_within (h : ¬ span.Within chart.length) : chart.cell span = [] := if_neg h

theorem within_of_mem_cell {item : Item} (h : item ∈ chart.cell span) :
    span.Within chart.length := by
  by_contra hspan
  rw [cell_of_not_within hspan] at h
  cases h

theorem admits_congr {chart' : Chart} (h : chart.SameFrame chart') :
    chart.admits = chart'.admits := by
  funext item span
  simp only [admits, h.filter]

/-- Offers look at a chart only for its way of inference and its filter. -/
theorem offerAll_congr {chart' : Chart} (h : chart.SameFrame chart') (items : List Item) :
    chart.offerAll span cell items = chart'.offerAll span cell items := by
  rw [offerAll, offerAll, admits_congr h, h.inference]

end Chart

namespace Parser

/-! ## One span -/

variable {parser : Parser} {scorer : Scorer} {sentence : Sentence} {chart chart' : Chart}
variable {span other : Span}

theorem combinedCell_congr (h : chart.SameFrame chart')
    (hcells : ∀ l r, (l, r) ∈ span.splits →
      chart.cell l = chart'.cell l ∧ chart.cell r = chart'.cell r) :
    parser.combinedCell scorer sentence chart span =
      parser.combinedCell scorer sentence chart' span := by
  unfold combinedCell
  rw [Chart.offerAll_congr h]
  refine List.foldl_ext _ _ _ ?_
  rintro cell ⟨l, r⟩ hpair
  obtain ⟨hl, hr⟩ := hcells l r hpair
  dsimp only
  rw [Chart.offerAll_congr h, hl, hr]

/-- The cell for a span depends only on the cells of its parts. -/
theorem finalCell_congr (h : chart.SameFrame chart')
    (hcells : ∀ l r, (l, r) ∈ span.splits →
      chart.cell l = chart'.cell l ∧ chart.cell r = chart'.cell r) :
    parser.finalCell scorer sentence chart span = parser.finalCell scorer sentence chart' span := by
  dsimp only [finalCell]
  rw [combinedCell_congr h hcells, Chart.offerAll_congr h]

theorem cell_fillSpan_self (h : chart.WellFormed) (hspan : span.Within chart.length) :
    (parser.fillSpan scorer sentence chart span).cell span =
      parser.finalCell scorer sentence chart span :=
  Chart.cell_setCell_self h hspan

theorem cell_fillSpan_of_ne (hne : other ≠ span) :
    (parser.fillSpan scorer sentence chart span).cell other = chart.cell other :=
  Chart.cell_setCell_of_ne hne

/-! ## A list of spans -/

/-- Fills the cells of a list of spans one after the other. -/
def fillSpans (parser : Parser) (scorer : Scorer) (sentence : Sentence) (chart : Chart)
    (spans : List Span) : Chart :=
  spans.foldl (parser.fillSpan scorer sentence) chart

theorem fillSpans_append (before after : List Span) :
    parser.fillSpans scorer sentence chart (before ++ after) =
      parser.fillSpans scorer sentence (parser.fillSpans scorer sentence chart before) after :=
  List.foldl_append

theorem sameFrame_fillSpans (chart : Chart) (spans : List Span) :
    chart.SameFrame (parser.fillSpans scorer sentence chart spans) := by
  induction spans generalizing chart with
  | nil => exact Chart.SameFrame.refl chart
  | cons span spans ih => exact (Chart.sameFrame_setCell chart span _).trans (ih _)

theorem wellFormed_fillSpans (h : chart.WellFormed) (spans : List Span) :
    (parser.fillSpans scorer sentence chart spans).WellFormed := by
  induction spans generalizing chart with
  | nil => exact h
  | cons span spans ih => exact ih (h.setCell span _)

theorem cell_fillSpans_of_notMem {spans : List Span} (h : span ∉ spans) :
    (parser.fillSpans scorer sentence chart spans).cell span = chart.cell span := by
  induction spans generalizing chart with
  | nil => rfl
  | cons s spans ih =>
    have hrest : span ∉ spans := fun hmem => h (List.mem_cons_of_mem _ hmem)
    have hne : span ≠ s := fun heq => h (heq ▸ List.mem_cons_self)
    exact (ih hrest).trans (cell_fillSpan_of_ne hne)

/-- When every span comes once and shorter spans come first, each cell is frozen once it is read:
    at the end it still is what the cells of its parts make it. -/
theorem cell_fillSpans {spans : List Span} (hwf : chart.WellFormed) (hnodup : spans.Nodup)
    (hsorted : spans.Pairwise fun s t => s.extent ≤ t.extent) (hmem : span ∈ spans)
    (hspan : span.Within chart.length) :
    (parser.fillSpans scorer sentence chart spans).cell span =
      parser.finalCell scorer sentence (parser.fillSpans scorer sentence chart spans) span := by
  -- `before` has been filled when the span is reached, and `after` comes later.
  obtain ⟨before, after, rfl⟩ := List.append_of_mem hmem
  have hlater : span ∉ after := (List.nodup_cons.1 (List.nodup_append.1 hnodup).2.1).1
  have hlonger : ∀ t ∈ after, span.extent ≤ t.extent :=
    (List.pairwise_cons.1 (List.pairwise_append.1 hsorted).2.1).1
  rw [fillSpans_append]
  let reached := parser.fillSpans scorer sentence chart before
  have hreached : reached.WellFormed := wellFormed_fillSpans hwf before
  have hlength : span.Within reached.length := by
    rwa [← (sameFrame_fillSpans chart before).length]
  -- A shorter span is neither this one nor any that follows, so its cell has its final content.
  have hshorter : ∀ s : Span, s.extent < span.extent →
      reached.cell s = (parser.fillSpans scorer sentence reached (span :: after)).cell s := by
    intro s hs
    refine (cell_fillSpans_of_notMem fun hmem => ?_).symm
    rcases List.mem_cons.1 hmem with rfl | hmem
    · exact Nat.lt_irrefl _ hs
    · exact Nat.lt_irrefl _ (Nat.lt_of_lt_of_le hs (hlonger s hmem))
  calc (parser.fillSpans scorer sentence reached (span :: after)).cell span
      = (parser.fillSpan scorer sentence reached span).cell span := cell_fillSpans_of_notMem hlater
    _ = parser.finalCell scorer sentence reached span := cell_fillSpan_self hreached hlength
    _ = parser.finalCell scorer sentence
          (parser.fillSpans scorer sentence reached (span :: after)) span := by
        refine finalCell_congr (sameFrame_fillSpans reached (span :: after)) ?_
        intro l r hsplit
        obtain ⟨hl, hr⟩ := Span.extent_lt_of_mem_splits hsplit
        exact ⟨hshorter l hl, hshorter r hr⟩

/-! ## Whole charts -/

variable {filter : Filter}

theorem sameFrame_parseChart :
    (Chart.empty sentence.length parser.config.inference filter).SameFrame
      (parser.parseChart scorer sentence filter) :=
  sameFrame_fillSpans _ _

@[simp] theorem length_parseChart :
    (parser.parseChart scorer sentence filter).length = sentence.length :=
  sameFrame_parseChart.length.symm

@[simp] theorem inference_parseChart :
    (parser.parseChart scorer sentence filter).inference = parser.config.inference :=
  sameFrame_parseChart.inference.symm

@[simp] theorem filter_parseChart :
    (parser.parseChart scorer sentence filter).filter = filter :=
  sameFrame_parseChart.filter.symm

/-- The cells of a finished chart explain each other. -/
theorem parseChart_cell (hspan : span.Within sentence.length) :
    (parser.parseChart scorer sentence filter).cell span =
      parser.finalCell scorer sentence (parser.parseChart scorer sentence filter) span :=
  cell_fillSpans (Chart.wellFormed_empty _ _ _) (Span.within_nodup _) (Span.within_sorted _)
    (Span.mem_within.2 hspan) hspan

end Parser

end Categorial
