/-
  Categorial.Proofs.Chart.FillingOrder

  The order in which the spans of one length are filled does not matter.  Filling a span reads the
  cells of shorter spans and writes its own cell, so that two spans of one length can be filled in
  either order (`fillSpan_comm`), and a permutation is made of such exchanges (`fillSpans_inOrder`).

  The chart can also be filled in place.  First all cells get their lexical items, for which it does
  not matter how offers for different spans are mixed (`exists_offerBatches`); then each visit
  of a span offers one item after the other to the chart as it stands, snapshots of the parts being
  taken from that chart, and ranks the cell at the end.  Every step checks that its span lies within
  the chart.  A visit amounts to one change of one cell (`visit_eq`), and in any order that goes
  from short spans to long ones no check fails and the finished chart is the same
  (`fillInPlace_eq`).
-/

import Categorial.Proofs.Chart.Filling
import Categorial.Proofs.Derivation

namespace Categorial

/-- A list to which only one element contributes is what this element contributes. -/
theorem flatMap_eq_of_forall_ne {α β : Type} {xs : List α} {f : α → List β} {x : α}
    (hnodup : xs.Nodup) (hx : x ∈ xs) (h : ∀ y ∈ xs, y ≠ x → f y = []) : xs.flatMap f = f x := by
  induction xs with
  | nil => cases hx
  | cons y ys ih =>
    obtain ⟨hnot, hnodup⟩ := List.nodup_cons.1 hnodup
    obtain ⟨hy, hys⟩ := List.forall_mem_cons.1 h
    rw [List.flatMap_cons]
    rcases List.mem_cons.1 hx with rfl | hx
    · have hnil : ys.flatMap f = [] :=
        List.flatMap_eq_nil_iff.2 fun z hz => hys z hz fun heq => hnot (heq ▸ hz)
      rw [hnil, List.append_nil]
    · rw [hy fun heq => hnot (heq ▸ hx), ih hnodup hx hys, List.nil_append]

/-! ## Spans in a given order -/

namespace Span

/-- The spans within a sentence of `n` words, shorter ones first; those of one length come in the
    order in which `orders` lists their first words. -/
def inOrder (n : Nat) (orders : Nat → List Nat) : List Span :=
  (List.range n).flatMap fun length => (orders length).map fun start => ⟨start, start + length⟩

/-- Each length has its starting positions in some order. -/
def IsOrder (n : Nat) (orders : Nat → List Nat) : Prop :=
  ∀ length < n, (orders length).Perm (List.range (n - length))

variable {n : Nat} {orders : Nat → List Nat}

theorem ofLength_perm (h : IsOrder n orders) {length : Nat} (hlength : length < n) :
    ((orders length).map fun start => (⟨start, start + length⟩ : Span)).Perm
      (ofLength n length) :=
  (h length hlength).map _

theorem inOrder_perm (h : IsOrder n orders) : (inOrder n orders).Perm (within n) := by
  refine List.Perm.flatMap_left _ fun length hlength => ?_
  exact ofLength_perm h (List.mem_range.1 hlength)

/-- Shorter spans come first in every order. -/
theorem inOrder_sorted (orders : Nat → List Nat) (n : Nat) :
    (inOrder n orders).Pairwise fun s t => s.extent ≤ t.extent := by
  have hextent : ∀ length, ∀ s ∈ (orders length).map fun start => (⟨start, start + length⟩ : Span),
      s.extent = length := by
    intro length s hs
    obtain ⟨start, -, rfl⟩ := List.mem_map.1 hs
    show start + length - start = length
    omega
  refine List.pairwise_flatMap.2 ⟨fun length _ => ?_, ?_⟩
  · refine List.pairwise_of_forall_mem_list fun s hs t ht => ?_
    rw [hextent length s hs, hextent length t ht]
  · refine List.pairwise_lt_range.imp fun {i j} hlt s hs t ht => ?_
    rw [hextent i s hs, hextent j t ht]
    exact Nat.le_of_lt hlt

end Span

/-! ## Writing cells -/

namespace Chart

variable {chart : Chart} {span other : Span}

theorem setCell_setCell (chart : Chart) (span : Span) (cell cell' : Cell) :
    (chart.setCell span cell).setCell span cell' = chart.setCell span cell' := by
  by_cases hspan : span.Within chart.length <;> simp [setCell, hspan]

/-- Different cells can be written in either order. -/
theorem setCell_comm (hne : span ≠ other) (cell cell' : Cell) :
    (chart.setCell span cell).setCell other cell' =
      (chart.setCell other cell').setCell span cell := by
  by_cases hspan : span.Within chart.length <;> by_cases hother : other.Within chart.length
  · have hindex : span.index ≠ other.index :=
      fun heq => hne (Span.index_inj hspan.1 hother.1 heq)
    simp only [setCell, hspan, hother, if_true]
    rw [Array.setIfInBounds_comm _ _ hindex]
  all_goals simp [setCell, hspan, hother]

/-- Charts of one frame differ in some cell if they differ at all. -/
theorem eq_of_cell_eq {chart' : Chart} (hframe : chart.SameFrame chart') (hwf : chart.WellFormed)
    (hwf' : chart'.WellFormed) (h : ∀ span, chart.cell span = chart'.cell span) :
    chart = chart' := by
  obtain ⟨length, inference, filter, cells⟩ := chart
  obtain ⟨length', inference', filter', cells'⟩ := chart'
  obtain ⟨rfl, rfl, rfl⟩ := hframe
  have hsize : cells.size = cells'.size := hwf.trans hwf'.symm
  have hcells : cells = cells' := by
    refine Array.ext hsize fun i hi hi' => ?_
    -- Each place of the table belongs to a span, whose cells are equal.
    have hplace : i < Span.count length := hwf ▸ hi
    obtain ⟨span, hspan, rfl⟩ := Span.exists_index_eq hplace
    have hcell := h span
    simpa [cell, hspan, Array.getD, hi, hi'] using hcell
  rw [hcells]

theorem setCell_cell (hwf : chart.WellFormed) (span : Span) :
    chart.setCell span (chart.cell span) = chart := by
  refine (eq_of_cell_eq (sameFrame_setCell chart span _) hwf (hwf.setCell span _) ?_).symm
  intro other
  by_cases hne : other = span
  · subst hne
    by_cases hspan : other.Within chart.length
    · rw [cell_setCell_self hwf hspan]
    · simp [setCell, hspan]
  · rw [cell_setCell_of_ne hne]

end Chart

/-! ## Exchanging spans -/

namespace Parser

variable {parser : Parser} {scorer : Scorer} {sentence : Sentence} {chart : Chart} {s t : Span}

/-- A cell may be written before a span that is no longer is filled. -/
theorem finalCell_setCell (h : s.extent ≤ t.extent) (cell : Cell) :
    parser.finalCell scorer sentence (chart.setCell t cell) s =
      parser.finalCell scorer sentence chart s := by
  refine (finalCell_congr (Chart.sameFrame_setCell chart t cell) ?_).symm
  intro l r hsplit
  obtain ⟨hl, hr⟩ := Span.extent_lt_of_mem_splits hsplit
  have hlt : l ≠ t := fun heq => by rw [heq] at hl; omega
  have hrt : r ≠ t := fun heq => by rw [heq] at hr; omega
  exact ⟨(Chart.cell_setCell_of_ne hlt).symm, (Chart.cell_setCell_of_ne hrt).symm⟩

/-- Two spans of one length can be filled in either order. -/
theorem fillSpan_comm (h : s.extent = t.extent) (chart : Chart) :
    parser.fillSpan scorer sentence (parser.fillSpan scorer sentence chart s) t =
      parser.fillSpan scorer sentence (parser.fillSpan scorer sentence chart t) s := by
  by_cases heq : s = t
  · rw [heq]
  · unfold fillSpan
    rw [finalCell_setCell (Nat.le_of_eq h.symm), finalCell_setCell (Nat.le_of_eq h)]
    exact Chart.setCell_comm heq _ _

/-- The spans of each length can be filled in any order. -/
theorem fillSpans_inOrder {n : Nat} {orders : Nat → List Nat} (h : Span.IsOrder n orders)
    (chart : Chart) :
    parser.fillSpans scorer sentence chart (Span.inOrder n orders) =
      parser.fillSpans scorer sentence chart (Span.within n) := by
  unfold fillSpans Span.inOrder Span.within
  rw [List.foldl_flatMap, List.foldl_flatMap]
  refine List.foldl_ext _ _ _ fun chart length hlength => ?_
  have hperm := Span.ofLength_perm h (List.mem_range.1 hlength)
  refine hperm.foldl_eq' ?_ chart
  intro s hs t ht chart
  refine fillSpan_comm ?_ chart
  rw [(Span.mem_ofLength.1 (hperm.mem_iff.1 hs)).2, (Span.mem_ofLength.1 (hperm.mem_iff.1 ht)).2]

end Parser

/-! ## Filling in place -/

namespace Chart

variable {chart : Chart} {span : Span}

/-- Offers items to the cell of a span one after the other. -/
def offerEach (chart : Chart) (span : Span) (items : List Item) : Except OutsideSpan Chart :=
  items.foldlM (fun chart item => (chart.offer item span).map Prod.fst) chart

/-- Offers items to the cells of several spans. -/
def offerBatches (chart : Chart) (batches : List (Span × List Item)) : Except OutsideSpan Chart :=
  batches.foldlM (fun chart batch => chart.offerEach batch.1 batch.2) chart

/-! The steps of a visit are described on a chart whose cell for the span has just been written,
since that is what the step before has left. -/

theorem check_setCell (hspan : span.Within chart.length) (other : Span) (cell : Cell) :
    (chart.setCell other cell).check span = .ok () := by
  rw [check, ← (sameFrame_setCell chart other cell).length]
  exact if_pos hspan

theorem offer_setCell (hwf : chart.WellFormed) (hspan : span.Within chart.length) (item : Item)
    (cell : Cell) :
    ((chart.setCell span cell).offer item span).map Prod.fst =
      .ok (chart.setCell span (chart.offerAll span cell [item])) := by
  have hframe := sameFrame_setCell chart span cell
  rw [offerAll_congr hframe, offer, offerAll, List.foldl_cons, List.foldl_nil]
  split
  · rw [check_setCell hspan, cell_setCell_self hwf hspan]
    show Except.ok ((chart.setCell span cell).setCell span _) = _
    rw [setCell_setCell]
  · rfl

/-- Offers one after the other amount to one change of the cell. -/
theorem offerEach_setCell (hwf : chart.WellFormed) (hspan : span.Within chart.length)
    (cell : Cell) (items : List Item) :
    (chart.setCell span cell).offerEach span items =
      .ok (chart.setCell span (chart.offerAll span cell items)) := by
  induction items generalizing cell with
  | nil => rfl
  | cons item items ih =>
    rw [offerEach, List.foldlM_cons, offer_setCell hwf hspan]
    exact ih _

/-- Each cell takes in what is offered for its span, in the order of the offers. -/
theorem exists_offerBatches {batches : List (Span × List Item)} (hwf : chart.WellFormed)
    (hspans : ∀ batch ∈ batches, batch.1.Within chart.length) :
    ∃ chart', chart.offerBatches batches = .ok chart' ∧ chart.SameFrame chart' ∧
      chart'.WellFormed ∧
      ∀ s, chart'.cell s = chart.offerAll s (chart.cell s)
        (batches.flatMap fun batch => if batch.1 = s then batch.2 else []) := by
  induction batches generalizing chart with
  | nil => exact ⟨chart, rfl, SameFrame.refl chart, hwf, fun _ => rfl⟩
  | cons batch batches ih =>
    obtain ⟨span, items⟩ := batch
    obtain ⟨hspan, hspans⟩ := List.forall_mem_cons.1 hspans
    let next := chart.setCell span (chart.offerAll span (chart.cell span) items)
    have hframe : chart.SameFrame next := sameFrame_setCell chart span _
    have hstep : chart.offerEach span items = .ok next := by
      have h := offerEach_setCell hwf hspan (chart.cell span) items
      rwa [setCell_cell hwf] at h
    have hspans' : ∀ batch ∈ batches, batch.1.Within next.length := by
      rwa [← hframe.length]
    obtain ⟨chart', hrest, hframe', hwf', hcells⟩ := ih (hwf.setCell span _) hspans'
    refine ⟨chart', ?_, hframe.trans hframe', hwf', fun s => ?_⟩
    · rw [offerBatches, List.foldlM_cons, hstep]
      exact hrest
    · rw [hcells s, ← offerAll_congr hframe, List.flatMap_cons]
      by_cases hs : span = s
      · subst hs
        rw [cell_setCell_self hwf hspan, if_pos rfl]
        exact List.foldl_append.symm
      · rw [cell_setCell_of_ne fun heq => hs heq.symm, if_neg hs, List.nil_append]

theorem checkedCell_setCell_self (hwf : chart.WellFormed) (hspan : span.Within chart.length)
    (cell : Cell) : (chart.setCell span cell).checkedCell span = .ok cell := by
  rw [checkedCell, check_setCell hspan, cell_setCell_self hwf hspan]
  rfl

theorem checkedCell_setCell_of_ne (hspan : span.Within chart.length) {other : Span}
    (hne : span ≠ other) (cell : Cell) :
    (chart.setCell other cell).checkedCell span = .ok (chart.cell span) := by
  rw [checkedCell, check_setCell hspan, cell_setCell_of_ne hne]
  rfl

theorem rank_setCell (hwf : chart.WellFormed) (hspan : span.Within chart.length) (cell : Cell) :
    (chart.setCell span cell).rank span = .ok (chart.setCell span cell.ranked) := by
  rw [rank, check_setCell hspan, cell_setCell_self hwf hspan]
  show Except.ok ((chart.setCell span cell).setCell span _) = _
  rw [setCell_setCell]

end Chart

namespace Parser

section Definitions

variable (parser : Parser) (scorer : Scorer)

/-- Offers to the cell of a span what the cells of two parts of it combine to. -/
def offerBinary (chart : Chart) (span : Span) (parts : Span × Span) : Except OutsideSpan Chart := do
  let lefts ← chart.checkedCell parts.1
  let rights ← chart.checkedCell parts.2
  chart.offerEach span (parser.binaryItems scorer span parts.1.last lefts rights)

/-- Offers to the cell of a span what the unary rules make of its items. -/
def offerUnary (chart : Chart) (span : Span) : Except OutsideSpan Chart := do
  let cell ← chart.checkedCell span
  chart.offerEach span (cell.flatMap (parser.unaryItems scorer))

/-- Completes the cell of a span. -/
def visit (chart : Chart) (span : Span) : Except OutsideSpan Chart := do
  let chart ← span.splits.foldlM (fun chart => parser.offerBinary scorer chart span) chart
  let chart ← parser.offerUnary scorer chart span
  chart.rank span

/-- Offers the lexical items to the cells of a list of spans. -/
def seed (sentence : Sentence) (chart : Chart) (spans : List Span) : Except OutsideSpan Chart :=
  spans.foldlM
    (fun chart span => chart.offerEach span (parser.terminalItems scorer sentence span)) chart

/-- Fills a chart in place: all lexical items come first, then the spans are visited in the order
    of a list. -/
def fillInPlace (sentence : Sentence) (filter : Filter) (spans : List Span) :
    Except OutsideSpan Chart := do
  let chart ← parser.seed scorer sentence
    (.empty sentence.length parser.config.inference filter) (Span.within sentence.length)
  spans.foldlM (parser.visit scorer) chart

/-- What the combinations of the parts of a span make of its cell. -/
def extendedCell (chart : Chart) (span : Span) (splits : List (Span × Span)) (cell : Cell) : Cell :=
  splits.foldl
    (fun cell (left, right) =>
      chart.offerAll span cell
        (parser.binaryItems scorer span left.last (chart.cell left) (chart.cell right)))
    cell

/-- The cell that a visit leaves. -/
def visitedCell (chart : Chart) (span : Span) : Cell :=
  let combined := parser.extendedCell scorer chart span span.splits (chart.cell span)
  (chart.offerAll span combined (combined.flatMap (parser.unaryItems scorer))).ranked

end Definitions

variable {parser : Parser} {scorer : Scorer} {sentence : Sentence} {chart : Chart} {span : Span}

/-! ## One visit -/

theorem offerBinary_setCell (hwf : chart.WellFormed) (hspan : span.Within chart.length)
    {l r : Span} (hsplit : (l, r) ∈ span.splits) (cell : Cell) :
    parser.offerBinary scorer (chart.setCell span cell) span (l, r) =
      .ok (chart.setCell span (chart.offerAll span cell
        (parser.binaryItems scorer span l.last (chart.cell l) (chart.cell r)))) := by
  -- The parts lie within the chart and are shorter than the span, so their cells are untouched.
  obtain ⟨hl, hr⟩ := Span.extent_lt_of_mem_splits hsplit
  obtain ⟨m, hstart, hlast, rfl, rfl⟩ := Span.mem_splits.1 hsplit
  have hleft : Span.Within chart.length ⟨span.start, m⟩ := ⟨hstart, Nat.lt_trans hlast hspan.2⟩
  have hright : Span.Within chart.length ⟨m + 1, span.last⟩ := ⟨hlast, hspan.2⟩
  have hleftNe : (⟨span.start, m⟩ : Span) ≠ span := fun heq => by rw [heq] at hl; omega
  have hrightNe : (⟨m + 1, span.last⟩ : Span) ≠ span := fun heq => by rw [heq] at hr; omega
  unfold offerBinary
  dsimp only
  rw [Chart.checkedCell_setCell_of_ne hleft hleftNe,
    Chart.checkedCell_setCell_of_ne hright hrightNe]
  exact Chart.offerEach_setCell hwf hspan cell _

theorem foldlM_offerBinary (hwf : chart.WellFormed) (hspan : span.Within chart.length)
    {splits : List (Span × Span)} (hsplits : ∀ parts ∈ splits, parts ∈ span.splits) (cell : Cell) :
    splits.foldlM (fun chart => parser.offerBinary scorer chart span) (chart.setCell span cell) =
      .ok (chart.setCell span (parser.extendedCell scorer chart span splits cell)) := by
  induction splits generalizing cell with
  | nil => rfl
  | cons parts splits ih =>
    rw [List.foldlM_cons, offerBinary_setCell hwf hspan (hsplits parts List.mem_cons_self)]
    exact ih (fun p hp => hsplits p (List.mem_cons_of_mem _ hp)) _

theorem offerUnary_setCell (hwf : chart.WellFormed) (hspan : span.Within chart.length)
    (cell : Cell) :
    parser.offerUnary scorer (chart.setCell span cell) span =
      .ok (chart.setCell span
        (chart.offerAll span cell (cell.flatMap (parser.unaryItems scorer)))) := by
  unfold offerUnary
  rw [Chart.checkedCell_setCell_self hwf hspan]
  exact Chart.offerEach_setCell hwf hspan cell _

/-- A visit within the chart succeeds and changes one cell. -/
theorem visit_eq (hwf : chart.WellFormed) (hspan : span.Within chart.length) :
    parser.visit scorer chart span =
      .ok (chart.setCell span (parser.visitedCell scorer chart span)) := by
  have hself : parser.visit scorer chart span =
      parser.visit scorer (chart.setCell span (chart.cell span)) span := by
    rw [Chart.setCell_cell hwf]
  rw [hself, visit, foldlM_offerBinary hwf hspan fun _ h => h]
  show (parser.offerUnary scorer (chart.setCell span _) span >>= fun chart => chart.rank span) = _
  rw [offerUnary_setCell hwf hspan]
  exact Chart.rank_setCell hwf hspan _

/-- On a cell that has its lexical items a visit does what filling the span does. -/
theorem visitedCell_eq {chart' : Chart} (hframe : chart.SameFrame chart')
    (hcells : ∀ l r, (l, r) ∈ span.splits →
      chart.cell l = chart'.cell l ∧ chart.cell r = chart'.cell r)
    (hspan : chart.cell span =
      chart'.offerAll span [] (parser.terminalItems scorer sentence span)) :
    parser.visitedCell scorer chart span = parser.finalCell scorer sentence chart' span := by
  have hcombined : parser.extendedCell scorer chart span span.splits (chart.cell span) =
      parser.combinedCell scorer sentence chart' span := by
    rw [hspan]
    refine List.foldl_ext _ _ _ ?_
    rintro cell ⟨l, r⟩ hsplit
    obtain ⟨hl, hr⟩ := hcells l r hsplit
    dsimp only
    rw [Chart.offerAll_congr hframe, hl, hr]
  dsimp only [visitedCell, finalCell]
  rw [hcombined, Chart.offerAll_congr hframe]

/-! ## All visits -/

/-- Lexical items enter the cells of a list of spans and no other cell. -/
theorem seed_eq (parser : Parser) (scorer : Scorer) (sentence : Sentence) {chart : Chart}
    {spans : List Span} (hwf : chart.WellFormed) (hnodup : spans.Nodup)
    (hspans : ∀ s ∈ spans, s.Within chart.length) (hempty : ∀ s ∈ spans, chart.cell s = []) :
    ∃ seeded, parser.seed scorer sentence chart spans = .ok seeded ∧ chart.SameFrame seeded ∧
      seeded.WellFormed ∧
      (∀ s ∈ spans,
        seeded.cell s = chart.offerAll s [] (parser.terminalItems scorer sentence s)) ∧
      ∀ s, s ∉ spans → seeded.cell s = chart.cell s := by
  let batches := spans.map fun s => (s, parser.terminalItems scorer sentence s)
  have hbatches : ∀ batch ∈ batches, batch.1.Within chart.length := List.forall_mem_map.2 hspans
  obtain ⟨seeded, hseed, hframe, hwf', hcells⟩ := Chart.exists_offerBatches hwf hbatches
  rw [Chart.offerBatches, List.foldlM_map] at hseed
  refine ⟨seeded, hseed, hframe, hwf', fun s hs => ?_, fun s hs => ?_⟩
  · have hitems : (batches.flatMap fun batch => if batch.1 = s then batch.2 else []) =
        parser.terminalItems scorer sentence s := by
      rw [List.flatMap_map, flatMap_eq_of_forall_ne hnodup hs fun t _ hne => if_neg hne, if_pos rfl]
    rw [hcells s, hempty s hs, hitems]
  · have hitems : (batches.flatMap fun batch => if batch.1 = s then batch.2 else []) = [] := by
      rw [List.flatMap_map, List.flatMap_eq_nil_iff]
      exact fun t ht => if_neg fun heq : t = s => hs (heq ▸ ht)
    rw [hcells s, hitems]
    rfl

/-- `inPlace` and `chart` agree, except that the cells of the spans that are still to be visited
    have their lexical items in `inPlace`. -/
structure Awaits (parser : Parser) (scorer : Scorer) (sentence : Sentence) (spans : List Span)
    (inPlace chart : Chart) : Prop where
  frame : inPlace.SameFrame chart
  wellFormed_inPlace : inPlace.WellFormed
  wellFormed : chart.WellFormed
  visited : ∀ s, s ∉ spans → inPlace.cell s = chart.cell s
  awaited : ∀ s ∈ spans,
    inPlace.cell s = chart.offerAll s [] (parser.terminalItems scorer sentence s)

/-- One visit in place beside one span filled. -/
theorem Awaits.visit {inPlace : Chart} {spans : List Span}
    (h : parser.Awaits scorer sentence (span :: spans) inPlace chart)
    (hspan : span.Within chart.length) (hnot : span ∉ spans)
    (hlonger : ∀ s ∈ spans, span.extent ≤ s.extent) :
    ∃ inPlace', parser.visit scorer inPlace span = .ok inPlace' ∧
      parser.Awaits scorer sentence spans inPlace'
        (parser.fillSpan scorer sentence chart span) := by
  have hspan' : span.Within inPlace.length := by rwa [h.frame.length]
  -- The parts of the span are shorter than all that is still to be visited.
  have hshorter : ∀ s : Span, s.extent < span.extent → inPlace.cell s = chart.cell s := by
    intro s hs
    refine h.visited s fun hmem => ?_
    rcases List.mem_cons.1 hmem with rfl | hmem
    · omega
    · have hle := hlonger s hmem
      omega
  have hcell : parser.visitedCell scorer inPlace span =
      parser.finalCell scorer sentence chart span := by
    refine visitedCell_eq h.frame ?_ (h.awaited span List.mem_cons_self)
    intro l r hsplit
    obtain ⟨hl, hr⟩ := Span.extent_lt_of_mem_splits hsplit
    exact ⟨hshorter l hl, hshorter r hr⟩
  refine ⟨inPlace.setCell span (parser.finalCell scorer sentence chart span),
    ?_, ?_, ?_, ?_, ?_, ?_⟩
  · rw [visit_eq h.wellFormed_inPlace hspan', hcell]
  · exact ((Chart.sameFrame_setCell inPlace span _).symm.trans h.frame).trans
      (Chart.sameFrame_setCell chart span _)
  · exact h.wellFormed_inPlace.setCell span _
  · exact h.wellFormed.setCell span _
  · intro s hs
    by_cases hne : s = span
    · rw [hne, Chart.cell_setCell_self h.wellFormed_inPlace hspan',
        cell_fillSpan_self h.wellFormed hspan]
    · rw [Chart.cell_setCell_of_ne hne, cell_fillSpan_of_ne hne]
      exact h.visited s fun hmem => (List.mem_cons.1 hmem).elim hne hs
  · intro s hs
    have hne : s ≠ span := fun heq => hnot (heq ▸ hs)
    rw [Chart.cell_setCell_of_ne hne, h.awaited s (List.mem_cons_of_mem _ hs)]
    exact Chart.offerAll_congr (Chart.sameFrame_setCell chart span _) _

/-- All visits in place beside all spans filled. -/
theorem Awaits.visits {inPlace : Chart} {spans : List Span}
    (h : parser.Awaits scorer sentence spans inPlace chart)
    (hspans : ∀ s ∈ spans, s.Within chart.length) (hnodup : spans.Nodup)
    (hsorted : spans.Pairwise fun s t => s.extent ≤ t.extent) :
    spans.foldlM (parser.visit scorer) inPlace =
      .ok (parser.fillSpans scorer sentence chart spans) := by
  induction spans generalizing inPlace chart with
  | nil =>
    have hsame : inPlace = chart := Chart.eq_of_cell_eq h.frame h.wellFormed_inPlace h.wellFormed
      fun s => h.visited s (List.not_mem_nil)
    rw [hsame]
    rfl
  | cons span spans ih =>
    obtain ⟨hnot, hnodup⟩ := List.nodup_cons.1 hnodup
    obtain ⟨hlonger, hsorted⟩ := List.pairwise_cons.1 hsorted
    obtain ⟨next, hvisit, hnext⟩ := h.visit (hspans span List.mem_cons_self) hnot hlonger
    rw [List.foldlM_cons, hvisit]
    refine ih hnext ?_ hnodup hsorted
    intro s hs
    rw [fillSpan, ← (Chart.sameFrame_setCell chart span _).length]
    exact hspans s (List.mem_cons_of_mem _ hs)

/-- Filling in place from short spans to long ones fails nowhere and gives the same chart. -/
theorem fillInPlace_eq {filter : Filter} {spans : List Span}
    (hperm : spans.Perm (Span.within sentence.length))
    (hsorted : spans.Pairwise fun s t => s.extent ≤ t.extent) :
    parser.fillInPlace scorer sentence filter spans =
      .ok (parser.fillSpans scorer sentence
        (.empty sentence.length parser.config.inference filter) spans) := by
  have hmem : ∀ s, s ∈ spans ↔ s ∈ Span.within sentence.length := fun s => hperm.mem_iff
  obtain ⟨seeded, hseed, hframe, hwf, hin, hout⟩ :=
    seed_eq parser scorer sentence
      (Chart.wellFormed_empty sentence.length parser.config.inference filter)
      (Span.within_nodup sentence.length) (fun _ hs => Span.mem_within.1 hs)
      fun s _ => Chart.cell_empty _ _ _ s
  have hawaits : parser.Awaits scorer sentence spans seeded
      (.empty sentence.length parser.config.inference filter) :=
    ⟨hframe.symm, hwf, Chart.wellFormed_empty _ _ _, fun s hs => hout s (mt (hmem s).2 hs),
      fun s hs => hin s ((hmem s).1 hs)⟩
  rw [fillInPlace, hseed]
  refine hawaits.visits ?_ ?_ hsorted
  · intro s hs
    exact Span.mem_within.1 ((hmem s).1 hs)
  · exact hperm.nodup_iff.2 (Span.within_nodup _)

/-- Whatever the order of the spans of each length, the chart is the same, also if it is filled in
    place. -/
theorem parseChart_eq_inOrder (parser : Parser) (scorer : Scorer) (sentence : Sentence)
    (filter : Filter) (orders : Nat → List Nat)
    (horders : ∀ length < sentence.length,
      (orders length).Perm (List.range (sentence.length - length))) :
    (Span.inOrder sentence.length orders).foldl (parser.fillSpan scorer sentence)
        (.empty sentence.length parser.config.inference filter) =
      parser.parseChart scorer sentence filter ∧
    parser.fillInPlace scorer sentence filter (Span.inOrder sentence.length orders) =
      .ok (parser.parseChart scorer sentence filter) := by
  have hsame : parser.fillSpans scorer sentence
      (.empty sentence.length parser.config.inference filter)
      (Span.inOrder sentence.length orders) = parser.parseChart scorer sentence filter :=
    fillSpans_inOrder horders _
  refine ⟨hsame, ?_⟩
  rw [fillInPlace_eq (Span.inOrder_perm horders) (Span.inOrder_sorted orders _), hsame]

/-- The two words of a sentence from right to left. -/
theorem parseChart_eq_inOrder_sample :
    (∀ length < Sentence.sample.length,
      (List.range (Sentence.sample.length - length)).reverse.Perm
        (List.range (Sentence.sample.length - length))) ∧
    Grammar.sample.parser.fillInPlace .uniform Sentence.sample Filter.none
        (Span.inOrder Sentence.sample.length fun length =>
          (List.range (Sentence.sample.length - length)).reverse) =
      .ok (Grammar.sample.parser.parseChart .uniform Sentence.sample Filter.none) := by
  have horders : ∀ length < Sentence.sample.length,
      (List.range (Sentence.sample.length - length)).reverse.Perm
        (List.range (Sentence.sample.length - length)) :=
    fun length _ => List.reverse_perm _
  exact ⟨horders, (parseChart_eq_inOrder Grammar.sample.parser .uniform Sentence.sample
    Filter.none _ horders).2⟩

end Parser

end Categorial
