/-
  Categorial.Proofs.Chart.Addressing

  How spans address the cells of a chart.  The spans within a sentence and the places of its table
  correspond one to one (`index_bijOn`), so that a call for one span finds the place of the span and
  leaves the places of the other spans as they are (`getElem?_index_change`), after whatever calls
  (`wellFormed_runAll`).

  A parser fills its chart by calls for spans that it computes from the bounds of its loops.  `Work`
  is a sequence of such calls that notes each span it uses, and `fillByLoops` is that of a parser:
  lexical items word by word, then, for each length and each first word, the combinations at every
  split, the unary rules and the ranking.  Work keeps in step with what the same calls do to the
  chart alone (`Tracks`), for which there is one lemma for each way to put calls together:

    * `Tracks.seq`, `Tracks.look`, `Tracks.forM` -- one after the other, on what a look has shown,
      and in a loop.
    * `tracks_completeSpan` -- all calls for one span.
    * `fillByLoops_eq` -- no call fails, the chart is that of `parseChart`, and the spans used are
      those within the sentence.
-/

import Categorial.Proofs.Chart.Beam
import Categorial.Proofs.Chart.FillingOrder
import Categorial.Proofs.Outcome
import Mathlib.Data.Set.Function

namespace Categorial

/-! ## Places in the table -/

namespace Span

theorem index_bijOn (n : Nat) : Set.BijOn index {s | s.Within n} (Set.Iio (count n)) :=
  ⟨fun _ hs => index_lt_count hs, fun _ hs _ ht h => index_inj hs.1 ht.1 h,
    fun _ hi => exists_index_eq hi⟩

/-- If the size of the table can be computed in words of 64 bits without overflow, then so can all
    places. -/
theorem toNat_index_of_lt {n : Nat} (hn : n * (n + 1) < 2 ^ 64) {start last : UInt64}
    (h : Within n ⟨start.toNat, last.toNat⟩) :
    (last * (last + 1) / 2 + start).toNat = index ⟨start.toNat, last.toNat⟩ := by
  -- Every number on the way is at most the product from which the size is computed.
  have hlast : last.toNat + 1 ≤ n := h.2
  have hproduct : last.toNat * (last.toNat + 1) < 2 ^ 64 := by
    refine Nat.lt_of_le_of_lt (Nat.mul_le_mul ?_ ?_) hn <;> omega
  have hplace : last.toNat * (last.toNat + 1) / 2 + start.toNat < 2 ^ 64 := by
    have hlt : index ⟨start.toNat, last.toNat⟩ < count n := index_lt_count h
    have hle : count n ≤ n * (n + 1) := Nat.div_le_self _ 2
    exact Nat.lt_trans (Nat.lt_of_lt_of_le hlt hle) hn
  have hsucc : (last + 1).toNat = last.toNat + 1 := by
    have hle : n ≤ n * (n + 1) := Nat.le_mul_of_pos_right n (Nat.succ_pos n)
    rw [UInt64.toNat_add, UInt64.toNat_one, Nat.mod_eq_of_lt (by omega)]
  rw [UInt64.toNat_add, UInt64.toNat_div, UInt64.toNat_mul, hsucc, Nat.mod_eq_of_lt hproduct]
  exact Nat.mod_eq_of_lt hplace

end Span

namespace Chart

variable {chart : Chart} {span : Span}

/-- The place of a span is in the table, and its cell is there. -/
theorem getElem?_index (hwf : chart.WellFormed) (hspan : span.Within chart.length) :
    chart.cells[span.index]? = some (chart.cell span) := by
  have hplace : span.index < chart.cells.size := by
    rw [hwf]
    exact Span.index_lt_count hspan
  simp [cell, hspan, Array.getD, hplace]

theorem checkedCell_eq (hspan : span.Within chart.length) :
    chart.checkedCell span = .ok (chart.cell span) := by
  rw [checkedCell, check, if_pos hspan]
  rfl

/-- What a change of one cell leaves at the places of all spans. -/
theorem getElem?_index_change (hwf : chart.WellFormed) (hspan : span.Within chart.length)
    (c : Change) :
    ∃ next, chart.change span c = .ok next ∧ next.cells.size = chart.cells.size ∧
      ∀ other : Span, other.Within chart.length →
        next.cells[other.index]? =
          some (if other = span then c.result chart span else chart.cell other) := by
  obtain ⟨next, hchange, hframe, hwf', hself, hothers⟩ := change_eq hwf hspan c
  refine ⟨next, hchange, by rw [hwf, hwf', hframe.length], fun other hother => ?_⟩
  rw [getElem?_index hwf' (hframe.length ▸ hother)]
  split
  · rename_i heq
    rw [heq, hself]
  · rename_i hne
    rw [hothers other hne]

/-- Changes cells one after the other. A call outside the chart fails, and the next one finds the
    chart as it was. -/
def runAll (chart : Chart) (calls : List (Span × Change)) : Chart :=
  calls.foldl (fun chart (span, c) => (chart.change span c).toOption.getD chart) chart

theorem change_of_not_within (hspan : ¬ span.Within chart.length) (c : Change) :
    (chart.change span c).toOption.getD chart = chart := by
  have hcheck : chart.check span = .error ⟨span, chart.length⟩ := if_neg hspan
  cases c with
  | offer item =>
    rw [change, offer]
    split
    · rw [hcheck]
      rfl
    · rfl
  | rank =>
    rw [change, rank, hcheck]
    rfl
  | clear =>
    rw [change, clear, hcheck]
    rfl

theorem wellFormed_runAll (hwf : chart.WellFormed) (calls : List (Span × Change)) :
    chart.SameFrame (chart.runAll calls) ∧ (chart.runAll calls).WellFormed := by
  induction calls generalizing chart with
  | nil => exact ⟨SameFrame.refl chart, hwf⟩
  | cons call calls ih =>
    obtain ⟨span, c⟩ := call
    rw [runAll, List.foldl_cons]
    by_cases hspan : span.Within chart.length
    · obtain ⟨next, hchange, hframe, hwf', -, -⟩ := change_eq hwf hspan c
      dsimp only
      rw [hchange]
      exact ⟨hframe.trans (ih hwf').1, (ih hwf').2⟩
    · dsimp only
      rw [change_of_not_within hspan]
      exact ih hwf

/-! ## Work that notes the spans it uses -/

/-- A chart that is worked on, with the spans that have been used so far. -/
structure Tracked where
  chart : Chart
  used : List Span

/-- A sequence of calls on a chart. -/
abbrev Work := StateT Tracked (Except OutsideSpan)

namespace Work

/-- Changes the cell of a span. -/
def change (span : Span) (c : Change) : Work Unit := fun t => do
  let chart ← t.chart.change span c
  return ((), ⟨chart, t.used ++ [span]⟩)

/-- Looks at the cell of a span. -/
def look (span : Span) : Work Cell := fun t => do
  let cell ← t.chart.checkedCell span
  return (cell, ⟨t.chart, t.used ++ [span]⟩)

/-- Offers items to the cell of a span one after the other. -/
def offerEach (span : Span) (items : List Item) : Work Unit :=
  items.forM fun item => change span (.offer item)

/-- Whenever a function of charts succeeds, the work does so with the same chart. The spans that it
    uses lie within a sentence of `n` words, and those of `must` are among them. -/
def Tracks (n : Nat) (must : List Span) (work : Work Unit)
    (f : Chart → Except OutsideSpan Chart) : Prop :=
  ∀ chart chart' used, f chart = .ok chart' →
    ∃ more, work ⟨chart, used⟩ = .ok ((), ⟨chart', used ++ more⟩) ∧ must ⊆ more ∧
      ∀ s ∈ more, s.Within n

variable {n : Nat} {must must' : List Span} {work work' : Work Unit}
variable {f g : Chart → Except OutsideSpan Chart}

theorem tracks_pure (h : ∀ chart chart', f chart = .ok chart' → chart' = chart) :
    Tracks n [] (pure ()) f := by
  intro chart chart' used hf
  rw [h chart chart' hf]
  exact ⟨[], by rw [List.append_nil]; rfl, List.Subset.refl _, fun _ hs => nomatch hs⟩

theorem tracks_change (hspan : span.Within n) (c : Change) :
    Tracks n [span] (change span c) fun chart => chart.change span c := by
  intro chart chart' used (hchange : chart.change span c = .ok chart')
  refine ⟨[span], ?_, List.Subset.refl _, List.forall_mem_singleton.2 hspan⟩
  show chart.change span c >>= _ = _
  rw [hchange]
  rfl

/-- Work that goes on with what it has looked at. -/
theorem Tracks.look {work : Cell → Work Unit} {f : Cell → Chart → Except OutsideSpan Chart}
    (hspan : span.Within n) (h : ∀ cell, Tracks n must (work cell) (f cell)) :
    Tracks n (span :: must) (look span >>= work)
      fun chart => chart.checkedCell span >>= fun cell => f cell chart := by
  intro chart chart' used hok
  obtain ⟨cell, hcell, hf⟩ := bind_eq_ok_iff.1 hok
  obtain ⟨more, hwork, hmust, hwithin⟩ := h cell chart chart' (used ++ [span]) hf
  refine ⟨span :: more, ?_, List.cons_subset_cons _ hmust,
    List.forall_mem_cons.2 ⟨hspan, hwithin⟩⟩
  show ((chart.checkedCell span >>= _) >>= fun r : Cell × Tracked => work r.1 r.2) = _
  rw [hcell, List.append_cons used span more]
  exact hwork

theorem Tracks.seq (h : Tracks n must work f) (h' : Tracks n must' work' g) :
    Tracks n (must ++ must') (do work; work') fun chart => f chart >>= g := by
  intro chart chart'' used hok
  obtain ⟨chart', hf, hg⟩ := bind_eq_ok_iff.1 hok
  -- The second part goes on with the chart and the spans that the first has left.
  obtain ⟨more, hwork, hmust, hwithin⟩ := h chart chart' used hf
  obtain ⟨more', hwork', hmust', hwithin'⟩ := h' chart' chart'' (used ++ more) hg
  refine ⟨more ++ more', ?_, ?_, ?_⟩
  · show work ⟨chart, used⟩ >>= (fun r => work' r.2) = _
    rw [hwork, ← List.append_assoc]
    exact hwork'
  · exact List.append_subset.2 ⟨List.subset_append_of_subset_left _ hmust,
      List.subset_append_of_subset_right _ hmust'⟩
  · exact List.forall_mem_append.2 ⟨hwithin, hwithin'⟩

/-- A loop, from what one round does. -/
theorem Tracks.forM {α : Type} {xs : List α} {must : α → List Span} {work : α → Work Unit}
    {f : Chart → α → Except OutsideSpan Chart}
    (h : ∀ x ∈ xs, Tracks n (must x) (work x) fun chart => f chart x) :
    Tracks n (xs.flatMap must) (xs.forM work) fun chart => xs.foldlM f chart := by
  induction xs with
  | nil =>
    refine tracks_pure fun chart chart' hok => ?_
    cases hok
    rfl
  | cons x xs ih =>
    have hrest := ih fun y hy => h y (List.mem_cons_of_mem _ hy)
    exact (h x List.mem_cons_self).seq hrest

/-- Work may be compared with a function that succeeds less often, and promise less. -/
theorem Tracks.weaken (h : Tracks n must work f) (hsub : must' ⊆ must)
    (hok : ∀ chart chart', g chart = .ok chart' → f chart = .ok chart') :
    Tracks n must' work g := by
  intro chart chart' used hg
  obtain ⟨more, hwork, hmust, hwithin⟩ := h chart chart' used (hok chart chart' hg)
  exact ⟨more, hwork, fun s hs => hmust (hsub hs), hwithin⟩

theorem tracks_offerEach (hspan : span.Within n) (items : List Item) :
    Tracks n [] (offerEach span items) fun chart => chart.offerEach span items :=
  (Tracks.forM fun _ _ => tracks_change hspan _).weaken (List.nil_subset _) fun _ _ h => h

theorem tracks_offerBatches {batches : List (Span × List Item)}
    (hspans : ∀ batch ∈ batches, batch.1.Within n) :
    Tracks n [] (batches.forM fun batch => offerEach batch.1 batch.2) fun chart =>
      chart.offerBatches batches :=
  (Tracks.forM fun batch hbatch => tracks_offerEach (hspans batch hbatch) batch.2).weaken
    (List.nil_subset _) fun _ _ h => h

/-- A cell can be looked at once more after it has been ranked. -/
theorem tracks_rank (hspan : span.Within n) :
    Tracks n [span] (do change span .rank; let _ ← look span)
      fun chart => chart.rank span := by
  have hlook : Tracks n [span] (look span >>= fun _ => pure ())
      fun chart => chart.checkedCell span >>= fun _ => .ok chart :=
    Tracks.look hspan fun _ => tracks_pure fun _ _ hok => (Except.ok.inj hok).symm
  refine ((tracks_change hspan .rank).seq hlook).weaken (List.subset_append_left _ _) ?_
  -- Ranking has checked the span, and the length is still the same.
  intro chart chart' hrank
  obtain ⟨_, hcheck, hchart'⟩ := map_eq_ok_iff.1 hrank
  have hspan' : span.Within chart.length := by
    by_contra hnot
    cases hcheck.symm.trans (if_neg hnot)
  refine bind_eq_ok_iff.2 ⟨chart', hrank, bind_eq_ok_iff.2 ⟨chart'.cell span, ?_, rfl⟩⟩
  rw [← hchart', checkedCell, check_setCell hspan']
  rfl

end Work

end Chart

/-! ## The calls of a parser -/

namespace Span

/-- The spans within a sentence of `n` words by their number of words, from one to `n`. -/
def byLength (n : Nat) : List Span :=
  (List.range' 1 n).flatMap fun length =>
    (List.range (n - length + 1)).map fun start => ⟨start, start + length - 1⟩

theorem byLength_eq_within (n : Nat) : byLength n = within n := by
  unfold byLength within
  rw [List.range'_eq_map_range, List.flatMap_map]
  refine List.flatMap_congr fun length hlength => ?_
  have hlt := List.mem_range.1 hlength
  rw [ofLength, show n - (1 + length) + 1 = n - length by omega]
  refine List.map_congr_left fun start _ => ?_
  rw [show start + (1 + length) - 1 = start + length by omega]

end Span

namespace Parser

open Chart (Work)

section Definitions

variable (parser : Parser) (scorer : Scorer)

/-- Spans that start at a word, with the lexical items that are offered for them: those for the
    words up to each later one, as far as an entry can reach, and after these, for the word alone,
    those that its tag gives. -/
def batchesFrom (sentence : Sentence) (start : Nat) : List (Span × List Item) :=
  (List.range' start (min sentence.length (start + parser.lexicon.longest) - start)).map
      (fun last => (⟨start, last⟩,
        (parser.lexicon.entriesFor (sentence.slice ⟨start, last⟩)).map
          (terminalItem scorer sentence ⟨start, last⟩))) ++
    [(⟨start, start⟩, (parser.unknownEntries sentence ⟨start, start⟩).map
      (terminalItem scorer sentence ⟨start, start⟩))]

/-- All spans with the lexical items that are offered for them, word by word. -/
def lexicalBatches (sentence : Sentence) : List (Span × List Item) :=
  (List.range sentence.length).flatMap (parser.batchesFrom scorer sentence)

/-- Offers to the cell of a span what the cells of its two parts at a split combine to. -/
def combineAt (span : Span) (split : Nat) : Work Unit := do
  let lefts ← Work.look ⟨span.start, split⟩
  let rights ← Work.look ⟨split + 1, span.last⟩
  Work.offerEach span (parser.binaryItems scorer span split lefts rights)

/-- Offers to the cell of a span what the unary rules make of its items. -/
def applyRules (span : Span) : Work Unit :=
  if parser.rules.isEmpty then pure ()
  else do
    let cell ← Work.look span
    Work.offerEach span (cell.flatMap (parser.unaryItems scorer))

/-- Completes the cell of a span, and looks how many items it has. -/
def completeSpan (span : Span) : Work Unit := do
  (List.range' span.start (span.last - span.start)).forM (parser.combineAt scorer span)
  parser.applyRules scorer span
  Work.change span .rank
  let _ ← Work.look span

/-- Fills a chart for a sentence, and looks how many items the cell for all words has. -/
def fillByLoops (sentence : Sentence) : Work Unit := do
  (parser.lexicalBatches scorer sentence).forM fun batch => Work.offerEach batch.1 batch.2
  (Span.byLength sentence.length).forM (parser.completeSpan scorer)
  if 0 < sentence.length then
    let _ ← Work.look ⟨0, sentence.length - 1⟩

end Definitions

variable {parser : Parser} {scorer : Scorer} {sentence : Sentence} {span : Span} {n : Nat}

theorem tracks_combineAt (hspan : span.Within n) {split : Nat} (hstart : span.start ≤ split)
    (hlast : split < span.last) :
    Work.Tracks n [] (parser.combineAt scorer span split) fun chart =>
      parser.offerBinary scorer chart span (⟨span.start, split⟩, ⟨split + 1, span.last⟩) := by
  have hleft : Span.Within n ⟨span.start, split⟩ := ⟨hstart, Nat.lt_trans hlast hspan.2⟩
  have hright : Span.Within n ⟨split + 1, span.last⟩ := ⟨hlast, hspan.2⟩
  have hwork := Work.Tracks.look hleft fun lefts => Work.Tracks.look hright fun rights =>
    Work.tracks_offerEach hspan (parser.binaryItems scorer span split lefts rights)
  exact hwork.weaken (List.nil_subset _) fun _ _ h => h

theorem tracks_applyRules (hspan : span.Within n) :
    Work.Tracks n [] (parser.applyRules scorer span) fun chart =>
      parser.offerUnary scorer chart span := by
  unfold applyRules
  split
  · rename_i hnone
    -- Without rules nothing is offered.
    refine Work.tracks_pure fun chart chart' hok => ?_
    obtain ⟨cell, -, hoffer⟩ := bind_eq_ok_iff.1 hok
    have hitems : cell.flatMap (parser.unaryItems scorer) = [] := by
      refine List.flatMap_eq_nil_iff.2 fun item _ => ?_
      rw [unaryItems, List.isEmpty_iff.1 hnone]
      split <;> rfl
    rw [hitems] at hoffer
    exact (Except.ok.inj hoffer).symm
  · have hwork := Work.Tracks.look hspan fun cell =>
      Work.tracks_offerEach hspan (cell.flatMap (parser.unaryItems scorer))
    exact hwork.weaken (List.nil_subset _) fun _ _ h => h

theorem tracks_completeSpan (hspan : span.Within n) :
    Work.Tracks n [span] (parser.completeSpan scorer span) fun chart =>
      parser.visit scorer chart span := by
  have hround : ∀ split ∈ List.range' span.start (span.last - span.start),
      Work.Tracks n [] (parser.combineAt scorer span split) fun chart =>
        parser.offerBinary scorer chart span (⟨span.start, split⟩, ⟨split + 1, span.last⟩) := by
    intro split hsplit
    obtain ⟨hstart, hlast⟩ := List.mem_range'_1.1 hsplit
    exact tracks_combineAt hspan hstart (by omega)
  have hrules : Work.Tracks n [] (parser.applyRules scorer span) _ := tracks_applyRules hspan
  have hwork := (Work.Tracks.forM hround).seq (hrules.seq (Work.tracks_rank hspan))
  refine hwork.weaken ?_ fun chart chart' hvisit => ?_
  · simp
  · rw [visit, Span.splits, List.foldlM_map] at hvisit
    exact hvisit

/-! ## Lexical items word by word -/

theorem start_and_within_of_mem_batchesFrom {start : Nat} (hstart : start < sentence.length)
    {batch : Span × List Item} (h : batch ∈ parser.batchesFrom scorer sentence start) :
    batch.1.start = start ∧ batch.1.Within sentence.length := by
  rcases List.mem_append.1 h with h | h
  · obtain ⟨last, hlast, rfl⟩ := List.mem_map.1 h
    obtain ⟨hle, hlt⟩ := List.mem_range'_1.1 hlast
    refine ⟨rfl, hle, ?_⟩
    show last < sentence.length
    omega
  · rw [List.mem_singleton.1 h]
    exact ⟨rfl, Nat.le_refl start, hstart⟩

/-- Among the items that start at the first word of a span, those for the span are the entries for
    its words and, for a single word, those that its tag gives. -/
theorem flatMap_batchesFrom (hspan : span.Within sentence.length) :
    ((parser.batchesFrom scorer sentence span.start).flatMap
        fun batch => if batch.1 = span then batch.2 else []) =
      parser.terminalItems scorer sentence span := by
  obtain ⟨start, last⟩ := span
  obtain ⟨hle, hlt⟩ := hspan
  dsimp only at hle hlt
  rw [batchesFrom, List.flatMap_append, List.flatMap_map, List.flatMap_singleton, terminalItems,
    lexicalEntries, List.map_append]
  simp only [Span.mk.injEq, true_and]
  congr 1
  · -- The loop comes to the last word of the span just if some entry is that long.
    unfold knownEntries
    by_cases hreach : last < start + parser.lexicon.longest
    · have hmem : last ∈ List.range' start
          (min sentence.length (start + parser.lexicon.longest) - start) := by
        rw [List.mem_range'_1]
        omega
      rw [if_pos hreach]
      refine (flatMap_eq_of_forall_ne List.nodup_range' hmem ?_).trans (if_pos rfl)
      exact fun a _ hne => if_neg hne
    · rw [if_neg hreach]
      refine List.flatMap_eq_nil_iff.2 fun a ha => if_neg ?_
      rw [List.mem_range'_1] at ha
      omega
  · by_cases hsingle : start = last
    · rw [if_pos hsingle, hsingle]
    · rw [if_neg hsingle, unknownEntries, if_neg fun h => hsingle h.1]
      rfl

theorem within_of_mem_lexicalBatches {batch : Span × List Item}
    (h : batch ∈ parser.lexicalBatches scorer sentence) : batch.1.Within sentence.length := by
  obtain ⟨start, hstart, hbatch⟩ := List.mem_flatMap.1 h
  exact (start_and_within_of_mem_batchesFrom (List.mem_range.1 hstart) hbatch).2

theorem flatMap_lexicalBatches (hspan : span.Within sentence.length) :
    ((parser.lexicalBatches scorer sentence).flatMap
        fun batch => if batch.1 = span then batch.2 else []) =
      parser.terminalItems scorer sentence span := by
  have hmem : span.start ∈ List.range sentence.length :=
    List.mem_range.2 (Nat.lt_of_le_of_lt hspan.1 hspan.2)
  rw [← flatMap_batchesFrom hspan, lexicalBatches, List.flatMap_assoc]
  refine flatMap_eq_of_forall_ne List.nodup_range hmem fun start hstart hne => ?_
  refine List.flatMap_eq_nil_iff.2 fun batch hbatch => if_neg fun heq => hne ?_
  rw [← heq]
  exact (start_and_within_of_mem_batchesFrom (List.mem_range.1 hstart) hbatch).1.symm

/-! ## Filling by loops -/

/-- Offered word by word, the lexical items are in their cells before the first visit. -/
theorem exists_awaits (parser : Parser) (scorer : Scorer) (sentence : Sentence) (filter : Filter) :
    ∃ seeded,
      (Chart.empty sentence.length parser.config.inference filter).offerBatches
        (parser.lexicalBatches scorer sentence) = .ok seeded ∧
      parser.Awaits scorer sentence (Span.within sentence.length) seeded
        (.empty sentence.length parser.config.inference filter) := by
  have hwf := Chart.wellFormed_empty sentence.length parser.config.inference filter
  obtain ⟨seeded, hseed, hframe, hwf', hcells⟩ :=
    Chart.exists_offerBatches hwf fun _ hbatch => within_of_mem_lexicalBatches hbatch
  refine ⟨seeded, hseed, hframe.symm, hwf', hwf, fun s hs => ?_, fun s hs => ?_⟩
  · have hnot : ¬ s.Within seeded.length := by
      rw [← hframe.length]
      exact mt Span.mem_within.2 hs
    rw [Chart.cell_of_not_within hnot, Chart.cell_empty]
  · rw [hcells s, Chart.cell_empty, flatMap_lexicalBatches (Span.mem_within.1 hs)]

theorem tracks_completeSpans (parser : Parser) (scorer : Scorer) (n : Nat) :
    Work.Tracks n (Span.within n) ((Span.byLength n).forM (parser.completeSpan scorer)) fun chart =>
      (Span.within n).foldlM (parser.visit scorer) chart := by
  have hround : ∀ s ∈ Span.within n, Work.Tracks n [s] (parser.completeSpan scorer s) fun chart =>
      parser.visit scorer chart s :=
    fun s hs => tracks_completeSpan (Span.mem_within.1 hs)
  rw [Span.byLength_eq_within]
  have hwork := Work.Tracks.forM hround
  rwa [List.flatMap_singleton'] at hwork

/-- The cell for all words can be looked at if there are any. -/
theorem tracks_lookAtWhole (n : Nat) :
    Work.Tracks n [] (do if 0 < n then let _ ← Work.look ⟨0, n - 1⟩) fun chart =>
      if 0 < n then chart.checkedCell ⟨0, n - 1⟩ >>= fun _ => .ok chart else .ok chart := by
  have hpure : Work.Tracks n [] (pure ()) .ok :=
    Work.tracks_pure fun _ _ hok => (Except.ok.inj hok).symm
  by_cases hn : 0 < n
  · have hwhole : Span.Within n ⟨0, n - 1⟩ := ⟨Nat.zero_le _, Nat.sub_lt hn Nat.one_pos⟩
    simp only [if_pos hn]
    exact (Work.Tracks.look hwhole fun _ => hpure).weaken (List.nil_subset _) fun _ _ h => h
  · simp only [if_neg hn]
    exact hpure

theorem checkedCell_whole (chart : Chart) :
    (if 0 < chart.length then chart.checkedCell ⟨0, chart.length - 1⟩ >>= fun _ => .ok chart
      else .ok chart) = .ok chart := by
  split
  · rename_i hne
    rw [Chart.checkedCell_eq ⟨Nat.zero_le _, Nat.sub_lt hne Nat.one_pos⟩]
    rfl
  · rfl

/-- No call of the parser fails, all spans that it uses lie within the sentence, and it uses all of
    these. -/
theorem fillByLoops_eq (parser : Parser) (scorer : Scorer) (sentence : Sentence) (filter : Filter) :
    ∃ used, parser.fillByLoops scorer sentence
        ⟨.empty sentence.length parser.config.inference filter, []⟩ =
          .ok ((), ⟨parser.parseChart scorer sentence filter, used⟩) ∧
      ∀ span : Span, span ∈ used ↔ span.Within sentence.length := by
  obtain ⟨seeded, hseed, hawaits⟩ := exists_awaits parser scorer sentence filter
  have hvisits : (Span.within sentence.length).foldlM (parser.visit scorer) seeded =
      .ok (parser.parseChart scorer sentence filter) :=
    hawaits.visits (fun _ hs => Span.mem_within.1 hs) (Span.within_nodup _) (Span.within_sorted _)
  have hbatches : ∀ batch ∈ parser.lexicalBatches scorer sentence,
      batch.1.Within sentence.length :=
    fun _ hbatch => within_of_mem_lexicalBatches hbatch
  have hlook := checkedCell_whole (parser.parseChart scorer sentence filter)
  rw [length_parseChart] at hlook
  have hwork := (Work.tracks_offerBatches hbatches).seq
    ((tracks_completeSpans parser scorer sentence.length).seq (tracks_lookAtWhole sentence.length))
  obtain ⟨used, hrun, hmust, hwithin⟩ := hwork _ _ []
    (bind_eq_ok_iff.2 ⟨seeded, hseed, bind_eq_ok_iff.2 ⟨_, hvisits, hlook⟩⟩)
  refine ⟨used, hrun, fun span => ⟨hwithin span, fun hspan => hmust ?_⟩⟩
  simp [Span.mem_within, hspan]

/-- The spans within a sentence and the places of its table correspond one to one; computed in words
    of 64 bits the places are the same, as long as the size of the table can be. After any calls,
    failed ones among them, the table has its size, the place of each span has its cell, and an
    offer, a ranking or a clearing for one span succeeds, gives its cell what the change makes of
    it, and leaves the entries and probabilities of all other spans as they are. When a parser fills
    a chart, no call fails, and the spans that it uses are just those within the sentence. -/
theorem cells_apart_and_spans_valid (n : Nat) (inference : Inference) (filter : Filter) :
    Set.BijOn Span.index {span | span.Within n} (Set.Iio (n * (n + 1) / 2)) ∧
    (n * (n + 1) < 2 ^ 64 → ∀ start last : UInt64, Span.Within n ⟨start.toNat, last.toNat⟩ →
      (last * (last + 1) / 2 + start).toNat = Span.index ⟨start.toNat, last.toNat⟩) ∧
    (∀ (calls : List (Span × Chart.Change)) (chart : Chart),
      (Chart.empty n inference filter).runAll calls = chart →
      chart.cells.size = n * (n + 1) / 2 ∧
      ∀ span : Span, span.Within n →
        chart.cells[span.index]? = some (chart.cell span) ∧
        chart.checkedCell span = .ok (chart.cell span) ∧
        ∀ c : Chart.Change, ∃ next, chart.change span c = .ok next ∧
          next.cells.size = chart.cells.size ∧
          ∀ other : Span, other.Within n → next.cells[other.index]? =
            some (if other = span then c.result chart span else chart.cell other)) ∧
    ∀ (parser : Parser) (scorer : Scorer) (sentence : Sentence), ∃ used,
      parser.fillByLoops scorer sentence
          ⟨.empty sentence.length parser.config.inference filter, []⟩ =
        .ok ((), ⟨parser.parseChart scorer sentence filter, used⟩) ∧
      ∀ span : Span, span ∈ used ↔ span.Within sentence.length := by
  refine ⟨Span.index_bijOn n, fun hn start last h => Span.toNat_index_of_lt hn h, ?_,
    fun parser scorer sentence => fillByLoops_eq parser scorer sentence filter⟩
  rintro calls chart rfl
  obtain ⟨hframe, hwf⟩ :=
    Chart.wellFormed_runAll (Chart.wellFormed_empty n inference filter) calls
  have hlength : n = ((Chart.empty n inference filter).runAll calls).length := hframe.length
  refine ⟨by rw [hwf, ← hlength]; rfl, fun span hspan => ?_⟩
  rw [hlength] at hspan
  refine ⟨Chart.getElem?_index hwf hspan, Chart.checkedCell_eq hspan, fun c => ?_⟩
  obtain ⟨next, hchange, hsize, hplaces⟩ := Chart.getElem?_index_change hwf hspan c
  exact ⟨next, hchange, hsize, fun other hother => hplaces other (hlength ▸ hother)⟩

/-- Clearing the cell for three words leaves the one for the word in the middle, also after a call
    outside the chart. -/
theorem cells_apart_and_spans_valid_sample :
    Set.BijOn Span.index {span | span.Within 3} (Set.Iio 6) ∧
    ((2 : UInt64) * (2 + 1) / 2 + 1).toNat = Span.index ⟨1, 2⟩ ∧
    (∃ chart next,
      (Chart.empty 3 .exact Filter.none).runAll
        [(⟨0, 2⟩, .offer (Chart.sampleItem "a" 1)), (⟨1, 1⟩, .offer (Chart.sampleItem "b" 1)),
          (⟨2, 3⟩, .clear)] = chart ∧
      chart.change ⟨0, 2⟩ .clear = .ok next ∧
      next.cells[Span.index ⟨0, 2⟩]? = some [] ∧
      next.cells[Span.index ⟨1, 1⟩]? = some [Chart.sampleItem "b" 1]) ∧
    ∃ used,
      Grammar.sample.parser.fillByLoops .uniform .sample ⟨.empty 2 .exact Filter.none, []⟩ =
        .ok ((), ⟨Grammar.sample.parser.parseChart .uniform .sample Filter.none, used⟩) ∧
      ∀ span : Span, span ∈ used ↔ span.Within 2 := by
  obtain ⟨hbij, hwords, hcalls, hparsers⟩ := cells_apart_and_spans_valid 3 .exact Filter.none
  obtain ⟨-, hspans⟩ := hcalls _ _ rfl
  obtain ⟨next, hchange, -, hplaces⟩ := (hspans ⟨0, 2⟩ (by decide)).2.2 .clear
  refine ⟨hbij, hwords (by decide) 1 2 (by decide), ⟨_, next, rfl, hchange, ?_, ?_⟩,
    hparsers Grammar.sample.parser .uniform .sample⟩
  · exact hplaces ⟨0, 2⟩ (by decide)
  · exact hplaces ⟨1, 1⟩ (by decide)

end Parser

end Categorial
