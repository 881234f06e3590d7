/-
  Categorial.Proofs.Chart.LetterCase

  Upper and lower case make no difference to a parse.  Two sentences whose words differ in case only
  are looked up alike, and from there on no step looks at the words that an entry records: offers
  compare signs and probabilities, and the scorers and filters at hand look at categories, rules and
  dependencies.  So the two charts are equal once the recorded words are in lower case
  (`cell_lowered`).

    * `offer_lowered`, `ranked_lowered` -- operations on cells, without regard to any sentence.
    * `map_lowered_finalCell` -- one cell, from parts that are alike in the two charts.
    * `caseBlind_toScorer`, `caseBlind_gold` -- the scorers and filters that do not look at words.
-/

import Categorial.Proofs.Chart.Filling
import Categorial.Proofs.Derivation
import Categorial.Proofs.Sorting

namespace Categorial

/-! ## Words in lower case -/

/-- The entry with its words in lower case; nothing else is changed. -/
def Entry.lowered : Entry → Entry
  | .terminal n lexical words => .terminal n lexical (lookupKey words)
  | .binary n combinator split l lp r rp => .binary n combinator split l.lowered lp r.lowered rp

namespace Entry

@[simp] theorem node_lowered (e : Entry) : e.lowered.node = e.node := by
  cases e <;> rfl

@[simp] theorem sign_lowered (e : Entry) : e.lowered.sign = e.sign := by
  simp only [sign, node_lowered]

@[simp] theorem category_lowered (e : Entry) : e.lowered.category = e.category := by
  simp only [category, sign_lowered]

@[simp] theorem unary?_lowered (e : Entry) : e.lowered.unary? = e.unary? := by
  simp only [unary?, node_lowered]

@[simp] theorem isTerminal_lowered (e : Entry) : e.lowered.isTerminal = e.isTerminal := by
  cases e <;> rfl

@[simp] theorem beforeUnary_lowered (e : Entry) : e.lowered.beforeUnary = e.beforeUnary := by
  simp only [beforeUnary, unary?_lowered, category_lowered]

@[simp] theorem children?_lowered (e : Entry) :
    e.lowered.children? = e.children?.map fun (l, r) => (l.lowered, r.lowered) := by
  cases e <;> rfl

theorem lowered_withUnary (rule : UnaryRule) (c : Combination) (e : Entry) :
    (e.withUnary rule c).lowered = e.lowered.withUnary rule c := by
  cases e <;> rfl

end Entry

/-- The item with the words of its entry in lower case. -/
def Item.lowered (item : Item) : Item := ⟨item.entry.lowered, item.probability⟩

@[simp] theorem Item.entry_lowered (item : Item) : item.lowered.entry = item.entry.lowered := rfl

@[simp] theorem Item.probability_lowered (item : Item) :
    item.lowered.probability = item.probability := rfl

/-! ## Cells -/

namespace Cell

theorem insert_lowered (item : Item) (cell : Cell) :
    insert item.lowered (cell.map Item.lowered) =
      ((insert item cell).1.map Item.lowered, (insert item cell).2) := by
  induction cell with
  | nil => rfl
  | cons other cell ih =>
    have hsigns : other.lowered.entry.Equivalent item.lowered.entry ↔
        other.entry.Equivalent item.entry := by
      simp only [Entry.Equivalent, Item.entry_lowered, Entry.sign_lowered]
    by_cases hsign : other.entry.Equivalent item.entry
    · simp only [List.map_cons, insert, if_pos hsign, if_pos (hsigns.2 hsign)]
      -- The comparison is the same on both sides, but a different term decides it.
      have hless : other.lowered.probability < item.lowered.probability ↔
          other.probability < item.probability := Iff.rfl
      by_cases h : other.probability < item.probability
      · simp only [if_pos h, if_pos (hless.2 h), List.map_cons]
      · simp only [if_neg h, if_neg (mt hless.1 h), List.map_cons]
    · simp only [List.map_cons, insert, if_neg hsign, if_neg (mt hsigns.1 hsign), ih]

theorem worstFrom_lowered (i worst : Nat) (least : Float) (cell : Cell) :
    worstFrom i worst least (cell.map Item.lowered) = worstFrom i worst least cell := by
  induction cell generalizing i worst least with
  | nil => rfl
  | cons item cell ih => simp only [List.map_cons, worstFrom, Item.probability_lowered, ih]

theorem worst_lowered (cell : Cell) : worst (cell.map Item.lowered) = worst cell := by
  cases cell with
  | nil => rfl
  | cons item cell => exact worstFrom_lowered 1 0 item.probability cell

theorem offer_lowered (inference : Inference) (item : Item) (cell : Cell) :
    (offer inference item.lowered (cell.map Item.lowered)).1 =
      (offer inference item cell).1.map Item.lowered := by
  unfold offer
  rw [insert_lowered]
  cases inference with
  | exact => rfl
  | beam size =>
    dsimp only
    rw [List.length_map, worst_lowered]
    split
    · rfl
    · exact List.eraseIdx_map Item.lowered _ _

theorem ranked_lowered (cell : Cell) :
    ranked (cell.map Item.lowered) = cell.ranked.map Item.lowered :=
  sortBy_map _ Item.lowered cell

end Cell

/-- A filter that does not look at the case of words. -/
def Filter.CaseBlind (filter : Filter) : Prop :=
  ∀ e span, filter e.lowered span = filter e span

theorem Chart.offerAll_lowered {chart : Chart} (hfilter : chart.filter.CaseBlind) (span : Span)
    (cell : Cell) (items : List Item) :
    chart.offerAll span (cell.map Item.lowered) (items.map Item.lowered) =
      (chart.offerAll span cell items).map Item.lowered := by
  have hadmits : ∀ item : Item, chart.admits item.lowered span = chart.admits item span := by
    intro item
    rw [admits, admits, Item.entry_lowered, hfilter]
    rfl
  induction items generalizing cell with
  | nil => rfl
  | cons item items ih =>
    show chart.offerAll span (if chart.admits item.lowered span
        then ((Cell.offer chart.inference item.lowered (cell.map Item.lowered)).1 : Cell)
        else cell.map Item.lowered) (items.map Item.lowered) =
      (chart.offerAll span (if chart.admits item span
        then (cell.offer chart.inference item).1 else cell) items).map Item.lowered
    rw [hadmits, Cell.offer_lowered, ← ih]
    split <;> rfl

/-- Like items offered to like cells, in two charts with one filter and one way of inference, leave
    like cells. -/
theorem Chart.map_lowered_offerAll {chart chart' : Chart} (hfilter : chart.filter.CaseBlind)
    (hframe : chart.SameFrame chart') (span : Span) {cell cell' : Cell} {items items' : List Item}
    (hcell : cell.map Item.lowered = cell'.map Item.lowered)
    (hitems : items.map Item.lowered = items'.map Item.lowered) :
    (chart.offerAll span cell items).map Item.lowered =
      (chart'.offerAll span cell' items').map Item.lowered := by
  rw [← Chart.offerAll_congr hframe, ← Chart.offerAll_lowered hfilter, hcell, hitems,
    Chart.offerAll_lowered hfilter]

/-! ## Sentences -/

/-- Two sentences with the same tags whose words differ in case only. -/
structure Sentence.SameButCase (s s' : Sentence) : Prop where
  words : lookupKey s.words = lookupKey s'.words
  tags : s.tags? = s'.tags?

/-- A scorer that does not look at the case of words. -/
structure Scorer.CaseBlind (scorer : Scorer) : Prop where
  lexical : ∀ {s s' : Sentence}, s.SameButCase s' → ∀ span e,
    scorer.lexical s span e = scorer.lexical s' span e
  binary : ∀ c l r sign, scorer.binary c l.lowered r.lowered sign = scorer.binary c l r sign
  unary : ∀ rule e, scorer.unary rule e.lowered = scorer.unary rule e

namespace Sentence.SameButCase

variable {s s' : Sentence}

theorem length_eq (h : s.SameButCase s') : s.length = s'.length :=
  Lexicon.length_eq_of_lookupKey_eq h.words

theorem lookupKey_slice (h : s.SameButCase s') (span : Span) :
    lookupKey (s.slice span) = lookupKey (s'.slice span) := by
  have hwords : s.words.map Text.lowercase = s'.words.map Text.lowercase := h.words
  simp only [lookupKey, slice, List.map_take, List.map_drop, hwords]

theorem tag?_eq (h : s.SameButCase s') (i : Nat) : s.tag? i = s'.tag? i := by
  rw [tag?, tag?, h.tags]

theorem entriesFor_slice (h : s.SameButCase s') (lexicon : Lexicon) (span : Span) :
    lexicon.entriesFor (s.slice span) = lexicon.entriesFor (s'.slice span) := by
  rw [Lexicon.entriesFor, Lexicon.entriesFor, h.lookupKey_slice]

theorem lexicalEntries_eq (h : s.SameButCase s') (parser : Parser) (span : Span) :
    parser.lexicalEntries s span = parser.lexicalEntries s' span := by
  simp only [Parser.lexicalEntries, Parser.knownEntries, Parser.unknownEntries,
    h.entriesFor_slice, h.tag?_eq]

end Sentence.SameButCase

namespace Parser

variable {parser : Parser} {scorer : Scorer} {s s' : Sentence} {span : Span}

/-! ## Items -/

theorem terminalItems_lowered (hscorer : scorer.CaseBlind) (h : s.SameButCase s') :
    (parser.terminalItems scorer s span).map Item.lowered =
      (parser.terminalItems scorer s' span).map Item.lowered := by
  rw [terminalItems, terminalItems, List.map_map, List.map_map, h.lexicalEntries_eq]
  refine List.map_congr_left fun e _ => ?_
  simp only [Function.comp_apply, terminalItem, Item.lowered, Entry.lowered, h.lookupKey_slice,
    hscorer.lexical h]

theorem binaryItem_lowered (hscorer : scorer.CaseBlind) (split : Nat) (left right : Item)
    (combinator : Combinator) (c : Combination) :
    binaryItem scorer span split left.lowered right.lowered combinator c =
      (binaryItem scorer span split left right combinator c).lowered := by
  simp only [binaryItem, Item.lowered, Entry.lowered, hscorer.binary]

theorem binaryItems_lowered (hscorer : scorer.CaseBlind) (split : Nat) (lefts rights : Cell) :
    parser.binaryItems scorer span split (lefts.map Item.lowered) (rights.map Item.lowered) =
      (parser.binaryItems scorer span split lefts rights).map Item.lowered := by
  simp only [binaryItems, List.flatMap_map, List.map_flatMap, List.map_map]
  refine List.flatMap_congr fun left _ => List.flatMap_congr fun right _ => ?_
  simp only [Item.entry_lowered, Entry.sign_lowered]
  refine List.map_congr_left fun pair _ => ?_
  exact binaryItem_lowered hscorer split left right pair.1 pair.2

theorem unaryItems_lowered (hscorer : scorer.CaseBlind) (item : Item) :
    parser.unaryItems scorer item.lowered = (parser.unaryItems scorer item).map Item.lowered := by
  have hitem : ∀ rule c, unaryItem scorer item.lowered rule c =
      (unaryItem scorer item rule c).lowered := by
    intro rule c
    simp only [unaryItem, Item.lowered, Entry.lowered_withUnary, hscorer.unary]
  simp only [unaryItems, Item.entry_lowered, Entry.unary?_lowered, Entry.sign_lowered]
  split
  · rfl
  · rw [List.map_filterMap]
    refine List.filterMap_congr fun rule _ => ?_
    rw [Option.map_map]
    refine congrFun (congrArg Option.map (funext fun c => ?_)) _
    exact hitem rule c

/-! ## Cells of two charts -/

variable {chart chart' : Chart}

/-- One split after the other, from two cells that are alike. -/
theorem map_lowered_foldl_splits (hscorer : scorer.CaseBlind) (hfilter : chart.filter.CaseBlind)
    (hframe : chart.SameFrame chart') {splits : List (Span × Span)} {cell cell' : Cell}
    (hcell : cell.map Item.lowered = cell'.map Item.lowered)
    (hcells : ∀ l r, (l, r) ∈ splits →
      (chart.cell l).map Item.lowered = (chart'.cell l).map Item.lowered ∧
      (chart.cell r).map Item.lowered = (chart'.cell r).map Item.lowered) :
    (splits.foldl (fun cell split => chart.offerAll span cell (parser.binaryItems scorer span
      split.1.last (chart.cell split.1) (chart.cell split.2))) cell).map Item.lowered =
    (splits.foldl (fun cell split => chart'.offerAll span cell (parser.binaryItems scorer span
      split.1.last (chart'.cell split.1) (chart'.cell split.2))) cell').map Item.lowered := by
  induction splits generalizing cell cell' with
  | nil => exact hcell
  | cons split splits ih =>
    obtain ⟨l, r⟩ := split
    obtain ⟨hl, hr⟩ := hcells l r List.mem_cons_self
    refine ih (Chart.map_lowered_offerAll hfilter hframe span hcell ?_)
      fun l r hmem => hcells l r (List.mem_cons_of_mem _ hmem)
    rw [← binaryItems_lowered hscorer, ← binaryItems_lowered hscorer, hl, hr]

theorem map_lowered_combinedCell (hscorer : scorer.CaseBlind) (hfilter : chart.filter.CaseBlind)
    (h : s.SameButCase s') (hframe : chart.SameFrame chart')
    (hcells : ∀ l r, (l, r) ∈ span.splits →
      (chart.cell l).map Item.lowered = (chart'.cell l).map Item.lowered ∧
      (chart.cell r).map Item.lowered = (chart'.cell r).map Item.lowered) :
    (parser.combinedCell scorer s chart span).map Item.lowered =
      (parser.combinedCell scorer s' chart' span).map Item.lowered := by
  refine map_lowered_foldl_splits hscorer hfilter hframe ?_ hcells
  exact Chart.map_lowered_offerAll hfilter hframe span rfl (terminalItems_lowered hscorer h)

theorem map_lowered_finalCell (hscorer : scorer.CaseBlind) (hfilter : chart.filter.CaseBlind)
    (h : s.SameButCase s') (hframe : chart.SameFrame chart')
    (hcells : ∀ l r, (l, r) ∈ span.splits →
      (chart.cell l).map Item.lowered = (chart'.cell l).map Item.lowered ∧
      (chart.cell r).map Item.lowered = (chart'.cell r).map Item.lowered) :
    (parser.finalCell scorer s chart span).map Item.lowered =
      (parser.finalCell scorer s' chart' span).map Item.lowered := by
  have hcombined : (parser.combinedCell scorer s chart span).map Item.lowered =
      (parser.combinedCell scorer s' chart' span).map Item.lowered :=
    map_lowered_combinedCell hscorer hfilter h hframe hcells
  have hunary : ∀ cell : Cell, (cell.flatMap (parser.unaryItems scorer)).map Item.lowered =
      (cell.map Item.lowered).flatMap (parser.unaryItems scorer) := by
    intro cell
    rw [List.map_flatMap, List.flatMap_map]
    exact List.flatMap_congr fun item _ => (unaryItems_lowered hscorer item).symm
  dsimp only [finalCell]
  rw [← Cell.ranked_lowered, ← Cell.ranked_lowered]
  refine congrArg Cell.ranked (Chart.map_lowered_offerAll hfilter hframe span hcombined ?_)
  rw [hunary, hunary, hcombined]

/-! ## Whole charts -/

variable {filter : Filter}

/-- The charts of two sentences that differ in case only are the same but for the recorded words. -/
theorem map_lowered_cell (hscorer : scorer.CaseBlind) (hfilter : filter.CaseBlind)
    (h : s.SameButCase s') (span : Span) :
    ((parser.parseChart scorer s filter).cell span).map Item.lowered =
      ((parser.parseChart scorer s' filter).cell span).map Item.lowered := by
  have hframe : (parser.parseChart scorer s filter).SameFrame
      (parser.parseChart scorer s' filter) :=
    ⟨by simp only [length_parseChart, h.length_eq], by simp only [inference_parseChart],
      by simp only [filter_parseChart]⟩
  -- Every cell is made from cells of shorter spans, so the induction is on the extent of the span.
  induction hextent : span.extent using Nat.strong_induction_on generalizing span with
  | _ extent ih =>
    subst hextent
    by_cases hspan : span.Within s.length
    · rw [parseChart_cell hspan, parseChart_cell (h.length_eq ▸ hspan)]
      refine map_lowered_finalCell hscorer ?_ h hframe fun l r hsplit => ?_
      · rwa [filter_parseChart]
      · obtain ⟨hl, hr⟩ := Span.extent_lt_of_mem_splits hsplit
        exact ⟨ih _ hl l rfl, ih _ hr r rfl⟩
    · have hspan' : ¬ span.Within s'.length := h.length_eq ▸ hspan
      rw [Chart.cell_of_not_within (by rwa [length_parseChart]),
        Chart.cell_of_not_within (by rwa [length_parseChart])]

end Parser

/-! ## Scorers and filters that do not look at words -/

theorem Scorer.caseBlind_uniform : Scorer.uniform.CaseBlind where
  lexical _ _ _ := rfl
  binary _ _ _ _ := rfl
  unary _ _ := rfl

/-- A weight table looks at the words of lexical entries, but not at those of the sentence. -/
theorem WeightTable.caseBlind_toScorer (t : WeightTable) : t.toScorer.CaseBlind where
  lexical _ _ _ := rfl
  binary _ _ _ _ := rfl
  unary _ _ := rfl

namespace Filter

theorem caseBlind_none : none.CaseBlind := fun _ _ => rfl

theorem caseBlind_supertags (tags : List (List Headed)) : (supertags tags).CaseBlind := by
  intro e span
  simp only [supertags, Entry.category_lowered]

theorem Demand.metBy_lowered (d : Demand) (e : Entry) : d.metBy e.lowered = d.metBy e := by
  have hchild : ∀ demanded? (child : Entry),
      childAgrees demanded? child.lowered = childAgrees demanded? child := by
    intro demanded? child
    simp only [childAgrees, Entry.unary?_lowered, Entry.category_lowered]
  simp only [metBy, categoryAgrees, Entry.isTerminal_lowered, Entry.unary?_lowered,
    Entry.category_lowered, Entry.beforeUnary_lowered, Entry.children?_lowered]
  cases e.children? with
  | none => rfl
  | some children => simp only [Option.map_some, hchild]

theorem caseBlind_gold (t : GoldTree) : (gold t).CaseBlind := by
  intro e span
  simp only [gold, Demand.metBy_lowered]

end Filter

/-- Upper and lower case make no difference to a parse: the charts of two sentences whose words
    differ in case only, and whose tags are the same, have in every cell the same items in the same
    order, once the words that their entries record are in lower case. -/
theorem Parser.cell_lowered (parser : Parser) (scorer : Scorer) (filter : Filter) (s s' : Sentence)
    (hscorer : scorer = .uniform ∨ ∃ t : WeightTable, scorer = t.toScorer)
    (hfilter : filter = Filter.none ∨ (∃ tags, filter = Filter.supertags tags) ∨
      ∃ t, filter = Filter.gold t)
    (hwords : lookupKey s.words = lookupKey s'.words) (htags : s.tags? = s'.tags?) (span : Span) :
    ((parser.parseChart scorer s filter).cell span).map Item.lowered =
      ((parser.parseChart scorer s' filter).cell span).map Item.lowered := by
  have hscorer : scorer.CaseBlind := by
    obtain rfl | ⟨t, rfl⟩ := hscorer
    · exact Scorer.caseBlind_uniform
    · exact t.caseBlind_toScorer
  have hfilter : filter.CaseBlind := by
    obtain rfl | ⟨tags, rfl⟩ | ⟨t, rfl⟩ := hfilter
    · exact Filter.caseBlind_none
    · exact Filter.caseBlind_supertags tags
    · exact Filter.caseBlind_gold t
  exact map_lowered_cell hscorer hfilter ⟨hwords, htags⟩ span

/-- The sample sentence and the same words in other case have one analysis each; the analyses record
    different words, and otherwise they are the same. -/
theorem Parser.cell_lowered_sample :
    let chart := Grammar.sample.parser.parseChart .uniform .sample .none
    let chart' := Grammar.sample.parser.parseChart .uniform
      ⟨["DOGS", "Sleep"], some ["NNS", "VB"]⟩ .none
    (chart.cell ⟨0, 1⟩).map (·.entry.words) = [["Dogs", "sleep"]] ∧
    (chart'.cell ⟨0, 1⟩).map (·.entry.words) = [["DOGS", "Sleep"]] ∧
    (chart.cell ⟨0, 1⟩).map Item.lowered = (chart'.cell ⟨0, 1⟩).map Item.lowered := by
  refine ⟨by decide +kernel, by decide +kernel, ?_⟩
  have hwords : lookupKey Sentence.sample.words = lookupKey ["DOGS", "Sleep"] := by decide +kernel
  exact Parser.cell_lowered Grammar.sample.parser .uniform .none .sample
    ⟨["DOGS", "Sleep"], some ["NNS", "VB"]⟩ (.inl rfl) (.inl rfl) hwords rfl ⟨0, 1⟩

end Categorial
