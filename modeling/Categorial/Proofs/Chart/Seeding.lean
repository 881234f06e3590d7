/-
  Categorial.Proofs.Chart.Seeding

  The lexical items that a chart is seeded with.  A span gets the entries that are spelled as its
  words are, upper and lower case aside, in the order in which they were added; the bound on the
  length of what is looked up hides none of them (`knownEntries_eq`).  A single word without such
  entries gets those of the pseudo-word for its tag (`unknownEntries_eq`).  So a word is reported as
  uncovered just if it lies within no span that has entries and its tag has none either
  (`mem_uncovered`).
-/

import Categorial.Proofs.Chart.FillingOrder

namespace Categorial.Grammar

variable {g : Grammar} {sentence : Sentence} {span : Span}

/-! ## The entries for a span -/

/-- The entries that are spelled as some words are, upper and lower case aside, in the order in
    which they were added. -/
def spelled (g : Grammar) (words : List String) : List LexicalEntry :=
  g.entries.filter fun e => lookupKey e.words = lookupKey words

/-- The entries that stand in for an unknown word with this tag. -/
def standIns (g : Grammar) : Option String → List LexicalEntry
  | some tag => g.spelled [g.config.unknownMark ++ tag]
  | none => []

theorem entriesFor_eq (g : Grammar) (words : List String) :
    g.parser.lexicon.entriesFor words = g.spelled words :=
  Lexicon.entriesFor_ofList g.entries words

theorem knownEntries_eq (hspan : span.Within sentence.length) :
    g.parser.knownEntries sentence span = g.spelled (sentence.slice span) := by
  unfold Parser.knownEntries
  split
  · exact g.entriesFor_eq _
  · -- An entry for the words has as many words as the span, so it would be within the bound.
    rename_i hlong
    refine (List.eq_nil_iff_forall_not_mem.2 fun e he => ?_).symm
    obtain ⟨hmem, hkey⟩ := List.mem_filter.1 he
    have hknown := (mem_knownEntries hspan).2 ⟨hmem, of_decide_eq_true hkey⟩
    rw [Parser.knownEntries, if_neg hlong] at hknown
    cases hknown

theorem unknownEntries_eq (g : Grammar) (sentence : Sentence) (span : Span) :
    g.parser.unknownEntries sentence span =
      if span.start = span.last ∧ g.spelled (sentence.slice span) = []
      then g.standIns (sentence.tag? span.start) else [] := by
  unfold Parser.unknownEntries
  rw [entriesFor_eq]
  refine ite_congr rfl (fun _ => ?_) fun _ => rfl
  cases sentence.tag? span.start with
  | none => rfl
  | some tag => exact g.entriesFor_eq _

/-- Words with entries of their own, and more than one word, have no other entries. -/
theorem lexicalEntries_of_known (hspan : span.Within sentence.length)
    (hknown : span.start ≠ span.last ∨ g.spelled (sentence.slice span) ≠ []) :
    g.parser.lexicalEntries sentence span = g.spelled (sentence.slice span) := by
  have hnot : ¬ (span.start = span.last ∧ g.spelled (sentence.slice span) = []) := by tauto
  rw [Parser.lexicalEntries, knownEntries_eq hspan, unknownEntries_eq, if_neg hnot, List.append_nil]

/-- A single word without entries has those that stand in for it. -/
theorem lexicalEntries_of_unknown {i : Nat} (hi : i < sentence.length)
    (hunknown : g.spelled (sentence.slice ⟨i, i⟩) = []) :
    g.parser.lexicalEntries sentence ⟨i, i⟩ = g.standIns (sentence.tag? i) := by
  have hspan : Span.Within sentence.length ⟨i, i⟩ := ⟨Nat.le_refl i, hi⟩
  rw [Parser.lexicalEntries, knownEntries_eq hspan, unknownEntries_eq, if_pos ⟨rfl, hunknown⟩,
    hunknown, List.nil_append]

/-! ## The words that no entry covers -/

theorem lexicalEntries_eq_nil_iff (hspan : span.Within sentence.length) :
    g.parser.lexicalEntries sentence span = [] ↔
      g.spelled (sentence.slice span) = [] ∧
        (span.start = span.last → g.standIns (sentence.tag? span.start) = []) := by
  rw [Parser.lexicalEntries, List.append_eq_nil_iff, knownEntries_eq hspan, unknownEntries_eq]
  refine and_congr_right fun hnone => ?_
  by_cases hsingle : span.start = span.last
  · rw [if_pos ⟨hsingle, hnone⟩]
    exact ⟨fun h _ => h, fun h => h hsingle⟩
  · rw [if_neg fun h => hsingle h.1]
    exact iff_of_true rfl fun h => absurd h hsingle

theorem mem_uncovered {i : Nat} :
    i ∈ g.parser.uncovered sentence ↔ i < sentence.length ∧
      (∀ span : Span, span.Within sentence.length → span.start ≤ i → i ≤ span.last →
        g.spelled (sentence.slice span) = []) ∧
      g.standIns (sentence.tag? i) = [] := by
  have hcovered : i ∈ g.parser.uncovered sentence ↔ i < sentence.length ∧
      ∀ span : Span, span.Within sentence.length → span.start ≤ i → i ≤ span.last →
        g.parser.lexicalEntries sentence span = [] := by
    simp only [Parser.uncovered, List.mem_filter, List.mem_range, Bool.not_eq_true',
      List.any_eq_false, Span.mem_within, List.isEmpty_eq_false_iff, Bool.and_eq_true,
      decide_eq_true_eq, not_and]
    refine and_congr_right fun _ => ⟨fun h span hspan hstart hlast => ?_, fun h span hmem => ?_⟩
    · by_contra hne
      exact h span ⟨hspan, hne⟩ hstart hlast
    · intro hstart hlast
      exact hmem.2 (h span hmem.1 hstart hlast)
  rw [hcovered]
  refine and_congr_right fun hi => ⟨fun h => ⟨fun span hspan hstart hlast => ?_, ?_⟩, ?_⟩
  · exact ((lexicalEntries_eq_nil_iff hspan).1 (h span hspan hstart hlast)).1
  · -- The word by itself is a span too.
    have hspan : Span.Within sentence.length ⟨i, i⟩ := ⟨Nat.le_refl i, hi⟩
    have hnone := h ⟨i, i⟩ hspan (Nat.le_refl i) (Nat.le_refl i)
    exact ((lexicalEntries_eq_nil_iff hspan).1 hnone).2 rfl
  · rintro ⟨hspelled, hstandIns⟩ span hspan hstart hlast
    refine (lexicalEntries_eq_nil_iff hspan).2 ⟨hspelled span hspan hstart hlast, fun hsingle => ?_⟩
    -- A single word that holds the position is the word at the position.
    have hpos : span.start = i := by omega
    rw [hpos]
    exact hstandIns

theorem uncovered_ascending (g : Grammar) (sentence : Sentence) :
    (g.parser.uncovered sentence).Pairwise (· < ·) :=
  List.Pairwise.filter _ List.pairwise_lt_range

/-! ## Seeding a chart -/

/-- In whatever order the spans are gone through, seeding fails nowhere and offers each cell just
    these lexical items, in this order: the entries that are spelled as the words of the span are,
    and for a single word without such entries those of the pseudo-word for its tag, if it has a
    tag. The words reported as uncovered are, in ascending order, those that lie within no span that
    has entries and have none by their tag. -/
theorem seed_exact (g : Grammar) (scorer : Scorer) (sentence : Sentence) (filter : Filter)
    (spans : List Span) (hspans : spans.Perm (Span.within sentence.length)) :
    (∃ seeded,
      g.parser.seed scorer sentence (.empty sentence.length g.config.inference filter) spans =
        .ok seeded ∧
      ∀ span : Span, span.Within sentence.length →
        seeded.cell span =
          (Chart.empty sentence.length g.config.inference filter).offerAll span []
            ((g.parser.lexicalEntries sentence span).map
              (Parser.terminalItem scorer sentence span))) ∧
    (∀ span : Span, span.Within sentence.length →
      span.start ≠ span.last ∨ g.spelled (sentence.slice span) ≠ [] →
        g.parser.lexicalEntries sentence span = g.spelled (sentence.slice span)) ∧
    (∀ i < sentence.length, g.spelled (sentence.slice ⟨i, i⟩) = [] →
      g.parser.lexicalEntries sentence ⟨i, i⟩ =
        match sentence.tag? i with
        | some tag => g.spelled [g.config.unknownMark ++ tag]
        | none => []) ∧
    (g.parser.uncovered sentence).Pairwise (· < ·) ∧
    ∀ i, i ∈ g.parser.uncovered sentence ↔ i < sentence.length ∧
      (∀ span : Span, span.Within sentence.length → span.start ≤ i → i ≤ span.last →
        g.spelled (sentence.slice span) = []) ∧
      ∀ tag, sentence.tag? i = some tag → g.spelled [g.config.unknownMark ++ tag] = [] := by
  have hmem : ∀ s, s ∈ spans ↔ s.Within sentence.length :=
    fun s => hspans.mem_iff.trans Span.mem_within
  obtain ⟨seeded, hseed, -, -, hcells, -⟩ :=
    Parser.seed_eq g.parser scorer sentence
      (Chart.wellFormed_empty sentence.length g.config.inference filter)
      (hspans.nodup_iff.2 (Span.within_nodup _)) (fun s hs => (hmem s).1 hs)
      fun s _ => Chart.cell_empty _ _ _ s
  refine ⟨⟨seeded, hseed, fun span hspan => hcells span ((hmem span).2 hspan)⟩,
    fun span hspan => lexicalEntries_of_known hspan, fun i hi hunknown => ?_,
    uncovered_ascending g sentence, fun i => ?_⟩
  · rw [lexicalEntries_of_unknown hi hunknown]
    cases sentence.tag? i <;> rfl
  · rw [mem_uncovered]
    cases sentence.tag? i <;> simp [standIns]

/-- The spans of two words, the longest first. -/
theorem seed_exact_sample :
    (Span.within Sentence.sample.length).reverse.Perm (Span.within Sentence.sample.length) ∧
    (∃ seeded,
      sample.parser.seed .uniform Sentence.sample
        (.empty Sentence.sample.length sample.config.inference Filter.none)
        (Span.within Sentence.sample.length).reverse = .ok seeded) ∧
    sample.parser.lexicalEntries Sentence.sample ⟨0, 0⟩ = sample.spelled ["UNK-NNS"] ∧
    ∀ i, i ∈ sample.parser.uncovered Sentence.sample ↔ i < 2 ∧
      (∀ span : Span, span.Within 2 → span.start ≤ i → i ≤ span.last →
        sample.spelled (Sentence.sample.slice span) = []) ∧
      ∀ tag, Sentence.sample.tag? i = some tag → sample.spelled ["UNK-" ++ tag] = [] := by
  have hspans := List.reverse_perm (Span.within Sentence.sample.length)
  obtain ⟨⟨seeded, hseed, -⟩, -, hunknown, -, huncovered⟩ :=
    seed_exact sample .uniform Sentence.sample Filter.none _ hspans
  refine ⟨hspans, ⟨seeded, hseed⟩, ?_, huncovered⟩
  exact hunknown 0 (by decide) (by decide +kernel)

end Categorial.Grammar
