/-
  Categorial.Proofs.Chart.Soundness

  Every item of a finished chart replays.  Its record agrees, step by step, with what the grammar
  does: the words and the sign of a lexical entry, or one of the combinations of its two children,
  and on top of it at most one unary rule.  The children are items that the finished chart still
  has, with the probabilities that were used (`replays_of_mem_cell`), so the same holds of every
  part of a derivation (`parts_of_mem_cell`).  This needs no assumption on the way of inference:
  what a beam has thrown out was not there when a longer span was filled.
-/

import Categorial.Proofs.Chart.Filling
import Categorial.Proofs.Chart.Origin
import Categorial.Proofs.Derivation

namespace Categorial

namespace Entry

/-! ## Records of steps -/

/-- An entry with another record at its node. -/
def withNode (n : Node) : Entry → Entry
  | .terminal _ lexical words => .terminal n lexical words
  | .binary _ combinator split l lp r rp => .binary n combinator split l lp r rp

theorem withNode_node (e : Entry) : e.withNode e.node = e := by
  cases e <;> rfl

theorem withNode_withUnary (n : Node) (rule : UnaryRule) (c : Combination) (e : Entry) :
    (e.withUnary rule c).withNode n = e.withNode n := by
  cases e <;> rfl

end Entry

namespace Parser

variable (parser : Parser) (scorer : Scorer) (sentence : Sentence) (chart : Chart) (span : Span)

/-- Before any unary rule, an entry of a span comes about by combination `c` and has
    probability `p`. -/
def ReplaysStep (c : Combination) (p : Float) : Entry → Prop
  -- The record at the node is not looked at here: a unary rule may have replaced it.
  | .terminal _ lexical words =>
    lexical ∈ parser.lexicalEntries sentence span ∧
    words = sentence.slice span ∧
    c = lexical.category.signAt span.last ∧
    p = (scorer.lexical sentence span lexical).toFloat * scorer.dependencies c.filled
  | .binary _ combinator split left leftProbability right rightProbability =>
    (span.start ≤ split ∧ split < span.last) ∧
    ⟨left, leftProbability⟩ ∈ chart.cell ⟨span.start, split⟩ ∧
    ⟨right, rightProbability⟩ ∈ chart.cell ⟨split + 1, span.last⟩ ∧
    (combinator, c) ∈ parser.config.combinators.combine left.sign right.sign ∧
    p = leftProbability * rightProbability * (scorer.binary combinator left right c.sign).toFloat *
      scorer.dependencies c.filled

/-- The record of an entry with probability `p`, when its combination was `c` with probability
    `q`: that of the combination, or that of a unary rule on top of it. -/
def ReplaysNode (e : Entry) (p : Float) (c : Combination) (q : Float) : Prop :=
  match e.node.unary? with
  | none =>
    e.node.sign = c.sign ∧ e.node.filled = c.filled ∧ e.node.abandoned = c.abandoned ∧ p = q
  | some step =>
    step.rule ∈ parser.rules ∧ step.input = c.sign.category ∧
    ∃ u, step.rule.apply parser.config.features c.sign = some u ∧
      e.node.sign = u.sign ∧
      e.node.filled = c.filled ++ u.filled ∧
      e.node.abandoned = c.abandoned ++ u.abandoned ∧
      p = q * (scorer.unary step.rule
          (e.withNode ⟨c.sign, span, none, c.filled, c.abandoned⟩)).toFloat *
        scorer.dependencies u.filled

/-- What is true of an item in the cell of a span. -/
structure Replays (filter : Filter) (item : Item) : Prop where
  span_eq : item.entry.span = span
  step : ∃ c q, parser.ReplaysStep scorer sentence chart span c q item.entry ∧
    parser.ReplaysNode scorer span item.entry item.probability c q
  accepted : filter item.entry span = true
  positive : 0 < item.probability

variable {parser scorer sentence chart span}

/-! ## One cell -/

theorem Combined.replaysStep {it : Item} (h : parser.Combined scorer sentence chart span it) :
    ∃ c, parser.ReplaysStep scorer sentence chart span c it.probability it.entry ∧
      it.entry.node = .ofCombination c span := by
  cases h with
  | @terminal lexical h =>
    exact ⟨lexical.category.signAt span.last, ⟨h, rfl, rfl, rfl⟩, rfl⟩
  | @binary split left right combinator c hstart hlast hleft hright h =>
    exact ⟨c, ⟨⟨hstart, hlast⟩, hleft, hright, h, rfl⟩, rfl⟩

theorem replaysStep_withUnary {c : Combination} {p : Float} {e : Entry} (rule : UnaryRule)
    (u : Combination) (h : parser.ReplaysStep scorer sentence chart span c p e) :
    parser.ReplaysStep scorer sentence chart span c p (e.withUnary rule u) := by
  cases e <;> exact h

theorem replaysNode_of_combination {e : Entry} {c : Combination} (p : Float)
    (h : e.node = .ofCombination c span) : parser.ReplaysNode scorer span e p c p := by
  rw [ReplaysNode, h]
  exact ⟨rfl, rfl, rfl, rfl⟩

theorem Raised.replaysNode {base it : Item} {c : Combination}
    (hnode : base.entry.node = .ofCombination c span) (h : parser.Raised scorer base it) :
    parser.ReplaysNode scorer span it.entry it.probability c base.probability := by
  cases h with
  | @intro rule u _ hrule h =>
    have hsign : base.entry.sign = c.sign := by rw [Entry.sign, hnode, Node.ofCombination]
    -- Taking the unary rule off the entry gives the entry that the rule was applied to.
    have hbase : (base.entry.withUnary rule u).withNode (.ofCombination c span) = base.entry := by
      rw [Entry.withNode_withUnary, ← hnode, Entry.withNode_node]
    rw [ReplaysNode, unaryItem, Entry.node_withUnary, hnode]
    refine ⟨hrule, rfl, u, hsign ▸ h, rfl, rfl, rfl, ?_⟩
    show base.probability * (scorer.unary rule base.entry).toFloat * scorer.dependencies u.filled =
      base.probability * (scorer.unary rule ((base.entry.withUnary rule u).withNode
        (.ofCombination c span))).toFloat * scorer.dependencies u.filled
    rw [hbase]

theorem replays_of_mem_finalCell {item : Item}
    (h : item ∈ parser.finalCell scorer sentence chart span) :
    parser.Replays scorer sentence chart span chart.filter item := by
  obtain ⟨hadm, h⟩ := mem_finalCell h
  obtain ⟨hpos, haccepted⟩ := Chart.admits_iff.1 hadm
  rcases h with h | ⟨base, hbase, h⟩
  · obtain ⟨c, hstep, hnode⟩ := h.replaysStep
    have hreplays : parser.ReplaysNode scorer span item.entry item.probability c
        item.probability := replaysNode_of_combination _ hnode
    exact ⟨h.span_eq, ⟨c, item.probability, hstep, hreplays⟩, haccepted, hpos⟩
  · -- The step of the base is read off the raised entry, which differs from it at its node only.
    have hcombined := (mem_combinedCell hbase).1
    obtain ⟨c, hstep, hnode⟩ := hcombined.replaysStep
    have hreplays := h.replaysNode hnode
    have hspan := h.span_eq.trans hcombined.span_eq
    cases h with
    | @intro rule u _ hrule h =>
      exact ⟨hspan, ⟨c, base.probability, replaysStep_withUnary rule u hstep, hreplays⟩,
        haccepted, hpos⟩

end Parser

/-! ## Whole derivations -/

/-- The items of a derivation with probability `p`: itself, and those that it was made of with the
    probabilities they were used with. -/
def Entry.parts : Entry → (p : Float) → List Item
  | e@(.terminal _ _ _), p => [⟨e, p⟩]
  | e@(.binary _ _ _ l lp r rp), p => ⟨e, p⟩ :: (l.parts lp ++ r.parts rp)

def Item.parts (item : Item) : List Item := item.entry.parts item.probability

namespace Parser

variable {parser : Parser} {scorer : Scorer} {sentence : Sentence} {filter : Filter} {span : Span}

theorem replays_of_mem_cell {item : Item}
    (h : item ∈ (parser.parseChart scorer sentence filter).cell span) :
    parser.Replays scorer sentence (parser.parseChart scorer sentence filter) span filter item := by
  have hspan := Chart.within_of_mem_cell h
  rw [length_parseChart] at hspan
  rw [parseChart_cell hspan] at h
  have hreplays := replays_of_mem_finalCell h
  rwa [filter_parseChart] at hreplays

/-- The analyses of a sentence are items of the cell for all its words. -/
theorem mem_cell_of_mem_parse {item : Item} (h : item ∈ parser.parse scorer sentence filter) :
    item ∈ (parser.parseChart scorer sentence filter).cell ⟨0, sentence.length - 1⟩ := by
  unfold parse at h
  split at h
  · cases h
  · dsimp only at h
    split at h
    · exact Cell.mem_ranked.1 (List.mem_of_mem_take h)
    · exact Cell.mem_ranked.1 h

/-- If no limit cuts the list of analyses short, they are all items of that cell. -/
theorem mem_parse_of_mem_cell {item : Item}
    (hlimit : ∀ n, parser.config.maxParses? = some n →
      ((parser.parseChart scorer sentence filter).cell ⟨0, sentence.length - 1⟩).length ≤ n)
    (h : item ∈ (parser.parseChart scorer sentence filter).cell ⟨0, sentence.length - 1⟩) :
    item ∈ parser.parse scorer sentence filter := by
  have hspan := Chart.within_of_mem_cell h
  rw [length_parseChart] at hspan
  have hlength : sentence.length ≠ 0 := Nat.ne_of_gt (Nat.zero_lt_of_lt hspan.2)
  unfold parse
  rw [if_neg hlength]
  dsimp only
  split
  · rename_i n hn
    rw [List.take_of_length_le (by rw [(Cell.ranked_perm _).length_eq]; exact hlimit n hn)]
    exact Cell.mem_ranked.2 h
  · exact Cell.mem_ranked.2 h

/-- The parts of a derivation in the chart are all in the chart, in the cells of their spans. -/
theorem parts_of_mem_cell {e : Entry} {p : Float}
    (h : ⟨e, p⟩ ∈ (parser.parseChart scorer sentence filter).cell span) :
    ∀ part ∈ e.parts p,
      part ∈ (parser.parseChart scorer sentence filter).cell part.entry.span := by
  -- What the induction needs of the item itself has to be there before the entry is taken apart.
  have hreplays := replays_of_mem_cell h
  have hself : (⟨e, p⟩ : Item) ∈ (parser.parseChart scorer sentence filter).cell e.span := by
    have hspan : e.span = span := hreplays.span_eq
    rwa [hspan]
  -- Each child lies in the cell that its parent was made from: the induction goes down the entry.
  induction e generalizing p span with
  | terminal n lexical words =>
    intro part hpart
    rw [Entry.parts, List.mem_singleton] at hpart
    rwa [hpart]
  | binary n combinator split l lp r rp ihl ihr =>
    obtain ⟨c, q, ⟨-, hleft, hright, -, -⟩, -⟩ := hreplays.step
    intro part hpart
    rw [Entry.parts, List.mem_cons, List.mem_append] at hpart
    rcases hpart with rfl | hpart | hpart
    · exact hself
    · have hl := replays_of_mem_cell hleft
      exact ihl hleft hl (hl.span_eq ▸ hleft) part hpart
    · have hr := replays_of_mem_cell hright
      exact ihr hright hr (hr.span_eq ▸ hright) part hpart

/-- Every item of a finished chart replays, and so does every part of it, from the items that the
    chart has in the end. -/
theorem parts_replay_of_mem_parseChart (parser : Parser) (scorer : Scorer) (sentence : Sentence)
    (filter : Filter) (span : Span) (item : Item)
    (h : item ∈ (parser.parseChart scorer sentence filter).cell span) :
    parser.Replays scorer sentence (parser.parseChart scorer sentence filter) span filter item ∧
      ∀ part ∈ item.parts,
        part ∈ (parser.parseChart scorer sentence filter).cell part.entry.span ∧
        parser.Replays scorer sentence (parser.parseChart scorer sentence filter) part.entry.span
          filter part := by
  refine ⟨replays_of_mem_cell h, fun part hpart => ?_⟩
  have hmem := parts_of_mem_cell h part hpart
  exact ⟨hmem, replays_of_mem_cell hmem⟩

theorem parts_replay_of_mem_parseChart_sample :
    ∃ item ∈ (Grammar.sample.parser.parseChart .uniform .sample .none).cell ⟨0, 1⟩,
      Grammar.sample.parser.Replays .uniform .sample
        (Grammar.sample.parser.parseChart .uniform .sample .none) ⟨0, 1⟩ .none item ∧
      item.parts.length = 3 := by
  have hcell : ((Grammar.sample.parser.parseChart .uniform .sample .none).cell ⟨0, 1⟩).map
      (·.parts.length) = [3] := by decide +kernel
  obtain ⟨item, hmem, hparts⟩ := List.mem_map.1 (hcell ▸ List.mem_singleton_self 3)
  exact ⟨item, hmem, (parts_replay_of_mem_parseChart _ _ _ _ _ item hmem).1, hparts⟩

end Parser

end Categorial
