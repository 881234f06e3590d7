/-
  Categorial.Proofs.GoldTree.Coverage

  Which derivations are found under a gold tree.  A derivation that agrees with the tree passes the
  filter at each of its steps, but a cell keeps one item per sign, and the filter asks how the
  children of an item were derived.  So a derivation is found if none of its parts is `Shadowed`:
  where a child ends in a unary rule, no derivation without the rule has the same sign and fits the
  same node (`exists_mem_cell_of_fits`).  A child that is shadowed is lost, since the derivation
  without the rule is there first, and the parent does not take that one.

  The weights are uniform: then every item has probability one, no product comes out as zero, and of
  two items with one sign the one that is offered first is kept.
-/

import Categorial.Proofs.Chart.Completeness
import Categorial.Proofs.GoldTree.Agreement

namespace Categorial

/-! ## Uniform weights -/

theorem Scorer.dependencies_uniform (ds : List Dependency) : uniform.dependencies ds = 1.0 := by
  have hone : (1.0 : Float) * Weight.one.toFloat = 1.0 := by decide +kernel
  induction ds with
  | nil => rfl
  | cons d ds ih =>
    rw [dependencies, List.foldl_cons]
    exact (congrArg (List.foldl _ · ds) hone).trans ih

namespace Parser

variable {parser : Parser} {sentence : Sentence} {filter : Filter} {chart : Chart} {span : Span}

theorem probability_uniform_of_replaysStep {e : Entry} {c : Combination} {p : Float}
    (h : parser.ReplaysStep .uniform sentence chart span c p e)
    (hparts : ∀ part : Span, part.extent < span.extent →
      ∀ it ∈ chart.cell part, it.probability = 1.0) : p = 1.0 := by
  cases e with
  | terminal n lexical words =>
    obtain ⟨-, -, -, rfl⟩ := h
    rw [Scorer.dependencies_uniform]
    show Weight.one.toFloat * 1.0 = 1.0
    decide +kernel
  | binary n combinator split left lp right rp =>
    obtain ⟨⟨hstart, hlast⟩, hleft, hright, -, rfl⟩ := h
    have hextent := Span.extent_lt_of_mem_splits
      (Span.mem_splits.2 ⟨split, hstart, hlast, rfl, rfl⟩)
    have hlp : lp = 1.0 := hparts _ hextent.1 _ hleft
    have hrp : rp = 1.0 := hparts _ hextent.2 _ hright
    rw [hlp, hrp, Scorer.dependencies_uniform]
    show 1.0 * 1.0 * Weight.one.toFloat * 1.0 = (1.0 : Float)
    decide +kernel

theorem probability_unaryItem_uniform {base : Item} (h : base.probability = 1.0)
    (rule : UnaryRule) (c : Combination) : (unaryItem .uniform base rule c).probability = 1.0 := by
  rw [unaryItem, h, Scorer.dependencies_uniform]
  show 1.0 * Weight.one.toFloat * 1.0 = (1.0 : Float)
  decide +kernel

/-- With uniform weights no item is more probable than another. -/
theorem probability_uniform {it : Item}
    (h : it ∈ (parser.parseChart .uniform sentence filter).cell span) : it.probability = 1.0 := by
  -- The parts of a combination lie in the cells of shorter spans.
  induction hn : span.extent using Nat.strongRecOn generalizing span it with
  | ind n ih =>
    have hspan := Chart.within_of_mem_cell h
    rw [length_parseChart] at hspan
    rw [parseChart_cell hspan] at h
    have hcombined : ∀ it : Item,
        parser.Combined .uniform sentence (parser.parseChart .uniform sentence filter) span it →
          it.probability = 1.0 := by
      intro it hit
      obtain ⟨c, hstep, -⟩ := hit.replaysStep
      exact probability_uniform_of_replaysStep hstep
        fun part hpart it hit => ih part.extent (hn ▸ hpart) hit rfl
    obtain ⟨-, h | ⟨base, hbase, h⟩⟩ := mem_finalCell h
    · exact hcombined it h
    · cases h with
      | intro hbare hrule h =>
        exact probability_unaryItem_uniform (hcombined base (mem_combinedCell hbase).1) _ _

theorem Combined.probability_uniform {it : Item}
    (h : parser.Combined .uniform sentence (parser.parseChart .uniform sentence filter) span it) :
    it.probability = 1.0 := by
  obtain ⟨c, hstep, -⟩ := h.replaysStep
  exact probability_uniform_of_replaysStep hstep fun _ _ _ hit => Parser.probability_uniform hit

end Parser

/-! ## Meeting demands -/

namespace Filter

variable {t : GoldTree} {e : Entry}

theorem metBy_of_bare (hbare : e.unary? = .none) (hleaf : t.isLeaf = e.isTerminal)
    (hcategory : t.category.beforeUnary.accepts e.category = true)
    (hheaded : ∀ c, t.headed? = some c → e.category = c)
    (hchildren : ∀ l r, e.children? = some (l, r) →
      childAgrees (demandOf t).leftUnary? l = true ∧
      childAgrees (demandOf t).rightUnary? r = true) :
    (demandOf t).metBy e = true := by
  have hbefore : e.beforeUnary = e.category := by rw [Entry.beforeUnary, hbare]
  simp only [Demand.metBy, Bool.and_eq_true, beq_iff_eq, terminal_demandOf, category_demandOf,
    headed?_demandOf, categoryAgrees, hbare, hbefore]
  refine ⟨⟨⟨hleaf, hcategory⟩, ?_⟩, ?_⟩
  · split
    · rename_i l r heq
      exact Bool.and_eq_true_iff.2 (hchildren l r heq)
    · rfl
  · split
    · rename_i c heq
      exact beq_iff_eq.2 (hheaded c heq)
    · rfl

/-- Where the tree has a unary rule, it may be applied to what is let in without it. -/
theorem metBy_withUnary {rule : UnaryRule} {c : Combination} (h : (demandOf t).metBy e = true)
    (hbare : e.unary? = .none) (hunary : t.category.hasUnary = true)
    (hcategory : t.category.category.accepts c.sign.category = true) :
    (demandOf t).metBy (e.withUnary rule c) = true := by
  have hstep : (e.withUnary rule c).unary? = some ⟨rule, e.category⟩ := by
    rw [Entry.unary?, Entry.node_withUnary]
    rfl
  have hafter : (e.withUnary rule c).category = c.sign.category := by
    rw [Entry.category, Entry.sign, Entry.node_withUnary]
    rfl
  have hterminal : (e.withUnary rule c).isTerminal = e.isTerminal := by cases e <;> rfl
  have hchildren : (e.withUnary rule c).children? = e.children? := by cases e <;> rfl
  simp only [Demand.metBy, Bool.and_eq_true, categoryAgrees, category_demandOf, Entry.beforeUnary,
    hbare] at h
  obtain ⟨⟨⟨hleaf, hbefore⟩, hagree⟩, hheaded⟩ := h
  simp only [Demand.metBy, Bool.and_eq_true, categoryAgrees, category_demandOf, Entry.beforeUnary,
    hstep, hterminal, hchildren, hafter]
  exact ⟨⟨⟨hleaf, ⟨hunary, hcategory⟩, hbefore⟩, hagree⟩, hheaded⟩

theorem childAgrees_of_unary (hunary : e.unary?.isSome = t.category.hasUnary) (h : e.Suits t) :
    childAgrees (unaryResult? t) e = true := by
  unfold childAgrees unaryResult?
  cases hstep : e.unary? with
  | none =>
    have hgold : ¬ t.category.hasUnary = true := by
      rw [← hunary, hstep]
      exact Bool.false_ne_true
    rw [if_neg hgold]
  | some step =>
    have hafter := h.after (by rw [hstep]; rfl)
    rw [Category.accepts_plain] at hafter
    have hgold : t.category.hasUnary = true := by
      rw [← hunary, hstep]
      rfl
    rw [if_pos hgold]
    exact hafter

end Filter

/-! ## Derivations along a tree -/

namespace Derivation

variable {g : Grammar} {sentence : Sentence} {raised : Bool} {span : Span} {sign : Sign}
variable {t : GoldTree}

/-- A derivation has the shape and the categories of a gold tree, and unary rules just where the
    tree has them, except that the one at the root may be missing. -/
def Fits {raised : Bool} {span : Span} {sign : Sign} :
    Derivation g sentence raised span sign → GoldTree → Prop
  | lexical span e _ _, .leaf gold s _ _ headed? =>
    span = s ∧ gold.beforeUnary.accepts (e.category.signAt span.last).sign.category = true ∧
      ∀ c ∈ headed?, (e.category.signAt span.last).sign.category = c
  | @binary _ _ start _ last raised raised' _ _ _ c left right _, .branch gold s l r =>
    ⟨start, last⟩ = s ∧ gold.beforeUnary.accepts c.sign.category = true ∧
      (left.Fits l ∧ raised = l.category.hasUnary) ∧
      (right.Fits r ∧ raised' = r.category.hasUnary)
  | unary _ c base _ _, t =>
    base.Fits t ∧ t.category.hasUnary = true ∧ t.category.category.accepts c.sign.category = true
  | _, _ => False

instance decidableFits {raised : Bool} {span : Span} {sign : Sign} :
    (d : Derivation g sentence raised span sign) → (t : GoldTree) → Decidable (d.Fits t)
  | lexical _ _ _ _, .leaf _ _ _ _ _ => inferInstanceAs (Decidable (_ ∧ _ ∧ ∀ c ∈ _, _ = c))
  | binary _ _ left right _, .branch _ _ l r =>
    have := decidableFits left l
    have := decidableFits right r
    inferInstanceAs (Decidable (_ ∧ _ ∧ (_ ∧ _) ∧ (_ ∧ _)))
  | unary _ _ base _ _, t =>
    have := decidableFits base t
    inferInstanceAs (Decidable (_ ∧ _ ∧ _))
  | lexical _ _ _ _, .branch _ _ _ _ => isFalse id
  | binary _ _ _ _ _, .leaf _ _ _ _ _ => isFalse id

/-- A derivation agrees with a gold tree at every node. -/
def Agrees (d : Derivation g sentence raised span sign) (t : GoldTree) : Prop :=
  d.Fits t ∧ raised = t.category.hasUnary

instance (d : Derivation g sentence raised span sign) (t : GoldTree) : Decidable (d.Agrees t) :=
  inferInstanceAs (Decidable (_ ∧ _))

/-- A derivation ends in a unary rule, and one without the rule has the same sign and fits too. -/
def Shadowed (_ : Derivation g sentence raised span sign) (t : GoldTree) : Prop :=
  raised = true ∧ ∃ other : Derivation g sentence false span sign, other.Fits t

/-- No proper part of a derivation is shadowed. -/
def Clear {raised : Bool} {span : Span} {sign : Sign} :
    Derivation g sentence raised span sign → GoldTree → Prop
  | binary _ _ left right _, .branch _ _ l r =>
    (left.Clear l ∧ ¬ left.Shadowed l) ∧ right.Clear r ∧ ¬ right.Shadowed r
  | unary _ _ base _ _, t => base.Clear t
  | _, _ => True

theorem Fits.span_eq {d : Derivation g sentence raised span sign} (h : d.Fits t) :
    span = t.span := by
  induction d with
  | lexical span e hspan hmatches =>
    cases t with
    | leaf => exact h.1
    | branch => cases h
  | binary combinator c left right hc ihl ihr =>
    cases t with
    | leaf => cases h
    | branch => exact h.1
  | unary rule c base hrule hc ih => exact ih h.1

theorem Fits.accepts {d : Derivation g sentence raised span sign} (h : d.Fits t)
    (hbare : raised = false) : t.category.beforeUnary.accepts sign.category = true := by
  cases d with
  | lexical e hspan hmatches =>
    cases t with
    | leaf => exact h.2.1
    | branch => cases h
  | binary combinator c left right hc =>
    cases t with
    | leaf => cases h
    | branch => exact h.2.1
  | unary rule c base hrule hc => cases hbare

/-- In a tree whose unary rules change the category for good, no derivation is shadowed. -/
theorem not_shadowed_of_category (d : Derivation g sentence raised span sign)
    (h : t.category.beforeUnary.accepts sign.category = false) : ¬ d.Shadowed t := by
  rintro ⟨-, other, hother⟩
  rw [hother.accepts rfl] at h
  cases h

end Derivation

/-! ## Charts under a tree -/

namespace Grammar

variable {g : Grammar} {sentence : Sentence} {span : Span} {t n : GoldTree}

/-- The chart of a sentence under a gold tree. -/
def goldChart (g : Grammar) (sentence : Sentence) (t : GoldTree) : Chart :=
  g.parser.parseChart .uniform sentence (Filter.gold t)

/-- The cell of a span under a gold tree before its unary rules. -/
def goldCombined (g : Grammar) (sentence : Sentence) (t : GoldTree) (span : Span) : Cell :=
  g.parser.combinedCell .uniform sentence (g.goldChart sentence t) span

theorem inference_goldChart (hexact : g.config.inference = .exact) :
    (g.goldChart sentence t).inference = .exact :=
  Parser.inference_parseChart.trans hexact

theorem cell_goldChart (hspan : span.Within sentence.length) :
    (g.goldChart sentence t).cell span =
      g.parser.finalCell .uniform sentence (g.goldChart sentence t) span :=
  Parser.parseChart_cell hspan

theorem admits_goldChart_iff (ht : t.Spanned) (hfind : t.find? span = some n) {it : Item} :
    (g.goldChart sentence t).admits it span = true ↔
      0 < it.probability ∧ (Filter.demandOf n).metBy it.entry = true := by
  rw [Chart.admits_iff, goldChart, Parser.filter_parseChart, Filter.gold_eq_true_iff ht, hfind]
  simp only [Option.some.injEq, exists_eq_left']

theorem admits_goldChart (ht : t.Spanned) (hfind : t.find? span = some n) {it : Item}
    (hprobability : it.probability = 1.0) (hmet : (Filter.demandOf n).metBy it.entry = true) :
    (g.goldChart sentence t).admits it span = true := by
  refine (admits_goldChart_iff ht hfind).2 ⟨?_, hmet⟩
  rw [hprobability]
  decide +kernel

/-- An item that meets the demand at its span leaves its sign in the cell, also before the unary
    rules are tried. -/
theorem exists_mem_of_combined (ht : t.Spanned) (hexact : g.config.inference = .exact)
    (hspan : span.Within sentence.length) (hfind : t.find? span = some n) {it : Item}
    (h : g.parser.Combined .uniform sentence (g.goldChart sentence t) span it)
    (hmet : (Filter.demandOf n).metBy it.entry = true) :
    (∃ b ∈ g.goldCombined sentence t span, b.entry.sign = it.entry.sign) ∧
      ∃ b ∈ (g.goldChart sentence t).cell span, b.entry.sign = it.entry.sign := by
  have hadm : (g.goldChart sentence t).admits it span = true :=
    admits_goldChart ht hfind h.probability_uniform hmet
  have hcombined := Parser.covers_combinedCell (inference_goldChart hexact) h hadm
  have hfinal := Parser.covers_finalCell (inference_goldChart hexact)
    (Chart.admits_iff.1 hadm).1 hcombined
  rw [← cell_goldChart hspan] at hfinal
  obtain ⟨b, hb, hbsign, -⟩ := hcombined
  obtain ⟨b', hb', hbsign', -⟩ := hfinal
  exact ⟨⟨b, hb, hbsign⟩, b', hb', hbsign'⟩

/-- So does an item that comes by a unary rule of the tree from one that was there before. -/
theorem exists_mem_of_raised (ht : t.Spanned) (hexact : g.config.inference = .exact)
    (hspan : span.Within sentence.length) (hfind : t.find? span = some n) {base it : Item}
    (hbase : base ∈ g.goldCombined sentence t span) (h : g.parser.Raised .uniform base it)
    (hunary : n.category.hasUnary = true)
    (hcategory : n.category.category.accepts it.entry.category = true) :
    ∃ b ∈ (g.goldChart sentence t).cell span, b.entry.sign = it.entry.sign := by
  obtain ⟨hcombined, hadm⟩ := Parser.mem_combinedCell hbase
  have hmet := ((admits_goldChart_iff ht hfind).1 hadm).2
  cases h with
  | @intro rule c hbare hrule hc =>
    rw [Entry.category, Parser.sign_unaryItem] at hcategory
    have hadm' : (g.goldChart sentence t).admits (Parser.unaryItem .uniform base rule c) span =
        true :=
      admits_goldChart ht hfind
        (Parser.probability_unaryItem_uniform hcombined.probability_uniform rule c)
        (Filter.metBy_withUnary hmet hbare hunary hcategory)
    have hfinal := Parser.covers_finalCell_of_raised (inference_goldChart hexact) hbase
      (.intro hbare hrule hc) hadm'
    rw [← cell_goldChart hspan] at hfinal
    obtain ⟨b, hb, hbsign, -⟩ := hfinal
    exact ⟨b, hb, hbsign⟩

end Grammar

namespace Derivation

variable {g : Grammar} {sentence : Sentence} {raised : Bool} {span : Span} {sign : Sign}
variable {t n : GoldTree}

/-! ## Items come from fitting derivations -/

theorem beforeUnary_of_replaysNode {e : Entry} {p q : Float} {c : Combination}
    (h : g.parser.ReplaysNode .uniform span e p c q) : e.beforeUnary = c.sign.category := by
  unfold Parser.ReplaysNode at h
  split at h
  · rename_i hnone
    rw [Entry.beforeUnary, Entry.unary?, hnone]
    exact congrArg Sign.category h.1
  · rename_i step hsome
    rw [Entry.beforeUnary, Entry.unary?, hsome]
    exact h.2.1

/-- A fitting derivation of the combination at a node gives one of the node. -/
theorem exists_fits_of_replaysNode {e : Entry} {p q : Float} {c : Combination}
    (h : g.parser.ReplaysNode .uniform span e p c q) (hsuits : e.Suits n)
    (hunary : e.unary?.isSome = true → n.category.hasUnary = true)
    (base : Derivation g sentence false span c.sign) (hbase : base.Fits n) :
    ∃ d : Derivation g sentence e.unary?.isSome span e.sign, d.Fits n := by
  unfold Parser.ReplaysNode at h
  split at h
  · rename_i hnone
    have hsign : e.sign = c.sign := h.1
    rw [hsign, Entry.unary?, hnone]
    exact ⟨base, hbase⟩
  · rename_i step hsome
    obtain ⟨hrule, -, u, hu, hsign, -⟩ := h
    have hisSome : e.unary?.isSome = true := by rw [Entry.unary?, hsome]; rfl
    have hafter := hsuits.after hisSome
    rw [Category.accepts_plain, Entry.category, Entry.sign, hsign] at hafter
    rw [hisSome, Entry.sign, hsign]
    exact ⟨.unary step.rule u base hrule hu, hbase, hunary hisSome, hafter⟩

/-- Every item of a chart under a gold tree comes from a derivation along the tree. -/
theorem exists_fits_of_mem_cell (ht : t.Spanned) {e : Entry} {p : Float}
    (h : ⟨e, p⟩ ∈ (g.goldChart sentence t).cell span) (hfind : t.find? span = some n) :
    ∃ d : Derivation g sentence e.unary?.isSome span e.sign, d.Fits n := by
  induction e generalizing p span n with
  | terminal node lexical words =>
    obtain ⟨-, hsuits, hunary⟩ := Parser.suits_of_mem_cell ht h hfind
    obtain ⟨c, q, ⟨hmem, -, rfl, -⟩, hnode⟩ := (Parser.replays_of_mem_cell h).step
    have hspan : span.Within sentence.length := by
      simpa only [Grammar.goldChart, Parser.length_parseChart] using Chart.within_of_mem_cell h
    have hcategory := beforeUnary_of_replaysNode hnode
    refine exists_fits_of_replaysNode hnode hsuits hunary
      (.lexical span lexical hspan ((Grammar.matches_iff hspan).2 hmem)) ?_
    cases n with
    | leaf gold s tag words' headed? =>
      have hbefore := hsuits.before
      rw [Category.accepts_plain, hcategory] at hbefore
      exact ⟨(GoldTree.mem_nodes_of_find? hfind).2.symm, hbefore,
        fun c hc => hcategory.symm.trans (hsuits.headed c hc)⟩
    | branch gold s l r => exact absurd (hsuits.leaf_iff.1 rfl) Bool.false_ne_true
  | binary node combinator split left lp right rp ihl ihr =>
    obtain ⟨hmet, hsuits, hunary⟩ := Parser.suits_of_mem_cell ht h hfind
    obtain ⟨gold, l, r, rfl, hl, hr, hleft, hright⟩ := Parser.children_of_mem_cell ht h hfind
    obtain ⟨hlunary, hrunary⟩ := Filter.childAgrees_of_metBy hmet
    obtain ⟨dl, hdl⟩ := ihl hleft hl
    obtain ⟨dr, hdr⟩ := ihr hright hr
    obtain ⟨c, q, ⟨-, -, -, hc, -⟩, hnode⟩ := (Parser.replays_of_mem_cell h).step
    have hbefore := hsuits.before
    rw [Category.accepts_plain, beforeUnary_of_replaysNode hnode] at hbefore
    exact exists_fits_of_replaysNode hnode hsuits hunary (.binary combinator c dl dr hc)
      ⟨rfl, hbefore, ⟨hdl, hlunary⟩, hdr, hrunary⟩

/-- An item without a unary rule stands for a derivation without one. So, if a derivation is not
    shadowed, a parent finds the unary rule that it asks for on the item with its sign. -/
theorem childAgrees_of_not_shadowed (ht : t.Spanned) (hfind : t.find? span = some n)
    (d : Derivation g sentence raised span sign) (hraised : raised = n.category.hasUnary)
    (hd : ¬ d.Shadowed n) {it : Item} (h : it ∈ (g.goldChart sentence t).cell span)
    (hsign : it.entry.sign = sign) :
    Filter.childAgrees (Filter.unaryResult? n) it.entry = true := by
  obtain ⟨-, hsuits, hunary⟩ := Parser.suits_of_mem_cell ht h hfind
  refine Filter.childAgrees_of_unary ?_ hsuits
  cases hbare : it.entry.unary?.isSome with
  | true => exact (hunary hbare).symm
  | false =>
    have hother := exists_fits_of_mem_cell ht h hfind
    rw [hbare, hsign] at hother
    by_contra hne
    exact hd ⟨hraised.trans (Bool.eq_true_of_not_eq_false (Ne.symm hne)), hother⟩

/-! ## Fitting derivations are found -/

/-- The chart under a gold tree has an item with the sign of each derivation along the tree of which
    no part is shadowed, and has it early if the derivation has no final unary rule. -/
theorem exists_mem_cell_of_fits (ht : t.Spanned) (hexact : g.config.inference = .exact)
    (d : Derivation g sentence raised span sign) (hfind : t.find? span = some n)
    (hfits : d.Fits n) (hclear : d.Clear n) :
    (raised = false → ∃ b ∈ g.goldCombined sentence t span, b.entry.sign = sign) ∧
      ∃ b ∈ (g.goldChart sentence t).cell span, b.entry.sign = sign := by
  induction d generalizing n with
  | lexical span e hspan hmatches =>
    cases n with
    | branch gold s l r => cases hfits
    | leaf gold s tag words headed? =>
      obtain ⟨-, hcategory, hheaded⟩ := hfits
      have hitem : g.parser.Combined .uniform sentence (g.goldChart sentence t) span
          (Parser.terminalItem .uniform sentence span e) :=
        .terminal ((Grammar.matches_iff hspan).1 hmatches)
      have hmet : (Filter.demandOf (.leaf gold s tag words headed?)).metBy
          (Parser.terminalItem .uniform sentence span e).entry = true :=
        Filter.metBy_of_bare rfl rfl hcategory hheaded fun l r h => nomatch h
      obtain ⟨hearly, hcell⟩ := Grammar.exists_mem_of_combined ht hexact hspan hfind hitem hmet
      exact ⟨fun _ => hearly, hcell⟩
  | @binary start split last _ _ _ _ combinator c left right hc ihl ihr =>
    cases n with
    | leaf gold s tag words headed? => cases hfits
    | branch gold s l r =>
      have hspan := (binary combinator c left right hc).within
      obtain ⟨rfl, hcategory, ⟨hleft, hlraised⟩, hright, hrraised⟩ := hfits
      obtain ⟨⟨hlclear, hlshadow⟩, hrclear, hrshadow⟩ := hclear
      obtain ⟨hl, hr⟩ := GoldTree.find?_children ht hfind
      rw [← hleft.span_eq] at hl hr
      -- The cells of the parts have items with the signs of the parts.  The combination of the two
      -- is let in, since they have their unary rules where the tree asks for them.
      obtain ⟨-, a, ha, rfl⟩ := ihl hl hleft hlclear
      obtain ⟨-, b, hb, rfl⟩ := ihr hr hright hrclear
      have haagrees := childAgrees_of_not_shadowed ht hl left hlraised hlshadow ha rfl
      have hbagrees := childAgrees_of_not_shadowed ht hr right hrraised hrshadow hb rfl
      have hitem : g.parser.Combined .uniform sentence (g.goldChart sentence t) ⟨start, last⟩
          (Parser.binaryItem .uniform ⟨start, last⟩ split a b combinator c) :=
        .binary left.within.1 right.within.1 ha hb hc
      have hmet : (Filter.demandOf (.branch gold ⟨start, last⟩ l r)).metBy
          (Parser.binaryItem .uniform ⟨start, last⟩ split a b combinator c).entry = true := by
        refine Filter.metBy_of_bare rfl rfl hcategory (fun c hc => nomatch hc) ?_
        rintro _ _ ⟨⟩
        exact ⟨haagrees, hbagrees⟩
      obtain ⟨hearly, hcell⟩ := Grammar.exists_mem_of_combined ht hexact hspan hfind hitem hmet
      exact ⟨fun _ => hearly, hcell⟩
  | unary rule c base hrule hc ih =>
    obtain ⟨hbase, hunary, hcategory⟩ := hfits
    -- The base is there before the unary rules are tried, so the rule is tried on it.
    obtain ⟨b, hb, rfl⟩ := (ih hfind hbase hclear).1 rfl
    have hraised : g.parser.Raised .uniform b (Parser.unaryItem .uniform b rule c) :=
      .intro (Parser.mem_combinedCell hb).1.unary?_eq_none hrule hc
    have hsign : (Parser.unaryItem .uniform b rule c).entry.sign = c.sign :=
      Parser.sign_unaryItem b rule c
    have hcell := Grammar.exists_mem_of_raised ht hexact base.within hfind hb hraised hunary
      (by rwa [Entry.category, hsign])
    rw [hsign] at hcell
    exact ⟨fun hfalse => Bool.noConfusion hfalse, hcell⟩

/-- With exact inference and uniform weights, a derivation that agrees with a gold tree gives its
    sign to a parse under the tree, if no part of it is shadowed and no limit cuts the parses. -/
theorem exists_mem_parse_gold (text : String) (t : GoldTree) (ht : GoldTree.parse text = .ok t)
    (g : Grammar) (hexact : g.config.inference = .exact) (sentence : Sentence)
    (hlimit : ∀ n, g.config.maxParses? = some n →
      ((g.parser.parseChart .uniform sentence (Filter.gold t)).cell
        ⟨0, sentence.length - 1⟩).length ≤ n)
    (raised : Bool) (sign : Sign) (d : Derivation g sentence raised ⟨0, sentence.length - 1⟩ sign)
    (hd : d.Agrees t) (hclear : d.Clear t) :
    ∃ p ∈ g.parser.parse .uniform sentence (Filter.gold t), p.entry.sign = sign := by
  have hspanned := (GoldTree.spanned_of_parse ht).1
  have hfind : t.find? ⟨0, sentence.length - 1⟩ = some t := by
    rw [hd.1.span_eq]
    exact (GoldTree.find?_eq_some_iff hspanned).2 ⟨GoldTree.mem_nodes_self t, rfl⟩
  obtain ⟨-, p, hp, hsign⟩ := d.exists_mem_cell_of_fits hspanned hexact hfind hd.1 hclear
  exact ⟨p, Parser.mem_parse_of_mem_cell hlimit hp, hsign⟩

theorem agrees_sampleDerivation : sampleDerivation.Agrees .sample := by decide +kernel

theorem clear_sampleDerivation : sampleDerivation.Clear .sample :=
  ⟨⟨trivial, not_shadowed_of_category _ (by decide +kernel)⟩, trivial, fun h => nomatch h.1⟩

theorem exists_mem_parse_gold_sample :
    sampleDerivation.Agrees .sample ∧ sampleDerivation.Clear .sample ∧
    ∃ p ∈ Grammar.sample.parser.parse .uniform .sample (Filter.gold .sample),
      p.entry.sign = ⟨.atom "S" .unspecified 0, [⟨0, "sleep", 1⟩], []⟩ :=
  ⟨agrees_sampleDerivation, clear_sampleDerivation,
    exists_mem_parse_gold _ _ GoldTree.parse_sample Grammar.sample rfl .sample
      (fun _ h => nomatch h) _ _ sampleDerivation agrees_sampleDerivation clear_sampleDerivation⟩

end Derivation

/-! ## A lost derivation -/

/-- A noun that is a mass noun, from which a rule makes a count noun, and is a count noun too. -/
def Grammar.coffee : Grammar where
  entries :=
    [⟨["black"], ⟨.func .forward (.atom "N" .unspecified 1) (.atom "N" .unspecified 1) 0,
        some ⟨[["black"], []], [⟨.predicate "black", 1, 1⟩]⟩⟩⟩,
      ⟨["coffee"], ⟨.atom "N" (.value "mass") 0, some ⟨[["coffee"]], []⟩⟩⟩,
      ⟨["coffee"], ⟨.atom "N" (.value "count") 0, some ⟨[["coffee"]], []⟩⟩⟩]
  rules := [⟨.atom "N" (.value "mass") 0, .atom "N" (.value "count") 0, []⟩]
  config := .default

def Sentence.coffee : Sentence := ⟨["black", "coffee"], none⟩

/-- The tree has the rule, but does not say from what it leads to what. -/
def GoldTree.coffee : GoldTree :=
  .branch ⟨.atom "N" .unspecified (), none⟩ ⟨0, 1⟩
    (.leaf ⟨.func .forward (.atom "N" .unspecified ()) (.atom "N" .unspecified ()) (), none⟩
      ⟨0, 0⟩ "JJ" ["black"] none)
    (.leaf ⟨.atom "N" .unspecified (), some (.atom "N" .unspecified ())⟩ ⟨1, 1⟩ "NN" ["coffee"]
      none)

namespace Derivation

/-- The mass noun becomes a count noun, and the adjective applies to it. -/
def coffee : Derivation Grammar.coffee Sentence.coffee false ⟨0, 1⟩
    ⟨.atom "N" .unspecified 0, [⟨0, "coffee", 1⟩], []⟩ :=
  .binary .forwardApplication
    ⟨⟨.atom "N" .unspecified 0, [⟨0, "coffee", 1⟩], []⟩, [⟨⟨"black", 0⟩, 1, ⟨"coffee", 1⟩⟩], []⟩
    (.lexical ⟨0, 0⟩
      ⟨["black"], ⟨.func .forward (.atom "N" .unspecified 1) (.atom "N" .unspecified 1) 0,
        some ⟨[["black"], []], [⟨.predicate "black", 1, 1⟩]⟩⟩⟩
      (by decide) ((Grammar.matches_iff (by decide)).2 (by decide +kernel)))
    (.unary ⟨.atom "N" (.value "mass") 0, .atom "N" (.value "count") 0, []⟩
      ⟨⟨.atom "N" (.value "count") 0, [⟨0, "coffee", 1⟩], []⟩, [], []⟩
      (.lexical ⟨1, 1⟩ ⟨["coffee"], ⟨.atom "N" (.value "mass") 0, some ⟨[["coffee"]], []⟩⟩⟩
        (by decide) ((Grammar.matches_iff (by decide)).2 (by decide +kernel)))
      (by decide +kernel) (by decide +kernel))
    (by decide +kernel)

/-- The count noun with and without the rule has one sign, and the cell keeps it without the rule.
    So the only derivation that agrees with the tree is lost. -/
theorem exists_lost_derivation :
    GoldTree.parse "<N <(N/N) JJ black> <N_N NN coffee>>" = .ok .coffee ∧
    Grammar.coffee.config = .default ∧ coffee.Agrees .coffee ∧
    Grammar.coffee.parser.parse .uniform .coffee (Filter.gold .coffee) = [] := by
  have hparses : (Grammar.coffee.parser.parse .uniform .coffee (Filter.gold .coffee)).length = 0 :=
    by decide +kernel
  exact ⟨by decide +kernel, rfl, by decide +kernel, List.eq_nil_of_length_eq_zero hparses⟩

end Derivation

end Categorial
