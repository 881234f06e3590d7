/-
  Categorial.Proofs.GoldTree.Agreement

  Parsing restricted to a gold tree gives derivations of the shape of the tree.  The filter looks at
  one span and at the unary rules of the two children only.  That this forces the whole bracketing
  (`follows_of_mem_cell`) is due to the spans of the tree, since both children have to lie on spans
  of it.  Unary rules are where the tree has them at all nodes but the root
  (`unary_of_mem_cell`): a parent checks its children, but the root has no parent, and the input
  of a unary rule has to be let into the cell of the rule.
-/

import Categorial.Proofs.Chart.Soundness
import Categorial.Proofs.GoldTree.Spans

namespace Categorial

theorem Category.accepts_plain {α β : Type} (expected : Category α) (actual : Category β) :
    expected.accepts actual.plain = expected.accepts actual := by
  induction expected generalizing actual with
  | atom name feature label => cases actual <;> rfl
  | func d result argument label ihr iha =>
    cases actual with
    | atom => rfl
    | func d' result' argument' label' =>
      show (d == d' && result.accepts result'.plain && argument.accepts argument'.plain) = _
      rw [ihr, iha]
      rfl

/-! ## Derivations along a tree -/

/-- The exact lexical category of a leaf, if the tree says. -/
def GoldTree.headed? : GoldTree → Option Headed
  | .leaf _ _ _ _ headed? => headed?
  | .branch .. => none

namespace Entry

theorem nodes_eq_cons (e : Entry) : e.nodes = e.node :: e.nodes.tail := by
  cases e <;> rfl

/-- The node of an entry suits the root of a gold tree. -/
structure Suits (e : Entry) (g : GoldTree) : Prop where
  span_eq : e.span = g.span
  leaf_iff : e.isTerminal = true ↔ g.isLeaf = true
  before : g.category.beforeUnary.accepts e.beforeUnary.plain = true
  after : e.unary?.isSome = true → g.category.category.accepts e.category.plain = true
  headed : ∀ c, g.headed? = some c → e.beforeUnary = c

/-- An entry and a gold tree have the same shape, and each node suits the one that it faces. -/
inductive Follows : Entry → GoldTree → Prop
  | leaf {n : Node} {lexical : LexicalEntry} {words words' : List String} {c : GoldCategory}
      {s : Span} {tag : String} {headed? : Option Headed}
      (h : (terminal n lexical words).Suits (.leaf c s tag words' headed?)) :
      Follows (terminal n lexical words) (.leaf c s tag words' headed?)
  | branch {n : Node} {combinator : Combinator} {split : Nat} {left right : Entry}
      {leftProbability rightProbability : Float} {c : GoldCategory} {s : Span} {l r : GoldTree}
      (h : (binary n combinator split left leftProbability right rightProbability).Suits
        (.branch c s l r))
      (hleft : Follows left l) (hright : Follows right r) :
      Follows (binary n combinator split left leftProbability right rightProbability)
        (.branch c s l r)

end Entry

namespace Filter

variable {t g : GoldTree} {e : Entry} {span : Span}

/-! ## What the filter demands -/

theorem lookup_map_demandOf (nodes : List GoldTree) (span : Span) :
    (nodes.map fun n => (n.span, demandOf n)).lookup span =
      (nodes.find? fun n => span == n.span).map demandOf := by
  induction nodes with
  | nil => rfl
  | cons n nodes ih =>
    rw [List.map_cons, List.lookup_cons, List.find?_cons]
    split
    · rfl
    · exact ih

/-- The demands of a tree are those of the nodes that looking a span up finds. -/
theorem lookup_demands (h : t.Spanned) (span : Span) :
    (demands t).lookup span = (t.find? span).map demandOf := by
  rw [demands, lookup_map_demandOf]
  congr 1
  cases hfind : t.nodes.find? fun n => span == n.span with
  | some g =>
    have hspan : span = g.span := by simpa using List.find?_some hfind
    rw [hspan, GoldTree.find?_of_mem_nodes h (List.mem_of_find?_eq_some hfind)]
  | none =>
    refine (Option.eq_none_iff_forall_ne_some.2 fun g hg => ?_).symm
    obtain ⟨hmem, rfl⟩ := GoldTree.mem_nodes_of_find? hg
    exact List.find?_eq_none.1 hfind g hmem (beq_self_eq_true _)

/-- The filter accepts what meets the demand of the node with its span. -/
theorem gold_eq_true_iff (h : t.Spanned) :
    gold t e span = true ↔ ∃ g, t.find? span = some g ∧ (demandOf g).metBy e = true := by
  unfold gold
  rw [lookup_demands h]
  cases t.find? span with
  | some g => simp
  | none => simp

theorem terminal_demandOf (g : GoldTree) : (demandOf g).terminal = g.isLeaf := by
  cases g <;> rfl

theorem category_demandOf (g : GoldTree) : (demandOf g).category = g.category := by
  cases g <;> rfl

theorem headed?_demandOf (g : GoldTree) : (demandOf g).headed? = g.headed? := by
  cases g <;> rfl

/-- What a met demand says about the node of the entry itself. -/
theorem suits_of_metBy (hspan : e.span = g.span) (h : (demandOf g).metBy e = true) :
    e.Suits g ∧ (e.unary?.isSome = true → g.category.hasUnary = true) := by
  simp only [Demand.metBy, Bool.and_eq_true, beq_iff_eq, terminal_demandOf, category_demandOf,
    headed?_demandOf] at h
  obtain ⟨⟨⟨hleaf, hcategory⟩, -⟩, hheaded⟩ := h
  have hleaf' : e.isTerminal = true ↔ g.isLeaf = true := by rw [hleaf]
  have hheaded' : ∀ c, g.headed? = some c → e.beforeUnary = c := by
    intro c hc
    rw [hc] at hheaded
    exact eq_of_beq hheaded
  unfold categoryAgrees at hcategory
  split at hcategory
  · rename_i step hunary
    simp only [Bool.and_eq_true] at hcategory
    obtain ⟨⟨hrule, hafter⟩, hbefore⟩ := hcategory
    have hinput : e.beforeUnary = step.input := by rw [Entry.beforeUnary, hunary]
    refine ⟨⟨hspan, hleaf', ?_, fun _ => ?_, hheaded'⟩, fun _ => hrule⟩
    · rw [Category.accepts_plain, hinput]
      exact hbefore
    · rw [Category.accepts_plain]
      exact hafter
  · rename_i hunary
    have hinput : e.beforeUnary = e.category := by rw [Entry.beforeUnary, hunary]
    have hnone : ¬ e.unary?.isSome = true := by rw [hunary]; exact Bool.false_ne_true
    refine ⟨⟨hspan, hleaf', ?_, fun h => absurd h hnone, hheaded'⟩, fun h => absurd h hnone⟩
    rw [Category.accepts_plain, hinput]
    exact hcategory

theorem unary_of_childAgrees (h : childAgrees (unaryResult? g) e = true) :
    e.unary?.isSome = g.category.hasUnary := by
  unfold childAgrees unaryResult? at h
  cases hgold : g.category.hasUnary <;> cases hunary : e.unary? <;> simp [hgold, hunary] at h ⊢

/-- A met demand has been checked at both children. -/
theorem childAgrees_of_metBy {n : Node} {combinator : Combinator} {split : Nat}
    {left right : Entry} {lp rp : Float} {c : GoldCategory} {s : Span} {l r : GoldTree}
    (h : (demandOf (.branch c s l r)).metBy (.binary n combinator split left lp right rp) = true) :
    left.unary?.isSome = l.category.hasUnary ∧ right.unary?.isSome = r.category.hasUnary := by
  simp only [Demand.metBy, Entry.children?, demandOf, Bool.and_eq_true] at h
  obtain ⟨⟨-, hleft, hright⟩, -⟩ := h
  exact ⟨unary_of_childAgrees hleft, unary_of_childAgrees hright⟩

end Filter

namespace Parser

variable {parser : Parser} {scorer : Scorer} {sentence : Sentence} {t : GoldTree} {span : Span}

/-! ## Cells under a gold tree -/

/-- Every item has a gold node with its span. -/
theorem exists_gold_of_mem_cell (ht : t.Spanned) {it : Item}
    (h : it ∈ (parser.parseChart scorer sentence (Filter.gold t)).cell span) :
    ∃ g, t.find? span = some g ∧ (Filter.demandOf g).metBy it.entry = true :=
  (Filter.gold_eq_true_iff ht).1 (replays_of_mem_cell h).accepted

/-- What holds of an item and its gold node. -/
theorem suits_of_mem_cell (ht : t.Spanned) {it : Item} {g : GoldTree}
    (h : it ∈ (parser.parseChart scorer sentence (Filter.gold t)).cell span)
    (hfind : t.find? span = some g) :
    (Filter.demandOf g).metBy it.entry = true ∧ it.entry.Suits g ∧
      (it.entry.unary?.isSome = true → g.category.hasUnary = true) := by
  obtain ⟨g', hfind', hmet⟩ := exists_gold_of_mem_cell ht h
  cases hfind.symm.trans hfind'
  have hspan : it.entry.span = g.span :=
    (replays_of_mem_cell h).span_eq.trans (GoldTree.mem_nodes_of_find? hfind).2.symm
  exact ⟨hmet, Filter.suits_of_metBy hspan hmet⟩

/-- The two children of an entry lie on the two children of its gold node. -/
theorem children_of_mem_cell (ht : t.Spanned) {n : Node} {combinator : Combinator} {split : Nat}
    {left right : Entry} {lp rp p : Float} {g : GoldTree}
    (h : ⟨.binary n combinator split left lp right rp, p⟩ ∈
      (parser.parseChart scorer sentence (Filter.gold t)).cell span)
    (hfind : t.find? span = some g) :
    ∃ c l r, g = .branch c span l r ∧
      t.find? ⟨span.start, split⟩ = some l ∧ t.find? ⟨split + 1, span.last⟩ = some r ∧
      ⟨left, lp⟩ ∈ (parser.parseChart scorer sentence (Filter.gold t)).cell ⟨span.start, split⟩ ∧
      ⟨right, rp⟩ ∈ (parser.parseChart scorer sentence (Filter.gold t)).cell
        ⟨split + 1, span.last⟩ := by
  obtain ⟨-, hsuits, -⟩ := suits_of_mem_cell ht h hfind
  have hspan := (GoldTree.mem_nodes_of_find? hfind).2
  obtain ⟨_, _, ⟨-, hleft, hright, -, -⟩, -⟩ := (replays_of_mem_cell h).step
  obtain ⟨a, ha, -⟩ := exists_gold_of_mem_cell ht hleft
  obtain ⟨b, hb, -⟩ := exists_gold_of_mem_cell ht hright
  cases g with
  | leaf c s tag words headed? => exact absurd (hsuits.leaf_iff.2 rfl) Bool.false_ne_true
  | branch c s l r =>
    cases hspan
    -- Both children lie on spans of the tree, so the entry is cut where the tree cuts its node.
    have hsplit := GoldTree.last_eq_of_split ht hfind ha hb
    obtain ⟨hl, hr⟩ := GoldTree.find?_children ht hfind
    rw [← hsplit] at hl hr
    exact ⟨c, l, r, rfl, hl, hr, hleft, hright⟩

/-- Under a gold tree every derivation of the chart has the shape of a part of the tree. -/
theorem follows_of_mem_cell (ht : t.Spanned) {e : Entry} {p : Float}
    (h : ⟨e, p⟩ ∈ (parser.parseChart scorer sentence (Filter.gold t)).cell span) :
    ∃ g, t.find? span = some g ∧ e.Follows g := by
  obtain ⟨g, hfind, -⟩ := exists_gold_of_mem_cell ht h
  refine ⟨g, hfind, ?_⟩
  induction e generalizing p span g with
  | terminal n lexical words =>
    obtain ⟨-, hsuits, -⟩ := suits_of_mem_cell ht h hfind
    cases g with
    | leaf c s tag words' headed? => exact .leaf hsuits
    | branch c s l r => exact absurd (hsuits.leaf_iff.1 rfl) Bool.false_ne_true
  | binary n combinator split left lp right rp ihl ihr =>
    obtain ⟨-, hsuits, -⟩ := suits_of_mem_cell ht h hfind
    obtain ⟨c, l, r, rfl, hl, hr, hleft, hright⟩ := children_of_mem_cell ht h hfind
    exact .branch hsuits (ihl hleft l hl) (ihr hright r hr)

theorem span_node_of_mem_cell {e : Entry} {p : Float}
    (h : ⟨e, p⟩ ∈ (parser.parseChart scorer sentence (Filter.gold t)).cell span) :
    e.node.span = span :=
  (replays_of_mem_cell h).span_eq

/-- Below the root of a derivation, unary rules are just where the tree has them. -/
theorem unary_of_mem_cell (ht : t.Spanned) {e : Entry} {p : Float}
    (h : ⟨e, p⟩ ∈ (parser.parseChart scorer sentence (Filter.gold t)).cell span) :
    ∀ n ∈ e.nodes.tail, ∃ g, t.find? n.span = some g ∧ n.unary?.isSome = g.category.hasUnary := by
  induction e generalizing p span with
  | terminal n lexical words =>
    intro n hn
    cases hn
  | binary n combinator split left lp right rp ihl ihr =>
    obtain ⟨g, hfind, hmet⟩ := exists_gold_of_mem_cell ht h
    obtain ⟨c, l, r, rfl, hl, hr, hleft, hright⟩ := children_of_mem_cell ht h hfind
    obtain ⟨hlunary, hrunary⟩ := Filter.childAgrees_of_metBy hmet
    -- A node below the root is the root of a child, which the parent has checked, or below it.
    intro m hm
    rw [Entry.nodes, List.tail_cons, List.mem_append, Entry.nodes_eq_cons left,
      Entry.nodes_eq_cons right, List.mem_cons, List.mem_cons] at hm
    rcases hm with (rfl | hm) | rfl | hm
    · exact ⟨l, span_node_of_mem_cell hleft ▸ hl, hlunary⟩
    · exact ihl hleft m hm
    · exact ⟨r, span_node_of_mem_cell hright ▸ hr, hrunary⟩
    · exact ihr hright m hm

end Parser

/-! ## Parses under a gold tree -/

namespace GoldTree

/-- A noun that becomes a phrase, and the verb that applies to it. -/
def sample : GoldTree :=
  .branch ⟨.atom "S" .unspecified (), none⟩ ⟨0, 1⟩
    (.leaf ⟨.atom "NP" .unspecified (), some (.atom "N" .unspecified ())⟩ ⟨0, 0⟩ "NNS" ["Dogs"]
      none)
    (.leaf ⟨.func .backward (.atom "S" .unspecified ()) (.atom "NP" .unspecified ()) (), none⟩
      ⟨1, 1⟩ "VB" ["sleep"] none)

theorem parse_sample : parse "<S <NP_N NNS Dogs> <(S\\NP) VB sleep>>" = .ok sample := by
  decide +kernel

/-- The noun phrase alone. -/
def samplePhrase : GoldTree :=
  .leaf ⟨.atom "NP" .unspecified (), some (.atom "N" .unspecified ())⟩ ⟨0, 0⟩ "NNS" ["Dogs"] none

end GoldTree

namespace Parser

theorem exists_mem_parse_sample :
    ∃ p, p ∈ Grammar.sample.parser.parse .uniform .sample (Filter.gold .sample) := by
  have hlength : (Grammar.sample.parser.parse .uniform .sample (Filter.gold .sample)).length = 1 :=
    by decide +kernel
  exact List.exists_mem_of_length_pos (hlength ▸ Nat.one_pos)

/-- A parse under a gold tree has the shape of the part of the tree over the sentence, node by node
    with the spans and the categories of that part. -/
theorem follows_of_mem_parse_gold (text : String) (t : GoldTree) (ht : GoldTree.parse text = .ok t)
    (parser : Parser) (scorer : Scorer) (sentence : Sentence) (p : Parse)
    (hp : p ∈ parser.parse scorer sentence (Filter.gold t)) :
    ∃ g, t.find? ⟨0, sentence.length - 1⟩ = some g ∧ p.entry.Follows g :=
  follows_of_mem_cell (GoldTree.spanned_of_parse ht).1 (mem_cell_of_mem_parse hp)

theorem follows_of_mem_parse_gold_sample :
    ∃ p ∈ Grammar.sample.parser.parse .uniform .sample (Filter.gold .sample),
      p.entry.Follows .sample := by
  obtain ⟨p, hp⟩ := exists_mem_parse_sample
  obtain ⟨g, hfind, hfollows⟩ := follows_of_mem_parse_gold _ _ GoldTree.parse_sample
    Grammar.sample.parser .uniform .sample p hp
  have hroot : GoldTree.sample.find? ⟨0, 1⟩ = some .sample := by decide +kernel
  cases hroot.symm.trans hfind
  exact ⟨p, hp, hfollows⟩

/-- A parse under a gold tree has unary rules just where the tree has them at all nodes below its
    root. At the root it has one only if the tree does. -/
theorem unary_of_mem_parse_gold (text : String) (t : GoldTree) (ht : GoldTree.parse text = .ok t)
    (parser : Parser) (scorer : Scorer) (sentence : Sentence) (p : Parse)
    (hp : p ∈ parser.parse scorer sentence (Filter.gold t)) :
    (∃ g, t.find? p.entry.span = some g ∧
      (p.entry.unary?.isSome = true → g.category.hasUnary = true)) ∧
    ∀ n ∈ p.entry.nodes.tail, ∃ g, t.find? n.span = some g ∧
      n.unary?.isSome = g.category.hasUnary := by
  have hspanned := (GoldTree.spanned_of_parse ht).1
  have hcell := mem_cell_of_mem_parse hp
  have hspan : p.entry.span = ⟨0, sentence.length - 1⟩ := (replays_of_mem_cell hcell).span_eq
  obtain ⟨g, hfind, -⟩ := exists_gold_of_mem_cell hspanned hcell
  obtain ⟨-, -, hunary⟩ := suits_of_mem_cell hspanned hcell hfind
  exact ⟨⟨g, hspan ▸ hfind, hunary⟩, unary_of_mem_cell hspanned hcell⟩

theorem unary_of_mem_parse_gold_sample :
    ∃ p ∈ Grammar.sample.parser.parse .uniform .sample (Filter.gold .sample),
      ∀ n ∈ p.entry.nodes.tail, ∃ g, GoldTree.sample.find? n.span = some g ∧
        n.unary?.isSome = g.category.hasUnary := by
  obtain ⟨p, hp⟩ := exists_mem_parse_sample
  exact ⟨p, hp, (unary_of_mem_parse_gold _ _ GoldTree.parse_sample _ _ _ p hp).2⟩

/-- The input of a unary rule at the root is a parse as well: nothing above it asks for the rule. -/
theorem exists_bare_root_of_gold :
    GoldTree.parse "<NP_N NNS Dogs>" = .ok .samplePhrase ∧
    ∃ p ∈ Grammar.sample.parser.parse .uniform ⟨["Dogs"], some ["NNS"]⟩
        (Filter.gold .samplePhrase),
      p.entry.unary?.isSome = false ∧
      ∃ g, GoldTree.samplePhrase.find? p.entry.span = some g ∧ g.category.hasUnary = true := by
  refine ⟨by decide +kernel, ?_⟩
  have hparses : (Grammar.sample.parser.parse .uniform ⟨["Dogs"], some ["NNS"]⟩
      (Filter.gold .samplePhrase)).map (fun p => (p.entry.unary?.isSome, p.entry.span)) =
      [(false, ⟨0, 0⟩), (true, ⟨0, 0⟩)] := by decide +kernel
  obtain ⟨p, hp, heq⟩ := List.mem_map.1 (hparses ▸ List.mem_cons_self)
  obtain ⟨hbare, hspan⟩ := Prod.mk.inj heq
  exact ⟨p, hp, hbare, .samplePhrase, by rw [hspan]; rfl, rfl⟩

end Parser

end Categorial
