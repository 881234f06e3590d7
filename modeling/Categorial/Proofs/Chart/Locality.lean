/-
  Categorial.Proofs.Chart.Locality

  Where the predicates of a derivation come from.  Merging signs, resolving what is pending and
  renaming variables make no predicate of their own: what a step mentions, one of its parts mentions
  (`Merge.predicates_finish_subset`).  A unary rule has no word, and none of its dependencies names
  a predicate, so it adds none either (`UnaryRule.predicates_apply_subset`).  So every predicate of
  a derivation is one that a lexical category brings in at the last word of its span
  (`predicates_subset_of_mem_cell`), and such a word lies within the span of the derivation.
-/

import Categorial.Proofs.Chart.Soundness
import Categorial.Proofs.Sign.Resolution
import Categorial.Proofs.UnaryRule

namespace Categorial

/-! ## Predicates -/

/-- The predicates at the sides of a link. -/
def Link.predicates (l : Link) : List Predicate :=
  l.subject.predicate?.toList ++ l.object.predicate?.toList

/-- The predicates that a sign mentions, assigned ones and those of pending dependencies. -/
def Sign.predicates (s : Sign) : List Predicate :=
  s.assignments.map Assignment.predicate ++ s.unfilled.flatMap (·.link.predicates)

/-- The predicates that a step mentions, those of settled dependencies among them. -/
def Combination.predicates (c : Combination) : List Predicate :=
  c.sign.predicates ++ c.filled.flatMap (·.link.predicates) ++
    c.abandoned.flatMap (·.link.predicates)

/-- The predicates that a merge mentions. -/
def Merge.predicates (m : Merge) : List Predicate :=
  m.assignments.map Assignment.predicate ++ m.pending.flatMap (·.link.predicates) ++
    m.abandoned.flatMap (·.link.predicates)

theorem Link.mem_predicates {l : Link} {p : Predicate} :
    p ∈ l.predicates ↔ l.subject = .predicate p ∨ l.object = .predicate p := by
  obtain ⟨s, k, o⟩ := l
  cases s <;> cases o <;> simp [predicates, Side.predicate?, eq_comm]

@[simp] theorem Link.predicates_rename (m : Renaming) (l : Link) :
    (l.rename m).predicates = l.predicates := by
  obtain ⟨s, k, o⟩ := l
  cases s <;> cases o <;> rfl

theorem Sign.mem_predicates {s : Sign} {p : Predicate} :
    p ∈ s.predicates ↔
      (∃ a ∈ s.assignments, a.predicate = p) ∨ ∃ d ∈ s.unfilled, p ∈ d.link.predicates := by
  simp only [predicates, List.mem_append, List.mem_map, List.mem_flatMap]

theorem Combination.mem_predicates {c : Combination} {p : Predicate} :
    p ∈ c.predicates ↔ p ∈ c.sign.predicates ∨ (∃ d ∈ c.filled, p ∈ d.link.predicates) ∨
      ∃ d ∈ c.abandoned, p ∈ d.link.predicates := by
  simp only [predicates, List.mem_append, List.mem_flatMap, or_assoc]

theorem Merge.mem_predicates {m : Merge} {p : Predicate} :
    p ∈ m.predicates ↔ (∃ a ∈ m.assignments, a.predicate = p) ∨
      (∃ d ∈ m.pending, p ∈ d.link.predicates) ∨ ∃ d ∈ m.abandoned, p ∈ d.link.predicates := by
  simp only [predicates, List.mem_append, List.mem_map, List.mem_flatMap, or_assoc]

/-! ## Resolution -/

theorem Side.mem_knownIn_of_mem_outcomes {known : Var → Finset Predicate} {s : Side}
    {p : Predicate} (h : .predicate p ∈ s.outcomes known) :
    s = .predicate p ∨ ∃ v, p ∈ known v := by
  cases s with
  | predicate q => exact .inl (Multiset.mem_singleton.1 h).symm
  | var v =>
    rw [outcomes] at h
    split at h
    · cases Multiset.mem_singleton.1 h
    · obtain ⟨q, hq, heq⟩ := Multiset.mem_map.1 h
      cases heq
      exact .inr ⟨v, hq⟩

/-- An outcome mentions what the link mentions, and predicates that are known. -/
theorem Link.mem_predicates_of_mem_outcomes {known : Var → Finset Predicate} {l o : Link}
    (h : o ∈ l.outcomes known) {p : Predicate} (hp : p ∈ o.predicates) :
    p ∈ l.predicates ∨ ∃ v, p ∈ known v := by
  obtain ⟨hs, hx, -⟩ := mem_outcomes.1 h
  rcases mem_predicates.1 hp with hp | hp
  · rw [hp] at hs
    exact (Side.mem_knownIn_of_mem_outcomes hs).imp_left fun hl => mem_predicates.2 (.inl hl)
  · rw [hp] at hx
    exact (Side.mem_knownIn_of_mem_outcomes hx).imp_left fun hl => mem_predicates.2 (.inr hl)

namespace Merge

variable {m : Merge} {p : Predicate}

theorem mem_predicates_of_resolved {o : Link}
    (ho : o ∈ m.filledBy.map Dependency.link ++ m.pendingAfter.map Pending.link)
    (hp : p ∈ o.predicates) : p ∈ m.predicates := by
  have houtcome : o ∈ m.incoming.outcomes := by
    rw [outcomes_incoming, Multiset.coe_add, Multiset.mem_coe]
    exact ho
  obtain ⟨l, hl, ho⟩ := Multiset.mem_bind.1 houtcome
  obtain ⟨d, hd, rfl⟩ := List.mem_map.1 (Multiset.mem_coe.1 hl)
  rcases Link.mem_predicates_of_mem_outcomes ho hp with hp | ⟨v, hv⟩
  · exact mem_predicates.2 (.inr (.inl ⟨d, hd, hp⟩))
  · exact mem_predicates.2 (.inl ⟨_, mem_knownIn.1 hv, rfl⟩)

theorem mem_predicates_of_mem_filledBy {d : Dependency} (hd : d ∈ m.filledBy)
    (hp : p ∈ d.link.predicates) : p ∈ m.predicates :=
  mem_predicates_of_resolved (List.mem_append_left _ (List.mem_map_of_mem hd)) hp

theorem mem_predicates_of_mem_pendingAfter {d : Pending} (hd : d ∈ m.pendingAfter)
    (hp : p ∈ d.link.predicates) : p ∈ m.predicates :=
  mem_predicates_of_resolved (List.mem_append_right _ (List.mem_map_of_mem hd)) hp

/-! ## Steps -/

/-- Finishing a merge makes no predicate of its own. -/
theorem predicates_finish_subset (m : Merge) (result : Headed) :
    (m.finish result).predicates ⊆ m.predicates := by
  intro p hp
  rcases Combination.mem_predicates.1 hp with hp | ⟨d, hd, hp⟩ | ⟨d, hd, hp⟩
  · rcases Sign.mem_predicates.1 hp with ⟨a, ha, rfl⟩ | ⟨d, hd, hp⟩
    · obtain ⟨b, hb, -, hba⟩ := mem_assignments_finish.1 ha
      exact mem_predicates.2 (.inl ⟨b, hb, hba⟩)
    · -- What is pending in the result has its variables renumbered, and nothing else.
      rw [unfilled_finish, mem_sorted] at hd
      obtain ⟨e, he, hrename⟩ := List.mem_filterMap.1 hd
      rw [Pending.link_of_rename? hrename, Link.predicates_rename] at hp
      exact mem_predicates_of_mem_pendingAfter he hp
  · rw [filled_finish, mem_sorted] at hd
    exact mem_predicates_of_mem_filledBy hd hp
  · rw [abandoned_finish] at hd
    rcases List.mem_append.1 hd with hd | hd
    · exact mem_predicates.2 (.inr (.inr ⟨d, hd, hp⟩))
    · exact mem_predicates_of_mem_pendingAfter (List.mem_of_mem_filter hd) hp

theorem predicates_ofSign (s : Sign) : (ofSign s).predicates = s.predicates :=
  List.append_nil _

/-- Taking in a sign adds predicates of the sign only, whatever has an image. -/
theorem predicates_absorb_subset (m : Merge) (s : Sign) (heads : Renaming) :
    (m.absorb s heads).predicates ⊆ m.predicates ++ s.predicates := by
  intro p hp
  rw [List.mem_append, mem_predicates, Sign.mem_predicates]
  rcases mem_predicates.1 hp with ⟨a, ha, rfl⟩ | ⟨d, hd, hp⟩ | ⟨d, hd, hp⟩
  · rcases List.mem_append.1 ha with ha | ha
    · exact .inl (.inl ⟨a, ha, rfl⟩)
    · obtain ⟨b, hb, hba⟩ := List.mem_filterMap.1 ha
      obtain ⟨v, -, rfl⟩ := Option.map_eq_some_iff.1 hba
      exact .inr (.inl ⟨b, hb, rfl⟩)
  · rcases List.mem_append.1 hd with hd | hd
    · exact .inl (.inr (.inl ⟨d, hd, hp⟩))
    · obtain ⟨e, he, hrename⟩ := List.mem_filterMap.1 hd
      rw [Pending.link_of_rename? hrename, Link.predicates_rename] at hp
      exact .inr (.inr ⟨e, he, hp⟩)
  · rcases List.mem_append.1 hd with hd | hd
    · exact .inl (.inr (.inr ⟨d, hd, hp⟩))
    · exact .inr (.inr ⟨d, List.mem_of_mem_filter hd, hp⟩)

/-- What every combinator ends with: one sign takes in the other. -/
theorem predicates_finish_absorb_subset (functor other : Sign) (heads : Renaming)
    (result : Headed) :
    (((ofSign functor).absorb other heads).finish result).predicates ⊆
      functor.predicates ++ other.predicates := by
  have hfinish := predicates_finish_subset ((ofSign functor).absorb other heads) result
  have habsorb := predicates_absorb_subset (ofSign functor) other heads
  rw [predicates_ofSign] at habsorb
  exact List.Subset.trans hfinish habsorb

end Merge

namespace Sign

variable {mode : FeatureMode} {dir : Direction} {functor other : Sign} {c : Combination}

theorem predicates_apply_subset (h : functor.apply mode dir other = some c) :
    c.predicates ⊆ functor.predicates ++ other.predicates := by
  obtain ⟨result, wanted, label, u, -, -, rfl⟩ := apply_eq_some_iff.1 h
  exact Merge.predicates_finish_absorb_subset functor other _ _

theorem predicates_compose_subset (h : functor.compose mode dir other = some c) :
    c.predicates ⊆ functor.predicates ++ other.predicates := by
  obtain ⟨result, wanted, label, offered, argument, label', u, -, -, -, rfl⟩ :=
    compose_eq_some_iff.1 h
  exact Merge.predicates_finish_absorb_subset functor other _ _

end Sign

/-- A combination mentions what one of the two signs mentions, whichever of them is the functor. -/
theorem Combinator.predicates_apply_subset {mode : FeatureMode} {left right : Sign}
    {combinator : Combinator} {c : Combination} (h : combinator.apply mode left right = some c) :
    c.predicates ⊆ left.predicates ++ right.predicates := by
  have hswap : right.predicates ++ left.predicates ⊆ left.predicates ++ right.predicates :=
    List.perm_append_comm.subset
  cases combinator with
  | forwardApplication => exact Sign.predicates_apply_subset h
  | backwardApplication => exact List.Subset.trans (Sign.predicates_apply_subset h) hswap
  | forwardComposition => exact Sign.predicates_compose_subset h
  | backwardComposition => exact List.Subset.trans (Sign.predicates_compose_subset h) hswap

namespace UnaryRule

/-- A rule whose dependencies name no predicate adds none: the position that they are brought in at
    stays out of the result. -/
theorem predicates_apply_subset {mode : FeatureMode} {rule : UnaryRule} {s : Sign}
    {c : Combination} (hrule : ∀ d ∈ rule.dependencies, ∃ v, d.subject = .var v)
    (h : rule.apply mode s = some c) : c.predicates ⊆ s.predicates := by
  obtain ⟨u, -, rfl⟩ := apply_eq_some_iff.1 h
  refine List.Subset.trans (Merge.predicates_finish_subset _ _) ?_
  intro p hp
  have habsorb : (Merge.empty.absorb s u.heads).predicates ⊆ s.predicates :=
    Merge.predicates_absorb_subset Merge.empty s u.heads
  rcases Merge.mem_predicates.1 hp with ha | ⟨d, hd, hp⟩ | hd
  · exact habsorb (Merge.mem_predicates.2 (.inl ha))
  · rcases List.mem_append.1 hd with hd | hd
    · exact habsorb (Merge.mem_predicates.2 (.inr (.inl ⟨d, hd, hp⟩)))
    · obtain ⟨l, hl, rfl⟩ := List.mem_map.1 hd
      obtain ⟨v, hv⟩ := hrule l hl
      have hopen : l.instantiate 0 = .bothOpen v l.argument l.object := by
        rw [LexicalDependency.instantiate, hv]
      rw [hopen] at hp
      cases hp
  · exact habsorb (Merge.mem_predicates.2 (.inr (.inr hd)))

end UnaryRule

namespace LexicalCategory

/-- The names that a lexical category brings in: those for its variables, and the subjects of its
    dependencies. -/
def introduced (c : LexicalCategory) : List String :=
  c.names.flatten ++ c.dependencies.filterMap fun d =>
    match d.subject with
    | .predicate name => some name
    | .var _ => none

theorem mem_introduced {c : LexicalCategory} {name : String} :
    name ∈ c.introduced ↔
      (∃ names ∈ c.names, name ∈ names) ∨
        ∃ d ∈ c.dependencies, d.subject = .predicate name := by
  rw [introduced, List.mem_append, List.mem_flatten, List.mem_filterMap]
  refine or_congr_right (exists_congr fun d => and_congr_right fun _ => ?_)
  cases d.subject with
  | predicate q => simp
  | var v => simp

/-- A word brings in the names of its category, at the position of its last token. -/
theorem predicates_signAt_subset (c : LexicalCategory) (index : Nat) :
    (c.signAt index).predicates ⊆ c.introduced.map (⟨·, index⟩) := by
  refine List.Subset.trans (Merge.predicates_finish_subset _ _) ?_
  intro p hp
  rw [List.mem_map]
  rcases Merge.mem_predicates.1 hp with ⟨a, ha, rfl⟩ | ⟨d, hd, hp⟩ | ⟨d, hd, -⟩
  · obtain ⟨⟨v, name⟩, hnaming, rfl⟩ := List.mem_map.1 ha
    refine ⟨name, mem_introduced.2 (.inl ?_), rfl⟩
    obtain ⟨⟨names, w⟩, hzip, hname⟩ := List.mem_flatMap.1 hnaming
    obtain ⟨n, hn, heq⟩ := List.mem_map.1 hname
    cases heq
    exact ⟨names, List.fst_mem_of_mem_zipIdx hzip, hn⟩
  · obtain ⟨l, hl, rfl⟩ := List.mem_map.1 hd
    -- A subject that is a variable leaves both sides open, and then nothing is mentioned.
    cases hs : l.subject with
    | predicate name =>
      rw [LexicalDependency.instantiate, hs] at hp
      refine ⟨name, mem_introduced.2 (.inr ⟨l, hl, hs⟩), ?_⟩
      exact (List.mem_singleton.1 hp).symm
    | var v =>
      rw [LexicalDependency.instantiate, hs] at hp
      cases hp
  · cases hd

end LexicalCategory

/-! ## Derivations -/

/-- What a node records: its sign, and what was settled on the way to it. -/
def Node.combination (n : Node) : Combination := ⟨n.sign, n.filled, n.abandoned⟩

namespace Entry

/-- The predicates that a derivation mentions at any of its nodes: assigned, pending, filled or
    abandoned. -/
def predicates (e : Entry) : List Predicate := e.nodes.flatMap (·.combination.predicates)

/-- The lexical entries of a derivation with their spans, from left to right. -/
def terminals : Entry → List (Span × LexicalEntry)
  | .terminal n lexical _ => [(n.span, lexical)]
  | .binary _ _ _ l _ r _ => l.terminals ++ r.terminals

/-- The predicates that the lexical entries of a derivation bring in, each at the last word of its
    entry. -/
def introduced (e : Entry) : List Predicate :=
  e.terminals.flatMap fun (span, lexical) => lexical.category.introduced.map (⟨·, span.last⟩)

theorem node_mem_nodes (e : Entry) : e.node ∈ e.nodes := by
  cases e <;> exact List.mem_cons_self

theorem predicates_sign_subset (e : Entry) : e.sign.predicates ⊆ e.predicates := by
  intro p hp
  exact List.mem_flatMap.2 ⟨e.node, e.node_mem_nodes, Combination.mem_predicates.2 (.inl hp)⟩

theorem predicates_terminal (n : Node) (lexical : LexicalEntry) (words : List String) :
    (terminal n lexical words).predicates = n.combination.predicates :=
  List.append_nil _

theorem predicates_binary (n : Node) (combinator : Combinator) (split : Nat) (l : Entry)
    (lp : Float) (r : Entry) (rp : Float) :
    (binary n combinator split l lp r rp).predicates =
      n.combination.predicates ++ (l.predicates ++ r.predicates) := by
  rw [predicates, nodes, List.flatMap_cons, List.flatMap_append]
  rfl

theorem introduced_terminal (n : Node) (lexical : LexicalEntry) (words : List String) :
    (terminal n lexical words).introduced =
      lexical.category.introduced.map (⟨·, n.span.last⟩) :=
  List.append_nil _

theorem introduced_binary (n : Node) (combinator : Combinator) (split : Nat) (l : Entry)
    (lp : Float) (r : Entry) (rp : Float) :
    (binary n combinator split l lp r rp).introduced = l.introduced ++ r.introduced :=
  List.flatMap_append

end Entry

namespace Parser

variable {parser : Parser} {scorer : Scorer} {sentence : Sentence} {filter : Filter}
variable {span : Span}

/-- What the node of an entry mentions, its combination mentions: a rule on top adds nothing. -/
theorem predicates_node_subset (hrules : ∀ rule ∈ parser.rules, ∀ d ∈ rule.dependencies,
      ∃ v, d.subject = .var v) {e : Entry} {c : Combination} {p q : Float}
    (h : parser.ReplaysNode scorer span e p c q) :
    e.node.combination.predicates ⊆ c.predicates := by
  unfold ReplaysNode at h
  split at h
  · obtain ⟨hsign, hfilled, habandoned, -⟩ := h
    rw [Node.combination, hsign, hfilled, habandoned]
    exact List.Subset.refl _
  · obtain ⟨hrule, -, u, happly, hsign, hfilled, habandoned, -⟩ := h
    have hu := UnaryRule.predicates_apply_subset (hrules _ hrule) happly
    -- What was settled before the rule stays; the rest comes from the sign before it.
    have hbefore : u.predicates ⊆ c.predicates :=
      fun x hx => Combination.mem_predicates.2 (.inl (hu hx))
    intro x hx
    rw [Node.combination, hsign, hfilled, habandoned, Combination.mem_predicates] at hx
    rcases hx with hx | ⟨d, hd, hx⟩ | ⟨d, hd, hx⟩
    · exact hbefore (Combination.mem_predicates.2 (.inl hx))
    · rcases List.mem_append.1 hd with hd | hd
      · exact Combination.mem_predicates.2 (.inr (.inl ⟨d, hd, hx⟩))
      · exact hbefore (Combination.mem_predicates.2 (.inr (.inl ⟨d, hd, hx⟩)))
    · rcases List.mem_append.1 hd with hd | hd
      · exact Combination.mem_predicates.2 (.inr (.inr ⟨d, hd, hx⟩))
      · exact hbefore (Combination.mem_predicates.2 (.inr (.inr ⟨d, hd, hx⟩)))

/-- Every predicate of a derivation in the chart is one that its lexical entries bring in. -/
theorem predicates_subset_of_mem_cell (hrules : ∀ rule ∈ parser.rules, ∀ d ∈ rule.dependencies,
      ∃ v, d.subject = .var v) {e : Entry} {p : Float}
    (h : ⟨e, p⟩ ∈ (parser.parseChart scorer sentence filter).cell span) :
    e.predicates ⊆ e.introduced := by
  -- The children of an entry are in the chart too: the induction goes down the entry.
  induction e generalizing p span with
  | terminal n lexical words =>
    have hreplays := replays_of_mem_cell h
    obtain ⟨c, q, ⟨-, -, rfl, -⟩, hnode⟩ := hreplays.step
    have hspan : n.span = span := hreplays.span_eq
    rw [Entry.predicates_terminal, Entry.introduced_terminal, hspan]
    exact List.Subset.trans (predicates_node_subset hrules hnode)
      (LexicalCategory.predicates_signAt_subset _ _)
  | binary n combinator split l lp r rp ihl ihr =>
    obtain ⟨c, q, ⟨-, hleft, hright, hcombine, -⟩, hnode⟩ := (replays_of_mem_cell h).step
    have hl := ihl hleft
    have hr := ihr hright
    have hc := Combinator.predicates_apply_subset (Combinators.mem_combine.1 hcombine).2
    have hself : n.combination.predicates ⊆ l.introduced ++ r.introduced := by
      intro x hx
      rcases List.mem_append.1 (hc (predicates_node_subset hrules hnode hx)) with hx | hx
      · exact List.mem_append_left _ (hl (l.predicates_sign_subset hx))
      · exact List.mem_append_right _ (hr (r.predicates_sign_subset hx))
    rw [Entry.predicates_binary, Entry.introduced_binary, List.append_subset]
    exact ⟨hself, List.append_subset.2
      ⟨List.subset_append_of_subset_left _ hl, List.subset_append_of_subset_right _ hr⟩⟩

/-- The lexical entries of a derivation lie within its span. -/
theorem terminals_within_of_mem_cell {e : Entry} {p : Float}
    (h : ⟨e, p⟩ ∈ (parser.parseChart scorer sentence filter).cell span) :
    ∀ t ∈ e.terminals, span.start ≤ t.1.last ∧ t.1.last ≤ span.last := by
  induction e generalizing p span with
  | terminal n lexical words =>
    have hspan : n.span = span := (replays_of_mem_cell h).span_eq
    have hwithin := (Chart.within_of_mem_cell h).1
    intro t ht
    rw [Entry.terminals, List.mem_singleton] at ht
    subst ht
    exact ⟨hspan ▸ hwithin, hspan ▸ Nat.le_refl _⟩
  | binary n combinator split l lp r rp ihl ihr =>
    obtain ⟨c, q, ⟨⟨hstart, hlast⟩, hleft, hright, -, -⟩, -⟩ := (replays_of_mem_cell h).step
    intro t ht
    rcases List.mem_append.1 ht with ht | ht
    · have hpart : span.start ≤ t.1.last ∧ t.1.last ≤ split := ihl hleft t ht
      omega
    · have hpart : split + 1 ≤ t.1.last ∧ t.1.last ≤ span.last := ihr hright t ht
      omega

/-- Whatever an item mentions, one of its words has brought in: the predicate has the position of
    the last word of a lexical entry of the derivation, within the span of the item, and the
    category of that entry names it. -/
theorem predicate_local_of_mem_cell (parser : Parser) (scorer : Scorer) (sentence : Sentence)
    (filter : Filter) (span : Span) (item : Item)
    (hrules : ∀ rule ∈ parser.rules, ∃ input result ds, UnaryRule.make input result ds = .ok rule)
    (h : item ∈ (parser.parseChart scorer sentence filter).cell span) :
    ∀ p ∈ item.entry.predicates, span.start ≤ p.index ∧ p.index ≤ span.last ∧
      ∃ t ∈ item.entry.terminals, t.1.last = p.index ∧ p.name ∈ t.2.category.introduced := by
  have hsubjects : ∀ rule ∈ parser.rules, ∀ d ∈ rule.dependencies, ∃ v, d.subject = .var v := by
    intro rule hrule
    obtain ⟨input, result, ds, hmake⟩ := hrules rule hrule
    exact (UnaryRule.make_eq_ok_iff.1 hmake).2.subject_var
  intro p hp
  obtain ⟨t, ht, hintroduced⟩ := List.mem_flatMap.1 (predicates_subset_of_mem_cell hsubjects h hp)
  obtain ⟨name, hname, rfl⟩ := List.mem_map.1 hintroduced
  obtain ⟨hstart, hlast⟩ := terminals_within_of_mem_cell h t ht
  exact ⟨hstart, hlast, t, ht, rfl, hname⟩

/-- The noun of the sample, which a unary rule has made a noun phrase, fills the argument of the
    verb: both keep the positions of their words. -/
theorem predicate_local_of_mem_cell_sample :
    (∀ rule ∈ Grammar.sample.parser.rules,
      ∃ input result ds, UnaryRule.make input result ds = .ok rule) ∧
    ∃ item ∈ (Grammar.sample.parser.parseChart .uniform .sample .none).cell ⟨0, 1⟩,
      item.entry.predicates =
        [⟨"sleep", 1⟩, ⟨"sleep", 1⟩, ⟨"thing", 0⟩, ⟨"thing", 0⟩, ⟨"sleep", 1⟩, ⟨"sleep", 1⟩] ∧
      ∃ t ∈ item.entry.terminals, t.1.last = 0 ∧ "thing" ∈ t.2.category.introduced := by
  have hrules : ∀ rule ∈ Grammar.sample.parser.rules,
      ∃ input result ds, UnaryRule.make input result ds = .ok rule := by
    intro rule hrule
    have hsingle : rule = ⟨.atom "N" .unspecified 0, .atom "NP" .unspecified 0, []⟩ :=
      List.mem_singleton.1 hrule
    subst hsingle
    exact ⟨.atom "N" .unspecified 0, .atom "NP" .unspecified 0, [], rfl⟩
  have hcell : ((Grammar.sample.parser.parseChart .uniform .sample .none).cell ⟨0, 1⟩).map
      (·.entry.predicates) =
        [[⟨"sleep", 1⟩, ⟨"sleep", 1⟩, ⟨"thing", 0⟩, ⟨"thing", 0⟩, ⟨"sleep", 1⟩, ⟨"sleep", 1⟩]] := by
    decide +kernel
  obtain ⟨item, hmem, hpredicates⟩ := List.mem_map.1 (hcell ▸ List.mem_singleton_self _)
  have hlocal := predicate_local_of_mem_cell _ _ _ _ _ item hrules hmem ⟨"thing", 0⟩
    (hpredicates ▸ by decide)
  exact ⟨hrules, item, hmem, hpredicates, hlocal.2.2⟩

end Parser

end Categorial
