/-
  Categorial.Proofs.Chart.Conservation

  No derivation loses a dependency.  What comes into a derivation are the dependencies of its
  lexical entries and of its unary rules (`Entry.broughtLinks`); what it reports are the filled and
  the abandoned ones of all its nodes, and those that are pending at its root
  (`Entry.reportedLinks`).  What is pending at an inner node is not reported there, but comes into
  the step above, so the balance of a derivation is that of its parts and of its last step
  (`kept_of_mem_cell`).
-/

import Categorial.Proofs.Chart.Soundness
import Categorial.Proofs.Sign.Resolution
import Mathlib.Tactic.Abel

namespace Categorial

/-! ## What derivations bring in and report -/

/-- The dependencies of the unary rule at a node, if there is one. -/
def Node.ruleLinks (n : Node) : List Link :=
  match n.unary? with
  | some step => (Incoming.ofRule step.rule).links
  | none => []

/-- What is filled and what is abandoned at a node. -/
def Node.settledLinks (n : Node) : List Link :=
  n.filled.map Dependency.link ++ n.abandoned.map Pending.link

namespace Entry

/-- The dependencies of the lexical entries of a derivation, each at the last word of its span, and
    those of the unary rules at its nodes. -/
def broughtLinks : Entry → List Link
  | .terminal n lexical _ =>
    (Incoming.ofLexical lexical.category n.span.last).links ++ n.ruleLinks
  | .binary n _ _ l _ r _ => (l.broughtLinks ++ r.broughtLinks) ++ n.ruleLinks

/-- The dependencies that a derivation fills, and those that it never fills. -/
def reportedLinks (e : Entry) : List Link :=
  e.dependencies.map Dependency.link ++ e.unfilled.map Pending.link

/-- The step that makes the node of an entry, before any unary rule. -/
def step? (mode : FeatureMode) : Entry → Option Step
  | .terminal n lexical _ => some (.ofLexical lexical.category n.span.last)
  | .binary _ combinator _ l _ r _ => Step.ofCombinator? mode l.sign r.sign combinator

/-- The steps at the node of an entry: a unary rule comes last. -/
def nodeSteps (mode : FeatureMode) (e : Entry) : List Step :=
  match e.step? mode with
  | some step =>
    step :: (e.unary?.bind fun unary => Step.ofRule? mode unary.rule step.outcome.sign).toList
  | none => []

/-- The steps of a derivation. -/
def steps (mode : FeatureMode) : Entry → List Step
  | e@(.terminal _ _ _) => e.nodeSteps mode
  | e@(.binary _ _ _ l _ r _) => (l.steps mode ++ r.steps mode) ++ e.nodeSteps mode

theorem marks_reportedLinks (e : Entry) :
    marks e.reportedLinks = marks (e.nodes.flatMap Node.settledLinks) + marks e.sign.links := by
  have hsettled : marks (e.nodes.flatMap Node.settledLinks) =
      marks ((e.nodes.flatMap Node.filled).map Dependency.link) +
        marks ((e.nodes.flatMap Node.abandoned).map Pending.link) := by
    induction e.nodes with
    | nil => rfl
    | cons n ns ih =>
      simp only [List.flatMap_cons, List.map_append, marks_append, ih, Node.settledLinks]
      abel
  rw [reportedLinks, unfilled, List.map_append, marks_append, marks_append, hsettled,
    dependencies, Sign.links]
  abel

end Entry

namespace Parser

variable {parser : Parser} {scorer : Scorer} {sentence : Sentence} {filter : Filter} {chart : Chart}
variable {span : Span}

/-! ## One node -/

theorem exists_step_of_replaysStep {e : Entry} {c : Combination} {q : Float}
    (hspan : e.span = span) (h : parser.ReplaysStep scorer sentence chart span c q e) :
    ∃ step, e.step? parser.config.features = some step ∧ step.outcome = c := by
  cases e with
  | terminal n lexical words =>
    obtain ⟨-, -, rfl, -⟩ := h
    have hlast : n.span.last = span.last := congrArg Span.last hspan
    exact ⟨.ofLexical lexical.category n.span.last, rfl, by rw [Step.outcome_ofLexical, hlast]⟩
  | binary n combinator split l lp r rp =>
    obtain ⟨-, -, -, h, -⟩ := h
    have happly := (Combinators.mem_combine.1 h).2
    rw [← Step.map_outcome_ofCombinator?] at happly
    exact Option.map_eq_some_iff.1 happly

theorem mem_nodeSteps {e : Entry} {mode : FeatureMode} {step : Step}
    (h : e.step? mode = some step) : step ∈ e.nodeSteps mode := by
  rw [Entry.nodeSteps, h]
  exact List.mem_cons_self

theorem rule_mem_nodeSteps {e : Entry} {mode : FeatureMode} {step ruleStep : Step}
    {unary : UnaryStep} (h : e.step? mode = some step) (hunary : e.unary? = some unary)
    (hrule : Step.ofRule? mode unary.rule step.outcome.sign = some ruleStep) :
    ruleStep ∈ e.nodeSteps mode := by
  simp only [Entry.nodeSteps, h, hunary, Option.bind_some, hrule, Option.toList_some]
  exact List.mem_cons_of_mem _ List.mem_cons_self

/-- A unary rule at a node keeps what is pending before it and what it brings in itself; whatever
    was settled before stays settled. -/
theorem kept_node {e : Entry} {step : Step} {p q : Float} {single : Prop}
    {before settled : Multiset Mark} (hstep : e.step? parser.config.features = some step)
    (hnode : parser.ReplaysNode scorer span e p step.outcome q)
    (hsingle : single → ∀ s ∈ e.nodeSteps parser.config.features, s.Single)
    (h : Kept single before (settled + marks step.outcome.links)) :
    e.sign.Invariant ∧
      Kept single (before + marks e.node.ruleLinks)
        (settled + marks e.node.settledLinks + marks e.sign.links) := by
  unfold ReplaysNode at hnode
  split at hnode
  · -- Without a rule the node is that of the combination.
    rename_i hnone
    obtain ⟨hsign, hfilled, habandoned, -⟩ := hnode
    have hrule : marks e.node.ruleLinks = 0 := by
      rw [Node.ruleLinks, hnone]
      rfl
    rw [hrule, add_zero, Node.settledLinks, hfilled, habandoned, Entry.sign, hsign, add_assoc,
      ← marks_append]
    exact ⟨step.invariant_outcome, h⟩
  · rename_i unary hunary
    obtain ⟨-, -, u, happly, hsign, hfilled, habandoned, -⟩ := hnode
    rw [← Step.map_outcome_ofRule?] at happly
    obtain ⟨ruleStep, hrule, rfl⟩ := Option.map_eq_some_iff.1 happly
    rw [Entry.sign, hsign]
    refine ⟨ruleStep.invariant_outcome, ?_⟩
    -- What is pending after the combination goes through the rule, the rest stays.
    have hkept := Step.kept_outcome (Step.gathers_ofRule? step.invariant_outcome hrule)
    have hlast := hkept.imp fun hs : single =>
      hsingle hs ruleStep (rule_mem_nodeSteps hstep hunary hrule)
    have hlinks : marks e.node.ruleLinks = marks (Incoming.ofRule unary.rule).links := by
      rw [Node.ruleLinks, hunary]
    have hmiddle : settled + marks step.outcome.links + marks e.node.ruleLinks =
        settled + marks (step.outcome.filled.map Dependency.link) +
          marks (step.outcome.abandoned.map Pending.link) +
          (marks step.outcome.sign.links + marks (Incoming.ofRule unary.rule).links) := by
      rw [hlinks, Combination.links, marks_append, marks_append]
      abel
    have hend : settled + marks e.node.settledLinks + marks ruleStep.outcome.sign.links =
        settled + marks (step.outcome.filled.map Dependency.link) +
          marks (step.outcome.abandoned.map Pending.link) + marks ruleStep.outcome.links := by
      rw [Node.settledLinks, hfilled, habandoned, Combination.links]
      simp only [List.map_append, marks_append]
      abel
    have hfirst := h.add (.refl single (marks e.node.ruleLinks))
    rw [hmiddle] at hfirst
    rw [hend]
    exact hfirst.trans ((Kept.refl single _).add hlast)

/-! ## Whole derivations -/

/-- In the derivations of a chart the dependencies that come in are kept. -/
theorem kept_of_mem_cell {e : Entry} {p : Float}
    (h : ⟨e, p⟩ ∈ (parser.parseChart scorer sentence filter).cell span) :
    e.sign.Invariant ∧
      Kept (∀ step ∈ e.steps parser.config.features, step.Single) (marks e.broughtLinks)
        (marks (e.nodes.flatMap Node.settledLinks) + marks e.sign.links) := by
  -- The children of an entry are in the chart too: the induction goes down the entry.
  induction e generalizing p span with
  | terminal n lexical words =>
    have hreplays := replays_of_mem_cell h
    obtain ⟨c, q, hreplay, hnode⟩ := hreplays.step
    obtain ⟨step, hstep, rfl⟩ := exists_step_of_replaysStep hreplays.span_eq hreplay
    cases hstep
    have hkept : Kept (∀ s ∈ (Entry.terminal n lexical words).steps parser.config.features,
        s.Single) (marks (Incoming.ofLexical lexical.category n.span.last).links)
        (0 + marks (Step.ofLexical lexical.category n.span.last).outcome.links) := by
      rw [zero_add]
      exact (Step.kept_outcome (Step.gathers_ofLexical _ _)).imp fun hs => hs _ (mem_nodeSteps rfl)
    obtain ⟨hinvariant, hall⟩ := kept_node rfl hnode (fun hs => hs) hkept
    refine ⟨hinvariant, ?_⟩
    rw [zero_add] at hall
    rw [Entry.broughtLinks, marks_append, Entry.nodes, List.flatMap_singleton]
    exact hall
  | binary n combinator split l lp r rp ihl ihr =>
    have hreplays := replays_of_mem_cell h
    obtain ⟨c, q, hreplay, hnode⟩ := hreplays.step
    obtain ⟨step, hstep, rfl⟩ := exists_step_of_replaysStep hreplays.span_eq hreplay
    obtain ⟨-, hleft, hright, -, -⟩ := hreplay
    obtain ⟨hl, hlkept⟩ := ihl hleft
    obtain ⟨hr, hrkept⟩ := ihr hright
    let e := Entry.binary n combinator split l lp r rp
    have hkept : Kept (∀ s ∈ e.steps parser.config.features, s.Single)
        (marks l.broughtLinks + marks r.broughtLinks)
        (marks (l.nodes.flatMap Node.settledLinks) + marks (r.nodes.flatMap Node.settledLinks) +
          marks step.outcome.links) := by
      have hparts := (hlkept.imp fun (hs : ∀ s ∈ e.steps parser.config.features, s.Single) s hmem =>
        hs s (List.mem_append_left _ (List.mem_append_left _ hmem))).add
          (hrkept.imp fun hs s hmem =>
            hs s (List.mem_append_left _ (List.mem_append_right _ hmem)))
      have hlast := (Step.kept_outcome (Step.gathers_ofCombinator? hl hr hstep)).imp
        fun (hs : ∀ s ∈ e.steps parser.config.features, s.Single) =>
          hs step (List.mem_append_right _ (mem_nodeSteps hstep))
      rw [add_add_add_comm] at hparts
      exact hparts.trans ((Kept.refl _ _).add hlast)
    obtain ⟨hinvariant, hall⟩ := kept_node hstep hnode
      (fun hs s hmem => hs s (List.mem_append_right _ hmem)) hkept
    refine ⟨hinvariant, ?_⟩
    rw [Entry.broughtLinks, marks_append, marks_append, Entry.nodes, List.flatMap_cons,
      List.flatMap_append, marks_append, marks_append,
      add_comm (marks (Node.settledLinks n))]
    exact hall

/-- An analysis reports at least as many dependencies as its lexical entries and unary rules bring
    in, in all and for every known subject and argument number, and none has an argument number that
    none of those has. It reports just as many if every variable that is resolved has a single
    predicate. -/
theorem links_kept_of_mem_parse (parser : Parser) (scorer : Scorer) (sentence : Sentence)
    (filter : Filter) (p : Parse) (h : p ∈ parser.parse scorer sentence filter) :
    p.entry.broughtLinks.length ≤ p.entry.reportedLinks.length ∧
    (∀ (q : Predicate) (k : Nat),
      p.entry.broughtLinks.countP (fun l => l.subject = .predicate q ∧ l.argument = k) ≤
        p.entry.reportedLinks.countP fun l => l.subject = .predicate q ∧ l.argument = k) ∧
    (∀ o ∈ p.entry.reportedLinks, ∃ l ∈ p.entry.broughtLinks, l.argument = o.argument) ∧
    ((∀ step ∈ p.entry.steps parser.config.features, step.Single) →
      p.entry.reportedLinks.length = p.entry.broughtLinks.length) := by
  obtain ⟨-, hkept⟩ := kept_of_mem_cell (mem_cell_of_mem_parse h)
  rw [← Entry.marks_reportedLinks] at hkept
  have hcard_le := hkept.card_le
  have hcard_eq := hkept.card_eq
  rw [card_marks, card_marks] at hcard_le hcard_eq
  refine ⟨hcard_le, fun q k => ?_, fun o ho => ?_, hcard_eq⟩
  · have hcount := hkept.count_le q k
    rwa [count_marks, count_marks] at hcount
  · have hmem : o.mark ∈ marks p.entry.reportedLinks :=
      Multiset.mem_coe.2 (List.mem_map_of_mem ho)
    obtain ⟨m, hm, hargument⟩ := hkept.argument_mem o.mark hmem
    obtain ⟨l, hl, rfl⟩ := List.mem_map.1 (Multiset.mem_coe.1 hm)
    exact ⟨l, hl, hargument⟩

/-- The noun is the subject of the verb, and nothing else is said. -/
theorem links_kept_of_mem_parse_sample :
    ∃ p ∈ Grammar.sample.parser.parse .uniform .sample .none,
      p.entry.broughtLinks = [⟨.predicate ⟨"sleep", 1⟩, 1, .var 1⟩] ∧
      (∀ step ∈ p.entry.steps .strict, step.Single) ∧ p.entry.reportedLinks.length = 1 := by
  have hparses : (Grammar.sample.parser.parse .uniform .sample .none).map
      (fun p => (p.entry.broughtLinks, decide (∀ step ∈ p.entry.steps .strict, step.Single))) =
        [([⟨.predicate ⟨"sleep", 1⟩, 1, .var 1⟩], true)] := by decide +kernel
  obtain ⟨p, hp, hpair⟩ := List.mem_map.1 (hparses ▸ List.mem_singleton_self _)
  obtain ⟨hbrought, hsingle⟩ := Prod.mk.inj hpair
  have hsingle := of_decide_eq_true hsingle
  have hlength := (links_kept_of_mem_parse _ _ _ _ p hp).2.2.2 hsingle
  rw [hbrought] at hlength
  exact ⟨p, hp, hbrought, hsingle, hlength⟩

end Parser

end Categorial
