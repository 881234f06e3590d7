/-
  Categorial.Proofs.Sign.Resolution

  What a step keeps of the dependencies that come into it, counted.  Every step finishes a merge,
  and the merge is brought out here as a value of its own (`Step`).  No step changes the argument
  number of a dependency, nor its subject once that is known: its mark.  One dependency may become
  several, but none gets lost, and none becomes several if every variable that is resolved has a
  single predicate (`Step.kept_outcome`).
-/

import Categorial.Proofs.Sign.Conservation
import Mathlib.Data.Finset.Card

namespace Categorial

/-! ## Marks -/

/-- What no step changes in a dependency: its subject, once known, and its argument number. -/
structure Mark where
  subject? : Option Predicate
  argument : Nat
  deriving DecidableEq

def Side.predicate? : Side → Option Predicate
  | .predicate p => some p
  | .var _ => none

def Link.mark (l : Link) : Mark := ⟨l.subject.predicate?, l.argument⟩

/-- The marks of links, each as often as it occurs. -/
def marks (links : List Link) : Multiset Mark := (links.map Link.mark : List Mark)

theorem Link.mark_eq_iff {l : Link} {p : Predicate} {k : Nat} :
    l.mark = ⟨some p, k⟩ ↔ l.subject = .predicate p ∧ l.argument = k := by
  obtain ⟨s, k', o⟩ := l
  cases s <;> simp [mark, Side.predicate?]

@[simp] theorem Link.mark_rename (m : Renaming) (l : Link) : (l.rename m).mark = l.mark := by
  obtain ⟨s, k, o⟩ := l
  cases s <;> rfl

@[simp] theorem marks_append (ls ls' : List Link) : marks (ls ++ ls') = marks ls + marks ls' := by
  rw [marks, List.map_append, ← Multiset.coe_add]
  rfl

theorem marks_rename (m : Renaming) (ls : List Link) :
    marks (ls.map (Link.rename m)) = marks ls := by
  rw [marks, List.map_map, marks]
  congr 2
  funext l
  exact l.mark_rename m

theorem card_marks (links : List Link) : (marks links).card = links.length := by
  rw [marks, Multiset.coe_card, List.length_map]

theorem count_marks (links : List Link) (q : Predicate) (k : Nat) :
    (marks links).count ⟨some q, k⟩ =
      links.countP fun l => l.subject = .predicate q ∧ l.argument = k := by
  rw [marks, Multiset.coe_count, List.count_eq_countP, List.countP_map]
  refine List.countP_congr fun l _ => ?_
  rw [Function.comp_apply, beq_iff_eq, decide_eq_true_iff]
  exact Link.mark_eq_iff

/-- Some links are kept: each has become one or more others, with its mark as far as that was known.
    If `single` holds, each has become just one. -/
structure Kept (single : Prop) (before after : Multiset Mark) : Prop where
  card_le : before.card ≤ after.card
  count_le : ∀ p k, before.count ⟨some p, k⟩ ≤ after.count ⟨some p, k⟩
  argument_mem : ∀ a ∈ after, ∃ b ∈ before, b.argument = a.argument
  card_eq : single → after.card = before.card

namespace Kept

variable {single single' : Prop} {a b c a' b' : Multiset Mark}

theorem refl (single : Prop) (a : Multiset Mark) : Kept single a a where
  card_le := Nat.le_refl _
  count_le _ _ := Nat.le_refl _
  argument_mem x hx := ⟨x, hx, rfl⟩
  card_eq _ := rfl

theorem trans (h : Kept single a b) (h' : Kept single b c) : Kept single a c where
  card_le := Nat.le_trans h.card_le h'.card_le
  count_le p k := Nat.le_trans (h.count_le p k) (h'.count_le p k)
  argument_mem x hx := by
    obtain ⟨y, hy, hyx⟩ := h'.argument_mem x hx
    obtain ⟨z, hz, hzy⟩ := h.argument_mem y hy
    exact ⟨z, hz, hzy.trans hyx⟩
  card_eq hsingle := (h'.card_eq hsingle).trans (h.card_eq hsingle)

theorem add (h : Kept single a b) (h' : Kept single a' b') : Kept single (a + a') (b + b') where
  card_le := by
    rw [Multiset.card_add, Multiset.card_add]
    exact Nat.add_le_add h.card_le h'.card_le
  count_le p k := by
    rw [Multiset.count_add, Multiset.count_add]
    exact Nat.add_le_add (h.count_le p k) (h'.count_le p k)
  argument_mem x hx := by
    rcases Multiset.mem_add.1 hx with hx | hx
    · obtain ⟨y, hy, hyx⟩ := h.argument_mem x hx
      exact ⟨y, Multiset.mem_add.2 (.inl hy), hyx⟩
    · obtain ⟨y, hy, hyx⟩ := h'.argument_mem x hx
      exact ⟨y, Multiset.mem_add.2 (.inr hy), hyx⟩
  card_eq hsingle := by
    rw [Multiset.card_add, Multiset.card_add, h.card_eq hsingle, h'.card_eq hsingle]

theorem imp (himp : single' → single) (h : Kept single a b) : Kept single' a b :=
  { h with card_eq := fun hsingle => h.card_eq (himp hsingle) }

end Kept

/-! ## Outcomes -/

/-- A variable that is resolved has a single predicate. -/
def SingleIn (known : Var → Finset Predicate) (v : Var) : Prop :=
  known v ≠ ∅ → (known v).card = 1

theorem Side.card_outcomes {known : Var → Finset Predicate} {s : Side}
    (h : ∀ v ∈ s.vars, SingleIn known v) : (s.outcomes known).card = 1 := by
  cases s with
  | predicate p => rfl
  | var v =>
    rw [outcomes]
    split
    · rfl
    · rename_i hne
      rw [Multiset.card_map, Finset.card_val]
      exact h v List.mem_cons_self hne

namespace Link

variable {known : Var → Finset Predicate} {l o : Link}

theorem mark_of_mem_outcomes (h : o ∈ l.outcomes known) {p : Predicate} {k : Nat}
    (hl : l.mark = ⟨some p, k⟩) : o.mark = ⟨some p, k⟩ := by
  obtain ⟨hs, -, hk⟩ := mem_outcomes.1 h
  obtain ⟨hsubject, hargument⟩ := mark_eq_iff.1 hl
  exact mark_eq_iff.2 ⟨Side.eq_of_mem_outcomes hs p hsubject, hk.trans hargument⟩

theorem card_outcomes (h : ∀ v ∈ l.vars, SingleIn known v) : (l.outcomes known).card = 1 := by
  have hsubject : (l.subject.outcomes known).card = 1 :=
    Side.card_outcomes fun v hv => h v (List.mem_append_left _ hv)
  have hobject : (l.object.outcomes known).card = 1 :=
    Side.card_outcomes fun v hv => h v (List.mem_append_right _ hv)
  obtain ⟨s, hs⟩ := Multiset.card_eq_one.1 hsubject
  rw [outcomes, hs, Multiset.singleton_bind, Multiset.card_map, hobject]

/-- A link is kept in its outcomes. -/
theorem kept_outcomes (known : Var → Finset Predicate) (l : Link) :
    Kept (∀ v ∈ l.vars, SingleIn known v) {l.mark} ((l.outcomes known).map mark) where
  card_le := by
    rw [Multiset.card_singleton, Multiset.card_map]
    exact Multiset.card_pos.2 (l.outcomes_ne_zero known)
  count_le p k := by
    by_cases hl : l.mark = ⟨some p, k⟩
    · obtain ⟨o, ho⟩ := Multiset.exists_mem_of_ne_zero (l.outcomes_ne_zero known)
      have hmem : (⟨some p, k⟩ : Mark) ∈ (l.outcomes known).map mark :=
        Multiset.mem_map.2 ⟨o, ho, mark_of_mem_outcomes ho hl⟩
      rw [hl, Multiset.count_singleton_self]
      exact Multiset.one_le_count_iff_mem.2 hmem
    · rw [Multiset.count_singleton, if_neg fun heq => hl heq.symm]
      exact Nat.zero_le _
  argument_mem a ha := by
    obtain ⟨o, ho, rfl⟩ := Multiset.mem_map.1 ha
    exact ⟨l.mark, Multiset.mem_singleton_self _, (mem_outcomes.1 ho).2.2.symm⟩
  card_eq hsingle := by
    rw [Multiset.card_map, card_outcomes hsingle, Multiset.card_singleton]

end Link

/-- Links are resolved one by one, so all of them are kept. -/
theorem kept_bind_outcomes (known : Var → Finset Predicate) (links : List Link) :
    Kept (∀ l ∈ links, ∀ v ∈ l.vars, SingleIn known v) (marks links)
      (((links : Multiset Link).bind (·.outcomes known)).map Link.mark) := by
  induction links with
  | nil => exact .refl _ _
  | cons l links ih =>
    rw [← Multiset.cons_coe, Multiset.cons_bind, Multiset.map_add]
    have hl := (l.kept_outcomes known).imp
      fun (h : ∀ l' ∈ l :: links, ∀ v ∈ l'.vars, SingleIn known v) => h l List.mem_cons_self
    have hrest := ih.imp
      fun (h : ∀ l' ∈ l :: links, ∀ v ∈ l'.vars, SingleIn known v) l' hl' =>
        h l' (List.mem_cons_of_mem _ hl')
    exact hl.add hrest

/-! ## Steps -/

/-- Everything that is brought together to make a sign, and the category of the result. -/
structure Step where
  merge : Merge
  result : Headed

namespace Step

/-- What the step makes. -/
def outcome (step : Step) : Combination := step.merge.finish step.result

/-- Every variable that the step resolves has a single predicate. -/
def Single (step : Step) : Prop :=
  ∀ d ∈ step.merge.pending, ∀ v ∈ d.vars,
    step.merge.predicatesOf v ≠ [] → (step.merge.predicatesOf v).length = 1

instance (step : Step) : Decidable step.Single :=
  inferInstanceAs (Decidable (∀ d ∈ step.merge.pending, ∀ v ∈ d.vars,
    step.merge.predicatesOf v ≠ [] → (step.merge.predicatesOf v).length = 1))

/-- The step that makes the sign of a word. -/
def ofLexical (c : LexicalCategory) (index : Nat) : Step where
  merge :=
    { assignments := c.namings.map fun (v, name) => ⟨v, name, index⟩
      pending := c.dependencies.map (·.instantiate index)
      abandoned := [] }
  result := c.category

/-- The step of an application. -/
def ofApplication? (mode : FeatureMode) (dir : Direction) (functor argument : Sign) :
    Option Step :=
  match functor.category with
  | .func d result wanted _ =>
    if d = dir then
      (Headed.unify mode argument.category wanted).map fun u =>
        ⟨(Merge.ofSign functor).absorb argument u.heads, Headed.bindFeatures u.features result⟩
    else none
  | .atom .. => none

/-- The step of a composition. -/
def ofComposition? (mode : FeatureMode) (dir : Direction) (functor other : Sign) : Option Step :=
  match functor.category, other.category with
  | .func d result wanted _, .func d' offered argument _ =>
    if d = dir ∧ d' = dir then
      (Headed.unify mode offered wanted).map fun u =>
        let heads := Sign.extendFresh u.heads (functor.category.maxVar + 1) other.category.vars
        ⟨(Merge.ofSign functor).absorb other heads,
          .func dir (Headed.bindFeatures u.features result) (Headed.rename heads argument)
            result.label⟩
    else none
  | _, _ => none

/-- The step by which a combinator combines two adjacent signs. -/
def ofCombinator? (mode : FeatureMode) (left right : Sign) : Combinator → Option Step
  | .forwardApplication => ofApplication? mode .forward left right
  | .backwardApplication => ofApplication? mode .backward right left
  | .forwardComposition => ofComposition? mode .forward left right
  | .backwardComposition => ofComposition? mode .backward right left

/-- The step of a unary rule. -/
def ofRule? (mode : FeatureMode) (rule : UnaryRule) (s : Sign) : Option Step :=
  (Headed.unify mode s.category rule.input).map fun u =>
    ⟨(Merge.empty.absorb s u.heads).addPending (rule.dependencies.map (·.instantiate 0)),
      Headed.bindFeatures u.features rule.result⟩

/-! ## What steps make -/

variable {mode : FeatureMode} {dir : Direction} {c : Combination}

theorem outcome_ofLexical (c : LexicalCategory) (index : Nat) :
    (ofLexical c index).outcome = c.signAt index := rfl

theorem map_outcome_ofApplication? (functor argument : Sign) :
    (ofApplication? mode dir functor argument).map outcome = functor.apply mode dir argument := by
  unfold ofApplication? Sign.apply
  cases functor.category with
  | atom name feature label => rfl
  | func d result wanted label =>
    dsimp only
    split
    · rw [Option.map_map]
      rfl
    · rfl

theorem map_outcome_ofComposition? (functor other : Sign) :
    (ofComposition? mode dir functor other).map outcome = functor.compose mode dir other := by
  unfold ofComposition? Sign.compose
  cases functor.category with
  | atom name feature label => rfl
  | func d result wanted label =>
    cases other.category with
    | atom name feature label => rfl
    | func d' offered argument label' =>
      dsimp only
      split
      · rw [Option.map_map]
        rfl
      · rfl

theorem map_outcome_ofCombinator? (left right : Sign) (combinator : Combinator) :
    (ofCombinator? mode left right combinator).map outcome =
      combinator.apply mode left right := by
  cases combinator with
  | forwardApplication => exact map_outcome_ofApplication? left right
  | backwardApplication => exact map_outcome_ofApplication? right left
  | forwardComposition => exact map_outcome_ofComposition? left right
  | backwardComposition => exact map_outcome_ofComposition? right left

theorem map_outcome_ofRule? (rule : UnaryRule) (s : Sign) :
    (ofRule? mode rule s).map outcome = rule.apply mode s := by
  rw [ofRule?, UnaryRule.apply, Option.map_map]
  rfl

/-! ## What steps keep -/

/-- A step has lost nothing of some links before it resolves them. -/
structure Gathers (step : Step) (before : Multiset Mark) : Prop where
  abandoned : step.merge.abandoned = []
  pending : marks step.merge.incoming.links = before

end Step

def Sign.links (s : Sign) : List Link := s.unfilled.map Pending.link

/-- What a step has settled, and what is pending after it. -/
def Combination.links (c : Combination) : List Link :=
  c.filled.map Dependency.link ++ c.abandoned.map Pending.link ++ c.sign.links

namespace Step

variable {mode : FeatureMode} {dir : Direction} {step : Step}

theorem marks_outcome (h : step.merge.abandoned = []) :
    marks step.outcome.links = (step.merge.incoming.outcomes).map Link.mark := by
  -- Undoing the numbering of the result does not touch the marks of what is pending.
  have hpending : (step.outcome.pendingLinks step.result).map Link.mark =
      marks step.outcome.sign.links := by
    rw [Combination.pendingLinks, Multiset.map_coe, List.map_map, marks, Sign.links, List.map_map]
    congr 2
    funext d
    exact d.link.mark_rename _
  have hbalance : step.outcome.filledLinks + step.outcome.pendingLinks step.result +
      step.outcome.abandonedLinks = step.merge.incoming.outcomes := Merge.balance_finish h
  rw [← hbalance, Multiset.map_add, Multiset.map_add, hpending, Combination.links, marks_append,
    marks_append, add_right_comm]
  rfl

theorem singleIn_of_single (h : step.Single) :
    ∀ l ∈ step.merge.incoming.links, ∀ v ∈ l.vars, SingleIn step.merge.incoming.known v := by
  intro l hl v hv hne
  obtain ⟨d, hd, rfl⟩ := List.mem_map.1 hl
  rw [Pending.vars_link] at hv
  have hval := step.merge.coe_predicatesOf v
  have hcard : (step.merge.predicatesOf v).length = (knownIn step.merge.assignments v).card := by
    rw [← Multiset.coe_card, hval, Finset.card_val]
  rw [Incoming.known, Merge.incoming, ← hcard]
  refine h d hd v hv fun hnil => hne ?_
  rw [hnil] at hval
  exact Finset.val_eq_zero.1 hval.symm

/-- What a step gathers it keeps. -/
theorem kept_outcome {before : Multiset Mark} (h : step.Gathers before) :
    Kept step.Single before (marks step.outcome.links) := by
  rw [marks_outcome h.abandoned, ← h.pending]
  exact (kept_bind_outcomes step.merge.incoming.known step.merge.incoming.links).imp
    singleIn_of_single

theorem invariant_outcome (step : Step) : step.outcome.sign.Invariant :=
  Merge.invariant_finish step.merge step.result

theorem gathers_ofLexical (c : LexicalCategory) (index : Nat) :
    (ofLexical c index).Gathers (marks (Incoming.ofLexical c index).links) where
  abandoned := rfl
  pending := by
    simp only [ofLexical, Merge.incoming, Incoming.ofLexical, List.map_map]
    rfl

/-- When all variables of a sign have an image, a merge takes in all its links. -/
theorem marks_absorb {m : Merge} {s : Sign} {heads : Renaming} (hs : s.Invariant)
    (himages : ∀ v ∈ s.category.labels, (heads.image? v).isSome = true) :
    marks (m.absorb s heads).incoming.links = marks m.incoming.links + marks s.links := by
  rw [Merge.incoming_absorb hs himages, Incoming.append, marks_append, Incoming.rename,
    marks_rename]
  rfl

theorem gathers_ofApplication? {functor argument : Sign} (ha : argument.Invariant)
    (h : ofApplication? mode dir functor argument = some step) :
    step.Gathers (marks functor.links + marks argument.links) := by
  unfold ofApplication? at h
  split at h
  · split at h
    · obtain ⟨u, hu, rfl⟩ := Option.map_eq_some_iff.1 h
      have himages : ∀ v ∈ argument.category.labels, (u.heads.image? v).isSome = true :=
        fun v hv => Headed.isSome_image?_of_unify hu hv
      exact ⟨Merge.abandoned_absorb ha himages, marks_absorb ha himages⟩
    · cases h
  · cases h

theorem gathers_ofComposition? {functor other : Sign} (ho : other.Invariant)
    (h : ofComposition? mode dir functor other = some step) :
    step.Gathers (marks functor.links + marks other.links) := by
  unfold ofComposition? at h
  split at h
  · split at h
    · obtain ⟨u, hu, rfl⟩ := Option.map_eq_some_iff.1 h
      -- Unification covers the offered category, and fresh numbers cover the rest.
      have himages : ∀ v ∈ other.category.labels,
          ((Sign.extendFresh u.heads (functor.category.maxVar + 1) other.category.vars).image?
            v).isSome = true :=
        fun v hv => Sign.isSome_image?_extendFresh (Headed.mem_vars.2 hv)
      exact ⟨Merge.abandoned_absorb ho himages, marks_absorb ho himages⟩
    · cases h
  · cases h

theorem gathers_ofCombinator? {left right : Sign} {combinator : Combinator}
    (hl : left.Invariant) (hr : right.Invariant)
    (h : ofCombinator? mode left right combinator = some step) :
    step.Gathers (marks left.links + marks right.links) := by
  cases combinator with
  | forwardApplication => exact gathers_ofApplication? hr h
  | backwardApplication =>
    rw [add_comm]
    exact gathers_ofApplication? hl h
  | forwardComposition => exact gathers_ofComposition? hr h
  | backwardComposition =>
    rw [add_comm]
    exact gathers_ofComposition? hl h

theorem gathers_ofRule? {rule : UnaryRule} {s : Sign} (hs : s.Invariant)
    (h : ofRule? mode rule s = some step) :
    step.Gathers (marks s.links + marks (Incoming.ofRule rule).links) := by
  obtain ⟨u, hu, rfl⟩ := Option.map_eq_some_iff.1 h
  have himages : ∀ v ∈ s.category.labels, (u.heads.image? v).isSome = true :=
    fun v hv => Headed.isSome_image?_of_unify hu hv
  refine ⟨Merge.abandoned_absorb (m := Merge.empty) hs himages, ?_⟩
  have habsorb : marks (Merge.empty.absorb s u.heads).incoming.links = marks s.links :=
    (marks_absorb hs himages).trans (zero_add _)
  rw [Merge.incoming_addPending, Incoming.append, marks_append, habsorb, Incoming.ofRule,
    List.map_map]
  rfl

end Step

end Categorial
