/-
  Categorial.Proofs.Sign.Conservation

  No step loses a dependency.  What comes into a step are the dependencies of its parts, brought
  over to the variables of its result, and those that a rule or a lexical category adds
  (`Incoming`).  Each of them has its outcomes under what is known after merging, and these are, as
  multisets, the filled ones, the pending ones of the new sign with their old variables, and the
  abandoned ones.  A dependency is abandoned just when it waits for a variable that the result does
  not have (`Conserves`).
-/

import Categorial.Proofs.Category.Unification
import Categorial.Proofs.Sign.Invariant

namespace Categorial

/-! ## What comes in and what goes out -/

/-- What comes into a step, over the variables of its result. -/
structure Incoming where
  assignments : List Assignment
  links : List Link

namespace Incoming

def ofSign (s : Sign) : Incoming := ⟨s.assignments, s.unfilled.map Pending.link⟩

/-- The dependencies of a unary rule. -/
def ofRule (rule : UnaryRule) : Incoming :=
  ⟨[], rule.dependencies.map fun d => (d.instantiate 0).link⟩

/-- The names and the dependencies of a lexical category at a word. -/
def ofLexical (c : LexicalCategory) (index : Nat) : Incoming :=
  ⟨c.namings.map fun (v, name) => ⟨v, name, index⟩,
    c.dependencies.map fun d => (d.instantiate index).link⟩

/-- Everything brought over by a renaming. -/
def rename (m : Renaming) (i : Incoming) : Incoming :=
  ⟨i.assignments.map fun a => ⟨m.apply a.var, a.predicate⟩, i.links.map (Link.rename m)⟩

def append (i j : Incoming) : Incoming := ⟨i.assignments ++ j.assignments, i.links ++ j.links⟩

/-- What is known after merging. -/
def known (i : Incoming) : Var → Finset Predicate := knownIn i.assignments

/-- What becomes of all dependencies. -/
def outcomes (i : Incoming) : Multiset Link := (i.links : Multiset Link).bind (·.outcomes i.known)

end Incoming

namespace Combination

/-- The filled dependencies. -/
def filledLinks (c : Combination) : Multiset Link := c.filled.map Dependency.link

/-- The pending dependencies of the new sign with the variables of `result`, of which the category
    of the sign is the canonical form. -/
def pendingLinks (c : Combination) (result : Headed) : Multiset Link :=
  c.sign.unfilled.map fun d => d.link.rename result.numbering.inverse

/-- The abandoned dependencies. -/
def abandonedLinks (c : Combination) : Multiset Link := c.abandoned.map Pending.link

end Combination

/-- A step that brings `incoming` to `result` loses nothing. -/
structure Conserves (incoming : Incoming) (result : Headed) (c : Combination) : Prop where
  category : c.sign.category = result.canonical
  /-- What goes out are the outcomes of what comes in. -/
  balance : c.filledLinks + c.pendingLinks result + c.abandonedLinks = incoming.outcomes
  /-- Filled are the outcomes that wait for nothing. -/
  filled : c.filledLinks = incoming.outcomes.filter fun l => l.vars = []
  /-- Abandoned are the outcomes that wait for a variable that the result does not have. -/
  abandoned : c.abandonedLinks = incoming.outcomes.filter fun l => ∃ v ∈ l.vars, v ∉ result.labels
  /-- Everything that comes in has an outcome. -/
  nonempty : ∀ l ∈ incoming.links, l.outcomes incoming.known ≠ 0
  /-- Argument numbers and known sides stay. -/
  keeps : ∀ l ∈ incoming.links, ∀ o ∈ l.outcomes incoming.known, o.argument = l.argument ∧
    (∀ p, l.subject = .predicate p → o.subject = .predicate p) ∧
    ∀ p, l.object = .predicate p → o.object = .predicate p

/-! ## Finishing a merge -/

theorem Side.eq_of_mem_outcomes {known : Var → Finset Predicate} {s o : Side}
    (h : o ∈ s.outcomes known) (p : Predicate) (hs : s = .predicate p) : o = .predicate p := by
  subst hs
  exact Multiset.mem_singleton.1 h

theorem Link.rename_inverse_numbering {result : Headed} {d d' : Pending}
    (h : d.rename? result.numbering = some d') :
    d'.link.rename result.numbering.inverse = d.link := by
  have hsome := Pending.rename?_isSome_iff.1 (Option.isSome_iff_exists.2 ⟨d', h⟩)
  rw [Pending.link_of_rename? h]
  refine rename_rename fun v hv => ?_
  rw [Pending.vars_link] at hv
  obtain ⟨i, hi⟩ := Option.isSome_iff_exists.1 (hsome v hv)
  rw [Renaming.apply_of_image? hi]
  exact Headed.apply_inverse_numbering hi

namespace Merge

variable {m : Merge} {result : Headed}

/-- What a merge brings to its end. -/
def incoming (m : Merge) : Incoming := ⟨m.assignments, m.pending.map Pending.link⟩

/-- Dependencies are resolved one by one, so their outcomes add up. -/
theorem outcomes_of_resolve (m : Merge) (ds : List Pending) :
    ((ds.map Pending.link : List Link) : Multiset Link).bind
        (·.outcomes (knownIn m.assignments)) =
      ((ds.flatMap fun d => (d.resolve m.predicatesOf).filledPart).map Dependency.link :
        List Link) +
      ((ds.flatMap fun d => (d.resolve m.predicatesOf).pendingPart d).map Pending.link :
        List Link) := by
  induction ds with
  | nil => rfl
  | cons d ds ih =>
    have hd := Pending.resolve_outcomes m.coe_predicatesOf d
    rw [← Multiset.coe_add] at hd
    rw [List.map_cons, ← Multiset.cons_coe, Multiset.cons_bind, ih, List.flatMap_cons,
      List.flatMap_cons, List.map_append, List.map_append, ← Multiset.coe_add,
      ← Multiset.coe_add, ← hd]
    exact add_add_add_comm _ _ _ _

theorem outcomes_incoming :
    m.incoming.outcomes =
      (m.filledBy.map Dependency.link : List Link) +
        (m.pendingAfter.map Pending.link : List Link) :=
  outcomes_of_resolve m m.pending

theorem rename?_isNone_iff {d : Pending} :
    (d.rename? result.numbering).isNone = true ↔ ∃ v ∈ d.link.vars, v ∉ result.labels := by
  rw [← Bool.not_eq_false, Option.isNone_eq_false_iff, Pending.rename?_isSome_iff,
    Pending.vars_link]
  simp only [Headed.image?_numbering_isSome, not_forall, exists_prop]

theorem filledLinks_finish :
    (m.finish result).filledLinks = (m.filledBy.map Dependency.link : List Link) := by
  rw [Combination.filledLinks, filled_finish, Multiset.coe_eq_coe]
  exact (sorted_perm _).map _

/-- Undoing the numbering gives back the dependencies that it could rename. -/
theorem map_rename_inverse (ds : List Pending) :
    (ds.filterMap (·.rename? result.numbering)).map
        (fun d => d.link.rename result.numbering.inverse) =
      (ds.filter fun d => (d.rename? result.numbering).isSome).map Pending.link := by
  induction ds with
  | nil => rfl
  | cons d ds ih =>
    cases hd : d.rename? result.numbering with
    | none => rw [List.filterMap_cons_none hd, List.filter_cons_of_neg (by simp [hd]), ih]
    | some d' =>
      rw [List.filterMap_cons_some hd, List.filter_cons_of_pos (by simp [hd]), List.map_cons,
        List.map_cons, ih, Link.rename_inverse_numbering hd]

theorem pendingLinks_finish :
    (m.finish result).pendingLinks result =
      ((m.pendingAfter.filter fun d => (d.rename? result.numbering).isSome).map Pending.link :
        List Link) := by
  rw [Combination.pendingLinks, unfilled_finish, ← map_rename_inverse, Multiset.coe_eq_coe]
  exact (sorted_perm _).map _

theorem abandonedLinks_finish (hm : m.abandoned = []) :
    (m.finish result).abandonedLinks =
      ((m.pendingAfter.filter fun d => (d.rename? result.numbering).isNone).map Pending.link :
        List Link) := by
  rw [Combination.abandonedLinks, abandoned_finish, hm, List.nil_append]

theorem balance_finish (hm : m.abandoned = []) :
    (m.finish result).filledLinks + (m.finish result).pendingLinks result +
      (m.finish result).abandonedLinks = m.incoming.outcomes := by
  have hperm := List.filter_append_perm
    (fun d : Pending => (d.rename? result.numbering).isSome) m.pendingAfter
  simp only [Option.not_isSome] at hperm
  have hlinks : ((m.pendingAfter.map Pending.link : List Link) : Multiset Link) =
      ((m.pendingAfter.filter fun d => (d.rename? result.numbering).isSome).map Pending.link :
        List Link) +
      ((m.pendingAfter.filter fun d => (d.rename? result.numbering).isNone).map Pending.link :
        List Link) := by
    rw [Multiset.coe_add, ← List.map_append, Multiset.coe_eq_coe]
    exact (hperm.map _).symm
  rw [filledLinks_finish, pendingLinks_finish, abandonedLinks_finish hm, outcomes_incoming, hlinks,
    add_assoc]

theorem filled_eq_filter :
    (m.finish result).filledLinks = m.incoming.outcomes.filter fun l => l.vars = [] := by
  have hfilled : ((m.filledBy.map Dependency.link : List Link) : Multiset Link).filter
      (fun l => l.vars = []) = (m.filledBy.map Dependency.link : List Link) := by
    refine Multiset.filter_eq_self.2 fun l hl => ?_
    obtain ⟨d, -, rfl⟩ := List.mem_map.1 (Multiset.mem_coe.1 hl)
    exact d.vars_link
  have hpending : ((m.pendingAfter.map Pending.link : List Link) : Multiset Link).filter
      (fun l => l.vars = []) = 0 := by
    refine Multiset.filter_eq_nil.2 fun l hl => ?_
    obtain ⟨d, -, rfl⟩ := List.mem_map.1 (Multiset.mem_coe.1 hl)
    rw [d.vars_link]
    exact d.vars_ne_nil
  rw [outcomes_incoming, Multiset.filter_add, hfilled, hpending, add_zero, filledLinks_finish]

theorem abandoned_eq_filter (hm : m.abandoned = []) :
    (m.finish result).abandonedLinks =
      m.incoming.outcomes.filter fun l => ∃ v ∈ l.vars, v ∉ result.labels := by
  -- Filled dependencies wait for nothing; the others are renamed unless a variable is missing.
  have hfilled : ((m.filledBy.map Dependency.link : List Link) : Multiset Link).filter
      (fun l => ∃ v ∈ l.vars, v ∉ result.labels) = 0 := by
    refine Multiset.filter_eq_nil.2 fun l hl => ?_
    obtain ⟨d, -, rfl⟩ := List.mem_map.1 (Multiset.mem_coe.1 hl)
    rw [d.vars_link]
    simp
  have hpending : ((m.pendingAfter.map Pending.link : List Link) : Multiset Link).filter
      (fun l => ∃ v ∈ l.vars, v ∉ result.labels) =
        ((m.pendingAfter.filter fun d => (d.rename? result.numbering).isNone).map Pending.link :
          List Link) := by
    rw [Multiset.filter_coe, List.filter_map]
    congr 3
    funext d
    rw [Function.comp_apply, ← Bool.coe_iff_coe, decide_eq_true_iff, rename?_isNone_iff]
  rw [outcomes_incoming, Multiset.filter_add, hfilled, hpending, zero_add,
    abandonedLinks_finish hm]

/-- Finishing a merge that has abandoned nothing so far loses nothing. -/
theorem conserves_finish (hm : m.abandoned = []) (result : Headed) :
    Conserves m.incoming result (m.finish result) where
  category := rfl
  balance := balance_finish hm
  filled := filled_eq_filter
  abandoned := abandoned_eq_filter hm
  nonempty l _ := l.outcomes_ne_zero _
  keeps l _ o ho := by
    obtain ⟨hs, hx, hk⟩ := Link.mem_outcomes.1 ho
    exact ⟨hk, Side.eq_of_mem_outcomes hs, Side.eq_of_mem_outcomes hx⟩

/-! ## Taking in a sign -/

variable {s : Sign} {heads : Renaming}

theorem isSome_rename?_of_images (hs : s.Invariant)
    (himages : ∀ v ∈ s.category.labels, (heads.image? v).isSome = true) {d : Pending}
    (hd : d ∈ s.unfilled) : (d.rename? heads).isSome = true :=
  Pending.rename?_isSome_iff.2 fun v hv => himages v (hs.pending_mem d hd v hv)

/-- When all variables of a sign have an image, no dependency of it is abandoned. -/
theorem abandoned_absorb (hs : s.Invariant)
    (himages : ∀ v ∈ s.category.labels, (heads.image? v).isSome = true) :
    (m.absorb s heads).abandoned = m.abandoned := by
  have hnone : s.unfilled.filter (fun d => (d.rename? heads).isNone) = [] := by
    refine List.filter_eq_nil_iff.2 fun d hd => ?_
    rw [← Option.not_isSome, isSome_rename?_of_images hs himages hd]
    exact Bool.false_ne_true
  rw [absorb, hnone, List.append_nil]

/-- When all variables of a sign have an image, all of it comes in. -/
theorem incoming_absorb (hs : s.Invariant)
    (himages : ∀ v ∈ s.category.labels, (heads.image? v).isSome = true) :
    (m.absorb s heads).incoming = m.incoming.append ((Incoming.ofSign s).rename heads) := by
  have hassignments : s.assignments.filterMap
      (fun a => (heads.image? a.var).map (Assignment.mk · a.predicate)) =
        s.assignments.map fun a => Assignment.mk (heads.apply a.var) a.predicate := by
    rw [← List.filterMap_eq_map']
    refine List.filterMap_congr fun a ha => ?_
    obtain ⟨w, hw⟩ := Option.isSome_iff_exists.1 (himages a.var (hs.assigned_mem a ha))
    rw [hw, Renaming.apply_of_image? hw]
    rfl
  have hlinks : (s.unfilled.filterMap (·.rename? heads)).map Pending.link =
      (s.unfilled.map Pending.link).map (Link.rename heads) := by
    rw [List.map_filterMap, List.map_map, ← List.filterMap_eq_map']
    refine List.filterMap_congr fun d hd => ?_
    obtain ⟨d', hd'⟩ := Option.isSome_iff_exists.1 (isSome_rename?_of_images hs himages hd)
    rw [hd', Option.map_some, Pending.link_of_rename? hd']
    rfl
  simp only [incoming, absorb, hassignments, List.map_append, hlinks, Incoming.append,
    Incoming.rename, Incoming.ofSign]

theorem incoming_addPending (ds : List Pending) :
    (m.addPending ds).incoming = m.incoming.append ⟨[], ds.map Pending.link⟩ := by
  simp only [incoming, addPending, Incoming.append, List.map_append, List.append_nil]

end Merge

theorem Incoming.empty_append (i : Incoming) : Merge.empty.incoming.append i = i := rfl

/-! ## Steps -/

namespace Sign

variable {mode : FeatureMode} {dir : Direction}

theorem conserves_apply {functor argument : Sign} {c : Combination} (ha : argument.Invariant)
    (h : functor.apply mode dir argument = some c) :
    ∃ result wanted label u,
      functor.category = .func dir result wanted label ∧
      Headed.unify mode argument.category wanted = some u ∧
      ((Merge.ofSign functor).absorb argument u.heads).abandoned = [] ∧
      Conserves ((Incoming.ofSign functor).append ((Incoming.ofSign argument).rename u.heads))
        (Headed.bindFeatures u.features result) c := by
  obtain ⟨result, wanted, label, u, hcat, hu, rfl⟩ := apply_eq_some_iff.1 h
  have himages : ∀ v ∈ argument.category.labels, (u.heads.image? v).isSome = true :=
    fun v hv => Headed.isSome_image?_of_unify hu hv
  have habandoned := Merge.abandoned_absorb (m := Merge.ofSign functor) ha himages
  refine ⟨result, wanted, label, u, hcat, hu, habandoned, ?_⟩
  have hconserves := Merge.conserves_finish habandoned (Headed.bindFeatures u.features result)
  rwa [Merge.incoming_absorb ha himages] at hconserves

theorem conserves_compose {functor other : Sign} {c : Combination} (ho : other.Invariant)
    (h : functor.compose mode dir other = some c) :
    ∃ result wanted label offered argument label' u,
      functor.category = .func dir result wanted label ∧
      other.category = .func dir offered argument label' ∧
      Headed.unify mode offered wanted = some u ∧
      let heads := extendFresh u.heads (functor.category.maxVar + 1) other.category.vars
      ((Merge.ofSign functor).absorb other heads).abandoned = [] ∧
      Conserves ((Incoming.ofSign functor).append ((Incoming.ofSign other).rename heads))
        (.func dir (Headed.bindFeatures u.features result) (Headed.rename heads argument)
          result.label) c := by
  obtain ⟨result, wanted, label, offered, argument, label', u, hf, hcat, hu, rfl⟩ :=
    compose_eq_some_iff.1 h
  refine ⟨result, wanted, label, offered, argument, label', u, hf, hcat, hu, ?_⟩
  intro heads
  -- Unification covers the offered category, and fresh numbers cover the rest.
  have himages : ∀ v ∈ other.category.labels, (heads.image? v).isSome = true :=
    fun v hv => isSome_image?_extendFresh (Headed.mem_vars.2 hv)
  have habandoned := Merge.abandoned_absorb (m := Merge.ofSign functor) ho himages
  refine ⟨habandoned, ?_⟩
  have hconserves := Merge.conserves_finish habandoned
    (.func dir (Headed.bindFeatures u.features result) (Headed.rename heads argument) result.label)
  rwa [Merge.incoming_absorb ho himages] at hconserves

theorem conserves_unary {rule : UnaryRule} {s : Sign} {c : Combination} (hs : s.Invariant)
    (h : rule.apply mode s = some c) :
    ∃ u, Headed.unify mode s.category rule.input = some u ∧
      (Merge.empty.absorb s u.heads).abandoned = [] ∧
      Conserves (((Incoming.ofSign s).rename u.heads).append (.ofRule rule))
        (Headed.bindFeatures u.features rule.result) c := by
  obtain ⟨u, hu, rfl⟩ := UnaryRule.apply_eq_some_iff.1 h
  have himages : ∀ v ∈ s.category.labels, (u.heads.image? v).isSome = true :=
    fun v hv => Headed.isSome_image?_of_unify hu hv
  have habandoned := Merge.abandoned_absorb (m := Merge.empty) hs himages
  refine ⟨u, hu, habandoned, ?_⟩
  have hincoming : ((Merge.empty.absorb s u.heads).addPending
      (rule.dependencies.map (·.instantiate 0))).incoming =
        ((Incoming.ofSign s).rename u.heads).append (.ofRule rule) := by
    rw [Merge.incoming_addPending, Merge.incoming_absorb hs himages, Incoming.empty_append,
      List.map_map]
    rfl
  rw [← hincoming]
  refine Merge.conserves_finish ?_ _
  exact habandoned

theorem conserves_lexical (c : LexicalCategory) (index : Nat) :
    Conserves (.ofLexical c index) c.category (c.signAt index) := by
  have hincoming : Incoming.ofLexical c index = Merge.incoming
      ⟨c.namings.map fun (v, name) => ⟨v, name, index⟩,
        c.dependencies.map (·.instantiate index), []⟩ := by
    simp only [Merge.incoming, Incoming.ofLexical, List.map_map]
    rfl
  rw [hincoming]
  exact Merge.conserves_finish rfl c.category

/-- Application, composition, unary rules and lexical categories lose no dependency: taking in a
    sign abandons nothing, and what goes out of the step are the outcomes of what comes in. -/
theorem dependencies_conserved :
    (∀ (mode : FeatureMode) (dir : Direction) (functor argument : Sign) (c : Combination),
      functor.Reachable → argument.Reachable → functor.apply mode dir argument = some c →
      ∃ result wanted label u,
        functor.category = .func dir result wanted label ∧
        Headed.unify mode argument.category wanted = some u ∧
        ((Merge.ofSign functor).absorb argument u.heads).abandoned = [] ∧
        Conserves ((Incoming.ofSign functor).append ((Incoming.ofSign argument).rename u.heads))
          (Headed.bindFeatures u.features result) c) ∧
    (∀ (mode : FeatureMode) (dir : Direction) (functor other : Sign) (c : Combination),
      functor.Reachable → other.Reachable → functor.compose mode dir other = some c →
      ∃ result wanted label offered argument label' u,
        functor.category = .func dir result wanted label ∧
        other.category = .func dir offered argument label' ∧
        Headed.unify mode offered wanted = some u ∧
        let heads := extendFresh u.heads (functor.category.maxVar + 1) other.category.vars
        ((Merge.ofSign functor).absorb other heads).abandoned = [] ∧
        Conserves ((Incoming.ofSign functor).append ((Incoming.ofSign other).rename heads))
          (.func dir (Headed.bindFeatures u.features result) (Headed.rename heads argument)
            result.label) c) ∧
    (∀ (mode : FeatureMode) (rule : UnaryRule) (s : Sign) (c : Combination),
      s.Reachable → rule.apply mode s = some c →
      ∃ u, Headed.unify mode s.category rule.input = some u ∧
        (Merge.empty.absorb s u.heads).abandoned = [] ∧
        Conserves (((Incoming.ofSign s).rename u.heads).append (.ofRule rule))
          (Headed.bindFeatures u.features rule.result) c) ∧
    ∀ (c : LexicalCategory) (index : Nat),
      Conserves (.ofLexical c index) c.category (c.signAt index) := by
  refine ⟨?_, ?_, ?_, conserves_lexical⟩
  · intro mode dir functor argument c _ ha h
    exact conserves_apply ha.invariant h
  · intro mode dir functor other c _ ho h
    exact conserves_compose ho.invariant h
  · intro mode rule s c hs h
    exact conserves_unary hs.invariant h

/-- The verb and its object, whose variable becomes the third one of the verb. -/
theorem dependencies_conserved_samplePhrase :
    sampleVerb.Reachable ∧ sampleNoun.Reachable ∧
    sampleVerb.apply .strict .forward sampleNoun = some samplePhrase ∧
    Conserves ((Incoming.ofSign sampleVerb).append ((Incoming.ofSign sampleNoun).rename [(0, 2)]))
      (.func .backward (.atom "S" .unspecified 0) (.atom "NP" .unspecified 1) 0) samplePhrase := by
  refine ⟨.lexical _ 0, .lexical _ 1, apply_sampleVerb, ?_⟩
  obtain ⟨result, wanted, label, u, hcat, hu, -, hconserves⟩ :=
    dependencies_conserved.1 .strict .forward sampleVerb sampleNoun samplePhrase
      (.lexical _ 0) (.lexical _ 1) apply_sampleVerb
  have hverb : sampleVerb.category = .func .forward
      (.func .backward (.atom "S" .unspecified 0) (.atom "NP" .unspecified 1) 0)
      (.atom "NP" .unspecified 2) 0 := by decide +kernel
  rw [hverb] at hcat
  cases hcat
  have hunify : Headed.unify .strict sampleNoun.category (.atom "NP" .unspecified 2) =
      some ⟨[(0, 2)], []⟩ := by decide +kernel
  rw [hunify] at hu
  cases hu
  exact hconserves

end Sign

end Categorial
