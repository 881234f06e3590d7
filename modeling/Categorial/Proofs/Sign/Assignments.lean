/-
  Categorial.Proofs.Sign.Assignments

  Where the assignments of a combined sign come from.  Application and composition send the
  variables of the second sign to variables of the functor, and composition sends those that face
  none of them to new numbers.  A variable of the result has the predicates that it has in the
  functor and those of the variables that are sent to it, and nothing else is assigned
  (`MergesAlong`).  In a composed category two heads are one variable just when they were one
  before or unification has linked them (`Linked`).

    * `Merge.predicatesOf_finish` -- finishing a merge only renumbers what is assigned.
    * `Merge.predicatesOf_absorb` -- taking in a sign adds along the renaming.
    * `composedImage_eq_iff` -- new numbers fall together neither with old ones nor with each other.
-/

import Categorial.Proofs.Category.Features
import Categorial.Proofs.Sign.Invariant

namespace Categorial

/-! ## Predicates of a variable -/

namespace Sign

variable {s : Sign}

theorem mem_predicatesOf (h : StrictlyAscending s.assignments) {v : Var} {p : Predicate} :
    p ∈ s.predicatesOf v ↔ Assignment.mk v p ∈ s.assignments := by
  simp only [predicatesOf_eq h, assignedTo, List.mem_map, List.mem_filter, decide_eq_true_iff]
  constructor
  · rintro ⟨a, ⟨ha, rfl⟩, rfl⟩
    exact ha
  · intro hmem
    exact ⟨_, ⟨hmem, rfl⟩, rfl⟩

theorem compare_predicate_of_compare_lt {a b : Assignment} (h : compare a b = .lt)
    (hvar : a.var = b.var) : compare a.predicate b.predicate = .lt := by
  have hlex : compareLex (compareOn Assignment.var) (compareOn Assignment.predicate) a b = .lt := h
  rw [compareLex, Ordering.then_eq_lt] at hlex
  rcases hlex with hlt | ⟨-, hlt⟩
  · have hless : a.var < b.var := Nat.compare_eq_lt.1 hlt
    rw [hvar] at hless
    exact absurd hless (Nat.lt_irrefl _)
  · exact hlt

theorem strictlyAscending_predicatesOf (h : StrictlyAscending s.assignments) (v : Var) :
    StrictlyAscending (s.predicatesOf v) := by
  rw [predicatesOf_eq h, assignedTo, StrictlyAscending, List.pairwise_map]
  refine (List.Pairwise.filter _ h).imp_of_mem fun {a b} ha hb hlt => ?_
  have hav : a.var = v := of_decide_eq_true (List.mem_filter.1 ha).2
  have hbv : b.var = v := of_decide_eq_true (List.mem_filter.1 hb).2
  exact compare_predicate_of_compare_lt hlt (hav.trans hbv.symm)

end Sign

namespace Merge

variable {m : Merge} {result : Headed}

theorem mem_predicatesOf {v : Var} {p : Predicate} :
    p ∈ m.predicatesOf v ↔ Assignment.mk v p ∈ m.assignments := by
  rw [← mem_knownIn, ← Finset.mem_val, ← coe_predicatesOf, Multiset.mem_coe]

theorem strictlyAscending_predicatesOf (m : Merge) (v : Var) :
    StrictlyAscending (m.predicatesOf v) :=
  strictlyAscending_sortedSet _

/-- A variable of the result keeps its predicates under its number. -/
theorem predicatesOf_finish {v : Var} (hv : v ∈ result.labels) :
    (m.finish result).sign.predicatesOf (result.numbering.apply v) = m.predicatesOf v := by
  have hascending := (invariant_finish m result).assignments_ascending
  refine (Sign.strictlyAscending_predicatesOf hascending _).ext
    (m.strictlyAscending_predicatesOf v) fun p => ?_
  have hnumber := Headed.image?_numbering_of_mem hv
  rw [Sign.mem_predicatesOf hascending, mem_assignments_finish, mem_predicatesOf]
  constructor
  · rintro ⟨⟨w, q⟩, hb, hw, rfl⟩
    -- Numbers tell variables apart.
    obtain rfl : w = v := Headed.numbering_inj hw hnumber
    exact hb
  · intro hmem
    exact ⟨_, hmem, hnumber, rfl⟩

theorem exists_of_mem_assignments_finish {a : Assignment}
    (ha : a ∈ (m.finish result).sign.assignments) :
    ∃ v ∈ result.vars, result.numbering.apply v = a.var ∧ ⟨v, a.predicate⟩ ∈ m.assignments := by
  obtain ⟨b, hb, hnumber, hpredicate⟩ := mem_assignments_finish.1 ha
  have hmem := (Headed.image?_numbering_eq_some.1 hnumber).1
  refine ⟨b.var, Headed.mem_vars.2 hmem, Renaming.apply_of_image? hnumber, ?_⟩
  rw [← hpredicate]
  exact hb

variable {first second : Sign} {heads : Renaming}

theorem mem_assignments_absorb {v : Var} {p : Predicate} (hsecond : second.Invariant)
    (himages : ∀ w ∈ second.category.labels, (heads.image? w).isSome = true) :
    ⟨v, p⟩ ∈ ((ofSign first).absorb second heads).assignments ↔
      ⟨v, p⟩ ∈ first.assignments ∨
        ∃ w, Assignment.mk w p ∈ second.assignments ∧ heads.apply w = v := by
  simp only [absorb, ofSign, List.mem_append, List.mem_filterMap, Option.map_eq_some_iff,
    Assignment.mk.injEq]
  refine or_congr_right ⟨?_, ?_⟩
  · rintro ⟨⟨w, q⟩, ha, x, hx, rfl, rfl⟩
    exact ⟨w, ha, Renaming.apply_of_image? hx⟩
  · rintro ⟨w, hw, rfl⟩
    obtain ⟨x, hx⟩ := Option.isSome_iff_exists.1 (himages w (hsecond.assigned_mem _ hw))
    exact ⟨_, hw, x, hx, (Renaming.apply_of_image? hx).symm, rfl⟩

/-- Taking in a sign adds to each variable the predicates of the variables that are sent to it. -/
theorem predicatesOf_absorb (hfirst : first.Invariant) (hsecond : second.Invariant)
    (himages : ∀ w ∈ second.category.labels, (heads.image? w).isSome = true) (v : Var) :
    ((ofSign first).absorb second heads).predicatesOf v =
      sortedSet (first.predicatesOf v ++
        (second.category.vars.filter (heads.apply · = v)).flatMap second.predicatesOf) := by
  refine (strictlyAscending_predicatesOf _ v).ext (strictlyAscending_sortedSet _) fun p => ?_
  rw [mem_predicatesOf, mem_assignments_absorb hsecond himages, mem_sortedSet,
    List.mem_append, Sign.mem_predicatesOf hfirst.assignments_ascending, List.mem_flatMap]
  refine or_congr_right (exists_congr fun w => ?_)
  rw [List.mem_filter, decide_eq_true_iff, Sign.mem_predicatesOf hsecond.assignments_ascending,
    Headed.mem_vars]
  constructor
  · rintro ⟨hw, hv⟩
    exact ⟨⟨hsecond.assigned_mem _ hw, hv⟩, hw⟩
  · rintro ⟨⟨-, hv⟩, hw⟩
    exact ⟨hw, hv⟩

end Merge

/-! ## Merging along a map of variables -/

/-- A step that brings two signs to `result`, with the variables of the second sign sent to those of
    the first one, or to new ones, by `image`. -/
structure MergesAlong (image : Var → Var) (first second : Sign) (result : Headed)
    (c : Combination) : Prop where
  category : c.sign.category = result.map result.numbering.apply
  numbering_injOn : Set.InjOn result.numbering.apply {v | v ∈ result.vars}
  /-- A variable has what it has in the first sign and what is sent to it. -/
  predicates : ∀ v ∈ result.vars, c.sign.predicatesOf (result.numbering.apply v) =
    sortedSet (first.predicatesOf v ++
      (second.category.vars.filter (image · = v)).flatMap second.predicatesOf)
  /-- Nothing else is assigned. -/
  only : ∀ a ∈ c.sign.assignments, ∃ v ∈ result.vars, result.numbering.apply v = a.var ∧
    (⟨v, a.predicate⟩ ∈ first.assignments ∨
      ∃ w, ⟨w, a.predicate⟩ ∈ second.assignments ∧ image w = v)

theorem Merge.mergesAlong_finish_absorb {first second : Sign} {heads : Renaming}
    (hfirst : first.Invariant) (hsecond : second.Invariant)
    (himages : ∀ w ∈ second.category.labels, (heads.image? w).isSome = true) (result : Headed) :
    MergesAlong heads.apply first second result
      (((ofSign first).absorb second heads).finish result) where
  category := rfl
  numbering_injOn := (Headed.bijOn_numbering result).injOn
  predicates v hv := by
    rw [predicatesOf_finish (Headed.mem_vars.1 hv), predicatesOf_absorb hfirst hsecond himages]
  only a ha := by
    obtain ⟨v, hv, hnumber, hmem⟩ := exists_of_mem_assignments_finish ha
    exact ⟨v, hv, hnumber, (mem_assignments_absorb hsecond himages).1 hmem⟩

/-! ## Heads of composed categories -/

namespace Sign

/-- The heads of the category composed of the result of a functor and of an argument, in reading
    order, each with the variable that it has in the sign it comes from: on the left those of the
    functor, on the right those of the other sign. -/
def headOrigins (result argument : Headed) : List (Var ⊕ Var) :=
  .inl result.label :: (result.labels.map .inl ++ argument.labels.map .inr)

/-- Two heads are one variable already, or unification has linked them. -/
def Linked (heads : Renaming) : Var ⊕ Var → Var ⊕ Var → Prop
  | .inl v, .inl w => v = w
  | .inl v, .inr w => heads.image? w = some v
  | .inr v, .inl w => heads.image? v = some w
  | .inr v, .inr w => v = w ∨ ∃ x, heads.image? v = some x ∧ heads.image? w = some x

/-- The renaming by which composition takes in the second sign: what unification has found, and new
    numbers for the other variables. -/
abbrev composedHeads (u : Unifier) (functor other : Sign) : Renaming :=
  extendFresh u.heads (functor.category.maxVar + 1) other.category.vars

section Composed

variable {mode : FeatureMode} {dir : Direction} {functor other : Sign} {u : Unifier}
  {result wanted offered argument : Headed} {label label' : Var}

theorem labels_composed (dir : Direction) (b : FeatureBindings) (heads : Renaming)
    (result argument : Headed) :
    Category.labels (.func dir (Headed.bindFeatures b result) (Headed.rename heads argument)
        result.label) =
      (headOrigins result argument).map (Sum.elim id heads.apply) := by
  simp only [Category.labels, Headed.labels_bindFeatures, Headed.rename, Category.labels_map,
    headOrigins, List.map_cons, List.map_append, List.map_map]
  simp

theorem apply_composedHeads_of_image? {v w : Var} (h : u.heads.image? v = some w) :
    (composedHeads u functor other).apply v = w :=
  Renaming.apply_of_image? (extends_extendFresh _ _ _ v w h)

theorem image?_composedHeads (u : Unifier) (functor : Sign) {v : Var}
    (hv : v ∈ other.category.labels) :
    (composedHeads u functor other).image? v = some ((composedHeads u functor other).apply v) := by
  have hsome : ((composedHeads u functor other).image? v).isSome = true :=
    isSome_image?_extendFresh (Headed.mem_vars.2 hv)
  obtain ⟨w, hw⟩ := Option.isSome_iff_exists.1 hsome
  rw [hw, Renaming.apply_of_image? hw]

/-- A new number is above all variables of the functor. -/
theorem apply_composedHeads_of_none {v w : Var} (hv : v ∈ other.category.labels)
    (hnone : u.heads.image? v = none) (hw : w ∈ functor.category.labels) :
    (composedHeads u functor other).apply v ≠ w := by
  have hlt := le_of_image?_extendFresh hnone (image?_composedHeads u functor hv)
  exact Nat.ne_of_gt (Nat.lt_of_le_of_lt (Headed.le_maxVar hw) hlt)

/-- No two variables get one new number. -/
theorem composedHeads_inj_of_none {v w : Var} (hv : v ∈ other.category.labels)
    (hw : w ∈ other.category.labels) (hvnone : u.heads.image? v = none)
    (hwnone : u.heads.image? w = none)
    (heq : (composedHeads u functor other).apply v = (composedHeads u functor other).apply w) :
    v = w := by
  have hvimage := image?_composedHeads u functor hv
  rw [heq] at hvimage
  exact image?_extendFresh_inj hvnone hwnone hvimage (image?_composedHeads u functor hw)

/-- A variable is sent to one of the functor just when it faces it. -/
theorem composedHeads_eq_iff_image? {v w : Var} (hv : v ∈ other.category.labels)
    (hw : w ∈ functor.category.labels) :
    (composedHeads u functor other).apply v = w ↔ u.heads.image? v = some w := by
  constructor
  · intro heq
    cases himage : u.heads.image? v with
    | none => exact absurd heq (apply_composedHeads_of_none hv himage hw)
    | some x => rw [← apply_composedHeads_of_image? himage, heq]
  · exact apply_composedHeads_of_image?

variable (hfunctor : functor.category = .func dir result wanted label)
  (hother : other.category = .func dir offered argument label')
  (hunify : Headed.unify mode offered wanted = some u)

include hfunctor hunify in
/-- Unification finds variables of the functor. -/
theorem mem_labels_of_image? {v w : Var} (h : u.heads.image? v = some w) :
    w ∈ functor.category.labels := by
  rw [hfunctor]
  exact List.mem_cons_of_mem _ (List.mem_append_right _ (Headed.mem_labels_of_unify hunify h))

include hunify in
theorem image?_eq_none_iff {v : Var} : u.heads.image? v = none ↔ v ∉ offered.vars := by
  rw [Headed.image?_of_unify hunify (Headed.labels_map_of_unify hunify), Headed.mem_vars]
  by_cases hv : v ∈ offered.labels <;> simp [hv]

/-- A head stands for a variable of the sign it comes from. -/
def Occurs (functor other : Sign) : Var ⊕ Var → Prop
  | .inl v => v ∈ functor.category.labels
  | .inr v => v ∈ other.category.labels

include hfunctor hother in
theorem occurs_of_mem_headOrigins {o : Var ⊕ Var} (ho : o ∈ headOrigins result argument) :
    Occurs functor other o := by
  rcases List.mem_cons.1 ho with rfl | ho
  · show result.label ∈ functor.category.labels
    rw [hfunctor]
    exact List.mem_cons_of_mem _ (List.mem_append_left _ result.label_mem_labels)
  rcases List.mem_append.1 ho with ho | ho
  · obtain ⟨v, hv, rfl⟩ := List.mem_map.1 ho
    show v ∈ functor.category.labels
    rw [hfunctor]
    exact List.mem_cons_of_mem _ (List.mem_append_left _ hv)
  · obtain ⟨v, hv, rfl⟩ := List.mem_map.1 ho
    show v ∈ other.category.labels
    rw [hother]
    exact List.mem_cons_of_mem _ (List.mem_append_right _ hv)

include hfunctor hunify in
/-- Two heads get one variable just when they had one or unification has linked them. -/
theorem composedImage_eq_iff {o o' : Var ⊕ Var} (ho : Occurs functor other o)
    (ho' : Occurs functor other o') :
    Sum.elim id (composedHeads u functor other).apply o =
        Sum.elim id (composedHeads u functor other).apply o' ↔
      Linked u.heads o o' := by
  rcases o with v | v <;> rcases o' with w | w <;>
    simp only [Sum.elim_inl, Sum.elim_inr, id_eq, Linked]
  · exact eq_comm.trans (composedHeads_eq_iff_image? ho' ho)
  · exact composedHeads_eq_iff_image? ho ho'
  · constructor
    · intro heq
      cases hv : u.heads.image? v with
      | none =>
        cases hw : u.heads.image? w with
        | none => exact .inl (composedHeads_inj_of_none ho ho' hv hw heq)
        | some x =>
          -- `w` faces a variable of the functor, and the number of `v` is above those.
          rw [apply_composedHeads_of_image? hw] at heq
          have hx := mem_labels_of_image? hfunctor hunify hw
          exact absurd heq (apply_composedHeads_of_none ho hv hx)
      | some x =>
        rw [apply_composedHeads_of_image? hv] at heq
        have hx := mem_labels_of_image? hfunctor hunify hv
        exact .inr ⟨x, rfl, (composedHeads_eq_iff_image? ho' hx).1 heq.symm⟩
    · rintro (rfl | ⟨x, hv, hw⟩)
      · rfl
      · rw [apply_composedHeads_of_image? hv, apply_composedHeads_of_image? hw]

include hfunctor hother hunify in
theorem labels_eq_iff_linked (b : FeatureBindings) {c : Combination}
    (hmerges : MergesAlong (composedHeads u functor other).apply functor other
      (.func dir (Headed.bindFeatures b result)
        (Headed.rename (composedHeads u functor other) argument) result.label) c)
    {i j : Nat} {o o' : Var ⊕ Var} (hi : (headOrigins result argument)[i]? = some o)
    (hj : (headOrigins result argument)[j]? = some o') :
    c.sign.category.labels[i]? = c.sign.category.labels[j]? ↔ Linked u.heads o o' := by
  have hlabels := labels_composed dir b (composedHeads u functor other) result argument
  -- Every head of the composed category is sent to one of its variables.
  have hmem : ∀ o ∈ headOrigins result argument,
      Sum.elim id (composedHeads u functor other).apply o ∈ Headed.vars
        (.func dir (Headed.bindFeatures b result)
          (Headed.rename (composedHeads u functor other) argument) result.label) := by
    intro o ho
    rw [Headed.mem_vars, hlabels]
    exact List.mem_map_of_mem ho
  have ho := List.mem_of_getElem? hi
  have ho' := List.mem_of_getElem? hj
  rw [hmerges.category, Category.labels_map, hlabels, List.getElem?_map, List.getElem?_map,
    List.getElem?_map, List.getElem?_map, hi, hj]
  simp only [Option.map_some, Option.some.injEq]
  rw [hmerges.numbering_injOn.eq_iff (hmem o ho) (hmem o' ho')]
  exact composedImage_eq_iff hfunctor hunify (occurs_of_mem_headOrigins hfunctor hother ho)
    (occurs_of_mem_headOrigins hfunctor hother ho')

end Composed

/-! ## Steps -/

section Steps

variable {mode : FeatureMode} {dir : Direction} {functor other : Sign} {c : Combination}

theorem mergesAlong_of_apply (hfunctor : functor.Invariant) (hother : other.Invariant)
    (h : functor.apply mode dir other = some c) :
    ∃ result wanted label u,
      functor.category = .func dir result wanted label ∧
      Headed.unify mode other.category wanted = some u ∧
      other.category.labels.map u.heads.apply = wanted.labels ∧
      MergesAlong u.heads.apply functor other (Headed.bindFeatures u.features result) c := by
  obtain ⟨result, wanted, label, u, hcategory, hunify, rfl⟩ := apply_eq_some_iff.1 h
  refine ⟨result, wanted, label, u, hcategory, hunify, Headed.labels_map_of_unify hunify, ?_⟩
  exact Merge.mergesAlong_finish_absorb hfunctor hother
    (fun v hv => Headed.isSome_image?_of_unify hunify hv) _

theorem mergesAlong_of_compose (hfunctor : functor.Invariant) (hother : other.Invariant)
    (h : functor.compose mode dir other = some c) :
    ∃ result wanted label offered argument label' u,
      functor.category = .func dir result wanted label ∧
      other.category = .func dir offered argument label' ∧
      Headed.unify mode offered wanted = some u ∧
      MergesAlong (composedHeads u functor other).apply functor other
        (.func dir (Headed.bindFeatures u.features result)
          (Headed.rename (composedHeads u functor other) argument) result.label) c := by
  obtain ⟨result, wanted, label, offered, argument, label', u, hf, ho, hunify, rfl⟩ :=
    compose_eq_some_iff.1 h
  refine ⟨result, wanted, label, offered, argument, label', u, hf, ho, hunify, ?_⟩
  exact Merge.mergesAlong_finish_absorb hfunctor hother
    (fun v hv => isSome_image?_extendFresh (Headed.mem_vars.2 hv)) _

end Steps

/-- Assignments are merged along the unification and by nothing else. In an application the
    variables of the argument are sent to those of the functor that they face. In a composition this
    holds of the variables of what the other sign offers, and its remaining variables are sent to
    different numbers that the functor does not have; so two heads of the composed category are one
    variable just when they were one in the functor or in the other sign or unification has linked
    them. -/
theorem assignments_merge_along_unification :
    (∀ (mode : FeatureMode) (dir : Direction) (functor argument : Sign) (c : Combination),
      functor.Reachable → argument.Reachable → functor.apply mode dir argument = some c →
      ∃ result wanted label u,
        functor.category = .func dir result wanted label ∧
        Headed.unify mode argument.category wanted = some u ∧
        argument.category.labels.map u.heads.apply = wanted.labels ∧
        MergesAlong u.heads.apply functor argument (Headed.bindFeatures u.features result) c) ∧
    ∀ (mode : FeatureMode) (dir : Direction) (functor other : Sign) (c : Combination),
      functor.Reachable → other.Reachable → functor.compose mode dir other = some c →
      ∃ result wanted label offered argument label' u,
        functor.category = .func dir result wanted label ∧
        other.category = .func dir offered argument label' ∧
        Headed.unify mode offered wanted = some u ∧
        let heads := composedHeads u functor other
        offered.labels.map heads.apply = wanted.labels ∧
        (∀ v ∈ other.category.vars, v ∉ Headed.vars offered →
          heads.apply v ∉ functor.category.vars) ∧
        Set.InjOn heads.apply {v | v ∈ other.category.vars ∧ v ∉ Headed.vars offered} ∧
        MergesAlong heads.apply functor other
          (.func dir (Headed.bindFeatures u.features result) (Headed.rename heads argument)
            result.label) c ∧
        c.sign.category.labels.length = (headOrigins result argument).length ∧
        ∀ (i j : Nat) (o o' : Var ⊕ Var), (headOrigins result argument)[i]? = some o →
          (headOrigins result argument)[j]? = some o' →
          (c.sign.category.labels[i]? = c.sign.category.labels[j]? ↔ Linked u.heads o o') := by
  refine ⟨fun mode dir functor argument c hf ha h => ?_, fun mode dir functor other c hf ho h => ?_⟩
  · exact mergesAlong_of_apply hf.invariant ha.invariant h
  obtain ⟨result, wanted, label, offered, argument, label', u, hfunctor, hother, hunify, hmerges⟩ :=
    mergesAlong_of_compose hf.invariant ho.invariant h
  refine ⟨result, wanted, label, offered, argument, label', u, hfunctor, hother, hunify, ?_⟩
  refine ⟨?_, fun v hv hfresh hmem => ?_, fun v hv w hw heq => ?_, hmerges, ?_,
    fun i j o o' hi hj => labels_eq_iff_linked hfunctor hother hunify _ hmerges hi hj⟩
  · rw [← Headed.labels_map_of_unify hunify]
    refine List.map_congr_left fun v hv => ?_
    obtain ⟨w, hw⟩ := Option.isSome_iff_exists.1 (Headed.isSome_image?_of_unify hunify hv)
    rw [apply_composedHeads_of_image? hw, Renaming.apply_of_image? hw]
  · exact apply_composedHeads_of_none (Headed.mem_vars.1 hv)
      ((image?_eq_none_iff hunify).2 hfresh) (Headed.mem_vars.1 hmem) rfl
  · exact composedHeads_inj_of_none (Headed.mem_vars.1 hv.1) (Headed.mem_vars.1 hw.1)
      ((image?_eq_none_iff hunify).2 hv.2) ((image?_eq_none_iff hunify).2 hw.2) heq
  · rw [hmerges.category, Category.labels_map, List.length_map, labels_composed, List.length_map]

/-- An adverb at the first word. -/
def sampleAdverb : Sign :=
  (LexicalCategory.signAt
    ⟨.func .forward (.atom "S" .unspecified 1) (.atom "S" .unspecified 1) 0,
      some ⟨[["often"], []], [⟨.predicate "often", 1, 1⟩]⟩⟩ 0).sign

/-- A verb without a subject at the second word. -/
def sampleImperative : Sign :=
  (LexicalCategory.signAt
    ⟨.func .forward (.atom "S" .unspecified 0) (.atom "N" .unspecified 1) 0,
      some ⟨[["eat"], []], [⟨.predicate "eat", 1, 1⟩]⟩⟩ 1).sign

/-- The adverb and the verb, which heads the whole and still waits for its object. -/
def sampleModified : Combination where
  sign :=
    ⟨.func .forward (.atom "S" .unspecified 0) (.atom "N" .unspecified 1) 0, [⟨0, "eat", 1⟩],
      [.objectOpen ⟨"eat", 1⟩ 1 1]⟩
  filled := [⟨⟨"often", 0⟩, 1, ⟨"eat", 1⟩⟩]
  abandoned := []

theorem compose_sampleAdverb :
    sampleAdverb.compose .strict .forward sampleImperative = some sampleModified := by
  decide +kernel

/-- The verb and its object, and the adverb composed with a verb: the head of the verb faces the
    second variable of the adverb, and the head of its object gets the new number two. -/
theorem assignments_merge_along_unification_sample :
    sampleVerb.apply .strict .forward sampleNoun = some samplePhrase ∧
    MergesAlong (Renaming.apply [(0, 2)]) sampleVerb sampleNoun
      (.func .backward (.atom "S" .unspecified 0) (.atom "NP" .unspecified 1) 0) samplePhrase ∧
    sampleAdverb.compose .strict .forward sampleImperative = some sampleModified ∧
    MergesAlong (Renaming.apply [(0, 1), (1, 2)]) sampleAdverb sampleImperative
      (.func .forward (.atom "S" .unspecified 1) (.atom "N" .unspecified 2) 1) sampleModified ∧
    (sampleModified.sign.category.labels[1]? = sampleModified.sign.category.labels[2]? ↔
      Linked [(0, 1)] (.inl 1) (.inr 1)) := by
  have hverb : sampleVerb.category = .func .forward
      (.func .backward (.atom "S" .unspecified 0) (.atom "NP" .unspecified 1) 0)
      (.atom "NP" .unspecified 2) 0 := by decide +kernel
  have hnoun : Headed.unify .strict sampleNoun.category (.atom "NP" .unspecified 2) =
      some ⟨[(0, 2)], []⟩ := by decide +kernel
  have hadverb : sampleAdverb.category =
      .func .forward (.atom "S" .unspecified 1) (.atom "S" .unspecified 1) 0 := by decide +kernel
  have himperative : sampleImperative.category =
      .func .forward (.atom "S" .unspecified 0) (.atom "N" .unspecified 1) 0 := by decide +kernel
  have hsentence : Headed.unify .strict (.atom "S" .unspecified 0) (.atom "S" .unspecified 1) =
      some ⟨[(0, 1)], []⟩ := by decide +kernel
  obtain ⟨happly, hcompose⟩ := assignments_merge_along_unification
  refine ⟨apply_sampleVerb, ?_, compose_sampleAdverb, ?_⟩
  · obtain ⟨result, wanted, label, u, hcategory, hunify, -, hmerges⟩ :=
      happly .strict .forward sampleVerb sampleNoun samplePhrase (.lexical _ 0) (.lexical _ 1)
        apply_sampleVerb
    rw [hverb] at hcategory
    cases hcategory
    rw [hnoun] at hunify
    cases hunify
    exact hmerges
  · obtain ⟨result, wanted, label, offered, argument, label', u, hcategory, hother, hunify, -, -, -,
        hmerges, -, hlinked⟩ :=
      hcompose .strict .forward sampleAdverb sampleImperative sampleModified (.lexical _ 0)
        (.lexical _ 1) compose_sampleAdverb
    rw [hadverb] at hcategory
    cases hcategory
    rw [himperative] at hother
    cases hother
    rw [hsentence] at hunify
    cases hunify
    have hheads : composedHeads ⟨[(0, 1)], []⟩ sampleAdverb sampleImperative =
        [(0, 1), (1, 2)] := by decide +kernel
    rw [hheads] at hmerges
    exact ⟨hmerges, hlinked 1 2 (.inl 1) (.inr 1) rfl rfl⟩

end Sign

end Categorial
