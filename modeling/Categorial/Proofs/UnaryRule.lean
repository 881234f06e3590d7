/-
  Categorial.Proofs.UnaryRule

  Unary rules.  The rules that are accepted are those whose result has all variables that the rule
  mentions (`make_eq_ok_iff`).  So all that an accepted rule brings together is within its result:
  nothing is abandoned (`Merge.abandoned_finish_of_within`), and a one-to-one renaming of the rule
  leaves no trace in what it makes, since finishing goes from variables to their numbers
  (`Merge.finish_map`).
-/

import Categorial.Proofs.LexicalCategory
import Categorial.Proofs.Sign.Assignments
import Categorial.Proofs.Sign.Conservation

namespace Categorial

/-! ## Accepted rules -/

namespace UnaryRule

/-- What a rule has to satisfy to be accepted. -/
structure Valid (rule : UnaryRule) : Prop where
  input_subset : ∀ v ∈ rule.input.vars, v ∈ rule.result.vars
  /-- A rule has no word of its own. -/
  subject_var : ∀ d ∈ rule.dependencies, ∃ v, d.subject = .var v
  declared : ∀ d ∈ rule.dependencies, ∀ v ∈ d.vars, v ∈ rule.result.vars

theorem checkDependency_eq_ok_iff {result : Headed} {d : LexicalDependency} :
    checkDependency result d = .ok () ↔
      (∃ v, d.subject = .var v) ∧ ∀ v ∈ d.vars, v ∈ result.vars := by
  obtain ⟨subject, k, object⟩ := d
  cases subject with
  | predicate name => simp [checkDependency]
  | var v =>
    by_cases hv : v ∈ result.vars <;> by_cases hobject : object ∈ result.vars <;>
      simp [checkDependency, LexicalDependency.vars, hv, hobject]

/-- A list of checks passes just if each of them does. -/
theorem forM_eq_ok_iff {check : LexicalDependency → Except Error Unit}
    {ds : List LexicalDependency} : ds.forM check = .ok () ↔ ∀ d ∈ ds, check d = .ok () := by
  induction ds with
  | nil => exact iff_of_true rfl nofun
  | cons d ds ih =>
    have hcons : (d :: ds).forM check = (check d >>= fun _ => ds.forM check) := rfl
    rw [hcons, List.forall_mem_cons, ← ih]
    cases hd : check d with
    | error fault => simp [bind, Except.bind]
    | ok _ => simp [bind, Except.bind]

theorem make_eq_ok_iff {input result : Headed} {ds : List LexicalDependency} {rule : UnaryRule} :
    make input result ds = .ok rule ↔ rule = ⟨input, result, ds⟩ ∧ rule.Valid := by
  -- The first check finds the first variable of the input that the result drops.
  have hinput : (input.vars.find? fun v => !result.vars.contains v) = none ↔
      ∀ v ∈ input.vars, v ∈ result.vars := by simp
  unfold make
  constructor
  · intro h
    split at h
    · cases h
    · rename_i hnone
      cases hcheck : ds.forM (checkDependency result) with
      | error fault =>
        rw [hcheck] at h
        cases h
      | ok _ =>
        rw [hcheck] at h
        cases h
        have hds := fun d hd => checkDependency_eq_ok_iff.1 (forM_eq_ok_iff.1 hcheck d hd)
        exact ⟨rfl, hinput.1 hnone, fun d hd => (hds d hd).1, fun d hd => (hds d hd).2⟩
  · rintro ⟨rfl, hsubset, hsubject, hdeclared⟩
    have hcheck : ds.forM (checkDependency result) = .ok () :=
      forM_eq_ok_iff.2 fun d hd => checkDependency_eq_ok_iff.2 ⟨hsubject d hd, hdeclared d hd⟩
    rw [hinput.2 hsubset, hcheck]
    rfl

end UnaryRule

/-! ## Renaming pending dependencies -/

namespace Pending

/-- The dependency with its variables renamed. -/
def map (f : Var → Var) : Pending → Pending
  | .objectOpen s k o => .objectOpen s k (f o)
  | .subjectOpen s k o => .subjectOpen (f s) k o
  | .bothOpen s k o => .bothOpen (f s) k (f o)

variable {f : Var → Var} {d : Pending}

theorem vars_map (f : Var → Var) (d : Pending) : (d.map f).vars = d.vars.map f := by
  cases d <;> rfl

/-- A renaming that undoes `f` on the way. -/
theorem rename?_map {m m' : Renaming} (h : ∀ v ∈ d.vars, m'.image? (f v) = m.image? v) :
    (d.map f).rename? m' = d.rename? m := by
  cases d <;> simp_all [map, rename?, vars, subjectVar?, objectVar?]

/-- A renaming that ends with `f`. -/
theorem rename?_of_image? {m m' : Renaming} (h : ∀ v, m'.image? v = (m.image? v).map f) :
    d.rename? m' = (d.rename? m).map (Pending.map f) := by
  cases d with
  | objectOpen s k o => cases ho : m.image? o <;> simp [rename?, h, ho, map]
  | subjectOpen s k o => cases hs : m.image? s <;> simp [rename?, h, hs, map]
  | bothOpen s k o =>
    cases hs : m.image? s <;> cases ho : m.image? o <;> simp [rename?, h, hs, ho, map]

end Pending

/-- The resolution with the variables that are left renamed. -/
def Resolution.map (f : Var → Var) : Resolution → Resolution
  | .filled ds => .filled ds
  | .narrowed ds => .narrowed (ds.map (Pending.map f))
  | .unchanged => .unchanged

theorem Resolution.filledPart_map (f : Var → Var) (r : Resolution) :
    (r.map f).filledPart = r.filledPart := by
  cases r <;> rfl

theorem Resolution.pendingPart_map (f : Var → Var) (d : Pending) (r : Resolution) :
    (r.map f).pendingPart (d.map f) = (r.pendingPart d).map (Pending.map f) := by
  cases r <;> rfl

theorem Pending.resolve_map {f : Var → Var} {known known' : Var → List Predicate} {d : Pending}
    (h : ∀ v ∈ d.vars, known' (f v) = known v) :
    (d.map f).resolve known' = (d.resolve known).map f := by
  -- What becomes of a side depends on whether anything is known for it, under either name.
  cases d with
  | objectOpen s k o =>
    have ho : known' (f o) = known o := h o (by simp [vars, subjectVar?, objectVar?])
    cases hknown : known o <;> simp [map, resolve, Resolution.map, ho, hknown]
  | subjectOpen s k o =>
    have hs : known' (f s) = known s := h s (by simp [vars, subjectVar?, objectVar?])
    cases hknown : known s <;> simp [map, resolve, Resolution.map, hs, hknown]
  | bothOpen s k o =>
    have hs : known' (f s) = known s := h s (by simp [vars, subjectVar?, objectVar?])
    have ho : known' (f o) = known o := h o (by simp [vars, subjectVar?, objectVar?])
    cases hknown : known s <;> cases hknown' : known o <;>
      simp [map, resolve, Resolution.map, hs, ho, hknown, hknown', Function.comp_def]

/-- What is left of a dependency waits for no other variables than the dependency. -/
theorem Resolution.vars_subset_of_mem_pendingPart {known : Var → List Predicate} {d e : Pending}
    (he : e ∈ (d.resolve known).pendingPart d) : ∀ v ∈ e.vars, v ∈ d.vars := by
  -- With one open side a dependency is filled or stays; with two it may lose one of them.
  cases d with
  | objectOpen s k o => cases ho : known o <;> simp_all [Pending.resolve, pendingPart]
  | subjectOpen s k o => cases hs : known s <;> simp_all [Pending.resolve, pendingPart]
  | bothOpen s k o =>
    cases hs : known s <;> cases ho : known o <;>
      simp_all [Pending.resolve, pendingPart, Pending.vars, Pending.subjectVar?, Pending.objectVar?]
    all_goals rcases he with rfl | ⟨p, -, rfl⟩ <;> simp

/-! ## Merges within a category -/

namespace Merge

/-- All that has been brought together belongs to variables of a category. -/
structure Within (m : Merge) (c : Headed) : Prop where
  assigned : ∀ a ∈ m.assignments, a.var ∈ c.labels
  pending : ∀ d ∈ m.pending, ∀ v ∈ d.vars, v ∈ c.labels

/-- The merge with the variables of what is still in use renamed. -/
def map (f : Var → Var) (m : Merge) : Merge where
  assignments := m.assignments.map fun a => ⟨f a.var, a.predicate⟩
  pending := m.pending.map (Pending.map f)
  abandoned := m.abandoned

variable {f : Var → Var} {m : Merge} {result : Headed}

theorem Within.map (hm : m.Within result) (f : Var → Var) :
    (m.map f).Within (result.map f) where
  assigned a ha := by
    obtain ⟨b, hb, rfl⟩ := List.mem_map.1 ha
    exact Category.mem_labels_map f (hm.assigned b hb)
  pending d hd v hv := by
    obtain ⟨e, he, rfl⟩ := List.mem_map.1 hd
    rw [Pending.vars_map] at hv
    obtain ⟨w, hw, rfl⟩ := List.mem_map.1 hv
    exact Category.mem_labels_map f (hm.pending e he w hw)

theorem Within.pendingAfter (hm : m.Within result) :
    ∀ d ∈ m.pendingAfter, ∀ v ∈ d.vars, v ∈ result.labels := by
  intro e he v hv
  obtain ⟨d, hd, he⟩ := List.mem_flatMap.1 he
  exact hm.pending d hd v (Resolution.vars_subset_of_mem_pendingPart he v hv)

theorem abandoned_finish_of_within (hm : m.Within result) :
    (m.finish result).abandoned = m.abandoned := by
  have hnone : m.pendingAfter.filter (fun d => (d.rename? result.numbering).isNone) = [] := by
    refine List.filter_eq_nil_iff.2 fun d hd => ?_
    have hsome := Pending.rename?_isSome_iff.2 fun v hv =>
      Headed.image?_numbering_isSome.2 (hm.pendingAfter d hd v hv)
    rw [← Option.not_isSome, hsome]
    exact Bool.false_ne_true
  rw [abandoned_finish, hnone, List.append_nil]

/-! ## Renaming one-to-one -/

attribute [ext] Combination

theorem predicatesOf_map {v : Var} (h : ∀ a ∈ m.assignments, f a.var = f v → a.var = v) :
    (m.map f).predicatesOf (f v) = m.predicatesOf v := by
  -- Nothing but `v` has the new name of `v`.
  have hfilter : (m.assignments.filter fun a => f a.var == f v) =
      m.assignments.filter fun a => a.var == v := by
    refine List.filter_congr fun a ha => Bool.eq_iff_iff.2 ?_
    rw [beq_iff_eq, beq_iff_eq]
    exact ⟨h a ha, congrArg f⟩
  rw [predicatesOf, map, List.filter_map, List.map_map]
  show sortedSet ((m.assignments.filter fun a => f a.var == f v).map Assignment.predicate) = _
  rw [hfilter, predicatesOf]

section

variable (hf : Set.InjOn f {v | v ∈ result.vars}) (hm : m.Within result)

include hf hm

theorem resolve_map {d : Pending} (hd : d ∈ m.pending) :
    (d.map f).resolve (m.map f).predicatesOf = (d.resolve m.predicatesOf).map f := by
  refine Pending.resolve_map fun v hv => predicatesOf_map fun a ha heq => ?_
  exact hf (Headed.mem_vars.2 (hm.assigned a ha)) (Headed.mem_vars.2 (hm.pending d hd v hv)) heq

theorem filledBy_map : (m.map f).filledBy = m.filledBy := by
  rw [filledBy, map, List.flatMap_map, filledBy]
  refine List.flatMap_congr fun d hd => ?_
  exact (congrArg Resolution.filledPart (resolve_map hf hm hd)).trans
    (Resolution.filledPart_map f _)

theorem pendingAfter_map : (m.map f).pendingAfter = m.pendingAfter.map (Pending.map f) := by
  rw [pendingAfter, map, List.flatMap_map, pendingAfter, List.map_flatMap]
  refine List.flatMap_congr fun d hd => ?_
  exact (congrArg (Resolution.pendingPart (d.map f)) (resolve_map hf hm hd)).trans
    (Resolution.pendingPart_map f d _)

/-- Finishing a merge does not see a one-to-one renaming of its variables. -/
theorem finish_map : (m.map f).finish (result.map f) = m.finish result := by
  -- A variable and its new name have one number, and only numbers are left in the end.
  have hassignments : (m.map f).assignments.filterMap (fun a =>
        ((Headed.numbering (result.map f)).image? a.var).map (Assignment.mk · a.predicate)) =
      m.assignments.filterMap fun a =>
        (result.numbering.image? a.var).map (Assignment.mk · a.predicate) := by
    rw [map, List.filterMap_map]
    refine List.filterMap_congr fun a ha => ?_
    rw [Function.comp_apply, Headed.image?_numbering_map hf (hm.assigned a ha)]
  have hunfilled : (m.map f).pendingAfter.filterMap (·.rename? (Headed.numbering (result.map f))) =
      m.pendingAfter.filterMap (·.rename? result.numbering) := by
    rw [pendingAfter_map hf hm, List.filterMap_map]
    refine List.filterMap_congr fun d hd => Pending.rename?_map fun v hv => ?_
    exact Headed.image?_numbering_map hf (hm.pendingAfter d hd v hv)
  have hsign : ((m.map f).finish (result.map f)).sign = (m.finish result).sign := by
    rw [sign_finish, sign_finish, Headed.canonical_map hf, hassignments, hunfilled]
  have hfilled : ((m.map f).finish (result.map f)).filled = (m.finish result).filled := by
    rw [filled_finish, filled_finish, filledBy_map hf hm]
  have habandoned : ((m.map f).finish (result.map f)).abandoned = (m.finish result).abandoned := by
    rw [abandoned_finish_of_within (hm.map f), abandoned_finish_of_within hm]
    rfl
  exact Combination.ext hsign hfilled habandoned

end

theorem absorb_map {s : Sign} {heads heads' : Renaming}
    (h : ∀ v, heads'.image? v = (heads.image? v).map f) :
    (m.map f).absorb s heads' = (m.absorb s heads).map f := by
  have hrename : ∀ d : Pending, d.rename? heads' = (d.rename? heads).map (Pending.map f) :=
    fun d => Pending.rename?_of_image? h
  simp only [absorb, map, h, hrename, List.map_append, List.map_filterMap, Option.map_map,
    Option.isNone_map, Function.comp_def]

end Merge

/-! ## Applying rules -/

/-- A pattern that a category does not face cannot be made one by renaming it one-to-one. -/
theorem Headed.unify_map_eq_none {mode : FeatureMode} {actual pattern : Headed} {f : Var → Var}
    (hf : Set.InjOn f {v | v ∈ pattern.vars}) (h : unify mode actual pattern = none) :
    unify mode actual (pattern.map f) = none := by
  rw [Option.eq_none_iff_forall_ne_some]
  intro u' hu'
  -- Renamed back, the pattern would be faced.
  obtain ⟨u, hu, -⟩ := exists_unify_map hu' (Function.invFunOn f {v | v ∈ pattern.vars})
  have hback : (pattern.map f).map (Function.invFunOn f {v | v ∈ pattern.vars}) = pattern := by
    rw [Category.map_map]
    exact Category.map_eq_self fun v hv => hf.leftInvOn_invFunOn (mem_vars.2 hv)
  rw [hback, h] at hu
  cases hu

theorem LexicalDependency.instantiate_map (f : Var → Var) (index : Nat) (d : LexicalDependency) :
    (d.map f).instantiate index = (d.instantiate index).map f := by
  obtain ⟨subject, k, object⟩ := d
  cases subject <;> rfl

theorem LexicalDependency.mem_vars_instantiate {index : Nat} {d : LexicalDependency} {v : Var}
    (hv : v ∈ (d.instantiate index).vars) : v ∈ d.vars := by
  obtain ⟨subject, k, object⟩ := d
  cases subject with
  | predicate name => exact hv
  | var w => simpa [instantiate, vars, Pending.vars, Pending.subjectVar?, Pending.objectVar?,
      or_comm] using hv

namespace UnaryRule

/-- The rule with its variables renamed. -/
def map (f : Var → Var) (rule : UnaryRule) : UnaryRule where
  input := rule.input.map f
  result := rule.result.map f
  dependencies := rule.dependencies.map (·.map f)

/-- What a rule brings together: the sign, with its variables sent to those of the rule, and its own
    dependencies. -/
def merged (rule : UnaryRule) (s : Sign) (heads : Renaming) : Merge :=
  (Merge.empty.absorb s heads).addPending (rule.dependencies.map (·.instantiate 0))

variable {rule : UnaryRule} {mode : FeatureMode} {s : Sign} {u : Unifier} {f : Var → Var}

theorem apply_of_unify (h : Headed.unify mode s.category rule.input = some u) :
    rule.apply mode s =
      some ((rule.merged s u.heads).finish (Headed.bindFeatures u.features rule.result)) := by
  rw [apply, h]
  rfl

theorem Valid.map (h : rule.Valid) (f : Var → Var) : (rule.map f).Valid where
  input_subset w hw := by
    obtain ⟨v, hv, rfl⟩ := Headed.mem_vars_map.1 hw
    exact Headed.mem_vars_map.2 ⟨v, h.input_subset v hv, rfl⟩
  subject_var d hd := by
    obtain ⟨e, he, rfl⟩ := List.mem_map.1 hd
    obtain ⟨v, hv⟩ := h.subject_var e he
    exact ⟨f v, by rw [LexicalDependency.map, hv]⟩
  declared d hd w hw := by
    obtain ⟨e, he, rfl⟩ := List.mem_map.1 hd
    rw [LexicalDependency.vars_map] at hw
    obtain ⟨v, hv, rfl⟩ := List.mem_map.1 hw
    exact Headed.mem_vars_map.2 ⟨v, h.declared e he v hv, rfl⟩

/-- A variable of a sign is sent to one of the input, and so to one of the result. -/
theorem Valid.mem_labels_of_image? (h : rule.Valid)
    (hu : Headed.unify mode s.category rule.input = some u) {v w : Var}
    (hw : u.heads.image? v = some w) : w ∈ rule.result.labels :=
  Headed.mem_vars.1 (h.input_subset w (Headed.mem_vars.2 (Headed.mem_labels_of_unify hu hw)))

/-- What an accepted rule brings together is within its result. -/
theorem Valid.within_merged (h : rule.Valid)
    (hu : Headed.unify mode s.category rule.input = some u) :
    (rule.merged s u.heads).Within (Headed.bindFeatures u.features rule.result) := by
  constructor
  · intro a ha
    obtain ⟨b, -, hb⟩ := List.mem_filterMap.1 ha
    obtain ⟨w, hw, rfl⟩ := Option.map_eq_some_iff.1 hb
    rw [Headed.labels_bindFeatures]
    exact h.mem_labels_of_image? hu hw
  · intro d hd v hv
    rw [Headed.labels_bindFeatures]
    rcases List.mem_append.1 hd with hd | hd
    · -- A dependency of the sign: its variables have been renamed, so each of them is an image.
      obtain ⟨e, -, he⟩ := List.mem_filterMap.1 hd
      have himages := Pending.rename?_isSome_iff.1 (Option.isSome_iff_exists.2 ⟨d, he⟩)
      rw [← Pending.vars_link, Pending.link_of_rename? he, Link.vars_rename] at hv
      obtain ⟨w, hw, rfl⟩ := List.mem_map.1 hv
      rw [Pending.vars_link] at hw
      obtain ⟨x, hx⟩ := Option.isSome_iff_exists.1 (himages w hw)
      rw [Renaming.apply_of_image? hx]
      exact h.mem_labels_of_image? hu hx
    · -- A dependency of the rule.
      obtain ⟨e, he, rfl⟩ := List.mem_map.1 hd
      exact Headed.mem_vars.1 (h.declared e he v (LexicalDependency.mem_vars_instantiate hv))

theorem merged_map {heads heads' : Renaming}
    (h : ∀ v, heads'.image? v = (heads.image? v).map f) :
    (rule.map f).merged s heads' = (rule.merged s heads).map f := by
  have habsorb : Merge.empty.absorb s heads' = (Merge.empty.absorb s heads).map f :=
    Merge.absorb_map (m := Merge.empty) h
  simp only [merged, map, habsorb, Merge.addPending, Merge.map, List.map_append, List.map_map,
    Function.comp_def, LexicalDependency.instantiate_map]

/-- A rule makes the same of a sign under other variables. -/
theorem apply_map (h : rule.Valid) (hf : Set.InjOn f {v | v ∈ rule.result.vars}) :
    (rule.map f).apply mode s = rule.apply mode s := by
  cases hu : Headed.unify mode s.category rule.input with
  | none =>
    have hinput : Set.InjOn f {v | v ∈ rule.input.vars} := hf.mono h.input_subset
    have hnone := Headed.unify_map_eq_none hinput hu
    rw [apply, apply, hu, map, hnone]
    rfl
  | some u =>
    -- The features get the same values, and every head is sent to a new name.
    obtain ⟨u', hu', hheads, hfeatures⟩ := Headed.exists_unify_map hu f
    have hbind : Headed.bindFeatures u'.features (rule.map f).result =
        (Headed.bindFeatures u.features rule.result).map f := by
      rw [Headed.bindFeatures_congr hfeatures]
      exact Headed.bindFeatures_map _ _ _
    have hvars : Set.InjOn f {v | v ∈ (Headed.bindFeatures u.features rule.result).vars} := by
      rwa [Headed.vars, Headed.labels_bindFeatures]
    have hrenamed : Headed.unify mode s.category (rule.map f).input = some u' := hu'
    rw [apply_of_unify hu, apply_of_unify hrenamed, hbind, merged_map hheads,
      Merge.finish_map hvars (h.within_merged hu)]

theorem abandoned_apply {c : Combination} (h : rule.Valid) (hs : s.Invariant)
    (hc : rule.apply mode s = some c) : c.abandoned = [] := by
  obtain ⟨u, hu, rfl⟩ := apply_eq_some_iff.1 hc
  have habsorb : (Merge.empty.absorb s u.heads).abandoned = [] :=
    Merge.abandoned_absorb hs fun v hv => Headed.isSome_image?_of_unify hu hv
  exact (Merge.abandoned_finish_of_within (h.within_merged hu)).trans habsorb

/-- The predicates of a variable go to the variable of the rule that it faces. -/
theorem mem_predicatesOf_apply (h : rule.Valid) (hs : s.Invariant)
    (hu : Headed.unify mode s.category rule.input = some u) {v w : Var}
    (hw : u.heads.image? v = some w) {p : Predicate} (hp : p ∈ s.predicatesOf v) :
    p ∈ ((rule.merged s u.heads).finish
      (Headed.bindFeatures u.features rule.result)).sign.predicatesOf
        (rule.result.numbering.apply w) := by
  have hmem : w ∈ (Headed.bindFeatures u.features rule.result).labels := by
    rw [Headed.labels_bindFeatures]
    exact h.mem_labels_of_image? hu hw
  rw [← Headed.numbering_bindFeatures u.features, Merge.predicatesOf_finish hmem,
    Merge.mem_predicatesOf]
  -- The assignment has come in along the renaming.
  have hassigned := (Sign.mem_predicatesOf hs.assignments_ascending).1 hp
  exact List.mem_filterMap.2 ⟨_, hassigned, by rw [hw]; rfl⟩

/-- An accepted rule loses nothing: when it applies, it abandons no dependency, and every predicate
    of a variable of the sign is one of the rule's variable that it faces, under the number that
    this variable has in the canonical form of the result. And the rule does not depend on its
    numbering: under a renaming that is one-to-one on the variables of its input and of its result
    it is accepted and makes the same of every sign. -/
theorem lossless_and_independent_of_numbering {input result : Headed}
    {ds : List LexicalDependency} {rule : UnaryRule} (hrule : make input result ds = .ok rule)
    (mode : FeatureMode) {s : Sign} (hs : s.Reachable) :
    (∀ c, rule.apply mode s = some c →
      c.abandoned = [] ∧
      ∃ u, Headed.unify mode s.category rule.input = some u ∧
        c.sign.category = (Headed.bindFeatures u.features rule.result).map
          rule.result.numbering.apply ∧
        ∀ v ∈ s.category.vars, ∃ w, u.heads.image? v = some w ∧ w ∈ rule.input.vars ∧
          w ∈ rule.result.vars ∧
          ∀ p ∈ s.predicatesOf v, p ∈ c.sign.predicatesOf (rule.result.numbering.apply w)) ∧
    ∀ f : Var → Var, Set.InjOn f {v | v ∈ input.vars ∨ v ∈ result.vars} →
      make (input.map f) (result.map f) (ds.map (·.map f)) = .ok (rule.map f) ∧
      (rule.map f).apply mode s = rule.apply mode s := by
  obtain ⟨rfl, hvalid⟩ := make_eq_ok_iff.1 hrule
  refine ⟨fun c hc => ⟨abandoned_apply hvalid hs.invariant hc, ?_⟩, fun f hf => ⟨?_, ?_⟩⟩
  · obtain ⟨u, hu, rfl⟩ := apply_eq_some_iff.1 hc
    refine ⟨u, hu, ?_, fun v hv => ?_⟩
    · rw [← Headed.numbering_bindFeatures u.features]
      rfl
    · obtain ⟨w, hw⟩ := Option.isSome_iff_exists.1
        (Headed.isSome_image?_of_unify hu (Headed.mem_vars.1 hv))
      exact ⟨w, hw, Headed.mem_vars.2 (Headed.mem_labels_of_unify hu hw),
        Headed.mem_vars.2 (hvalid.mem_labels_of_image? hu hw),
        fun p hp => mem_predicatesOf_apply hvalid hs.invariant hu hw hp⟩
  · exact make_eq_ok_iff.2 ⟨rfl, hvalid.map f⟩
  · exact apply_map hvalid (hf.mono fun v hv => .inr hv)

/-- Type raising: a noun phrase looks for the verb phrase whose subject it is. -/
def sampleRaising : UnaryRule where
  input := .atom "NP" .unspecified 0
  result := .func .forward (.atom "S" .unspecified 1)
    (.func .backward (.atom "S" .unspecified 1) (.atom "NP" .unspecified 0) 1) 1
  dependencies := [⟨.var 1, 1, 0⟩]

/-- The noun has become the second variable, and waits for the verb. -/
def sampleRaised : Combination where
  sign :=
    ⟨.func .forward (.atom "S" .unspecified 0)
        (.func .backward (.atom "S" .unspecified 0) (.atom "NP" .unspecified 1) 0) 0,
      [⟨1, "dog", 1⟩], [.subjectOpen 0 1 ⟨"dog", 1⟩]⟩
  filled := []
  abandoned := []

theorem lossless_and_independent_of_numbering_sample :
    sampleRaising.apply .strict Sign.sampleNoun = some sampleRaised ∧
      sampleRaised.abandoned = [] ∧
      (sampleRaising.map (7 - ·)).apply .strict Sign.sampleNoun = some sampleRaised := by
  have hmake : make sampleRaising.input sampleRaising.result sampleRaising.dependencies =
      .ok sampleRaising := by decide +kernel
  have happly : sampleRaising.apply .strict Sign.sampleNoun = some sampleRaised := by
    decide +kernel
  obtain ⟨hlossless, hindependent⟩ :=
    lossless_and_independent_of_numbering hmake .strict (s := Sign.sampleNoun) (.lexical _ 1)
  -- The renaming turns the order of the two variables round.
  have hinj : ∀ v w : Nat, v ≤ 1 → w ≤ 1 → 7 - v = 7 - w → v = w := by omega
  have hle : ∀ v, v ∈ sampleRaising.input.vars ∨ v ∈ sampleRaising.result.vars → v ≤ 1 := by
    have hinput : ∀ v ∈ sampleRaising.input.vars, v ≤ 1 := by decide +kernel
    have hresult : ∀ v ∈ sampleRaising.result.vars, v ≤ 1 := by decide +kernel
    exact fun v hv => hv.elim (hinput v) (hresult v)
  obtain ⟨-, hsame⟩ := hindependent (7 - ·) fun v hv w hw => hinj v w (hle v hv) (hle w hw)
  exact ⟨happly, (hlossless _ happly).1, hsame.trans happly⟩

end UnaryRule

end Categorial
