/-
  Categorial.Proofs.Sign.Composition

  Composing two functors and applying the outcome, against applying them one after the other.  If
  the second way succeeds so does the first, and both arrive at the same heads, directions and
  atoms.  Features are another matter: composition keeps no link between the feature variables of
  its two parts, and it does not keep them apart either.  So what becomes of a feature variable of
  the functor's result may differ (`exists_features_lost_and_captured`), and the two ways agree just
  when it does not (`composition_agrees_iff`).

    * `category_of_apply`, `category_of_compose` -- the categories that the steps arrive at.
    * `exists_unify_of_bound` -- what unifies with some values put in unifies without them.
-/

import Categorial.Proofs.Category.Features
import Categorial.Proofs.Sign.Invariant

namespace Categorial

open FeatureBindings (firstValue)

/-! ## Features that face each other -/

namespace Category

variable {α β : Type}

/-- A feature variable that the pattern does not have faces nothing. -/
theorem firstValue_facing_eq_none {actual : Category α} {pattern : Category β} {n : Nat}
    (hn : .var n ∉ pattern.features) : firstValue n (actual.facing pattern) = none := by
  refine List.findSome?_eq_none_iff.2 fun pair hpair => ?_
  refine Option.eq_none_iff_forall_ne_some.2 fun x hx => ?_
  rw [FeatureBindings.valueFor_eq_some.1 hx] at hpair
  exact hn (List.of_mem_zip hpair).2

end Category

namespace Headed

variable {mode : FeatureMode} {actual pattern : Headed}

/-- What unifies with some values put in and its variables renamed unifies as it is: there is less
    to clash. -/
theorem exists_unify_of_bound {b : FeatureBindings} {f : Var → Var} {u : Unifier}
    (h : unify mode ((bindFeatures b actual).map f) pattern = some u) :
    ∃ u', unify mode actual pattern = some u' := by
  obtain ⟨hshape, ⟨g, hg⟩, hagree⟩ := exists_unify_iff.1 ⟨u, h⟩
  rw [Category.shape_map, shape_bindFeatures] at hshape
  rw [Category.labels_map, labels_bindFeatures, List.map_map] at hg
  refine exists_unify_iff.2 ⟨hshape, ⟨g ∘ f, hg⟩, fun hmode => ?_⟩
  -- A value stays a value when others are put in, so every pair with a value is still there.
  have hmem : ∀ x p, (.value x, p) ∈ actual.facing pattern →
      (.value x, p) ∈ ((bindFeatures b actual).map f).facing pattern := by
    intro x p hp
    rw [Category.facing, Category.features_map, features_bindFeatures, List.zip_map_left]
    exact List.mem_map.2 ⟨_, hp, rfl⟩
  obtain ⟨hvalues, hvars⟩ := hagree hmode
  exact ⟨fun x y hxy => hvalues x y (hmem _ _ hxy),
    fun n x y hx hy => hvars n x y (hmem _ _ hx) (hmem _ _ hy)⟩

end Headed

/-! ## Categories of combined signs -/

namespace Sign

variable {mode : FeatureMode} {dir : Direction} {functor other argument : Sign}
  {result wanted offered needed : Headed} {label label' : Var}

theorem category_of_apply {c : Combination}
    (hfunctor : functor.category = .func dir result wanted label)
    (h : functor.apply mode dir argument = some c) :
    ∃ u, Headed.unify mode argument.category wanted = some u ∧
      c.sign.category = Headed.bindFeatures u.features result.canonical := by
  obtain ⟨result', wanted', label', u, hcategory, hunify, rfl⟩ := apply_eq_some_iff.1 h
  rw [hfunctor] at hcategory
  cases hcategory
  exact ⟨u, hunify, Headed.canonical_bindFeatures u.features result⟩

theorem exists_apply {u : Unifier} (hfunctor : functor.category = .func dir result wanted label)
    (hunify : Headed.unify mode argument.category wanted = some u) :
    ∃ c, functor.apply mode dir argument = some c :=
  ⟨_, apply_eq_some_iff.2 ⟨result, wanted, label, u, hfunctor, hunify, rfl⟩⟩

/-- The composed category: the result of the functor with values put in, and the argument of the
    other sign as it is, both renumbered. -/
theorem category_of_compose {u : Unifier}
    (hfunctor : functor.category = .func dir result wanted label)
    (hother : other.category = .func dir offered needed label')
    (hunify : Headed.unify mode offered wanted = some u) :
    ∃ c, functor.compose mode dir other = some c ∧
      ∃ (number : Var → Var) (image : Var → Var) (head : Var),
        Set.InjOn number {v | v ∈ result.vars} ∧
        c.sign.category = .func dir ((Headed.bindFeatures u.features result).map number)
          (needed.map image) head := by
  refine ⟨_, compose_eq_some_iff.2
    ⟨result, wanted, label, offered, needed, label', u, hfunctor, hother, hunify, rfl⟩, ?_⟩
  refine ⟨_, _, _, ?_, congrArg₂ (Category.func dir · · _) rfl (Category.map_map _ _ needed)⟩
  refine (Headed.bijOn_numbering _).injOn.mono fun v hv => ?_
  -- The heads of the result are among those of the composed category.
  refine Headed.mem_vars.2 (List.mem_cons_of_mem _ (List.mem_append_left _ ?_))
  rw [Headed.labels_bindFeatures]
  exact Headed.mem_vars.1 hv

/-- When the two applications succeed, so do the composition and its application, and what these
    make of the features of the functor's result is to give values to them twice: those that the
    functor faces in what the other sign offers, then those that the other sign faces in the
    argument. -/
theorem exists_compose_apply {inner outer : Combination}
    (hfunctor : functor.category = .func dir result wanted label)
    (hother : other.category = .func dir offered needed label')
    (hinner : other.apply mode dir argument = some inner)
    (houter : functor.apply mode dir inner.sign = some outer) :
    ∃ composed applied b b' b'',
      functor.compose mode dir other = some composed ∧
      composed.sign.apply mode dir argument = some applied ∧
      applied.sign.category = Headed.bindFeatures b' (Headed.bindFeatures b result.canonical) ∧
      outer.sign.category = Headed.bindFeatures b'' result.canonical ∧
      (∀ n, b.lookup n = firstValue n (offered.facing wanted)) ∧
      (∀ n, b'.lookup n = firstValue n (argument.category.facing needed)) ∧
      ∀ n, b''.lookup n = firstValue n (inner.sign.category.facing wanted) := by
  obtain ⟨u₁, hunify₁, hcategory₁⟩ := category_of_apply hother hinner
  obtain ⟨u₂, hunify₂, hcategory₂⟩ := category_of_apply hfunctor houter
  -- The inner category is what the other sign offers, with values put in and renumbered.
  have hbound := hunify₂
  rw [hcategory₁, ← Headed.canonical_bindFeatures] at hbound
  obtain ⟨u₃, hunify₃⟩ := Headed.exists_unify_of_bound hbound
  obtain ⟨composed, hcomposed, number, image, head, hinj, hcategory₃⟩ :=
    category_of_compose hfunctor hother hunify₃
  -- The composed category looks for what the other sign looks for, up to numbers.
  obtain ⟨u₄, hunify₄, -, hlookup₄⟩ := Headed.exists_unify_map hunify₁ image
  obtain ⟨applied, happlied⟩ := exists_apply hcategory₃ hunify₄
  refine ⟨composed, applied, u₃.features, u₄.features, u₂.features, hcomposed, happlied, ?_,
    hcategory₂, Headed.lookup_of_unify hunify₃, fun n => ?_, Headed.lookup_of_unify hunify₂⟩
  · obtain ⟨u, hunify, hcategory₄⟩ := category_of_apply hcategory₃ happlied
    rw [hunify₄] at hunify
    cases hunify
    have hinj' : Set.InjOn number
        {v | v ∈ Headed.vars (Headed.bindFeatures u₃.features result)} := by
      simpa only [Headed.mem_vars, Headed.labels_bindFeatures] using hinj
    rw [hcategory₄, Headed.canonical_map hinj', Headed.canonical_bindFeatures]
  · rw [hlookup₄, Headed.lookup_of_unify hunify₁]

/-- If the other sign looks for no feature variable, nothing that the argument brings in matters. -/
theorem firstValue_inner {inner : Combination}
    (hother : other.category = .func dir offered needed label')
    (hinner : other.apply mode dir argument = some inner)
    (hneeded : ∀ n, .var n ∉ needed.features) (n : Nat) :
    firstValue n (inner.sign.category.facing wanted) = firstValue n (offered.facing wanted) := by
  obtain ⟨u, hunify, hcategory⟩ := category_of_apply hother hinner
  have hbound : ∀ x, Headed.boundFeature u.features x = x := by
    intro x
    cases x with
    | unspecified => rfl
    | value x => rfl
    | var k =>
      have hnone : u.features.lookup k = none := by
        rw [Headed.lookup_of_unify hunify, Category.firstValue_facing_eq_none (hneeded k)]
      simp only [Headed.boundFeature, hnone]
  have hfeatures : inner.sign.category.features = offered.features := by
    rw [hcategory, Headed.features_bindFeatures, Headed.canonical, Headed.rename,
      Category.features_map, List.map_congr_left fun x _ => hbound x, List.map_id']
  rw [Category.facing, hfeatures, Category.facing]

/-- If a functor can be applied to the outcome of applying another sign to an argument, the two can
    also be composed and the composed sign can be applied to the argument. The outcome has the same
    heads, directions and atoms. It has the same features just when, at every feature variable of
    the functor's result, the first value that it faces in what the other sign offers, or else the
    first value that the variable of this number faces in the argument, is the first value that it
    faces in the outcome of the inner application. This is so if the functor's result has no feature
    variables, and if the other sign looks for none. -/
theorem composition_agrees_iff (mode : FeatureMode) (dir : Direction)
    (functor other argument : Sign) (inner outer : Combination)
    (hinner : other.apply mode dir argument = some inner)
    (houter : functor.apply mode dir inner.sign = some outer) :
    ∃ composed applied result wanted label offered needed label',
      functor.category = .func dir result wanted label ∧
      other.category = .func dir offered needed label' ∧
      functor.compose mode dir other = some composed ∧
      composed.sign.apply mode dir argument = some applied ∧
      applied.sign.category.withoutFeatures = outer.sign.category.withoutFeatures ∧
      (applied.sign.category = outer.sign.category ↔
        ∀ n, .var n ∈ result.features →
          (firstValue n (offered.facing wanted)).or
              (firstValue n (argument.category.facing needed)) =
            firstValue n (inner.sign.category.facing wanted)) ∧
      ((∀ n, .var n ∉ result.features) ∨ (∀ n, .var n ∉ needed.features) →
        applied.sign.category = outer.sign.category) := by
  obtain ⟨result, wanted, label, -, hfunctor, -, -⟩ := apply_eq_some_iff.1 houter
  obtain ⟨offered, needed, label', -, hother, -, -⟩ := apply_eq_some_iff.1 hinner
  obtain ⟨composed, applied, b, b', b'', hcomposed, happlied, hcategory, hcategory', hb, hb',
      hb''⟩ :=
    exists_compose_apply hfunctor hother hinner houter
  have hiff : applied.sign.category = outer.sign.category ↔
      ∀ n, .var n ∈ result.features →
        (firstValue n (offered.facing wanted)).or (firstValue n (argument.category.facing needed)) =
          firstValue n (inner.sign.category.facing wanted) := by
    rw [hcategory, hcategory', Headed.bindFeatures_bindFeatures_eq_iff]
    simp only [Headed.canonical, Headed.rename, Category.features_map, hb, hb', hb'']
  refine ⟨composed, applied, result, wanted, label, offered, needed, label', hfunctor, hother,
    hcomposed, happlied, ?_, hiff, ?_⟩
  · simp only [hcategory, hcategory', Headed.bindFeatures_eq, Category.withoutFeatures_mapFeatures]
  · rintro (hresult | hneeded)
    · exact hiff.2 fun n hn => absurd hn (hresult n)
    · refine hiff.2 fun n _ => ?_
      rw [Category.firstValue_facing_eq_none (hneeded n), Option.or_none,
        firstValue_inner hother hinner hneeded]

/-- A sentence adverb, which keeps the feature of its sentence; `n` is the number of the feature
    variable that says so. -/
def clauseAdverb (n : Nat) : Sign :=
  bare (.func .forward (.atom "S" (.var n) 1) (.atom "S" (.var n) 1) 0)

/-- The outcome of a step between signs without semantics. -/
def bareStep (c : Headed) : Combination := ⟨⟨c, [], []⟩, [], []⟩

/-- An adverb before a verb: the value of the verb reaches the sentence both ways. -/
theorem composition_agrees_iff_sample :
    let verb : Sign :=
      bare (.func .forward (.atom "S" (.value "dcl") 0) (.atom "NP" .unspecified 1) 0)
    let object : Sign := bare (.atom "NP" .unspecified 0)
    let clause : Combination := bareStep (.atom "S" (.value "dcl") 0)
    verb.apply .strict .forward object = some clause ∧
    (clauseAdverb 1).apply .strict .forward clause.sign = some clause ∧
    ∃ composed applied, (clauseAdverb 1).compose .strict .forward verb = some composed ∧
      composed.sign.apply .strict .forward object = some applied ∧
      applied.sign.category = clause.sign.category := by
  intro verb object clause
  have hinner : verb.apply .strict .forward object = some clause := by decide +kernel
  have houter : (clauseAdverb 1).apply .strict .forward clause.sign = some clause := by
    decide +kernel
  obtain ⟨composed, applied, result, wanted, label, offered, needed, label', -, hverb, hcomposed,
      happlied, -, -, hagrees⟩ :=
    composition_agrees_iff .strict .forward (clauseAdverb 1) verb object clause clause hinner houter
  refine ⟨hinner, houter, composed, applied, hcomposed, happlied, hagrees (.inr fun n => ?_)⟩
  -- The object has no feature at all.
  have hcategory : verb.category =
      .func .forward (.atom "S" (.value "dcl") 0) (.atom "NP" .unspecified 1) 0 := by decide +kernel
  rw [hcategory] at hverb
  cases hverb
  simp [Category.features]

/-- Applying one functor after the other leads to the category `nested`, and composing them first
    leads to `composed`. -/
def LeadsTo (mode : FeatureMode) (dir : Direction) (functor other argument : Sign)
    (nested composed : Headed) : Prop :=
  ∃ inner outer both applied : Combination,
    other.apply mode dir argument = some inner ∧
    functor.apply mode dir inner.sign = some outer ∧ outer.sign.category = nested ∧
    functor.compose mode dir other = some both ∧
    both.sign.apply mode dir argument = some applied ∧ applied.sign.category = composed

/-- The two ways can differ. Two adverbs with different feature variables lose the value of the
    clause when they are composed first. And a verb phrase that leaves its own feature open takes
    over the value of a noun when it is composed with a determiner whose feature variable happens to
    have the same number. -/
theorem exists_features_lost_and_captured :
    (∃ functor other argument : Sign,
      functor.Reachable ∧ other.Reachable ∧ argument.Reachable ∧
      LeadsTo .strict .forward functor other argument (.atom "S" (.value "dcl") 0)
        (.atom "S" (.var 1) 0)) ∧
    ∃ functor other argument : Sign,
      functor.Reachable ∧ other.Reachable ∧ argument.Reachable ∧
      LeadsTo .strict .forward functor other argument (.atom "S" (.var 1) 0)
        (.atom "S" (.value "sg") 0) := by
  constructor
  · refine ⟨clauseAdverb 1, clauseAdverb 2, bare (.atom "S" (.value "dcl") 0), .bare _, .bare _,
      .bare _, bareStep (.atom "S" (.value "dcl") 0), bareStep (.atom "S" (.value "dcl") 0),
      bareStep (.func .forward (.atom "S" (.var 1) 0) (.atom "S" (.var 2) 0) 0),
      bareStep (.atom "S" (.var 1) 0), ?_⟩
    decide +kernel
  · refine ⟨bare (.func .forward (.atom "S" (.var 1) 0) (.atom "NP" .unspecified 1) 0),
      bare (.func .forward (.atom "NP" .unspecified 0) (.atom "N" (.var 1) 1) 0),
      bare (.atom "N" (.value "sg") 0), .bare _, .bare _, .bare _,
      bareStep (.atom "NP" .unspecified 0), bareStep (.atom "S" (.var 1) 0),
      bareStep (.func .forward (.atom "S" (.var 1) 0) (.atom "N" (.var 1) 1) 0),
      bareStep (.atom "S" (.value "sg") 0), ?_⟩
    decide +kernel

end Sign

end Categorial
