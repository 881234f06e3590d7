/-
  Categorial.Proofs.Combinator

  What the steps that make signs do when they succeed: which categories have to unify, what is
  merged, and which category the merge is finished for.
-/

import Categorial.Combinator
import Categorial.UnaryRule.Basic

namespace Categorial

namespace Sign

variable {mode : FeatureMode} {dir : Direction} {functor other : Sign} {c : Combination}

theorem apply_eq_some_iff :
    functor.apply mode dir other = some c ↔
      ∃ result wanted label u, functor.category = .func dir result wanted label ∧
        Headed.unify mode other.category wanted = some u ∧
        ((Merge.ofSign functor).absorb other u.heads).finish
          (Headed.bindFeatures u.features result) = c := by
  unfold apply
  constructor
  · intro h
    split at h
    · rename_i d result wanted label hcat
      split at h
      · rename_i hdir
        obtain ⟨u, hu, hc⟩ := Option.map_eq_some_iff.1 h
        exact ⟨result, wanted, label, u, hdir ▸ hcat, hu, hc⟩
      · cases h
    · cases h
  · rintro ⟨result, wanted, label, u, hcat, hu, hc⟩
    simp only [hcat, if_true, hu, Option.map_some, hc]

theorem compose_eq_some_iff :
    functor.compose mode dir other = some c ↔
      ∃ result wanted label offered argument label' u,
        functor.category = .func dir result wanted label ∧
        other.category = .func dir offered argument label' ∧
        Headed.unify mode offered wanted = some u ∧
        let heads := extendFresh u.heads (functor.category.maxVar + 1) other.category.vars
        ((Merge.ofSign functor).absorb other heads).finish
          (.func dir (Headed.bindFeatures u.features result) (Headed.rename heads argument)
            result.label) = c := by
  unfold compose
  constructor
  · intro h
    split at h
    · rename_i d result wanted label d' offered argument label' hf ho
      split at h
      · rename_i hdir
        obtain ⟨rfl, rfl⟩ := hdir
        obtain ⟨u, hu, hc⟩ := Option.map_eq_some_iff.1 h
        exact ⟨result, wanted, label, offered, argument, label', u, hf, ho, hu, hc⟩
      · cases h
    · cases h
  · rintro ⟨result, wanted, label, offered, argument, label', u, hf, ho, hu, hc⟩
    simp only [hf, ho, and_self, if_true, hu, Option.map_some] at hc ⊢
    rw [hc]

end Sign

theorem UnaryRule.apply_eq_some_iff {mode : FeatureMode} {rule : UnaryRule} {s : Sign}
    {c : Combination} :
    rule.apply mode s = some c ↔
      ∃ u, Headed.unify mode s.category rule.input = some u ∧
        ((Merge.empty.absorb s u.heads).addPending (rule.dependencies.map (·.instantiate 0))).finish
          (Headed.bindFeatures u.features rule.result) = c := by
  rw [apply, Option.map_eq_some_iff]

namespace Combinators

variable {set : Combinators} {left right : Sign} {combinator : Combinator} {c : Combination}

theorem mem_combine :
    (combinator, c) ∈ set.combine left right ↔
      combinator ∈ set.toList ∧ combinator.apply set.features left right = some c := by
  simp [combine, List.mem_filterMap]

end Combinators

end Categorial
