/-
  Categorial.Proofs.Category.Features

  Giving values to feature variables.  It replaces the features of a category one by one
  (`bindFeatures_eq`), so it leaves the heads alone (`labels_bindFeatures`), goes past every
  renaming (`bindFeatures_map`) and past the canonical form (`canonical_bindFeatures`).  What two
  ways of giving values make of one category differs only if they differ on a variable that occurs
  in it (`bindFeatures_bindFeatures_eq_iff`).
-/

import Categorial.Proofs.Category.Alignment
import Categorial.Proofs.Category.Canonical

namespace Categorial

/-! ## Replacing features -/

namespace Category

variable {α β : Type}

/-- Replaces every feature. -/
def mapFeatures (f : Feature → Feature) : Category α → Category α
  | .atom name feature l => .atom name (f feature) l
  | .func d r a l => .func d (r.mapFeatures f) (a.mapFeatures f) l

@[simp] theorem labels_mapFeatures (f : Feature → Feature) (c : Category α) :
    (c.mapFeatures f).labels = c.labels := by
  induction c with
  | atom => rfl
  | func d r a l ihr iha => rw [mapFeatures, labels, labels, ihr, iha]

@[simp] theorem withoutFeatures_mapFeatures (f : Feature → Feature) (c : Category α) :
    (c.mapFeatures f).withoutFeatures = c.withoutFeatures := by
  induction c with
  | atom => rfl
  | func d r a l ihr iha => rw [mapFeatures, withoutFeatures, withoutFeatures, ihr, iha]

theorem mapFeatures_map (f : Feature → Feature) (g : α → β) (c : Category α) :
    (c.map g).mapFeatures f = (c.mapFeatures f).map g := by
  induction c with
  | atom => rfl
  | func d r a l ihr iha => simp only [map, mapFeatures, ihr, iha]

theorem mapFeatures_mapFeatures (f g : Feature → Feature) (c : Category α) :
    (c.mapFeatures f).mapFeatures g = c.mapFeatures (g ∘ f) := by
  induction c with
  | atom => rfl
  | func d r a l ihr iha => simp only [mapFeatures, ihr, iha]

/-- What counts is what becomes of the features that occur. -/
theorem mapFeatures_eq_iff {f g : Feature → Feature} {c : Category α} :
    c.mapFeatures f = c.mapFeatures g ↔ ∀ x ∈ c.features, f x = g x := by
  induction c with
  | atom name feature l => simp [mapFeatures, features]
  | func d r a l ihr iha =>
    simp only [mapFeatures, func.injEq, true_and, and_true, ihr, iha, features,
      List.forall_mem_append]

end Category

/-! ## Giving values -/

namespace Headed

theorem bindFeatures_eq (b : FeatureBindings) (c : Headed) :
    bindFeatures b c = c.mapFeatures (boundFeature b) := by
  induction c with
  | atom name feature v =>
    cases feature with
    | unspecified => rfl
    | value x => rfl
    | var n => cases hn : b.lookup n <;> simp [bindFeatures, boundFeature, Category.mapFeatures, hn]
  | func d r a v ihr iha => rw [bindFeatures, Category.mapFeatures, ihr, iha]

@[simp] theorem labels_bindFeatures (b : FeatureBindings) (c : Headed) :
    (bindFeatures b c).labels = c.labels := by
  rw [bindFeatures_eq, Category.labels_mapFeatures]

theorem bindFeatures_map (b : FeatureBindings) (f : Var → Var) (c : Headed) :
    bindFeatures b (c.map f) = (bindFeatures b c).map f := by
  rw [bindFeatures_eq, bindFeatures_eq, Category.mapFeatures_map]

theorem numbering_bindFeatures (b : FeatureBindings) (c : Headed) :
    numbering (bindFeatures b c) = c.numbering := by
  rw [numbering, labels_bindFeatures, numbering]

theorem canonical_bindFeatures (b : FeatureBindings) (c : Headed) :
    canonical (bindFeatures b c) = bindFeatures b c.canonical := by
  rw [canonical, numbering_bindFeatures, rename, ← bindFeatures_map]
  rfl

/-- Bindings that give the same values make the same category. -/
theorem bindFeatures_congr {b b' : FeatureBindings} (h : ∀ n, b.lookup n = b'.lookup n)
    (c : Headed) : bindFeatures b c = bindFeatures b' c := by
  rw [bindFeatures_eq, bindFeatures_eq, Category.mapFeatures_eq_iff]
  intro x _
  cases x with
  | unspecified => rfl
  | value x => rfl
  | var n => simp only [boundFeature, h]

theorem boundFeature_boundFeature_eq_iff {b b' b'' : FeatureBindings} {n : Nat} :
    boundFeature b' (boundFeature b (.var n)) = boundFeature b'' (.var n) ↔
      (b.lookup n).or (b'.lookup n) = b''.lookup n := by
  cases hb : b.lookup n with
  | some x => cases hb'' : b''.lookup n <;> simp [boundFeature, hb, hb'']
  | none =>
    cases hb' : b'.lookup n <;> cases hb'' : b''.lookup n <;> simp [boundFeature, hb, hb', hb'']

/-- Giving values twice is giving the values of a third binding just when, at every variable that
    occurs, the first value that there is is the third one's. -/
theorem bindFeatures_bindFeatures_eq_iff {b b' b'' : FeatureBindings} {c : Headed} :
    bindFeatures b' (bindFeatures b c) = bindFeatures b'' c ↔
      ∀ n, .var n ∈ c.features → (b.lookup n).or (b'.lookup n) = b''.lookup n := by
  simp only [bindFeatures_eq, Category.mapFeatures_mapFeatures, Category.mapFeatures_eq_iff]
  constructor
  · intro h n hn
    exact boundFeature_boundFeature_eq_iff.1 (h _ hn)
  · intro h x hx
    cases x with
    | unspecified => rfl
    | value x => rfl
    | var n => exact boundFeature_boundFeature_eq_iff.2 (h n hx)

end Headed

end Categorial
