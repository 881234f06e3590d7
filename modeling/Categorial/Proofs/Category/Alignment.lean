/-
  Categorial.Proofs.Category.Alignment

  What unification decides.  It walks through two categories at once and threads the heads and the
  features that it has found through both recursive calls, but the two never meet: the heads of
  nodes that face each other are met in reading order, the features of atoms that face each other
  are met in reading order, and the shapes are compared on the way (`unifyFrom_eq_ok_iff`).  So a
  unification is three checks:

    * the shapes are the same (`Category.shape`),
    * one function sends every head to the head that it faces (`Renaming.exists_faceAll`),
    * in strict mode, no two values clash (`FeatureBindings.faceAll?_strict_iff`).
-/

import Categorial.Proofs.Category.Unification

namespace Categorial

/-! ## Shapes and features -/

namespace Category

variable {α β γ : Type}

/-- Directions and names alone. -/
def shape (c : Category α) : Plain := c.plain.withoutFeatures

/-- The features of the atoms in reading order. -/
def features : Category α → List Feature
  | .atom _ feature _ => [feature]
  | .func _ r a _ => r.features ++ a.features

/-- The features of a category with those of the pattern that they face. -/
def facing (actual : Category α) (pattern : Category β) : List (Feature × Feature) :=
  actual.features.zip pattern.features

theorem shape_atom (name : String) (feature : Feature) (l : α) :
    (Category.atom name feature l).shape = .atom name .unspecified () := rfl

theorem shape_func (d : Direction) (r a : Category α) (l : α) :
    (Category.func d r a l).shape = .func d r.shape a.shape () := rfl

@[simp] theorem shape_map (f : α → β) (c : Category α) : (c.map f).shape = c.shape := by
  induction c with
  | atom => rfl
  | func d r a l ihr iha => rw [map, shape_func, shape_func, ihr, iha]

@[simp] theorem features_map (f : α → β) (c : Category α) : (c.map f).features = c.features := by
  induction c with
  | atom => rfl
  | func d r a l ihr iha => rw [map, features, features, ihr, iha]

/-- Categories of one shape have as many nodes and as many atoms. -/
theorem length_of_shape_eq {c : Category α} {c' : Category β} (h : c.shape = c'.shape) :
    c.labels.length = c'.labels.length ∧ c.features.length = c'.features.length := by
  induction c generalizing c' with
  | atom name feature l =>
    cases c' with
    | atom => exact ⟨rfl, rfl⟩
    | func => cases h
  | func d r a l ihr iha =>
    cases c' with
    | atom => cases h
    | func d' r' a' l' =>
      simp only [shape_func, func.injEq, and_true] at h
      obtain ⟨-, hr, ha⟩ := h
      obtain ⟨hrl, hrf⟩ := ihr hr
      obtain ⟨hal, haf⟩ := iha ha
      simp only [labels, features, List.length_cons, List.length_append]
      omega

theorem facing_func {r a : Category α} {r' a' : Category β} (hr : r.shape = r'.shape)
    (d d' : Direction) (l : α) (l' : β) :
    (Category.func d r a l).facing (.func d' r' a' l') = r.facing r' ++ a.facing a' :=
  List.zip_append (length_of_shape_eq hr).2

/-- Two categories are unifiable if they have one shape and no two values clash. -/
theorem unifiable_iff {c : Category α} {c' : Category β} :
    c.unifiable c' = true ↔
      c.shape = c'.shape ∧ ∀ pair ∈ c.facing c', pair.1.compatible pair.2 = true := by
  induction c generalizing c' with
  | atom name feature l =>
    cases c' with
    | atom name' feature' l' => simp [unifiable, shape_atom, facing, features]
    | func => simp [unifiable, shape_atom, shape_func]
  | func d r a l ihr iha =>
    cases c' with
    | atom => simp [unifiable, shape_atom, shape_func]
    | func d' r' a' l' =>
      simp only [unifiable, Bool.and_eq_true, beq_iff_eq, ihr, iha, shape_func, func.injEq,
        and_true]
      constructor
      · rintro ⟨⟨hd, hr, hrpairs⟩, ha, hapairs⟩
        refine ⟨⟨hd, hr, ha⟩, fun pair hpair => ?_⟩
        rw [facing_func hr, List.mem_append] at hpair
        exact hpair.elim (hrpairs pair) (hapairs pair)
      · rintro ⟨⟨hd, hr, ha⟩, hpairs⟩
        rw [facing_func hr] at hpairs
        exact ⟨⟨hd, hr, fun pair hpair => hpairs pair (List.mem_append_left _ hpair)⟩, ha,
          fun pair hpair => hpairs pair (List.mem_append_right _ hpair)⟩

theorem unifiable_plain (c : Category α) (c' : Category β) :
    c.plain.unifiable c'.plain = c.unifiable c' := by
  rw [Bool.eq_iff_iff, unifiable_iff, unifiable_iff]
  simp only [plain, shape_map, facing, features_map]

end Category

/-! ## Heads -/

namespace Renaming

/-- Lets the first variable of a pair face the second one, unless it faces another already. -/
def face? (m : Renaming) (pair : Var × Var) : Option Renaming :=
  match m.image? pair.1 with
  | none => some (m ++ [pair])
  | some w => if w = pair.2 then some m else none

/-- Lets pairs of variables face each other one after the other. -/
def faceAll? (m : Renaming) (pairs : List (Var × Var)) : Option Renaming := pairs.foldlM face? m

/-- A function that has all images of a renaming. -/
def FollowedBy (m : Renaming) (g : Var → Var) : Prop := ∀ v w, m.image? v = some w → g v = w

variable {m m' : Renaming} {pairs : List (Var × Var)}

theorem face?_eq_some {pair : Var × Var} (h : m.face? pair = some m') :
    m'.Extends m ∧ m'.image? pair.1 = some pair.2 := by
  unfold face? at h
  split at h
  · rename_i hnone
    cases h
    refine ⟨extends_append m pair.1 pair.2, ?_⟩
    rw [image?_append, hnone, beq_self_eq_true]
    rfl
  · rename_i w hsome
    split at h
    · rename_i heq
      cases h
      exact ⟨.refl m, heq ▸ hsome⟩
    · cases h

/-- In the end every pair is there, and so is everything that was there before. -/
theorem faceAll?_eq_some (h : m.faceAll? pairs = some m') :
    m'.Extends m ∧ ∀ pair ∈ pairs, m'.image? pair.1 = some pair.2 := by
  induction pairs generalizing m with
  | nil =>
    cases h
    exact ⟨.refl _, fun _ hpair => nomatch hpair⟩
  | cons pair pairs ih =>
    rw [faceAll?, List.foldlM_cons] at h
    obtain ⟨m₁, hface, h⟩ := Option.bind_eq_some_iff.1 h
    obtain ⟨hext, himage⟩ := face?_eq_some hface
    obtain ⟨hext', hpairs⟩ := ih h
    refine ⟨hext.trans hext', fun other hother => ?_⟩
    rcases List.mem_cons.1 hother with rfl | hother
    · exact hext' _ _ himage
    · exact hpairs other hother

/-- One pair that a function agrees with. -/
theorem exists_face {g : Var → Var} (hm : m.FollowedBy g) {v w : Var} (hw : g v = w) :
    ∃ m', m.face? (v, w) = some m' ∧ m'.FollowedBy g ∧
      ∀ x, m'.image? x = (m.image? x).or (if x = v then some (g x) else none) := by
  unfold face?
  split
  · have himage : ∀ x, image? (m ++ [(v, w)]) x =
        (m.image? x).or (if x = v then some (g x) else none) := by
      intro x
      rw [image?_append]
      by_cases hx : x = v
      · simp [hx, hw]
      · simp [hx]
    refine ⟨m ++ [(v, w)], rfl, fun x y hxy => ?_, himage⟩
    rw [himage, Option.or_eq_some_iff] at hxy
    rcases hxy with hxy | ⟨-, hxy⟩
    · exact hm x y hxy
    · split at hxy
      · exact Option.some.inj hxy
      · cases hxy
  · rename_i w' hsome
    have heq : w' = w := (hm v w' hsome).symm.trans hw
    refine ⟨m, if_pos heq, hm, fun x => ?_⟩
    by_cases hx : x = v
    · rw [hx, hsome]
      rfl
    · rw [if_neg hx, Option.or_none]

/-- If a function agrees with all pairs, the renaming is extended by it to their variables. -/
theorem exists_faceAll {g : Var → Var} (hm : m.FollowedBy g)
    (hpairs : ∀ pair ∈ pairs, g pair.1 = pair.2) :
    ∃ m', m.faceAll? pairs = some m' ∧
      ∀ v, m'.image? v =
        (m.image? v).or (if v ∈ pairs.map Prod.fst then some (g v) else none) := by
  induction pairs generalizing m with
  | nil => exact ⟨m, rfl, fun v => by simp⟩
  | cons pair pairs ih =>
    obtain ⟨v, w⟩ := pair
    obtain ⟨m₁, hface, hm₁, himage⟩ := exists_face hm (hpairs _ List.mem_cons_self)
    have hrest : ∀ pair ∈ pairs, g pair.1 = pair.2 :=
      fun pair hpair => hpairs pair (List.mem_cons_of_mem _ hpair)
    obtain ⟨m', hall, himage'⟩ := ih hm₁ hrest
    refine ⟨m', ?_, fun x => ?_⟩
    · rw [faceAll?, List.foldlM_cons, hface]
      exact hall
    · rw [himage', himage, Option.or_assoc, List.map_cons]
      congr 1
      by_cases hx : x = v <;> simp only [hx, List.mem_cons, true_or, false_or, if_true, if_false,
        Option.some_or, Option.none_or]

end Renaming

/-! ## Features -/

/-- In strict mode a value may not face another value, and all values that face one variable have to
    be the same. -/
structure FeaturesAgree (pairs : List (Feature × Feature)) : Prop where
  values : ∀ x y, (.value x, .value y) ∈ pairs → x = y
  vars : ∀ n x y, (.value x, .var n) ∈ pairs → (.value y, .var n) ∈ pairs → x = y

namespace FeatureBindings

/-- The value that a pair gives to a feature variable. -/
def valueFor (n : Nat) : Feature × Feature → Option String
  | (.value x, .var k) => if k = n then some x else none
  | _ => none

/-- The first value that a feature variable faces. -/
def firstValue (n : Nat) (pairs : List (Feature × Feature)) : Option String :=
  pairs.findSome? (valueFor n)

/-- Lets a feature face one of the pattern. -/
def face? (mode : FeatureMode) (b : FeatureBindings) : Feature × Feature → Option FeatureBindings
  | (.value x, .var n) =>
    match b.lookup n with
    | none => some (b ++ [(n, x)])
    | some y => if mode = .strict ∧ x ≠ y then none else some b
  | (.value x, .value y) => if mode = .strict ∧ x ≠ y then none else some b
  | _ => some b

/-- Lets pairs of features face each other one after the other. -/
def faceAll? (mode : FeatureMode) (b : FeatureBindings) (pairs : List (Feature × Feature)) :
    Option FeatureBindings :=
  pairs.foldlM (face? mode) b

/-- Whether a pair agrees with the values that feature variables have. -/
def Suits (values : Nat → Option String) : Feature × Feature → Prop
  | (.value x, .var n) => values n = some x
  | (.value x, .value y) => x = y
  | _ => True

variable {mode : FeatureMode} {b b' : FeatureBindings} {pairs : List (Feature × Feature)}

theorem valueFor_eq_some {n : Nat} {x : String} {pair : Feature × Feature} :
    valueFor n pair = some x ↔ pair = (.value x, .var n) := by
  unfold valueFor
  split
  · rename_i y k
    by_cases hk : k = n <;> simp [hk]
  · rename_i hother
    simp only [reduceCtorEq, false_iff]
    exact hother x n

theorem firstValue_cons (n : Nat) (pair : Feature × Feature) (pairs : List (Feature × Feature)) :
    firstValue n (pair :: pairs) = (valueFor n pair).or (firstValue n pairs) := by
  rw [firstValue, firstValue, List.findSome?_cons]
  cases valueFor n pair <;> rfl

/-- A variable that has a value keeps it, and another one takes the value that it faces. -/
theorem lookup_of_face? {pair : Feature × Feature} (h : b.face? mode pair = some b') (n : Nat) :
    b'.lookup n = (b.lookup n).or (valueFor n pair) := by
  unfold face? at h
  split at h
  · rename_i x k
    split at h
    · cases h
      rw [List.lookup_append, List.lookup_cons, valueFor]
      by_cases hk : k = n
      · simp [hk]
      · have hnk : (n == k) = false := beq_false_of_ne fun heq => hk heq.symm
        simp [hk, hnk]
    · rename_i y hy
      split at h <;> cases h
      -- The variable had a value before, so the one it faces does not count.
      by_cases hk : k = n
      · rw [← hk, hy]
        rfl
      · rw [valueFor, if_neg hk, Option.or_none]
  · split at h <;> cases h
    exact Option.or_none.symm
  · rename_i hvar _
    cases h
    have hnone : valueFor n pair = none := by
      refine Option.eq_none_iff_forall_ne_some.2 fun x hx => ?_
      exact hvar x n (valueFor_eq_some.1 hx)
    rw [hnone, Option.or_none]

/-- In the end every variable has the first value that it faced. -/
theorem lookup_of_faceAll? (h : b.faceAll? mode pairs = some b') (n : Nat) :
    b'.lookup n = (b.lookup n).or (firstValue n pairs) := by
  induction pairs generalizing b with
  | nil =>
    cases h
    exact Option.or_none.symm
  | cons pair pairs ih =>
    rw [faceAll?, List.foldlM_cons] at h
    obtain ⟨b₁, hface, h⟩ := Option.bind_eq_some_iff.1 h
    rw [ih h, lookup_of_face? hface, Option.or_assoc, firstValue_cons]

/-- If features are ignored, nothing fails. -/
theorem exists_faceAll_ignore (b : FeatureBindings) (pairs : List (Feature × Feature)) :
    ∃ b', b.faceAll? .ignore pairs = some b' := by
  induction pairs generalizing b with
  | nil => exact ⟨b, rfl⟩
  | cons pair pairs ih =>
    have hface : ∃ b₁, b.face? .ignore pair = some b₁ := by
      unfold face?
      split
      · split
        · exact ⟨_, rfl⟩
        · exact ⟨b, rfl⟩
      · exact ⟨b, rfl⟩
      · exact ⟨b, rfl⟩
    obtain ⟨b₁, hface⟩ := hface
    obtain ⟨b', hall⟩ := ih b₁
    refine ⟨b', ?_⟩
    rw [faceAll?, List.foldlM_cons, hface]
    exact hall

/-- A pair is let in just when it agrees with the values that there are then. -/
theorem face?_strict_iff {pair : Feature × Feature} :
    (∃ b', b.face? .strict pair = some b') ↔
      Suits (fun n => (b.lookup n).or (valueFor n pair)) pair := by
  obtain ⟨actual, pattern⟩ := pair
  cases actual with
  | unspecified => simp [face?, Suits]
  | var k => simp [face?, Suits]
  | value x =>
    cases pattern with
    | unspecified => simp [face?, Suits]
    | value y => by_cases hxy : x = y <;> simp [face?, Suits, hxy]
    | var n =>
      cases hn : b.lookup n with
      | none => simp [face?, Suits, hn, valueFor]
      | some y => by_cases hxy : x = y <;> simp [face?, Suits, hn, hxy, eq_comm]

/-- In strict mode the pairs are let in just when they agree with the first values. -/
theorem faceAll?_strict_iff :
    (∃ b', b.faceAll? .strict pairs = some b') ↔
      ∀ pair ∈ pairs, Suits (fun n => (b.lookup n).or (firstValue n pairs)) pair := by
  induction pairs generalizing b with
  | nil => exact iff_of_true ⟨b, rfl⟩ fun _ hpair => nomatch hpair
  | cons pair pairs ih =>
    -- A pair alone sees the value that its variable keeps for ever.
    have hself : Suits (fun n => (b.lookup n).or (firstValue n (pair :: pairs))) pair ↔
        Suits (fun n => (b.lookup n).or (valueFor n pair)) pair := by
      unfold Suits
      split
      · rename_i x k
        simp only [firstValue_cons, valueFor, if_true, Option.some_or]
      · rfl
      · rfl
    rw [List.forall_mem_cons, hself, ← face?_strict_iff, faceAll?, List.foldlM_cons]
    constructor
    · rintro ⟨b', h⟩
      obtain ⟨b₁, hface, h⟩ := Option.bind_eq_some_iff.1 h
      refine ⟨⟨b₁, hface⟩, ?_⟩
      have hrest := ih.1 ⟨b', h⟩
      simpa only [lookup_of_face? hface, Option.or_assoc, firstValue_cons] using hrest
    · rintro ⟨⟨b₁, hface⟩, hrest⟩
      have hall : ∃ b', b₁.faceAll? .strict pairs = some b' := by
        refine ih.2 ?_
        simpa only [lookup_of_face? hface, Option.or_assoc, firstValue_cons] using hrest
      rw [hface]
      exact hall

/-- Pairs agree with the first values just when they agree with each other. -/
theorem forall_suits_iff :
    (∀ pair ∈ pairs, Suits (fun n => firstValue n pairs) pair) ↔ FeaturesAgree pairs := by
  constructor
  · intro h
    refine ⟨fun x y hxy => h _ hxy, fun n x y hx hy => ?_⟩
    have hfirst : firstValue n pairs = some x := h _ hx
    have hfirst' : firstValue n pairs = some y := h _ hy
    exact Option.some.inj (hfirst.symm.trans hfirst')
  · rintro ⟨hvalues, hvars⟩ pair hpair
    unfold Suits
    split
    · rename_i x n
      -- Some value comes first, and it is no other than `x`.
      have hsome : (firstValue n pairs).isSome = true :=
        List.findSome?_isSome_iff.2 ⟨_, hpair, by simp [valueFor]⟩
      obtain ⟨y, hy⟩ := Option.isSome_iff_exists.1 hsome
      obtain ⟨first, hmem, hvalue⟩ := List.exists_of_findSome?_eq_some hy
      rw [valueFor_eq_some.1 hvalue] at hmem
      show firstValue n pairs = some x
      rw [hy, hvars n x y hpair hmem]
    · exact hvalues _ _ hpair
    · trivial

/-- Starting without values, the pairs are let in unless features have to agree and do not. -/
theorem exists_faceAll_iff :
    (∃ b', faceAll? mode [] pairs = some b') ↔ (mode = .strict → FeaturesAgree pairs) := by
  cases mode with
  | strict =>
    rw [faceAll?_strict_iff, ← forall_suits_iff]
    simp
  | ignore => simpa using exists_faceAll_ignore [] pairs

/-- All pairs agree with the values that are found in strict mode. -/
theorem suits_of_faceAll? (h : faceAll? .strict [] pairs = some b') :
    ∀ pair ∈ pairs, Suits (fun n => b'.lookup n) pair := by
  have hlookup : (fun n => b'.lookup n) = fun n => (List.lookup n []).or (firstValue n pairs) :=
    funext (lookup_of_faceAll? h)
  rw [hlookup]
  exact faceAll?_strict_iff.1 ⟨b', h⟩

end FeatureBindings

/-! ## Unification as three checks -/

namespace Unifier

variable {u u' : Unifier}

theorem bindHead_eq_ok_iff {v w : Var} :
    u.bindHead v w = .ok u' ↔
      u.heads.face? (v, w) = some u'.heads ∧ u.features = u'.features := by
  obtain ⟨heads, features⟩ := u
  obtain ⟨heads', features'⟩ := u'
  unfold bindHead Renaming.face?
  cases hv : heads.image? v with
  | none => simp
  | some w' => by_cases hw : w' = w <;> simp [hw]

theorem bindFeature_eq_ok_iff {mode : FeatureMode} {actual pattern : Feature} :
    u.bindFeature mode actual pattern = .ok u' ↔
      u.features.face? mode (actual, pattern) = some u'.features ∧ u.heads = u'.heads := by
  obtain ⟨heads, features⟩ := u
  obtain ⟨heads', features'⟩ := u'
  cases actual with
  | unspecified => simp [bindFeature, FeatureBindings.face?, and_comm]
  | var k => simp [bindFeature, FeatureBindings.face?, and_comm]
  | value x =>
    cases pattern with
    | unspecified => simp [bindFeature, FeatureBindings.face?, and_comm]
    | value y =>
      by_cases hxy : mode = .strict ∧ x ≠ y <;>
        simp [bindFeature, FeatureBindings.face?, hxy, and_comm]
    | var n =>
      cases hn : features.lookup n with
      | none => simp [bindFeature, FeatureBindings.face?, hn, and_comm]
      | some y =>
        by_cases hxy : mode = .strict ∧ x ≠ y <;>
          simp [bindFeature, FeatureBindings.face?, hn, hxy, and_comm]

end Unifier

namespace Headed

variable {mode : FeatureMode}

theorem unifyFrom_atom_eq_ok_iff {u u' : Unifier} {name name' : String} {f f' : Feature}
    {h h' : Var} :
    unifyFrom mode u (.atom name f h) (.atom name' f' h') = .ok u' ↔
      name = name' ∧ u.heads.face? (h, h') = some u'.heads ∧
        u.features.face? mode (f, f') = some u'.features := by
  simp only [unifyFrom]
  constructor
  · intro hok
    split at hok
    · cases hok
    · rename_i u₁ hhead
      split at hok
      · rename_i hname
        obtain ⟨hface, hsame⟩ := Unifier.bindHead_eq_ok_iff.1 hhead
        obtain ⟨hface', hsame'⟩ := Unifier.bindFeature_eq_ok_iff.1 hok
        exact ⟨hname, hsame' ▸ hface, hsame ▸ hface'⟩
      · cases hok
  · rintro ⟨hname, hface, hface'⟩
    have hhead : u.bindHead h h' = .ok ⟨u'.heads, u.features⟩ :=
      Unifier.bindHead_eq_ok_iff.2 ⟨hface, rfl⟩
    rw [hhead]
    simp only [hname, if_true]
    exact Unifier.bindFeature_eq_ok_iff.2 ⟨hface', rfl⟩

theorem unifyFrom_func_eq_ok_iff {u u' : Unifier} {d d' : Direction} {r a r' a' : Headed}
    {h h' : Var} :
    unifyFrom mode u (.func d r a h) (.func d' r' a' h') = .ok u' ↔
      d = d' ∧ ∃ u₁ u₂, u.bindHead h h' = .ok u₁ ∧ unifyFrom mode u₁ r r' = .ok u₂ ∧
        unifyFrom mode u₂ a a' = .ok u' := by
  simp only [unifyFrom]
  constructor
  · intro hok
    split at hok
    · cases hok
    · rename_i u₁ hhead
      split at hok
      · rename_i hdir
        split at hok
        · cases hok
        · rename_i u₂ hresult
          exact ⟨hdir, u₁, u₂, hhead, hresult, hok⟩
      · cases hok
  · rintro ⟨hdir, u₁, u₂, hhead, hresult, hargument⟩
    simp only [hhead, hdir, if_true, hresult, hargument]

/-- A unification succeeds if the shapes are the same, the heads can face each other and features
    can; what it finds are the heads and the features that have been found that way. -/
theorem unifyFrom_eq_ok_iff {actual pattern : Headed} {u u' : Unifier} :
    unifyFrom mode u actual pattern = .ok u' ↔
      actual.shape = pattern.shape ∧
      u.heads.faceAll? (actual.labels.zip pattern.labels) = some u'.heads ∧
      u.features.faceAll? mode (actual.facing pattern) = some u'.features := by
  induction actual generalizing u u' pattern with
  | atom name feature v =>
    cases pattern with
    | func => simp [unifyFrom, Category.shape_atom, Category.shape_func]
    | atom name' feature' v' =>
      rw [unifyFrom_atom_eq_ok_iff]
      simp [Category.shape_atom, Category.labels, Category.facing, Category.features,
        Renaming.faceAll?, FeatureBindings.faceAll?]
  | func d r a v ihr iha =>
    cases pattern with
    | atom => simp [unifyFrom, Category.shape_atom, Category.shape_func]
    | func d' r' a' v' =>
      simp only [unifyFrom_func_eq_ok_iff, Unifier.bindHead_eq_ok_iff, ihr, iha,
        Category.shape_func, Category.func.injEq, and_true, Category.labels, List.zip_cons_cons,
        Renaming.faceAll?, FeatureBindings.faceAll?, List.foldlM_cons]
      constructor
      · rintro ⟨hdir, u₁, u₂, ⟨hhead, hsame⟩, ⟨hr, hrheads, hrfeatures⟩, ha, haheads, hafeatures⟩
        refine ⟨⟨hdir, hr, ha⟩, ?_, ?_⟩
        · rw [List.zip_append (Category.length_of_shape_eq hr).1, hhead]
          simp only [Option.bind_eq_bind, Option.bind_some, List.foldlM_append, hrheads, haheads]
        · rw [Category.facing_func hr, hsame]
          simp only [Option.bind_eq_bind, Option.bind_some, List.foldlM_append, hrfeatures,
            hafeatures]
      · rintro ⟨⟨hdir, hr, ha⟩, hheads, hfeatures⟩
        rw [List.zip_append (Category.length_of_shape_eq hr).1, Option.bind_eq_bind,
          Option.bind_eq_some_iff] at hheads
        obtain ⟨m₁, hhead, hheads⟩ := hheads
        rw [List.foldlM_append, Option.bind_eq_bind, Option.bind_eq_some_iff] at hheads
        obtain ⟨m₂, hrheads, haheads⟩ := hheads
        rw [Category.facing_func hr, List.foldlM_append, Option.bind_eq_bind,
          Option.bind_eq_some_iff] at hfeatures
        obtain ⟨b₂, hrfeatures, hafeatures⟩ := hfeatures
        exact ⟨hdir, ⟨m₁, u.features⟩, ⟨m₂, b₂⟩, ⟨hhead, rfl⟩, ⟨hr, hrheads, hrfeatures⟩, ha,
          haheads, hafeatures⟩

/-! ## The result -/

/-- A function agrees with all pairs of heads just when it sends the heads of the one category to
    those of the other. -/
theorem forall_mem_zip_iff {g : Var → Var} {vs ws : List Var} (h : vs.length = ws.length) :
    (∀ pair ∈ vs.zip ws, g pair.1 = pair.2) ↔ vs.map g = ws := by
  induction vs generalizing ws with
  | nil =>
    cases ws with
    | nil => simp
    | cons w ws => simp at h
  | cons v vs ih =>
    cases ws with
    | nil => simp at h
    | cons w ws =>
      rw [List.zip_cons_cons, List.forall_mem_cons, ih (Nat.succ.inj h), List.map_cons,
        List.cons.injEq]

/-- The value that a feature gets from bindings. -/
def boundFeature (b : FeatureBindings) : Feature → Feature
  | .var n =>
    match b.lookup n with
    | some x => .value x
    | none => .var n
  | feature => feature

theorem features_bindFeatures (b : FeatureBindings) (c : Headed) :
    (bindFeatures b c).features = c.features.map (boundFeature b) := by
  induction c with
  | atom name feature v =>
    cases feature with
    | unspecified => rfl
    | value x => rfl
    | var n => cases hn : b.lookup n <;> simp [bindFeatures, boundFeature, Category.features, hn]
  | func d r a v ihr iha => simp [bindFeatures, Category.features, ihr, iha]

theorem shape_bindFeatures (b : FeatureBindings) (c : Headed) :
    (bindFeatures b c).shape = c.shape := by
  induction c with
  | atom name feature v =>
    cases feature with
    | unspecified => rfl
    | value x => rfl
    | var n => cases hn : b.lookup n <;> simp [bindFeatures, Category.shape_atom, hn]
  | func d r a v ihr iha => rw [bindFeatures, Category.shape_func, Category.shape_func, ihr, iha]

/-- Putting the values in leaves a pattern that the category is unifiable with. -/
theorem unifiable_bindFeatures {actual pattern : Headed} {b : FeatureBindings}
    (hshape : actual.shape = pattern.shape)
    (hsuits : ∀ pair ∈ actual.facing pattern, FeatureBindings.Suits (fun n => b.lookup n) pair) :
    (bindFeatures b pattern).unifiable actual = true := by
  rw [Category.unifiable_iff, shape_bindFeatures]
  refine ⟨hshape.symm, fun pair hpair => ?_⟩
  rw [Category.facing, features_bindFeatures, List.zip_map_left] at hpair
  obtain ⟨⟨f, f'⟩, hmem, rfl⟩ := List.mem_map.1 hpair
  have hfacing : (f', f) ∈ actual.facing pattern := by
    obtain ⟨i, hi⟩ := List.mem_iff_getElem?.1 hmem
    obtain ⟨hf, hf'⟩ := List.getElem?_zip_eq_some.1 hi
    exact List.mem_of_getElem? (List.getElem?_zip_eq_some.2 ⟨hf', hf⟩)
  have hpair := hsuits _ hfacing
  show (boundFeature b f).compatible f' = true
  cases f' with
  | unspecified => cases boundFeature b f <;> rfl
  | var k => cases boundFeature b f <;> rfl
  | value x =>
    cases f with
    | unspecified => rfl
    | value y =>
      have hxy : x = y := hpair
      simp [boundFeature, Feature.compatible, hxy]
    | var n =>
      have hn : b.lookup n = some x := hpair
      simp [boundFeature, Feature.compatible, hn]

/-- Where a variable of the pattern faces a value, it gets that value. -/
theorem getElem?_features_bindFeatures {actual pattern : Headed} {b : FeatureBindings}
    (hsuits : ∀ pair ∈ actual.facing pattern, FeatureBindings.Suits (fun n => b.lookup n) pair)
    {i : Nat} {x : String} {n : Nat} (hactual : actual.features[i]? = some (.value x))
    (hpattern : pattern.features[i]? = some (.var n)) :
    (bindFeatures b pattern).features[i]? = some (.value x) := by
  have hmem : (.value x, .var n) ∈ actual.facing pattern :=
    List.mem_of_getElem? (List.getElem?_zip_eq_some.2 ⟨hactual, hpattern⟩)
  have hn : b.lookup n = some x := hsuits _ hmem
  rw [features_bindFeatures, List.getElem?_map, hpattern]
  simp [boundFeature, hn]

/-- A unification succeeds just when the three checks do. -/
theorem exists_unifyFrom_iff {actual pattern : Headed} {given : Renaming} :
    (∃ u, unifyFrom mode ⟨given, []⟩ actual pattern = .ok u) ↔
      actual.shape = pattern.shape ∧
      (∃ g : Var → Var, given.FollowedBy g ∧ actual.labels.map g = pattern.labels) ∧
      (mode = .strict → FeaturesAgree (actual.facing pattern)) := by
  constructor
  · rintro ⟨u, hu⟩
    obtain ⟨hshape, hheads, hfeatures⟩ := unifyFrom_eq_ok_iff.1 hu
    obtain ⟨hext, hpairs⟩ := Renaming.faceAll?_eq_some hheads
    -- What has been found is itself such a function.
    have happly : ∀ v w, u.heads.image? v = some w → u.heads.apply v = w := by
      intro v w h
      rw [Renaming.apply, h, Option.getD_some]
    refine ⟨hshape, ⟨u.heads.apply, fun v w h => happly v w (hext v w h), ?_⟩,
      FeatureBindings.exists_faceAll_iff.1 ⟨_, hfeatures⟩⟩
    rw [← forall_mem_zip_iff (Category.length_of_shape_eq hshape).1]
    exact fun pair hpair => happly _ _ (hpairs pair hpair)
  · rintro ⟨hshape, ⟨g, hg, hlabels⟩, hagree⟩
    have hpairs := (forall_mem_zip_iff (Category.length_of_shape_eq hshape).1).2 hlabels
    obtain ⟨m, hheads, -⟩ := Renaming.exists_faceAll hg hpairs
    obtain ⟨b, hfeatures⟩ := FeatureBindings.exists_faceAll_iff.2 hagree
    exact ⟨⟨m, b⟩, unifyFrom_eq_ok_iff.2 ⟨hshape, hheads, hfeatures⟩⟩

/-- The heads that are found: the given ones, and those of the category by any function that passes
    the check. -/
theorem image?_of_unifyFrom {actual pattern : Headed} {given : Renaming} {u : Unifier}
    (hu : unifyFrom mode ⟨given, []⟩ actual pattern = .ok u) {g : Var → Var}
    (hg : given.FollowedBy g) (hlabels : actual.labels.map g = pattern.labels) (v : Var) :
    u.heads.image? v = (given.image? v).or (if v ∈ actual.vars then some (g v) else none) := by
  obtain ⟨hshape, hheads, -⟩ := unifyFrom_eq_ok_iff.1 hu
  have hlength := (Category.length_of_shape_eq hshape).1
  obtain ⟨m, hm, himage⟩ := Renaming.exists_faceAll hg ((forall_mem_zip_iff hlength).2 hlabels)
  have heq : m = u.heads := Option.some.inj (hm.symm.trans hheads)
  rw [← heq, himage, List.map_fst_zip (Nat.le_of_eq hlength)]
  simp only [mem_vars]

/-- Unification from given heads succeeds just when the two categories have one shape, a function
    that follows the given heads sends every head to the one that it faces, and, in strict mode, the
    features agree. It then extends the given heads by that function to the variables of the
    category, gives each feature variable the first value that it faces, and, in strict mode, the
    pattern with these values is unifiable with the category, with the same value wherever a
    variable faces one. -/
theorem unifyFrom_exact (mode : FeatureMode) (actual pattern : Headed) (given : Renaming) :
    ((∃ u, unifyFrom mode ⟨given, []⟩ actual pattern = .ok u) ↔
      actual.shape = pattern.shape ∧
      (∃ g : Var → Var, given.FollowedBy g ∧ actual.labels.map g = pattern.labels) ∧
      (mode = .strict → FeaturesAgree (actual.facing pattern))) ∧
    ∀ u, unifyFrom mode ⟨given, []⟩ actual pattern = .ok u →
      (∀ g : Var → Var, given.FollowedBy g → actual.labels.map g = pattern.labels →
        ∀ v, u.heads.image? v =
          (given.image? v).or (if v ∈ actual.vars then some (g v) else none)) ∧
      (∀ n, u.features.lookup n = FeatureBindings.firstValue n (actual.facing pattern)) ∧
      (mode = .strict →
        (bindFeatures u.features pattern).plain.unifiable actual.plain = true ∧
        ∀ (i : Nat) (x : String) (n : Nat), actual.features[i]? = some (.value x) →
          pattern.features[i]? = some (.var n) →
          (bindFeatures u.features pattern).features[i]? = some (.value x)) := by
  refine ⟨exists_unifyFrom_iff, fun u hu => ⟨fun g hg hlabels v => ?_, fun n => ?_, ?_⟩⟩
  · exact image?_of_unifyFrom hu hg hlabels v
  · obtain ⟨-, -, hfeatures⟩ := unifyFrom_eq_ok_iff.1 hu
    exact FeatureBindings.lookup_of_faceAll? hfeatures n
  · rintro rfl
    obtain ⟨hshape, -, hfeatures⟩ := unifyFrom_eq_ok_iff.1 hu
    have hsuits := FeatureBindings.suits_of_faceAll? hfeatures
    refine ⟨?_, fun i x n hactual hpattern => ?_⟩
    · rw [Category.unifiable_plain]
      exact unifiable_bindFeatures hshape hsuits
    · exact getElem?_features_bindFeatures hsuits hactual hpattern

/-- A declarative clause with two heads faces a clause with one head and any feature. -/
theorem unifyFrom_exact_sample :
    let clause : Headed :=
      .func .backward (.atom "S" (.value "dcl") 0) (.atom "NP" .unspecified 1) 0
    let anyClause : Headed := .func .backward (.atom "S" (.var 9) 4) (.atom "NP" .unspecified 4) 4
    ∃ u, unifyFrom .strict ⟨[(1, 4)], []⟩ clause anyClause = .ok u ∧
      (∀ g : Var → Var, Renaming.FollowedBy [(1, 4)] g → clause.labels.map g = anyClause.labels →
        u.heads.image? 0 = some (g 0)) ∧
      u.features.lookup 9 = some "dcl" ∧
      (bindFeatures u.features anyClause).plain.unifiable clause.plain = true := by
  intro clause anyClause
  have hu : unifyFrom .strict ⟨[(1, 4)], []⟩ clause anyClause =
      .ok ⟨[(1, 4), (0, 4)], [(9, "dcl")]⟩ := by decide +kernel
  obtain ⟨hheads, hfeatures, hstrict⟩ :=
    (unifyFrom_exact .strict clause anyClause [(1, 4)]).2 _ hu
  exact ⟨_, hu, fun g hg hlabels => hheads g hg hlabels 0, hfeatures 9, (hstrict rfl).1⟩

/-! ## Unification from the beginning -/

section Unify

variable {actual pattern : Headed} {u : Unifier}

theorem unify_eq_some_iff :
    unify mode actual pattern = some u ↔ unifyFrom mode .empty actual pattern = .ok u := by
  refine ⟨unifyFrom_of_unify, fun h => ?_⟩
  rw [unify, h]
  rfl

theorem exists_unify_iff :
    (∃ u, unify mode actual pattern = some u) ↔
      actual.shape = pattern.shape ∧
      (∃ g : Var → Var, actual.labels.map g = pattern.labels) ∧
      (mode = .strict → FeaturesAgree (actual.facing pattern)) := by
  simp only [unify_eq_some_iff]
  refine exists_unifyFrom_iff.trans (and_congr_right fun _ => and_congr_left fun _ => ?_)
  exact exists_congr fun g => and_iff_right fun _ _ h => nomatch h

theorem image?_of_unify (h : unify mode actual pattern = some u) {g : Var → Var}
    (hlabels : actual.labels.map g = pattern.labels) (v : Var) :
    u.heads.image? v = if v ∈ actual.labels then some (g v) else none := by
  have himage := image?_of_unifyFrom (unify_eq_some_iff.1 h) (fun _ _ h => nomatch h) hlabels v
  rw [himage]
  simp only [mem_vars]
  rfl

theorem labels_map_of_unify (h : unify mode actual pattern = some u) :
    actual.labels.map u.heads.apply = pattern.labels := by
  have hsome : (actual.labels.map u.heads.apply).map some = pattern.labels.map some := by
    rw [← labels_of_unify h, List.map_map]
    refine List.map_congr_left fun v hv => ?_
    obtain ⟨w, hw⟩ := Option.isSome_iff_exists.1 (isSome_image?_of_unify h hv)
    rw [Function.comp_apply, Renaming.apply, hw, Option.getD_some]
  exact List.map_injective_iff.2 (fun _ _ heq => Option.some.inj heq) hsome

/-- A variable faces one of the pattern. -/
theorem mem_labels_of_unify (h : unify mode actual pattern = some u) {v w : Var}
    (hw : u.heads.image? v = some w) : w ∈ pattern.labels := by
  have hlabels := labels_map_of_unify h
  rw [image?_of_unify h hlabels] at hw
  split at hw
  · rename_i hv
    rw [← Option.some.inj hw, ← hlabels]
    exact List.mem_map_of_mem hv
  · cases hw

theorem lookup_of_unify (h : unify mode actual pattern = some u) (n : Nat) :
    u.features.lookup n = FeatureBindings.firstValue n (actual.facing pattern) := by
  obtain ⟨-, -, hfeatures⟩ := unifyFrom_eq_ok_iff.1 (unify_eq_some_iff.1 h)
  exact FeatureBindings.lookup_of_faceAll? hfeatures n

/-- A pattern whose variables are renamed is faced by the same categories: heads face the renamed
    heads, and the values that are found stay the same. -/
theorem exists_unify_map (h : unify mode actual pattern = some u) (f : Var → Var) :
    ∃ u', unify mode actual (pattern.map f) = some u' ∧
      (∀ v, u'.heads.image? v = (u.heads.image? v).map f) ∧
      ∀ n, u'.features.lookup n = u.features.lookup n := by
  -- Which features face each other has nothing to do with the heads.
  have hfacing : actual.facing (pattern.map f) = actual.facing pattern := by
    rw [Category.facing, Category.features_map, Category.facing]
  have hlabels := labels_map_of_unify h
  have hlabels' : actual.labels.map (f ∘ u.heads.apply) = (pattern.map f).labels := by
    rw [Category.labels_map, ← hlabels, List.map_map]
  obtain ⟨hshape, -, hagree⟩ := exists_unify_iff.1 ⟨u, h⟩
  have hexists : ∃ u', unify mode actual (pattern.map f) = some u' := by
    refine exists_unify_iff.2 ⟨hshape.trans (Category.shape_map f pattern).symm, ⟨_, hlabels'⟩, ?_⟩
    rw [hfacing]
    exact hagree
  obtain ⟨u', hu'⟩ := hexists
  refine ⟨u', hu', fun v => ?_, fun n => ?_⟩
  · rw [image?_of_unify hu' hlabels', image?_of_unify h hlabels]
    split <;> rfl
  · rw [lookup_of_unify hu', lookup_of_unify h, hfacing]

end Unify

end Headed

end Categorial
