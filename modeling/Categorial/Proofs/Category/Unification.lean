/-
  Categorial.Proofs.Category.Unification

  What a unification finds.  Later parts of it never change what earlier parts found
  (`Renaming.Extends`), and in the end every variable of the category has the variable of the
  pattern that it faces as its image, node by node (`labels_of_unify`).  Giving fresh numbers to the
  variables without an image keeps the images there are and leaves no variable without one
  (`isSome_image?_extendFresh`); no two variables get one number (`image?_extendFresh_inj`).
-/

import Categorial.Combinator
import Categorial.Proofs.Sorting

namespace Categorial

/-! ## Renamings -/

namespace Renaming

/-- One renaming has all images of another. -/
def Extends (m' m : Renaming) : Prop := ∀ v w, m.image? v = some w → m'.image? v = some w

theorem Extends.refl (m : Renaming) : m.Extends m := fun _ _ h => h

theorem Extends.trans {m m' m'' : Renaming} (h : m'.Extends m) (h' : m''.Extends m') :
    m''.Extends m := fun v w hv => h' v w (h v w hv)

theorem image?_append (m : Renaming) (v w x : Var) :
    image? (m ++ [(v, w)]) x = (m.image? x).or (if x == v then some w else none) := by
  rw [image?, List.lookup_append, List.lookup_singleton]
  rfl

theorem extends_append (m : Renaming) (v w : Var) : Extends (m ++ [(v, w)]) m := by
  intro x y h
  rw [image?_append, h]
  rfl

theorem Extends.map_image? {m m' : Renaming} (h : m'.Extends m) {vs ws : List Var}
    (hmap : vs.map m.image? = ws.map some) : vs.map m'.image? = ws.map some := by
  rw [← hmap]
  refine List.map_congr_left fun v hv => ?_
  have hsome : m.image? v ∈ ws.map some := hmap ▸ List.mem_map_of_mem hv
  obtain ⟨w, -, hw⟩ := List.mem_map.1 hsome
  rw [← hw]
  exact h v w hw.symm

end Renaming

/-! ## Unification -/

namespace Unifier

variable {u u' : Unifier} {v w : Var}

theorem bindHead_eq_ok (h : u.bindHead v w = .ok u') :
    u'.heads.Extends u.heads ∧ u'.heads.image? v = some w := by
  unfold bindHead at h
  split at h
  · rename_i hnone
    cases h
    refine ⟨Renaming.extends_append _ v w, ?_⟩
    rw [Renaming.image?_append, hnone, beq_self_eq_true]
    rfl
  · rename_i w' hsome
    split at h
    · rename_i heq
      cases h
      exact ⟨Renaming.Extends.refl _, heq ▸ hsome⟩
    · cases h

theorem heads_of_bindFeature {mode : FeatureMode} {actual pattern : Feature}
    (h : u.bindFeature mode actual pattern = .ok u') : u'.heads = u.heads := by
  unfold bindFeature at h
  split at h
  · split at h
    · cases h
      rfl
    · split at h <;> cases h
      rfl
  · split at h <;> cases h
    rfl
  · cases h
    rfl

end Unifier

namespace Headed

variable {mode : FeatureMode} {actual pattern : Headed}

theorem unifyFrom_eq_ok {u u' : Unifier} (h : unifyFrom mode u actual pattern = .ok u') :
    u'.heads.Extends u.heads ∧ actual.labels.map u'.heads.image? = pattern.labels.map some := by
  induction actual generalizing u u' pattern with
  | atom name feature v =>
    cases pattern with
    | func d r a w => cases h
    | atom name' feature' w =>
      simp only [unifyFrom] at h
      split at h
      · cases h
      · rename_i u₁ hhead
        obtain ⟨hext, himage⟩ := Unifier.bindHead_eq_ok hhead
        split at h
        · have hheads := Unifier.heads_of_bindFeature h
          rw [hheads]
          refine ⟨hext, ?_⟩
          simp only [Category.labels, List.map_cons, List.map_nil, himage]
        · cases h
  | func d r a v ihr iha =>
    cases pattern with
    | atom name feature w => cases h
    | func d' r' a' w =>
      simp only [unifyFrom] at h
      split at h
      · cases h
      · rename_i u₁ hhead
        obtain ⟨hext, himage⟩ := Unifier.bindHead_eq_ok hhead
        split at h
        · split at h
          · cases h
          · rename_i u₂ hresult
            obtain ⟨hext', hlabels⟩ := ihr hresult
            obtain ⟨hext'', hlabels'⟩ := iha h
            refine ⟨(hext.trans hext').trans hext'', ?_⟩
            -- What the head and the result have found is still there after the argument.
            have himage' := hext'' v w (hext' v w himage)
            have hresult' := hext''.map_image? hlabels
            simp only [Category.labels, List.map_cons, List.map_append, himage', hresult', hlabels']
        · cases h

theorem unifyFrom_of_unify {u : Unifier} (h : unify mode actual pattern = some u) :
    unifyFrom mode .empty actual pattern = .ok u := by
  unfold unify at h
  cases hfrom : unifyFrom mode .empty actual pattern with
  | error u' =>
    rw [hfrom] at h
    cases h
  | ok u' =>
    rw [hfrom] at h
    cases h
    rfl

/-- Every variable of the category has the variable that it faces as its image. -/
theorem labels_of_unify {u : Unifier} (h : unify mode actual pattern = some u) :
    actual.labels.map u.heads.image? = pattern.labels.map some :=
  (unifyFrom_eq_ok (unifyFrom_of_unify h)).2

theorem isSome_image?_of_unify {u : Unifier} (h : unify mode actual pattern = some u) {v : Var}
    (hv : v ∈ actual.labels) : (u.heads.image? v).isSome = true := by
  have hmem : u.heads.image? v ∈ pattern.labels.map some :=
    labels_of_unify h ▸ List.mem_map_of_mem hv
  obtain ⟨w, -, hw⟩ := List.mem_map.1 hmem
  rw [← hw]
  rfl

theorem mem_vars {c : Headed} {v : Var} : v ∈ c.vars ↔ v ∈ c.labels := mem_sortedSet

theorem le_maxVar {c : Headed} {v : Var} (hv : v ∈ c.labels) : v ≤ c.maxVar := by
  rw [maxVar, List.foldl_max]
  exact Nat.le_trans (List.le_max?_getD_of_mem hv) (Nat.le_max_right _ _)

end Headed

/-! ## Fresh numbers -/

namespace Sign

theorem extends_extendFresh (m : Renaming) (fresh : Var) (vs : List Var) :
    (extendFresh m fresh vs).Extends m := by
  induction vs generalizing m fresh with
  | nil => exact Renaming.Extends.refl m
  | cons v vs ih =>
    simp only [extendFresh]
    split
    · exact ih m fresh
    · exact (Renaming.extends_append m v fresh).trans (ih _ _)

theorem isSome_image?_extendFresh {m : Renaming} {fresh : Var} {vs : List Var} {v : Var}
    (hv : v ∈ vs) : ((extendFresh m fresh vs).image? v).isSome = true := by
  induction vs generalizing m fresh with
  | nil => cases hv
  | cons x vs ih =>
    simp only [extendFresh]
    rcases List.mem_cons.1 hv with rfl | hv
    · split
      · rename_i hsome
        obtain ⟨w, hw⟩ := Option.isSome_iff_exists.1 hsome
        rw [extends_extendFresh m fresh vs v w hw]
        rfl
      · rename_i hnone
        have himage : Renaming.image? (m ++ [(v, fresh)]) v = some fresh := by
          rw [Renaming.image?_append, Option.not_isSome_iff_eq_none.1 hnone, beq_self_eq_true]
          rfl
        rw [extends_extendFresh _ (fresh + 1) vs v fresh himage]
        rfl
    · split
      · exact ih hv
      · exact ih hv

/-- Numbers that a variable gets are not below the first one to be given. -/
theorem le_of_image?_extendFresh {m : Renaming} {fresh : Var} {vs : List Var} {v w : Var}
    (hnone : m.image? v = none) (h : (extendFresh m fresh vs).image? v = some w) : fresh ≤ w := by
  induction vs generalizing m fresh with
  | nil =>
    rw [extendFresh, hnone] at h
    cases h
  | cons x vs ih =>
    simp only [extendFresh] at h
    split at h
    · exact ih hnone h
    · by_cases hvx : v = x
      · -- `v` is the variable that gets `fresh`.
        have himage : Renaming.image? (m ++ [(x, fresh)]) v = some fresh := by
          rw [Renaming.image?_append, hnone, hvx, beq_self_eq_true]
          rfl
        rw [extends_extendFresh _ (fresh + 1) vs v fresh himage] at h
        exact Nat.le_of_eq (Option.some.inj h)
      · have hnone' : Renaming.image? (m ++ [(x, fresh)]) v = none := by
          rw [Renaming.image?_append, hnone, beq_false_of_ne hvx]
          rfl
        exact Nat.le_of_succ_le (ih hnone' h)

/-- Different variables get different numbers. -/
theorem image?_extendFresh_inj {m : Renaming} {fresh : Var} {vs : List Var} {v v' w : Var}
    (hnone : m.image? v = none) (hnone' : m.image? v' = none)
    (h : (extendFresh m fresh vs).image? v = some w)
    (h' : (extendFresh m fresh vs).image? v' = some w) : v = v' := by
  induction vs generalizing m fresh with
  | nil =>
    rw [extendFresh, hnone] at h
    cases h
  | cons x vs ih =>
    simp only [extendFresh] at h h'
    split at h
    · rename_i hsome
      rw [if_pos hsome] at h'
      exact ih hnone hnone' h h'
    · rename_i hsome
      rw [if_neg hsome] at h'
      -- Only `x` gets `fresh`; what the others get is above it.
      have hx : ∀ y, m.image? y = none →
          (extendFresh (m ++ [(x, fresh)]) (fresh + 1) vs).image? y = some w →
          (y = x ↔ w = fresh) := by
        intro y hy himage
        have happend := Renaming.image?_append m x fresh y
        rw [hy] at happend
        by_cases hyx : y = x
        · rw [hyx, beq_self_eq_true] at happend
          rw [hyx, extends_extendFresh _ (fresh + 1) vs x fresh happend] at himage
          exact iff_of_true hyx (Option.some.inj himage).symm
        · rw [beq_false_of_ne hyx] at happend
          have hlt : fresh < w := le_of_image?_extendFresh happend himage
          exact iff_of_false hyx (Nat.ne_of_gt hlt)
      by_cases hw : w = fresh
      · rw [(hx v hnone h).2 hw, (hx v' hnone' h').2 hw]
      · have hother : ∀ y, m.image? y = none → y ≠ x →
            Renaming.image? (m ++ [(x, fresh)]) y = none := by
          intro y hy hyx
          rw [Renaming.image?_append, hy, beq_false_of_ne hyx]
          rfl
        exact ih (hother v hnone fun hvx => hw ((hx v hnone h).1 hvx))
          (hother v' hnone' fun hvx => hw ((hx v' hnone' h').1 hvx)) h h'

end Sign

end Categorial
