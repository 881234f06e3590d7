/-
  Categorial.Proofs.Category.Canonical

  Canonical forms decide equality up to the choice of variables.  Renaming the variables of a
  category one-to-one changes neither the order of their first occurrences nor, therefore, the
  canonical form (`canonical_map`).  Conversely, two categories with one canonical form differ by
  the renaming that leads from the variables of the first to its numbers and from there to the
  variables of the second (`map_transfer`).

    * `idxOf_eraseDups_lt_iff` -- dropping repetitions keeps the order of first occurrences.
    * `bijOn_numbering` -- the numbering is one-to-one onto the numbers below the count.
    * `isCanonical_iff` -- the test for canonical categories.
-/

import Categorial.Proofs.Category.Numbering
import Categorial.Proofs.Category.Unification
import Mathlib.Data.Set.Function

namespace Categorial

/-! ## First occurrences -/

section Lists

variable {α : Type} [BEq α] [LawfulBEq α] {l : List α} {a b : α}

/-- Leaving out other elements keeps the order of first occurrences. -/
theorem idxOf_filter_lt_iff {p : α → Bool} (ha : p a = true) (hb : p b = true) :
    (l.filter p).idxOf a < (l.filter p).idxOf b ↔ l.idxOf a < l.idxOf b := by
  induction l with
  | nil => rfl
  | cons c l ih =>
    by_cases hc : p c = true
    · rw [List.filter_cons_of_pos hc, List.idxOf_cons, List.idxOf_cons, List.idxOf_cons,
        List.idxOf_cons]
      cases c == a <;> cases c == b <;> simp [ih]
    · -- `c` is left out, so it is neither of the two.
      have hca : (c == a) = false := beq_false_of_ne fun h => hc (h ▸ ha)
      have hcb : (c == b) = false := beq_false_of_ne fun h => hc (h ▸ hb)
      rw [List.filter_cons_of_neg hc, List.idxOf_cons, List.idxOf_cons, hca, hcb, ih]
      simp

/-- Dropping repetitions keeps the order of first occurrences. -/
theorem idxOf_eraseDups_lt_iff :
    l.eraseDups.idxOf a < l.eraseDups.idxOf b ↔ l.idxOf a < l.idxOf b := by
  induction hn : l.length using Nat.strongRecOn generalizing l with
  | ind n ih =>
    cases l with
    | nil => rfl
    | cons c l =>
      have hlength : (l.filter fun x => !x == c).length ≤ l.length := List.length_filter_le _ l
      rw [List.length_cons] at hn
      rw [List.eraseDups_cons, List.idxOf_cons, List.idxOf_cons, List.idxOf_cons, List.idxOf_cons]
      -- Unless one of the two is `c`, what counts is their order in the rest without `c`.
      cases hca : c == a with
      | true => cases c == b <;> simp
      | false =>
        cases hcb : c == b with
        | true => simp
        | false =>
          have ha : (!a == c) = true := by simpa using fun h => ne_of_beq_false hca h.symm
          have hb : (!b == c) = true := by simpa using fun h => ne_of_beq_false hcb h.symm
          have hrest := ih _ (by omega) (l := l.filter fun x => !x == c) rfl
          rw [idxOf_filter_lt_iff (p := fun x => !x == c) ha hb] at hrest
          simp only [cond_false, Nat.add_lt_add_iff_right]
          exact hrest

/-- The place of an element among the images under a one-to-one map. -/
theorem idxOf_map {β : Type} [BEq β] [LawfulBEq β] {f : α → β}
    (hf : ∀ x ∈ l, f x = f a → x = a) : (l.map f).idxOf (f a) = l.idxOf a := by
  induction l with
  | nil => rfl
  | cons c l ih =>
    have hrest := ih fun x hx => hf x (List.mem_cons_of_mem _ hx)
    have hbeq : (f c == f a) = (c == a) :=
      Bool.eq_iff_iff.2 (by simpa using ⟨hf c List.mem_cons_self, congrArg f⟩)
    rw [List.map_cons, List.idxOf_cons, List.idxOf_cons, hbeq, hrest]

end Lists

namespace Category

theorem mem_labels_map {α β : Type} (f : α → β) {c : Category α} {l : α} (hl : l ∈ c.labels) :
    f l ∈ (c.map f).labels := by
  rw [labels_map]
  exact List.mem_map_of_mem hl

/-- A map on the labels counts only at the labels that occur. -/
theorem map_congr {α β : Type} {c : Category α} {f g : α → β} (h : ∀ l ∈ c.labels, f l = g l) :
    c.map f = c.map g := by
  induction c with
  | atom name feature l => rw [map, map, h l List.mem_cons_self]
  | func d r a l ihr iha =>
    rw [map, map, h l List.mem_cons_self,
      ihr fun x hx => h x (List.mem_cons_of_mem _ (List.mem_append_left _ hx)),
      iha fun x hx => h x (List.mem_cons_of_mem _ (List.mem_append_right _ hx))]

theorem map_id {α : Type} (c : Category α) : c.map id = c := by
  induction c with
  | atom => rfl
  | func d r a l ihr iha => rw [map, ihr, iha, id]

theorem map_eq_self {α : Type} {c : Category α} {f : α → α} (h : ∀ l ∈ c.labels, f l = l) :
    c.map f = c :=
  (map_congr h).trans c.map_id

end Category

theorem Renaming.mem_of_image? {m : Renaming} {v w : Var} (h : m.image? v = some w) :
    (v, w) ∈ m := by
  obtain ⟨before, after, rfl, -⟩ := List.lookup_eq_some_iff.1 h
  exact List.mem_append_right _ List.mem_cons_self

namespace Headed

variable {a b c : Headed} {v w : Var}

/-! ## The numbering -/

theorem nodup_vars (c : Headed) : c.vars.Nodup := (strictlyAscending_sortedSet c.labels).nodup

theorem length_vars (c : Headed) : c.vars.length = c.labels.eraseDups.length := by
  -- Both lists have the variables of the category, each once.
  refine ((List.perm_ext_iff_of_nodup c.nodup_vars (nodup_eraseDups _)).2 fun v => ?_).length_eq
  rw [mem_vars, List.mem_eraseDups]

theorem isSome_image?_numbering (c : Headed) (v : Var) :
    (c.numbering.image? v).isSome = true ↔ v ∈ c.vars := by
  rw [image?_numbering_isSome, mem_vars]

theorem image?_numbering_of_mem (hv : v ∈ c.labels) :
    c.numbering.image? v = some (c.numbering.apply v) := by
  obtain ⟨i, hi⟩ := Option.isSome_iff_exists.1 (image?_numbering_isSome.2 hv)
  rw [Renaming.apply, hi, Option.getD_some]

/-- The numbers of the variables lead back to the category. -/
theorem map_inverse_canonical (c : Headed) : c.canonical.map c.numbering.inverse.apply = c := by
  rw [canonical, rename, Category.map_map]
  refine Category.map_eq_self fun v hv => ?_
  exact apply_inverse_numbering (image?_numbering_of_mem hv)

/-- The numbering is one-to-one onto the numbers below the number of variables. -/
theorem bijOn_numbering (c : Headed) :
    Set.BijOn c.numbering.apply {v | v ∈ c.vars} {i | i < c.vars.length} := by
  refine ⟨?_, ?_, ?_⟩
  · intro v hv
    have hmem : v ∈ c.labels := mem_vars.1 hv
    show c.numbering.apply v < c.vars.length
    rw [apply_numbering hmem, length_vars]
    exact List.idxOf_lt_length_of_mem (List.mem_eraseDups.2 hmem)
  · intro v hv w hw heq
    rw [apply_numbering (mem_vars.1 hv), apply_numbering (mem_vars.1 hw)] at heq
    exact (List.idxOf_inj (List.mem_eraseDups.2 (mem_vars.1 hv))).1 heq
  · intro i hi
    have hlt : i < c.labels.eraseDups.length := length_vars c ▸ hi
    have hmem : c.labels.eraseDups[i] ∈ c.labels := List.mem_eraseDups.1 (List.getElem_mem hlt)
    refine ⟨c.labels.eraseDups[i], mem_vars.2 hmem, ?_⟩
    rw [apply_numbering hmem]
    exact (nodup_eraseDups _).idxOf_getElem i hlt

/-- Variables are numbered in the order of their first occurrences. -/
theorem numbering_lt_iff (hv : v ∈ c.vars) (hw : w ∈ c.vars) :
    c.numbering.apply v < c.numbering.apply w ↔ c.labels.idxOf v < c.labels.idxOf w := by
  rw [apply_numbering (mem_vars.1 hv), apply_numbering (mem_vars.1 hw), idxOf_eraseDups_lt_iff]

/-! ## Canonical categories -/

theorem canonical_of_isCanonical (h : c.isCanonical = true) : c.canonical = c := by
  refine Category.map_eq_self fun v hv => ?_
  have hpair := Renaming.mem_of_image? (image?_numbering_of_mem hv)
  exact (beq_iff_eq.1 (List.all_eq_true.1 h _ hpair)).symm

/-- The test for canonical categories. -/
theorem isCanonical_iff (c : Headed) : c.isCanonical = true ↔ c = c.canonical := by
  constructor
  · intro h
    exact (canonical_of_isCanonical h).symm
  · intro h
    rw [h]
    exact isCanonical_rename_numbering

theorem canonical_canonical (c : Headed) : c.canonical.canonical = c.canonical :=
  canonical_of_isCanonical isCanonical_rename_numbering

theorem length_vars_le {bound : Nat} (h : ∀ v ∈ c.labels, v < bound) : c.vars.length ≤ bound := by
  have hsubset : c.vars ⊆ List.range bound := fun v hv => List.mem_range.2 (h v (mem_vars.1 hv))
  simpa using (List.subperm_of_subset c.nodup_vars hsubset).length_le

theorem vars_canonical (c : Headed) : c.canonical.vars = List.range c.vars.length := by
  have hrange : StrictlyAscending (List.range c.vars.length) :=
    List.pairwise_lt_range.imp fun h => compare_lt_iff_lt.2 h
  refine (strictlyAscending_sortedSet c.canonical.labels).ext hrange fun v => ?_
  rw [mem_sortedSet, ← List.mem_eraseDups, canonical, eraseDups_labels_rename_numbering,
    length_vars]

theorem eraseDups_labels_of_canonical (h : c.canonical = c) : c.labels.eraseDups = c.vars := by
  have hlabels : c.canonical.labels.eraseDups = List.range c.labels.eraseDups.length :=
    eraseDups_labels_rename_numbering
  rw [← length_vars, ← vars_canonical, h] at hlabels
  exact hlabels

theorem apply_numbering_of_canonical (h : c.canonical = c) (hv : v ∈ c.labels) :
    c.numbering.apply v = v := by
  have hpair := Renaming.mem_of_image? (image?_numbering_of_mem hv)
  have hcanonical := List.all_eq_true.1 ((isCanonical_iff c).2 h.symm) _ hpair
  exact (beq_iff_eq.1 hcanonical).symm

theorem lt_of_mem_labels_canonical (h : v ∈ c.canonical.labels) : v < c.vars.length := by
  rw [← mem_vars, vars_canonical] at h
  exact List.mem_range.1 h

/-! ## Renaming one-to-one -/

theorem mem_vars_map {f : Var → Var} : w ∈ vars (c.map f) ↔ ∃ v ∈ c.vars, f v = w := by
  simp only [mem_vars, Category.labels_map, List.mem_map]

/-- Renaming one-to-one keeps the number of every variable. -/
theorem apply_numbering_map {f : Var → Var} (hf : Set.InjOn f {v | v ∈ c.vars})
    (hv : v ∈ c.labels) : (numbering (c.map f)).apply (f v) = c.numbering.apply v := by
  have hinj : ∀ x ∈ c.labels, ∀ y ∈ c.labels, f x = f y → x = y :=
    fun x hx y hy => hf (mem_vars.2 hx) (mem_vars.2 hy)
  rw [apply_numbering (Category.mem_labels_map f hv), apply_numbering hv, Category.labels_map,
    eraseDups_map f _ hinj]
  exact idxOf_map fun x hx => hinj x (List.mem_eraseDups.1 hx) v hv

theorem image?_numbering_map {f : Var → Var} (hf : Set.InjOn f {v | v ∈ c.vars})
    (hv : v ∈ c.labels) : (numbering (c.map f)).image? (f v) = c.numbering.image? v := by
  rw [image?_numbering_of_mem (Category.mem_labels_map f hv), image?_numbering_of_mem hv,
    apply_numbering_map hf hv]

theorem canonical_map {f : Var → Var} (hf : Set.InjOn f {v | v ∈ c.vars}) :
    canonical (c.map f) = c.canonical := by
  show (c.map f).map (numbering (c.map f)).apply = c.map c.numbering.apply
  rw [Category.map_map]
  exact Category.map_congr fun v hv => apply_numbering_map hf hv

/-! ## Categories with one canonical form -/

/-- The variable of `b` that has the number which a variable has in `a`. -/
def transfer (a b : Headed) (v : Var) : Var := b.numbering.inverse.apply (a.numbering.apply v)

/-- In categories with one canonical form a variable and its counterpart have one number. -/
theorem numbering_transfer (h : a.canonical = b.canonical) (hv : v ∈ a.labels) :
    transfer a b v ∈ b.labels ∧ b.numbering.apply (transfer a b v) = a.numbering.apply v := by
  have hmem : a.numbering.apply v ∈ b.canonical.labels := by
    rw [← h, canonical, rename, Category.labels_map]
    exact List.mem_map_of_mem hv
  rw [canonical, rename, Category.labels_map] at hmem
  obtain ⟨w, hw, hnumber⟩ := List.mem_map.1 hmem
  have htransfer : transfer a b v = w := by
    rw [transfer, ← hnumber]
    exact apply_inverse_numbering (image?_numbering_of_mem hw)
  rw [htransfer]
  exact ⟨hw, hnumber⟩

theorem injOn_transfer (h : a.canonical = b.canonical) :
    Set.InjOn (transfer a b) {v | v ∈ a.vars} := by
  intro v hv w hw heq
  have hvnumber := (numbering_transfer h (mem_vars.1 hv)).2
  have hwnumber := (numbering_transfer h (mem_vars.1 hw)).2
  rw [heq, hwnumber] at hvnumber
  exact (bijOn_numbering a).injOn hv hw hvnumber.symm

/-- Going to the numbers of the first category and back to the variables of the second one gives the
    second category. -/
theorem map_transfer (h : a.canonical = b.canonical) : a.map (transfer a b) = b := by
  calc a.map (transfer a b) = a.canonical.map b.numbering.inverse.apply := by
        rw [canonical, rename, Category.map_map]
        rfl
    _ = b.canonical.map b.numbering.inverse.apply := by rw [h]
    _ = b := map_inverse_canonical b

/-- Two categories have the same canonical form just when the second is the first with its variables
    renamed one-to-one. The numbering that leads to the canonical form has the variables of the
    category as its domain and is one-to-one onto the numbers below their count, in the order of
    first occurrences; canonical forms are their own canonical forms, and the test finds just
    those. -/
theorem canonical_decides_renaming (a : Headed) :
    (∀ b : Headed, a.canonical = b.canonical ↔
      ∃ f : Var → Var, Set.InjOn f {v | v ∈ a.vars} ∧ b = a.map f) ∧
    (∀ v, (a.numbering.image? v).isSome = true ↔ v ∈ a.vars) ∧
    Set.BijOn a.numbering.apply {v | v ∈ a.vars} {i | i < a.vars.length} ∧
    (∀ v ∈ a.vars, ∀ w ∈ a.vars,
      a.numbering.apply v < a.numbering.apply w ↔ a.labels.idxOf v < a.labels.idxOf w) ∧
    a.rename a.numbering = a.canonical ∧
    a.canonical.canonical = a.canonical ∧
    (a.isCanonical = true ↔ a = a.canonical) := by
  refine ⟨fun b => ⟨fun h => ?_, ?_⟩, isSome_image?_numbering a, bijOn_numbering a,
    fun v hv w hw => numbering_lt_iff hv hw, rfl, canonical_canonical a, isCanonical_iff a⟩
  · exact ⟨transfer a b, injOn_transfer h, (map_transfer h).symm⟩
  · rintro ⟨f, hf, rfl⟩
    exact (canonical_map hf).symm

end Headed

end Categorial
