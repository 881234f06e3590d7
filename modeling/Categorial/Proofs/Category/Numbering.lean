/-
  Categorial.Proofs.Category.Numbering

  Numbering the variables of a category in the order of their first occurrence.  Every variable of
  the category has a number (`image?_numbering`), different variables have different numbers
  (`numbering_inj`), and the renamed category is canonical (`isCanonical_rename_numbering`).
-/

import Categorial.Category.Renaming
import Mathlib.Data.List.Nodup

namespace Categorial

/-! ## Lists without repetitions -/

section Lists

variable {α : Type} [BEq α] [LawfulBEq α]

theorem nodup_eraseDups (l : List α) : l.eraseDups.Nodup := by
  induction hn : l.length using Nat.strongRecOn generalizing l with
  | ind n ih =>
    cases l with
    | nil => exact List.nodup_nil
    | cons a l =>
      -- The rest is not the tail but the tail without `a`, so the induction is on the length.
      have hlength : (l.filter fun b => !b == a).length ≤ l.length := List.length_filter_le _ l
      rw [List.length_cons] at hn
      rw [List.eraseDups_cons]
      refine List.nodup_cons.2 ⟨fun hmem => ?_, ih _ (by omega) _ rfl⟩
      have hfilter := (List.mem_filter.1 (List.mem_eraseDups.1 hmem)).2
      simp at hfilter

theorem eraseDups_append_singleton (l : List α) (a : α) :
    (l ++ [a]).eraseDups = if a ∈ l then l.eraseDups else l.eraseDups ++ [a] := by
  rw [List.eraseDups_append, List.removeAll]
  split
  · rename_i hmem
    simp [hmem]
  · rename_i hmem
    simp [hmem, List.eraseDups_cons]

theorem eraseDups_map {β : Type} [BEq β] [LawfulBEq β] (f : α → β) (l : List α)
    (hf : ∀ a ∈ l, ∀ b ∈ l, f a = f b → a = b) : (l.map f).eraseDups = l.eraseDups.map f := by
  induction hn : l.length using Nat.strongRecOn generalizing l with
  | ind n ih =>
    cases l with
    | nil => rfl
    | cons a l =>
      have hlength : (l.filter fun b => !b == a).length ≤ l.length := List.length_filter_le _ l
      -- What differs from `f a` among the images is the image of what differs from `a`.
      have hfilter : (l.map f).filter (fun b => !b == f a) = (l.filter fun b => !b == a).map f := by
        rw [List.filter_map]
        congr 1
        refine List.filter_congr fun b hb => ?_
        have hinj := hf b (List.mem_cons_of_mem _ hb) a List.mem_cons_self
        have hiff : f b = f a ↔ b = a := ⟨hinj, congrArg f⟩
        simp only [Function.comp_apply, Bool.not_eq_eq_eq_not, Bool.not_not]
        exact Bool.eq_iff_iff.2 (by rw [beq_iff_eq, beq_iff_eq, hiff])
      have hrest : ∀ x ∈ l.filter (fun b => !b == a), ∀ y ∈ l.filter (fun b => !b == a),
          f x = f y → x = y := fun x hx y hy =>
        hf x (List.mem_cons_of_mem _ (List.mem_filter.1 hx).1)
          y (List.mem_cons_of_mem _ (List.mem_filter.1 hy).1)
      rw [List.length_cons] at hn
      rw [List.map_cons, List.eraseDups_cons, List.eraseDups_cons, List.map_cons, hfilter,
        ih _ (by omega) _ hrest rfl]

theorem map_idxOf_self {l : List α} (h : l.Nodup) : l.map l.idxOf = List.range l.length := by
  refine List.ext_getElem (by simp) fun i hi _ => ?_
  rw [List.getElem_map, List.getElem_range]
  exact List.Nodup.idxOf_getElem h i _

theorem lookup_zipIdx (a : α) (l : List α) (k : Nat) :
    (l.zipIdx k).lookup a = if a ∈ l then some (l.idxOf a + k) else none := by
  induction l generalizing k with
  | nil => rfl
  | cons b l ih =>
    rw [List.zipIdx_cons, List.lookup_cons]
    by_cases hab : a = b
    · simp [hab]
    · have hba : (b == a) = false := beq_false_of_ne fun h => hab h.symm
      rw [beq_false_of_ne hab, ih]
      simp only [List.mem_cons, hab, false_or, List.idxOf_cons, hba, cond_false]
      congr 2
      omega

theorem lookup_swap_zipIdx {β : Type} (l : List β) (k i : Nat) :
    ((l.zipIdx k).map Prod.swap).lookup (k + i) = l[i]? := by
  induction l generalizing k i with
  | nil => rfl
  | cons b l ih =>
    rw [List.zipIdx_cons, List.map_cons, Prod.swap_prod_mk, List.lookup_cons]
    cases i with
    | zero => simp
    | succ i =>
      have hne : (k + (i + 1) == k) = false := beq_false_of_ne (by omega)
      have hshift : k + (i + 1) = k + 1 + i := by omega
      rw [hne, List.getElem?_cons_succ, ← ih (k + 1) i, hshift]

end Lists

/-- The renaming back, when no two variables have the same image. -/
def Renaming.inverse (m : Renaming) : Renaming := m.map Prod.swap

namespace Headed

variable {c : Headed} {v w i : Var}

/-! ## Numbers of variables -/

theorem image?_numbering :
    c.numbering.image? v = if v ∈ c.labels then some (c.labels.eraseDups.idxOf v) else none := by
  rw [numbering, Renaming.image?, lookup_zipIdx]
  simp only [List.mem_eraseDups, Nat.add_zero]

theorem image?_numbering_isSome : (c.numbering.image? v).isSome = true ↔ v ∈ c.labels := by
  rw [image?_numbering]
  by_cases h : v ∈ c.labels <;> simp [h]

theorem image?_numbering_eq_some :
    c.numbering.image? v = some i ↔ v ∈ c.labels ∧ c.labels.eraseDups.idxOf v = i := by
  rw [image?_numbering]
  by_cases h : v ∈ c.labels <;> simp [h]

/-- Different variables have different numbers. -/
theorem numbering_inj (hv : c.numbering.image? v = some i) (hw : c.numbering.image? w = some i) :
    v = w := by
  obtain ⟨hmem, hi⟩ := image?_numbering_eq_some.1 hv
  obtain ⟨-, hi'⟩ := image?_numbering_eq_some.1 hw
  exact (List.idxOf_inj (List.mem_eraseDups.2 hmem)).1 (hi.trans hi'.symm)

theorem apply_numbering (h : v ∈ c.labels) : c.numbering.apply v = c.labels.eraseDups.idxOf v := by
  rw [Renaming.apply, image?_numbering, if_pos h]
  rfl

/-- The number of a variable leads back to it. -/
theorem apply_inverse_numbering (h : c.numbering.image? v = some i) :
    c.numbering.inverse.apply i = v := by
  obtain ⟨hmem, rfl⟩ := image?_numbering_eq_some.1 h
  have hlookup := lookup_swap_zipIdx c.labels.eraseDups 0 (c.labels.eraseDups.idxOf v)
  rw [Nat.zero_add, List.getElem?_idxOf (List.mem_eraseDups.2 hmem)] at hlookup
  rw [Renaming.apply, Renaming.inverse, Renaming.image?, numbering, hlookup]
  rfl

/-! ## Canonical categories -/

theorem mem_labels_rename_numbering (h : c.numbering.image? v = some i) :
    i ∈ (c.rename c.numbering).labels := by
  obtain ⟨hmem, rfl⟩ := image?_numbering_eq_some.1 h
  rw [rename, Category.labels_map, ← apply_numbering hmem]
  exact List.mem_map_of_mem hmem

/-- In the renamed category the variables occur for the first time in the order of their numbers. -/
theorem eraseDups_labels_rename_numbering :
    (c.rename c.numbering).labels.eraseDups = List.range c.labels.eraseDups.length := by
  have hinj : ∀ v ∈ c.labels, ∀ w ∈ c.labels,
      c.numbering.apply v = c.numbering.apply w → v = w := by
    intro v hv w hw h
    rw [apply_numbering hv, apply_numbering hw] at h
    exact (List.idxOf_inj (List.mem_eraseDups.2 hv)).1 h
  have hnumbers : c.labels.eraseDups.map c.numbering.apply =
      c.labels.eraseDups.map c.labels.eraseDups.idxOf :=
    List.map_congr_left fun v hv => apply_numbering (List.mem_eraseDups.1 hv)
  rw [rename, Category.labels_map, eraseDups_map _ _ hinj, hnumbers,
    map_idxOf_self (nodup_eraseDups _)]

theorem isCanonical_rename_numbering : (c.rename c.numbering).isCanonical = true := by
  rw [isCanonical, List.all_eq_true]
  rintro ⟨v, i⟩ hmem
  rw [numbering, eraseDups_labels_rename_numbering, List.mem_zipIdx_iff_getElem?,
    List.getElem?_eq_some_iff] at hmem
  obtain ⟨hi, hv⟩ := hmem
  rw [List.getElem_range] at hv
  exact beq_iff_eq.2 hv.symm

end Headed

end Categorial
