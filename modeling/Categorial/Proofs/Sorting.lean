/-
  Categorial.Proofs.Sorting

  Sorted lists.  Sorting by a comparison looks at elements through the comparison only
  (`sortBy_map`) and leaves in their order those that may precede each other (`filter_sortBy`).
  Over an order it gives an ascending list of the same elements (`ascending_sorted`), and the
  set of the elements of a list is a strictly ascending list (`strictlyAscending_sortedSet`,
  `mem_sortedSet`), which its elements determine (`StrictlyAscending.ext`).  In a list whose first
  elements pass a test and whose other elements do not, halving finds the place where they part
  (`partitionPoint_append`).
-/

import Categorial.Sorting
import Mathlib.Data.List.Sort

namespace Categorial

variable {α : Type}

/-! ## Sorting by a comparison -/

theorem insertBy_map {β : Type} (le : β → β → Bool) (f : α → β) (a : α) (l : List α) :
    insertBy le (f a) (l.map f) = (insertBy (fun a b => le (f a) (f b)) a l).map f := by
  induction l with
  | nil => rfl
  | cons b l ih =>
    rw [List.map_cons, insertBy, insertBy, ih]
    split <;> rfl

theorem sortBy_map {β : Type} (le : β → β → Bool) (f : α → β) (l : List α) :
    sortBy le (l.map f) = (sortBy (fun a b => le (f a) (f b)) l).map f := by
  induction l with
  | nil => rfl
  | cons a l ih =>
    show insertBy le (f a) (sortBy le (l.map f)) = _
    rw [ih, insertBy_map]
    rfl

/-- An element is inserted in front of all that it may precede. -/
theorem filter_insertBy {le : α → α → Bool} {p : α → Bool} {a : α} {l : List α}
    (h : ∀ b ∈ l, p a = true → p b = true → le a b = true) :
    (insertBy le a l).filter p = (a :: l).filter p := by
  induction l with
  | nil => rfl
  | cons b l ih =>
    have hrest := ih fun c hc => h c (List.mem_cons_of_mem _ hc)
    rw [insertBy]
    split
    · rfl
    · -- `b` cannot be preceded by `a`, so at most one of them is in the class.
      rename_i hle
      have hboth : ¬ (p a = true ∧ p b = true) := by
        rintro ⟨ha, hb⟩
        exact hle (h b List.mem_cons_self ha hb)
      rw [List.filter_cons, hrest, List.filter_cons, List.filter_cons, List.filter_cons]
      by_cases ha : p a = true
      · have hb : ¬ p b = true := fun hb => hboth ⟨ha, hb⟩
        simp only [ha, hb, if_true, if_false, Bool.false_eq_true]
      · simp only [ha, if_false, Bool.false_eq_true]

/-- Elements that may precede each other stay in their order. -/
theorem filter_sortBy {le : α → α → Bool} {p : α → Bool} {l : List α}
    (h : ∀ a ∈ l, ∀ b ∈ l, p a = true → p b = true → le a b = true) :
    (sortBy le l).filter p = l.filter p := by
  induction l with
  | nil => rfl
  | cons a l ih =>
    have hrest : (sortBy le l).filter p = l.filter p :=
      ih fun b hb c hc => h b (List.mem_cons_of_mem _ hb) c (List.mem_cons_of_mem _ hc)
    have hinsert : ∀ b ∈ sortBy le l, p a = true → p b = true → le a b = true := by
      intro b hb
      have hmem : b ∈ l := (sortBy_perm le l).mem_iff.1 hb
      exact h a List.mem_cons_self b (List.mem_cons_of_mem _ hmem)
    show (insertBy le a (sortBy le l)).filter p = _
    rw [filter_insertBy hinsert, List.filter_cons, hrest, List.filter_cons]

section Order

variable [Ord α]

/-! ## Sorting -/

/-- Nothing stands before something less. -/
def Ascending (l : List α) : Prop := l.Pairwise fun a b => (compare a b).isLE = true

/-- Everything stands before what is greater only. -/
def StrictlyAscending (l : List α) : Prop := l.Pairwise fun a b => compare a b = .lt

theorem ascending_insertBy [Std.TransOrd α] (a : α) {l : List α} (h : Ascending l) :
    Ascending (insertBy (fun a b => (compare a b).isLE) a l) := by
  induction l with
  | nil => exact List.pairwise_singleton _ a
  | cons b l ih =>
    obtain ⟨hb, hl⟩ := List.pairwise_cons.1 h
    simp only [insertBy]
    split
    · rename_i hab
      refine List.pairwise_cons.2 ⟨fun x hx => ?_, h⟩
      rcases List.mem_cons.1 hx with rfl | hx
      · exact hab
      · exact Std.TransCmp.isLE_trans hab (hb x hx)
    · -- `b` stays in front: of `a`, because the comparison failed, and of the rest, as before.
      rename_i hab
      refine List.pairwise_cons.2 ⟨fun x hx => ?_, ih hl⟩
      rcases List.mem_cons.1 ((insertBy_perm _ a l).mem_iff.1 hx) with rfl | hx
      · have hgt : compare x b = .gt := by simpa [Ordering.isLE_iff_ne_gt] using hab
        rw [Std.OrientedCmp.gt_iff_lt] at hgt
        rw [hgt]
        rfl
      · exact hb x hx

theorem ascending_sorted [Std.TransOrd α] (l : List α) : Ascending (sorted l) := by
  induction l with
  | nil => exact List.Pairwise.nil
  | cons a l ih => exact ascending_insertBy a ih

theorem sorted_perm (l : List α) : (sorted l).Perm l := sortBy_perm _ l

theorem mem_sorted {a : α} {l : List α} : a ∈ sorted l ↔ a ∈ l := (sorted_perm l).mem_iff

/-! ## Sets -/

theorem mem_insertSorted [Std.LawfulEqOrd α] {a b : α} {l : List α} :
    b ∈ insertSorted a l ↔ b = a ∨ b ∈ l := by
  induction l with
  | nil => exact List.mem_cons
  | cons c l ih =>
    simp only [insertSorted]
    split
    · exact List.mem_cons
    · rename_i heq
      rw [Std.LawfulEqOrd.eq_of_compare heq, List.mem_cons]
      tauto
    · rw [List.mem_cons, List.mem_cons, ih]
      tauto

theorem StrictlyAscending.insertSorted [Std.TransOrd α] [Std.LawfulEqOrd α] (a : α) {l : List α}
    (h : StrictlyAscending l) : StrictlyAscending (insertSorted a l) := by
  induction l with
  | nil => exact List.pairwise_singleton _ a
  | cons b l ih =>
    obtain ⟨hb, hl⟩ := List.pairwise_cons.1 h
    simp only [Categorial.insertSorted]
    split
    · rename_i hab
      refine List.pairwise_cons.2 ⟨fun x hx => ?_, h⟩
      rcases List.mem_cons.1 hx with rfl | hx
      · exact hab
      · exact Std.TransCmp.lt_trans hab (hb x hx)
    · exact h
    · rename_i hab
      refine List.pairwise_cons.2 ⟨fun x hx => ?_, ih hl⟩
      rcases mem_insertSorted.1 hx with rfl | hx
      · exact Std.OrientedCmp.gt_iff_lt.1 hab
      · exact hb x hx

theorem mem_foldl_insertSorted [Std.LawfulEqOrd α] {a : α} {l set : List α} :
    a ∈ l.foldl (fun set a => insertSorted a set) set ↔ a ∈ l ∨ a ∈ set := by
  induction l generalizing set with
  | nil => simp
  | cons b l ih =>
    rw [List.foldl_cons, ih, mem_insertSorted, List.mem_cons]
    tauto

theorem mem_sortedSet [Std.LawfulEqOrd α] {a : α} {l : List α} : a ∈ sortedSet l ↔ a ∈ l := by
  rw [sortedSet, mem_foldl_insertSorted]
  simp

theorem strictlyAscending_sortedSet [Std.TransOrd α] [Std.LawfulEqOrd α] (l : List α) :
    StrictlyAscending (sortedSet l) :=
  List.foldlRecOn l _ List.Pairwise.nil fun _ h a _ => h.insertSorted a

theorem StrictlyAscending.nodup [Std.TransOrd α] [Std.LawfulEqOrd α] {l : List α}
    (h : StrictlyAscending l) : l.Nodup := by
  refine List.Pairwise.imp (fun {a b} hlt heq => ?_) h
  rw [heq, Std.ReflOrd.compare_self] at hlt
  cases hlt

/-- A strictly ascending list is determined by its elements. -/
theorem StrictlyAscending.ext [Std.TransOrd α] [Std.LawfulEqOrd α] {l l' : List α}
    (h : StrictlyAscending l) (h' : StrictlyAscending l') (hmem : ∀ a, a ∈ l ↔ a ∈ l') :
    l = l' := by
  have hirrefl : Std.Irrefl fun a b : α => compare a b = .lt := by
    refine ⟨fun a hlt => ?_⟩
    rw [Std.ReflOrd.compare_self] at hlt
    cases hlt
  have hantisymm : Std.Antisymm fun a b : α => compare a b = .lt := by
    refine ⟨fun a b hab hba => ?_⟩
    exact absurd (Std.TransCmp.lt_trans hab hba) (hirrefl.irrefl a)
  exact List.Pairwise.eq_of_mem_iff h h' hmem

theorem sortedSet_sortedSet [Std.TransOrd α] [Std.LawfulEqOrd α] (l : List α) :
    sortedSet (sortedSet l) = sortedSet l :=
  (strictlyAscending_sortedSet _).ext (strictlyAscending_sortedSet l) fun _ => mem_sortedSet

end Order

/-! ## Binary search -/

/-- The place between `lo` and `hi` where the elements of a list cease to pass a test, found by
    halving. -/
def partitionFrom (p : α → Bool) (l : List α) (lo hi : Nat) : Nat :=
  if lo < hi then
    if (l[(lo + hi) / 2]?).any p then partitionFrom p l ((lo + hi) / 2 + 1) hi
    else partitionFrom p l lo ((lo + hi) / 2)
  else lo
termination_by hi - lo

/-- The place where the elements of a list cease to pass a test. -/
def partitionPoint (p : α → Bool) (l : List α) : Nat := partitionFrom p l 0 l.length

variable {p : α → Bool} {before after : List α}

theorem partitionFrom_append (hbefore : ∀ a ∈ before, p a = true)
    (hafter : ∀ a ∈ after, p a = false) {lo hi : Nat} (hlo : lo ≤ before.length)
    (hhi : before.length ≤ hi) (hend : hi ≤ (before ++ after).length) :
    partitionFrom p (before ++ after) lo hi = before.length := by
  -- The place stays between `lo` and `hi` while these approach each other.
  fun_induction partitionFrom p (before ++ after) lo hi with
  | case1 lo hi hlt htest ih =>
    -- The middle element passes the test, so it stands before the place.
    refine ih ?_ hhi hend
    by_contra hmid
    have hget : (before ++ after)[(lo + hi) / 2]? = after[(lo + hi) / 2 - before.length]? :=
      List.getElem?_append_right (by omega)
    rw [hget, Option.any_eq_true] at htest
    obtain ⟨a, ha, hpa⟩ := htest
    rw [hafter a (List.mem_of_getElem? ha)] at hpa
    cases hpa
  | case2 lo hi hlt htest ih =>
    -- It does not pass, so the place is not after it.
    refine ih hlo ?_ (by omega)
    by_contra hmid
    have hlt : (lo + hi) / 2 < before.length := by omega
    rw [List.getElem?_append_left hlt, List.getElem?_eq_getElem hlt, Option.any_some] at htest
    exact htest (hbefore _ (List.getElem_mem hlt))
  | case3 lo hi hlt => omega

theorem partitionPoint_append (hbefore : ∀ a ∈ before, p a = true)
    (hafter : ∀ a ∈ after, p a = false) : partitionPoint p (before ++ after) = before.length :=
  partitionFrom_append hbefore hafter (Nat.zero_le _) (by simp) (Nat.le_refl _)

end Categorial
