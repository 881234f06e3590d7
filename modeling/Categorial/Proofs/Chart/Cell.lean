/-
  Categorial.Proofs.Chart.Cell

  What offering items does to a cell.  Whatever is in the cell afterwards was there before or was
  offered (`mem_offer`, `mem_offerAll`), no two items have the same sign (`Distinct`), and with
  exact inference an offer never loses a sign or lowers its probability (`Covers`).  Ranking puts
  the more probable items first (`pairwise_ranked`) and leaves ties in their order
  (`filter_ranked`).
-/

import Categorial.Chart.Basic
import Categorial.Proofs.Probability.Order
import Categorial.Proofs.Sorting

namespace Categorial

open Probability

namespace Cell

/-! ## Membership -/

theorem mem_insert {item it : Item} {cell : Cell} (h : it ∈ (insert item cell).1) :
    it = item ∨ it ∈ cell := by
  induction cell with
  | nil => exact .inl (List.mem_singleton.1 h)
  | cons other cell ih =>
    simp only [insert] at h
    split at h
    · -- `other` has the sign of the item, and the search ends here, with either of them.
      split at h
      · rcases List.mem_cons.1 h with h | h
        · exact .inl h
        · exact .inr (List.mem_cons_of_mem _ h)
      · exact .inr h
    · rcases List.mem_cons.1 h with h | h
      · exact .inr (h ▸ List.mem_cons_self)
      · exact (ih h).imp id (List.mem_cons_of_mem _)

/-- A beam leaves a part of what is there without it. -/
theorem offer_sublist (inference : Inference) (item : Item) (cell : Cell) :
    (offer inference item cell).1.Sublist (insert item cell).1 := by
  cases inference with
  | exact => exact .refl _
  | beam size =>
    simp only [offer]
    split
    · exact .refl _
    · exact List.eraseIdx_sublist _ _

theorem mem_offer {inference : Inference} {item it : Item} {cell : Cell}
    (h : it ∈ (offer inference item cell).1) : it = item ∨ it ∈ cell :=
  mem_insert ((offer_sublist inference item cell).subset h)

theorem ranked_perm (cell : Cell) : cell.ranked.Perm cell := sortBy_perm _ cell

theorem mem_ranked {it : Item} {cell : Cell} : it ∈ cell.ranked ↔ it ∈ cell :=
  (ranked_perm cell).mem_iff

/-! ## Signs -/

/-- No two items have the same sign. -/
def Distinct (cell : Cell) : Prop := cell.Pairwise fun a b => a.entry.sign ≠ b.entry.sign

theorem Distinct.insert {cell : Cell} (h : cell.Distinct) (item : Item) :
    (Cell.insert item cell).1.Distinct := by
  induction cell with
  | nil => exact List.pairwise_singleton _ _
  | cons other cell ih =>
    obtain ⟨hother, hcell⟩ := List.pairwise_cons.1 h
    simp only [Cell.insert]
    split
    · rename_i heq
      split
      · -- The item takes the place of one with its sign.
        refine List.pairwise_cons.2 ⟨fun it hit => ?_, hcell⟩
        rw [← heq]
        exact hother it hit
      · exact h
    · rename_i hne
      refine List.pairwise_cons.2 ⟨fun it hit => ?_, ih hcell⟩
      rcases mem_insert hit with rfl | hit
      · exact hne
      · exact hother it hit

theorem Distinct.offer {cell : Cell} (h : cell.Distinct) (inference : Inference) (item : Item) :
    (Cell.offer inference item cell).1.Distinct :=
  List.Pairwise.sublist (offer_sublist inference item cell) (h.insert item)

theorem Distinct.ranked {cell : Cell} (h : cell.Distinct) : cell.ranked.Distinct :=
  List.Pairwise.perm h (ranked_perm cell).symm fun hne => hne.symm

/-- In a cell with distinct signs an item is the only one with its sign. -/
theorem Distinct.filter_sign_eq {cell : Cell} (h : cell.Distinct) {item : Item}
    (hmem : item ∈ cell) :
    cell.filter (fun it => it.entry.sign = item.entry.sign) = [item] := by
  induction cell with
  | nil => cases hmem
  | cons other cell ih =>
    obtain ⟨hother, hcell⟩ := List.pairwise_cons.1 h
    rcases List.mem_cons.1 hmem with rfl | hmem
    · have hrest : cell.filter (fun it => it.entry.sign = item.entry.sign) = [] := by
        rw [List.filter_eq_nil_iff]
        intro it hit
        simpa using (hother it hit).symm
      rw [List.filter_cons_of_pos (by simp), hrest]
    · rw [List.filter_cons_of_neg (by simpa using hother item hmem), ih hcell hmem]

theorem Distinct.eq_of_sign_eq {cell : Cell} (h : cell.Distinct) {a b : Item} (ha : a ∈ cell)
    (hb : b ∈ cell) (hsign : a.entry.sign = b.entry.sign) : a = b := by
  have hfilter : a ∈ cell.filter fun it => it.entry.sign = b.entry.sign :=
    List.mem_filter.2 ⟨ha, decide_eq_true hsign⟩
  rw [h.filter_sign_eq hb] at hfilter
  exact List.mem_singleton.1 hfilter

/-! ## Probabilities -/

/-- All probabilities are positive. -/
def Positive (cell : Cell) : Prop := ∀ it ∈ cell, 0 < it.probability

theorem positive_nil : Cell.Positive [] := fun _ hit => nomatch hit

/-- Some item with a sign has a probability that is not below `p`. -/
def Covers (cell : Cell) (sign : Sign) (p : Float) : Prop :=
  ∃ it ∈ cell, it.entry.sign = sign ∧ p ≤ it.probability

theorem Positive.offer {cell : Cell} (h : cell.Positive) (inference : Inference) {item : Item}
    (hitem : 0 < item.probability) : (Cell.offer inference item cell).1.Positive := by
  intro it hit
  rcases mem_offer hit with rfl | hit
  · exact hitem
  · exact h it hit

theorem covers_insert_self {cell : Cell} (h : cell.Positive) {item : Item}
    (hitem : 0 < item.probability) :
    (insert item cell).1.Covers item.entry.sign item.probability := by
  induction cell with
  | nil => exact ⟨item, List.mem_singleton.2 rfl, rfl, le_refl_of_pos hitem⟩
  | cons other cell ih =>
    have hother := h other List.mem_cons_self
    simp only [insert]
    split
    · rename_i heq
      split
      · exact ⟨item, List.mem_cons_self, rfl, le_refl_of_pos hitem⟩
      · -- The item is dropped only for one that is at least as probable.
        rename_i hlt
        exact ⟨other, List.mem_cons_self, heq, (not_lt_of_pos hother hitem).1 hlt⟩
    · obtain ⟨it, hit, hsign, hle⟩ := ih fun it hit => h it (List.mem_cons_of_mem _ hit)
      exact ⟨it, List.mem_cons_of_mem _ hit, hsign, hle⟩

/-- An item is replaced only by one with its sign and a greater probability. -/
theorem Covers.insert {cell : Cell} (h : cell.Positive) {sign : Sign} {p : Float} (hp : 0 < p)
    (hc : cell.Covers sign p) {item : Item} (hitem : 0 < item.probability) :
    (Cell.insert item cell).1.Covers sign p := by
  obtain ⟨it, hit, hsign, hle⟩ := hc
  induction cell with
  | nil => cases hit
  | cons other cell ih =>
    have hother := h other List.mem_cons_self
    simp only [Cell.insert]
    rcases List.mem_cons.1 hit with rfl | hit
    · split
      · rename_i heq
        split
        · rename_i hlt
          have hitem' := le_of_lt_of_pos hother hitem hlt
          exact ⟨item, List.mem_cons_self, heq.symm.trans hsign,
            le_trans_of_pos hp hle hitem'⟩
        · exact ⟨it, List.mem_cons_self, hsign, hle⟩
      · exact ⟨it, List.mem_cons_self, hsign, hle⟩
    · split
      · split <;> exact ⟨it, List.mem_cons_of_mem _ hit, hsign, hle⟩
      · obtain ⟨it', hit', hsign', hle'⟩ :=
          ih (fun it hit => h it (List.mem_cons_of_mem _ hit)) hit
        exact ⟨it', List.mem_cons_of_mem _ hit', hsign', hle'⟩

/-! ## Ranking -/

theorem pairwise_insertBy {cell : Cell} {item : Item} (hpos : Positive (item :: cell))
    (h : cell.Pairwise fun a b => b.probability ≤ a.probability) :
    (insertBy (fun a b => b.probability ≤ a.probability) item cell).Pairwise
      fun a b => b.probability ≤ a.probability := by
  induction cell with
  | nil => exact List.pairwise_singleton _ item
  | cons other cell ih =>
    obtain ⟨hother, hcell⟩ := List.pairwise_cons.1 h
    have hpositem : 0 < item.probability := hpos item List.mem_cons_self
    have hposother : 0 < other.probability := hpos other (by simp)
    simp only [insertBy, decide_eq_true_eq]
    split
    · rename_i hle
      refine List.pairwise_cons.2 ⟨fun it hit => ?_, h⟩
      rcases List.mem_cons.1 hit with rfl | hit
      · exact hle
      · exact le_trans_of_pos (hpos it (by simp [hit])) (hother it hit) hle
    · -- The item is less probable than `other`, and goes somewhere after it.
      rename_i hnot
      have hle : item.probability ≤ other.probability := by
        rw [le_iff_of_pos hposother hpositem] at hnot
        rw [le_iff_of_pos hpositem hposother]
        omega
      have hrest : Positive (item :: cell) := fun it hit => hpos it (by simp at hit ⊢; tauto)
      refine List.pairwise_cons.2 ⟨fun it hit => ?_, ih hrest hcell⟩
      rcases List.mem_cons.1 ((insertBy_perm _ item cell).mem_iff.1 hit) with rfl | hit
      · exact hle
      · exact hother it hit

/-- Ranking puts the more probable items first. -/
theorem pairwise_ranked {cell : Cell} (h : cell.Positive) :
    cell.ranked.Pairwise fun a b => b.probability ≤ a.probability := by
  induction cell with
  | nil => exact List.Pairwise.nil
  | cons item cell ih =>
    have hcell : Positive cell := fun it hit => h it (List.mem_cons_of_mem _ hit)
    refine pairwise_insertBy (fun it hit => ?_) (ih hcell)
    rcases List.mem_cons.1 hit with rfl | hit
    · exact h it List.mem_cons_self
    · exact hcell it (mem_ranked.1 hit)

/-- Items of one probability stay in their order. -/
theorem filter_ranked {cell : Cell} (h : cell.Positive) (p : Float) :
    cell.ranked.filter (fun it => it.probability = p) =
      cell.filter fun it => it.probability = p := by
  refine filter_sortBy fun a ha b _ hpa hpb => ?_
  have hsame : a.probability = b.probability :=
    (of_decide_eq_true hpa).trans (of_decide_eq_true hpb).symm
  rw [← hsame]
  exact decide_eq_true (le_refl_of_pos (h a ha))

theorem Covers.ranked {cell : Cell} {sign : Sign} {p : Float} (h : cell.Covers sign p) :
    cell.ranked.Covers sign p := by
  obtain ⟨it, hit, hsign, hle⟩ := h
  exact ⟨it, mem_ranked.2 hit, hsign, hle⟩

end Cell

namespace Chart

/-! ## Runs of offers -/

variable {chart : Chart} {span : Span}

theorem admits_iff {item : Item} :
    chart.admits item span = true ↔ 0 < item.probability ∧ chart.filter item.entry span = true := by
  simp [admits]

/-- What holds of a cell and is kept by every offer that is let in holds after a run of offers. -/
theorem offerAll_induction {P : Cell → Prop} {cell : Cell} (items : List Item) (h : P cell)
    (hstep : ∀ cell item, item ∈ items → chart.admits item span = true → P cell →
      P (cell.offer chart.inference item).1) :
    P (chart.offerAll span cell items) := by
  induction items generalizing cell with
  | nil => exact h
  | cons item items ih =>
    have hrest : ∀ cell it, it ∈ items → chart.admits it span = true → P cell →
        P (cell.offer chart.inference it).1 :=
      fun cell it hit => hstep cell it (List.mem_cons_of_mem _ hit)
    simp only [offerAll, List.foldl_cons]
    split
    · rename_i hadm
      exact ih (hstep cell item List.mem_cons_self hadm h) hrest
    · exact ih h hrest

theorem mem_offerAll {cell : Cell} {items : List Item} {it : Item}
    (h : it ∈ chart.offerAll span cell items) :
    it ∈ cell ∨ it ∈ items ∧ chart.admits it span = true := by
  have hall : ∀ it ∈ chart.offerAll span cell items,
      it ∈ cell ∨ it ∈ items ∧ chart.admits it span = true := by
    refine offerAll_induction (P := fun c => ∀ it ∈ c, it ∈ cell ∨
      it ∈ items ∧ chart.admits it span = true) items (fun it hit => .inl hit) ?_
    intro c item hitem hadm hc it hit
    rcases Cell.mem_offer hit with rfl | hit
    · exact .inr ⟨hitem, hadm⟩
    · exact hc it hit
  exact hall it h

theorem distinct_offerAll {cell : Cell} (h : cell.Distinct) (items : List Item) :
    (chart.offerAll span cell items).Distinct :=
  offerAll_induction items h fun _ item _ _ hc => hc.offer chart.inference item

theorem positive_offerAll {cell : Cell} (h : cell.Positive) (items : List Item) :
    (chart.offerAll span cell items).Positive :=
  offerAll_induction items h fun _ _ _ hadm hc =>
    hc.offer chart.inference (admits_iff.1 hadm).1

theorem covers_offerAll (hexact : chart.inference = .exact) {cell : Cell} (hpos : cell.Positive)
    {sign : Sign} {p : Float} (hp : 0 < p) (h : cell.Covers sign p) (items : List Item) :
    (chart.offerAll span cell items).Covers sign p := by
  -- That probabilities are positive is carried along, since only then is their order total.
  have hboth : (chart.offerAll span cell items).Positive ∧
      (chart.offerAll span cell items).Covers sign p := by
    refine offerAll_induction (P := fun c => c.Positive ∧ c.Covers sign p) items ⟨hpos, h⟩ ?_
    rintro c item - hadm ⟨hc, hcov⟩
    have hitem := (admits_iff.1 hadm).1
    refine ⟨hc.offer chart.inference hitem, ?_⟩
    rw [hexact]
    exact hcov.insert hc hp hitem
  exact hboth.2

/-- With exact inference every item that is let in leaves its mark on the cell. -/
theorem covers_offerAll_of_mem (hexact : chart.inference = .exact) {cell : Cell}
    (hpos : cell.Positive) {items : List Item} {item : Item} (hmem : item ∈ items)
    (hadm : chart.admits item span = true) :
    (chart.offerAll span cell items).Covers item.entry.sign item.probability := by
  -- Right after its own offer the item is covered, and the later offers keep it so.
  obtain ⟨before, after, rfl⟩ := List.append_of_mem hmem
  have hitem := (admits_iff.1 hadm).1
  have hbefore : (chart.offerAll span cell before).Positive := positive_offerAll hpos before
  have hsplit : chart.offerAll span cell (before ++ item :: after) =
      chart.offerAll span
        ((chart.offerAll span cell before).offer chart.inference item).1 after := by
    simp only [offerAll, List.foldl_append, List.foldl_cons, hadm, if_true]
  rw [hsplit]
  refine covers_offerAll hexact (hbefore.offer chart.inference hitem) hitem ?_ after
  rw [hexact]
  exact Cell.covers_insert_self hbefore hitem

end Chart

end Categorial
