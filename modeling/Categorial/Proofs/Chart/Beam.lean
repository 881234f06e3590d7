/-
  Categorial.Proofs.Chart.Beam

  What a beam keeps of a cell.  A cell with a beam and a cell without one get the same offers.  At
  any time the beam has the most probable items of the other cell, as many as it has room for
  (`KeepsBest`), although it forgets what it drops: a sign that comes back can enter only with a
  probability that beats everything dropped so far, and then the other cell has that probability
  too.

    * `insert_eq_of_absent`, `insert_eq_of_present` -- what one insertion does.
    * `exists_worst` -- which item a full beam drops.
    * `IsBeam.offer` -- one offer, and `BeamOf.change` for one call on a chart.
    * `run_keepsBest` -- every run of calls on a chart.
-/

import Categorial.Proofs.Chart.Filling
import Categorial.Proofs.Chart.Cell

namespace Categorial

open Probability

namespace Cell

/-! ## One insertion -/

/-- An item with a new sign goes to the end. -/
theorem insert_eq_of_absent {item : Item} {cell : Cell}
    (h : ∀ it ∈ cell, it.entry.sign ≠ item.entry.sign) :
    insert item cell = (cell ++ [item], true) := by
  induction cell with
  | nil => rfl
  | cons other cell ih =>
    have hother : ¬ other.entry.Equivalent item.entry := h other List.mem_cons_self
    have hrest := ih fun it hit => h it (List.mem_cons_of_mem _ hit)
    rw [insert, if_neg hother, hrest]
    rfl

theorem insert_of_absent {item : Item} {cell : Cell}
    (h : ∀ it ∈ cell, it.entry.sign ≠ item.entry.sign) : (insert item cell).1 = cell ++ [item] := by
  rw [insert_eq_of_absent h]

/-- The more probable of two items with one sign; of two equally probable ones, the old one. -/
def better (old item : Item) : Item := if old.probability < item.probability then item else old

/-- An item whose sign is there already competes for the place. -/
theorem insert_eq_of_present {item old : Item} {before after : Cell}
    (hbefore : ∀ it ∈ before, it.entry.sign ≠ item.entry.sign)
    (hold : old.entry.Equivalent item.entry) :
    insert item (before ++ old :: after) =
      (before ++ better old item :: after, decide (old.probability < item.probability)) := by
  induction before with
  | nil =>
    rw [List.nil_append, insert, if_pos hold, better]
    by_cases hlt : old.probability < item.probability <;> simp [hlt]
  | cons other before ih =>
    have hother : ¬ other.entry.Equivalent item.entry := hbefore other List.mem_cons_self
    have hrest := ih fun it hit => hbefore it (List.mem_cons_of_mem _ hit)
    rw [List.cons_append, insert, if_neg hother, hrest]
    rfl

theorem insert_of_present {item old : Item} {before after : Cell}
    (hbefore : ∀ it ∈ before, it.entry.sign ≠ item.entry.sign)
    (hold : old.entry.Equivalent item.entry) :
    (insert item (before ++ old :: after)).1 = before ++ better old item :: after := by
  rw [insert_eq_of_present hbefore hold]

/-- In a cell with distinct signs an item with a known sign replaces the one it competes with. -/
theorem insert_perm_of_mem {item old : Item} {cell rest : Cell} (hdistinct : cell.Distinct)
    (hperm : cell.Perm (old :: rest)) (hold : old.entry.Equivalent item.entry) :
    (insert item cell).1.Perm (better old item :: rest) := by
  have hmem : old ∈ cell := hperm.mem_iff.2 List.mem_cons_self
  obtain ⟨before, after, rfl⟩ := List.append_of_mem hmem
  have hbefore : ∀ it ∈ before, it.entry.sign ≠ item.entry.sign := by
    intro it hit
    have hne := (List.pairwise_append.1 hdistinct).2.2 it hit old List.mem_cons_self
    rwa [hold] at hne
  have hrest : (before ++ after).Perm rest :=
    ((List.perm_middle (a := old)).symm.trans hperm).cons_inv
  rw [insert_of_present hbefore hold]
  exact List.perm_middle.trans (hrest.cons _)

theorem le_better {old item : Item} (hold : 0 < old.probability) (hitem : 0 < item.probability) :
    old.probability ≤ (better old item).probability := by
  unfold better
  split
  · rename_i hlt
    exact le_of_lt_of_pos hold hitem hlt
  · exact le_refl_of_pos hold

/-! ## What a full beam drops -/

/-- The search for the least probable item ends where it started, or at an item that is at most as
    probable as all before it and less probable than all after it. -/
theorem worstFrom_eq {cell : Cell} (hpos : cell.Positive) {least : Float} (hleast : 0 < least)
    (i worst : Nat) :
    (worstFrom i worst least cell = worst ∧ ∀ it ∈ cell, least < it.probability) ∨
      ∃ before x after, cell = before ++ x :: after ∧
        worstFrom i worst least cell = i + before.length ∧ x.probability ≤ least ∧
        (∀ it ∈ before, x.probability ≤ it.probability) ∧
        ∀ it ∈ after, x.probability < it.probability := by
  induction cell generalizing i worst least with
  | nil => exact .inl ⟨rfl, fun _ hit => nomatch hit⟩
  | cons y cell ih =>
    have hy : 0 < y.probability := hpos y List.mem_cons_self
    have hcell : Cell.Positive cell := fun it hit => hpos it (List.mem_cons_of_mem _ hit)
    rw [worstFrom]
    by_cases hle : y.probability ≤ least
    · -- The search goes on from `y`: it stays there, or it finds something no more probable.
      rw [if_pos hle]
      rcases ih hcell hy (i + 1) i with ⟨heq, hafter⟩ | ⟨before, x, after, rfl, heq, hx, hb, ha⟩
      · exact .inr ⟨[], y, cell, rfl, heq, hle, (fun _ hit => nomatch hit), hafter⟩
      · have hxpos : 0 < x.probability := hcell x (List.mem_append_right _ List.mem_cons_self)
        refine .inr ⟨y :: before, x, after, rfl, ?_, le_trans_of_pos hxpos hx hle, ?_, ha⟩
        · rw [heq, List.length_cons]
          omega
        · intro it hit
          rcases List.mem_cons.1 hit with rfl | hit
          · exact hx
          · exact hb it hit
    · have hlt : least < y.probability := by
        by_contra hnot
        exact hle ((not_lt_of_pos hleast hy).1 hnot)
      rw [if_neg hle]
      rcases ih hcell hleast (i + 1) worst with
        ⟨heq, hafter⟩ | ⟨before, x, after, rfl, heq, hx, hb, ha⟩
      · refine .inl ⟨heq, fun it hit => ?_⟩
        rcases List.mem_cons.1 hit with rfl | hit
        · exact hlt
        · exact hafter it hit
      · have hxpos : 0 < x.probability := hcell x (List.mem_append_right _ List.mem_cons_self)
        refine .inr ⟨y :: before, x, after, rfl, ?_, hx, ?_, ha⟩
        · rw [heq, List.length_cons]
          omega
        · intro it hit
          rcases List.mem_cons.1 hit with rfl | hit
          · exact le_trans_of_pos hxpos hx (le_of_lt_of_pos hleast hy hlt)
          · exact hb it hit

/-- While there is room nothing goes. -/
theorem offer_of_fits {size : Nat} {item : Item} {cell : Cell}
    (h : (insert item cell).1.length ≤ size) :
    (offer (.beam size) item cell).1 = (insert item cell).1 := by
  simp only [offer]
  rw [if_pos h]

/-- The item that goes is at most as probable as all before it and less probable than all after
    it. -/
theorem exists_worst {cell : Cell} (hne : cell ≠ []) (hpos : cell.Positive) :
    ∃ before x after, cell = before ++ x :: after ∧ worst cell = before.length ∧
      (∀ it ∈ before, x.probability ≤ it.probability) ∧
      ∀ it ∈ after, x.probability < it.probability := by
  cases cell with
  | nil => exact absurd rfl hne
  | cons y cell =>
    -- That the search starts at the first item is one more case.
    have hy : 0 < y.probability := hpos y List.mem_cons_self
    have hcell : Cell.Positive cell := fun it hit => hpos it (List.mem_cons_of_mem _ hit)
    rcases worstFrom_eq hcell hy 1 0 with ⟨heq, hafter⟩ | ⟨before, x, after, rfl, heq, hx, hb, ha⟩
    · exact ⟨[], y, cell, rfl, heq, (fun _ hit => nomatch hit), hafter⟩
    · refine ⟨y :: before, x, after, rfl, ?_, ?_, ha⟩
      · rw [worst, heq, List.length_cons, Nat.add_comm]
      · intro it hit
        rcases List.mem_cons.1 hit with rfl | hit
        · exact hx
        · exact hb it hit

theorem eraseIdx_middle (before : Cell) (x : Item) (after : Cell) :
    (before ++ x :: after).eraseIdx before.length = before ++ after := by
  rw [List.eraseIdx_append_of_length_le (Nat.le_refl _), Nat.sub_self]
  rfl

/-- The item that goes is the new one at the end, or one that was there before. -/
theorem new_or_mem_of_append_eq {beam before after : Cell} {item x : Item}
    (h : beam ++ [item] = before ++ x :: after) :
    (before = beam ∧ x = item ∧ after = []) ∨ (x ∈ beam ∧ item ∈ after) := by
  rcases List.eq_nil_or_concat' after with rfl | ⟨after, last, rfl⟩
  · obtain ⟨hbeam, hitem⟩ := List.append_inj' h rfl
    exact .inl ⟨hbeam.symm, (List.singleton_inj.1 hitem).symm, rfl⟩
  · have h' : beam ++ [item] = (before ++ x :: after) ++ [last] := by
      rw [h, List.append_assoc]
      rfl
    obtain ⟨hbeam, hitem⟩ := List.append_inj' h' rfl
    have hlast : item = last := List.singleton_inj.1 hitem
    refine .inr ⟨?_, ?_⟩
    · rw [hbeam]
      exact List.mem_append_right _ List.mem_cons_self
    · rw [hlast]
      exact List.mem_append_right _ (List.mem_singleton.2 rfl)

/-! ## The best of a cell -/

/-- The probabilities of the items, however often each occurs. -/
def probabilities (cell : Cell) : Multiset Float := (cell.map Item.probability : List Float)

/-- `beam` has the most probable items of `exact`, as many as there is room for. -/
structure KeepsBest (size : Nat) (beam exact : Cell) : Prop where
  /-- Nothing that is lost is more probable than what is kept. -/
  parts : ∃ lost : Cell, exact.Perm (beam ++ lost) ∧
    ∀ kept ∈ beam, ∀ it ∈ lost, it.probability ≤ kept.probability
  length : beam.length = min size exact.length

namespace KeepsBest

variable {size : Nat} {beam exact lost : Cell} {item : Item}

theorem nil (size : Nat) : KeepsBest size [] [] :=
  ⟨⟨[], .refl _, fun _ hit => nomatch hit⟩, (Nat.min_zero size).symm⟩

/-- The order of the items does not matter. -/
theorem perm (h : KeepsBest size beam exact) {beam' exact' : Cell} (hbeam : beam.Perm beam')
    (hexact : exact.Perm exact') : KeepsBest size beam' exact' := by
  obtain ⟨lost, hperm, hle⟩ := h.parts
  refine ⟨⟨lost, ?_, ?_⟩, ?_⟩
  · exact hexact.symm.trans (hperm.trans (hbeam.append_right lost))
  · intro kept hkept
    exact hle kept (hbeam.mem_iff.2 hkept)
  · rw [← hbeam.length_eq, ← hexact.length_eq]
    exact h.length

theorem exists_lost (h : KeepsBest size beam exact) :
    ∃ lost, exact.probabilities = beam.probabilities + lost ∧
      ∀ p ∈ beam.probabilities, ∀ q ∈ lost, q ≤ p := by
  obtain ⟨lost, hperm, hle⟩ := h.parts
  refine ⟨lost.probabilities, ?_, ?_⟩
  · rw [probabilities, probabilities, probabilities, Multiset.coe_add, ← List.map_append]
    exact Multiset.coe_eq_coe.2 (hperm.map _)
  · intro p hp q hq
    obtain ⟨kept, hkept, rfl⟩ := List.mem_map.1 (Multiset.mem_coe.1 hp)
    obtain ⟨it, hit, rfl⟩ := List.mem_map.1 (Multiset.mem_coe.1 hq)
    exact hle kept hkept it hit

theorem mem (h : KeepsBest size beam exact) {it : Item} (hit : it ∈ beam) : it ∈ exact := by
  obtain ⟨lost, hperm, -⟩ := h.parts
  exact hperm.mem_iff.2 (List.mem_append_left _ hit)

/-- A full beam takes a new sign in and drops the least probable item: the new one, unless an old
    one is less probable. -/
theorem offer_of_full (hfull : beam.length = size)
    (habsent : ∀ it ∈ beam, it.entry.sign ≠ item.entry.sign)
    (hpos : Cell.Positive (beam ++ [item])) :
    ∃ x, (item :: beam).Perm (x :: (Cell.offer (.beam size) item beam).1) ∧
      (∀ it ∈ (Cell.offer (.beam size) item beam).1, x.probability ≤ it.probability) ∧
      ((Cell.offer (.beam size) item beam).1 = beam ∨
        x ∈ beam ∧ x.probability < item.probability) := by
  obtain ⟨before, x, after, hgrown, hworst, hb, ha⟩ := exists_worst (by simp) hpos
  have hoffer : (Cell.offer (.beam size) item beam).1 = before ++ after := by
    simp only [Cell.offer, insert_of_absent habsent]
    rw [if_neg (by rw [List.length_append, List.length_singleton]; omega), hworst, hgrown]
    exact eraseIdx_middle before x after
  rw [hoffer]
  refine ⟨x, ?_, ?_, ?_⟩
  · calc (item :: beam).Perm (beam ++ [item]) := (List.perm_append_singleton item beam).symm
      _ = before ++ x :: after := hgrown
      List.Perm _ (x :: (before ++ after)) := List.perm_middle
  · intro it hit
    rw [hgrown] at hpos
    rcases List.mem_append.1 hit with hit | hit
    · exact hb it hit
    · exact le_of_lt_of_pos (hpos x (by simp)) (hpos it (by simp [hit])) (ha it hit)
  · rcases new_or_mem_of_append_eq hgrown with ⟨rfl, -, rfl⟩ | ⟨hx, hitem⟩
    · exact .inl (List.append_nil _)
    · exact .inr ⟨hx, ha item hitem⟩

/-- What a full beam drops for a new sign joins what was lost before. -/
theorem of_full (hfull : beam.length = size)
    (habsent : ∀ it ∈ beam, it.entry.sign ≠ item.entry.sign)
    (hle : ∀ kept ∈ beam, ∀ it ∈ lost, it.probability ≤ kept.probability)
    (hexact : exact.Perm (item :: (beam ++ lost))) (hpos : exact.Positive) :
    KeepsBest size (Cell.offer (.beam size) item beam).1 exact := by
  have hposAll : ∀ it ∈ item :: (beam ++ lost), 0 < it.probability :=
    fun it hit => hpos it (hexact.mem_iff.2 hit)
  have hposGrown : Cell.Positive (beam ++ [item]) :=
    fun it hit => hposAll it (by simp at hit ⊢; tauto)
  obtain ⟨x, hperm, hx, hcases⟩ := offer_of_full hfull habsent hposGrown
  have hlength : (Cell.offer (.beam size) item beam).1.length = size := by
    have h := hperm.length_eq
    rw [List.length_cons, List.length_cons] at h
    omega
  refine ⟨⟨x :: lost, ?_, ?_⟩, ?_⟩
  · calc exact.Perm (item :: (beam ++ lost)) := hexact
      _ = (item :: beam) ++ lost := rfl
      List.Perm _ (x :: (Cell.offer (.beam size) item beam).1 ++ lost) := hperm.append_right lost
      List.Perm _ ((Cell.offer (.beam size) item beam).1 ++ x :: lost) := List.perm_middle.symm
  · intro kept hkept it hit
    rcases List.mem_cons.1 hit with rfl | hit
    · exact hx kept hkept
    · rcases hcases with heq | ⟨hmem, -⟩
      · rw [heq] at hkept
        exact hle kept hkept it hit
      · -- The old item that goes lies between what was lost before and what stays.
        have hit' : 0 < it.probability := hposAll it (by simp [hit])
        exact le_trans_of_pos hit' (hle x hmem it hit) (hx kept hkept)
  · rw [hlength, hexact.length_eq, List.length_cons, List.length_append, hfull]
    omega

/-- A full beam is left as it is by a new sign that is no more probable than what it has. -/
theorem offer_eq_self (hfull : beam.length = size)
    (habsent : ∀ it ∈ beam, it.entry.sign ≠ item.entry.sign)
    (hpos : Cell.Positive (beam ++ [item]))
    (hle : ∀ kept ∈ beam, item.probability ≤ kept.probability) :
    (Cell.offer (.beam size) item beam).1 = beam := by
  obtain ⟨x, -, -, heq | ⟨hx, hlt⟩⟩ := offer_of_full hfull habsent hpos
  · exact heq
  · have hxpos : 0 < x.probability := hpos x (List.mem_append_left _ hx)
    have hitem : 0 < item.probability := hpos item (by simp)
    exact absurd hlt ((not_lt_of_pos hxpos hitem).2 (hle x hx))

/-! ## One offer -/

theorem distinct (h : KeepsBest size beam exact) (hdistinct : exact.Distinct) :
    beam.Distinct := by
  obtain ⟨lost, hperm, -⟩ := h.parts
  have hboth : Distinct (beam ++ lost) := List.Pairwise.perm hdistinct hperm fun hne => hne.symm
  exact (List.pairwise_append.1 hboth).1

/-- The sign is in the beam: the item competes for one place in both cells. -/
theorem offer_of_kept (h : KeepsBest size beam exact) (hdistinct : exact.Distinct)
    (hpos : exact.Positive) (hitem : 0 < item.probability) {old : Item} (hold : old ∈ beam)
    (hsign : old.entry.Equivalent item.entry) :
    KeepsBest size (Cell.offer (.beam size) item beam).1 (insert item exact).1 := by
  obtain ⟨lost, hperm, hle⟩ := h.parts
  obtain ⟨before, after, hsplit⟩ := List.append_of_mem hold
  have hrest : beam.Perm (old :: (before ++ after)) := by
    rw [hsplit]
    exact List.perm_middle
  have hbeam : (insert item beam).1.Perm (better old item :: (before ++ after)) :=
    insert_perm_of_mem (h.distinct hdistinct) hrest hsign
  have hexact : (insert item exact).1.Perm (better old item :: (before ++ after ++ lost)) :=
    insert_perm_of_mem hdistinct (hperm.trans (hrest.append_right lost)) hsign
  have hlength : (insert item beam).1.length = beam.length := by
    rw [hbeam.length_eq, hrest.length_eq, List.length_cons, List.length_cons]
  have hlength' : (insert item exact).1.length = exact.length := by
    rw [hexact.length_eq, hperm.length_eq, List.length_append, hrest.length_eq, List.length_cons,
      List.length_cons, List.length_append]
    omega
  have hmin := h.length
  rw [offer_of_fits (by omega)]
  refine ⟨⟨lost, ?_, ?_⟩, ?_⟩
  · exact hexact.trans (hbeam.symm.append_right lost)
  · intro kept hkept it hit
    rcases List.mem_cons.1 (hbeam.mem_iff.1 hkept) with rfl | hkept
    · have hit' : 0 < it.probability := hpos it (hperm.mem_iff.2 (List.mem_append_right _ hit))
      exact le_trans_of_pos hit' (hle old hold it hit) (le_better (hpos old (h.mem hold)) hitem)
    · exact hle kept (hrest.mem_iff.2 (List.mem_cons_of_mem _ hkept)) it hit
  · rw [hlength, hlength', hmin]

/-- The sign was dropped before: the item has to beat what the beam has. -/
theorem offer_of_lost (h : KeepsBest size beam exact) (hdistinct : exact.Distinct)
    (hpos : exact.Positive) (hitem : 0 < item.probability) {old : Item} (hold : old ∈ exact)
    (hnot : old ∉ beam) (hsign : old.entry.Equivalent item.entry) :
    KeepsBest size (Cell.offer (.beam size) item beam).1 (insert item exact).1 := by
  obtain ⟨lost, hperm, hle⟩ := h.parts
  have hlost : old ∈ lost := by
    rcases List.mem_append.1 (hperm.mem_iff.1 hold) with hmem | hmem
    · exact absurd hmem hnot
    · exact hmem
  obtain ⟨before, after, rfl⟩ := List.append_of_mem hlost
  -- Something has been dropped, so the beam is full.
  have hfull : beam.length = size := by
    have hmin := h.length
    rw [hperm.length_eq, List.length_append, List.length_append, List.length_cons] at hmin
    omega
  have hrest : exact.Perm (old :: (beam ++ (before ++ after))) := by
    calc exact.Perm (beam ++ (before ++ old :: after)) := hperm
      List.Perm _ (beam ++ old :: (before ++ after)) := List.perm_middle.append_left beam
      List.Perm _ (old :: (beam ++ (before ++ after))) := List.perm_middle
  have hdistinct' : Distinct (old :: (beam ++ (before ++ after))) :=
    List.Pairwise.perm hdistinct hrest fun hne => hne.symm
  have habsent : ∀ it ∈ beam, it.entry.sign ≠ item.entry.sign := by
    intro it hit
    have hne := (List.pairwise_cons.1 hdistinct').1 it (List.mem_append_left _ hit)
    rw [hsign] at hne
    exact hne.symm
  have hinsert : (insert item exact).1.Perm (better old item :: (beam ++ (before ++ after))) :=
    insert_perm_of_mem hdistinct hrest hsign
  by_cases hlt : old.probability < item.probability
  · -- The other cell takes the item too, in the place of the one that the beam had dropped.
    rw [better, if_pos hlt] at hinsert
    refine of_full hfull habsent ?_ hinsert ?_
    · intro kept hkept it hit
      refine hle kept hkept it ?_
      rcases List.mem_append.1 hit with hit | hit
      · exact List.mem_append_left _ hit
      · exact List.mem_append_right _ (List.mem_cons_of_mem _ hit)
    · intro it hit
      rcases mem_insert hit with rfl | hit
      · exact hitem
      · exact hpos it hit
  · -- Neither cell takes it: what the beam has is at least as probable as what it had dropped.
    rw [better, if_neg hlt] at hinsert
    have hbeat : ∀ kept ∈ beam, item.probability ≤ kept.probability := by
      intro kept hkept
      have hle' : item.probability ≤ old.probability :=
        (not_lt_of_pos (hpos old hold) hitem).1 hlt
      exact le_trans_of_pos hitem hle' (hle kept hkept old hlost)
    have hposBeam : Cell.Positive (beam ++ [item]) := by
      intro it hit
      rcases List.mem_append.1 hit with hit | hit
      · exact hpos it (h.mem hit)
      · rw [List.mem_singleton.1 hit]
        exact hitem
    rw [offer_eq_self hfull habsent hposBeam hbeat]
    exact h.perm (.refl _) (hrest.trans hinsert.symm)

/-- The sign is new to both cells. -/
theorem offer_of_new (h : KeepsBest size beam exact) (hpos : exact.Positive)
    (hitem : 0 < item.probability) (habsent : ∀ it ∈ exact, it.entry.sign ≠ item.entry.sign) :
    KeepsBest size (Cell.offer (.beam size) item beam).1 (insert item exact).1 := by
  obtain ⟨lost, hperm, hle⟩ := h.parts
  have habsent' : ∀ it ∈ beam, it.entry.sign ≠ item.entry.sign :=
    fun it hit => habsent it (h.mem hit)
  have hmin := h.length
  have hlength : exact.length = beam.length + lost.length := by
    rw [hperm.length_eq, List.length_append]
  have hgrown : (exact ++ [item]).Perm (item :: (beam ++ lost)) :=
    (List.perm_append_singleton item exact).trans (hperm.cons item)
  rw [insert_of_absent habsent]
  by_cases hfull : beam.length = size
  · refine of_full hfull habsent' hle hgrown ?_
    intro it hit
    rcases List.mem_append.1 hit with hit | hit
    · exact hpos it hit
    · rw [List.mem_singleton.1 hit]
      exact hitem
  · -- There is room, so nothing has been dropped, now or before.
    have hnone : lost = [] := List.length_eq_zero_iff.1 (by omega)
    have hfits : (insert item beam).1.length ≤ size := by
      rw [insert_of_absent habsent', List.length_append, List.length_singleton]
      omega
    rw [offer_of_fits hfits, insert_of_absent habsent']
    subst hnone
    rw [List.append_nil] at hperm
    refine ⟨⟨[], ?_, fun _ _ _ hit => nomatch hit⟩, ?_⟩
    · rw [List.append_nil]
      exact hperm.append_right [item]
    · rw [List.length_append, List.length_append, List.length_singleton]
      omega

end KeepsBest

/-- The beam of a cell with distinct signs and positive probabilities. -/
structure IsBeam (size : Nat) (beam exact : Cell) : Prop extends KeepsBest size beam exact where
  distinct : exact.Distinct
  positive : exact.Positive

theorem IsBeam.nil (size : Nat) : IsBeam size [] [] :=
  ⟨.nil size, List.Pairwise.nil, fun _ hit => nomatch hit⟩

theorem IsBeam.ranked {size : Nat} {beam exact : Cell} (h : IsBeam size beam exact) :
    IsBeam size beam.ranked exact.ranked where
  toKeepsBest := h.toKeepsBest.perm (ranked_perm beam).symm (ranked_perm exact).symm
  distinct := h.distinct.ranked
  positive it hit := h.positive it (mem_ranked.1 hit)

/-- A beam is still one after an offer to both cells. -/
theorem IsBeam.offer {size : Nat} {beam exact : Cell} (h : IsBeam size beam exact) {item : Item}
    (hitem : 0 < item.probability) :
    IsBeam size (Cell.offer (.beam size) item beam).1 (Cell.offer .exact item exact).1 := by
  refine ⟨?_, h.distinct.insert item, h.positive.offer .exact hitem⟩
  show KeepsBest size (Cell.offer (.beam size) item beam).1 (insert item exact).1
  -- The item meets its sign in the beam, among what the beam dropped, or nowhere.
  by_cases hmem : ∃ old ∈ exact, old.entry.Equivalent item.entry
  · obtain ⟨old, hold, hsign⟩ := hmem
    by_cases hkept : old ∈ beam
    · exact h.toKeepsBest.offer_of_kept h.distinct h.positive hitem hkept hsign
    · exact h.toKeepsBest.offer_of_lost h.distinct h.positive hitem hold hkept hsign
  · exact h.toKeepsBest.offer_of_new h.positive hitem fun it hit hsign => hmem ⟨it, hit, hsign⟩

end Cell

namespace Chart

/-! ## Calls on a chart -/

/-- What can be done to a cell of a chart. -/
inductive Change where
  | offer (item : Item)
  | rank
  | clear

/-- The cell of a span after a change. -/
def Change.result (chart : Chart) (span : Span) : Change → Cell
  | .offer item => chart.offerAll span (chart.cell span) [item]
  | .rank => (chart.cell span).ranked
  | .clear => []

/-- Changes the cell of a span. -/
def change (chart : Chart) (span : Span) : Change → Except OutsideSpan Chart
  | .offer item => (chart.offer item span).map Prod.fst
  | .rank => chart.rank span
  | .clear => chart.clear span

/-- Changes cells one after the other. -/
def run (chart : Chart) (calls : List (Span × Change)) : Except OutsideSpan Chart :=
  calls.foldlM (fun chart (span, c) => chart.change span c) chart

/-- A change within the chart succeeds and leaves the other cells as they are. -/
theorem change_eq {chart : Chart} (hwf : chart.WellFormed) {span : Span}
    (hspan : span.Within chart.length) (c : Change) :
    ∃ chart', chart.change span c = .ok chart' ∧ chart.SameFrame chart' ∧ chart'.WellFormed ∧
      chart'.cell span = c.result chart span ∧
      ∀ other, other ≠ span → chart'.cell other = chart.cell other := by
  have hset : ∀ cell, chart.SameFrame (chart.setCell span cell) ∧
      (chart.setCell span cell).WellFormed ∧ (chart.setCell span cell).cell span = cell ∧
      ∀ other, other ≠ span → (chart.setCell span cell).cell other = chart.cell other :=
    fun cell => ⟨sameFrame_setCell chart span cell, hwf.setCell span cell,
      cell_setCell_self hwf hspan, fun _ hne => cell_setCell_of_ne hne⟩
  have hcheck : chart.check span = .ok () := if_pos hspan
  cases c with
  | offer item =>
    by_cases hadm : chart.admits item span = true
    · refine ⟨chart.setCell span ((chart.cell span).offer chart.inference item).1, ?_, ?_⟩
      · rw [change, offer, if_pos hadm, hcheck]
        rfl
      · rw [Change.result, offerAll, List.foldl_cons, if_pos hadm]
        exact hset _
    · refine ⟨chart, ?_, SameFrame.refl chart, hwf, ?_, fun _ _ => rfl⟩
      · rw [change, offer, if_neg hadm]
        rfl
      · rw [Change.result, offerAll, List.foldl_cons, if_neg hadm]
        rfl
  | rank =>
    refine ⟨chart.setCell span (chart.cell span).ranked, ?_, hset _⟩
    rw [change, rank, hcheck]
    rfl
  | clear =>
    refine ⟨chart.setCell span [], ?_, hset _⟩
    rw [change, clear, hcheck]
    rfl

/-! ## A chart with a beam beside one without -/

/-- Two charts that differ in their way of inference, the cells of the first being beams of those
    of the second. -/
structure BeamOf (size : Nat) (beam exact : Chart) : Prop where
  wellFormed_beam : beam.WellFormed
  wellFormed_exact : exact.WellFormed
  length : beam.length = exact.length
  filter : beam.filter = exact.filter
  inference_beam : beam.inference = .beam size
  inference_exact : exact.inference = .exact
  isBeam : ∀ span, (beam.cell span).IsBeam size (exact.cell span)

theorem beamOf_empty (size length : Nat) (filter : Filter) :
    BeamOf size (empty length (.beam size) filter) (empty length .exact filter) where
  wellFormed_beam := wellFormed_empty _ _ _
  wellFormed_exact := wellFormed_empty _ _ _
  length := rfl
  filter := rfl
  inference_beam := rfl
  inference_exact := rfl
  isBeam span := by
    rw [cell_empty, cell_empty]
    exact .nil size

namespace BeamOf

variable {size : Nat} {beam exact : Chart} {span : Span}

theorem isBeam_result (h : BeamOf size beam exact) (span : Span) (c : Change) :
    (c.result beam span).IsBeam size (c.result exact span) := by
  cases c with
  | offer item =>
    have hadmits : beam.admits item span = exact.admits item span := by
      rw [admits, admits, h.filter]
    simp only [Change.result, offerAll, List.foldl_cons, List.foldl_nil, hadmits,
      h.inference_beam, h.inference_exact]
    split
    · rename_i hadm
      exact (h.isBeam span).offer (admits_iff.1 hadm).1
    · exact h.isBeam span
  | rank => exact (h.isBeam span).ranked
  | clear => exact .nil size

/-- One call on both charts. -/
theorem change (h : BeamOf size beam exact) (hspan : span.Within exact.length) (c : Change) :
    ∃ beam' exact', beam.change span c = .ok beam' ∧ exact.change span c = .ok exact' ∧
      exact'.length = exact.length ∧ BeamOf size beam' exact' := by
  obtain ⟨beam', hbeam, hframe, hwf, hself, hother⟩ :=
    change_eq h.wellFormed_beam (h.length ▸ hspan) c
  obtain ⟨exact', hexact, hframe', hwf', hself', hother'⟩ := change_eq h.wellFormed_exact hspan c
  refine ⟨beam', exact', hbeam, hexact, hframe'.length.symm, ⟨hwf, hwf', ?_, ?_, ?_, ?_, ?_⟩⟩
  · rw [← hframe.length, ← hframe'.length, h.length]
  · rw [← hframe.filter, ← hframe'.filter, h.filter]
  · rw [← hframe.inference, h.inference_beam]
  · rw [← hframe'.inference, h.inference_exact]
  · intro other
    by_cases hne : other = span
    · rw [hne, hself, hself']
      exact h.isBeam_result span c
    · rw [hother other hne, hother' other hne]
      exact h.isBeam other

/-- A run of calls on both charts. -/
theorem run (h : BeamOf size beam exact) {calls : List (Span × Change)}
    (hcalls : ∀ call ∈ calls, call.1.Within exact.length) :
    ∃ beam' exact', beam.run calls = .ok beam' ∧ exact.run calls = .ok exact' ∧
      BeamOf size beam' exact' := by
  induction calls generalizing beam exact with
  | nil => exact ⟨beam, exact, rfl, rfl, h⟩
  | cons call calls ih =>
    obtain ⟨span, c⟩ := call
    obtain ⟨beam₁, exact₁, hbeam, hexact, hlength, h₁⟩ := h.change (hcalls _ List.mem_cons_self) c
    have hrest : ∀ call ∈ calls, call.1.Within exact₁.length := by
      intro call hcall
      rw [hlength]
      exact hcalls call (List.mem_cons_of_mem _ hcall)
    obtain ⟨beam₂, exact₂, hbeam₂, hexact₂, h₂⟩ := ih h₁ hrest
    refine ⟨beam₂, exact₂, ?_, ?_, h₂⟩
    · rw [Chart.run, List.foldlM_cons]
      show beam.change span c >>= _ = _
      rw [hbeam]
      exact hbeam₂
    · rw [Chart.run, List.foldlM_cons]
      show exact.change span c >>= _ = _
      rw [hexact]
      exact hexact₂

end BeamOf

/-- After the same calls, each cell of a chart with a beam has the greatest probabilities of the
    cell without one, as many as there is room for, and each of its items is the only one with its
    sign in the cell without a beam. -/
theorem run_keepsBest (size length : Nat) (filter : Filter) (calls : List (Span × Change))
    (hcalls : ∀ call ∈ calls, call.1.Within length) :
    ∃ beam exact,
      (empty length (.beam size) filter).run calls = .ok beam ∧
      (empty length .exact filter).run calls = .ok exact ∧
      ∀ span,
        (beam.cell span).length = min size (exact.cell span).length ∧
        (∃ lost, (exact.cell span).probabilities = (beam.cell span).probabilities + lost ∧
          ∀ p ∈ (beam.cell span).probabilities, ∀ q ∈ lost, q ≤ p) ∧
        ∀ it ∈ beam.cell span,
          (exact.cell span).filter (fun other => other.entry.Equivalent it.entry) = [it] := by
  obtain ⟨beam, exact, hbeam, hexact, h⟩ := (beamOf_empty size length filter).run hcalls
  refine ⟨beam, exact, hbeam, hexact, fun span => ?_⟩
  have hspan := h.isBeam span
  refine ⟨hspan.length, hspan.toKeepsBest.exists_lost, fun it hit => ?_⟩
  exact hspan.distinct.filter_sign_eq (hspan.toKeepsBest.mem hit)

/-- An entry for a word with one meaning. -/
def sampleItem (meaning : String) (probability : Float) : Item :=
  let lexical : LexicalEntry := ⟨["block"], ⟨.atom "N" .unspecified 0, some ⟨[[meaning]], []⟩⟩⟩
  ⟨.terminal (.ofCombination (lexical.category.signAt 0) ⟨0, 0⟩) lexical ["block"], probability⟩

/-- A beam for two items drops `b` for `c`, and later drops `c` when `b` comes back. -/
def sampleCalls : List (Span × Change) :=
  [(⟨0, 0⟩, .offer (sampleItem "a" 0.3)), (⟨0, 0⟩, .offer (sampleItem "b" 0.1)),
    (⟨0, 0⟩, .offer (sampleItem "c" 0.2)), (⟨0, 0⟩, .rank),
    (⟨0, 0⟩, .offer (sampleItem "b" 0.25))]

theorem run_keepsBest_sample :
    (∀ call ∈ sampleCalls, call.1.Within 1) ∧
    ∃ beam exact,
      (empty 1 (.beam 2) Filter.none).run sampleCalls = .ok beam ∧
      (empty 1 .exact Filter.none).run sampleCalls = .ok exact ∧
      (beam.cell ⟨0, 0⟩).length = min 2 (exact.cell ⟨0, 0⟩).length ∧
      ∀ it ∈ beam.cell ⟨0, 0⟩,
        (exact.cell ⟨0, 0⟩).filter (fun other => other.entry.Equivalent it.entry) = [it] := by
  have hcalls : ∀ call ∈ sampleCalls, call.1.Within 1 := by
    intro call hcall
    simp only [sampleCalls, List.mem_cons, List.not_mem_nil, or_false] at hcall
    rcases hcall with rfl | rfl | rfl | rfl | rfl <;> decide
  obtain ⟨beam, exact, hbeam, hexact, h⟩ := run_keepsBest 2 1 Filter.none sampleCalls hcalls
  exact ⟨hcalls, beam, exact, hbeam, hexact, (h ⟨0, 0⟩).1, (h ⟨0, 0⟩).2.2⟩

end Chart

end Categorial
