/-
  Categorial.Proofs.Chart.Columns

  Cells as two columns.  A cell can be kept as a column of entries and a column of probabilities,
  with an entry and its probability at one place.  Each operation then works on places: a
  replacement writes both columns at one place, an eviction removes one place of both, and ranking
  permutes the places.  No operation brings the columns out of step: offering to the columns of a
  cell (`offer_columns`) and ranking them (`rank_columns`) gives the columns of the cell that the
  operation on items gives, and the same answer.

    * `placeOfWorst_columns` -- the search for the place that a full beam gives up.
    * `findIdx?_of_absent`, `findIdx?_of_present` -- the search for a sign.
-/

import Categorial.Proofs.Chart.Beam
import Categorial.Proofs.Sorting

namespace Categorial

/-- The entries of a cell and their probabilities, place by place. -/
structure Columns where
  entries : List Entry
  probabilities : List Float

namespace Columns

/-! ## Operations on places -/

/-- The place of the last of the least probabilities, found by going through all places. -/
def placeOfWorst (ps : List Float) : Nat :=
  ps.zipIdx.foldl (fun worst (p, i) => if p ≤ ps.getD worst 0 then i else worst) 0

/-- Writes an item at a new place. -/
def add (c : Columns) (item : Item) : Columns :=
  ⟨c.entries ++ [item.entry], c.probabilities ++ [item.probability]⟩

/-- Removes a place. -/
def remove (c : Columns) (i : Nat) : Columns := ⟨c.entries.eraseIdx i, c.probabilities.eraseIdx i⟩

/-- Writes an item at the place of its sign, if it is more probable, or else at a new place if there
    is none, for which a full beam gives up a place. Also says whether the item is there now. -/
def offer (inference : Inference) (item : Item) (c : Columns) : Columns × Bool :=
  match c.entries.findIdx? fun e => e.Equivalent item.entry with
  | some i =>
    if c.probabilities.getD i 0 < item.probability then
      (⟨c.entries.set i item.entry, c.probabilities.set i item.probability⟩, true)
    else (c, false)
  | none =>
    let grown := c.add item
    match inference with
    | .exact => (grown, true)
    | .beam size =>
      if grown.entries.length ≤ size then (grown, true)
      else
        let i := placeOfWorst grown.probabilities
        (grown.remove i, i ≠ (grown.remove i).entries.length)

/-- Puts the places in the order of descending probability; ties stay in their order. -/
def rank (c : Columns) : Columns :=
  let order := sortBy (fun i j => c.probabilities.getD j 0 ≤ c.probabilities.getD i 0)
    (List.range c.entries.length)
  ⟨order.filterMap (c.entries[·]?), order.filterMap (c.probabilities[·]?)⟩

end Columns

namespace Cell

/-- The two columns of a cell. -/
def columns (cell : Cell) : Columns := ⟨cell.map Item.entry, cell.map Item.probability⟩

variable {cell before after : Cell} {item old : Item}

/-! ## The place that is given up -/

theorem worst_lt_length (hne : cell ≠ []) (hpos : cell.Positive) : worst cell < cell.length := by
  obtain ⟨before, x, after, heq, hworst, -, -⟩ := exists_worst hne hpos
  rw [hworst, heq, List.length_append, List.length_cons]
  omega

/-- The loop over all places keeps the probability at the place that it has found so far. -/
theorem foldl_zipIdx_eq_worstFrom {ps : List Float} (cell : Cell) {i worst : Nat} {least : Float}
    (hworst : ps.getD worst 0 = least)
    (hps : ∀ k, ps.getD (i + k) 0 = (cell.map Item.probability).getD k 0 ∨ cell.length ≤ k) :
    ((cell.map Item.probability).zipIdx i).foldl
        (fun worst (p, i) => if p ≤ ps.getD worst 0 then i else worst) worst =
      worstFrom i worst least cell := by
  induction cell generalizing i worst least with
  | nil => rfl
  | cons x cell ih =>
    have hx : ps.getD i 0 = x.probability := by
      rcases hps 0 with h | h
      · simpa using h
      · rw [List.length_cons] at h
        omega
    have hrest : ∀ k, ps.getD (i + 1 + k) 0 = (cell.map Item.probability).getD k 0 ∨
        cell.length ≤ k := by
      intro k
      rcases hps (k + 1) with h | h
      · left
        rw [show i + 1 + k = i + (k + 1) by omega, h]
        rfl
      · right
        rw [List.length_cons] at h
        omega
    rw [List.map_cons, List.zipIdx_cons, List.foldl_cons, worstFrom]
    dsimp only
    rw [hworst]
    by_cases hle : x.probability ≤ least
    · rw [if_pos hle, if_pos hle]
      exact ih hx hrest
    · rw [if_neg hle, if_neg hle]
      exact ih hworst hrest

theorem placeOfWorst_columns (cell : Cell) :
    Columns.placeOfWorst cell.columns.probabilities = worst cell := by
  cases cell with
  | nil => rfl
  | cons x cell =>
    -- The first round compares the first probability with itself and stays where it is.
    show ((x.probability :: cell.map Item.probability).zipIdx).foldl _ 0 = worstFrom 1 0 _ cell
    rw [List.zipIdx_cons, List.foldl_cons]
    dsimp only
    rw [ite_self]
    refine foldl_zipIdx_eq_worstFrom cell rfl fun k => ?_
    left
    rw [Nat.add_comm 1 k]
    rfl

theorem add_columns (cell : Cell) (item : Item) :
    cell.columns.add item = columns (cell ++ [item]) := by
  simp [Columns.add, columns]

theorem remove_columns (cell : Cell) (i : Nat) :
    cell.columns.remove i = Cell.columns (cell.eraseIdx i) := by
  simp only [Columns.remove, columns, List.eraseIdx_map]

/-! ## The place of a sign -/

theorem findIdx?_of_absent (h : ∀ it ∈ cell, it.entry.sign ≠ item.entry.sign) :
    cell.columns.entries.findIdx? (fun e => e.Equivalent item.entry) = none := by
  rw [List.findIdx?_eq_none_iff]
  intro e he
  obtain ⟨it, hit, rfl⟩ := List.mem_map.1 he
  exact decide_eq_false (h it hit)

theorem findIdx?_of_present (hbefore : ∀ it ∈ before, it.entry.sign ≠ item.entry.sign)
    (hold : old.entry.Equivalent item.entry) :
    (columns (before ++ old :: after)).entries.findIdx? (fun e => e.Equivalent item.entry) =
      some before.length := by
  have hnone := findIdx?_of_absent hbefore
  show (List.map Item.entry (before ++ old :: after)).findIdx? _ = _
  rw [List.map_append, List.findIdx?_append]
  show ((columns before).entries.findIdx? _).or _ = _
  rw [hnone, List.map_cons, List.findIdx?_cons]
  simp [hold]

/-! ## Offers -/

/-- A sign that is in a cell stands there behind items with other signs. -/
theorem exists_first (h : ∃ it ∈ cell, it.entry.sign = item.entry.sign) :
    ∃ before old after, cell = before ++ old :: after ∧ old.entry.Equivalent item.entry ∧
      ∀ it ∈ before, it.entry.sign ≠ item.entry.sign := by
  induction cell with
  | nil =>
    obtain ⟨it, hit, -⟩ := h
    cases hit
  | cons other cell ih =>
    by_cases hother : other.entry.Equivalent item.entry
    · exact ⟨[], other, cell, rfl, hother, fun _ hit => nomatch hit⟩
    · obtain ⟨it, hit, hsign⟩ := h
      rcases List.mem_cons.1 hit with rfl | hit
      · exact absurd hsign hother
      · obtain ⟨before, old, after, rfl, hold, hbefore⟩ := ih ⟨it, hit, hsign⟩
        refine ⟨other :: before, old, after, rfl, hold, fun it hit => ?_⟩
        rcases List.mem_cons.1 hit with rfl | hit
        · exact hother
        · exact hbefore it hit

/-- Where the sign is in the cell, a beam has nothing to drop. -/
theorem offer_of_present {inference : Inference}
    (hfits : ∀ size, inference = .beam size → (before ++ old :: after).length ≤ size)
    (hbefore : ∀ it ∈ before, it.entry.sign ≠ item.entry.sign)
    (hold : old.entry.Equivalent item.entry) :
    offer inference item (before ++ old :: after) =
      (before ++ better old item :: after, decide (old.probability < item.probability)) := by
  have hlength : (before ++ better old item :: after).length = (before ++ old :: after).length := by
    rw [List.length_append, List.length_append, List.length_cons, List.length_cons]
  unfold offer
  rw [insert_eq_of_present hbefore hold]
  cases inference with
  | exact => rfl
  | beam size =>
    dsimp only
    rw [if_pos (by rw [hlength]; exact hfits size rfl)]

/-- Offering to the columns of a cell is offering to the cell. -/
theorem offer_columns {inference : Inference} (hpos : cell.Positive) (hitem : 0 < item.probability)
    (hfits : ∀ size, inference = .beam size → cell.length ≤ size) :
    cell.columns.offer inference item =
      (columns (cell.offer inference item).1, (cell.offer inference item).2) := by
  by_cases hsign : ∃ it ∈ cell, it.entry.sign = item.entry.sign
  · obtain ⟨before, old, after, rfl, hold, hbefore⟩ := exists_first hsign
    have hplace : (columns (before ++ old :: after)).probabilities.getD before.length 0 =
        old.probability := by
      simp [columns]
    rw [offer_of_present hfits hbefore hold, Columns.offer, findIdx?_of_present hbefore hold]
    dsimp only
    rw [hplace, better]
    by_cases hlt : old.probability < item.probability
    · rw [if_pos hlt, if_pos hlt, decide_eq_true hlt]
      simp [columns]
    · rw [if_neg hlt, if_neg hlt, decide_eq_false hlt]
  · have habsent : ∀ it ∈ cell, it.entry.sign ≠ item.entry.sign :=
      fun it hit heq => hsign ⟨it, hit, heq⟩
    rw [Columns.offer, findIdx?_of_absent habsent, offer, insert_eq_of_absent habsent]
    dsimp only
    rw [add_columns]
    cases inference with
    | exact => rfl
    | beam size =>
      have hlength : (columns (cell ++ [item])).entries.length = (cell ++ [item]).length :=
        List.length_map _
      dsimp only
      rw [hlength]
      split
      · rfl
      · -- The place that is given up is the last one just if the rest has as many places as stand
        -- before it.
        have hlt : worst (cell ++ [item]) < (cell ++ [item]).length := by
          refine worst_lt_length (by simp) fun it hit => ?_
          rcases List.mem_append.1 hit with hit | hit
          · exact hpos it hit
          · rw [List.mem_singleton.1 hit]
            exact hitem
        have hrest : (columns ((cell ++ [item]).eraseIdx (worst (cell ++ [item])))).entries.length =
            (cell ++ [item]).length - 1 := by
          rw [columns, List.length_map, List.length_eraseIdx_of_lt hlt]
        rw [placeOfWorst_columns, remove_columns, hrest]
        refine congrArg (Prod.mk _) (decide_eq_decide.2 ?_)
        omega

/-! ## Ranking -/

/-- Ranking the columns of a cell is ranking the cell. -/
theorem rank_columns (cell : Cell) : cell.columns.rank = columns cell.ranked := by
  by_cases hne : cell = []
  · rw [hne]
    rfl
  · obtain ⟨filler, -⟩ := List.exists_mem_of_ne_nil cell hne
    -- The cell is what stands at its places, and sorting it is sorting the places.
    let itemAt (i : Nat) : Item :=
      ⟨(cell.getD i filler).entry, cell.columns.probabilities.getD i 0⟩
    let order := sortBy (fun i j => (itemAt j).probability ≤ (itemAt i).probability)
      (List.range cell.length)
    have hitem : ∀ i (h : i < cell.length), itemAt i = cell[i] := by
      intro i h
      simp [itemAt, columns, h]
    have hcells : (List.range cell.length).map itemAt = cell := by
      refine List.ext_getElem (by simp) fun i _ hi => ?_
      rw [List.getElem_map, List.getElem_range, hitem i hi]
    have hranked : cell.ranked = order.map itemAt := by
      calc cell.ranked = Cell.ranked ((List.range cell.length).map itemAt) := by rw [hcells]
        _ = order.map itemAt := sortBy_map _ itemAt _
    have hcolumn : ∀ {β : Type} (f : Item → β),
        order.filterMap ((cell.map f)[·]?) = (order.map itemAt).map f := by
      intro β f
      rw [List.map_map, ← List.filterMap_eq_map (f := f ∘ itemAt)]
      refine List.filterMap_congr fun i hi => ?_
      have hlt : i < cell.length := List.mem_range.1 ((sortBy_perm _ _).mem_iff.1 hi)
      simp [hitem i hlt, hlt]
    have hlength : cell.columns.entries.length = cell.length := List.length_map _
    rw [hranked, Columns.rank, hlength]
    show Columns.mk (order.filterMap _) (order.filterMap _) = _
    rw [columns, columns, hcolumn, hcolumn]

end Cell

end Categorial
