/-
  Categorial.Proofs.Chart.Runs

  What runs of calls leave in the cells of a chart.  Whatever was offered, ranked and cleared, a
  cell has no sign twice, only positive probabilities, only entries that the filter accepts, and no
  more than a beam has room for (`Orderly`).  An offer says truly whether the item is in the cell
  now, which follows from a list of all that an offer can do (`Outcome`).  Without a beam and with
  offers only, a cell is a record of them: each sign once, in the order in which the signs came
  first, with the earliest of its most probable items (`Records`).

    * `outcome_offer`, `Outcome.kept_iff` -- one offer.
    * `Orderly.result`, `exists_run` -- one call, and a run of calls.
    * `Records.offer`, `records_run` -- one offer, and a run of offers.
    * `cells_after_run` -- all of it together.
-/

import Categorial.Proofs.Category.Numbering
import Categorial.Proofs.Chart.Columns

namespace Categorial

open Probability

namespace Cell

/-! ## One offer -/

/-- What an offer can do to a cell, and what it says. -/
inductive Outcome (inference : Inference) (item : Item) : (old new : Cell) → (kept : Bool) → Prop
  /-- The item takes the place of a less probable one with its sign. -/
  | replaces {before after : Cell} {old : Item} (hsign : old.entry.Equivalent item.entry)
      (hlt : old.probability < item.probability) :
      Outcome inference item (before ++ old :: after) (before ++ item :: after) true
  /-- One with its sign is no less probable. -/
  | beaten {cell : Cell} {old : Item} (hold : old ∈ cell) (hsign : old.entry.Equivalent item.entry)
      (hle : ¬ old.probability < item.probability) :
      Outcome inference item cell cell false
  /-- The item has a new sign, and there is room for it. -/
  | joins {cell : Cell} (habsent : ∀ it ∈ cell, it.entry.sign ≠ item.entry.sign)
      (hroom : ∀ size, inference = .beam size → cell.length < size) :
      Outcome inference item cell (cell ++ [item]) true
  /-- The item has a new sign, and the last item of least probability makes room for it. -/
  | displaces {before after : Cell} {worst : Item}
      (habsent : ∀ it ∈ before ++ worst :: after, it.entry.sign ≠ item.entry.sign)
      (hbefore : ∀ it ∈ before, worst.probability ≤ it.probability)
      (hafter : ∀ it ∈ after, worst.probability < it.probability)
      (hlt : worst.probability < item.probability) :
      Outcome inference item (before ++ worst :: after) (before ++ after ++ [item]) true
  /-- The item has a new sign, and there is no room for it. -/
  | refused {cell : Cell} (habsent : ∀ it ∈ cell, it.entry.sign ≠ item.entry.sign)
      (hle : ∀ it ∈ cell, item.probability ≤ it.probability) :
      Outcome inference item cell cell false

variable {cell : Cell} {item : Item} {inference : Inference}

theorem Positive.append_singleton (h : cell.Positive) (hitem : 0 < item.probability) :
    Positive (cell ++ [item]) := by
  intro it hit
  rcases List.mem_append.1 hit with hit | hit
  · exact h it hit
  · rw [List.mem_singleton.1 hit]
    exact hitem

/-- A new sign meets a full beam: the new item is the last one, so that it goes only if all the
    others are at least as probable. -/
theorem outcome_offer_of_full {size : Nat} (hpos : cell.Positive) (hitem : 0 < item.probability)
    (habsent : ∀ it ∈ cell, it.entry.sign ≠ item.entry.sign)
    (hfull : ¬ (cell ++ [item]).length ≤ size) :
    Outcome (.beam size) item cell (offer (.beam size) item cell).1
      (offer (.beam size) item cell).2 := by
  obtain ⟨before, x, after, hgrown, hworst, hbefore, hafter⟩ :=
    exists_worst (by simp) (hpos.append_singleton hitem)
  have hoffer : offer (.beam size) item cell =
      (before ++ after, decide (before.length + 1 ≠ (before ++ x :: after).length)) := by
    rw [offer, insert_eq_of_absent habsent]
    dsimp only
    rw [if_neg hfull, hworst, hgrown, eraseIdx_middle]
  rw [hoffer]
  rcases List.eq_nil_or_concat' after with rfl | ⟨after, last, rfl⟩
  · -- The item that goes is the last one, which is the new one.
    obtain ⟨rfl, hx⟩ := List.append_inj' hgrown rfl
    obtain rfl : item = x := List.singleton_inj.1 hx
    simp only [List.append_nil, List.length_append, List.length_singleton, ne_eq, not_true_eq_false,
      decide_false]
    exact .refused habsent hbefore
  · have hsplit : cell ++ [item] = (before ++ x :: after) ++ [last] := by
      rw [hgrown, List.append_assoc]
      rfl
    obtain ⟨rfl, hlast⟩ := List.append_inj' hsplit rfl
    obtain rfl : item = last := List.singleton_inj.1 hlast
    have hkept : before.length + 1 ≠ (before ++ x :: (after ++ [item])).length := by
      simp only [List.length_append, List.length_cons]
      omega
    rw [decide_eq_true hkept, ← List.append_assoc]
    refine .displaces habsent hbefore (fun it hit => ?_) (hafter item (by simp))
    exact hafter it (List.mem_append_left _ hit)

theorem outcome_offer (hpos : cell.Positive) (hitem : 0 < item.probability)
    (hfits : ∀ size, inference = .beam size → cell.length ≤ size) :
    Outcome inference item cell (offer inference item cell).1 (offer inference item cell).2 := by
  by_cases hsign : ∃ it ∈ cell, it.entry.sign = item.entry.sign
  · obtain ⟨before, old, after, rfl, hold, hbefore⟩ := exists_first hsign
    rw [offer_of_present hfits hbefore hold, better]
    by_cases hlt : old.probability < item.probability
    · rw [if_pos hlt, decide_eq_true hlt]
      exact .replaces hold hlt
    · rw [if_neg hlt, decide_eq_false hlt]
      exact .beaten (List.mem_append_right _ List.mem_cons_self) hold hlt
  · have habsent : ∀ it ∈ cell, it.entry.sign ≠ item.entry.sign :=
      fun it hit heq => hsign ⟨it, hit, heq⟩
    cases inference with
    | exact =>
      rw [offer, insert_eq_of_absent habsent]
      exact .joins habsent fun _ heq => by cases heq
    | beam size =>
      by_cases hroom : (cell ++ [item]).length ≤ size
      · rw [offer, insert_eq_of_absent habsent]
        dsimp only
        rw [if_pos hroom]
        refine .joins habsent fun size' heq => ?_
        rw [List.length_append, List.length_singleton] at hroom
        cases heq
        omega
      · exact outcome_offer_of_full hpos hitem habsent hroom

/-- An offer says yes just if the item is in the cell now and was not there before: an equal item
    that was there is not the one that is offered. -/
theorem Outcome.kept_iff {new : Cell} {kept : Bool} (h : Outcome inference item cell new kept)
    (hdistinct : cell.Distinct) (hitem : 0 < item.probability) :
    kept = true ↔ item ∈ new ∧ item ∉ cell := by
  have hnot : ∀ {cell : Cell}, (∀ it ∈ cell, it.entry.sign ≠ item.entry.sign) → item ∉ cell :=
    fun habsent hmem => habsent item hmem rfl
  cases h with
  | @replaces before after old hsign hlt =>
    refine iff_of_true rfl ⟨by simp, fun hmem => ?_⟩
    -- The only item with this sign is less probable.
    have hold : item = old := by
      refine hdistinct.eq_of_sign_eq hmem (by simp) ?_
      exact hsign.symm
    rw [hold] at hlt hitem
    exact (not_lt_of_pos hitem hitem).2 (le_refl_of_pos hitem) hlt
  | beaten => exact iff_of_false Bool.false_ne_true fun h => h.2 h.1
  | joins habsent => exact iff_of_true rfl ⟨by simp, hnot habsent⟩
  | displaces habsent => exact iff_of_true rfl ⟨by simp, hnot habsent⟩
  | refused => exact iff_of_false Bool.false_ne_true fun h => h.2 h.1

/-- An offer never takes more room than there is. -/
theorem Outcome.length_le {new : Cell} {kept : Bool} (h : Outcome inference item cell new kept)
    {size : Nat} (hbeam : inference = .beam size) (hfits : cell.length ≤ size) :
    new.length ≤ size := by
  cases h with
  | replaces => simpa only [List.length_append, List.length_cons] using hfits
  | beaten => exact hfits
  | joins _ hroom =>
    have hlt := hroom size hbeam
    rw [List.length_append, List.length_singleton]
    omega
  | displaces =>
    simp only [List.length_append, List.length_cons, List.length_nil] at hfits ⊢
    omega
  | refused => exact hfits

/-! ## Runs of offers without a beam -/

/-- A cell records offers: it has each sign once, in the order in which the signs came first, and
    with each sign the earliest of the most probable items that were offered with it. -/
structure Records (cell : Cell) (offers : List Item) : Prop where
  signs : cell.map (·.entry.sign) = (offers.map (·.entry.sign)).eraseDups
  best : ∀ it ∈ cell, ∃ before after, offers = before ++ it :: after ∧
    (∀ other ∈ before, other.entry.Equivalent it.entry → other.probability < it.probability) ∧
    ∀ other ∈ after, other.entry.Equivalent it.entry → other.probability ≤ it.probability

namespace Records

variable {offers : List Item}

theorem nil : Records [] [] := ⟨rfl, fun _ hit => nomatch hit⟩

theorem distinct (h : cell.Records offers) : cell.Distinct := by
  have hnodup : (cell.map (·.entry.sign)).Nodup := by
    rw [h.signs]
    exact nodup_eraseDups _
  exact List.pairwise_map.1 hnodup

theorem mem_offers (h : cell.Records offers) {it : Item} (hit : it ∈ cell) : it ∈ offers := by
  obtain ⟨before, after, rfl, -, -⟩ := h.best it hit
  exact List.mem_append_right _ List.mem_cons_self

/-- What is recorded for a sign is at least as probable as all that was offered with it. -/
theorem le_of_mem (h : cell.Records offers) (hpos : Cell.Positive offers) {it other : Item}
    (hit : it ∈ cell) (hother : other ∈ offers) (hsign : other.entry.Equivalent it.entry) :
    other.probability ≤ it.probability := by
  have hit' := hpos it (h.mem_offers hit)
  obtain ⟨before, after, rfl, hbefore, hafter⟩ := h.best it hit
  rcases List.mem_append.1 hother with hmem | hmem
  · exact le_of_lt_of_pos (hpos other hother) hit' (hbefore other hmem hsign)
  · rcases List.mem_cons.1 hmem with rfl | hmem
    · exact le_refl_of_pos hit'
    · exact hafter other hmem hsign

/-- A sign has been offered just if it is recorded. -/
theorem sign_mem_iff (h : cell.Records offers) (sign : Sign) :
    (∃ it ∈ offers, it.entry.sign = sign) ↔ ∃ it ∈ cell, it.entry.sign = sign := by
  have hmem : sign ∈ offers.map (·.entry.sign) ↔ sign ∈ cell.map (·.entry.sign) := by
    rw [h.signs, List.mem_eraseDups]
  simpa only [List.mem_map] using hmem

/-- What is recorded stays the best of its sign when one more item is offered that is no more
    probable or has another sign. -/
theorem best_append (h : cell.Records offers) {it : Item} (hit : it ∈ cell)
    (hitem : item.entry.Equivalent it.entry → item.probability ≤ it.probability) :
    ∃ before after, offers ++ [item] = before ++ it :: after ∧
      (∀ other ∈ before, other.entry.Equivalent it.entry → other.probability < it.probability) ∧
      ∀ other ∈ after, other.entry.Equivalent it.entry → other.probability ≤ it.probability := by
  obtain ⟨before, after, rfl, hbefore, hafter⟩ := h.best it hit
  refine ⟨before, after ++ [item], by simp, hbefore, fun other hother => ?_⟩
  rcases List.mem_append.1 hother with hother | hother
  · exact hafter other hother
  · rw [List.mem_singleton.1 hother]
    exact hitem

theorem signs_append (h : cell.Records offers) (item : Item) :
    ((offers ++ [item]).map (·.entry.sign)).eraseDups =
      cell.map (·.entry.sign) ++
        if ∃ it ∈ cell, it.entry.sign = item.entry.sign then [] else [item.entry.sign] := by
  have hmem : item.entry.sign ∈ offers.map (·.entry.sign) ↔
      ∃ it ∈ cell, it.entry.sign = item.entry.sign := by
    rw [← h.sign_mem_iff]
    exact List.mem_map
  rw [List.map_append, List.map_singleton, eraseDups_append_singleton, h.signs]
  by_cases hknown : ∃ it ∈ cell, it.entry.sign = item.entry.sign
  · rw [if_pos (hmem.2 hknown), if_pos hknown, List.append_nil]
  · rw [if_neg (mt hmem.1 hknown), if_neg hknown]

theorem insert_of_absent (h : cell.Records offers)
    (habsent : ∀ it ∈ cell, it.entry.sign ≠ item.entry.sign) :
    (cell ++ [item]).Records (offers ++ [item]) := by
  have hnew : ¬ ∃ it ∈ cell, it.entry.sign = item.entry.sign :=
    fun ⟨it, hit, hsign⟩ => habsent it hit hsign
  refine ⟨?_, fun it hit => ?_⟩
  · rw [h.signs_append, if_neg hnew, List.map_append, List.map_singleton]
  · rcases List.mem_append.1 hit with hit | hit
    · exact h.best_append hit fun hsign => absurd hsign.symm (habsent it hit)
    · obtain rfl := List.mem_singleton.1 hit
      refine ⟨offers, [], rfl, fun other hother hsign => ?_, fun _ hother => nomatch hother⟩
      exact absurd ((h.sign_mem_iff _).1 ⟨other, hother, hsign⟩) hnew

theorem insert_of_present {before after : Cell} {old : Item}
    (h : (before ++ old :: after).Records offers) (hpos : Cell.Positive offers)
    (hitem : 0 < item.probability) (hold : old.entry.Equivalent item.entry) :
    (before ++ better old item :: after).Records (offers ++ [item]) := by
  have hmem : old ∈ before ++ old :: after := by simp
  have hknown : ∃ it ∈ before ++ old :: after, it.entry.sign = item.entry.sign :=
    ⟨old, hmem, hold⟩
  have holdpos := hpos old (h.mem_offers hmem)
  obtain ⟨-, hdistinct, hdistinct'⟩ := List.pairwise_append.1 h.distinct
  -- The items at the other places have other signs, so that the offer is nothing to them.
  have hothers : ∀ it ∈ before ++ old :: after, it.entry.sign ≠ old.entry.sign →
      item.entry.Equivalent it.entry → item.probability ≤ it.probability :=
    fun it _ hne hsign => absurd (hsign.symm.trans hold.symm) hne
  refine ⟨?_, fun it hit => ?_⟩
  · have hsame : (better old item).entry.sign = old.entry.sign := by
      unfold better
      split
      · exact hold.symm
      · rfl
    rw [h.signs_append, if_pos hknown, List.append_nil, List.map_append, List.map_append,
      List.map_cons, List.map_cons, hsame]
  · rcases List.mem_append.1 hit with hit | hit
    · have hit' : it ∈ before ++ old :: after := List.mem_append_left _ hit
      exact h.best_append hit' (hothers it hit' (hdistinct' it hit old List.mem_cons_self))
    · rcases List.mem_cons.1 hit with rfl | hit
      · unfold better
        split
        · -- The item beats the one that was recorded, and so all that were offered before.
          rename_i hlt
          refine ⟨offers, [], rfl, fun other hother hsign => ?_, fun _ hother => nomatch hother⟩
          have hle := h.le_of_mem hpos hmem hother (hsign.trans hold.symm)
          exact lt_of_le_of_lt_of_pos (hpos other hother) hitem hle hlt
        · rename_i hlt
          exact h.best_append hmem fun _ => (not_lt_of_pos holdpos hitem).1 hlt
      · have hit' : it ∈ before ++ old :: after :=
          List.mem_append_right _ (List.mem_cons_of_mem _ hit)
        have hne := (List.pairwise_cons.1 hdistinct).1 it hit
        exact h.best_append hit' (hothers it hit' hne.symm)

/-- One offer is recorded. -/
theorem offer (h : cell.Records offers) (hpos : Cell.Positive offers)
    (hitem : 0 < item.probability) :
    (Cell.offer .exact item cell).1.Records (offers ++ [item]) := by
  show (insert item cell).1.Records _
  by_cases hsign : ∃ it ∈ cell, it.entry.sign = item.entry.sign
  · obtain ⟨before, old, after, rfl, hold, hbefore⟩ := exists_first hsign
    rw [Cell.insert_of_present hbefore hold]
    exact h.insert_of_present hpos hitem hold
  · have habsent : ∀ it ∈ cell, it.entry.sign ≠ item.entry.sign :=
      fun it hit heq => hsign ⟨it, hit, heq⟩
    rw [Cell.insert_of_absent habsent]
    exact h.insert_of_absent habsent

end Records

end Cell

namespace Chart

variable {chart : Chart} {span : Span}

/-! ## Runs of calls -/

/-- What holds of the cell of a span, whatever has been done to it. -/
structure Orderly (chart : Chart) (span : Span) (cell : Cell) : Prop where
  distinct : cell.Distinct
  positive : cell.Positive
  accepted : ∀ it ∈ cell, chart.filter it.entry span = true
  fits : ∀ size, chart.inference = .beam size → cell.length ≤ size

theorem orderly_nil (chart : Chart) (span : Span) : chart.Orderly span [] :=
  ⟨List.Pairwise.nil, Cell.positive_nil, (fun _ hit => nomatch hit), fun _ _ => Nat.zero_le _⟩

namespace Orderly

variable {cell : Cell} {item : Item}

theorem outcome (h : chart.Orderly span cell) (hitem : 0 < item.probability) :
    cell.Outcome chart.inference item (cell.offer chart.inference item).1
      (cell.offer chart.inference item).2 :=
  Cell.outcome_offer h.positive hitem h.fits

theorem offer (h : chart.Orderly span cell) (hadm : chart.admits item span = true) :
    chart.Orderly span (cell.offer chart.inference item).1 := by
  obtain ⟨hitem, haccepted⟩ := admits_iff.1 hadm
  refine ⟨h.distinct.offer _ item, h.positive.offer _ hitem, fun it hit => ?_, fun size hbeam => ?_⟩
  · rcases Cell.mem_offer hit with rfl | hit
    · exact haccepted
    · exact h.accepted it hit
  · exact (h.outcome hitem).length_le hbeam (h.fits size hbeam)

theorem ranked (h : chart.Orderly span cell) : chart.Orderly span cell.ranked where
  distinct := h.distinct.ranked
  positive it hit := h.positive it (Cell.mem_ranked.1 hit)
  accepted it hit := h.accepted it (Cell.mem_ranked.1 hit)
  fits size hbeam := by
    rw [(Cell.ranked_perm cell).length_eq]
    exact h.fits size hbeam

/-- One call. -/
theorem result (h : chart.Orderly span (chart.cell span)) (c : Change) :
    chart.Orderly span (c.result chart span) := by
  cases c with
  | offer item =>
    show chart.Orderly span (if chart.admits item span then _ else _)
    split
    · rename_i hadm
      exact h.offer hadm
    · exact h
  | rank => exact h.ranked
  | clear => exact orderly_nil chart span

theorem congr {chart' : Chart} (hframe : chart.SameFrame chart') (h : chart.Orderly span cell) :
    chart'.Orderly span cell :=
  ⟨h.distinct, h.positive, hframe.filter ▸ h.accepted, hframe.inference ▸ h.fits⟩

end Orderly

theorem run_cons {next : Chart} {c : Change} {calls : List (Span × Change)}
    (h : chart.change span c = .ok next) : chart.run ((span, c) :: calls) = next.run calls := by
  rw [run, List.foldlM_cons]
  show chart.change span c >>= _ = _
  rw [h]
  rfl

/-- A run of calls succeeds and leaves orderly cells. -/
theorem exists_run {calls : List (Span × Change)} (hwf : chart.WellFormed)
    (hcells : ∀ span, chart.Orderly span (chart.cell span))
    (hcalls : ∀ call ∈ calls, call.1.Within chart.length) :
    ∃ chart', chart.run calls = .ok chart' ∧ chart.SameFrame chart' ∧ chart'.WellFormed ∧
      ∀ span, chart'.Orderly span (chart'.cell span) := by
  induction calls generalizing chart with
  | nil => exact ⟨chart, rfl, SameFrame.refl chart, hwf, hcells⟩
  | cons call calls ih =>
    obtain ⟨span, c⟩ := call
    obtain ⟨next, hchange, hframe, hwf', hself, hother⟩ :=
      change_eq hwf (hcalls _ List.mem_cons_self) c
    have hcells' : ∀ s, next.Orderly s (next.cell s) := by
      intro s
      by_cases hs : s = span
      · rw [hs, hself]
        exact ((hcells span).result c).congr hframe
      · rw [hother s hs]
        exact (hcells s).congr hframe
    have hrest : ∀ call ∈ calls, call.1.Within next.length := by
      intro call hcall
      rw [← hframe.length]
      exact hcalls call (List.mem_cons_of_mem _ hcall)
    obtain ⟨last, hrun, hframe', hlast⟩ := ih hwf' hcells' hrest
    exact ⟨last, (run_cons hchange).trans hrun, hframe.trans hframe', hlast⟩

/-! ## Runs of offers without a beam -/

/-- The items that are offered for a span and let in, in the order of the offers. -/
def letIn (chart : Chart) (span : Span) (offers : List (Span × Item)) : List Item :=
  (offers.filter fun (s, item) => s = span ∧ chart.admits item span).map Prod.snd

theorem letIn_cons (chart : Chart) (span : Span) (offer : Span × Item)
    (offers : List (Span × Item)) :
    chart.letIn span (offer :: offers) = chart.letIn span [offer] ++ chart.letIn span offers := by
  unfold letIn
  rw [← List.singleton_append, List.filter_append, List.map_append]

theorem letIn_congr {chart' : Chart} (h : chart.SameFrame chart') (span : Span)
    (offers : List (Span × Item)) : chart.letIn span offers = chart'.letIn span offers := by
  unfold letIn
  rw [admits_congr h]

theorem positive_letIn (chart : Chart) (span : Span) (offers : List (Span × Item)) :
    Cell.Positive (chart.letIn span offers) := by
  intro it hit
  obtain ⟨⟨s, item⟩, hmem, rfl⟩ := List.mem_map.1 hit
  have hadm := (of_decide_eq_true (List.mem_filter.1 hmem).2).2
  exact (admits_iff.1 hadm).1

/-- One offer, as the cell of a span sees it: most offers are for other spans. -/
theorem records_change {seen : List Item} {next : Chart} {s : Span} {item : Item}
    (hexact : chart.inference = .exact) (hcell : (chart.cell span).Records seen)
    (hpos : Cell.Positive seen)
    (hself : next.cell s = (Change.offer item).result chart s)
    (hother : ∀ other, other ≠ s → next.cell other = chart.cell other) :
    (next.cell span).Records (seen ++ chart.letIn span [(s, item)]) := by
  by_cases hs : s = span
  · subst hs
    rw [hself]
    show Cell.Records (if chart.admits item s then _ else _) _
    by_cases hadm : chart.admits item s = true
    · rw [if_pos hadm, hexact]
      simpa [letIn, hadm] using hcell.offer hpos (admits_iff.1 hadm).1
    · rw [if_neg hadm]
      simpa [letIn, hadm] using hcell
  · rw [hother span fun heq => hs heq.symm]
    simpa [letIn, hs] using hcell

/-- Without a beam, each cell records what has been let in for its span, before (`seen`) and in
    this run. -/
theorem records_run (seen : Span → List Item) {offers : List (Span × Item)} {chart' : Chart}
    (hwf : chart.WellFormed) (hexact : chart.inference = .exact)
    (hcells : ∀ span, (chart.cell span).Records (seen span))
    (hpos : ∀ span, Cell.Positive (seen span))
    (hoffers : ∀ offer ∈ offers, offer.1.Within chart.length)
    (hrun : chart.run (offers.map fun (span, item) => (span, .offer item)) = .ok chart')
    (span : Span) : (chart'.cell span).Records (seen span ++ chart.letIn span offers) := by
  induction offers generalizing chart seen with
  | nil =>
    cases hrun
    simpa [letIn] using hcells span
  | cons offer offers ih =>
    obtain ⟨s, item⟩ := offer
    obtain ⟨next, hchange, hframe, hwf', hself, hother⟩ :=
      change_eq hwf (hoffers _ List.mem_cons_self) (.offer item)
    have hcells' : ∀ span, (next.cell span).Records (seen span ++ chart.letIn span [(s, item)]) :=
      fun span => records_change hexact (hcells span) (hpos span) hself hother
    have hpos' : ∀ span, Cell.Positive (seen span ++ chart.letIn span [(s, item)]) := by
      intro span it hit
      rcases List.mem_append.1 hit with hit | hit
      · exact hpos span it hit
      · exact positive_letIn chart span _ it hit
    have hrest : ∀ offer ∈ offers, offer.1.Within next.length := by
      intro offer hoffer
      rw [← hframe.length]
      exact hoffers offer (List.mem_cons_of_mem _ hoffer)
    rw [List.map_cons, run_cons hchange] at hrun
    have hrecords := ih _ hwf' (hframe.inference ▸ hexact) hcells' hpos' hrest hrun
    rwa [← letIn_congr hframe, List.append_assoc, ← letIn_cons] at hrecords

/-! ## All that a run leaves -/

/-- An offer within the chart succeeds, and the cell and the answer are those of the cell. -/
theorem exists_offer (hwf : chart.WellFormed) (hspan : span.Within chart.length) (item : Item) :
    ∃ next kept, chart.offer item span = .ok (next, kept) ∧
      (next.cell span, kept) = if chart.admits item span
        then (chart.cell span).offer chart.inference item else (chart.cell span, false) := by
  have hcheck : chart.check span = .ok () := if_pos hspan
  unfold offer
  split
  · rw [hcheck]
    refine ⟨_, _, rfl, ?_⟩
    rw [cell_setCell_self hwf hspan]
    rfl
  · exact ⟨chart, false, rfl, rfl⟩

/-- After any calls within a chart, each cell has as many probabilities as entries, no two entries
    with one sign, only probabilities that are positive numbers, only entries that the filter
    accepts, and no more of them than a beam has room for. An offer then says yes just if the very
    item that is offered is in the cell, and ranking puts the items, each with its probability, in
    the order of descending probability, with ties in the order they had. Kept as two columns, the
    cell stays in step through both. Without a beam and after offers only, the cell records what was
    let in. -/
theorem cells_after_run (length : Nat) (inference : Inference) (filter : Filter)
    (calls : List (Span × Change)) (hcalls : ∀ call ∈ calls, call.1.Within length) :
    ∃ chart, (empty length inference filter).run calls = .ok chart ∧
      (∀ span,
        (chart.cell span).columns.entries.length =
          (chart.cell span).columns.probabilities.length ∧
        (chart.cell span).Pairwise (fun a b => ¬ a.entry.Equivalent b.entry) ∧
        (∀ it ∈ chart.cell span, 0 < it.probability ∧ it.probability.isNaN = false ∧
          filter it.entry span = true) ∧
        ∀ size, inference = .beam size → (chart.cell span).length ≤ size) ∧
      (∀ item span, span.Within length →
        ∃ next kept, chart.offer item span = .ok (next, kept) ∧
          (kept = true ↔ item ∈ next.cell span ∧ item ∉ chart.cell span) ∧
          ((next.cell span).columns, kept) = if chart.admits item span
            then (chart.cell span).columns.offer inference item
            else ((chart.cell span).columns, false)) ∧
      (∀ span, span.Within length →
        ∃ next, chart.rank span = .ok next ∧
          (next.cell span).Perm (chart.cell span) ∧
          (next.cell span).Pairwise (fun a b => b.probability ≤ a.probability) ∧
          (∀ p, (next.cell span).filter (fun it => it.probability = p) =
            (chart.cell span).filter fun it => it.probability = p) ∧
          (next.cell span).columns = (chart.cell span).columns.rank) ∧
      (inference = .exact → ∀ offers : List (Span × Item),
        calls = (offers.map fun (span, item) => (span, .offer item)) →
        ∀ span, (chart.cell span).Records ((empty length inference filter).letIn span offers)) := by
  have hwf := wellFormed_empty length inference filter
  have hempty : ∀ span, (empty length inference filter).Orderly span
      ((empty length inference filter).cell span) := by
    intro span
    rw [cell_empty]
    exact orderly_nil _ span
  obtain ⟨chart, hrun, hframe, hwf', hcells⟩ := exists_run hwf hempty hcalls
  have hlength : length = chart.length := hframe.length
  have hinference : inference = chart.inference := hframe.inference
  have hfilter : filter = chart.filter := hframe.filter
  subst hlength hinference hfilter
  refine ⟨chart, hrun, fun span => ?_, fun item span hspan => ?_, fun span hspan => ?_, ?_⟩
  · refine ⟨by simp [Cell.columns], (hcells span).distinct, fun it hit => ?_, (hcells span).fits⟩
    have hpos := (hcells span).positive it hit
    exact ⟨hpos, isNaN_of_pos hpos, (hcells span).accepted it hit⟩
  · obtain ⟨next, kept, hoffer, hcell⟩ := exists_offer hwf' hspan item
    refine ⟨next, kept, hoffer, ?_⟩
    by_cases hadm : chart.admits item span = true
    · have hitem := (admits_iff.1 hadm).1
      rw [if_pos hadm] at hcell ⊢
      obtain ⟨hcell, hkept⟩ := Prod.mk.inj hcell
      have houtcome := (hcells span).outcome hitem
      rw [hcell, hkept, Cell.offer_columns (hcells span).positive hitem (hcells span).fits]
      exact ⟨houtcome.kept_iff (hcells span).distinct hitem, rfl⟩
    · rw [if_neg hadm] at hcell ⊢
      obtain ⟨hcell, hkept⟩ := Prod.mk.inj hcell
      rw [hcell, hkept]
      exact ⟨iff_of_false Bool.false_ne_true fun h => h.2 h.1, rfl⟩
  · obtain ⟨next, hrank, -, -, hcell, -⟩ := change_eq hwf' hspan .rank
    refine ⟨next, hrank, ?_⟩
    rw [hcell]
    exact ⟨Cell.ranked_perm _, Cell.pairwise_ranked (hcells span).positive,
      Cell.filter_ranked (hcells span).positive, (Cell.rank_columns _).symm⟩
  · rintro hexact offers rfl span
    have hoffers : ∀ offer ∈ offers, offer.1.Within chart.length :=
      fun offer hoffer => hcalls _ (List.mem_map_of_mem hoffer)
    refine records_run (fun _ => []) hwf hexact (fun span => ?_)
      (fun _ => Cell.positive_nil) hoffers hrun span
    rw [cell_empty]
    exact .nil

/-- Two signs, each offered again: `b` with a greater probability and then with the same once more,
    and between them an item for no probability. -/
def sampleOffers : List (Span × Item) :=
  [(⟨0, 0⟩, sampleItem "b" 0.1), (⟨1, 1⟩, sampleItem "a" 0.4), (⟨0, 0⟩, sampleItem "a" 0.3),
    (⟨0, 0⟩, sampleItem "b" 0.2), (⟨0, 0⟩, sampleItem "c" 0), (⟨0, 0⟩, sampleItem "b" 0.2)]

theorem cells_after_run_sample :
    (∀ call ∈ sampleOffers.map fun (span, item) => (span, Change.offer item), call.1.Within 2) ∧
    ∃ chart,
      (empty 2 .exact Filter.none).run
        (sampleOffers.map fun (span, item) => (span, .offer item)) = .ok chart ∧
      (chart.cell ⟨0, 0⟩).Records
        [sampleItem "b" 0.1, sampleItem "a" 0.3, sampleItem "b" 0.2, sampleItem "b" 0.2] := by
  have hcalls : ∀ call ∈ sampleOffers.map fun (span, item) => (span, Change.offer item),
      call.1.Within 2 := by
    intro call hcall
    obtain ⟨offer, hoffer, rfl⟩ := List.mem_map.1 hcall
    simp only [sampleOffers, List.mem_cons, List.not_mem_nil, or_false] at hoffer
    rcases hoffer with rfl | rfl | rfl | rfl | rfl | rfl <;> decide
  obtain ⟨chart, hrun, -, -, -, hrecords⟩ := cells_after_run 2 .exact Filter.none _ hcalls
  refine ⟨hcalls, chart, hrun, ?_⟩
  have hletIn : (empty 2 .exact Filter.none).letIn ⟨0, 0⟩ sampleOffers =
      [sampleItem "b" 0.1, sampleItem "a" 0.3, sampleItem "b" 0.2, sampleItem "b" 0.2] := by
    rfl
  rw [← hletIn]
  exact hrecords rfl sampleOffers rfl ⟨0, 0⟩

end Chart

end Categorial
