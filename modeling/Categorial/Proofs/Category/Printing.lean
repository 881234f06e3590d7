/-
  Categorial.Proofs.Category.Printing

  Printed categories are read back as what they are.  The text of a category is derived by the
  grammar: every function stands in parentheses, so that no slash has to associate, and the head
  after the parenthesis replaces the one that the result would give (`derives_renderWith`).  What
  could go wrong is an atom: its name and its feature must be such that the grammar has a text for
  them, which is so for all that the reader ever gives (`Producible.legible`).  A text of the
  grammar has no blanks at its ends, so the reader takes all of it (`Derives.trimmed`).

    * `isFeature_render` -- a feature is printed as one of the texts that are read as it.
    * `Derives.legible`, `Derives.head_lt` -- what the reader gives can be printed.
-/

import Categorial.Proofs.Category.Alignment
import Categorial.Proofs.Category.Canonical
import Categorial.Proofs.Category.Reading

namespace Categorial

open Text Written

/-! ## Names and features that can be read -/

namespace Category

variable {α β : Type}

/-- The names of the atoms in reading order. -/
def names : Category α → List String
  | .atom name _ _ => [name]
  | .func _ r a _ => r.names ++ a.names

@[simp] theorem names_map (f : α → β) (c : Category α) : (c.map f).names = c.names := by
  induction c with
  | atom => rfl
  | func d r a l ihr iha => rw [map, names, names, ihr, iha]

/-- The reader of categories gives every name and every feature of a category, for some text. -/
structure Producible (c : Category α) : Prop where
  names : ∀ name ∈ c.names, ∃ s p, Plain.parse s = .ok p ∧ name ∈ p.names
  features : ∀ feature ∈ c.features, ∃ s p, Plain.parse s = .ok p ∧ feature ∈ p.features

/-- The grammar has a text for every name and every feature of a category. -/
structure Legible (c : Category α) : Prop where
  names : ∀ name ∈ c.names, name.toList ≠ [] ∧ ∀ ch ∈ name.toList, IsAtomLetter ch
  features : ∀ feature ∈ c.features, ∃ fs, IsFeature fs feature

theorem Legible.func_iff {d : Direction} {r a : Category α} {l : α} :
    (Category.func d r a l).Legible ↔ r.Legible ∧ a.Legible := by
  constructor
  · intro h
    exact ⟨⟨fun x hx => h.names x (List.mem_append_left _ hx),
        fun x hx => h.features x (List.mem_append_left _ hx)⟩,
      ⟨fun x hx => h.names x (List.mem_append_right _ hx),
        fun x hx => h.features x (List.mem_append_right _ hx)⟩⟩
  · rintro ⟨hr, ha⟩
    exact ⟨fun x hx => (List.mem_append.1 hx).elim (hr.names x) (ha.names x),
      fun x hx => (List.mem_append.1 hx).elim (hr.features x) (ha.features x)⟩

theorem Legible.atom {name : String} {feature : Feature} {l : α} {fs : List Char}
    (hne : name.toList ≠ []) (hname : ∀ c ∈ name.toList, IsAtomLetter c)
    (hfeature : IsFeature fs feature) : (Category.atom name feature l).Legible where
  names := by
    intro x hx
    rw [List.mem_singleton.1 hx]
    exact ⟨hne, hname⟩
  features := by
    intro x hx
    rw [List.mem_singleton.1 hx]
    exact ⟨fs, hfeature⟩

theorem legible_plain_iff {c : Category α} : c.plain.Legible ↔ c.Legible := by
  unfold plain
  constructor
  · rintro ⟨hnames, hfeatures⟩
    exact ⟨names_map _ c ▸ hnames, features_map _ c ▸ hfeatures⟩
  · rintro ⟨hnames, hfeatures⟩
    exact ⟨(names_map _ c).symm ▸ hnames, (features_map _ c).symm ▸ hfeatures⟩

end Category

namespace Written

/-- Another head is no other name and no other feature. -/
theorem TakesHead.legible {w w' : Written} {head : Option Var} (htakes : TakesHead head w w')
    (h : w.Legible) : w'.Legible := by
  cases htakes with
  | absent => exact h
  | atom => exact ⟨h.names, h.features⟩
  | func => exact ⟨h.names, h.features⟩

theorem Derives.legible {n : Nonterminal} {cs : List Char} {w : Written} (h : Derives n cs w) :
    w.Legible := by
  induction h with
  | atom hne hname hfeature hhead =>
    refine .atom ?_ ?_ hfeature
    · rwa [String.toList_ofList]
    · rwa [String.toList_ofList]
  | group hc hhead htakes ih => exact htakes.legible ih
  | single hc ih => exact ih
  | slash hl ht ihl iht => exact Category.Legible.func_iff.2 ⟨ihl, iht⟩

theorem IsHead.lt {hs : List Char} {v : Var} (h : IsHead hs (some v)) : v < 2 ^ 64 := by
  cases h with
  | present hbefore hds hafter => exact hds.lt

theorem TakesHead.mem_labels {w w' : Written} {head : Option Var} {v : Var}
    (htakes : TakesHead head w w') (h : some v ∈ w'.labels) :
    head = some v ∨ some v ∈ w.labels := by
  cases htakes with
  | absent => exact .inr h
  | atom => exact .inl (List.mem_singleton.1 h).symm
  | func =>
    rcases List.mem_cons.1 h with h | h
    · exact .inl h.symm
    · exact .inr (List.mem_cons_of_mem _ h)

theorem Derives.head_lt {n : Nonterminal} {cs : List Char} {w : Written} (h : Derives n cs w)
    {v : Var} (hv : some v ∈ w.labels) : v < 2 ^ 64 := by
  induction h with
  | atom hne hname hfeature hhead =>
    cases List.mem_singleton.1 hv
    exact hhead.lt
  | group hc hhead htakes ih =>
    rcases htakes.mem_labels hv with rfl | hv
    · exact hhead.lt
    · exact ih hv
  | single hc ih => exact ih hv
  | slash hl ht ihl iht =>
    rcases List.mem_cons.1 hv with hv | hv
    · cases hv
    · exact (List.mem_append.1 hv).elim ihl iht

/-! ## Texts without blanks at their ends -/

theorem IsFeature.trimmed {fs : List Char} {feature : Feature} (h : IsFeature fs feature) :
    Trimmed fs := by
  cases h with
  | absent => exact .nil
  | present => exact .bracketed _ (by decide) (by decide)

theorem IsHead.trimmed {hs : List Char} {head : Option Var} (h : IsHead hs head) :
    Trimmed hs := by
  cases h with
  | absent => exact .nil
  | present =>
    rw [← List.append_assoc, ← List.append_assoc]
    exact .bracketed _ (by decide) (by decide)

theorem Derives.trimmed {n : Nonterminal} {cs : List Char} {w : Written} (h : Derives n cs w) :
    Trimmed cs := by
  induction h with
  | atom hne hname hfeature hhead =>
    have hname : Trimmed _ := .of_forall fun c hc => (hname c hc).not_isBlank
    exact hname.append (hfeature.trimmed.append hhead.trimmed)
  | @group cs hs c c' head hc hhead htakes ih =>
    have hgroup : Trimmed ('(' :: (cs ++ [')'])) := .bracketed _ (by decide) (by decide)
    simpa using hgroup.append hhead.trimmed
  | single hc ih => exact ih
  | @slash ls ts l t d hl ht ihl iht =>
    have hslash : Trimmed [d.slash] := by
      refine .of_forall fun c hc => ?_
      rw [List.mem_singleton.1 hc]
      cases d <;> decide
    exact ihl.append (hslash.append iht)

/-! ## Printing -/

theorem isFeatureLetter_of_isDigit {c : Char} (h : c.isDigit = true) : IsFeatureLetter c := by
  have hopen : c ≠ '[' := by
    rintro rfl
    exact absurd h (by decide)
  have hclose : c ≠ ']' := by
    rintro rfl
    exact absurd h (by decide)
  exact ⟨not_isBlank_of_isDigit h, hopen, hclose⟩

/-- A feature that has a text is printed as one: a variable as its number, whatever the numeral was
    that it was read from. -/
theorem isFeature_render {fs : List Char} {feature : Feature} (h : IsFeature fs feature) :
    IsFeature feature.render.toList feature := by
  cases h with
  | absent => exact .absent
  | @present name _ hne hname h =>
    cases h with
    | @var n h =>
      have hds : IsDigits (2 ^ 32) (toString n).toList n := isDigits_toString h.lt
      rw [Feature.render, String.toList_append, String.toList_append]
      exact .present hds.ne_nil (fun c hc => isFeatureLetter_of_isDigit (hds.isDigit c hc))
        (.var (.plain hds))
    | value h =>
      have htext : (Feature.value (String.ofList name)).render.toList = '[' :: (name ++ [']']) := by
        simp [Feature.render]
      rw [htext]
      exact .present hne hname (.value h)

theorem isHead_renderHead {v : Var} (h : v < 2 ^ 64) : IsHead (renderHead v).toList (some v) := by
  have hnone : ∀ c ∈ ([] : List Char), isBlank c = true := fun _ hc => nomatch hc
  rw [toList_renderHead]
  exact .present hnone (isDigits_toString h) hnone

theorem takesHead_func (d : Direction) (r a : Written) (head : Option Var) :
    TakesHead head (.func d r a none) (.func d r a head) := by
  cases head with
  | none => exact .absent
  | some v => exact .func

/-- The text of a category is derived as that category, with the heads that the labels are printed
    as. -/
theorem derives_renderWith {α : Type} {note : α → String} {head : α → Option Var}
    {c : Category α} (hc : c.Legible)
    (hnote : ∀ l ∈ c.labels, IsHead (note l).toList (head l)) :
    Derives .term (c.renderWith note).toList (c.map head) := by
  induction c with
  | atom name feature l =>
    obtain ⟨hne, hname⟩ := hc.names name List.mem_cons_self
    obtain ⟨fs, hfs⟩ := hc.features feature List.mem_cons_self
    have h := Derives.atom hne hname (isFeature_render hfs) (hnote l List.mem_cons_self)
    rw [String.ofList_toList] at h
    simpa [Category.renderWith, Category.map] using h
  | func d r a l ihr iha =>
    obtain ⟨hr, ha⟩ := Category.Legible.func_iff.1 hc
    have hresult := ihr hr fun x hx => hnote x (List.mem_cons_of_mem _ (List.mem_append_left _ hx))
    have hargument :=
      iha ha fun x hx => hnote x (List.mem_cons_of_mem _ (List.mem_append_right _ hx))
    -- Without the parentheses the function has no head; the one after them becomes its head.
    have hinner : Derives .category _ (.func d (r.map head) (a.map head) none) :=
      .slash (.single hresult) hargument
    have h := Derives.group hinner (hnote l List.mem_cons_self) (takesHead_func d _ _ _)
    simpa [Category.renderWith, Category.map] using h

theorem completes_map_some (c : Headed) : Completes (c.map some) c := by
  induction c with
  | atom => exact .atom
  | func d r a l ihr iha => exact .written ihr iha

/-! ## Reading what was printed -/

theorem headed_parse_render {c : Headed} (hc : c.Legible) (hheads : ∀ v ∈ c.labels, v < 2 ^ 64) :
    Headed.parse c.render = .ok c ∧ Plain.parse c.render = .ok c.plain := by
  have hderives : Derives .category (trim c.render.toList) (c.map some) := by
    have h : Derives .term c.render.toList (c.map some) :=
      derives_renderWith hc fun v hv => isHead_renderHead (hheads v hv)
    rw [h.trimmed.trim_eq]
    exact .single h
  exact ⟨headed_parse_iff.2 ⟨_, hderives, completes_map_some c⟩,
    plain_parse_iff.2 ⟨_, hderives, Category.map_map _ _ c⟩⟩

theorem derives_plain_render {p : Plain} (hp : p.Legible) :
    Derives .term p.render.toList (p.map fun _ => none) :=
  derives_renderWith hp fun _ _ => .absent

theorem plain_parse_render {p : Plain} (hp : p.Legible) : Plain.parse p.render = .ok p := by
  have hderives : Derives .category (trim p.render.toList) (p.map fun _ => none) := by
    rw [(derives_plain_render hp).trimmed.trim_eq]
    exact .single (derives_plain_render hp)
  exact plain_parse_iff.2 ⟨_, hderives, (Category.map_map _ _ p).trans p.map_id⟩

theorem legible_of_plain_parse {s : String} {p : Plain} (h : Plain.parse s = .ok p) :
    p.Legible := by
  obtain ⟨w, hw, rfl⟩ := plain_parse_iff.1 h
  exact Category.legible_plain_iff.2 hw.legible

theorem legible_of_headed_parse {s : String} {c : Headed} (h : Headed.parse s = .ok c) :
    c.Legible ∧ ∀ v ∈ c.labels, v < 2 ^ 64 := by
  obtain ⟨w, hw, hc⟩ := headed_parse_iff.1 h
  refine ⟨?_, fun v hv => hw.head_lt (hc.mem_labels hv)⟩
  rw [← Category.legible_plain_iff, hc.plain_eq, Category.legible_plain_iff]
  exact hw.legible

end Written

theorem Category.Producible.legible {α : Type} {c : Category α} (h : c.Producible) :
    c.Legible where
  names := by
    intro name hname
    obtain ⟨s, p, hparse, hmem⟩ := h.names name hname
    exact (legible_of_plain_parse hparse).names name hmem
  features := by
    intro feature hfeature
    obtain ⟨s, p, hparse, hmem⟩ := h.features feature hfeature
    exact (legible_of_plain_parse hparse).features feature hmem

/-- A printed category is read back as what it is, if its names and features are such as the reader
    gives and its heads are below their bound. The plain reader gives it without its heads. A
    category without heads is read back as well. In particular this goes for all that was read. -/
theorem parse_render :
    (∀ c : Headed, c.Producible → (∀ v ∈ c.labels, v < 2 ^ 64) →
      Headed.parse c.render = .ok c ∧ Plain.parse c.render = .ok c.plain) ∧
    (∀ p : Plain, p.Producible → Plain.parse p.render = .ok p) ∧
    (∀ s c, Headed.parse s = .ok c →
      Headed.parse c.render = .ok c ∧ Plain.parse c.render = .ok c.plain) ∧
    (∀ s p, Plain.parse s = .ok p → Plain.parse p.render = .ok p) := by
  refine ⟨fun c hc hheads => ?_, fun p hp => ?_, fun s c hc => ?_, fun s p hp => ?_⟩
  · exact headed_parse_render hc.legible hheads
  · exact plain_parse_render hp.legible
  · obtain ⟨hlegible, hheads⟩ := legible_of_headed_parse hc
    exact headed_parse_render hlegible hheads
  · exact plain_parse_render (legible_of_plain_parse hp)

/-- A feature that is full of the characters that end other parts, a variable as another feature,
    and the largest head. -/
def samplePrinted : Headed :=
  .func .forward (.atom "S" (.value "/(b){1}") 7) (.atom "N" (.var 2) 3) (2 ^ 64 - 1)

/-- The sample is read from a text other than the one that it is printed as: its variable has a
    sign there. -/
theorem parse_render_sample :
    let text := "(S[/(b){1}]{7}/N[+2]{3}){18446744073709551615}"
    Plain.parse text = .ok samplePrinted.plain ∧ samplePrinted.render ≠ text ∧
      Headed.parse samplePrinted.render = .ok samplePrinted ∧
      Plain.parse samplePrinted.render = .ok samplePrinted.plain := by
  intro text
  have hread : Plain.parse text = .ok samplePrinted.plain := by decide +kernel
  have hproducible : samplePrinted.Producible :=
    ⟨fun name hname => ⟨text, _, hread, hname⟩, fun feature hfeature => ⟨text, _, hread, hfeature⟩⟩
  exact ⟨hread, by decide +kernel, parse_render.1 samplePrinted hproducible (by decide)⟩

end Categorial
