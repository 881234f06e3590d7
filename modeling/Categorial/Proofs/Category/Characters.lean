/-
  Categorial.Proofs.Category.Characters

  The characters of categories in print.  Printing puts marks around the names of atoms and
  features, and nothing else (`mem_renderWith`), and the reader gives no name a character that the
  text does not have (`Derives.mem_of_mem_letters`).  So what a format around categories may use for
  its own delimiters is a question about names only.

  A text of the grammar has as many opening as closing brackets (`Derives.inBalance`).  A printed
  category that is cut off at a character which only names of features can have is no such text: it
  is cut inside a bracket (`count_takeWhile_render`).
-/

import Categorial.Proofs.Category.Printing

namespace Categorial

open Text Written

/-! ## Letters and marks -/

/-- The characters of the name of a feature. A variable has a number and no name. -/
def Feature.letters : Feature → List Char
  | .value name => name.toList
  | _ => []

/-- The characters that printing puts around names. -/
def isMark (c : Char) : Bool := c.isDigit || c ∈ ['(', ')', '/', '\\', '[', ']', '{', '}']

theorem isMark_of_isDigit {c : Char} (h : c.isDigit = true) : isMark c = true := by
  rw [isMark, h, Bool.true_or]

theorem not_isBlank_of_isMark {c : Char} (h : isMark c = true) : isBlank c = false := by
  rw [isMark, Bool.or_eq_true, decide_eq_true_eq] at h
  rcases h with h | h
  · exact not_isBlank_of_isDigit h
  · simp only [List.mem_cons, List.not_mem_nil, or_false] at h
    rcases h with rfl | rfl | rfl | rfl | rfl | rfl | rfl | rfl <;> decide

theorem isMark_of_mem_toString {n : Nat} {c : Char} (h : c ∈ (toString n).toList) :
    isMark c = true :=
  isMark_of_isDigit ((isDigits_toString (Nat.lt_succ_self n)).isDigit c h)

theorem isMark_of_mem_renderHead {v : Var} {c : Char} (h : c ∈ (renderHead v).toList) :
    isMark c = true := by
  rw [toList_renderHead, List.mem_cons, List.mem_append, List.mem_singleton] at h
  rcases h with rfl | h | rfl
  · decide
  · exact isMark_of_mem_toString h
  · decide

theorem Feature.mem_render {feature : Feature} {c : Char} (h : c ∈ feature.render.toList) :
    isMark c = true ∨ c ∈ feature.letters := by
  cases feature with
  | unspecified => cases h
  | value name =>
    simp only [render, String.toList_append, List.mem_append, String.reduceToList,
      List.mem_singleton] at h
    rcases h with (rfl | h) | rfl
    · exact .inl (by decide)
    · exact .inr h
    · exact .inl (by decide)
  | var n =>
    simp only [render, String.toList_append, List.mem_append, String.reduceToList,
      List.mem_singleton] at h
    rcases h with (rfl | h) | rfl
    · exact .inl (by decide)
    · exact .inl (isMark_of_mem_toString h)
    · exact .inl (by decide)

namespace Category

variable {α β : Type}

/-- The characters of the names of atoms and features in reading order. -/
def letters : Category α → List Char
  | .atom name feature _ => name.toList ++ feature.letters
  | .func _ r a _ => r.letters ++ a.letters

@[simp] theorem letters_map (f : α → β) (c : Category α) : (c.map f).letters = c.letters := by
  induction c with
  | atom => rfl
  | func d r a l ihr iha => rw [map, letters, letters, ihr, iha]

/-- A printed category has marks and the characters of its names. -/
theorem mem_renderWith {note : α → String} {c : Category α} {ch : Char}
    (hnote : ∀ l ∈ c.labels, ∀ ch ∈ (note l).toList, isMark ch = true)
    (h : ch ∈ (c.renderWith note).toList) : isMark ch = true ∨ ch ∈ c.letters := by
  induction c with
  | atom name feature l =>
    rw [renderWith, String.toList_append, String.toList_append, List.mem_append,
      List.mem_append] at h
    rcases h with (h | h) | h
    · exact .inr (List.mem_append_left _ h)
    · exact (Feature.mem_render h).imp_right (List.mem_append_right _)
    · exact .inl (hnote l List.mem_cons_self ch h)
  | func d r a l ihr iha =>
    have hr := ihr fun x hx => hnote x (List.mem_cons_of_mem _ (List.mem_append_left _ hx))
    have ha := iha fun x hx => hnote x (List.mem_cons_of_mem _ (List.mem_append_right _ hx))
    simp only [renderWith, String.toList_append, List.mem_append, String.reduceToList,
      List.mem_singleton] at h
    rcases h with ((((rfl | h) | h) | h) | rfl) | h
    · exact .inl (by decide)
    · exact (hr h).imp_right (List.mem_append_left _)
    · have hslash : ch = d.slash := by simpa using h
      rw [hslash]
      cases d <;> exact .inl (by decide)
    · exact (ha h).imp_right (List.mem_append_right _)
    · exact .inl (by decide)
    · exact .inl (hnote l List.mem_cons_self ch h)

/-- The letters of a category for which the grammar has a text are no blanks and no brackets. -/
theorem Legible.isFeatureLetter {c : Category α} (h : c.Legible) {ch : Char}
    (hch : ch ∈ c.letters) : IsFeatureLetter ch := by
  induction c with
  | atom name feature l =>
    rcases List.mem_append.1 hch with hch | hch
    · exact ((h.names name List.mem_cons_self).2 ch hch).toIsFeatureLetter
    · obtain ⟨fs, hfs⟩ := h.features feature List.mem_cons_self
      cases hfs with
      | absent => cases hch
      | present hne hname hfeature =>
        cases hfeature with
        | var => cases hch
        | value => exact hname ch (by simpa [Feature.letters] using hch)
  | func d r a l ihr iha =>
    obtain ⟨hr, ha⟩ := Legible.func_iff.1 h
    exact (List.mem_append.1 hch).elim (ihr hr) (iha ha)

theorem Legible.not_isBlank {c : Category α} (h : c.Legible) {ch : Char} (hch : ch ∈ c.letters) :
    isBlank ch = false :=
  (h.isFeatureLetter hch).not_isBlank

end Category

theorem Plain.mem_render {c : Plain} {ch : Char} (h : ch ∈ c.render.toList) :
    isMark ch = true ∨ ch ∈ c.letters :=
  Category.mem_renderWith (fun _ _ _ h => by simp at h) h

theorem Headed.mem_render {c : Headed} {ch : Char} (h : ch ∈ c.render.toList) :
    isMark ch = true ∨ ch ∈ c.letters :=
  Category.mem_renderWith (fun _ _ _ h => isMark_of_mem_renderHead h) h

namespace Written

theorem TakesHead.letters_eq {w w' : Written} {head : Option Var} (h : TakesHead head w w') :
    w'.letters = w.letters := by
  cases h <;> rfl

/-- The names of what is read consist of characters of the text. -/
theorem Derives.mem_of_mem_letters {n : Nonterminal} {cs : List Char} {w : Written}
    (h : Derives n cs w) {ch : Char} (hch : ch ∈ w.letters) : ch ∈ cs := by
  induction h with
  | @atom name fs hs feature head hne hname hfeature hhead =>
    rcases List.mem_append.1 hch with hch | hch
    · rw [String.toList_ofList] at hch
      exact List.mem_append_left _ hch
    · cases hfeature with
      | absent => cases hch
      | present hne hname h =>
        cases h with
        | var => cases hch
        | value =>
          rw [Feature.letters, String.toList_ofList] at hch
          simp [hch]
  | group hc hhead htakes ih =>
    rw [htakes.letters_eq] at hch
    exact List.mem_cons_of_mem _ (List.mem_append_left _ (ih hch))
  | single hc ih => exact ih hch
  | slash hl ht ihl iht =>
    rcases List.mem_append.1 hch with hch | hch
    · exact List.mem_append_left _ (ihl hch)
    · exact List.mem_append_right _ (List.mem_cons_of_mem _ (iht hch))

/-! ## Brackets -/

/-- As many opening as closing brackets. -/
def InBalance (cs : List Char) : Prop := cs.count '[' = cs.count ']'

theorem InBalance.append {cs cs' : List Char} (h : InBalance cs) (h' : InBalance cs') :
    InBalance (cs ++ cs') := by
  unfold InBalance at *
  rw [List.count_append, List.count_append, h, h']

theorem inBalance_of_forall {cs : List Char} (h : ∀ c ∈ cs, c ≠ '[' ∧ c ≠ ']') : InBalance cs := by
  unfold InBalance
  rw [List.count_eq_zero.2 fun hmem => (h _ hmem).1 rfl,
    List.count_eq_zero.2 fun hmem => (h _ hmem).2 rfl]

theorem ne_bracket_of_isBlank {c : Char} (h : isBlank c = true) : c ≠ '[' ∧ c ≠ ']' := by
  constructor
  · rintro rfl
    exact absurd h (by decide)
  · rintro rfl
    exact absurd h (by decide)

theorem IsFeature.inBalance {fs : List Char} {feature : Feature} (h : IsFeature fs feature) :
    InBalance fs := by
  cases h with
  | absent => rfl
  | @present name _ hne hname h =>
    have hbalanced : InBalance name := inBalance_of_forall fun c hc => (hname c hc).ne_bracket
    unfold InBalance at *
    simp [hbalanced]

theorem IsHead.inBalance {hs : List Char} {head : Option Var} (h : IsHead hs head) :
    InBalance hs := by
  cases h with
  | absent => rfl
  | present hbefore hds hafter =>
    have hopen : InBalance ['{'] := rfl
    have hclose : InBalance ['}'] := rfl
    have hbefore := inBalance_of_forall fun c hc => ne_bracket_of_isBlank (hbefore c hc)
    have hafter := inBalance_of_forall fun c hc => ne_bracket_of_isBlank (hafter c hc)
    have hdigits := inBalance_of_forall fun c hc =>
      (isFeatureLetter_of_isDigit (hds.isDigit c hc)).ne_bracket
    exact hopen.append (hbefore.append (hdigits.append (hafter.append hclose)))

theorem Derives.inBalance {n : Nonterminal} {cs : List Char} {w : Written} (h : Derives n cs w) :
    InBalance cs := by
  induction h with
  | atom hne hname hfeature hhead =>
    have hname := inBalance_of_forall fun c hc => (hname c hc).ne_bracket
    exact hname.append (hfeature.inBalance.append hhead.inBalance)
  | group hc hhead htakes ih =>
    have hopen : InBalance ['('] := rfl
    have hclose : InBalance [')'] := rfl
    exact hopen.append (ih.append (hclose.append hhead.inBalance))
  | single hc ih => exact ih
  | @slash ls ts l t d hl ht ihl iht =>
    have hslash : InBalance [d.slash] := by cases d <;> rfl
    exact ihl.append (hslash.append iht)

end Written

theorem takeWhile_append_of_exists {p : Char → Bool} {cs : List Char}
    (h : ∃ c ∈ cs, p c = false) (cs' : List Char) :
    (cs ++ cs').takeWhile p = cs.takeWhile p := by
  have hlength : (cs.takeWhile p).length ≠ cs.length := by
    intro heq
    obtain ⟨c, hc, hpc⟩ := h
    rw [← List.takeWhile_prefix p |>.eq_of_length heq] at hc
    rw [List.mem_takeWhile_imp hc] at hpc
    cases hpc
  rw [List.takeWhile_append, if_neg hlength]

theorem Plain.toList_render_func (d : Direction) (r a : Plain) (l : Unit) :
    (Plain.render (.func d r a l)).toList =
      '(' :: (r.render.toList ++ d.slash :: (a.render.toList ++ [')'])) := by
  simp [Plain.render, Category.renderWith]

theorem Plain.inBalance_render {c : Plain} (hc : c.Legible) : InBalance c.render.toList :=
  (derives_plain_render hc).inBalance

section Cut

variable {p : Char → Bool} (hmark : ∀ ch, isMark ch = true → p ch = true)

include hmark

theorem not_isMark_of_cut {ch : Char} (h : p ch = false) : ¬ isMark ch = true := by
  intro hch
  rw [hmark ch hch] at h
  cases h

theorem Feature.count_takeWhile_render {fs : List Char} {feature : Feature}
    (hfeature : IsFeature fs feature) (hcut : ∃ ch ∈ feature.render.toList, p ch = false) :
    (feature.render.toList.takeWhile p).count '[' =
      (feature.render.toList.takeWhile p).count ']' + 1 := by
  -- Marks do not cut, so the cut is at a letter of the name.
  obtain ⟨ch, hch, hpch⟩ := hcut
  have hletter : ch ∈ feature.letters :=
    (Feature.mem_render hch).resolve_left (not_isMark_of_cut hmark hpch)
  cases hfeature with
  | absent => cases hletter
  | @present name _ hne hname h =>
    cases h with
    | var => cases hletter
    | value =>
      rw [Feature.letters, String.toList_ofList] at hletter
      have htext : (Feature.value (String.ofList name)).render.toList = '[' :: (name ++ [']']) := by
        simp [Feature.render]
      have hbalanced : InBalance (name.takeWhile p) := inBalance_of_forall fun c hc =>
        (hname c (List.takeWhile_subset p hc)).ne_bracket
      rw [htext, List.takeWhile_cons_of_pos (hmark _ (by decide)),
        takeWhile_append_of_exists ⟨ch, hletter, hpch⟩, List.count_cons_self,
        List.count_cons_of_ne (by decide), hbalanced]

/-- A printed category is cut off inside a bracket, if marks and the characters of atoms do not cut
    it off but something does. -/
theorem Plain.count_takeWhile_render (hatom : ∀ ch, IsAtomLetter ch → p ch = true) {c : Plain}
    (hc : c.Legible) (hcut : ∃ ch ∈ c.render.toList, p ch = false) :
    (c.render.toList.takeWhile p).count '[' = (c.render.toList.takeWhile p).count ']' + 1 := by
  induction c with
  | atom name feature l =>
    obtain ⟨-, hname⟩ := hc.names name List.mem_cons_self
    obtain ⟨fs, hfs⟩ := hc.features feature List.mem_cons_self
    have htext : Plain.render (.atom name feature l) = name ++ feature.render :=
      String.append_empty
    rw [htext, String.toList_append] at hcut ⊢
    have hpass : ∀ ch ∈ name.toList, p ch = true := fun ch hch => hatom ch (hname ch hch)
    have hbalanced : InBalance name.toList := inBalance_of_forall fun ch hch =>
      (hname ch hch).ne_bracket
    obtain ⟨ch, hch, hpch⟩ := hcut
    have hfeature : ch ∈ feature.render.toList := (List.mem_append.1 hch).resolve_left fun h => by
      rw [hpass ch h] at hpch
      cases hpch
    have hcount := Feature.count_takeWhile_render hmark hfs ⟨ch, hfeature, hpch⟩
    rw [List.takeWhile_append_of_pos hpass, List.count_append, List.count_append, hcount,
      hbalanced, Nat.add_assoc]
  | func d r a l ihr iha =>
    obtain ⟨hr, ha⟩ := Category.Legible.func_iff.1 hc
    rw [Plain.toList_render_func] at hcut ⊢
    have hopen : p '(' = true := hmark _ (by decide)
    rw [List.takeWhile_cons_of_pos hopen, List.count_cons_of_ne (by decide),
      List.count_cons_of_ne (by decide)]
    by_cases hcutr : ∃ ch ∈ (Plain.render r).toList, p ch = false
    · rw [takeWhile_append_of_exists hcutr]
      exact ihr hr hcutr
    · -- The result is passed whole, with its brackets in balance, and so is the slash.
      have hpass : ∀ ch ∈ (Plain.render r).toList, p ch = true := by
        intro ch hch
        by_contra hpch
        exact hcutr ⟨ch, hch, by simpa using hpch⟩
      have hslash : isMark d.slash = true := by cases d <;> decide
      have hcuta : ∃ ch ∈ (Plain.render a).toList, p ch = false := by
        obtain ⟨ch, hch, hpch⟩ := hcut
        have hmarks := not_isMark_of_cut hmark hpch
        simp only [List.mem_cons, List.mem_append, List.not_mem_nil, or_false] at hch
        rcases hch with rfl | hch | rfl | hch | rfl
        · exact absurd (by decide) hmarks
        · exact absurd ⟨ch, hch, hpch⟩ hcutr
        · exact absurd hslash hmarks
        · exact ⟨ch, hch, hpch⟩
        · exact absurd (by decide) hmarks
      have hbalanced : _ = _ := Plain.inBalance_render hr
      rw [List.takeWhile_append_of_pos hpass, List.takeWhile_cons_of_pos (hmark _ hslash),
        takeWhile_append_of_exists hcuta, List.count_append, List.count_append,
        List.count_cons_of_ne (by cases d <;> decide),
        List.count_cons_of_ne (by cases d <;> decide), iha ha hcuta, hbalanced, Nat.add_assoc]

end Cut

end Categorial
