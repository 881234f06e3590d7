/-
  Categorial.Proofs.Grammar.Parts

  The fields of printed grammar lines.  A line that lists fields without commas and quotes is split
  into these fields (`lineFields_listed`), since listing is one of the ways to write them.  A part
  that has been read is made of numbers in bounds and of words (`Part.legible_of_read`), and it is
  printed as a text that is read as the part again (`Part.read_render`).
-/

import Categorial.Grammar.Part
import Categorial.Proofs.Category.Characters
import Categorial.Proofs.Grammar.Fields

namespace Categorial

namespace Text

variable {cs rest : List Char}

/-! ## Fields -/

/-- A text that a field can have without quotes. -/
structure IsField (cs : List Char) : Prop where
  unquoted : ∀ c ∈ cs, c ∉ [',', '"']
  trimmed : Trimmed cs

/-- Fields in print: a comma and a blank before each but the first. -/
def listed (first : List Char) (fields : List (List Char)) : List Char :=
  first ++ fields.flatMap fun field => ',' :: ' ' :: field

theorem unquoted_of_isMark {c : Char} (h : isMark c = true) : c ∉ [',', '"'] :=
  unquoted_of_class (by decide) (by decide) h

theorem listed_eq (first : List Char) (fields : List (List Char)) :
    listed first fields = [','].intercalate (first :: fields.map (' ' :: ·)) := by
  induction fields generalizing first with
  | nil => rw [listed, List.flatMap_nil, List.append_nil, List.map_nil, List.intercalate_singleton]
  | cons field fields ih =>
    -- The blank after the comma goes to the next field, which heads the rest of the list.
    rw [List.map_cons, List.intercalate_cons_cons, ← ih, listed, listed, List.flatMap_cons]
    simp

/-- A field can be printed as it is, with blanks before it. -/
theorem IsField.writes (h : IsField cs) (blanks : List Char)
    (hblanks : ∀ c ∈ blanks, isBlank c = true) : Writes cs (blanks ++ cs) :=
  ⟨blanks, cs, [], hblanks, nofun, .bare h.unquoted, by rw [List.append_nil]⟩

end Text

open Text

/-- A line that lists fields is split into these fields. -/
theorem lineFields_listed {first : List Char} {fields : List (List Char)} (hfirst : IsField first)
    (hfields : ∀ field ∈ fields, IsField field) :
    lineFields (listed first fields) = .ok (first :: fields) := by
  rw [listed_eq]
  have htrimmed : ∀ field ∈ first :: fields, Trimmed field :=
    List.forall_mem_cons.2 ⟨hfirst.trimmed, fun field hfield => (hfields field hfield).trimmed⟩
  refine lineFields_joined (List.cons_ne_nil _ _) htrimmed (.cons (hfirst.writes [] nofun) ?_)
  rw [List.forall₂_map_right_iff, List.forall₂_same]
  exact fun field hfield => (hfields field hfield).writes [' '] (List.forall_mem_singleton.2 rfl)

/-! ## Parts -/

/-- The characters of the name of a predicate. -/
def Subject.letters : Subject → List Char
  | .predicate name => name.toList
  | .var _ => []

namespace Part

/-- A statement of semantics in print. -/
def render : Part → String
  | .naming v name => toString v ++ " " ++ name
  | .dependency d => d.render

/-- The characters of its name. -/
def letters : Part → List Char
  | .naming _ name => name.toList
  | .dependency d => d.subject.letters

end Part

/-- A variable in bounds, or a word that is no variable in braces. -/
def Subject.Legible : Subject → Prop
  | .predicate name => IsWord name.toList ∧ name.toList.head? ≠ some '{'
  | .var v => v < 2 ^ 64

structure LexicalDependency.Legible (d : LexicalDependency) : Prop where
  subject : d.subject.Legible
  argument : d.argument < 2 ^ 64
  object : d.object < 2 ^ 64

namespace Part

/-- The numbers of a part are in bounds, and its name is a word. -/
def Legible : Part → Prop
  | .naming v name => v < 2 ^ 64 ∧ IsWord name.toList
  | .dependency d => d.Legible

/-! ### What is read -/

theorem lt_of_readVariable {cs : List Char} {v : Var} (h : readVariable cs = .ok v) :
    v < 2 ^ 64 := by
  unfold readVariable at h
  split at h
  · rename_i hread
    cases h
    exact readNumeral_lt hread
  · cases h

theorem legible_of_readSubject {cs : List Char} {s : Subject} (hcs : IsWord cs)
    (h : readSubject cs = .ok s) : s.Legible := by
  unfold readSubject at h
  split at h
  · obtain ⟨v, hread, rfl⟩ := map_eq_ok_iff.1 h
    exact lt_of_readVariable hread
  · rename_i hhead
    cases h
    rw [Subject.Legible, String.toList_ofList]
    exact ⟨hcs, hhead⟩

theorem legible_of_readDependency {part subject argument object : List Char}
    {d : LexicalDependency} (hsubject : IsWord subject)
    (h : readDependency part subject argument object = .ok d) : d.Legible := by
  obtain ⟨s, hs, h⟩ := bind_eq_ok_iff.1 h
  split at h
  · cases h
  · rename_i hargument
    obtain ⟨v, hv, h⟩ := bind_eq_ok_iff.1 h
    cases h
    exact ⟨legible_of_readSubject hsubject hs, readNumeral_lt hargument, lt_of_readVariable hv⟩

theorem legible_of_read {cs : List Char} {p : Part} (h : read cs = .ok p) : p.Legible := by
  have hwords : ∀ w ∈ words cs, IsWord w := fun w hw => isWord_of_mem_words hw
  unfold read at h
  split at h
  · rename_i v name heq
    rw [heq] at hwords
    obtain ⟨v, hread, rfl⟩ := map_eq_ok_iff.1 h
    rw [Legible, String.toList_ofList]
    exact ⟨lt_of_readVariable hread, hwords name (by simp)⟩
  · rename_i subject argument object heq
    rw [heq] at hwords
    obtain ⟨d, hread, rfl⟩ := map_eq_ok_iff.1 h
    exact legible_of_readDependency (hwords subject (by simp)) hread
  · cases h

/-! ### What is printed -/

theorem isWord_toString (n : Nat) : IsWord (toString n).toList := by
  have hdigits := isDigits_toString (Nat.lt_succ_self n)
  exact ⟨hdigits.ne_nil, fun c hc => Written.not_isBlank_of_isDigit (hdigits.isDigit c hc)⟩

theorem readNumeral_toString {n : Nat} (h : n < 2 ^ 64) :
    readNumeral wordBound (toString n).toList = some n :=
  readNumeral_iff.2 (.plain (isDigits_toString h))

theorem readVariable_of_stripBraces {cs : List Char} {v : Var} (h : v < 2 ^ 64)
    (hcs : stripBraces cs = (toString v).toList) : readVariable cs = .ok v := by
  rw [readVariable, hcs, readNumeral_toString h]

theorem readVariable_toString {v : Var} (h : v < 2 ^ 64) :
    readVariable (toString v).toList = .ok v := by
  refine readVariable_of_stripBraces h ?_
  have hdigits := (isDigits_toString h).isDigit
  unfold stripBraces
  split
  · -- A number does not begin with a brace.
    rename_i heq
    exact absurd (hdigits '{' (heq ▸ List.mem_cons_self)) (by decide)
  · rfl

theorem readVariable_renderHead {v : Var} (h : v < 2 ^ 64) :
    readVariable (renderHead v).toList = .ok v := by
  refine readVariable_of_stripBraces h ?_
  rw [toList_renderHead, stripBraces, List.getLast?_concat, if_pos rfl, List.dropLast_concat]

theorem isWord_renderSubject {s : Subject} (h : s.Legible) : IsWord s.render.toList := by
  cases s with
  | predicate name => exact h.1
  | var v =>
    show IsWord (renderHead v).toList
    refine ⟨by rw [toList_renderHead]; exact List.cons_ne_nil _ _, fun c hc => ?_⟩
    exact not_isBlank_of_isMark (isMark_of_mem_renderHead hc)

theorem readSubject_render {s : Subject} (h : s.Legible) : readSubject s.render.toList = .ok s := by
  cases s with
  | predicate name =>
    obtain ⟨-, hhead⟩ := h
    rw [Subject.render, readSubject, if_neg hhead, String.ofList_toList]
  | var v =>
    have hhead : (renderHead v).toList.head? = some '{' := by rw [toList_renderHead]; rfl
    rw [Subject.render, readSubject, if_pos hhead, readVariable_renderHead h]
    rfl

theorem toList_render_naming (v : Var) (name : String) :
    (render (.naming v name)).toList = (toString v).toList ++ ' ' :: name.toList := by
  simp [render]

theorem toList_render_dependency (d : LexicalDependency) :
    (render (.dependency d)).toList =
      d.subject.render.toList ++ ' ' :: ((toString d.argument).toList ++
        ' ' :: (toString d.object).toList) := by
  simp [render, LexicalDependency.render]

theorem render_ne_nil {p : Part} (h : p.Legible) : p.render.toList ≠ [] := by
  cases p with
  | naming v name =>
    rw [toList_render_naming]
    exact List.append_ne_nil_of_left_ne_nil (isWord_toString v).1 _
  | dependency d =>
    rw [toList_render_dependency]
    exact List.append_ne_nil_of_left_ne_nil (isWord_renderSubject h.subject).1 _

/-- No part is printed as nothing, so none is passed over. -/
theorem filter_render {ps : List Part} (h : ∀ p ∈ ps, p.Legible) :
    (ps.map (·.render.toList)).filter (!·.isEmpty) = ps.map (·.render.toList) := by
  refine List.filter_eq_self.2 fun text htext => ?_
  obtain ⟨p, hp, rfl⟩ := List.mem_map.1 htext
  simpa using render_ne_nil (h p hp)

/-- A part is read back from what it is printed as. -/
theorem read_render {p : Part} (h : p.Legible) : read p.render.toList = .ok p := by
  cases p with
  | naming v name =>
    obtain ⟨hv, hname⟩ := h
    rw [toList_render_naming, read, words_append_blank (isWord_toString v), words_of_isWord hname]
    dsimp only
    rw [readVariable_toString hv, String.ofList_toList]
    rfl
  | dependency d =>
    obtain ⟨hsubject, hargument, hobject⟩ := h
    rw [toList_render_dependency, read, words_append_blank (isWord_renderSubject hsubject),
      words_append_blank (isWord_toString _), words_of_isWord (isWord_toString _)]
    dsimp only
    refine map_eq_ok_iff.2 ⟨d, bind_eq_ok_iff.2 ⟨_, readSubject_render hsubject, ?_⟩, rfl⟩
    rw [readNumeral_toString hargument]
    exact bind_eq_ok_iff.2 ⟨_, readVariable_toString hobject, rfl⟩

theorem mem_render {p : Part} {c : Char} (h : c ∈ p.render.toList) :
    c = ' ' ∨ isMark c = true ∨ c ∈ p.letters := by
  cases p with
  | naming v name =>
    rw [toList_render_naming, List.mem_append, List.mem_cons] at h
    rcases h with h | rfl | h
    · exact .inr (.inl (isMark_of_mem_toString h))
    · exact .inl rfl
    · exact .inr (.inr h)
  | dependency d =>
    rw [toList_render_dependency, List.mem_append, List.mem_cons, List.mem_append,
      List.mem_cons] at h
    rcases h with h | rfl | h | rfl | h
    · obtain ⟨subject, argument, object⟩ := d
      cases subject with
      | predicate name => exact .inr (.inr h)
      | var v => exact .inr (.inl (isMark_of_mem_renderHead h))
    · exact .inl rfl
    · exact .inr (.inl (isMark_of_mem_toString h))
    · exact .inl rfl
    · exact .inr (.inl (isMark_of_mem_toString h))

theorem isField_render {p : Part} (h : p.Legible) (hletters : ∀ c ∈ p.letters, c ∉ [',', '"']) :
    IsField p.render.toList where
  unquoted c hc := by
    rcases mem_render hc with rfl | hmark | hletter
    · decide
    · exact unquoted_of_isMark hmark
    · exact hletters c hletter
  trimmed := by
    cases p with
    | naming v name =>
      rw [toList_render_naming]
      exact (isWord_toString v).trimmed_append [' '] h.2
    | dependency d =>
      rw [toList_render_dependency]
      have htext := (isWord_renderSubject h.subject).trimmed_append
        (' ' :: ((toString d.argument).toList ++ [' '])) (isWord_toString d.object)
      simpa using htext

end Part

end Categorial
