/-
  Categorial.Proofs.Text

  Cuts in texts.  A run of characters of one class, followed by a character outside the class, is
  cut off whole (`takeWhile_run`, `dropWhile_run`).  Trimming takes away blanks and leaves a text
  with none at its ends (`trims_trim`).  The words of a text have no blanks (`isWord_of_mem_words`),
  and a word before a blank is cut off whole (`words_append_blank`).  Numerals are read as what they
  are (`readNumeral_iff`), and numbers are written as numerals (`isDigits_toString`).
-/

import Categorial.Text.Blank
import Categorial.Text.Numeral
import Mathlib.Data.List.TakeWhile

namespace Categorial.Text

/-! ## Runs -/

/-- A text does not begin with a character of a class. -/
def Stops (p : Char → Bool) (cs : List Char) : Prop := ∀ c ∈ cs.head?, p c = false

variable {p : Char → Bool} {run rest : List Char}

theorem stops_cons {c : Char} : Stops p (c :: rest) ↔ p c = false := by
  simp [Stops]

theorem takeWhile_of_stops (h : Stops p rest) : rest.takeWhile p = [] := by
  cases rest with
  | nil => rfl
  | cons c rest => rw [List.takeWhile_cons_of_neg (by rw [stops_cons.1 h]; decide)]

theorem dropWhile_of_stops (h : Stops p rest) : rest.dropWhile p = rest := by
  cases rest with
  | nil => rfl
  | cons c rest => rw [List.dropWhile_cons_of_neg (by rw [stops_cons.1 h]; decide)]

theorem takeWhile_run (hrun : ∀ c ∈ run, p c = true) (h : Stops p rest) :
    (run ++ rest).takeWhile p = run := by
  rw [List.takeWhile_append_of_pos hrun, takeWhile_of_stops h, List.append_nil]

theorem dropWhile_run (hrun : ∀ c ∈ run, p c = true) (h : Stops p rest) :
    (run ++ rest).dropWhile p = rest := by
  rw [List.dropWhile_append_of_pos hrun, dropWhile_of_stops h]

theorem forall_mem_of_takeWhile_eq {cs : List Char} (h : cs.takeWhile p = run) :
    ∀ c ∈ run, p c = true := by
  intro c hc
  rw [← h] at hc
  exact List.mem_takeWhile_imp hc

theorem stops_dropWhile (p : Char → Bool) (cs : List Char) : Stops p (cs.dropWhile p) := by
  induction cs with
  | nil => exact fun _ hc => nomatch hc
  | cons c cs ih =>
    rw [List.dropWhile_cons]
    split
    · exact ih
    · rename_i hc
      exact stops_cons.2 (by simpa using hc)

theorem Stops.append (h : Stops p run) (hrest : Stops p rest) : Stops p (run ++ rest) := by
  cases run with
  | nil => exact hrest
  | cons c run => exact h

theorem stops_of_forall (h : ∀ c ∈ run, p c = false) : Stops p run :=
  fun c hc => h c (List.mem_of_mem_head? hc)

/-! ## Trimming -/

/-- `text` is what is left of `cs` without the blanks around it. -/
structure Trims (cs text : List Char) : Prop where
  blanks : ∃ before after, (∀ c ∈ before, isBlank c = true) ∧ (∀ c ∈ after, isBlank c = true) ∧
    cs = before ++ text ++ after
  /-- It does not begin with a blank. -/
  first : Stops isBlank text
  /-- It does not end with a blank. -/
  last : Stops isBlank text.reverse

theorem trims_trim (cs : List Char) : Trims cs (trim cs) := by
  let front := skipBlanks cs
  let after := front.reverse.takeWhile isBlank
  have hfront : cs = cs.takeWhile isBlank ++ front := List.takeWhile_append_dropWhile.symm
  have hback : front = trim cs ++ after.reverse := by
    have h : after ++ skipBlanks front.reverse = front.reverse := List.takeWhile_append_dropWhile
    rw [trim, ← List.reverse_append, h, List.reverse_reverse]
  refine ⟨⟨cs.takeWhile isBlank, after.reverse, ?_, ?_, ?_⟩, ?_, ?_⟩
  · exact forall_mem_of_takeWhile_eq rfl
  · exact fun c hc => forall_mem_of_takeWhile_eq rfl c (List.mem_reverse.1 hc)
  · rw [List.append_assoc, ← hback]
    exact hfront
  · -- What is left begins as the text without the blanks in front does.
    have hstops : Stops isBlank front := stops_dropWhile isBlank cs
    rw [hback] at hstops
    intro c hc
    refine hstops c ?_
    cases htrim : trim cs with
    | nil =>
      rw [htrim] at hc
      cases hc
    | cons d text => rwa [htrim] at hc
  · rw [trim, List.reverse_reverse]
    exact stops_dropWhile isBlank _

theorem mem_of_mem_trim {cs : List Char} {c : Char} (h : c ∈ trim cs) : c ∈ cs := by
  obtain ⟨before, after, -, -, heq⟩ := (trims_trim cs).blanks
  rw [heq]
  exact List.mem_append_left _ (List.mem_append_right _ h)

/-- A text has no blank at either end. -/
structure Trimmed (cs : List Char) : Prop where
  first : Stops isBlank cs
  last : Stops isBlank cs.reverse

namespace Trimmed

theorem trim_eq {cs : List Char} (h : Trimmed cs) : trim cs = cs := by
  unfold trim skipBlanks
  rw [dropWhile_of_stops h.first, dropWhile_of_stops h.last, List.reverse_reverse]

theorem append {cs cs' : List Char} (h : Trimmed cs) (h' : Trimmed cs') : Trimmed (cs ++ cs') where
  first := h.first.append h'.first
  last := by
    rw [List.reverse_append]
    exact h'.last.append h.last

theorem of_forall {cs : List Char} (h : ∀ c ∈ cs, isBlank c = false) : Trimmed cs where
  first := stops_of_forall h
  last := stops_of_forall fun c hc => h c (List.mem_reverse.1 hc)

theorem nil : Trimmed [] := of_forall fun _ hc => nomatch hc

/-- What stands in brackets may have blanks at its ends. -/
theorem bracketed {c c' : Char} (cs : List Char) (hc : isBlank c = false)
    (hc' : isBlank c' = false) : Trimmed (c :: (cs ++ [c'])) where
  first := stops_cons.2 hc
  last := by
    rw [List.reverse_cons, List.reverse_append]
    exact stops_cons.2 hc'

end Trimmed

/-! ## Words -/

/-- A text that is one word. -/
def IsWord (cs : List Char) : Prop := cs ≠ [] ∧ ∀ c ∈ cs, isBlank c = false

section Words

variable {cut : Char → Bool} {cs rest : List Char}

theorem IsWord.stops (h : IsWord cs) (rest : List Char) : Stops isBlank (cs ++ rest) := by
  obtain ⟨hne, hcs⟩ := h
  obtain ⟨c, cs, rfl⟩ := List.exists_cons_of_ne_nil hne
  exact stops_cons.2 (hcs c List.mem_cons_self)

/-- What begins and ends with a word may have blanks between them. -/
theorem IsWord.trimmed_append {cs' : List Char} (h : IsWord cs) (between : List Char)
    (h' : IsWord cs') : Trimmed (cs ++ (between ++ cs')) where
  first := h.stops _
  last := by
    have hreverse : IsWord cs'.reverse :=
      ⟨by simpa using h'.1, fun c hc => h'.2 c (List.mem_reverse.1 hc)⟩
    rw [List.reverse_append, List.reverse_append, List.append_assoc]
    exact hreverse.stops _

theorem splitWhere_of_forall (h : ∀ c ∈ cs, cut c = false) : splitWhere cut cs = [cs] := by
  induction cs with
  | nil => rfl
  | cons c cs ih =>
    obtain ⟨hc, hcs⟩ := List.forall_mem_cons.1 h
    rw [splitWhere, hc, ih hcs]
    rfl

/-- A character that cuts separates the pieces before it from those after it. -/
theorem splitWhere_append {d : Char} (cs rest : List Char) (hd : cut d = true) :
    splitWhere cut (cs ++ d :: rest) = splitWhere cut cs ++ splitWhere cut rest := by
  induction cs with
  | nil => simp [splitWhere, hd]
  | cons c cs ih =>
    obtain ⟨piece, pieces, hsplit⟩ := List.exists_cons_of_ne_nil (splitWhere_ne_nil cut cs)
    rw [List.cons_append, splitWhere, splitWhere, ih, hsplit]
    cases cut c <;> rfl

theorem splitWhere_append_cons {d : Char} (h : ∀ c ∈ cs, cut c = false) (hd : cut d = true) :
    splitWhere cut (cs ++ d :: rest) = cs :: splitWhere cut rest := by
  rw [splitWhere_append cs rest hd, splitWhere_of_forall h, List.singleton_append]

/-- There is one piece more than there are cuts. -/
theorem length_splitWhere (cs : List Char) : (splitWhere cut cs).length = cs.countP cut + 1 := by
  induction cs with
  | nil => rfl
  | cons c cs ih =>
    obtain ⟨piece, pieces, hsplit⟩ := List.exists_cons_of_ne_nil (splitWhere_ne_nil cut cs)
    rw [hsplit] at ih
    rw [splitWhere, List.countP_cons, hsplit]
    cases cut c with
    | true => exact congrArg (· + 1) ih
    | false => exact ih

theorem not_cut_of_mem_splitWhere {piece : List Char} (h : piece ∈ splitWhere cut cs) :
    ∀ c ∈ piece, cut c = false := by
  induction cs generalizing piece with
  | nil =>
    rw [List.mem_singleton.1 h]
    exact nofun
  | cons d cs ih =>
    rw [splitWhere] at h
    split at h
    · rcases List.mem_cons.1 h with rfl | h
      · exact nofun
      · exact ih h
    · -- The first piece gets one character more, which does not cut.
      rename_i hd
      rw [Bool.not_eq_true] at hd
      split at h
      · rename_i hnil
        exact absurd hnil (splitWhere_ne_nil cut cs)
      · rename_i first pieces hsplit
        rcases List.mem_cons.1 h with rfl | h
        · exact List.forall_mem_cons.2 ⟨hd, ih (hsplit ▸ List.mem_cons_self)⟩
        · exact ih (hsplit ▸ List.mem_cons_of_mem _ h)

theorem words_of_isWord (h : IsWord cs) : words cs = [cs] := by
  obtain ⟨hne, hcs⟩ := h
  rw [words, splitWhere_of_forall hcs, List.filter_cons_of_pos (by simpa using hne)]
  rfl

theorem words_append_blank (h : IsWord cs) : words (cs ++ ' ' :: rest) = cs :: words rest := by
  obtain ⟨hne, hcs⟩ := h
  rw [words, splitWhere_append_cons hcs (by decide), List.filter_cons_of_pos (by simpa using hne),
    words]

theorem isWord_of_mem_words {w : List Char} (h : w ∈ words cs) : IsWord w := by
  obtain ⟨hmem, hne⟩ := List.mem_filter.1 h
  exact ⟨by simpa using hne, not_cut_of_mem_splitWhere hmem⟩

end Words

/-! ## Numerals -/

/-- Digits with a value below a bound. -/
structure IsDigits (bound : Nat) (ds : List Char) (n : Nat) : Prop where
  ne_nil : ds ≠ []
  isDigit : ∀ c ∈ ds, c.isDigit = true
  value_eq : digitsValue ds = n
  lt : n < bound

/-- A numeral with a value below a bound: digits, with a plus sign in front of them or not. -/
inductive IsNumeral (bound : Nat) : List Char → Nat → Prop
  | plain {ds : List Char} {n : Nat} (h : IsDigits bound ds n) : IsNumeral bound ds n
  | signed {ds : List Char} {n : Nat} (h : IsDigits bound ds n) : IsNumeral bound ('+' :: ds) n

variable {bound n : Nat} {ds cs : List Char}

theorem IsNumeral.lt (h : IsNumeral bound cs n) : n < bound := by
  cases h with
  | plain h => exact h.lt
  | signed h => exact h.lt

/-- A number is written with digits that have its value. -/
theorem isDigits_toString (h : n < bound) : IsDigits bound (toString n).toList n := by
  rw [Nat.toString_eq_ofList_toDigits, String.toList_ofList]
  exact {
    ne_nil := Nat.toDigits_ne_nil
    isDigit := fun c hc => Nat.isDigit_of_mem_toDigits (by omega) (by omega) hc
    value_eq := Nat.ofDigitChars_toDigits (by omega) (by omega)
    lt := h }

theorem readDigits_iff : readDigits bound ds = some n ↔ IsDigits bound ds n := by
  unfold readDigits
  constructor
  · intro h
    split at h
    · cases h
    · rename_i hds
      simp only [Bool.or_eq_true, List.isEmpty_iff, Bool.not_eq_true', not_or] at hds
      split at h
      · rename_i hlt
        cases h
        exact ⟨hds.1, List.all_eq_true.1 (by simpa using hds.2), rfl, hlt⟩
      · cases h
  · rintro ⟨hne, hall, rfl, hlt⟩
    have hds : ¬ (ds.isEmpty || !ds.all Char.isDigit) = true := by
      rw [List.all_eq_true.2 hall]
      simpa using hne
    rw [if_neg hds, if_pos hlt]

theorem readNumeral_iff : readNumeral bound cs = some n ↔ IsNumeral bound cs n := by
  constructor
  · intro h
    unfold readNumeral at h
    split at h
    · exact .signed (readDigits_iff.1 h)
    · exact .plain (readDigits_iff.1 h)
  · intro h
    cases h with
    | signed h => exact readDigits_iff.2 h
    | plain h =>
      -- A numeral without the sign does not begin with it, since the sign is no digit.
      unfold readNumeral
      split
      · rename_i ds
        exact absurd (h.isDigit '+' List.mem_cons_self) (by decide)
      · exact readDigits_iff.2 h

end Categorial.Text
