/-
  Categorial.Proofs.Grammar.Fields

  The fields of a grammar line.  A field without commas and quotes can be written as it is; every
  field can be written in quotes, with a tilde before each quote and tilde in it; and blanks can
  stand around it.  A line of fields that are written in these ways is split into the fields again
  (`lineFields_joined`).  What becomes of an arbitrary line is told by a scan that only keeps track
  of quotes and escapes (`told_rawFields`): the line has no fields if the scan ends inside a
  quotation, and otherwise one more than the commas that the scan has met outside quotations.
-/

import Categorial.Grammar.Part
import Categorial.Proofs.Outcome
import Categorial.Proofs.Text

namespace Categorial

namespace Text

/-! ## Written fields -/

/-- A character inside quotes: a quote and a tilde have a tilde before them. -/
def quotedChar (c : Char) : List Char := if c = '"' ∨ c = '~' then ['~', c] else [c]

/-- The ways to write a field. -/
inductive Quotes : (field text : List Char) → Prop
  /-- As it is. -/
  | bare {field : List Char} (h : ∀ c ∈ field, c ∉ [',', '"']) : Quotes field field
  /-- In quotes. -/
  | quoted (field : List Char) : Quotes field ('"' :: (field.flatMap quotedChar ++ ['"']))

/-- A text in which a field is written, with blanks around it. -/
def Writes (field text : List Char) : Prop :=
  ∃ before inner after, (∀ c ∈ before, isBlank c = true) ∧ (∀ c ∈ after, isBlank c = true) ∧
    Quotes field inner ∧ text = before ++ (inner ++ after)

/-! ## Reading a written field -/

/-- Whatever comes after it, the text leads from one side of the quotes to a side again and gives
    the characters of `raw` to the field that it stands in. -/
def Reads (quoted : Bool) (text : List Char) (quoted' : Bool) (raw : List Char) : Prop :=
  ∀ rest, rawFields quoted (text ++ rest) =
    (rawFields quoted' rest).map fun fields => raw.foldr prependToFirst fields

section Reads

variable {q q' q'' : Bool} {c : Char} {text text' raw raw' : List Char}

theorem foldr_prependToFirst (raw field : List Char) (fields : List (List Char)) :
    raw.foldr prependToFirst (field :: fields) = (raw ++ field) :: fields := by
  induction raw with
  | nil => rfl
  | cons c raw ih => rw [List.foldr_cons, ih, prependToFirst, List.cons_append]

theorem reads_nil : Reads q [] q [] := by
  intro rest
  rw [List.nil_append]
  cases rawFields q rest <;> rfl

theorem Reads.append (h : Reads q text q' raw) (h' : Reads q' text' q'' raw') :
    Reads q (text ++ text') q'' (raw ++ raw') := by
  intro rest
  rw [List.append_assoc, h, h']
  cases rawFields q'' rest with
  | error fault => rfl
  | ok fields => simp only [Except.map, List.foldr_append]

/-- Outside quotations every character counts but commas and quotes. -/
theorem reads_bare (h : c ∉ [',', '"']) : Reads false [c] false [c] := by
  intro rest
  simp only [List.mem_cons, List.not_mem_nil, or_false, not_or] at h
  rw [List.singleton_append, rawFields]
  · rfl
  · exact h.2
  · exact nofun
  · exact nofun
  · exact fun _ => h.1

/-- A quote leads to the other side. -/
theorem reads_quote (q : Bool) : Reads q ['"'] (!q) [] := by
  intro rest
  rw [List.singleton_append, rawFields]
  cases rawFields (!q) rest <;> rfl

/-- Inside quotations every character counts that is written with its escape, commas too. -/
theorem reads_quotedChar (c : Char) : Reads true (quotedChar c) true [c] := by
  intro rest
  by_cases hc : c = '"' ∨ c = '~'
  · rw [quotedChar, if_pos hc]
    show rawFields true ('~' :: c :: rest) = _
    rw [rawFields]
    rfl
  · rw [quotedChar, if_neg hc]
    rw [not_or] at hc
    rw [List.singleton_append, rawFields]
    · rfl
    · exact hc.1
    · exact fun _ h => absurd h hc.2
    · exact fun _ _ _ h => absurd h hc.2
    · exact nofun

theorem reads_of_forall (h : ∀ c ∈ text, c ∉ [',', '"']) : Reads false text false text := by
  induction text with
  | nil => exact reads_nil
  | cons c text ih =>
    obtain ⟨hc, htext⟩ := List.forall_mem_cons.1 h
    exact (reads_bare hc).append (ih htext)

theorem reads_flatMap_quotedChar (cs : List Char) : Reads true (cs.flatMap quotedChar) true cs := by
  induction cs with
  | nil => exact reads_nil
  | cons c cs ih =>
    rw [List.flatMap_cons]
    exact (reads_quotedChar c).append ih

theorem Quotes.reads (h : Quotes raw text) : Reads false text false raw := by
  cases h with
  | bare h => exact reads_of_forall h
  | quoted =>
    have hinside := (reads_flatMap_quotedChar raw).append (reads_quote true)
    simpa using (reads_quote false).append hinside

/-- A class without the comma and the quote has only characters that need no quotes. -/
theorem unquoted_of_class {p : Char → Bool} (hcomma : p ',' = false) (hquote : p '"' = false)
    (h : p c = true) : c ∉ [',', '"'] := by
  intro hmem
  simp only [List.mem_cons, List.not_mem_nil, or_false] at hmem
  rcases hmem with rfl | rfl
  · rw [hcomma] at h
    cases h
  · rw [hquote] at h
    cases h

/-- What is read off a written field is the field with blanks around it. -/
theorem Writes.exists_reads {field : List Char} (h : Writes field text) :
    ∃ before after, (∀ c ∈ before, isBlank c = true) ∧ (∀ c ∈ after, isBlank c = true) ∧
      Reads false text false (before ++ (field ++ after)) := by
  obtain ⟨before, inner, after, hbefore, hafter, hinner, rfl⟩ := h
  refine ⟨before, after, hbefore, hafter, ?_⟩
  have hblanks : ∀ {cs : List Char}, (∀ c ∈ cs, isBlank c = true) → Reads false cs false cs :=
    fun hcs => reads_of_forall fun c hc => unquoted_of_class (by decide) (by decide) (hcs c hc)
  exact (hblanks hbefore).append (hinner.reads.append (hblanks hafter))

/-- Texts joined by commas are read one after the other. -/
theorem rawFields_joined {texts raws : List (List Char)}
    (h : List.Forall₂ (Reads false · false ·) texts raws) (hne : texts ≠ []) :
    rawFields false ([','].intercalate texts) = .ok raws := by
  induction h with
  | nil => exact absurd rfl hne
  | @cons text raw texts raws htext htexts ih =>
    cases htexts with
    | nil =>
      have hlast := htext []
      rw [List.append_nil, rawFields] at hlast
      rw [List.intercalate_singleton, hlast]
      simp only [Except.map, foldr_prependToFirst, List.append_nil]
    | @cons text' raw' texts raws htext' htexts =>
      rw [List.intercalate_cons_cons, List.append_assoc, htext, List.singleton_append, rawFields,
        ih (List.cons_ne_nil _ _)]
      simp only [Except.map, foldr_prependToFirst, List.append_nil]

end Reads

theorem trimmed_of_trim_eq {cs : List Char} (h : trim cs = cs) : Trimmed cs := by
  have htrims := trims_trim cs
  rw [h] at htrims
  exact ⟨htrims.first, htrims.last⟩

/-- Blanks around a text that has none at its ends are all that trimming takes away. -/
theorem trim_padded {before field after : List Char} (hbefore : ∀ c ∈ before, isBlank c = true)
    (hafter : ∀ c ∈ after, isBlank c = true) (hfield : Trimmed field) :
    trim (before ++ (field ++ after)) = field := by
  unfold trim skipBlanks
  cases field with
  | nil =>
    have hblank : ∀ c ∈ before ++ ([] ++ after), isBlank c = true :=
      fun c hc => (List.mem_append.1 hc).elim (hbefore c) (hafter c)
    rw [List.dropWhile_eq_nil_iff.2 hblank]
    rfl
  | cons c field =>
    have hfirst : Stops isBlank (c :: field ++ after) := stops_cons.2 (stops_cons.1 hfield.first)
    have hreverse : ∀ c ∈ after.reverse, isBlank c = true :=
      fun c hc => hafter c (List.mem_reverse.1 hc)
    rw [dropWhile_run hbefore hfirst, List.reverse_append, dropWhile_run hreverse hfield.last,
      List.reverse_reverse]

end Text

open Text

/-- A line of written fields is split into these fields. -/
theorem lineFields_joined {fields texts : List (List Char)} (hne : fields ≠ [])
    (hfields : ∀ field ∈ fields, Trimmed field) (h : List.Forall₂ Writes fields texts) :
    lineFields ([','].intercalate texts) = .ok fields := by
  -- What is read off the texts, blanks and all.
  have hraws : ∃ raws, List.Forall₂ (Reads false · false ·) texts raws ∧
      raws.map trim = fields := by
    clear hne
    induction h with
    | nil => exact ⟨[], .nil, rfl⟩
    | cons hwrites _ ih =>
      obtain ⟨hfield, hfields⟩ := List.forall_mem_cons.1 hfields
      obtain ⟨raws, hraws, rfl⟩ := ih hfields
      obtain ⟨before, after, hbefore, hafter, hreads⟩ := hwrites.exists_reads
      refine ⟨_, .cons hreads hraws, ?_⟩
      rw [List.map_cons, trim_padded hbefore hafter hfield]
  obtain ⟨raws, hraws, rfl⟩ := hraws
  have htexts : texts ≠ [] := by
    rintro rfl
    cases hraws
    exact hne rfl
  have hsplit : splitFields ([','].intercalate texts) = .ok (raws.map trim) := by
    rw [splitFields, rawFields_joined hraws htexts]
    rfl
  rw [lineFields, hsplit]

/-! ## Scanning a line -/

namespace Text

/-- Where a scan of a line stands. -/
inductive Place where
  | outside
  /-- Inside a quotation. -/
  | quoted
  /-- Inside a quotation and right after an escaping tilde. -/
  | escaped
  deriving DecidableEq, Repr

def Place.next : Place → Char → Place
  | .outside, c => if c = '"' then .quoted else .outside
  | .quoted, c => if c = '"' then .outside else if c = '~' then .escaped else .quoted
  | .escaped, _ => .quoted

/-- Where a scan of a line from left to right ends. -/
def scan (line : List Char) : Place := line.foldl Place.next .outside

/-- The number of commas that a scan meets outside quotations. -/
def commasFrom : Place → List Char → Nat
  | _, [] => 0
  | place, c :: cs =>
    (if place = .outside ∧ c = ',' then 1 else 0) + commasFrom (place.next c) cs

/-- What the end of a scan and the commas on its way tell about the fields of a line. -/
def Told (place : Place) (commas : Nat) : Except QuotationFault (List (List Char)) → Prop
  | .ok fields => place = .outside ∧ fields.length = commas + 1
  | .error .unterminated => place = .quoted
  | .error .danglingEscape => place = .escaped

/-- The side of the quotes on which reading starts. -/
def sideOf (quoted : Bool) : Place := if quoted then .quoted else .outside

section Told

variable {place : Place} {commas : Nat} {outcome : Except QuotationFault (List (List Char))}

theorem Told.prependToFirst (h : Told place commas outcome) (c : Char) :
    Told place commas (outcome.map (prependToFirst c)) := by
  cases outcome with
  | error fault => cases fault <;> exact h
  | ok fields =>
    obtain ⟨hplace, hlength⟩ := h
    cases fields with
    | nil => cases hlength
    | cons field fields => exact ⟨hplace, hlength⟩

theorem Told.comma (h : Told place commas outcome) :
    Told place (1 + commas) (outcome.map ([] :: ·)) := by
  cases outcome with
  | error fault => cases fault <;> exact h
  | ok fields =>
    obtain ⟨hplace, hlength⟩ := h
    refine ⟨hplace, ?_⟩
    rw [List.length_cons, hlength]
    omega

/-- A character that is no comma outside quotations does not count. -/
theorem commasFrom_cons {c : Char} (h : place = .outside → c ≠ ',') (cs : List Char) :
    commasFrom place (c :: cs) = commasFrom (place.next c) cs := by
  rw [commasFrom, if_neg fun hcomma => h hcomma.1 hcomma.2, Nat.zero_add]

end Told

theorem told_rawFields (quoted : Bool) (cs : List Char) :
    Told (cs.foldl Place.next (sideOf quoted)) (commasFrom (sideOf quoted) cs)
      (rawFields quoted cs) := by
  fun_induction rawFields quoted cs with
  | case1 => exact ⟨rfl, rfl⟩
  | case2 => rfl
  | case3 quoted cs ih =>
    have hnext : (sideOf quoted).next '"' = sideOf (!quoted) := by cases quoted <;> rfl
    rw [List.foldl_cons, commasFrom_cons fun _ => by decide, hnext]
    exact ih
  | case4 => rfl
  | case5 c cs ih =>
    -- The tilde and the character after it lead back inside the quotation.
    have hnext : ((sideOf true).next '~').next c = sideOf true := rfl
    rw [List.foldl_cons, List.foldl_cons, commasFrom_cons (by decide),
      commasFrom_cons (by exact nofun), hnext]
    exact ih.prependToFirst c
  | case6 cs ih => exact ih.comma
  | case7 quoted c cs hquote hlast hescape hcomma ih =>
    have hnext : (sideOf quoted).next c = sideOf quoted := by
      cases quoted with
      | false => exact if_neg hquote
      | true =>
        have htilde : c ≠ '~' := by
          rintro rfl
          cases cs with
          | nil => exact hlast rfl rfl rfl
          | cons c' cs => exact hescape c' cs rfl rfl rfl
        show (if c = '"' then Place.outside else if c = '~' then .escaped else .quoted) = .quoted
        rw [if_neg hquote, if_neg htilde]
    have hcount : sideOf quoted = .outside → c ≠ ',' := by
      cases quoted with
      | false => exact fun _ => hcomma rfl
      | true => exact nofun
    rw [List.foldl_cons, commasFrom_cons hcount, hnext]
    exact ih.prependToFirst c

/-- The scan tells what becomes of a line. -/
theorem told_splitFields (line : List Char) :
    Told (scan line) (commasFrom .outside line) (splitFields line) := by
  have htold : Told (scan line) (commasFrom .outside line) (rawFields false line) :=
    told_rawFields false line
  unfold splitFields
  cases hraw : rawFields false line with
  | error fault =>
    rw [hraw] at htold
    cases fault <;> exact htold
  | ok fields =>
    rw [hraw] at htold
    exact ⟨htold.1, (List.length_map trim).trans htold.2⟩

end Text

/-- Fields that are written in a line, as they are or in quotes and with blanks around them, are the
    fields of the line. A line has no fields just if a scan ends inside a quotation or right after
    an escaping tilde; otherwise it has one more than there are commas outside quotations. -/
theorem lineFields_inverts_quoting :
    (∀ fields texts : List (List Char), fields ≠ [] → (∀ field ∈ fields, trim field = field) →
      List.Forall₂ Writes fields texts → lineFields ([','].intercalate texts) = .ok fields) ∧
    ∀ line : List Char,
      ((∃ fault, lineFields line = .error fault) ↔ scan line = .quoted ∨ scan line = .escaped) ∧
      (scan line = .quoted → lineFields line = .error (.unterminatedQuote (String.ofList line))) ∧
      (scan line = .escaped → lineFields line = .error .danglingEscape) ∧
      (scan line = .outside → ∃ fields, lineFields line = .ok fields ∧
        fields.length = commasFrom .outside line + 1) := by
  refine ⟨fun fields texts hne hfields hwrites => ?_, fun line => ?_⟩
  · exact lineFields_joined hne (fun field hfield => trimmed_of_trim_eq (hfields field hfield))
      hwrites
  · have htold := told_splitFields line
    unfold lineFields
    cases hsplit : splitFields line with
    | error fault =>
      rw [hsplit] at htold
      cases fault with
      | unterminated =>
        have hscan : scan line = .quoted := htold
        simp [hscan]
      | danglingEscape =>
        have hscan : scan line = .escaped := htold
        simp [hscan]
    | ok fields =>
      rw [hsplit] at htold
      obtain ⟨hscan, hlength⟩ := htold
      simp [hscan, hlength]

def sampleFields : List (List Char) := ["a, \"b\" ~".toList, "c~d".toList, []]

/-- The first field is in quotes; a tilde outside quotes escapes nothing. -/
def sampleTexts : List (List Char) := [" \"a, ~\"b~\" ~~\"\t".toList, "c~d".toList, " ".toList]

theorem lineFields_inverts_quoting_sample :
    lineFields " \"a, ~\"b~\" ~~\"\t,c~d, ".toList = .ok sampleFields ∧
      lineFields "a, \"b~\"".toList = .error (.unterminatedQuote "a, \"b~\"") ∧
      ∃ fields, lineFields "\"a, b\", c".toList = .ok fields ∧ fields.length = 2 := by
  obtain ⟨hwritten, hline⟩ := lineFields_inverts_quoting
  have hwrites : List.Forall₂ Writes sampleFields sampleTexts := by
    refine .cons ⟨[' '], _, ['\t'], ?_, ?_, .quoted _, by decide +kernel⟩
      (.cons ⟨[], _, [], nofun, nofun, .bare ?_, rfl⟩
        (.cons ⟨[' '], _, [], ?_, nofun, .bare nofun, by decide +kernel⟩ .nil))
    · exact List.forall_mem_singleton.2 rfl
    · exact List.forall_mem_singleton.2 rfl
    · simp
    · exact List.forall_mem_singleton.2 rfl
  have hjoined : [','].intercalate sampleTexts = " \"a, ~\"b~\" ~~\"\t,c~d, ".toList := by
    decide +kernel
  refine ⟨?_, ?_, ?_⟩
  · rw [← hjoined]
    exact hwritten sampleFields sampleTexts (by decide) (by decide +kernel) hwrites
  · exact (hline _).2.1 (by decide +kernel)
  · exact (hline _).2.2.2 (by decide +kernel)

end Categorial
