/-
  Categorial.Proofs.Grammar.Lines

  Reading grammar files.  The number of a line is one more than the line feeds before it
  (`isLine_iff`), so that blank lines and comments are counted although they hold no item.
  A file can be read just if each of its items can, and then it is made of what is read off them, in
  their order (`readItems_eq_ok_iff`); otherwise the first item that cannot be read is reported,
  with the number of its line (`readItems_eq_error_iff`).  Lexicons and files of rules are two
  cases.
-/

import Categorial.Lexicon.Reader
import Categorial.Proofs.Lexicon
import Categorial.Proofs.Outcome
import Categorial.Proofs.Text
import Categorial.UnaryRule.Reader

namespace Categorial

open Text

/-! ## Lines and their numbers -/

namespace Text

/-- `line` is the line of a text with this number: it stands between line feeds or the ends of the
    text, has no line feed itself, and is numbered by those before it. -/
def IsLine (text : List Char) (number : Nat) (line : List Char) : Prop :=
  ∃ before after, text = before ++ (line ++ after) ∧ '\n' ∉ line ∧
    (before = [] ∨ ∃ cs, before = cs ++ ['\n']) ∧ (after = [] ∨ ∃ cs, after = '\n' :: cs) ∧
    number = before.count '\n' + 1

variable {text line : List Char}

theorem lines_of_notMem (h : '\n' ∉ line) : lines line = [line] :=
  splitWhere_of_forall fun _ hc => beq_false_of_ne fun heq => h (heq ▸ hc)

theorem lines_append (cs rest : List Char) : lines (cs ++ '\n' :: rest) = lines cs ++ lines rest :=
  splitWhere_append cs rest rfl

theorem length_lines (cs : List Char) : (lines cs).length = cs.count '\n' + 1 :=
  length_splitWhere cs

theorem isLine_of_getElem? {i : Nat} (h : (lines text)[i]? = some line) :
    IsLine text (i + 1) line := by
  induction i generalizing text with
  | zero =>
    by_cases hmem : '\n' ∈ text
    · obtain ⟨first, rest, rfl, hfirst⟩ := List.eq_append_cons_of_mem hmem
      rw [lines_append, lines_of_notMem hfirst] at h
      cases h
      exact ⟨[], '\n' :: rest, rfl, hfirst, .inl rfl, .inr ⟨rest, rfl⟩, rfl⟩
    · rw [lines_of_notMem hmem] at h
      cases h
      exact ⟨[], [], (List.append_nil _).symm, hmem, .inl rfl, .inl rfl, rfl⟩
  | succ i ih =>
    by_cases hmem : '\n' ∈ text
    · obtain ⟨first, rest, rfl, hfirst⟩ := List.eq_append_cons_of_mem hmem
      rw [lines_append, lines_of_notMem hfirst] at h
      obtain ⟨before, after, rfl, hline, hbefore, hafter, hnumber⟩ := ih h
      refine ⟨first ++ '\n' :: before, after, by simp, hline, .inr ?_, hafter, ?_⟩
      · -- What stands before the line in the rest is empty or ends with a line feed.
        rcases hbefore with rfl | ⟨cs, rfl⟩
        · exact ⟨first, rfl⟩
        · exact ⟨first ++ '\n' :: cs, by simp⟩
      · rw [List.count_append, List.count_eq_zero.2 hfirst, List.count_cons_self]
        omega
    · rw [lines_of_notMem hmem] at h
      cases h

theorem IsLine.getElem? {number : Nat} (h : IsLine text number line) :
    (lines text)[number - 1]? = some line := by
  obtain ⟨before, after, rfl, hline, hbefore, hafter, rfl⟩ := h
  have hfirst : (lines (line ++ after))[0]? = some line := by
    rcases hafter with rfl | ⟨cs, rfl⟩
    · rw [List.append_nil, lines_of_notMem hline]
      rfl
    · rw [lines_append, lines_of_notMem hline]
      rfl
  rcases hbefore with rfl | ⟨cs, rfl⟩
  · exact hfirst
  · have hcount : (cs ++ ['\n']).count '\n' = (lines cs).length := by
      rw [List.count_append, length_lines]
      rfl
    rw [List.append_assoc, List.singleton_append, lines_append, hcount, Nat.add_sub_cancel,
      List.getElem?_append_right (Nat.le_refl _), Nat.sub_self]
    exact hfirst

theorem isLine_iff {number : Nat} :
    IsLine text number line ↔ 1 ≤ number ∧ (lines text)[number - 1]? = some line := by
  constructor
  · intro h
    refine ⟨?_, h.getElem?⟩
    obtain ⟨before, after, -, -, -, -, rfl⟩ := h
    omega
  · rintro ⟨hpos, h⟩
    have hline := isLine_of_getElem? h
    rwa [Nat.sub_add_cancel hpos] at hline

end Text

/-! ## Items -/

/-- The line with this number holds an item: without the blanks around it, it is not empty and does
    not start with two slashes. -/
def IsItem (text : String) (number : Nat) (item : List Char) : Prop :=
  ∃ line, IsLine text.toList number line ∧ item = trim line ∧ item ≠ [] ∧ ¬ ['/', '/'] <+: item

theorem holdsItem_iff {item : List Char} :
    holdsItem item = true ↔ item ≠ [] ∧ ¬ ['/', '/'] <+: item := by
  unfold holdsItem
  split
  · simp
  · simp
  · rename_i hnil hcomment
    refine iff_of_true rfl ⟨hnil, ?_⟩
    rintro ⟨rest, rfl⟩
    exact hcomment rest rfl

variable {text : String} {number : Nat} {item : List Char}

theorem mem_itemLines : (number, item) ∈ itemLines text ↔ IsItem text number item := by
  unfold itemLines IsItem
  rw [List.mem_filterMap]
  constructor
  · rintro ⟨⟨line, number'⟩, hmem, heq⟩
    dsimp only at heq
    split at heq
    · rename_i hitem
      cases heq
      exact ⟨line, isLine_iff.2 (List.mem_zipIdx_iff_le_and_getElem?_sub.1 hmem), rfl,
        holdsItem_iff.1 hitem⟩
    · cases heq
  · rintro ⟨line, hline, rfl, hitem⟩
    refine ⟨(line, number), List.mem_zipIdx_iff_le_and_getElem?_sub.2 (isLine_iff.1 hline), ?_⟩
    exact if_pos (holdsItem_iff.2 hitem)

theorem itemLines_ascending (text : String) : (itemLines text).Pairwise (·.1 < ·.1) := by
  have hnumbers : ((lines text.toList).zipIdx 1).Pairwise (·.2 < ·.2) := by
    rw [← List.pairwise_map, List.zipIdx_map_snd]
    exact List.pairwise_lt_range'
  refine List.pairwise_filterMap.2 (hnumbers.imp fun {a b} hlt p hp p' hp' => ?_)
  dsimp only at hp hp'
  split at hp
  · split at hp'
    · cases hp
      cases hp'
      exact hlt
    · cases hp'
  · cases hp

/-- The items listed before an item are those in lines with smaller numbers. -/
theorem mem_before_iff {before after : List (Nat × List Char)} {number' : Nat} {item' : List Char}
    (h : itemLines text = before ++ (number, item) :: after) :
    (number', item') ∈ before ↔ IsItem text number' item' ∧ number' < number := by
  have hascending := itemLines_ascending text
  rw [h, List.pairwise_append, List.pairwise_cons] at hascending
  obtain ⟨-, ⟨hafter, -⟩, hbefore⟩ := hascending
  rw [← mem_itemLines, h, List.mem_append, List.mem_cons]
  constructor
  · exact fun hmem => ⟨.inl hmem, hbefore _ hmem _ List.mem_cons_self⟩
  · rintro ⟨hmem | heq | hmem, hlt⟩
    · exact hmem
    · cases heq
      exact absurd hlt (Nat.lt_irrefl _)
    · exact absurd hlt (Nat.lt_asymm (hafter _ hmem))

/-! ## Reading items -/

section Reading

variable {α : Type} {readItem : List Char → Except Error α}

/-- `xs` is what is read off the items of a text, in the order of their lines. -/
def ReadsAs (readItem : List Char → Except Error α) (text : String) (xs : List α) : Prop :=
  ∃ items : List (Nat × List Char), items.Pairwise (·.1 < ·.1) ∧
    (∀ number item, (number, item) ∈ items ↔ IsItem text number item) ∧
    List.Forall₂ (fun p x => readItem p.2 = .ok x) items xs

/-- An error reports the first item of a text that cannot be read: it gives the number of its line,
    and what is wrong with the item, of whatever kind. -/
def ReportsFirstFault (readItem : List Char → Except Error α) (text : String) (error : Error) :
    Prop :=
  ∃ number item cause, IsItem text number item ∧ readItem item = .error cause ∧
    (∀ number' item', number' < number → IsItem text number' item' → ∃ x, readItem item' = .ok x) ∧
    error = .atLine number cause ∧
    error.message = "line " ++ toString number ++ ": " ++ cause.detail

/-- Items in the order of their lines are the items that are listed. -/
theorem eq_itemLines {items : List (Nat × List Char)} (hitems : items.Pairwise (·.1 < ·.1))
    (hmem : ∀ number item, (number, item) ∈ items ↔ IsItem text number item) :
    items = itemLines text := by
  have hnodup : ∀ {items : List (Nat × List Char)}, items.Pairwise (·.1 < ·.1) → items.Nodup := by
    intro items h
    refine h.imp fun hlt heq => ?_
    rw [heq] at hlt
    exact Nat.lt_irrefl _ hlt
  have hperm : items.Perm (itemLines text) := by
    refine (List.perm_ext_iff_of_nodup (hnodup hitems) (hnodup (itemLines_ascending text))).2 ?_
    exact fun p => (hmem p.1 p.2).trans mem_itemLines.symm
  refine hperm.eq_of_pairwise (fun a b _ _ hlt hlt' => ?_) hitems (itemLines_ascending text)
  exact absurd hlt (Nat.lt_asymm hlt')

theorem readItems_eq_ok_iff {xs : List α} :
    readItems readItem text = .ok xs ↔ ReadsAs readItem text xs := by
  rw [readItems, mapM_eq_ok_iff]
  simp only [mapError_eq_ok_iff]
  constructor
  · exact fun h => ⟨itemLines text, itemLines_ascending text, fun _ _ => mem_itemLines, h⟩
  · rintro ⟨items, hitems, hmem, h⟩
    rwa [eq_itemLines hitems hmem] at h

theorem readItems_eq_error_iff {e : Error} :
    readItems readItem text = .error e ↔ ReportsFirstFault readItem text e := by
  rw [readItems, mapM_eq_error_iff]
  constructor
  · rintro ⟨before, ⟨number, item⟩, after, heq, hbefore, hfault⟩
    obtain ⟨cause, hcause, rfl⟩ := mapError_eq_error_iff.1 hfault
    have hitem : (number, item) ∈ itemLines text := by
      rw [heq]
      exact List.mem_append_right _ List.mem_cons_self
    refine ⟨number, item, cause, mem_itemLines.1 hitem, hcause, fun number' item' hlt hitem' => ?_,
      rfl, rfl⟩
    obtain ⟨x, hx⟩ := hbefore _ ((mem_before_iff heq).2 ⟨hitem', hlt⟩)
    exact ⟨x, mapError_eq_ok_iff.1 hx⟩
  · rintro ⟨number, item, cause, hitem, hread, hearlier, rfl, -⟩
    obtain ⟨before, after, heq⟩ := List.append_of_mem (mem_itemLines.2 hitem)
    refine ⟨before, (number, item), after, heq, fun ⟨number', item'⟩ hmem => ?_, ?_⟩
    · obtain ⟨hitem', hlt⟩ := (mem_before_iff heq).1 hmem
      obtain ⟨x, hx⟩ := hearlier number' item' hlt hitem'
      exact ⟨x, mapError_eq_ok_iff.2 hx⟩
    · exact mapError_eq_error_iff.2 ⟨cause, hread, rfl⟩

/-- A file can be read just if each of its items can. -/
theorem exists_readItems_eq_ok_iff :
    (∃ xs, readItems readItem text = .ok xs) ↔
      ∀ number item, IsItem text number item → ∃ x, readItem item = .ok x := by
  constructor
  · rintro ⟨xs, hxs⟩ number item hitem
    obtain ⟨items, -, hmem, hread⟩ := readItems_eq_ok_iff.1 hxs
    exact exists_of_forall₂_left hread _ ((hmem number item).2 hitem)
  · intro h
    cases houtcome : readItems readItem text with
    | ok xs => exact ⟨xs, rfl⟩
    | error e =>
      obtain ⟨number, item, cause, hitem, hcause, -⟩ := readItems_eq_error_iff.1 houtcome
      obtain ⟨x, hx⟩ := h number item hitem
      cases hcause.symm.trans hx

end Reading

/-! ## Lexicons and rules -/

/-- A grammar file is read just if every line that holds an item can be read; blank lines and
    comments do not matter. Then the lexicon is what comes of adding the entries in the order of
    their lines, and the rules are those of the lines in their order. Otherwise the first line that
    cannot be read is reported by its number among all lines, whatever is wrong with it. -/
theorem grammar_files_read_by_lines (text : String) :
    ((∃ l, Lexicon.parse text = .ok l) ↔
      ∀ number item, IsItem text number item → ∃ e, LexicalEntry.read item = .ok e) ∧
    (∀ l, Lexicon.parse text = .ok l ↔ ∃ es, ReadsAs LexicalEntry.read text es ∧
      l = es.foldl Lexicon.add Lexicon.empty ∧ l.size = es.length ∧
      l.longest = (es.map (·.words.length)).max?.getD 0 ∧
      ∀ ws, l.entriesFor ws = es.filter fun e => lookupKey e.words = lookupKey ws) ∧
    (∀ error, Lexicon.parse text = .error error ↔
      ReportsFirstFault LexicalEntry.read text error) ∧
    ((∃ rules, UnaryRule.parseAll text = .ok rules) ↔
      ∀ number item, IsItem text number item → ∃ rule, UnaryRule.read item = .ok rule) ∧
    (∀ rules, UnaryRule.parseAll text = .ok rules ↔ ReadsAs UnaryRule.read text rules) ∧
    (∀ error, UnaryRule.parseAll text = .error error ↔
      ReportsFirstFault UnaryRule.read text error) := by
  have hmap : Lexicon.parse text = (readItems LexicalEntry.read text).map .ofList := rfl
  refine ⟨?_, fun l => ?_, fun error => ?_, exists_readItems_eq_ok_iff,
    fun rules => readItems_eq_ok_iff, fun error => readItems_eq_error_iff⟩
  · rw [← exists_readItems_eq_ok_iff, hmap]
    simp only [map_eq_ok_iff]
    exact ⟨fun ⟨_, es, hes, _⟩ => ⟨es, hes⟩, fun ⟨es, hes⟩ => ⟨_, es, hes, rfl⟩⟩
  · rw [hmap, map_eq_ok_iff]
    refine exists_congr fun es => and_congr readItems_eq_ok_iff ⟨?_, fun h => h.1.symm⟩
    rintro rfl
    exact ⟨rfl, Lexicon.size_ofList es, Lexicon.longest_ofList es, Lexicon.entriesFor_ofList es⟩
  · rw [hmap, map_eq_error_iff, readItems_eq_error_iff]

/-- A comment, a blank line and two entries. -/
def sampleFile : String := "// nouns\n\nBlock, N{0}\n  New York, N{3}\r\n"

def sampleEntries : List LexicalEntry :=
  [⟨["Block"], .ofCategory (.atom "N" .unspecified 0)⟩,
    ⟨["New", "York"], .ofCategory (.atom "N" .unspecified 3)⟩]

/-- The third line has a category without heads, and the fourth one no category. -/
def sampleFaultyFile : String := "block, N{0}\n\nred, (N/N){0}\nblue"

theorem grammar_files_read_by_lines_sample :
    (∃ es, ReadsAs LexicalEntry.read sampleFile es ∧ es.length = 2 ∧
      es.filter (fun e => lookupKey e.words = lookupKey ["new", "york"]) =
        [⟨["New", "York"], .ofCategory (.atom "N" .unspecified 3)⟩]) ∧
    ReportsFirstFault LexicalEntry.read sampleFaultyFile
      (.atLine 3 (.category "(N/N){0}" (.headMissing "N"))) ∧
    (¬ ∀ number item, IsItem sampleFile number item → ∃ rule, UnaryRule.read item = .ok rule) := by
  have hparse : Lexicon.parse sampleFile = .ok (.ofList sampleEntries) := by decide +kernel
  have hfault : Lexicon.parse sampleFaultyFile =
      .error (.atLine 3 (.category "(N/N){0}" (.headMissing "N"))) := by decide +kernel
  have hrule : UnaryRule.parseAll sampleFile =
      .error (.atLine 3 (.line (.notTwoCategories "Block"))) := by decide +kernel
  obtain ⟨-, hlexicon, -, hrules, -⟩ := grammar_files_read_by_lines sampleFile
  obtain ⟨es, hes, -, hsize, -, hfind⟩ := (hlexicon _).1 hparse
  refine ⟨⟨es, hes, ?_, ?_⟩, ?_, ?_⟩
  · rw [← hsize]
    decide +kernel
  · rw [← hfind]
    decide +kernel
  · exact ((grammar_files_read_by_lines sampleFaultyFile).2.2.1 _).1 hfault
  · rw [← hrules, hrule]
    exact nofun

end Categorial
