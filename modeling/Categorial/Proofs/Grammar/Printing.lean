/-
  Categorial.Proofs.Grammar.Printing

  Printed lexical categories and rules.  What has been read has texts in the grammar: its category
  is canonical, its numbers are in bounds and its names are words (`printable_of_readParts`,
  `UnaryRule.printable_of_readFields`).  A lexical category is printed with its names by their
  variables, and reading them puts each back into its place (`ofParts_parts`).  So lexical
  categories and rules are read back from their texts, as far as commas and quotes in names do not
  divide these in another way (`parse_printedLine`).
-/

import Categorial.Proofs.Grammar.Semantics
import Categorial.Proofs.UnaryRule
import Categorial.UnaryRule.Reader

namespace Categorial

open Text Written

/-! ## Printed categories -/

namespace Headed

/-- The grammar has texts for the category, with its heads. -/
structure Printable (c : Headed) : Prop where
  legible : c.Legible
  heads : ∀ v ∈ c.labels, v < 2 ^ 64

variable {c : Headed}

theorem printable_of_parse {s : String} (h : parse s = .ok c) : c.Printable :=
  ⟨(legible_of_headed_parse h).1, (legible_of_headed_parse h).2⟩

theorem Printable.parse_ofList (h : c.Printable) :
    parse (String.ofList c.render.toList) = .ok c := by
  rw [String.ofList_toList]
  exact (headed_parse_render h.legible h.heads).1

theorem Printable.isWord (h : c.Printable) : IsWord c.render.toList := by
  have hderives : Derives .term c.render.toList (c.map some) :=
    derives_renderWith h.legible fun v hv => isHead_renderHead (h.heads v hv)
  refine ⟨List.length_pos_iff.1 hderives.length_pos, fun ch hch => ?_⟩
  rcases c.mem_render hch with hmark | hletter
  · exact not_isBlank_of_isMark hmark
  · exact h.legible.not_isBlank hletter

/-- The numbers of variables are in bounds, since the variables are. -/
theorem Printable.canonical (h : c.Printable) : c.canonical.Printable where
  legible := by
    rw [← Category.legible_plain_iff, Headed.canonical, rename, Category.plain, Category.map_map]
    exact Category.legible_plain_iff.2 h.legible
  heads _ hv := Nat.lt_of_lt_of_le (lt_of_mem_labels_canonical hv) (length_vars_le h.heads)

theorem unquoted_render (hletters : ∀ ch ∈ c.letters, ch ∉ [',', '"']) :
    ∀ ch ∈ c.render.toList, ch ∉ [',', '"'] := by
  intro ch hch
  rcases c.mem_render hch with hmark | hletter
  · exact unquoted_of_isMark hmark
  · exact hletters ch hletter

end Headed

/-! ## Printed parts -/

namespace LexicalCategory

/-- The statements of semantics that a lexical category is printed with. -/
def parts (x : LexicalCategory) : List Part :=
  x.namings.map (fun (v, name) => .naming v name) ++ x.dependencies.map .dependency

/-- The characters of the names of a lexical category: those of its atoms, its features and its
    predicates. -/
def letters (x : LexicalCategory) : List Char :=
  x.category.letters ++ x.parts.flatMap Part.letters

theorem mem_parts {x : LexicalCategory} {p : Part} :
    p ∈ x.parts ↔
      (∃ i names name, x.names[i]? = some names ∧ name ∈ names ∧ p = .naming i name) ∨
      ∃ d ∈ x.dependencies, p = .dependency d := by
  simp only [parts, namings, List.mem_append, List.mem_map, List.mem_flatMap, Prod.exists,
    Prod.mk.injEq, List.mem_zipIdx_iff_getElem?]
  constructor
  · rintro (⟨i, name, ⟨names, j, hnames, name', hname, rfl, rfl⟩, rfl⟩ | ⟨d, hd, rfl⟩)
    · exact .inl ⟨_, names, _, hnames, hname, rfl⟩
    · exact .inr ⟨d, hd, rfl⟩
  · rintro (⟨i, names, name, hnames, hname, rfl⟩ | ⟨d, hd, rfl⟩)
    · exact .inl ⟨i, name, ⟨names, i, hnames, name, hname, rfl, rfl⟩, rfl⟩
    · exact .inr ⟨d, hd, rfl⟩

theorem filterMap_dependency?_parts (x : LexicalCategory) :
    x.parts.filterMap Part.dependency? = x.dependencies := by
  have hnamings : (x.namings.map fun (v, name) => Part.naming v name).filterMap Part.dependency? =
      [] := by
    simp [List.filterMap_map, Part.dependency?, Function.comp_def]
  rw [parts, List.filterMap_append, hnamings, List.filterMap_map]
  exact List.filterMap_some

theorem filterMap_nameFor?_naming (names : List String) (v w : Var) :
    (names.map (Part.naming w)).filterMap (Part.nameFor? v) = if v = w then names else [] := by
  rw [List.filterMap_map]
  by_cases h : v = w <;> simp [h, Part.nameFor?]

theorem filterMap_nameFor?_zipIdx (nss : List (List String)) (k v : Nat) :
    ((nss.zipIdx k).flatMap fun (names, w) => names.map (Part.naming w)).filterMap
      (Part.nameFor? v) = if k ≤ v then (nss[v - k]?).getD [] else [] := by
  induction nss generalizing k with
  | nil => simp
  | cons names nss ih =>
    rw [List.zipIdx_cons, List.flatMap_cons, List.filterMap_append, filterMap_nameFor?_naming, ih]
    -- The names are those of the first variable, or they are found among the others.
    rcases Nat.lt_trichotomy v k with hlt | rfl | hgt
    · rw [if_neg (Nat.ne_of_lt hlt), if_neg (by omega), if_neg (by omega), List.append_nil]
    · rw [if_pos rfl, if_neg (by omega), if_pos (Nat.le_refl v), Nat.sub_self, List.append_nil]
      rfl
    · rw [if_neg (Nat.ne_of_gt hgt), if_pos (by omega), if_pos (by omega), List.nil_append]
      have hsub : v - k = v - (k + 1) + 1 := by omega
      rw [hsub, List.getElem?_cons_succ]

/-- The names for a variable are printed in their order. -/
theorem filterMap_nameFor?_parts (x : LexicalCategory) (v : Var) :
    x.parts.filterMap (Part.nameFor? v) = (x.names[v]?).getD [] := by
  have hdependencies : (x.dependencies.map Part.dependency).filterMap (Part.nameFor? v) = [] := by
    simp [List.filterMap_map, Part.nameFor?, Function.comp_def]
  have hnamings : x.namings.map (fun (v, name) => Part.naming v name) =
      x.names.zipIdx.flatMap fun (names, w) => names.map (Part.naming w) := by
    rw [namings, List.map_flatMap]
    exact List.flatMap_congr fun _ _ => List.map_map
  rw [parts, List.filterMap_append, hdependencies, List.append_nil, hnamings,
    filterMap_nameFor?_zipIdx, if_pos (Nat.zero_le v), Nat.sub_zero]

theorem render_eq (x : LexicalCategory) :
    x.render.toList = listed x.category.render.toList (x.parts.map (·.render.toList)) := by
  simp [render, listed, parts, Part.render, String.toList_join, List.flatMap_map,
    Function.comp_def]

/-- The grammar has texts for a lexical category, and these are read in the one way that gives the
    lexical category. -/
structure Printable (x : LexicalCategory) : Prop where
  category : x.category.Printable
  canonical : x.category.canonical = x.category
  parts : ∀ p ∈ x.parts, p.Legible
  /-- Semantics is printed as one part at least. -/
  semantics : ∀ s ∈ x.semantics, s.Settled x.category ∧ x.parts ≠ []

/-- Each name is put back into its place. -/
theorem ofParts_parts {c : Headed} {s : Semantics} (h : s.Settled c) :
    .ofParts c (parts ⟨c, some s⟩) = s := by
  have hnames : (Semantics.ofParts c (parts ⟨c, some s⟩)).names = s.names := by
    refine Semantics.names_ext (Semantics.length_names_ofParts _ _) h.length_eq fun v hv => ?_
    have hlt : v < s.names.length := List.mem_range.1 (h.vars_eq ▸ hv)
    rw [Semantics.names?_ofParts _ hv, filterMap_nameFor?_parts, h.names?_eq hv]
    show some ((s.names[v]?).getD []) = _
    rw [List.getElem?_eq_getElem hlt, Option.getD_some]
  have hdependencies : (Semantics.ofParts c (parts ⟨c, some s⟩)).dependencies = s.dependencies := by
    rw [Semantics.dependencies_ofParts, filterMap_dependency?_parts]
    rfl
  exact congrArg₂ Semantics.mk hnames hdependencies

theorem fitsIn_of_mem_parts {c : Headed} {s : Semantics} (h : s.Settled c) {p : Part}
    (hp : p ∈ parts ⟨c, some s⟩) : p.FitsIn c := by
  rcases mem_parts.1 hp with ⟨i, names, name, hnames, -, rfl⟩ | ⟨d, -, rfl⟩
  · obtain ⟨hlt, -⟩ := List.getElem?_eq_some_iff.1 hnames
    show i ∈ c.vars
    rw [h.vars_eq]
    exact List.mem_range.2 hlt
  · trivial

theorem readParts_render {x : LexicalCategory} (h : x.Printable) :
    readParts x.category (x.parts.map (·.render.toList)) = .ok x := by
  obtain ⟨c, s?⟩ := x
  refine readParts_eq_ok_iff.2 ?_
  cases s? with
  | none =>
    refine .inl ⟨rfl, ?_⟩
    rw [ofCategory, h.canonical]
  | some s =>
    obtain ⟨hsettled, hne⟩ := h.semantics s rfl
    refine .inr ⟨_, hne, ?_, ?_⟩
    · rw [Part.filter_render h.parts, List.forall₂_map_left_iff, List.forall₂_same]
      exact fun p hp => ⟨Part.read_render (h.parts p hp), fitsIn_of_mem_parts hsettled hp⟩
    · rw [ofParts_parts hsettled]
      refine withSemantics_eq_ok_iff.2 ⟨hsettled.length_eq, hsettled.declared, ?_⟩
      rw [hsettled.canonical, hsettled.canonicalSemantics_eq]

/-! ## What has been read -/

variable {c : Headed} {ps : List Part}

theorem legible_naming (hheads : ∀ v ∈ c.labels, v < 2 ^ 64) (hps : ∀ p ∈ ps, p.Legible)
    {i : Nat} {names : List String} {name : String}
    (hnames : (canonicalSemantics c (.ofParts c ps)).names[i]? = some names)
    (hname : name ∈ names) : (Part.naming i name).Legible := by
  rw [names_canonicalSemantics_ofParts] at hnames
  obtain ⟨hlt, -⟩ := List.getElem?_eq_some_iff.1 hnames
  rw [List.length_map, ← Headed.length_vars] at hlt
  -- The name is one of those that a part has for a variable.
  obtain ⟨v, -, rfl⟩ := List.mem_map.1 (List.mem_of_getElem? hnames)
  obtain ⟨p, hp, hpname⟩ := List.mem_filterMap.1 (mem_sortedSet.1 hname)
  obtain ⟨-, hword⟩ := hps _ (Part.eq_naming_of_nameFor? hpname ▸ hp)
  exact ⟨Nat.lt_of_lt_of_le hlt (Headed.length_vars_le hheads), hword⟩

theorem legible_dependency (hheads : ∀ v ∈ c.labels, v < 2 ^ 64) (hps : ∀ p ∈ ps, p.Legible)
    (hs : (Semantics.ofParts c ps).Declared c) {d : LexicalDependency}
    (hd : d ∈ (canonicalSemantics c (.ofParts c ps)).dependencies) : d.Legible := by
  obtain ⟨e, he, rfl⟩ := List.mem_map.1 hd
  have hvars : ∀ v ∈ e.vars, c.numbering.apply v < 2 ^ 64 := fun v hv =>
    Nat.lt_of_lt_of_le (c.bijOn_numbering.1 (hs e he v hv)) (Headed.length_vars_le hheads)
  rw [Semantics.dependencies_ofParts] at he
  obtain ⟨p, hp, hpd⟩ := List.mem_filterMap.1 he
  have hlegible : (Part.dependency e).Legible :=
    hps _ (Part.eq_dependency_of_dependency? hpd ▸ hp)
  exact LexicalDependency.Legible.rename hlegible hvars

/-- A part that is taken in leaves a part to be printed. -/
theorem parts_ne_nil (hne : ps ≠ []) (hfits : ∀ p ∈ ps, p.FitsIn c) :
    parts ⟨c.canonical, some (canonicalSemantics c (.ofParts c ps))⟩ ≠ [] := by
  obtain ⟨p, hp⟩ := List.exists_mem_of_ne_nil ps hne
  cases p with
  | naming v name =>
    have hv : v ∈ c.labels.eraseDups := List.mem_eraseDups.2 (Headed.mem_vars.1 (hfits _ hp))
    have hname : name ∈ sortedSet (ps.filterMap (Part.nameFor? v)) :=
      mem_sortedSet.2 (List.mem_filterMap.2 ⟨_, hp, if_pos rfl⟩)
    have hnames : (canonicalSemantics c (.ofParts c ps)).names[c.labels.eraseDups.idxOf v]? =
        some (sortedSet (ps.filterMap (Part.nameFor? v))) := by
      rw [names_canonicalSemantics_ofParts, List.getElem?_map, List.getElem?_idxOf hv]
      rfl
    exact List.ne_nil_of_mem (mem_parts.2 (.inl ⟨_, _, name, hnames, hname, rfl⟩))
  | dependency d =>
    have hd : d ∈ (Semantics.ofParts c ps).dependencies := by
      rw [Semantics.dependencies_ofParts]
      exact List.mem_filterMap.2 ⟨_, hp, rfl⟩
    have hrename := List.mem_map_of_mem (f := (·.rename c.numbering)) hd
    exact List.ne_nil_of_mem (mem_parts.2 (.inr ⟨_, hrename, rfl⟩))

theorem printable_of_readParts {fields : List (List Char)} {x : LexicalCategory} (hc : c.Printable)
    (h : readParts c fields = .ok x) : x.Printable := by
  rcases readParts_eq_ok_iff.1 h with ⟨-, rfl⟩ | ⟨ps, hne, hread, hx⟩
  · exact ⟨hc.canonical, c.canonical_canonical, nofun, nofun⟩
  · obtain ⟨-, hdeclared, rfl⟩ := withSemantics_eq_ok_iff.1 hx
    have hps : ∀ p ∈ ps, p.Legible ∧ p.FitsIn c :=
      forall_of_forall₂_right hread fun _ _ h => ⟨Part.legible_of_read h.1, h.2⟩
    refine ⟨hc.canonical, c.canonical_canonical, fun p hp => ?_, ?_⟩
    · rcases mem_parts.1 hp with ⟨i, names, name, hnames, hname, rfl⟩ | ⟨d, hd, rfl⟩
      · exact legible_naming hc.heads (fun p hp => (hps p hp).1) hnames hname
      · exact legible_dependency hc.heads (fun p hp => (hps p hp).1) hdeclared hd
    · rintro _ ⟨⟩
      exact ⟨settled_canonicalSemantics hdeclared, parts_ne_nil hne fun p hp => (hps p hp).2⟩

end LexicalCategory

namespace LexicalEntry

theorem parse_word_render {x : LexicalCategory} (h : x.Printable)
    (hletters : ∀ c ∈ x.letters, c ∉ [',', '"']) :
    parse ("w, " ++ x.render) = .ok ⟨["w"], x⟩ := by
  have htext : ("w, " ++ x.render).toList =
      listed ['w'] (x.category.render.toList :: x.parts.map (·.render.toList)) := by
    rw [String.toList_append, LexicalCategory.render_eq]
    rfl
  have hword : IsField ['w'] :=
    ⟨List.forall_mem_singleton.2 (by decide), .of_forall (List.forall_mem_singleton.2 (by decide))⟩
  have hcategory : IsField x.category.render.toList :=
    ⟨Headed.unquoted_render fun c hc => hletters c (List.mem_append_left _ hc),
      .of_forall h.category.isWord.2⟩
  have hparts : ∀ p ∈ x.parts, IsField p.render.toList := fun p hp =>
    Part.isField_render (h.parts p hp) fun c hc =>
      hletters c (List.mem_append_right _ (List.mem_flatMap.2 ⟨p, hp, hc⟩))
  have hfields := lineFields_listed hword
    (List.forall_mem_cons.2 ⟨hcategory, List.forall_mem_map.2 hparts⟩)
  rw [parse, read, htext, hfields]
  refine bind_eq_ok_iff.2 ⟨x.category, h.category.parse_ofList, ?_⟩
  exact bind_eq_ok_iff.2 ⟨x, LexicalCategory.readParts_render h, rfl⟩

theorem printable_of_parse {line : String} {e : LexicalEntry} (h : parse line = .ok e) :
    e.category.Printable := by
  unfold parse read at h
  split at h
  · cases h
  · unfold readFields at h
    split at h
    · cases h
    · obtain ⟨c, hc, h⟩ := bind_eq_ok_iff.1 h
      obtain ⟨x, hx, h⟩ := bind_eq_ok_iff.1 h
      cases h
      exact LexicalCategory.printable_of_readParts (Headed.printable_of_parse hc) hx
  · cases h

end LexicalEntry

/-! ## Rules -/

namespace UnaryRule

/-- The characters of the names of a rule: those of its atoms and its features. -/
def letters (rule : UnaryRule) : List Char := rule.input.letters ++ rule.result.letters

/-- The grammar has texts for an accepted rule. -/
structure Printable (rule : UnaryRule) : Prop where
  input : rule.input.Printable
  result : rule.result.Printable
  dependencies : ∀ d ∈ rule.dependencies, (Part.dependency d).Legible
  valid : rule.Valid

theorem readPart_eq_ok_iff {part : List Char} {d : LexicalDependency} :
    readPart part = .ok d ↔ Part.read part = .ok (.dependency d) ∧ ∃ v, d.subject = .var v := by
  unfold readPart
  cases Part.read part with
  | error fault => simp
  | ok p =>
    cases p with
    | naming v name => simp
    | dependency e =>
      obtain ⟨subject, k, o⟩ := e
      cases subject with
      | predicate name =>
        simp only [reduceCtorEq, false_iff, not_and, not_exists]
        rintro h v hv
        cases h
        cases hv
      | var v =>
        constructor
        · intro h
          cases h
          exact ⟨rfl, v, rfl⟩
        · rintro ⟨h, -⟩
          cases h
          rfl

theorem printable_of_readFields {categories : List Char} {fields : List (List Char)}
    {rule : UnaryRule} (h : readFields categories fields = .ok rule) : rule.Printable := by
  unfold readFields at h
  split at h
  · obtain ⟨input, hinput, h⟩ := bind_eq_ok_iff.1 h
    obtain ⟨result, hresult, h⟩ := bind_eq_ok_iff.1 h
    obtain ⟨ds, hds, h⟩ := bind_eq_ok_iff.1 h
    obtain ⟨rfl, hvalid⟩ := make_eq_ok_iff.1 h
    have hlegible : ∀ d ∈ ds, (Part.dependency d).Legible :=
      forall_of_forall₂_right (mapM_eq_ok_iff.1 hds) fun _ _ h =>
        Part.legible_of_read (readPart_eq_ok_iff.1 h).1
    exact ⟨Headed.printable_of_parse hinput, Headed.printable_of_parse hresult, hlegible, hvalid⟩
  · cases h

theorem printable_of_parse {line : String} {rule : UnaryRule} (h : parse line = .ok rule) :
    rule.Printable := by
  unfold parse read at h
  split at h
  · cases h
  · exact printable_of_readFields h
  · exact printable_of_readFields h

theorem isField_categories {input result : Headed} (hinput : input.Printable)
    (hresult : result.Printable)
    (hletters : ∀ c ∈ input.letters ++ result.letters, c ∉ [',', '"']) :
    IsField (input.render.toList ++ ' ' :: result.render.toList) where
  unquoted := by
    obtain ⟨hlettersInput, hlettersResult⟩ := List.forall_mem_append.1 hletters
    refine List.forall_mem_append.2 ⟨Headed.unquoted_render hlettersInput, ?_⟩
    exact List.forall_mem_cons.2 ⟨by decide, Headed.unquoted_render hlettersResult⟩
  trimmed := hinput.isWord.trimmed_append [' '] hresult.isWord

theorem readFields_render {rule : UnaryRule} (h : rule.Printable) :
    readFields (rule.input.render.toList ++ ' ' :: rule.result.render.toList)
      ((rule.dependencies.map Part.dependency).map (·.render.toList)) = .ok rule := by
  have hfilter := Part.filter_render (List.forall_mem_map.2 h.dependencies)
  have hdependencies : ((rule.dependencies.map Part.dependency).map (·.render.toList)).mapM
      readPart = .ok rule.dependencies := by
    rw [mapM_eq_ok_iff, List.forall₂_map_left_iff, List.forall₂_map_left_iff, List.forall₂_same]
    exact fun d hd => readPart_eq_ok_iff.2
      ⟨Part.read_render (h.dependencies d hd), h.valid.subject_var d hd⟩
  rw [readFields, words_append_blank h.input.isWord, words_of_isWord h.result.isWord, hfilter]
  refine bind_eq_ok_iff.2 ⟨_, h.input.parse_ofList, ?_⟩
  refine bind_eq_ok_iff.2 ⟨_, h.result.parse_ofList, ?_⟩
  exact bind_eq_ok_iff.2 ⟨_, hdependencies, make_eq_ok_iff.2 ⟨rfl, h.valid⟩⟩

theorem parse_render_of_printable {rule : UnaryRule} (h : rule.Printable)
    (hletters : ∀ c ∈ rule.letters, c ∉ [',', '"']) : parse rule.render = .ok rule := by
  have htext : rule.render.toList =
      listed (rule.input.render.toList ++ ' ' :: rule.result.render.toList)
        ((rule.dependencies.map Part.dependency).map (·.render.toList)) := by
    simp [render, listed, Part.render, String.toList_join, List.flatMap_map]
  have hcategories := isField_categories h.input h.result hletters
  -- The subjects are variables, so the dependencies have no names.
  have hparts : ∀ field ∈ (rule.dependencies.map Part.dependency).map (·.render.toList),
      IsField field := by
    refine List.forall_mem_map.2 (List.forall_mem_map.2 fun d hd => ?_)
    obtain ⟨v, hv⟩ := h.valid.subject_var d hd
    refine Part.isField_render (h.dependencies d hd) fun c hc => ?_
    rw [Part.letters, hv] at hc
    cases hc
  rw [parse, read, htext, lineFields_listed hcategories hparts]
  exact readFields_render h

end UnaryRule

/-! ## Lines -/

/-- Lexical categories and rules that have been read are read back from what they are printed as,
    unless one of their names has a comma or a quote: a lexical category on a lexicon line for some
    word, a rule on a line of its own. -/
theorem parse_printedLine :
    (∀ (line : String) (e : LexicalEntry), LexicalEntry.parse line = .ok e →
      (∀ c ∈ e.category.letters, c ∉ [',', '"']) →
      LexicalEntry.parse ("w, " ++ e.category.render) = .ok ⟨["w"], e.category⟩) ∧
    ∀ (line : String) (rule : UnaryRule), UnaryRule.parse line = .ok rule →
      (∀ c ∈ rule.letters, c ∉ [',', '"']) → UnaryRule.parse rule.render = .ok rule :=
  ⟨fun _ _ h => LexicalEntry.parse_word_render (LexicalEntry.printable_of_parse h),
    fun _ _ h => UnaryRule.parse_render_of_printable (UnaryRule.printable_of_parse h)⟩

/-- A phrase of two words whose head has two names. -/
def samplePhrase : LexicalCategory :=
  ⟨.func .backward (.atom "S" (.value "dcl") 0) (.atom "NP" .unspecified 1) 0,
    some ⟨[["quit", "stop"], []], [⟨.predicate "quit", 1, 1⟩, ⟨.var 0, 2, 1⟩]⟩⟩

def sampleRaising : UnaryRule :=
  ⟨.atom "N" (.var 2) 3,
    .func .forward (.atom "S" .unspecified 1)
      (.func .backward (.atom "S" .unspecified 1) (.atom "N" (.var 2) 3) 1) 1,
    [⟨.var 1, 1, 3⟩]⟩

def samplePhraseLine : String :=
  "give \"up\", (S[dcl]{5}\\NP{1}){5}, 5 stop, quit 1 1, 5 quit,, {5} 2 1"

def sampleRaisingLine : String :=
  "N[+2]{3} S{1}/(S{1}\\N[2]{3}), {1} 1 {3}"

theorem parse_printedLine_sample :
    LexicalEntry.parse samplePhraseLine = .ok ⟨["give", "up"], samplePhrase⟩ ∧
      samplePhrase.render =
        "(S[dcl]{0}\\NP{1}){0}, 0 quit, 0 stop, quit 1 1, {0} 2 1" ∧
      LexicalEntry.parse ("w, " ++ samplePhrase.render) = .ok ⟨["w"], samplePhrase⟩ ∧
      UnaryRule.parse sampleRaisingLine = .ok sampleRaising ∧
      UnaryRule.parse sampleRaising.render = .ok sampleRaising := by
  have hphrase : LexicalEntry.parse samplePhraseLine = .ok ⟨["give", "up"], samplePhrase⟩ := by
    decide +kernel
  have hraising : UnaryRule.parse sampleRaisingLine = .ok sampleRaising := by decide +kernel
  have hphraseLetters : (samplePhrase.letters.all fun c => !([',', '"'].contains c)) = true := by
    decide +kernel
  have hraisingLetters : (sampleRaising.letters.all fun c => !([',', '"'].contains c)) = true := by
    decide +kernel
  have hphraseAgain := parse_printedLine.1 _ _ hphrase fun c hc => by
    simpa using List.all_eq_true.1 hphraseLetters c hc
  have hraisingAgain := parse_printedLine.2 _ _ hraising fun c hc => by
    simpa using List.all_eq_true.1 hraisingLetters c hc
  exact ⟨hphrase, by decide +kernel, hphraseAgain, hraising, hraisingAgain⟩

end Categorial
