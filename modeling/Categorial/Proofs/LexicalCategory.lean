/-
  Categorial.Proofs.LexicalCategory

  Lexical categories do not depend on how their variables are numbered.  The lists of names stand in
  the order of the variables and move to the order of their first occurrence; a one-to-one renaming
  changes the first order and keeps the second (`canonicalSemantics_map`).  Whether a dependency is
  refused depends on which variables the category has, so a renaming must not send another variable
  to one of them (`withSemantics_map`).  Reading a lexicon line follows: two lines that differ in
  the numbers of their variables only are read in step (`LexicalEntry.alike_readFields`).
-/

import Categorial.Lexicon.Reader
import Categorial.Proofs.Category.Canonical
import Categorial.Proofs.Category.Reading
import Categorial.Proofs.Outcome

namespace Categorial

/-! ## Lists by their variables -/

section Lists

variable {α : Type} {ws : List Var} {nss : List α} {v w : Var}

theorem lookup_zip_cons (a : α) :
    ((w :: ws).zip (a :: nss)).lookup v = if v = w then some a else (ws.zip nss).lookup v := by
  rw [List.zip_cons_cons, List.lookup_cons]
  by_cases h : v = w
  · rw [if_pos h, beq_iff_eq.2 h]
  · rw [if_neg h, beq_false_of_ne h]

theorem lookup_zip_map {f : Var → Var} (hf : ∀ w ∈ ws, f v = f w → v = w) :
    ((ws.map f).zip nss).lookup (f v) = (ws.zip nss).lookup v := by
  induction ws generalizing nss with
  | nil => rfl
  | cons w ws ih =>
    cases nss with
    | nil => rfl
    | cons a nss =>
      have hiff : f v = f w ↔ v = w := ⟨hf w List.mem_cons_self, congrArg f⟩
      rw [List.map_cons, lookup_zip_cons, lookup_zip_cons,
        ih fun w hw => hf w (List.mem_cons_of_mem _ hw)]
      simp only [hiff]

theorem lookup_zip_self_map (g : Var → α) (hv : v ∈ ws) :
    (ws.zip (ws.map g)).lookup v = some (g v) := by
  induction ws with
  | nil => cases hv
  | cons w ws ih =>
    rw [List.map_cons, lookup_zip_cons]
    by_cases h : v = w
    · rw [if_pos h, h]
    · rw [if_neg h, ih ((List.mem_cons.1 hv).resolve_left h)]

theorem lookup_zip_getElem? (hws : ws.Nodup) {i : Nat} {a : α} (hv : ws[i]? = some v)
    (ha : nss[i]? = some a) : (ws.zip nss).lookup v = some a := by
  induction ws generalizing nss i with
  | nil => cases hv
  | cons w ws ih =>
    obtain ⟨hw, hws⟩ := List.nodup_cons.1 hws
    cases nss with
    | nil => cases ha
    | cons b nss =>
      rw [lookup_zip_cons]
      cases i with
      | zero =>
        cases hv
        cases ha
        exact if_pos rfl
      | succ i =>
        -- The variable stands further on, so it is not the first one.
        rw [List.getElem?_cons_succ] at hv ha
        have hne : v ≠ w := fun h => hw (h ▸ List.mem_of_getElem? hv)
        rw [if_neg hne, ih hws hv ha]

theorem exists_lookup_zip (hws : ws.Nodup) (hlength : nss.length = ws.length) (hv : v ∈ ws) :
    ∃ a, (ws.zip nss).lookup v = some a := by
  obtain ⟨i, hi⟩ := List.mem_iff_getElem?.1 hv
  obtain ⟨hlt, -⟩ := List.getElem?_eq_some_iff.1 hi
  exact ⟨_, lookup_zip_getElem? hws hi (List.getElem?_eq_getElem (hlength ▸ hlt))⟩

end Lists

/-! ## Renaming dependencies -/

/-- The dependency with its variables renamed. -/
def LexicalDependency.map (f : Var → Var) (d : LexicalDependency) : LexicalDependency where
  subject := match d.subject with
    | .var v => .var (f v)
    | .predicate name => .predicate name
  argument := d.argument
  object := f d.object

namespace LexicalDependency

theorem rename_eq_map (m : Renaming) (d : LexicalDependency) : d.rename m = d.map m.apply := rfl

theorem vars_map (f : Var → Var) (d : LexicalDependency) : (d.map f).vars = d.vars.map f := by
  obtain ⟨subject, k, v⟩ := d
  cases subject <;> rfl

theorem map_map (f g : Var → Var) (d : LexicalDependency) : (d.map f).map g = d.map (g ∘ f) := by
  obtain ⟨subject, k, v⟩ := d
  cases subject <;> rfl

theorem map_congr {f g : Var → Var} {d : LexicalDependency} (h : ∀ v ∈ d.vars, f v = g v) :
    d.map f = d.map g := by
  obtain ⟨subject, k, v⟩ := d
  cases subject with
  | predicate name => simp_all [map, vars]
  | var w => simp_all [map, vars]

end LexicalDependency

/-! ## Semantics -/

namespace Semantics

/-- The names for a variable of the category. -/
def names? (c : Headed) (s : Semantics) (v : Var) : Option (List String) :=
  (c.vars.zip s.names).lookup v

/-- The semantics of `c` with the variables renamed. The list of names for a variable moves to where
    its new name stands in the order of the variables. -/
def renumber (f : Var → Var) (c : Headed) (s : Semantics) : Semantics where
  names := (Headed.vars (c.map f)).map fun w => (((c.vars.map f).zip s.names).lookup w).getD []
  dependencies := s.dependencies.map (·.map f)

/-- Every variable in a dependency is a variable of the category. -/
def Declared (c : Headed) (s : Semantics) : Prop := ∀ d ∈ s.dependencies, ∀ v ∈ d.vars, v ∈ c.vars

/-- No variable in a dependency becomes a variable of the category by being renamed. -/
def Uncaptured (f : Var → Var) (c : Headed) (s : Semantics) : Prop :=
  ∀ d ∈ s.dependencies, ∀ v ∈ d.vars, f v ∈ Headed.vars (c.map f) → v ∈ c.vars

instance (c : Headed) (s : Semantics) : Decidable (s.Declared c) :=
  inferInstanceAs (Decidable (∀ d ∈ s.dependencies, ∀ v ∈ d.vars, v ∈ c.vars))

instance (f : Var → Var) (c : Headed) (s : Semantics) : Decidable (s.Uncaptured f c) :=
  inferInstanceAs (Decidable (∀ d ∈ s.dependencies, ∀ v ∈ d.vars,
    f v ∈ Headed.vars (c.map f) → v ∈ c.vars))

/-- Two semantics, each with one list of names per variable, that are the same but for the renaming
    of the variables. -/
structure Renumbers (f : Var → Var) (c : Headed) (s s' : Semantics) : Prop where
  length_eq : s.names.length = c.vars.length
  length_eq' : s'.names.length = (Headed.vars (c.map f)).length
  names?_eq : ∀ v ∈ c.vars, s'.names? (c.map f) (f v) = s.names? c v
  dependencies_eq : s'.dependencies = s.dependencies.map (·.map f)

variable {f : Var → Var} {c : Headed} {s s' : Semantics}

theorem renumbers_renumber (hf : Set.InjOn f {v | v ∈ c.vars})
    (hs : s.names.length = c.vars.length) : Renumbers f c s (s.renumber f c) := by
  refine ⟨hs, List.length_map _, fun v hv => ?_, rfl⟩
  have hmem : f v ∈ Headed.vars (c.map f) := Headed.mem_vars_map.2 ⟨v, hv, rfl⟩
  obtain ⟨names, hnames⟩ := exists_lookup_zip c.nodup_vars hs hv
  rw [names?, names?, renumber, lookup_zip_self_map _ hmem,
    lookup_zip_map fun w hw => hf hv hw, hnames, Option.getD_some]

/-- A renaming keeps declared variables declared, and the others undeclared unless it captures
    one of them. -/
theorem Renumbers.declared_iff (h : Renumbers f c s s') (hs : Uncaptured f c s) :
    Declared (c.map f) s' ↔ Declared c s := by
  simp only [Declared, h.dependencies_eq, List.forall_mem_map, LexicalDependency.vars_map]
  refine forall₄_congr fun d hd v hv => ⟨hs d hd v hv, fun hmem => ?_⟩
  exact Headed.mem_vars_map.2 ⟨v, hmem, rfl⟩

end Semantics

namespace LexicalCategory

variable {f : Var → Var} {c : Headed} {s s' : Semantics} {x : LexicalCategory}

theorem firstUndeclared?_eq_none_iff {vars : List Var} {ds : List LexicalDependency} :
    firstUndeclared? vars ds = none ↔ ∀ d ∈ ds, ∀ v ∈ d.vars, v ∈ vars := by
  simp [firstUndeclared?, undeclared?]

theorem withSemantics_eq_ok_iff :
    withSemantics c s = .ok x ↔ s.names.length = c.vars.length ∧ s.Declared c ∧
      x = ⟨c.canonical, some (canonicalSemantics c s)⟩ := by
  unfold withSemantics Semantics.Declared
  rw [← firstUndeclared?_eq_none_iff]
  by_cases hlength : s.names.length = c.vars.length
  · simp only [hlength, ne_eq, not_true_eq_false, if_false, true_and]
    cases firstUndeclared? c.vars s.dependencies with
    | none => simp [eq_comm]
    | some pair => simp
  · simp [hlength]

/-- The canonical semantics does not see the renaming: the variables occur in the same order, with
    the same names, and have the same numbers. -/
theorem canonicalSemantics_map (hf : Set.InjOn f {v | v ∈ c.vars}) (h : s.Renumbers f c s')
    (hs : s.Declared c) : canonicalSemantics (c.map f) s' = canonicalSemantics c s := by
  have hinj : ∀ v ∈ c.labels, ∀ w ∈ c.labels, f v = f w → v = w :=
    fun v hv w hw => hf (Headed.mem_vars.2 hv) (Headed.mem_vars.2 hw)
  unfold canonicalSemantics
  -- The slots stand in the order of first occurrences, which is the same for the new names.
  rw [Category.labels_map, eraseDups_map f _ hinj, List.map_map, h.dependencies_eq, List.map_map]
  congr 1
  · refine List.map_congr_left fun v hv => ?_
    have hnames := h.names?_eq v (Headed.mem_vars.2 (List.mem_eraseDups.1 hv))
    rw [Semantics.names?, Semantics.names?] at hnames
    rw [Function.comp_apply, hnames]
  · refine List.map_congr_left fun d hd => ?_
    rw [Function.comp_apply, LexicalDependency.rename_eq_map, LexicalDependency.rename_eq_map,
      LexicalDependency.map_map]
    exact LexicalDependency.map_congr fun v hv =>
      Headed.apply_numbering_map hf (Headed.mem_vars.1 (hs d hd v hv))

/-- Whatever is accepted is accepted under other variables too, and is the same lexical category. -/
theorem withSemantics_map_of_ok (hf : Set.InjOn f {v | v ∈ c.vars}) (h : s.Renumbers f c s')
    (hx : withSemantics c s = .ok x) : withSemantics (c.map f) s' = .ok x := by
  obtain ⟨-, hs, rfl⟩ := withSemantics_eq_ok_iff.1 hx
  -- Declared variables cannot be captured.
  have hdeclared := (h.declared_iff fun d hd v hv _ => hs d hd v hv).2 hs
  refine withSemantics_eq_ok_iff.2 ⟨h.length_eq', hdeclared, ?_⟩
  rw [Headed.canonical_map hf, canonicalSemantics_map hf h hs]

theorem withSemantics_map (hf : Set.InjOn f {v | v ∈ c.vars}) (h : s.Renumbers f c s')
    (hs : s.Uncaptured f c) : Alike Eq (withSemantics c s) (withSemantics (c.map f) s') := by
  cases hx : withSemantics c s with
  | ok x =>
    rw [withSemantics_map_of_ok hf h hx]
    exact .ok rfl
  | error e =>
    cases hx' : withSemantics (c.map f) s' with
    | error e' => exact .error
    | ok x' =>
      -- The renamed category is accepted, so the variables were declared to begin with.
      obtain ⟨-, hdeclared, -⟩ := withSemantics_eq_ok_iff.1 hx'
      have hok := withSemantics_eq_ok_iff.2 ⟨h.length_eq, (h.declared_iff hs).1 hdeclared, rfl⟩
      rw [hx] at hok
      cases hok

theorem ofCategory_map (hf : Set.InjOn f {v | v ∈ c.vars}) :
    ofCategory (c.map f) = ofCategory c := by
  rw [ofCategory, ofCategory, Headed.canonical_map hf]

/-! ## Slots -/

theorem length_names_canonicalSemantics (c : Headed) (s : Semantics) :
    (canonicalSemantics c s).names.length = c.canonical.vars.length := by
  rw [canonicalSemantics, List.length_map, Headed.length_vars, Headed.canonical,
    Headed.eraseDups_labels_rename_numbering, List.length_range]

/-- The names that were given for a variable stand at its number. -/
theorem names_canonicalSemantics {i : Nat} {v : Var} {names : List String}
    (hv : c.vars[i]? = some v) (hnames : s.names[i]? = some names) :
    (canonicalSemantics c s).names[c.numbering.apply v]? = some (sortedSet names) := by
  have hmem : v ∈ c.labels := Headed.mem_vars.1 (List.mem_of_getElem? hv)
  -- The slot is found by first occurrence, and what goes into it by the order of the variables.
  rw [canonicalSemantics, List.getElem?_map, Headed.apply_numbering hmem,
    List.getElem?_idxOf (List.mem_eraseDups.2 hmem), Option.map_some,
    lookup_zip_getElem? c.nodup_vars hv hnames, Option.getD_some]

theorem declared_canonicalSemantics (hs : s.Declared c) :
    (canonicalSemantics c s).Declared c.canonical := by
  intro d hd v hv
  obtain ⟨e, he, rfl⟩ := List.mem_map.1 hd
  rw [LexicalDependency.rename_eq_map, LexicalDependency.vars_map] at hv
  obtain ⟨w, hw, rfl⟩ := List.mem_map.1 hv
  exact Headed.mem_vars_map.2 ⟨w, hs e he w hw, rfl⟩

end LexicalCategory

/-! ## Parts -/

namespace Part

/-- The part with its variables renamed. -/
def map (f : Var → Var) : Part → Part
  | .naming v name => .naming (f v) name
  | .dependency d => .dependency (d.map f)

def vars : Part → List Var
  | .naming v _ => [v]
  | .dependency d => d.vars

/-- Two texts of a part that differ in the numbers of variables only: one is empty just if the other
    is, and what is read off the second is what is read off the first with its variables renamed. -/
def Renumbers (f : Var → Var) (part part' : List Char) : Prop :=
  (part = [] ↔ part' = []) ∧ ∀ p', read part' = .ok p' ↔ ∃ p, read part = .ok p ∧ p' = p.map f

theorem renumbers_of_read {f : Var → Var} {part part' : List Char} {p : Part} (hne : part ≠ [])
    (hne' : part' ≠ []) (h : read part = .ok p) (h' : read part' = .ok (p.map f)) :
    Renumbers f part part' := by
  refine ⟨iff_of_false hne hne', fun p' => ?_⟩
  simp [h, h', eq_comm]

end Part

namespace LexicalCategory

variable {f : Var → Var} {c : Headed} {s s' : Semantics} {v w : Var}

theorem length_addName (name : String) (ws : List Var) (nss : List (List String)) :
    (addName v name ws nss).length = nss.length := by
  fun_induction addName v name ws nss with
  | case1 => rfl
  | case2 _ _ _ _ _ ih => rw [List.length_cons, List.length_cons, ih]
  | case3 => rfl

theorem lookup_zip_addName (name : String) (ws : List Var) (nss : List (List String)) :
    (ws.zip (addName v name ws nss)).lookup w =
      if w = v then ((ws.zip nss).lookup w).map (· ++ [name]) else (ws.zip nss).lookup w := by
  induction ws generalizing nss with
  | nil => simp [addName]
  | cons u ws ih =>
    cases nss with
    | nil => simp [addName]
    | cons ns nss =>
      rw [addName]
      split
      · rename_i huv
        subst huv
        rw [lookup_zip_cons, lookup_zip_cons]
        by_cases hwu : w = u <;> simp [hwu]
      · rename_i huv
        rw [lookup_zip_cons, lookup_zip_cons, ih]
        by_cases hwu : w = u
        · simp [hwu, huv]
        · simp [hwu]

/-- One name more for a variable and for its new name. -/
theorem renumbers_addName (hf : Set.InjOn f {v | v ∈ c.vars}) (h : s.Renumbers f c s')
    (hv : v ∈ c.vars) (name : String) :
    Semantics.Renumbers f c { s with names := addName v name c.vars s.names }
      { s' with names := addName (f v) name (Headed.vars (c.map f)) s'.names } := by
  refine ⟨?_, ?_, fun w hw => ?_, h.dependencies_eq⟩
  · exact (length_addName _ _ _).trans h.length_eq
  · exact (length_addName _ _ _).trans h.length_eq'
  · have hiff : f w = f v ↔ w = v := ⟨fun heq => hf hw hv heq, congrArg f⟩
    have hnames := h.names?_eq w hw
    rw [Semantics.names?, Semantics.names?] at hnames ⊢
    rw [lookup_zip_addName, lookup_zip_addName, hnames]
    simp only [hiff]

/-- Parts that differ in the numbers of variables only are taken in alike. -/
theorem alike_addPart {part part' : List Char} (hf : Set.InjOn f {v | v ∈ c.vars})
    (hpart : Part.Renumbers f part part')
    (hvars : ∀ p, Part.read part = .ok p → ∀ v ∈ p.vars, f v ∈ Headed.vars (c.map f) → v ∈ c.vars)
    (h : s.Renumbers f c s') (hs : s.Uncaptured f c) :
    Alike (fun t t' => t.Renumbers f c t' ∧ t.Uncaptured f c) (addPart c s part)
      (addPart (c.map f) s' part') := by
  -- Neither text can be read, or one part is read off both, up to the renaming.
  have halike := Alike.of_ok_iff hpart.2
  unfold addPart
  generalize Part.read part = r at halike hvars
  generalize Part.read part' = r' at halike
  cases halike with
  | error => exact .error
  | ok hp =>
    rename_i p p'
    obtain ⟨-, rfl⟩ := hp
    have hvars := hvars p rfl
    cases p with
    | dependency d =>
      refine .ok ⟨⟨h.length_eq, h.length_eq', h.names?_eq, ?_⟩, ?_⟩
      · show s'.dependencies ++ [d.map f] = (s.dependencies ++ [d]).map (·.map f)
        rw [h.dependencies_eq, List.map_append, List.map_singleton]
      · intro e he
        rcases List.mem_append.1 he with he | he
        · exact hs e he
        · rw [List.mem_singleton.1 he]
          exact hvars
    | naming v name =>
      by_cases hv : v ∈ c.vars
      · have hv' : f v ∈ Headed.vars (c.map f) := Headed.mem_vars_map.2 ⟨v, hv, rfl⟩
        simp only [Part.map, hv, hv', if_true]
        exact .ok ⟨renumbers_addName hf h hv name, hs⟩
      · -- The name of a variable that the category does not have is refused on both sides.
        have hv' : f v ∉ Headed.vars (c.map f) :=
          fun hmem => hv (hvars v List.mem_cons_self hmem)
        simp only [Part.map, hv, hv', if_false]
        exact .error

theorem alike_readParts {parts parts' : List (List Char)} (hf : Set.InjOn f {v | v ∈ c.vars})
    (hparts : List.Forall₂ (Part.Renumbers f) parts parts')
    (hvars : ∀ part ∈ parts, ∀ p, Part.read part = .ok p →
      ∀ v ∈ p.vars, f v ∈ Headed.vars (c.map f) → v ∈ c.vars) :
    Alike Eq (readParts c parts) (readParts (c.map f) parts') := by
  -- The parts that are not empty correspond to each other, too.
  have hfilter := List.rel_filter (p := fun part => !part.isEmpty) (q := fun part => !part.isEmpty)
    (fun part part' (h : _ ∧ Part.Renumbers f part part') => by simpa using not_congr h.2.1)
    ((List.forall₂_and_left parts parts').2 ⟨hvars, hparts⟩)
  unfold readParts
  generalize parts.filter _ = l at hfilter
  generalize parts'.filter _ = l' at hfilter
  have hstart : Semantics.Renumbers f c ⟨c.vars.map fun _ => [], []⟩
      ⟨(Headed.vars (c.map f)).map fun _ => [], []⟩ := by
    refine ⟨List.length_map _, List.length_map _, fun v hv => ?_, rfl⟩
    rw [Semantics.names?, Semantics.names?, lookup_zip_self_map _ hv,
      lookup_zip_self_map _ (Headed.mem_vars_map.2 ⟨v, hv, rfl⟩)]
  -- Along the fold the semantics stay the same up to the renaming, and nothing is captured.
  have hfold := Alike.foldlM hfilter
    (R := fun (t t' : Semantics) => t.Renumbers f c t' ∧ t.Uncaptured f c)
    ⟨hstart, fun d hd => nomatch hd⟩
    fun s s' part part' h hpart => alike_addPart hf hpart.2 hpart.1 h.1 h.2
  cases hfilter with
  | nil => exact .ok (ofCategory_map hf).symm
  | cons => exact hfold.bind fun t t' h => withSemantics_map hf h.1 h.2

end LexicalCategory

/-! ## Lines -/

namespace Written

variable {f : Var → Var}

theorem toHeaded_map (f : Var → Var) (w : Written) :
    toHeaded (w.map (Option.map f)) = w.toHeaded.map (Category.map f) := by
  induction w with
  | atom name feature head => cases head <;> rfl
  | func d r a head ihr iha =>
    -- Without a head of its own the function takes that of the renamed result.
    simp only [Category.map, toHeaded, ihr, iha]
    cases toHeaded r with
    | error fault => rfl
    | ok r =>
      cases toHeaded a with
      | error fault => rfl
      | ok a => cases head <;> simp [Except.map, Category.map]

theorem completes_map_iff {w : Written} {c' : Headed} :
    Completes (w.map (Option.map f)) c' ↔ ∃ c, Completes w c ∧ c' = c.map f := by
  simp only [← toHeaded_iff, toHeaded_map]
  cases w.toHeaded with
  | error fault => simp [Except.map]
  | ok c => simp [Except.map, eq_comm]

end Written

namespace LexicalEntry

open Text Written

/-- The variables that the category and the parts of a line mention. -/
def mentioned (category : List Char) (parts : List (List Char)) : Set Var :=
  {v | (∃ w, Derives .category (trim category) w ∧ some v ∈ w.labels) ∨
    ∃ part ∈ parts, ∃ p, Part.read part = .ok p ∧ v ∈ p.vars}

/-- The fields of two lines that differ in the numbers of variables only, and these consistently:
    the words are the same, and there is a one-to-one renaming that leads from the category and the
    parts of the first line to those of the second. -/
inductive Renumbers (f : Var → Var) : List (List Char) → List (List Char) → Prop
  | fields {ws category category' : List Char} {parts parts' : List (List Char)}
      (hf : Set.InjOn f (mentioned category parts))
      (hcategory : ∀ w', Derives .category (trim category') w' ↔
        ∃ w, Derives .category (trim category) w ∧ w' = w.map (Option.map f))
      (hparts : List.Forall₂ (Part.Renumbers f) parts parts') :
      Renumbers f (ws :: category :: parts) (ws :: category' :: parts')

variable {f : Var → Var} {category category' : List Char}

theorem alike_parse
    (h : ∀ w', Derives .category (trim category') w' ↔
      ∃ w, Derives .category (trim category) w ∧ w' = w.map (Option.map f)) :
    Alike (fun c c' => Headed.parse (String.ofList category) = .ok c ∧ c' = c.map f)
      (Headed.parse (String.ofList category)) (Headed.parse (String.ofList category')) := by
  refine Alike.of_ok_iff fun c' => ?_
  simp only [headed_parse_iff, String.toList_ofList, h]
  constructor
  · rintro ⟨w', ⟨w, hw, rfl⟩, hc'⟩
    obtain ⟨c, hc, rfl⟩ := completes_map_iff.1 hc'
    exact ⟨c, ⟨w, hw, hc⟩, rfl⟩
  · rintro ⟨c, ⟨w, hw, hc⟩, rfl⟩
    exact ⟨_, ⟨w, hw, rfl⟩, completes_map_iff.2 ⟨c, hc, rfl⟩⟩

theorem derives_iff_of_readAll {w : Written} (h : readAll (trim category) = .ok w)
    (h' : readAll (trim category') = .ok (w.map (Option.map f))) (w' : Written) :
    Derives .category (trim category') w' ↔
      ∃ w, Derives .category (trim category) w ∧ w' = w.map (Option.map f) := by
  simp [← readAll_iff, h, h', eq_comm]

theorem mem_mentioned_of_parse {c : Headed} {parts : List (List Char)} {v : Var}
    (h : Headed.parse (String.ofList category) = .ok c) (hv : v ∈ c.vars) :
    v ∈ mentioned category parts := by
  obtain ⟨w, hw, hc⟩ := headed_parse_iff.1 h
  rw [String.toList_ofList] at hw
  exact .inl ⟨w, hw, hc.mem_labels (Headed.mem_vars.1 hv)⟩

/-- Lines that differ in the numbers of variables only give the same entry or none. -/
theorem alike_read {line line' : List Char} {fields fields' : List (List Char)}
    (hline : lineFields line = .ok fields) (hline' : lineFields line' = .ok fields')
    (h : Renumbers f fields fields') : Alike Eq (read line) (read line') := by
  cases h with
  | fields hf hcategory hparts =>
    rename_i ws category category' parts parts'
    simp only [read, hline, hline', readFields]
    cases Text.words ws with
    | nil => exact .error
    | cons word ws =>
      refine (alike_parse hcategory).bind fun c c' ⟨hc, heq⟩ => ?_
      have hvars : {v | v ∈ c.vars} ⊆ mentioned category parts :=
        fun v hv => mem_mentioned_of_parse hc hv
      subst heq
      refine Alike.bind (R := Eq) ?_ fun x x' hx => .ok (by rw [hx])
      refine LexicalCategory.alike_readParts (hf.mono hvars) hparts ?_
      -- A variable of a part that has the new name of one of the category's is that variable.
      intro part hpart p hp v hv hmem
      obtain ⟨w, hw, hwv⟩ := Headed.mem_vars_map.1 hmem
      have hvw : w = v := hf (hvars hw) (.inr ⟨part, hpart, p, hp, hv⟩) hwv
      exact hvw ▸ hw

end LexicalEntry

namespace LexicalCategory

/-- Lexical categories do not depend on how their variables are numbered. Take a category, semantics
    with one list of names per variable, and a renaming that is one-to-one on the variables of the
    category. Without the semantics the renamed category gives the same lexical category. With it,
    whatever is accepted is accepted under the new names and gives the same lexical category; and
    nothing else is accepted under the new names, provided that the renaming does not capture a
    variable which only a dependency mentions. A lexical category has one list of names per variable
    of its canonical category, the names for a variable stand at its number, and its dependencies
    mention variables of the canonical category only. Two lexicon lines that differ by a one-to-one
    renaming of their variables give the same entry or none. -/
theorem independent_of_numbering :
    (∀ (c : Headed) (s : Semantics) (f : Var → Var), s.names.length = c.vars.length →
      Set.InjOn f {v | v ∈ c.vars} →
      ofCategory (c.map f) = ofCategory c ∧
      (∀ x, withSemantics c s = .ok x → withSemantics (c.map f) (s.renumber f c) = .ok x) ∧
      (s.Uncaptured f c →
        ∀ x, withSemantics c s = .ok x ↔ withSemantics (c.map f) (s.renumber f c) = .ok x)) ∧
    (∀ (c : Headed) (s : Semantics) (x : LexicalCategory), withSemantics c s = .ok x →
      ∃ t, x = ⟨c.canonical, some t⟩ ∧ t.names.length = c.canonical.vars.length ∧
        (∀ (i : Nat) (v : Var) (names : List String), c.vars[i]? = some v →
          s.names[i]? = some names → t.names[c.numbering.apply v]? = some (sortedSet names)) ∧
        ∀ d ∈ t.dependencies, ∀ v ∈ d.vars, v ∈ c.canonical.vars) ∧
    ∀ (f : Var → Var) (line line' : String) (fields fields' : List (List Char)),
      lineFields line.toList = .ok fields → lineFields line'.toList = .ok fields' →
      LexicalEntry.Renumbers f fields fields' →
      ∀ e, LexicalEntry.parse line = .ok e ↔ LexicalEntry.parse line' = .ok e := by
  refine ⟨fun c s f hs hf => ⟨ofCategory_map hf, fun x hx => ?_, fun huncaptured => ?_⟩,
    fun c s x hx => ?_, fun f line line' fields fields' hline hline' h => ?_⟩
  · exact withSemantics_map_of_ok hf (Semantics.renumbers_renumber hf hs) hx
  · exact (withSemantics_map hf (Semantics.renumbers_renumber hf hs) huncaptured).ok_iff
  · obtain ⟨-, hdeclared, rfl⟩ := withSemantics_eq_ok_iff.1 hx
    exact ⟨_, rfl, length_names_canonicalSemantics c s,
      fun i v names => names_canonicalSemantics, declared_canonicalSemantics hdeclared⟩
  · exact (LexicalEntry.alike_read hline hline' h).ok_iff

/-- The larger variable comes first in the category and gets the smaller name. -/
def sampleRenumbering (v : Nat) : Nat := if v = 5 then 0 else v + 6

theorem sampleRenumbering_injective : Function.Injective sampleRenumbering := by
  intro v w h
  unfold sampleRenumbering at h
  split at h <;> split at h <;> omega

def sampleLine : String :=
  "sleeps, (S[dcl]{5}\\NP{1}){5}, 5 sleep, sleep 1 1"

def sampleRenumberedLine : String :=
  "sleeps, (S[dcl]{0}\\NP{7}){0}, 0 sleep, sleep 1 7"

def sampleIntransitive : Headed :=
  .func .backward (.atom "S" (.value "dcl") 5) (.atom "NP" .unspecified 1) 5

def sampleSemantics : Semantics := ⟨[[], ["sleep"]], [⟨.predicate "sleep", 1, 1⟩]⟩

def sampleLexical : LexicalCategory :=
  ⟨.func .backward (.atom "S" (.value "dcl") 0) (.atom "NP" .unspecified 1) 0,
    some ⟨[["sleep"], []], [⟨.predicate "sleep", 1, 1⟩]⟩⟩

theorem renumbers_sampleLine :
    LexicalEntry.Renumbers sampleRenumbering
      ["sleeps".toList, "(S[dcl]{5}\\NP{1}){5}".toList, "5 sleep".toList,
        "sleep 1 1".toList]
      ["sleeps".toList, "(S[dcl]{0}\\NP{7}){0}".toList, "0 sleep".toList,
        "sleep 1 7".toList] := by
  refine .fields sampleRenumbering_injective.injOn ?_ (.cons ?_ (.cons ?_ .nil))
  · exact LexicalEntry.derives_iff_of_readAll (w := .func .backward
      (.atom "S" (.value "dcl") (some 5)) (.atom "NP" .unspecified (some 1)) (some 5))
      (by decide +kernel) (by decide +kernel)
  · exact Part.renumbers_of_read (p := .naming 5 "sleep") (by decide) (by decide)
      (by decide +kernel) (by decide +kernel)
  · exact Part.renumbers_of_read (p := .dependency ⟨.predicate "sleep", 1, 1⟩) (by decide)
      (by decide) (by decide +kernel) (by decide +kernel)

theorem independent_of_numbering_sample :
    withSemantics (sampleIntransitive.map sampleRenumbering)
      (sampleSemantics.renumber sampleRenumbering sampleIntransitive) = .ok sampleLexical ∧
    sampleLexical.names.length = sampleIntransitive.canonical.vars.length ∧
    LexicalEntry.parse sampleRenumberedLine = .ok ⟨["sleeps"], sampleLexical⟩ := by
  have hok : withSemantics sampleIntransitive sampleSemantics = .ok sampleLexical := by
    decide +kernel
  obtain ⟨-, -, hiff⟩ := independent_of_numbering.1 sampleIntransitive sampleSemantics
    sampleRenumbering (by decide +kernel) sampleRenumbering_injective.injOn
  obtain ⟨t, heq, hlength, -⟩ := independent_of_numbering.2.1 _ _ _ hok
  have hline := independent_of_numbering.2.2 sampleRenumbering sampleLine sampleRenumberedLine _ _
    (by decide +kernel) (by decide +kernel) renumbers_sampleLine ⟨["sleeps"], sampleLexical⟩
  refine ⟨(hiff (by decide +kernel) _).1 hok, ?_, hline.1 (by decide +kernel)⟩
  rw [heq]
  exact hlength

/-- The renaming sends the variable that the category lacks to the new name of the one that it has.
    So a dependency which is refused becomes one that is accepted, although the renaming is
    one-to-one on the variables of the category. -/
theorem exists_capturing_renaming :
    ∃ (c : Headed) (s : Semantics) (f : Var → Var), s.names.length = c.vars.length ∧
      Set.InjOn f {v | v ∈ c.vars} ∧ (¬ ∃ x, withSemantics c s = .ok x) ∧
      ∃ x, withSemantics (c.map f) (s.renumber f c) = .ok x := by
  refine ⟨.atom "N" .unspecified 0, ⟨[["dog"]], [⟨.predicate "dog", 1, 1⟩]⟩, fun _ => 1,
    by decide +kernel, ?_, ?_, ?_⟩
  · intro v hv w hw _
    have hone : ∀ v ∈ Headed.vars (.atom "N" .unspecified 0), v = 0 := by decide +kernel
    rw [hone v hv, hone w hw]
  · rintro ⟨x, hx⟩
    obtain ⟨-, hdeclared, -⟩ := withSemantics_eq_ok_iff.1 hx
    exact absurd hdeclared (by decide +kernel)
  · exact ⟨_, withSemantics_eq_ok_iff.2 ⟨by decide +kernel, by decide +kernel, rfl⟩⟩

end LexicalCategory

end Categorial
