/-
  Categorial.Proofs.Grammar.Semantics

  Semantics as its parts state it.  Reading the parts of a lexicon line takes them in one after the
  other (`readParts_eq_ok_iff`), so a variable gets the names that the parts have for it, in their
  order (`names?_ofParts`).  What is kept is the semantics of a canonical category, with sets of
  names (`settled_canonicalSemantics`), and making it canonical again changes nothing
  (`Settled.canonicalSemantics_eq`).
-/

import Categorial.Proofs.Grammar.Parts
import Categorial.Proofs.LexicalCategory

namespace Categorial

/-! ## Taking parts in -/

namespace Part

/-- The name that a part gives to a variable. -/
def nameFor? (v : Var) : Part → Option String
  | .naming w name => if v = w then some name else none
  | .dependency _ => none

def dependency? : Part → Option LexicalDependency
  | .naming .. => none
  | .dependency d => some d

theorem eq_naming_of_nameFor? {p : Part} {v : Var} {name : String}
    (h : p.nameFor? v = some name) : p = .naming v name := by
  cases p with
  | naming w name' =>
    rw [nameFor?] at h
    split at h
    · rename_i hvw
      cases h
      rw [hvw]
    · cases h
  | dependency d => cases h

theorem eq_dependency_of_dependency? {p : Part} {d : LexicalDependency}
    (h : p.dependency? = some d) : p = .dependency d := by
  cases p with
  | naming v name => cases h
  | dependency e => rw [Option.some.inj h]

/-- A naming is for a variable of the category. -/
def FitsIn (c : Headed) : Part → Prop
  | .naming v _ => v ∈ c.vars
  | .dependency _ => True

end Part

namespace Semantics

/-- The semantics of `c` with a part taken in. -/
def take (c : Headed) (s : Semantics) : Part → Semantics
  | .naming v name => { s with names := LexicalCategory.addName v name c.vars s.names }
  | .dependency d => { s with dependencies := s.dependencies ++ [d] }

variable {c : Headed} {s : Semantics} {ps : List Part} {v : Var}

theorem length_names_foldl_take (c : Headed) (s : Semantics) (ps : List Part) :
    (ps.foldl (take c) s).names.length = s.names.length := by
  induction ps generalizing s with
  | nil => rfl
  | cons p ps ih =>
    rw [List.foldl_cons, ih]
    cases p with
    | naming v name => exact LexicalCategory.length_addName _ _ _
    | dependency d => rfl

theorem dependencies_foldl_take (c : Headed) (s : Semantics) (ps : List Part) :
    (ps.foldl (take c) s).dependencies = s.dependencies ++ ps.filterMap Part.dependency? := by
  induction ps generalizing s with
  | nil => exact (List.append_nil _).symm
  | cons p ps ih =>
    rw [List.foldl_cons, ih]
    cases p with
    | naming v name => rfl
    | dependency d => exact List.append_assoc _ _ _

/-- A variable gets the names that the parts have for it, in their order. -/
theorem names?_foldl_take (c : Headed) (s : Semantics) (ps : List Part) (v : Var) :
    (ps.foldl (take c) s).names? c v =
      (s.names? c v).map (· ++ ps.filterMap (Part.nameFor? v)) := by
  induction ps generalizing s with
  | nil => simp
  | cons p ps ih =>
    rw [List.foldl_cons, ih]
    cases p with
    | naming w name =>
      rw [names?, take, LexicalCategory.lookup_zip_addName, List.filterMap_cons, Part.nameFor?,
        names?]
      by_cases hvw : v = w
      · simp [hvw, Function.comp_def]
      · simp [hvw]
    | dependency d => rfl

/-- The lists of names are determined by what is looked up in them. -/
theorem names_ext {s' : Semantics} (hs : s.names.length = c.vars.length)
    (hs' : s'.names.length = c.vars.length) (h : ∀ v ∈ c.vars, s.names? c v = s'.names? c v) :
    s.names = s'.names := by
  refine List.ext_getElem (hs.trans hs'.symm) fun i hi hi' => ?_
  -- Each place belongs to one variable, and looking that variable up leads to the place.
  have hlt : i < c.vars.length := hs ▸ hi
  have hlookup := h _ (List.getElem_mem hlt)
  rw [names?, names?,
    lookup_zip_getElem? c.nodup_vars (List.getElem?_eq_getElem hlt) (List.getElem?_eq_getElem hi),
    lookup_zip_getElem? c.nodup_vars (List.getElem?_eq_getElem hlt)
      (List.getElem?_eq_getElem hi')] at hlookup
  exact Option.some.inj hlookup

/-- The semantics that parts state. -/
def ofParts (c : Headed) (ps : List Part) : Semantics :=
  ps.foldl (take c) ⟨c.vars.map fun _ => [], []⟩

theorem length_names_ofParts (c : Headed) (ps : List Part) :
    (ofParts c ps).names.length = c.vars.length := by
  rw [ofParts, length_names_foldl_take, List.length_map]

theorem dependencies_ofParts (c : Headed) (ps : List Part) :
    (ofParts c ps).dependencies = ps.filterMap Part.dependency? := by
  rw [ofParts, dependencies_foldl_take, List.nil_append]

theorem names?_ofParts (ps : List Part) (hv : v ∈ c.vars) :
    (ofParts c ps).names? c v = some (ps.filterMap (Part.nameFor? v)) := by
  rw [ofParts, names?_foldl_take, names?, lookup_zip_self_map _ hv]
  rfl

end Semantics

namespace LexicalCategory

theorem addPart_eq_ok_iff (c : Headed) (s : Semantics) (part : List Char) (s' : Semantics) :
    addPart c s part = .ok s' ↔
      ∃ p, (Part.read part = .ok p ∧ p.FitsIn c) ∧ s' = s.take c p := by
  unfold addPart
  cases Part.read part with
  | error fault => simp
  | ok p =>
    cases p with
    | dependency d => simp [Part.FitsIn, Semantics.take, eq_comm]
    | naming v name =>
      by_cases hv : v ∈ c.vars
      · simp [Part.FitsIn, Semantics.take, hv, eq_comm]
      · simp [Part.FitsIn, hv]

theorem foldlM_addPart_eq_ok_iff {c : Headed} {s s' : Semantics} {parts : List (List Char)} :
    parts.foldlM (addPart c) s = .ok s' ↔
      ∃ ps, List.Forall₂ (fun part p => Part.read part = .ok p ∧ p.FitsIn c) parts ps ∧
        s' = ps.foldl (Semantics.take c) s :=
  foldlM_eq_ok_iff (addPart_eq_ok_iff c)

theorem readParts_eq_ok_iff {c : Headed} {parts : List (List Char)} {x : LexicalCategory} :
    readParts c parts = .ok x ↔
      (parts.filter (!·.isEmpty) = [] ∧ x = ofCategory c) ∨
      ∃ ps, ps ≠ [] ∧ List.Forall₂ (fun part p => Part.read part = .ok p ∧ p.FitsIn c)
          (parts.filter (!·.isEmpty)) ps ∧
        withSemantics c (.ofParts c ps) = .ok x := by
  unfold readParts
  generalize parts.filter (!·.isEmpty) = parts
  cases parts with
  | nil =>
    constructor
    · intro h
      cases h
      exact .inl ⟨rfl, rfl⟩
    · rintro (⟨-, rfl⟩ | ⟨ps, hne, hps, -⟩)
      · rfl
      · cases hps
        exact absurd rfl hne
  | cons part parts =>
    constructor
    · intro h
      obtain ⟨s, hs, hx⟩ := bind_eq_ok_iff.1 h
      obtain ⟨ps, hps, rfl⟩ := foldlM_addPart_eq_ok_iff.1 hs
      -- One part at least has been read.
      refine .inr ⟨ps, ?_, hps, hx⟩
      rintro rfl
      cases hps
    · rintro (⟨hnil, -⟩ | ⟨ps, -, hps, hx⟩)
      · cases hnil
      · exact bind_eq_ok_iff.2 ⟨_, foldlM_addPart_eq_ok_iff.2 ⟨ps, hps, rfl⟩, hx⟩

end LexicalCategory

/-! ## Renamed dependencies -/

theorem LexicalDependency.map_id (d : LexicalDependency) : d.map id = d := by
  obtain ⟨subject, k, v⟩ := d
  cases subject <;> rfl

theorem LexicalDependency.Legible.rename {d : LexicalDependency} {m : Renaming} (h : d.Legible)
    (hvars : ∀ v ∈ d.vars, m.apply v < 2 ^ 64) : (d.rename m).Legible := by
  obtain ⟨subject, k, v⟩ := d
  obtain ⟨hsubject, hargument, -⟩ := h
  cases subject with
  | predicate name => exact ⟨hsubject, hargument, hvars v List.mem_cons_self⟩
  | var w =>
    exact ⟨hvars w (List.mem_cons_of_mem _ List.mem_cons_self), hargument,
      hvars v List.mem_cons_self⟩

/-! ## Settled semantics -/

/-- The semantics of a canonical category as it is kept: the names for each variable are a set, and
    the dependencies mention no other variables. -/
structure Semantics.Settled (c : Headed) (s : Semantics) : Prop where
  canonical : c.canonical = c
  length_eq : s.names.length = c.vars.length
  names : ∀ names ∈ s.names, sortedSet names = names
  declared : s.Declared c

namespace Semantics.Settled

variable {c : Headed} {s : Semantics}

theorem vars_eq (h : s.Settled c) : c.vars = List.range s.names.length := by
  have hvars := c.vars_canonical
  rw [h.canonical] at hvars
  rw [h.length_eq, ← hvars]

/-- The variables of a canonical category are the places of their names. -/
theorem names?_eq (h : s.Settled c) {v : Var} (hv : v ∈ c.vars) :
    s.names? c v = s.names[v]? := by
  rw [h.vars_eq, List.mem_range] at hv
  have hget : c.vars[v]? = some v := by rw [h.vars_eq, List.getElem?_range hv]
  rw [names?, List.getElem?_eq_getElem hv]
  exact lookup_zip_getElem? c.nodup_vars hget (List.getElem?_eq_getElem hv)

theorem canonicalSemantics_eq (h : s.Settled c) : LexicalCategory.canonicalSemantics c s = s := by
  have hnames : (c.vars.map fun v => sortedSet ((s.names? c v).getD [])) = s.names := by
    calc c.vars.map (fun v => sortedSet ((s.names? c v).getD []))
        = c.vars.map (fun v => (s.names[v]?).getD []) := by
          refine List.map_congr_left fun v hv => ?_
          have hlt : v < s.names.length := List.mem_range.1 (h.vars_eq ▸ hv)
          rw [h.names?_eq hv, List.getElem?_eq_getElem hlt, Option.getD_some]
          exact h.names _ (List.getElem_mem hlt)
      _ = s.names := by
          rw [h.vars_eq]
          exact List.ext_getElem (by simp) fun i _ hi => by simp [List.getElem?_eq_getElem hi]
  have hdependencies : s.dependencies.map (·.rename c.numbering) = s.dependencies := by
    refine (List.map_congr_left fun d hd => ?_).trans (List.map_id _)
    rw [LexicalDependency.rename_eq_map]
    -- A canonical category numbers its variables by themselves.
    refine (LexicalDependency.map_congr fun v hv => ?_).trans d.map_id
    exact Headed.apply_numbering_of_canonical h.canonical (Headed.mem_vars.1 (h.declared d hd v hv))
  rw [LexicalCategory.canonicalSemantics, Headed.eraseDups_labels_of_canonical h.canonical,
    hdependencies]
  exact congrArg (Semantics.mk · s.dependencies) hnames

end Semantics.Settled

namespace LexicalCategory

/-- What is kept is settled. -/
theorem settled_canonicalSemantics {c : Headed} {s : Semantics} (hs : s.Declared c) :
    (canonicalSemantics c s).Settled c.canonical where
  canonical := c.canonical_canonical
  length_eq := length_names_canonicalSemantics c s
  names names hnames := by
    obtain ⟨v, -, rfl⟩ := List.mem_map.1 hnames
    exact sortedSet_sortedSet _
  declared := declared_canonicalSemantics hs

theorem names_canonicalSemantics_ofParts (c : Headed) (ps : List Part) :
    (canonicalSemantics c (.ofParts c ps)).names =
      c.labels.eraseDups.map fun v => sortedSet (ps.filterMap (Part.nameFor? v)) := by
  refine List.map_congr_left fun v hv => ?_
  have hnames := Semantics.names?_ofParts ps (Headed.mem_vars.2 (List.mem_eraseDups.1 hv))
  rw [Semantics.names?] at hnames
  rw [hnames, Option.getD_some]

end LexicalCategory

end Categorial
