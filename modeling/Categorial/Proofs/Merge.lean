/-
  Categorial.Proofs.Merge

  Pending dependencies under renamings and resolution.  A renaming succeeds just when all the
  variables of a dependency have an image (`rename?_isSome_iff`).  Resolution chooses, for each side
  that waits for a variable, one of the predicates that are known for it, and leaves the side as it
  is if there is none; all choices are made (`resolve_outcomes`).
-/

import Categorial.Merge
import Categorial.Proofs.Sorting
import Mathlib.Data.Finset.Basic
import Mathlib.Data.Multiset.Bind

namespace Categorial

/-! ## Links -/

/-- One side of a dependency. -/
inductive Side where
  | predicate (p : Predicate)
  | var (v : Var)
  deriving DecidableEq

/-- A dependency, filled or pending: both sides may be variables. -/
structure Link where
  subject : Side
  argument : Nat
  object : Side
  deriving DecidableEq

def Side.vars : Side → List Var
  | .predicate _ => []
  | .var v => [v]

namespace Link

/-- The variables that a link waits for. -/
def vars (l : Link) : List Var := l.subject.vars ++ l.object.vars

end Link

def Dependency.link (d : Dependency) : Link :=
  ⟨.predicate d.subject, d.argument, .predicate d.object⟩

def Pending.link : Pending → Link
  | .objectOpen s k o => ⟨.predicate s, k, .var o⟩
  | .subjectOpen s k o => ⟨.var s, k, .predicate o⟩
  | .bothOpen s k o => ⟨.var s, k, .var o⟩

theorem Dependency.vars_link (d : Dependency) : d.link.vars = [] := rfl

theorem Pending.vars_link (d : Pending) : d.link.vars = d.vars := by
  cases d <;> rfl

theorem Pending.vars_ne_nil (d : Pending) : d.vars ≠ [] := by
  cases d <;> simp [vars, subjectVar?, objectVar?]

/-! ## Outcomes -/

/-- What may stand for a side: the predicates known for its variable, or the side itself. -/
def Side.outcomes (known : Var → Finset Predicate) : Side → Multiset Side
  | .predicate p => {.predicate p}
  | .var v => if known v = ∅ then {.var v} else (known v).val.map .predicate

/-- What becomes of a link: every choice of an outcome for each side. -/
def Link.outcomes (known : Var → Finset Predicate) (l : Link) : Multiset Link :=
  (l.subject.outcomes known).bind fun s =>
    (l.object.outcomes known).map fun o => ⟨s, l.argument, o⟩

theorem Side.outcomes_ne_zero (known : Var → Finset Predicate) (s : Side) :
    s.outcomes known ≠ 0 := by
  cases s with
  | predicate p => exact Multiset.singleton_ne_zero _
  | var v =>
    rw [outcomes]
    split
    · exact Multiset.singleton_ne_zero _
    · rename_i h
      rw [Ne, Multiset.map_eq_zero, Finset.val_eq_zero]
      exact h

/-- A side that still waits for a variable waits for one about which nothing is known. -/
theorem Side.unknown_of_mem_outcomes {known : Var → Finset Predicate} {s o : Side}
    (h : o ∈ s.outcomes known) {v : Var} (hv : v ∈ o.vars) : known v = ∅ ∧ s = .var v := by
  cases s with
  | predicate p =>
    rw [outcomes, Multiset.mem_singleton] at h
    subst h
    cases hv
  | var w =>
    rw [outcomes] at h
    split at h
    · -- Nothing is known about `w`, and the side has stayed as it was.
      rename_i hw
      rw [Multiset.mem_singleton] at h
      subst h
      rw [vars, List.mem_singleton] at hv
      rw [hv]
      exact ⟨hw, rfl⟩
    · obtain ⟨p, -, rfl⟩ := Multiset.mem_map.1 h
      cases hv

namespace Link

variable {known : Var → Finset Predicate} {l o : Link}

theorem mem_outcomes :
    o ∈ l.outcomes known ↔ o.subject ∈ l.subject.outcomes known ∧
      o.object ∈ l.object.outcomes known ∧ o.argument = l.argument := by
  simp only [outcomes, Multiset.mem_bind, Multiset.mem_map]
  constructor
  · rintro ⟨s, hs, x, hx, rfl⟩
    exact ⟨hs, hx, rfl⟩
  · rintro ⟨hs, hx, hk⟩
    refine ⟨o.subject, hs, o.object, hx, ?_⟩
    rw [← hk]

theorem outcomes_ne_zero (known : Var → Finset Predicate) (l : Link) : l.outcomes known ≠ 0 := by
  obtain ⟨s, hs⟩ := Multiset.exists_mem_of_ne_zero (l.subject.outcomes_ne_zero known)
  obtain ⟨x, hx⟩ := Multiset.exists_mem_of_ne_zero (l.object.outcomes_ne_zero known)
  have hmem : (⟨s, l.argument, x⟩ : Link) ∈ l.outcomes known := mem_outcomes.2 ⟨hs, hx, rfl⟩
  intro hzero
  rw [hzero] at hmem
  exact Multiset.notMem_zero _ hmem

theorem unknown_of_mem_outcomes (h : o ∈ l.outcomes known) {v : Var} (hv : v ∈ o.vars) :
    known v = ∅ := by
  obtain ⟨hs, hx, -⟩ := mem_outcomes.1 h
  rcases List.mem_append.1 hv with hv | hv
  · exact (Side.unknown_of_mem_outcomes hs hv).1
  · exact (Side.unknown_of_mem_outcomes hx hv).1

end Link

/-! ## Renaming -/

namespace Pending

variable {m : Renaming} {d d' : Pending}

theorem rename?_isSome_iff :
    (d.rename? m).isSome = true ↔ ∀ v ∈ d.vars, (m.image? v).isSome = true := by
  cases d with
  | objectOpen s k o => simp [rename?, vars, subjectVar?, objectVar?]
  | subjectOpen s k o => simp [rename?, vars, subjectVar?, objectVar?]
  | bothOpen s k o =>
    cases hs : m.image? s <;> cases ho : m.image? o <;>
      simp [rename?, vars, subjectVar?, objectVar?, hs, ho]

end Pending

/-- Renames the variables of a link; those without an image stay as they are. -/
def Link.rename (m : Renaming) (l : Link) : Link where
  subject := match l.subject with
    | .predicate p => .predicate p
    | .var v => .var (m.apply v)
  argument := l.argument
  object := match l.object with
    | .predicate p => .predicate p
    | .var v => .var (m.apply v)

theorem Link.vars_rename (m : Renaming) (l : Link) : (l.rename m).vars = l.vars.map m.apply := by
  obtain ⟨s, k, o⟩ := l
  cases s <;> cases o <;> rfl

/-- A renaming that leads back to the variables of a link leads back to the link. -/
theorem Link.rename_rename {m m' : Renaming} {l : Link}
    (h : ∀ v ∈ l.vars, m'.apply (m.apply v) = v) : (l.rename m).rename m' = l := by
  obtain ⟨s, k, o⟩ := l
  cases s <;> cases o <;> simp_all [rename, vars, Side.vars]

theorem Renaming.apply_of_image? {m : Renaming} {v w : Var} (h : m.image? v = some w) :
    m.apply v = w := by
  rw [apply, h]
  rfl

theorem Pending.link_of_rename? {m : Renaming} {d d' : Pending} (h : d.rename? m = some d') :
    d'.link = d.link.rename m := by
  cases d with
  | objectOpen s k o =>
    obtain ⟨o', ho, rfl⟩ := Option.map_eq_some_iff.1 h
    simp only [link, Link.rename, Renaming.apply_of_image? ho]
  | subjectOpen s k o =>
    obtain ⟨s', hs, rfl⟩ := Option.map_eq_some_iff.1 h
    simp only [link, Link.rename, Renaming.apply_of_image? hs]
  | bothOpen s k o =>
    cases hs : m.image? s <;> cases ho : m.image? o <;> simp [rename?, hs, ho] at h
    subst h
    simp only [link, Link.rename, Renaming.apply_of_image? hs, Renaming.apply_of_image? ho]

/-! ## Resolution -/

instance : Std.LawfulEqOrd Assignment where
  eq_of_compare {a b} h := by
    obtain ⟨hv, hp⟩ := compareLex_eq_eq.1 h
    have hv : a.var = b.var := Std.LawfulEqOrd.eq_of_compare hv
    have hp : a.predicate = b.predicate := Std.LawfulEqOrd.eq_of_compare hp
    cases a
    cases b
    simp_all

/-- The predicates that a list of assignments gives to a variable. -/
def knownIn (assignments : List Assignment) (v : Var) : Finset Predicate :=
  ((assignments.filter (·.var = v)).map Assignment.predicate).toFinset

theorem mem_knownIn {assignments : List Assignment} {v : Var} {p : Predicate} :
    p ∈ knownIn assignments v ↔ ⟨v, p⟩ ∈ assignments := by
  simp only [knownIn, List.mem_toFinset, List.mem_map, List.mem_filter, decide_eq_true_iff]
  constructor
  · rintro ⟨a, ⟨ha, rfl⟩, rfl⟩
    exact ha
  · intro h
    exact ⟨_, ⟨h, rfl⟩, rfl⟩

namespace Merge

theorem coe_predicatesOf (m : Merge) (v : Var) :
    (m.predicatesOf v : Multiset Predicate) = (knownIn m.assignments v).val := by
  -- Neither side repeats a predicate, so it is enough that they have the same ones.
  have hnodup : (m.predicatesOf v : Multiset Predicate).Nodup :=
    (strictlyAscending_sortedSet _).nodup
  rw [Multiset.Nodup.ext hnodup (Finset.nodup _)]
  intro p
  simp only [predicatesOf, Multiset.mem_coe, mem_sortedSet, knownIn, Finset.mem_val,
    List.mem_toFinset, beq_eq_decide]

end Merge

/-- What may stand for a side when lists of predicates are known, in their order. -/
def Side.choices (known : Var → List Predicate) : Side → List Side
  | .predicate p => [.predicate p]
  | .var v => if known v = [] then [.var v] else (known v).map .predicate

theorem Side.coe_choices {known : Var → List Predicate} {set : Var → Finset Predicate}
    (hset : ∀ v, (known v : Multiset Predicate) = (set v).val) (s : Side) :
    (s.choices known : Multiset Side) = s.outcomes set := by
  cases s with
  | predicate p => rfl
  | var v =>
    have hempty : set v = ∅ ↔ known v = [] := by
      rw [← Finset.val_eq_zero, ← hset, Multiset.coe_eq_zero]
    rw [choices, outcomes, ← hset]
    by_cases hv : known v = [] <;> simp [hempty, hv]

/-- Resolution goes through the choices for the subject and, for each, those for the object. -/
theorem Pending.resolve_choices (known : Var → List Predicate) (d : Pending) :
    (d.resolve known).filledPart.map Dependency.link ++
        ((d.resolve known).pendingPart d).map Pending.link =
      (d.link.subject.choices known).flatMap fun s =>
        (d.link.object.choices known).map fun o => ⟨s, d.argument, o⟩ := by
  -- Where nothing is known the dependency stays, and it is the only choice for its sides.
  cases d with
  | objectOpen s k o =>
    cases ho : known o <;>
      simp [resolve, link, argument, Dependency.link, Side.choices, Resolution.filledPart,
        Resolution.pendingPart, ho]
  | subjectOpen s k o =>
    cases hs : known s <;>
      simp [resolve, link, argument, Dependency.link, Side.choices, Resolution.filledPart,
        Resolution.pendingPart, hs, List.flatMap_map, ← List.map_eq_flatMap, Function.comp_def]
  | bothOpen s k o =>
    cases hs : known s <;> cases ho : known o <;>
      simp [resolve, link, argument, Dependency.link, Side.choices, Resolution.filledPart,
        Resolution.pendingPart, hs, ho, List.flatMap_map, List.map_flatMap,
        ← List.map_eq_flatMap, Function.comp_def]

/-- Resolution makes every choice: what it fills and what it leaves pending are the outcomes. -/
theorem Pending.resolve_outcomes {known : Var → List Predicate} {set : Var → Finset Predicate}
    (hset : ∀ v, (known v : Multiset Predicate) = (set v).val) (d : Pending) :
    (((d.resolve known).filledPart.map Dependency.link ++
      ((d.resolve known).pendingPart d).map Pending.link : List Link) : Multiset Link) =
      d.link.outcomes set := by
  have hargument : d.link.argument = d.argument := by cases d <;> rfl
  rw [resolve_choices, Link.outcomes, ← Side.coe_choices hset, ← Side.coe_choices hset, hargument]
  simp only [Multiset.map_coe, Multiset.coe_bind]

end Categorial
