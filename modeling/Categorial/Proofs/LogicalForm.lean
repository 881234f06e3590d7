/-
  Categorial.Proofs.LogicalForm

  What a guessed logical form owes to its category.  Renaming the variables of a category one-to-one
  renames those of its logical form and changes nothing else: which argument heads the body depends
  on the shapes of categories and on which variables are the same, and both are kept
  (`headArgument?_map`).  There is no form just if two arguments are headed by one variable
  (`induce_eq_error_iff`).  The parameters of a lambda term are the heads of the arguments of the
  category, but the body also has the heads of the arguments of one of these arguments, which need
  not be among them (`vars_bodyOf`).
-/

import Categorial.LogicalForm
import Categorial.Proofs.Category.Alignment
import Categorial.Proofs.Category.Canonical
import Mathlib.Data.List.Find

namespace Categorial

/-! ## The spine of a renamed category -/

namespace Category

variable {α β : Type}

theorem arguments_map (f : α → β) (c : Category α) :
    (c.map f).arguments = c.arguments.map (map f) := by
  induction c with
  | atom => rfl
  | func d r a l ihr _ => rw [map, arguments, arguments, ihr, List.map_cons]

theorem target_map (f : α → β) (c : Category α) : (c.map f).target = c.target.map f := by
  induction c with
  | atom => rfl
  | func d r a l ihr _ => rw [map, target, target, ihr]

@[simp] theorem isAtom_map (f : α → β) (c : Category α) : (c.map f).isAtom = c.isAtom := by
  cases c <;> rfl

@[simp] theorem name?_map (f : α → β) (c : Category α) : (c.map f).name? = c.name? := by
  cases c <;> rfl

theorem withoutFeatures_map (f : α → β) (c : Category α) :
    (c.map f).withoutFeatures = c.withoutFeatures.map f := by
  induction c with
  | atom => rfl
  | func d r a l ihr iha => simp only [map, withoutFeatures, ihr, iha]

/-- Labels do not count for unification. -/
theorem unifiable_map {γ δ : Type} (f : α → γ) (g : β → δ) (c : Category α) (c' : Category β) :
    (c.map f).unifiable (c'.map g) = c.unifiable c' := by
  rw [Bool.eq_iff_iff, unifiable_iff, unifiable_iff]
  simp only [shape_map, facing, features_map]

theorem label_mem_labels_of_mem_arguments {c a : Category α} (h : a ∈ c.arguments) :
    a.label ∈ c.labels := by
  induction c with
  | atom => cases h
  | func d r b l ihr _ =>
    refine List.mem_cons_of_mem _ (List.mem_append.2 ?_)
    rcases List.mem_cons.1 h with rfl | h
    · exact .inr a.label_mem_labels
    · exact .inl (ihr h)

theorem label_target_mem_labels (c : Category α) : c.target.label ∈ c.labels := by
  induction c with
  | atom => exact List.mem_cons_self
  | func d r a l ihr _ => exact List.mem_cons_of_mem _ (List.mem_append_left _ ihr)

theorem arguments_eq_nil_of_isAtom {c : Category α} (h : c.isAtom = true) : c.arguments = [] := by
  cases c with
  | atom => rfl
  | func => cases h

end Category

/-! ## Renamed forms -/

namespace Body

def map (f : Var → Var) : Body → Body
  | .var v => .var (f v)
  | .app function arguments => .app (f function) (arguments.map f)

/-- The variables that occur in a body. -/
def vars : Body → List Var
  | .var v => [v]
  | .app function arguments => function :: arguments

end Body

namespace LogicalForm

/-- Renames the parameters and the variables of the body. -/
def map (f : Var → Var) : LogicalForm → LogicalForm
  | .lambda parameters body => .lambda (parameters.map f) (body.map f)
  | .unknown => .unknown
  | .indeterminate => .indeterminate

/-- How the outcome for a category has to change when its variables are renamed by `f`: a form has
    its variables renamed, and a clash of arguments is reported for the renamed variable. -/
inductive RenamesTo (f : Var → Var) (c : Headed) :
    Except Error LogicalForm → Except Error LogicalForm → Prop
  | form (form : LogicalForm) : RenamesTo f c (.ok form) (.ok (form.map f))
  | clash (v : Var) : RenamesTo f c (.error (.ambiguousArguments c.render v))
      (.error (.ambiguousArguments (Headed.render (c.map f)) (f v)))

/-! ## Repeated variables -/

/-- The list has no repetitions before this place, and what stands there has occurred before. -/
def IsFirstRepeated (v : Var) (vs : List Var) : Prop :=
  ∃ before after, vs = before ++ v :: after ∧ before.Nodup ∧ v ∈ before

variable {c : Headed} {f : Var → Var} {seen vs : List Var} {v : Var}

theorem firstRepeated?_eq_none_iff :
    firstRepeated? seen vs = none ↔ vs.Nodup ∧ ∀ v ∈ vs, v ∉ seen := by
  induction vs generalizing seen with
  | nil => simp [firstRepeated?]
  | cons w vs ih =>
    rw [firstRepeated?]
    by_cases hw : w ∈ seen
    · simp [hw]
    · -- No element of the rest is `w`, which has been seen now, or has been seen before.
      rw [if_neg hw, ih]
      grind

theorem firstRepeated?_eq_some_iff :
    firstRepeated? seen vs = some v ↔ ∃ before after, vs = before ++ v :: after ∧
      firstRepeated? seen before = none ∧ (v ∈ seen ∨ v ∈ before) := by
  induction vs generalizing seen with
  | nil => simp [firstRepeated?]
  | cons w vs ih =>
    rw [firstRepeated?]
    constructor
    · intro h
      split at h
      · rename_i hw
        cases h
        exact ⟨[], vs, rfl, rfl, .inl hw⟩
      · rename_i hw
        obtain ⟨before, after, rfl, hbefore, hv⟩ := ih.1 h
        refine ⟨w :: before, after, rfl, ?_, ?_⟩
        · rw [firstRepeated?, if_neg hw, hbefore]
        · simpa [or_assoc, or_left_comm] using hv
    · rintro ⟨before, after, heq, hbefore, hv⟩
      cases before with
      | nil =>
        obtain ⟨rfl, rfl⟩ := List.cons.inj heq
        rw [if_pos (by simpa using hv)]
      | cons u before =>
        obtain ⟨rfl, rfl⟩ := List.cons.inj heq
        rw [firstRepeated?] at hbefore
        split at hbefore
        · cases hbefore
        · rename_i hw
          rw [if_neg hw]
          exact ih.2 ⟨before, after, rfl, hbefore, by simpa [or_assoc, or_left_comm] using hv⟩

theorem firstRepeated?_nil_eq_none_iff : firstRepeated? [] vs = none ↔ vs.Nodup := by
  simp [firstRepeated?_eq_none_iff]

theorem firstRepeated?_nil_eq_some_iff :
    firstRepeated? [] vs = some v ↔ IsFirstRepeated v vs := by
  simp [firstRepeated?_eq_some_iff, firstRepeated?_eq_none_iff, IsFirstRepeated]

theorem firstRepeated?_map (seen : List Var) (hf : ∀ u ∈ vs, ∀ w ∈ seen ++ vs, f u = f w → u = w) :
    firstRepeated? (seen.map f) (vs.map f) = (firstRepeated? seen vs).map f := by
  induction vs generalizing seen with
  | nil => rfl
  | cons u vs ih =>
    have hmem : f u ∈ seen.map f ↔ u ∈ seen := by
      refine ⟨fun h => ?_, List.mem_map_of_mem⟩
      obtain ⟨w, hw, heq⟩ := List.mem_map.1 h
      rw [hf u List.mem_cons_self w (List.mem_append_left _ hw) heq.symm]
      exact hw
    rw [List.map_cons, firstRepeated?, firstRepeated?]
    by_cases hu : u ∈ seen
    · rw [if_pos hu, if_pos (hmem.2 hu), Option.map_some]
    · rw [if_neg hu, if_neg (mt hmem.1 hu), ← List.map_cons]
      -- The list of what has been seen gets longer by what the rest gets shorter by.
      exact ih (u :: seen) fun x hx w hw => hf x (List.mem_cons_of_mem _ hx) w
        (by simpa [or_left_comm] using hw)

/-! ## The argument that heads the body -/

theorem spine_map (f : Var → Var) (c : Headed) :
    spine (c.map f) = (spine c).map fun p => (p.1.map f, p.2.map f) := by
  induction c with
  | atom => rfl
  | func d r a l ihr _ => rw [Category.map, spine, spine, ihr, List.map_cons]

theorem fst_mem_arguments_of_mem_spine {p : Headed × Headed} (h : p ∈ spine c) :
    p.1 ∈ c.arguments := by
  induction c with
  | atom => cases h
  | func d r a l ihr _ =>
    rcases List.mem_cons.1 h with rfl | h
    · exact List.mem_cons_self
    · exact List.mem_cons_of_mem _ (ihr h)

theorem lookalikeHead?_map (f : Var → Var) (c : Headed) :
    lookalikeHead? (c.map f) = (lookalikeHead? c).map f := by
  unfold lookalikeHead?
  rw [spine_map, List.filter_map, List.getLast?_map, Option.map_map, Option.map_map]
  have hfilter : ∀ p : Headed × Headed,
      (p.1.map f).withoutFeatures.unifiable (p.2.map f).withoutFeatures =
        p.1.withoutFeatures.unifiable p.2.withoutFeatures := by
    intro p
    rw [Category.withoutFeatures_map, Category.withoutFeatures_map, Category.unifiable_map]
  have hhead : ∀ p : Headed × Headed, Headed.head (p.1.map f) = f p.1.head :=
    fun p => Category.label_map f p.1
  simp only [Function.comp_def, hfilter, hhead]

theorem mem_labels_of_lookalikeHead? (h : lookalikeHead? c = some v) : v ∈ c.labels := by
  obtain ⟨p, hp, rfl⟩ := Option.map_eq_some_iff.1 h
  have hmem : p ∈ spine c := List.mem_of_mem_filter (List.mem_of_getLast? hp)
  exact Category.label_mem_labels_of_mem_arguments (fst_mem_arguments_of_mem_spine hmem)

/-- The argument headed by a variable is found again after renaming. -/
theorem find?_head_map (hf : Set.InjOn f {v | v ∈ c.vars}) (hv : v ∈ c.labels) :
    (c.map f).arguments.find? (fun (a : Headed) => a.head == f v) =
      (c.arguments.find? fun (a : Headed) => a.head == v).map (Category.map f) := by
  rw [Category.arguments_map, List.find?_map]
  refine congrArg _ (List.find?_congr fun a ha => ?_)
  have hmem : a.label ∈ c.labels := Category.label_mem_labels_of_mem_arguments ha
  have hiff : f a.label = f v ↔ a.label = v :=
    ⟨fun h => hf (Headed.mem_vars.2 hmem) (Headed.mem_vars.2 hv) h, congrArg f⟩
  show ((a.map f).label == f v) = (a.label == v)
  rw [Category.label_map, Bool.eq_iff_iff, beq_iff_eq, beq_iff_eq]
  exact hiff

theorem headArgument?_map (hf : Set.InjOn f {v | v ∈ c.vars}) :
    headArgument? (c.map f) = (headArgument? c).map (Category.map f) := by
  unfold headArgument?
  rw [Category.target_map, Category.label_map, find?_head_map hf c.label_target_mem_labels,
    lookalikeHead?_map, Option.orElse_eq_orElse, Option.orElse_eq_or, Option.orElse_eq_or,
    Option.map_or]
  -- Both ways to find the argument look for a variable that occurs in the category.
  cases hlook : lookalikeHead? c with
  | none => rfl
  | some h =>
    have hfound := find?_head_map hf (mem_labels_of_lookalikeHead? hlook)
    rw [Option.map_some, Option.bind_some, Option.bind_some, hfound]

theorem mem_arguments_of_headArgument? {a : Headed} (h : headArgument? c = some a) :
    a ∈ c.arguments := by
  unfold headArgument? at h
  rw [Option.orElse_eq_orElse, Option.orElse_eq_or, Option.or_eq_some_iff] at h
  rcases h with h | ⟨-, h⟩
  · exact List.mem_of_find?_eq_some h
  · obtain ⟨v, -, h⟩ := Option.bind_eq_some_iff.1 h
    exact List.mem_of_find?_eq_some h

theorem map_head_arguments_map (f : Var → Var) (c : Headed) :
    (c.map f).arguments.map Headed.head = (c.arguments.map Headed.head).map f := by
  rw [Category.arguments_map, List.map_map, List.map_map]
  exact List.map_congr_left fun a _ => Category.label_map f a

theorem bodyOf_map (f : Var → Var) (a : Headed) : bodyOf (a.map f) = (bodyOf a).map f := by
  unfold bodyOf
  rw [Category.isAtom_map, map_head_arguments_map, Headed.head, Category.label_map]
  cases a.isAtom <;> rfl

/-- The head of an argument, then the heads of the arguments that it has itself. -/
theorem vars_bodyOf (a : Headed) : (bodyOf a).vars = a.head :: a.arguments.map Headed.head := by
  unfold bodyOf
  cases hatom : a.isAtom with
  | true => rw [if_pos rfl, Body.vars, Category.arguments_eq_nil_of_isAtom hatom, List.map_nil]
  | false => rfl

/-! ## Outcomes -/

/-- The form of a category whose arguments are headed by different variables. -/
def formOf (c : Headed) : LogicalForm :=
  if (c.arguments.map Headed.head).isEmpty ∧ c.target.name? ≠ some "S" then .unknown
  else match headArgument? c with
    | some a => .lambda (c.arguments.map Headed.head) (bodyOf a)
    | none => .indeterminate

theorem induce_eq (c : Headed) :
    induce c = match firstRepeated? [] (c.arguments.map Headed.head) with
      | some v => .error (.ambiguousArguments c.render v)
      | none => .ok (formOf c) := by
  unfold induce formOf
  dsimp only
  cases firstRepeated? [] (c.arguments.map Headed.head) with
  | some v => rfl
  | none =>
    by_cases hatom : (c.arguments.map Headed.head).isEmpty ∧ c.target.name? ≠ some "S"
    · rw [if_pos hatom, if_pos hatom]
    · rw [if_neg hatom, if_neg hatom]
      cases headArgument? c <;> rfl

theorem induce_eq_error_iff {e : Error} :
    induce c = .error e ↔ ∃ v, IsFirstRepeated v (c.arguments.map Headed.head) ∧
      e = .ambiguousArguments c.render v := by
  rw [induce_eq]
  simp only [← firstRepeated?_nil_eq_some_iff]
  cases firstRepeated? [] (c.arguments.map Headed.head) with
  | none => simp
  | some v => simp [eq_comm]

theorem induce_eq_ok_iff {form : LogicalForm} :
    induce c = .ok form ↔ (c.arguments.map Headed.head).Nodup ∧ form = formOf c := by
  rw [induce_eq, ← firstRepeated?_nil_eq_none_iff]
  cases firstRepeated? [] (c.arguments.map Headed.head) with
  | none => simp [eq_comm]
  | some v => simp

/-- There is no form just if two arguments, at different places, are headed by one variable. -/
theorem exists_induce_eq_error_iff :
    (∃ e, induce c = .error e) ↔ ∃ (i j : Nat) (a b : Headed), i < j ∧
      c.arguments[i]? = some a ∧ c.arguments[j]? = some b ∧ a.head = b.head := by
  have hnodup : (∃ e, induce c = .error e) ↔ ¬ (c.arguments.map Headed.head).Nodup := by
    rw [induce_eq, ← firstRepeated?_nil_eq_none_iff]
    cases firstRepeated? [] (c.arguments.map Headed.head) <;> simp
  rw [hnodup, List.Nodup, List.pairwise_map, List.pairwise_iff_getElem]
  constructor
  · intro h
    push Not at h
    obtain ⟨i, j, hi, hj, hlt, heq⟩ := h
    exact ⟨i, j, _, _, hlt, List.getElem?_eq_getElem hi, List.getElem?_eq_getElem hj, heq⟩
  · rintro ⟨i, j, a, b, hlt, ha, hb, heq⟩ hdistinct
    obtain ⟨hi, rfl⟩ := List.getElem?_eq_some_iff.1 ha
    obtain ⟨hj, rfl⟩ := List.getElem?_eq_some_iff.1 hb
    exact hdistinct i j hi hj hlt heq

theorem formOf_eq_lambda_iff {parameters : List Var} {body : Body} :
    formOf c = .lambda parameters body ↔ parameters = c.arguments.map Headed.head ∧
      ∃ a, headArgument? c = some a ∧ body = bodyOf a := by
  unfold formOf
  cases hhead : headArgument? c with
  | none => split <;> simp
  | some a =>
    have harguments : c.arguments ≠ [] :=
      List.ne_nil_of_mem (mem_arguments_of_headArgument? hhead)
    rw [if_neg fun h => harguments (by simpa using h.1)]
    simp [eq_comm]

theorem formOf_map (hf : Set.InjOn f {v | v ∈ c.vars}) : formOf (c.map f) = (formOf c).map f := by
  unfold formOf
  rw [headArgument?_map hf, map_head_arguments_map, Category.target_map, Category.name?_map,
    List.isEmpty_map]
  split
  · rfl
  · cases headArgument? c with
    | none => rfl
    | some a =>
      show lambda _ (bodyOf (a.map f)) = _
      rw [bodyOf_map]
      rfl

theorem renamesTo_induce (hf : Set.InjOn f {v | v ∈ c.vars}) :
    RenamesTo f c (induce c) (induce (c.map f)) := by
  have hheads : ∀ v ∈ c.arguments.map Headed.head, v ∈ c.vars := by
    intro v hv
    obtain ⟨a, ha, rfl⟩ := List.mem_map.1 hv
    exact Headed.mem_vars.2 (Category.label_mem_labels_of_mem_arguments ha)
  have hrepeated : firstRepeated? [] ((c.arguments.map Headed.head).map f) =
      (firstRepeated? [] (c.arguments.map Headed.head)).map f :=
    firstRepeated?_map [] fun u hu w hw => hf (hheads u hu) (hheads w hw)
  rw [induce_eq, induce_eq, map_head_arguments_map, hrepeated, formOf_map hf]
  cases firstRepeated? [] (c.arguments.map Headed.head) with
  | none => exact .form (formOf c)
  | some v => exact .clash v

/-- Renaming the variables of a category one-to-one renames the variables of its logical form, or
    the one that is reported; so the form of the canonical category is the form of the category with
    its variables numbered. There is no form just if two arguments are headed by one variable, and
    the first one to occur again is reported. -/
theorem induce_equivariant (c : Headed) :
    (∀ f : Var → Var, Set.InjOn f {v | v ∈ c.vars} →
      RenamesTo f c (induce c) (induce (c.map f))) ∧
    ((∃ e, induce c = .error e) ↔ ∃ (i j : Nat) (a b : Headed), i < j ∧
      c.arguments[i]? = some a ∧ c.arguments[j]? = some b ∧ a.head = b.head) ∧
    (∀ e, induce c = .error e ↔ ∃ v, IsFirstRepeated v (c.arguments.map Headed.head) ∧
      e = .ambiguousArguments c.render v) ∧
    RenamesTo c.numbering.apply c (induce c) (induce c.canonical) := by
  refine ⟨fun f hf => renamesTo_induce hf, exists_induce_eq_error_iff,
    fun e => induce_eq_error_iff, renamesTo_induce ?_⟩
  exact (Headed.bijOn_numbering c).injOn

/-- A verb modifier that looks for a noun first, with its variables in descending order. -/
def sampleModifier : Headed :=
  .func .forward
    (.func .backward
      (.func .backward (.atom "S" (.var 9) 7) (.atom "N" .unspecified 4) 7)
      (.func .backward (.atom "S" (.var 9) 7) (.atom "N" .unspecified 4) 7) 2)
    (.atom "N" .unspecified 1) 2

/-- Two arguments are headed by the variable 4. -/
def sampleClash : Headed :=
  .func .forward (.func .backward (.atom "S" .unspecified 7) (.atom "N" .unspecified 4) 7)
    (.atom "N" .unspecified 4) 7

theorem induce_equivariant_sample :
    induce sampleModifier = .ok (.lambda [1, 7, 4] (.app 7 [4])) ∧
    induce (sampleModifier.map (7 - ·)) = .ok (.lambda [6, 0, 3] (.app 0 [3])) ∧
    induce sampleModifier.canonical = .ok (.lambda [3, 1, 2] (.app 1 [2])) ∧
    induce (sampleClash.map (7 - ·)) =
      .error (.ambiguousArguments (Headed.render (sampleClash.map (7 - ·))) 3) := by
  -- The renaming turns the order of the variables round.
  have hinj : ∀ v w : Nat, v ≤ 7 → w ≤ 7 → 7 - v = 7 - w → v = w := by omega
  have hmodifier : ∀ v ∈ sampleModifier.vars, v ≤ 7 := by decide +kernel
  have hclash : ∀ v ∈ sampleClash.vars, v ≤ 7 := by decide +kernel
  have hform : induce sampleModifier = .ok (.lambda [1, 7, 4] (.app 7 [4])) := by decide +kernel
  have herror : induce sampleClash = .error (.ambiguousArguments sampleClash.render 4) := by
    decide +kernel
  obtain ⟨hrename, -, -, hcanonical⟩ := induce_equivariant sampleModifier
  have hrenamed := hrename (7 - ·) fun v hv w hw => hinj v w (hmodifier v hv) (hmodifier w hw)
  have hreported := (induce_equivariant sampleClash).1 (7 - ·) fun v hv w hw =>
    hinj v w (hclash v hv) (hclash w hw)
  rw [hform] at hrenamed hcanonical
  rw [herror] at hreported
  refine ⟨hform, ?_, ?_, ?_⟩
  · generalize induce (sampleModifier.map (7 - ·)) = outcome at hrenamed ⊢
    cases hrenamed
    rfl
  · generalize induce sampleModifier.canonical = outcome at hcanonical ⊢
    cases hcanonical
    rfl
  · generalize induce (sampleClash.map (7 - ·)) = outcome at hreported ⊢
    cases hreported
    rfl

/-! ## Free variables -/

/-- The parameters of a lambda term are the heads of the arguments of its category, all different
    and in the order of the arguments. The body is headed by one of these arguments: it is the head
    of that argument alone, if the argument is an atom, and otherwise that head applied to the heads
    of the arguments which the argument has itself. So the body begins with a parameter, and the
    term has no free variable just if every argument of the argument shares its head with an
    argument of the category. -/
theorem lambda_closed_iff {parameters : List Var} {body : Body}
    (h : induce c = .ok (.lambda parameters body)) :
    parameters = c.arguments.map Headed.head ∧ parameters.Nodup ∧
    ∃ a : Headed, a ∈ c.arguments ∧ a.head ∈ parameters ∧
      (a.isAtom = true → body = .var a.head) ∧
      (a.isAtom = false → body = .app a.head (a.arguments.map Headed.head)) ∧
      ((∀ v ∈ body.vars, v ∈ parameters) ↔
        ∀ b : Headed, b ∈ a.arguments → ∃ b' : Headed, b' ∈ c.arguments ∧ b'.head = b.head) := by
  obtain ⟨hnodup, hform⟩ := induce_eq_ok_iff.1 h
  obtain ⟨rfl, a, ha, rfl⟩ := formOf_eq_lambda_iff.1 hform.symm
  have hmem : a ∈ c.arguments := mem_arguments_of_headArgument? ha
  have hhead : a.head ∈ c.arguments.map Headed.head := List.mem_map_of_mem hmem
  refine ⟨rfl, hnodup, a, hmem, hhead, ?_, ?_, ?_⟩
  · exact fun hatom => by rw [bodyOf, if_pos hatom]
  · exact fun hatom => by rw [bodyOf, if_neg (by simp [hatom])]
  · rw [vars_bodyOf, List.forall_mem_cons, List.forall_mem_map]
    constructor
    · exact fun hbound b hb => List.mem_map.1 (hbound.2 b hb)
    · exact fun hshared => ⟨hhead, fun b hb => List.mem_map.2 (hshared b hb)⟩

/-- The verb phrase in the modifier shares its subject with what is left after it. -/
theorem lambda_closed_iff_sample :
    induce sampleModifier = .ok (.lambda [1, 7, 4] (.app 7 [4])) ∧
      [1, 7, 4] = sampleModifier.arguments.map Headed.head ∧ [1, 7, 4].Nodup ∧
      ∀ v ∈ (Body.app 7 [4]).vars, v ∈ [1, 7, 4] := by
  have hform : induce sampleModifier = .ok (.lambda [1, 7, 4] (.app 7 [4])) := by decide +kernel
  obtain ⟨hparameters, hnodup, a, hmem, -, -, -, hclosed⟩ := lambda_closed_iff hform
  have hshared : ∀ a ∈ sampleModifier.arguments, ∀ b ∈ Category.arguments a,
      ∃ b' ∈ sampleModifier.arguments, Headed.head b' = Headed.head b := by decide +kernel
  exact ⟨hform, hparameters, hnodup, hclosed.2 (hshared a hmem)⟩

/-- A type-raised noun phrase: it looks for the verb phrase whose subject it is. -/
def sampleTypeRaised : Headed :=
  .func .forward (.atom "S" .unspecified 0)
    (.func .backward (.atom "S" .unspecified 0) (.atom "NP" .unspecified 1) 0) 0

/-- The verb phrase is the only argument; its subject is no argument of the noun phrase. -/
theorem exists_free_variable :
    ∃ (parameters : List Var) (body : Body),
      induce sampleTypeRaised = .ok (.lambda parameters body) ∧ ∃ v ∈ body.vars, v ∉ parameters :=
  ⟨[0], .app 0 [1], by decide +kernel, 1, by decide, by decide⟩

end LogicalForm

end Categorial
