/-
  Categorial.Proofs.Sign.Invariant

  What holds of every sign that the library makes (`Sign.Invariant`): its category is canonical, its
  parts are sorted, all its variables belong to its category, and no dependency waits for a variable
  that has a predicate already.  Every step that makes a sign ends by finishing a merge, and
  finishing establishes all of it, whatever was merged (`Merge.invariant_finish`).  Since
  assignments ascend, halving finds all predicates of a variable (`searchPredicates_eq`).
-/

import Categorial.LexicalCategory
import Categorial.Proofs.Category.Numbering
import Categorial.Proofs.Combinator
import Categorial.Proofs.Merge
import Mathlib.Data.List.TakeWhile

namespace Categorial

namespace Sign

/-! ## The invariant -/

/-- What holds of every sign that can be made. -/
structure Invariant (s : Sign) : Prop where
  canonical : s.category.isCanonical = true
  assignments_ascending : StrictlyAscending s.assignments
  unfilled_ascending : Ascending s.unfilled
  assigned_mem : ∀ a ∈ s.assignments, a.var ∈ s.category.labels
  pending_mem : ∀ d ∈ s.unfilled, ∀ v ∈ d.vars, v ∈ s.category.labels
  /-- Nothing waits for a variable that has a predicate. -/
  saturated : ∀ d ∈ s.unfilled, ∀ v ∈ d.vars, ∀ a ∈ s.assignments, a.var ≠ v

end Sign

namespace Merge

/-! ## Finishing a merge -/

variable {m : Merge} {result : Headed}

theorem mem_assignments_finish {a : Assignment} :
    a ∈ (m.finish result).sign.assignments ↔
      ∃ b ∈ m.assignments, result.numbering.image? b.var = some a.var ∧
        b.predicate = a.predicate := by
  simp only [finish, Sign.ofParts, mem_sortedSet, List.mem_filterMap, Option.map_eq_some_iff]
  constructor
  · rintro ⟨b, hb, i, hi, rfl⟩
    exact ⟨b, hb, hi, rfl⟩
  · rintro ⟨b, hb, hi, hp⟩
    refine ⟨b, hb, a.var, hi, ?_⟩
    rw [hp]

/-- The dependencies of a merge that are pending after resolution. -/
def pendingAfter (m : Merge) : List Pending :=
  m.pending.flatMap fun d => (d.resolve m.predicatesOf).pendingPart d

/-- The dependencies of a merge that resolution fills. -/
def filledBy (m : Merge) : List Dependency :=
  m.pending.flatMap fun d => (d.resolve m.predicatesOf).filledPart

theorem sign_finish :
    (m.finish result).sign = .ofParts result.canonical
      (m.assignments.filterMap fun a =>
        (result.numbering.image? a.var).map (⟨·, a.predicate⟩))
      (m.pendingAfter.filterMap (·.rename? result.numbering)) := by
  simp only [finish, pendingAfter, List.flatMap_map, Headed.canonical]

theorem unfilled_finish :
    (m.finish result).sign.unfilled =
      sorted (m.pendingAfter.filterMap (·.rename? result.numbering)) := by
  simp only [finish, Sign.ofParts, pendingAfter, List.flatMap_map]

theorem filled_finish : (m.finish result).filled = sorted m.filledBy := by
  simp only [finish, filledBy, List.flatMap_map]

theorem abandoned_finish :
    (m.finish result).abandoned =
      m.abandoned ++ m.pendingAfter.filter fun d => (d.rename? result.numbering).isNone := by
  simp only [finish, pendingAfter, List.flatMap_map]

/-- What is pending after resolution waits only for variables without a predicate. -/
theorem unassigned_of_mem_pendingAfter {d : Pending} (hd : d ∈ m.pendingAfter) {v : Var}
    (hv : v ∈ d.vars) : ∀ a ∈ m.assignments, a.var ≠ v := by
  -- It is one of the outcomes of a pending dependency, and outcomes wait for the unknown only.
  obtain ⟨e, -, he⟩ := List.mem_flatMap.1 hd
  have hlink : d.link ∈ e.link.outcomes (knownIn m.assignments) := by
    rw [← Pending.resolve_outcomes m.coe_predicatesOf, Multiset.mem_coe]
    exact List.mem_append_right _ (List.mem_map_of_mem he)
  rw [← Pending.vars_link] at hv
  have hunknown := Link.unknown_of_mem_outcomes hlink hv
  rintro a ha rfl
  have hknown : a.predicate ∈ knownIn m.assignments a.var := mem_knownIn.2 ha
  rw [hunknown] at hknown
  exact Finset.notMem_empty _ hknown

theorem mem_vars_of_mem_unfilled_finish {d : Pending}
    (hd : d ∈ (m.finish result).sign.unfilled) {i : Var} (hi : i ∈ d.vars) :
    ∃ e ∈ m.pendingAfter, ∃ v ∈ e.vars, result.numbering.image? v = some i := by
  rw [unfilled_finish, mem_sorted] at hd
  obtain ⟨e, he, hrename⟩ := List.mem_filterMap.1 hd
  refine ⟨e, he, ?_⟩
  have hsome := Option.isSome_iff_exists.2 ⟨d, hrename⟩
  rw [Pending.rename?_isSome_iff] at hsome
  rw [← Pending.vars_link, Pending.link_of_rename? hrename, Link.vars_rename, Pending.vars_link,
    List.mem_map] at hi
  obtain ⟨v, hv, rfl⟩ := hi
  obtain ⟨j, hj⟩ := Option.isSome_iff_exists.1 (hsome v hv)
  exact ⟨v, hv, hj.trans (congrArg some (Renaming.apply_of_image? hj).symm)⟩

/-- Finishing a merge establishes the invariant, whatever was merged. -/
theorem invariant_finish (m : Merge) (result : Headed) : (m.finish result).sign.Invariant where
  canonical := Headed.isCanonical_rename_numbering
  assignments_ascending := strictlyAscending_sortedSet _
  unfilled_ascending := ascending_sorted _
  assigned_mem a ha := by
    obtain ⟨b, -, hb, -⟩ := mem_assignments_finish.1 ha
    exact Headed.mem_labels_rename_numbering hb
  pending_mem d hd i hi := by
    obtain ⟨e, -, v, -, hv⟩ := mem_vars_of_mem_unfilled_finish hd hi
    exact Headed.mem_labels_rename_numbering hv
  saturated d hd i hi a ha hai := by
    obtain ⟨e, he, v, hv, hvi⟩ := mem_vars_of_mem_unfilled_finish hd hi
    obtain ⟨b, hb, hba, -⟩ := mem_assignments_finish.1 ha
    -- Numbers tell variables apart, so both sides speak of one variable of the merge.
    have hvar : b.var = v := by
      rw [hai] at hba
      exact Headed.numbering_inj hba hvi
    exact unassigned_of_mem_pendingAfter he hv b hb hvar

end Merge

namespace Sign

theorem invariant_bare (c : Headed) : (bare c).Invariant where
  canonical := Headed.isCanonical_rename_numbering
  assignments_ascending := List.Pairwise.nil
  unfilled_ascending := List.Pairwise.nil
  assigned_mem _ h := by cases h
  pending_mem _ h := by cases h
  saturated _ h := by cases h

/-! ## Looking up predicates -/

/-- The predicates known for a variable, cut out between two places that halving finds. -/
def searchPredicates (s : Sign) (v : Var) : List Predicate :=
  let vars := s.assignments.map Assignment.var
  let start := partitionPoint (· < v) vars
  let stop := partitionPoint (· ≤ v) vars
  ((s.assignments.map Assignment.predicate).take stop).drop start

/-- The predicates paired with a variable. -/
def assignedTo (s : Sign) (v : Var) : List Predicate :=
  (s.assignments.filter (·.var = v)).map Assignment.predicate

theorem var_le_of_compare_lt {a b : Assignment} (h : compare a b = .lt) : a.var ≤ b.var := by
  have hlex : compareLex (compareOn Assignment.var) (compareOn Assignment.predicate) a b = .lt := h
  rw [compareLex, Ordering.then_eq_lt] at hlex
  rcases hlex with hlt | ⟨heq, -⟩
  · exact Nat.le_of_lt (Nat.compare_eq_lt.1 hlt)
  · exact Nat.le_of_eq (Nat.compare_eq_eq.1 heq)

/-- A list of assignments consists of those below a variable, those of it and those above it. -/
structure Parted (v : Var) (l below equal above : List Assignment) : Prop where
  eq : l = below ++ (equal ++ above)
  below : ∀ a ∈ below, a.var < v
  equal : ∀ a ∈ equal, a.var = v
  above : ∀ a ∈ above, v < a.var

theorem exists_parted {l : List Assignment} (h : l.Pairwise fun a b => a.var ≤ b.var) (v : Var) :
    ∃ below equal above, Parted v l below equal above := by
  induction l with
  | nil => exact ⟨[], [], [], rfl, by simp, by simp, by simp⟩
  | cons a l ih =>
    obtain ⟨ha, hl⟩ := List.pairwise_cons.1 h
    obtain ⟨below, equal, above, rfl, hbelow, hequal, habove⟩ := ih hl
    rcases Nat.lt_trichotomy a.var v with hlt | heq | hgt
    · refine ⟨a :: below, equal, above, rfl, ?_, hequal, habove⟩
      rintro b (_ | ⟨_, hb⟩)
      · exact hlt
      · exact hbelow b hb
    · -- Nothing after `a` is below `v`.
      have hnone : below = [] := by
        refine List.eq_nil_iff_forall_not_mem.2 fun b hb => ?_
        have hle : a.var ≤ b.var := ha b (List.mem_append_left _ hb)
        exact Nat.lt_irrefl v (Nat.lt_of_le_of_lt (heq ▸ hle) (hbelow b hb))
      subst hnone
      refine ⟨[], a :: equal, above, rfl, by simp, ?_, habove⟩
      rintro b (_ | ⟨_, hb⟩)
      · exact heq
      · exact hequal b hb
    · refine ⟨[], [], a :: (below ++ (equal ++ above)), rfl, by simp, by simp, ?_⟩
      rintro b (_ | ⟨_, hb⟩)
      · exact hgt
      · exact Nat.lt_of_lt_of_le hgt (ha b hb)

namespace Parted

variable {v : Var} {l below equal above : List Assignment} (h : Parted v l below equal above)

include h

theorem not_lt {a : Assignment} (ha : a ∈ equal ++ above) : decide (a.var < v) = false := by
  rw [decide_eq_false_iff_not, Nat.not_lt]
  rcases List.mem_append.1 ha with ha | ha
  · exact Nat.le_of_eq (h.equal a ha).symm
  · exact Nat.le_of_lt (h.above a ha)

theorem le {a : Assignment} (ha : a ∈ below ++ equal) : decide (a.var ≤ v) = true := by
  rw [decide_eq_true_iff]
  rcases List.mem_append.1 ha with ha | ha
  · exact Nat.le_of_lt (h.below a ha)
  · exact Nat.le_of_eq (h.equal a ha)

theorem filter_eq : l.filter (·.var = v) = equal := by
  have hb : below.filter (·.var = v) = [] :=
    List.filter_eq_nil_iff.2 fun a ha => by simpa using Nat.ne_of_lt (h.below a ha)
  have he : equal.filter (·.var = v) = equal :=
    List.filter_eq_self.2 fun a ha => by simpa using h.equal a ha
  have ha : above.filter (·.var = v) = [] :=
    List.filter_eq_nil_iff.2 fun a ha => by simpa using Nat.ne_of_gt (h.above a ha)
  rw [h.eq, List.filter_append, List.filter_append, hb, he, ha, List.nil_append, List.append_nil]

theorem takeWhile_dropWhile_eq : (l.dropWhile (·.var < v)).takeWhile (·.var ≤ v) = equal := by
  have hdrop : (equal ++ above).dropWhile (·.var < v) = equal ++ above :=
    List.dropWhile_eq_self_iff.2 fun hl => by
      rw [h.not_lt (List.getElem_mem hl)]
      exact Bool.false_ne_true
  have htake : above.takeWhile (·.var ≤ v) = [] :=
    List.takeWhile_eq_nil_iff.2 fun hl => by
      have hgt := h.above _ (List.getElem_mem hl)
      simpa using hgt
  rw [h.eq, List.dropWhile_append_of_pos fun a ha => decide_eq_true (h.below a ha), hdrop,
    List.takeWhile_append_of_pos fun a ha => h.le (List.mem_append_right _ ha), htake,
    List.append_nil]

theorem partitionPoint_lt :
    partitionPoint (· < v) (l.map Assignment.var) = below.length := by
  rw [h.eq, List.map_append, partitionPoint_append, List.length_map]
  · intro i hi
    obtain ⟨a, ha, rfl⟩ := List.mem_map.1 hi
    exact decide_eq_true (h.below a ha)
  · intro i hi
    obtain ⟨a, ha, rfl⟩ := List.mem_map.1 hi
    exact h.not_lt ha

theorem partitionPoint_le :
    partitionPoint (· ≤ v) (l.map Assignment.var) = (below ++ equal).length := by
  rw [h.eq, ← List.append_assoc, List.map_append, partitionPoint_append, List.length_map]
  · intro i hi
    obtain ⟨a, ha, rfl⟩ := List.mem_map.1 hi
    exact h.le ha
  · intro i hi
    obtain ⟨a, ha, rfl⟩ := List.mem_map.1 hi
    exact decide_eq_false (Nat.not_le.2 (h.above a ha))

end Parted

/-- When assignments ascend, the neighbours that are looked at are all the predicates of a
    variable. -/
theorem predicatesOf_eq {s : Sign} (h : StrictlyAscending s.assignments) (v : Var) :
    s.predicatesOf v = s.assignedTo v := by
  obtain ⟨below, equal, above, hparted⟩ := exists_parted (h.imp var_le_of_compare_lt) v
  rw [predicatesOf, assignedTo, hparted.takeWhile_dropWhile_eq, hparted.filter_eq]

/-- When assignments ascend, halving finds both ends of the predicates of a variable. -/
theorem searchPredicates_eq {s : Sign} (h : StrictlyAscending s.assignments) (v : Var) :
    s.searchPredicates v = s.assignedTo v := by
  obtain ⟨below, equal, above, hparted⟩ := exists_parted (h.imp var_le_of_compare_lt) v
  have hslice : (s.assignments.map Assignment.predicate).take (below ++ equal).length =
      below.map Assignment.predicate ++ equal.map Assignment.predicate := by
    rw [hparted.eq, ← List.append_assoc, List.map_append, ← List.length_map, List.take_left,
      List.map_append]
  rw [searchPredicates, hparted.partitionPoint_lt, hparted.partitionPoint_le, hslice,
    ← List.length_map, List.drop_left, assignedTo, hparted.filter_eq]

/-! ## Reachable signs -/

/-- The signs that can be made, by any number of steps. -/
inductive Reachable : Sign → Prop
  | lexical (c : LexicalCategory) (index : Nat) : Reachable (c.signAt index).sign
  | bare (c : Headed) : Reachable (Sign.bare c)
  | apply {mode : FeatureMode} {dir : Direction} {functor argument : Sign} {c : Combination}
      (hf : Reachable functor) (ha : Reachable argument)
      (h : functor.apply mode dir argument = some c) : Reachable c.sign
  | compose {mode : FeatureMode} {dir : Direction} {functor other : Sign} {c : Combination}
      (hf : Reachable functor) (ho : Reachable other)
      (h : functor.compose mode dir other = some c) : Reachable c.sign
  | combine {set : Combinators} {left right : Sign} {combinator : Combinator} {c : Combination}
      (hl : Reachable left) (hr : Reachable right)
      (h : (combinator, c) ∈ set.combine left right) : Reachable c.sign
  | unary {mode : FeatureMode} {rule : UnaryRule} {s : Sign} {c : Combination}
      (hs : Reachable s) (h : rule.apply mode s = some c) : Reachable c.sign

theorem invariant_of_apply {mode : FeatureMode} {dir : Direction} {functor argument : Sign}
    {c : Combination} (h : functor.apply mode dir argument = some c) : c.sign.Invariant := by
  obtain ⟨_, _, _, _, -, -, rfl⟩ := apply_eq_some_iff.1 h
  exact Merge.invariant_finish _ _

theorem invariant_of_compose {mode : FeatureMode} {dir : Direction} {functor other : Sign}
    {c : Combination} (h : functor.compose mode dir other = some c) : c.sign.Invariant := by
  obtain ⟨_, _, _, _, _, _, _, -, -, -, rfl⟩ := compose_eq_some_iff.1 h
  exact Merge.invariant_finish _ _

theorem invariant_of_combinator {mode : FeatureMode} {left right : Sign} {combinator : Combinator}
    {c : Combination} (h : combinator.apply mode left right = some c) : c.sign.Invariant := by
  cases combinator with
  | forwardApplication => exact invariant_of_apply h
  | backwardApplication => exact invariant_of_apply h
  | forwardComposition => exact invariant_of_compose h
  | backwardComposition => exact invariant_of_compose h

theorem Reachable.invariant {s : Sign} (h : s.Reachable) : s.Invariant := by
  -- The last step alone decides; how its parts were made does not matter.
  cases h with
  | lexical c index => exact Merge.invariant_finish _ _
  | bare c => exact invariant_bare c
  | apply _ _ h => exact invariant_of_apply h
  | compose _ _ h => exact invariant_of_compose h
  | combine _ _ h => exact invariant_of_combinator (Combinators.mem_combine.1 h).2
  | unary _ h =>
    obtain ⟨_, -, rfl⟩ := UnaryRule.apply_eq_some_iff.1 h
    exact Merge.invariant_finish _ _

/-- Every sign that can be made satisfies the invariant, and so halving finds all predicates of a
    variable in it. -/
theorem reachable_wellFormed (s : Sign) (h : s.Reachable) :
    s.Invariant ∧
      ∀ v, s.searchPredicates v = s.assignedTo v ∧ s.predicatesOf v = s.assignedTo v := by
  refine ⟨h.invariant, fun v => ?_⟩
  have hascending := h.invariant.assignments_ascending
  exact ⟨searchPredicates_eq hascending v, predicatesOf_eq hascending v⟩

/-- A transitive verb at the first word. -/
def sampleVerb : Sign :=
  (LexicalCategory.signAt
    ⟨.func .forward (.func .backward (.atom "S" .unspecified 0) (.atom "NP" .unspecified 1) 0)
        (.atom "NP" .unspecified 2) 0,
      some ⟨[["see"], [], []], [⟨.predicate "see", 1, 1⟩, ⟨.predicate "see", 2, 2⟩]⟩⟩ 0).sign

/-- A noun phrase at the second word. -/
def sampleNoun : Sign :=
  (LexicalCategory.signAt ⟨.atom "NP" .unspecified 0, some ⟨[["dog"]], []⟩⟩ 1).sign

/-- The verb still waits for its subject when it has its object. -/
def samplePhrase : Combination where
  sign :=
    ⟨.func .backward (.atom "S" .unspecified 0) (.atom "NP" .unspecified 1) 0, [⟨0, "see", 0⟩],
      [.objectOpen ⟨"see", 0⟩ 1 1]⟩
  filled := [⟨⟨"see", 0⟩, 2, ⟨"dog", 1⟩⟩]
  abandoned := []

theorem apply_sampleVerb : sampleVerb.apply .strict .forward sampleNoun = some samplePhrase := by
  decide +kernel

theorem reachable_wellFormed_samplePhrase :
    samplePhrase.sign.Reachable ∧ samplePhrase.sign.Invariant ∧
      samplePhrase.sign.searchPredicates 0 = [⟨"see", 0⟩] := by
  have hreachable : samplePhrase.sign.Reachable :=
    .apply (.lexical _ 0) (.lexical _ 1) apply_sampleVerb
  obtain ⟨hinvariant, hsearch⟩ := reachable_wellFormed samplePhrase.sign hreachable
  refine ⟨hreachable, hinvariant, (hsearch 0).1.trans ?_⟩
  decide

end Sign

end Categorial
