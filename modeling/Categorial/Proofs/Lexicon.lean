/-
  Categorial.Proofs.Lexicon

  Looking entries up.  A lexicon made from a list of entries has for a sequence of words just those
  entries of the list whose words differ from them in upper and lower case only, in the order of the
  list (`entriesFor_ofList`).  It knows the number of its entries and of the words of the longest
  one (`size_ofList`, `longest_ofList`).
-/

import Categorial.Lexicon.Basic

namespace Categorial.Lexicon

theorem lookup_cons_of_ne {k k' : List String} (h : k ≠ k') (es : List LexicalEntry)
    (groups : List (List String × List LexicalEntry)) :
    ((k', es) :: groups).lookup k = groups.lookup k := by
  rw [List.lookup_cons, beq_false_of_ne h]

theorem lookup_addToGroup (key k : List String) (e : LexicalEntry)
    (groups : List (List String × List LexicalEntry)) :
    (addToGroup key e groups).lookup k =
      if k = key then some ((groups.lookup key).getD [] ++ [e]) else groups.lookup k := by
  induction groups with
  | nil =>
    by_cases hk : k = key
    · simp [addToGroup, hk]
    · simp [addToGroup, lookup_cons_of_ne, hk]
  | cons group groups ih =>
    obtain ⟨k', es⟩ := group
    by_cases hgroup : k' = key
    · subst hgroup
      by_cases hk : k = k'
      · simp [addToGroup, hk]
      · simp [addToGroup, lookup_cons_of_ne, hk]
    · -- The entry goes into a later group; the group in front matters only for its own key.
      have hgroup' : key ≠ k' := fun h => hgroup h.symm
      simp only [addToGroup, hgroup, if_false]
      by_cases hk : k = k'
      · subst hk
        simp [hgroup]
      · rw [lookup_cons_of_ne hk, lookup_cons_of_ne hk, lookup_cons_of_ne hgroup', ih]

theorem entriesFor_add (l : Lexicon) (e : LexicalEntry) (words : List String) :
    (l.add e).entriesFor words =
      l.entriesFor words ++ if lookupKey e.words = lookupKey words then [e] else [] := by
  simp only [entriesFor, add, lookup_addToGroup]
  by_cases hkey : lookupKey e.words = lookupKey words
  · simp [hkey]
  · have hkey' : lookupKey words ≠ lookupKey e.words := fun h => hkey h.symm
    simp [hkey, hkey']

theorem entriesFor_foldl_add (l : Lexicon) (es : List LexicalEntry) (words : List String) :
    (es.foldl add l).entriesFor words =
      l.entriesFor words ++ es.filter fun e => lookupKey e.words = lookupKey words := by
  induction es generalizing l with
  | nil => simp
  | cons e es ih =>
    rw [List.foldl_cons, ih, entriesFor_add, List.append_assoc, List.filter_cons]
    by_cases hkey : lookupKey e.words = lookupKey words <;> simp [hkey]

theorem entriesFor_ofList (es : List LexicalEntry) (words : List String) :
    (ofList es).entriesFor words = es.filter fun e => lookupKey e.words = lookupKey words :=
  entriesFor_foldl_add empty es words

theorem mem_entriesFor_ofList {es : List LexicalEntry} {words : List String} {e : LexicalEntry} :
    e ∈ (ofList es).entriesFor words ↔ e ∈ es ∧ lookupKey e.words = lookupKey words := by
  rw [entriesFor_ofList, List.mem_filter, decide_eq_true_iff]

theorem entriesFor_ofList_eq_nil_iff {es : List LexicalEntry} {words : List String} :
    (ofList es).entriesFor words = [] ↔ ∀ e ∈ es, lookupKey e.words ≠ lookupKey words := by
  rw [entriesFor_ofList, List.filter_eq_nil_iff]
  simp

theorem size_foldl_add (l : Lexicon) (es : List LexicalEntry) :
    (es.foldl add l).size = l.size + es.length := by
  induction es generalizing l with
  | nil => rfl
  | cons e es ih =>
    have hadd : (l.add e).size = l.size + 1 := rfl
    rw [List.foldl_cons, ih, hadd, List.length_cons]
    omega

theorem longest_foldl_add (l : Lexicon) (es : List LexicalEntry) :
    (es.foldl add l).longest = (es.map (·.words.length)).foldl max l.longest := by
  induction es generalizing l with
  | nil => rfl
  | cons e es ih => rw [List.foldl_cons, ih, List.map_cons, List.foldl_cons, add]

theorem size_ofList (es : List LexicalEntry) : (ofList es).size = es.length := by
  rw [ofList, size_foldl_add, empty, Nat.zero_add]

theorem longest_ofList (es : List LexicalEntry) :
    (ofList es).longest = (es.map (·.words.length)).max?.getD 0 := by
  rw [ofList, longest_foldl_add, empty, List.foldl_max, Nat.zero_max]

theorem length_le_longest {es : List LexicalEntry} {e : LexicalEntry} (h : e ∈ es) :
    e.words.length ≤ (ofList es).longest := by
  rw [longest_ofList]
  exact List.le_max?_getD_of_mem (List.mem_map_of_mem h)

theorem length_eq_of_lookupKey_eq {ws ws' : List String} (h : lookupKey ws = lookupKey ws') :
    ws.length = ws'.length := by
  simpa only [lookupKey, List.length_map] using congrArg List.length h

end Categorial.Lexicon
